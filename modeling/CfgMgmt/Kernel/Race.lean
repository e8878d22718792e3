import CfgMgmt.Kernel.Structs
import CfgMgmt.Lib.Machine

/-!
# Calls of `access_var` that overlap

`access_var` fills in a static request and hands it to `rpmsg_send`, which copies it when a transmit
buffer is free.  Here the two steps of a call are steps of their own, and any number of processes take
them in any order.  The wire carries the requests of the calls as long as no call writes the static
request between the two steps of another one (`clean_of_undisturbed`).
-/

namespace CfgMgmt.Kernel.Race

open CfgMgmt.Lib.Bytes CfgMgmt.Lib.Machine CfgMgmt.Msg CfgMgmt.Kernel.RpmsgLink
open CfgMgmt.Kernel.Structs

/-! ### The machine -/

/-- A call of `access_var`, with the struct as it found it and the number it has drawn. -/
structure Call where
  index : Int32
  acc : Access
  ptr : Ptr
  trans : Transaction
  num : ℕ

/-- The request that a call builds. -/
def Call.request (kstrtol : List UInt8 → Int32 × Int32) (c : Call) : CfgMsg :=
  { (Link.accessFields kstrtol c.acc c.trans { CfgMsg.zero with ind := c.index }).2 with
    seq := UInt32.ofNat c.num }

/-- The link layer, and the processes `P` that use it. -/
structure System (P : Type) where
  link : Link
  /-- the calls that have filled in their request and not yet sent it -/
  calls : P → Option Call
  /-- the process that was the last one to write the static request -/
  writer : Option P
  /-- the calls that have sent a request -/
  sent : List Call

/-- What the processes do: the two steps of `access_var`, and changes to a struct in between. -/
inductive Event (P : Type)
  /-- `access_var` up to `rpmsg_send`, for a struct that is not on `pending_list` -/
  | fill (p : P) (index : Int32) (acc : Access) (t : Ptr)
  /-- `rpmsg_send` copies the static request -/
  | send (p : P)
  /-- a client changes a struct, but not its number -/
  | change (t : Ptr) (x : Transaction)
  | reply (data : List UInt8)

section Step

variable {P : Type} [DecidableEq P] (kstrtol : List UInt8 → Int32 × Int32)

def step (s : System P) : Event P → Option (System P)
  | .fill p index acc t =>
    if (s.calls p).isSome ∨ t ∈ s.link.pendingList then none
    else
      let (err, link) := s.link.accessFill kstrtol index acc (some t)
      let s' := { s with link, writer := some p }
      if err ≠ 0 then some s'
      else
        let c : Call := ⟨index, acc, t, s.link.trans t, s.link.drawn⟩
        some { s' with calls := Function.update s.calls p (some c) }
  | .send p => do
    let c ← s.calls p
    let (_, link) := s.link.accessSend 0
    some { s with link, calls := Function.update s.calls p none, sent := s.sent ++ [c] }
  | .change t x => some { s with link := s.link.modify t fun y => { x with msgSeqNr := y.msgSeqNr } }
  | .reply data => some { s with link := s.link.rpmsgCb data }

/-- The module after `rpmsg_link_init`, when the structs have been handed out. -/
def start : System P where
  link := { Link.rpmsgLinkInit with unusedList := [] }
  calls _ := none
  writer := none
  sent := []

end Step

variable {P : Type} (kstrtol : List UInt8 → Int32 × Int32)

/-- The wire carries what the calls have built.  Of the requests numbered since that of a pending
struct, the one that was sent for the struct is the only one with its sequence number. -/
structure Clean (s : System P) : Prop where
  own : s.link.wire = s.sent.map (Call.request kstrtol)
  once : ∀ t ∈ s.link.pendingList, s.link.drawn ≤ s.link.number t + 2 ^ 32 →
    (∀ p c, s.calls p = some c → c.ptr ≠ t) →
      ∃ c, c.ptr = t ∧ (s.sent.filter fun c => s.link.number t ≤ c.num ∧
        (c.request kstrtol).seq = (s.link.trans t).msgSeqNr) = [c]

/-- A call copies the static request before any other call writes it. -/
def Undisturbed (s : System P) : Event P → Prop
  | .send p => ∀ c, s.calls p = some c → s.writer = some p
  | _ => True

/-! ### The invariant -/

/-- The static request is that of the last call that has filled it in, and the requests are sent in
the order of their numbers. -/
structure Inv (s : System P) : Prop where
  chnl : s.link.chnl = true
  numbered : Numbered s.link
  data : s.link.accessReq.data = .zero _
  own : s.link.wire = s.sent.map (Call.request kstrtol)
  sorted : s.sent.Pairwise fun c d => c.num < d.num
  sent_lt : ∀ c ∈ s.sent, c.num < s.link.drawn
  calls_lt : ∀ p c, s.calls p = some c → c.num < s.link.drawn
  writer : ∀ p c, s.calls p = some c → s.writer = some p →
    s.link.accessReq = c.request kstrtol ∧ ∀ d ∈ s.sent, d.num < c.num
  pending : ∀ t ∈ s.link.pendingList,
    ∃ c, c.ptr = t ∧ c.num = s.link.number t ∧ ((∃ p, s.calls p = some c) ∨ c ∈ s.sent)

variable {kstrtol} {s s' : System P}

lemma filter_num {l : List Call} (hl : l.Pairwise fun c d => c.num < d.num) {c : Call} (hc : c ∈ l)
    {q : Call → Bool} (hq : ∀ d ∈ l, q d = true ↔ d.num = c.num) : l.filter q = [c] := by
  induction l with
  | nil => exact absurd hc List.not_mem_nil
  | cons d l ih =>
    obtain ⟨hlt, hl⟩ := List.pairwise_cons.1 hl
    rcases List.mem_cons.1 hc with rfl | hc'
    · rw [List.filter_cons_of_pos ((hq c List.mem_cons_self).2 rfl), List.filter_eq_nil_iff.2]
      intro d hd hqd
      have h := (hq d (List.mem_cons_of_mem _ hd)).1 hqd
      have := hlt d hd
      omega
    · rw [List.filter_cons_of_neg, ih hl hc' fun e he => hq e (List.mem_cons_of_mem _ he)]
      intro hqd
      have h := (hq d List.mem_cons_self).1 hqd
      have := hlt c hc'
      omega

theorem clean_of_inv (h : Inv kstrtol s) : Clean kstrtol s := by
  refine ⟨h.own, fun t ht hy hdone => ?_⟩
  obtain ⟨c, rfl, hn, ⟨p, hp⟩ | hc⟩ := h.pending t ht
  · exact absurd rfl (hdone p c hp)
  · refine ⟨c, rfl, filter_num h.sorted hc fun d hd => ?_⟩
    have hd' := h.sent_lt d hd
    have hseq : (d.request kstrtol).seq = UInt32.ofNat d.num := rfl
    rw [h.numbered.seq c.ptr ht, hseq, decide_eq_true_iff, hn]
    constructor
    · rintro ⟨hle, e⟩
      have e' := congrArg UInt32.toNat e
      simp only [UInt32.toNat_ofNat'] at e'
      omega
    · intro e
      rw [e]
      exact ⟨le_rfl, rfl⟩

/-! ### One step -/

lemma accessFields_data (acc : Access) (x : Transaction) (req : CfgMsg) :
    (Link.accessFields kstrtol acc x req).2.data = req.data := by
  unfold Link.accessFields
  split
  · split
    · rfl
    · dsimp only
      split <;> rfl
  all_goals rfl

lemma accessFields_request {acc : Access} {x : Transaction} {req : CfgMsg} {index : Int32} {num : ℕ}
    {t : Ptr} (hd : req.data = .zero _)
    (h : (Link.accessFields kstrtol acc x { req with ind := index, val := 0, len := 0 }).1 = 0) :
    { (Link.accessFields kstrtol acc x { req with ind := index, val := 0, len := 0 }).2 with
      seq := UInt32.ofNat num } = Call.request kstrtol ⟨index, acc, t, x, num⟩ := by
  unfold Call.request
  cases acc with
  | unknown =>
    have he : -Linux.einval ≠ 0 := by decide
    exact absurd h he
  | val =>
    cases hr : x.rnw with
    | true => simp [Link.accessFields, CfgMsg.zero, hr, hd]
    | false =>
      by_cases hk : (kstrtol (Link.text x)).1 = 0
      · simp [Link.accessFields, CfgMsg.zero, hr, hk, hd]
      · simp [Link.accessFields, hr, hk] at h
  | _ => simp [Link.accessFields, CfgMsg.zero, hd]

section Step

variable [DecidableEq P]

lemma inv_fill {p : P} {index : Int32} {acc : Access} {t : Ptr} (h : Inv kstrtol s)
    (hs : step kstrtol s (.fill p index acc t) = some s') : Inv kstrtol s' := by
  simp only [step, Option.ite_none_left_eq_some] at hs
  obtain ⟨hfree, hs⟩ := hs
  rw [not_or, Option.not_isSome_iff_eq_none] at hfree
  obtain ⟨hp, ht⟩ := hfree
  by_cases he : (s.link.prepare kstrtol index acc t).1 = 0
  · rw [Link.accessFill_of_eq h.chnl he] at hs
    simp only [ne_eq, not_true_eq_false, if_false, Option.some.injEq] at hs
    subst hs
    have hcall : ∀ q c, Function.update s.calls p
        (some ⟨index, acc, t, s.link.trans t, s.link.drawn⟩) q = some c →
          q ≠ p ∧ s.calls q = some c ∨ q = p ∧ c = ⟨index, acc, t, s.link.trans t, s.link.drawn⟩ := by
      intro q c hc
      by_cases hq : q = p
      · subst hq
        rw [Function.update_self] at hc
        exact .inr ⟨rfl, (Option.some.inj hc).symm⟩
      · rw [Function.update_of_ne hq] at hc
        exact .inl ⟨hq, hc⟩
    refine ⟨h.chnl, ?_, ?_, h.own, h.sorted, ?_, ?_, ?_, ?_⟩
    · refine h.numbered.cons ht rfl rfl rfl ?_ fun u hu => ?_
      · simp [Link.fill]
      · simp [Link.fill, Function.update_of_ne hu]
    · exact (accessFields_data acc _ _).trans h.data
    · exact fun c hc => Nat.lt_succ_of_lt (h.sent_lt c hc)
    · intro q c hc
      rcases hcall q c hc with ⟨-, hc⟩ | ⟨-, rfl⟩
      · exact Nat.lt_succ_of_lt (h.calls_lt q c hc)
      · exact Nat.lt_succ_self _
    · intro q c hc hw
      rcases hcall q c hc with ⟨hq, -⟩ | ⟨-, rfl⟩
      · exact absurd (Option.some.inj hw).symm hq
      · exact ⟨accessFields_request h.data he, h.sent_lt⟩
    · intro u hu
      by_cases hut : u = t
      · subst hut
        exact ⟨_, rfl, by simp [Link.fill], .inl ⟨p, Function.update_self ..⟩⟩
      · obtain ⟨c, hc, hn, hin⟩ := h.pending u ((List.mem_cons.1 hu).resolve_left hut)
        refine ⟨c, hc, hn.trans (Function.update_of_ne hut ..).symm, hin.imp_left ?_⟩
        rintro ⟨q, hq⟩
        have hqp : q ≠ p := by
          rintro rfl
          exact Option.some_ne_none c (hq.symm.trans hp)
        exact ⟨q, (Function.update_of_ne hqp ..).trans hq⟩
  · rw [Link.accessFill_of_ne h.chnl he] at hs
    simp only [ne_eq, he, not_false_eq_true, if_true, Option.some.injEq] at hs
    subst hs
    refine ⟨h.chnl, h.numbered.of_sublist (List.Sublist.refl _) rfl rfl fun _ _ => rfl, ?_, h.own,
      h.sorted, h.sent_lt, h.calls_lt, fun q c hc hw => ?_, h.pending⟩
    · exact (accessFields_data acc _ _).trans h.data
    · obtain rfl := Option.some.inj hw
      exact absurd (hc.symm.trans hp) (Option.some_ne_none c)

lemma inv_send {p : P} (h : Inv kstrtol s) (hok : Undisturbed s (.send p))
    (hs : step kstrtol s (.send p) = some s') : Inv kstrtol s' := by
  obtain ⟨c, hc, hs⟩ := Option.bind_eq_some_iff.1 hs
  obtain ⟨hreq, hlt⟩ := h.writer p c hc (hok c hc)
  have hcall : ∀ {q d}, Function.update s.calls p none q = some d → q ≠ p ∧ s.calls q = some d := by
    intro q d hd
    by_cases hq : q = p
    · subst hq
      rw [Function.update_self] at hd
      cases hd
    · exact ⟨hq, (Function.update_of_ne hq ..).symm.trans hd⟩
  simp only [Link.accessSend, Link.rpmsgSend_eq, if_true, Option.some.injEq] at hs
  subst hs
  refine ⟨h.chnl, h.numbered.of_sublist (List.Sublist.refl _) rfl rfl fun _ _ => rfl, h.data, ?_, ?_,
    ?_, ?_, ?_, ?_⟩
  · rw [List.map_append, ← h.own, hreq]
    rfl
  · refine List.pairwise_append.2 ⟨h.sorted, List.pairwise_singleton .., fun d hd e he => ?_⟩
    rw [List.mem_singleton.1 he]
    exact hlt d hd
  · intro d hd
    rcases List.mem_append.1 hd with hd | hd
    · exact h.sent_lt d hd
    · rw [List.mem_singleton.1 hd]
      exact h.calls_lt p c hc
  · exact fun q d hd => h.calls_lt q d (hcall hd).2
  · intro q d hd hw
    exact absurd (Option.some.inj (hw.symm.trans (hok c hc))) (hcall hd).1
  · intro u hu
    obtain ⟨d, hd, hn, ⟨q, hq⟩ | hin⟩ := h.pending u hu
    · by_cases hqp : q = p
      · subst hqp
        obtain rfl := Option.some.inj (hc.symm.trans hq)
        exact ⟨c, hd, hn, .inr (List.mem_append_right _ (List.mem_singleton_self c))⟩
      · exact ⟨d, hd, hn, .inl ⟨q, (Function.update_of_ne hqp ..).trans hq⟩⟩
    · exact ⟨d, hd, hn, .inr (List.mem_append_left _ hin)⟩

/-- **A step keeps the invariant** when the request it sends was not overwritten. -/
theorem inv_step {e : Event P} (h : Inv kstrtol s) (hok : Undisturbed s e)
    (hs : step kstrtol s e = some s') : Inv kstrtol s' := by
  cases e with
  | fill p index acc t => exact inv_fill h hs
  | send p => exact inv_send h hok hs
  | change t x =>
    obtain rfl := Option.some.inj hs
    refine ⟨h.chnl, ?_, h.data, h.own, h.sorted, h.sent_lt, h.calls_lt, h.writer, h.pending⟩
    refine h.numbered.of_sublist (List.Sublist.refl _) rfl rfl fun u _ => ?_
    by_cases hu : u = t
    · subst hu
      rw [Link.modify_trans_self]
    · rw [Link.modify_trans_of_ne _ hu]
  | reply data =>
    obtain rfl := Option.some.inj hs
    rcases s.link.rpmsgCb_cases data with ⟨response, -, t, ht, -, e⟩ | ⟨-, e⟩
    · rw [e]
      have hsub : ∀ u ∈ s.link.pendingList.erase t, u ∈ s.link.pendingList :=
        fun u hu => List.mem_of_mem_erase hu
      refine ⟨h.chnl, ?_, h.data, h.own, h.sorted, h.sent_lt, h.calls_lt, h.writer,
        fun u hu => h.pending u (hsub u hu)⟩
      refine h.numbered.of_sublist List.erase_sublist rfl rfl fun u hu => ?_
      have hne : u ≠ t := by
        rintro rfl
        exact (List.Nodup.mem_erase_iff h.numbered.nodup).1 hu |>.1 rfl
      exact congrArg _ (Function.update_of_ne hne ..)
    · rw [e]
      exact h

/-! ### Every run -/

omit [DecidableEq P] in
lemma inv_start : Inv kstrtol (start : System P) := by
  refine ⟨rfl, ⟨List.Pairwise.nil, ?_, ?_⟩, rfl, rfl, List.Pairwise.nil, ?_, ?_, ?_, ?_⟩
  all_goals first | exact fun _ h => absurd h List.not_mem_nil | exact fun _ _ => nofun

/-- **The wire carries the requests of the calls** in every state of a run in which no call writes the
static request between the two steps of another one. -/
theorem clean_of_undisturbed {es : List (Event P)}
    (h : Steps (step kstrtol) Undisturbed (start : System P) es) :
    States (step kstrtol) (Clean kstrtol) start es := by
  intro pre hp s hr
  refine clean_of_inv ?_
  exact states_of_steps (fun s e s' => inv_step) inv_start h pre hp s hr

end Step

/-! ### Two processes -/

/-- One process after the other reads a variable. -/
def inTurn : List (Event Bool) :=
  [.fill false 0 .min 15, .send false, .fill true 1 .max 14, .send true]

theorem inTurn_clean : States (step fun _ => (0, 0)) (Clean fun _ => (0, 0)) start inTurn := by
  refine clean_of_undisturbed ((steps_cons rfl).2 ⟨trivial, (steps_cons rfl).2 ⟨fun _ _ => rfl, ?_⟩⟩)
  exact (steps_cons rfl).2 ⟨trivial, (steps_cons rfl).2 ⟨fun _ _ => rfl, trivial⟩⟩

/-- The second process fills in its request while the first one sleeps in `rpmsg_send`. -/
def overlapping : List (Event Bool) :=
  [.fill false 0 .min 15, .fill true 1 .max 14, .send false, .send true]

/-- The request of the second process is sent twice, and that of the first one is lost. -/
theorem overlapping_not_clean :
    ¬ States (step fun _ => (0, 0)) (Clean fun _ => (0, 0)) start overlapping := by
  intro h
  have hw := (h overlapping (List.prefix_refl _) _ rfl).own
  revert hw
  decide

end CfgMgmt.Kernel.Race
