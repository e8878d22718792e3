import CfgMgmt.Kernel.Completion
import CfgMgmt.Kernel.Leaks
import CfgMgmt.Kernel.Unshared
import CfgMgmt.System.Flow
import CfgMgmt.System.Writing

/-!
# The result of a request

The firmware builds every reply in one buffer that it does not clear, and the kernel module uses its
static request and its transaction structs again and again.  Whatever they hold from earlier traffic, the
error, the length and the text that a transaction ends with depend only on the request and on the table
that it finds (`same_outcome`).
-/

namespace CfgMgmt.System.Isolation

open CfgMgmt.Lib CfgMgmt.Lib.Bytes CfgMgmt.Lib.Machine CfgMgmt.Msg CfgMgmt.Firmware.Config
open CfgMgmt.Firmware.RegisterMap CfgMgmt.Firmware.ConfigRefinement
open CfgMgmt.Kernel.Linux CfgMgmt.Kernel.RpmsgLink CfgMgmt.Kernel.Files CfgMgmt.Kernel.Calls
open CfgMgmt.Kernel.Structs CfgMgmt.Kernel.Sessions CfgMgmt.Kernel.Hands CfgMgmt.Kernel.Unshared
open CfgMgmt.Kernel.Completion

/-! ### Outcomes -/

/-- What a transaction ends with: the bytes of its buffer behind `len` do not count. -/
structure Outcome where
  err : Int32
  len : Int32
  text : List UInt8

def outcome (x : Transaction) : Outcome := ⟨x.err, x.len, x.buf.read x.len.toUInt32.toNat⟩

section Outcomes

variable {rep rep₁ rep₂ : CfgMsg} {x x₁ x₂ : Transaction}

lemma outcome_ok (h : rep.type = resOk) : outcome (Link.complete rep x) = ⟨0, 0, []⟩ := by
  unfold Link.complete
  rw [if_pos h]
  rfl

lemma outcome_nVars (h : rep.type = resNVars) :
    outcome (Link.complete rep x) = ⟨x.err, 0, []⟩ := by
  have h0 : rep.type ≠ resOk := by
    rw [h]
    decide
  unfold Link.complete
  rw [if_neg h0, if_pos h]
  rfl

lemma outcome_answered (h0 : rep.type ≠ resOk) (h1 : rep.type ≠ resNVars) :
    outcome (Link.complete rep x) =
      ⟨replyErr rep, Int32.ofNat (replyText rep).length, replyText rep⟩ := by
  have hread : (answered rep x).buf.read (replyText rep).length = replyText rep := by
    show (x.buf.write 0 _ (replyText_fits rep)).bytes.take _ = _
    rw [bytes_write_zero, List.append_assoc, List.take_left' rfl]
  rw [complete_eq h0 h1]
  show Outcome.mk _ _ ((answered rep x).buf.read (Int32.ofNat (replyText rep).length).toUInt32.toNat) = _
  rw [toNat_ofNat (length_replyText_le rep), hread]
  rfl

/-- Two replies that say the same: their other fields may hold anything. -/
structure Alike (rep₁ rep₂ : CfgMsg) : Prop where
  type : rep₁.type = rep₂.type
  seq : rep₁.seq = rep₂.seq
  ind : rep₁.ind = rep₂.ind
  val : rep₂.type = resRdVal ∨ rep₂.type = resRdMin ∨ rep₂.type = resRdMax →
    rep₁.val.toInt = rep₂.val.toInt
  text : rep₂.type = resName ∨ rep₂.type = resDesc → rep₁.len.toNat = rep₂.len.toNat ∧
    rep₁.data.read rep₁.len.toNat = rep₂.data.read rep₂.len.toNat

lemma Alike.replyText_eq (h : Alike rep₁ rep₂) : replyText rep₁ = replyText rep₂ := by
  unfold replyText
  rw [h.type]
  split
  · rw [h.val ‹_›]
  split
  · obtain ⟨hlen, hread⟩ := h.text ‹_›
    rw [hread, hlen]
  rw [h.seq, h.ind]

lemma Alike.replyErr_eq (h : Alike rep₁ rep₂) : replyErr rep₁ = replyErr rep₂ := by
  unfold replyErr
  rw [h.type]
  split
  · rfl
  split
  · rw [(h.text ‹_›).1]
  · rfl

/-- **Replies that say the same leave the same outcome**, in structs whose errors agree where the reply
leaves them. -/
theorem outcome_eq (h : Alike rep₁ rep₂) (he : rep₂.type = resNVars → x₁.err = x₂.err) :
    outcome (Link.complete rep₁ x₁) = outcome (Link.complete rep₂ x₂) := by
  by_cases h0 : rep₂.type = resOk
  · rw [outcome_ok h0, outcome_ok (h.type.trans h0)]
  by_cases h1 : rep₂.type = resNVars
  · rw [outcome_nVars h1, outcome_nVars (h.type.trans h1), he h1]
  rw [outcome_answered h0 h1, outcome_answered (h.type ▸ h0) (h.type ▸ h1), h.replyText_eq, h.replyErr_eq]

end Outcomes

/-! ### The firmware -/

/-- Two requests that say the same: the data part of the static request is left over. -/
structure SameRequest (m₁ m₂ : CfgMsg) : Prop where
  seq : m₁.seq = m₂.seq
  type : m₁.type = m₂.type
  ind : m₁.ind = m₂.ind
  val : m₁.val = m₂.val

section Firmware

variable {n : VarCount} {κ δ ε ω : Type} {sem : CbSem n κ δ ε ω} {w₁ w₂ : World n κ δ ε ω}
  {m m₁ m₂ rep rep₁ rep₂ : CfgMsg}

lemma query_eq (h : SameRequest m₁ m₂) : query n m₁ = query n m₂ := by
  unfold query
  rw [h.type, h.ind, h.val]

/-- Without read callbacks the answer depends on the table only. -/
lemma answer_eq (hv : w₁.vars = w₂.vars) (hq : ∀ k, (w₁.vars k).rdCb = none)
    (q : Query (Fin n.1) ℤ) :
    ((regMap sem).serve w₁ q).2 = ((regMap sem).serve w₂ q).2 := by
  have hcell : ∀ k, w₁.vars k = w₂.vars k := fun k => congrFun hv k
  have hcb : ∀ (w : World n κ δ ε ω) k data, callCb sem none k true data w = w := fun _ _ _ => rfl
  cases q with
  | read k =>
    have hq₂ : (w₂.vars k).rdCb = none := hcell k ▸ hq k
    simp only [RegMap.serve, regMap, hq₂, hcb, hcell k]
  | min k => simp only [RegMap.serve, regMap, hcell k]
  | max k => simp only [RegMap.serve, regMap, hcell k]
  | name k => simp only [RegMap.serve, regMap, hcell k]
  | desc k => simp only [RegMap.serve, regMap, hcell k]
  | _ => rfl

lemma carriesText_eq {t : List UInt8} (h₁ : CarriesText t rep₁) (h₂ : CarriesText t rep₂) :
    rep₁.len.toNat = rep₂.len.toNat ∧
      rep₁.data.read rep₁.len.toNat = rep₂.data.read rep₂.len.toNat := by
  have hlen : rep₁.len.toNat = rep₂.len.toNat := h₁.1.trans h₂.1.symm
  refine ⟨hlen, ?_⟩
  rw [h₁.2, h₂.2, hlen]

/-- Two replies that carry the same answer, to requests with the same number and index. -/
lemma alike_of_carries {a : Answer ℤ (List UInt8)} (h₁ : Carries rep₁ a) (h₂ : Carries rep₂ a)
    (hseq : rep₁.seq = rep₂.seq) (hind : rep₁.ind = rep₂.ind) : Alike rep₁ rep₂ := by
  have htype : rep₁.type = rep₂.type := by
    cases a <;> exact h₁.1.trans h₂.1.symm
  refine ⟨htype, hseq, hind, fun ht => ?_, fun ht => ?_⟩
  · cases a with
    | val => exact h₁.2.1.trans h₂.2.1.symm
    | min => exact h₁.2.1.trans h₂.2.1.symm
    | max => exact h₁.2.1.trans h₂.2.1.symm
    | _ =>
      rw [h₂.1] at ht
      exact absurd ht (by decide)
  · cases a with
    | name => exact carriesText_eq h₁.2 h₂.2
    | desc => exact carriesText_eq h₁.2 h₂.2
    | _ =>
      rw [h₂.1] at ht
      exact absurd ht (by decide)

/-- Only the request for the number of variables is answered with it. -/
lemma type_of_nVars (w : World n κ δ ε ω) (hc : Carries rep ((regMap sem).serve w (query n m)).2)
    (ht : rep.type = resNVars) : m.type = reqNVars := by
  cases h : query n m with
  | count => exact query_eq_count h
  | _ =>
    rw [h] at hc
    have e := hc.1
    rw [ht] at e
    exact absurd e (by decide)

end Firmware

/-! ### The requests of the kernel module -/

section Kernel

variable {kstrtol : List UInt8 → Int32 × Int32} {k₀ k k' : Driver} {f : FileId} {file : File}
  {l : Link}

/-- The call has sent nothing, or a request for something else than the number of variables. -/
def Accesses (k k' : Driver) : Prop :=
  k'.link.chnl = true ∧ (k'.link.wire = k.link.wire ∨
    ∃ m, k'.link.wire = k.link.wire ++ [m] ∧ m.type ≠ reqNVars)

/-- The call has sent the request for the number of variables, and waits for its reply. -/
def Counts (k k' : Driver) : Prop :=
  k'.link.chnl = true ∧ ∃ m, k'.link.wire = k.link.wire ++ [m] ∧ m.seq = UInt32.ofNat k.link.drawn ∧
    k.link.drawn < k'.link.drawn ∧ ∃ t, Waits m.seq t k'

lemma Accesses.of_unsent (hc : k.link.chnl = true) (hk : k'.link.chnl = k.link.chnl)
    (hu : Unsent k.link k'.link) : Accesses k k' :=
  ⟨hk.trans hc, .inl hu.wire⟩

lemma Accesses.after (h : Accesses k k') (hw : k.link.wire = k₀.link.wire) : Accesses k₀ k' := by
  obtain ⟨hc, h⟩ := h
  rw [hw] at h
  exact ⟨hc, h⟩

lemma Accesses.before (h : Accesses k₀ k) (hc : k'.link.chnl = k.link.chnl)
    (hw : k'.link.wire = k.link.wire) : Accesses k₀ k' := by
  refine ⟨hc.trans h.1, ?_⟩
  rw [hw]
  exact h.2

lemma readType_ne (acc : Access) : readType acc ≠ reqNVars := by
  cases acc <;> decide

lemma prepare_type {index : Int32} {acc : Access} {t : Ptr}
    (h : (l.prepare kstrtol index acc t).1 = 0) : (l.prepare kstrtol index acc t).2.type ≠ reqNVars := by
  cases acc with
  | val =>
    cases hr : (l.trans t).rnw with
    | true =>
      have hacc : Access.val ≠ .unknown := nofun
      rw [prepare_reads hr hacc]
      exact readType_ne .val
    | false =>
      have hk := (Link.prepare_val.1 h).resolve_left fun ht => Bool.false_ne_true (hr.symm.trans ht)
      rw [prepare_writes hr hk]
      show reqWr ≠ reqNVars
      decide
  | unknown => exact absurd h einval_ne_zero
  | name => exact readType_ne .name
  | min => exact readType_ne .min
  | max => exact readType_ne .max
  | desc => exact readType_ne .desc

lemma accessVar_accesses (kstrtol : List UInt8 → Int32 × Int32) (file : File) (info : VarAccessInfo)
    (send : Int32) (hc : k.link.chnl = true) : Accesses k (k.accessVar kstrtol file info send).2 := by
  unfold Driver.accessVar
  by_cases h0 : (k.link.prepare kstrtol info.index info.type file.privateData).1 = 0
  · rw [Link.accessVar_of_eq hc h0, Link.rpmsgSend_eq]
    refine ⟨hc, ?_⟩
    by_cases hs : send = 0
    · exact .inr ⟨_, if_pos hs, prepare_type h0⟩
    · exact .inl (if_neg hs)
  · rw [Link.accessVar_of_ne hc h0]
    exact ⟨hc, .inl rfl⟩

lemma openedForWriting_accesses (h : Accesses k₀ k) (f : FileId) (file : File) :
    Accesses k₀ (k.openedForWriting f file) := by
  refine h.before ?_ (Kernel.Leaks.unsent_openedForWriting f file k).wire
  unfold Driver.openedForWriting
  split <;> rfl

lemma openVar_accesses {info : VarAccessInfo} {fModeRead fModeWrite nonblock mem : Bool} {send : Int32}
    (hc : k.link.chnl = true)
    (hs : k.debugfsOpenVar kstrtol f info fModeRead fModeWrite nonblock mem send = some k') :
    Accesses k k' := by
  unfold Driver.debugfsOpenVar at hs
  obtain ⟨⟨t, l⟩, ha, hs⟩ := Option.bind_eq_some_iff.1 hs
  have hal := Link.allocTrans_spec ha
  dsimp only at hs
  generalize (⟨.var info, fModeRead, fModeWrite, nonblock, 0, t, .ready⟩ : File) = file at hs
  split at hs
  · generalize hk : Driver.modifyTrans file (fun x => { x with rnw := true, wq := true })
      (Driver.setFile f (some file) { k with link := l }) = k₁ at hs
    have hc₁ : k₁.link.chnl = true := hk ▸ hal.chnl.trans hc
    have hw₁ : k₁.link.wire = k.link.wire := hk ▸ hal.wire
    have hacc := (accessVar_accesses kstrtol file info send hc₁).after hw₁
    split at hs
    · obtain rfl := Option.some.inj hs
      exact hacc
    · obtain rfl := Option.some.inj hs
      exact openedForWriting_accesses hacc f file
  · obtain rfl := Option.some.inj hs
    apply openedForWriting_accesses
    exact ⟨hal.chnl.trans hc, .inl hal.wire⟩

lemma releaseVar_accesses {send : Int32} (hc : k.link.chnl = true)
    (hs : k.debugfsReleaseVar kstrtol f file send = some k') : Accesses k k' := by
  rcases debugfsReleaseVar_cases hc hs with ⟨-, req, ret, -, rfl⟩ | ⟨-, i, -, rfl⟩
  · exact ⟨hc, .inl rfl⟩
  · have hacc : Accesses k (writeBack kstrtol ⟨i, .val⟩ send file k) :=
      accessVar_accesses kstrtol file ⟨i, .val⟩ send
        (k := k.modifyTrans file fun x => { x with wq := true, valid := false }) hc
    split
    · exact hacc
    · exact hacc

/-- The request for the number of variables is sent for a struct that nobody has. -/
lemma openLlCount_counts {mem : Bool} {send : Int32} (hc : k.link.chnl = true)
    (h : (pool k).idle.Sound) (hf : k.files f = some file)
    (hs : k.debugfsOpenLlCount f file mem send = some k') : Accesses k k' ∨ Counts k k' := by
  unfold Driver.debugfsOpenLlCount at hs
  obtain ⟨⟨ret, l⟩, hn, hs⟩ := Option.bind_eq_some_iff.1 hs
  obtain ⟨hret, -, -, -, -, -, -, hchnl, -, hd, -⟩ := Link.getNVars_spec hc hn
  dsimp only at hs
  split at hs
  · rename_i hne
    rw [hret] at hne
    obtain rfl := Option.some.inj hs
    refine .inl ⟨hchnl.trans hc, .inl ?_⟩
    rw [Link.getNVars_eq hc, Option.map_eq_some_iff] at hn
    obtain ⟨⟨u, l₁⟩, ha, hl⟩ := hn
    dsimp only at hl
    rw [Link.rpmsgSend_eq, if_neg hne] at hl
    exact (congrArg (fun r => r.2.wire) hl).symm.trans (Link.allocTrans_spec ha).wire
  · rename_i h0
    have hsend : send = 0 := hret.symm.trans (not_not.1 h0)
    rw [hsend] at hn
    obtain rfl := Option.some.inj hs
    obtain ⟨t, hw⟩ := getNVars_waits hc h hn
    have hstays := (Stays.refl { k with link := l }).setPhase (f := f) hf .count
    have hlt : k.link.drawn < l.drawn := hd ▸ Nat.lt_succ_self _
    refine .inr ⟨hchnl.trans hc, _, Kernel.Leaks.getNVars_wire hc hn, rfl, hlt, t, ?_⟩
    exact ⟨(Pool.Lost.congr hstays.unused hstays.made hstays.owner).2 hw.lost, hw.number, hw.newer⟩

theorem client_sends {e : Kernel.Files.Event} (hc : k.link.chnl = true) (h : (pool k).idle.Sound)
    (he : ∀ data, e ≠ .reply data) (hs : Kernel.Files.step kstrtol k e = some k') :
    Accesses k k' ∨ Counts k k' := by
  replace hs := leads_of_step hs
  cases hs with
  | openVar hf hs => exact .inl (openVar_accesses hc hs)
  | openLl hf hs =>
    obtain ⟨-, hk, hu⟩ := openLl_hands hf hs
    exact .inl (.of_unsent hc hk hu)
  | reply => exact absurd rfl (he _)
  | read file hf hready hread hs =>
    obtain ⟨hk, hu⟩ := readVar_hands hf hs
    exact .inl (.of_unsent hc hk.chnl hu)
  | write file hf hready hwrite hs =>
    subst hs
    exact .inl (.of_unsent hc (writeVar_hands _ _ _ hf).chnl (writeVar_link _ _ _ hf).1)
  | release file hf hready hs => exact .inl (releaseVar_accesses hc hs)
  | releaseWoken file hf hclosing hs =>
    obtain ⟨hu, hk, -⟩ := releaseVarWoken_hands hf hs
    exact .inl (.of_unsent hc hk hu)
  | llCount file hf hload hs => exact openLlCount_counts hc h hf hs
  | llCounted file hf hcount hs =>
    obtain ⟨hk, hu⟩ := openLlCounted_hands hf hs
    exact .inl (.of_unsent hc hk.chnl hu)
  | llQuery file i n hf hquery hs =>
    rcases debugfsOpenLlQuery_cases hc hs with ⟨-, rfl⟩ | ⟨-, k₁, hl, -, rfl⟩
    · exact .inl ⟨hc, .inl rfl⟩
    · have hc₁ : (k₁.modifyTrans file forName).link.chnl = true := (congrArg Link.chnl hl).trans hc
      have hw₁ : (k₁.modifyTrans file forName).link.wire = k.link.wire := by
        show k₁.link.wire = k.link.wire
        rw [hl]
      exact .inl ((accessVar_accesses kstrtol file ⟨Int32.ofNat i, .name⟩ _ hc₁).after hw₁)
  | llNamed file i n hf hname hs =>
    obtain ⟨hk, hu⟩ := openLlNamed_hands hf hs
    exact .inl (.of_unsent hc hk.chnl hu)

end Kernel

/-! ### Every run -/

section Runs

variable {n : VarCount} {κ δ ε ω : Type} {kstrtol : List UInt8 → Int32 × Int32} {sem : CbSem n κ δ ε ω}
  {s s' : Sys n κ δ ε ω} {seq : UInt32} {t : Ptr}

/-- What holds of the structs and of the replies in every run, whatever the clients do. -/
structure Served (sem : CbSem n κ δ ε ω) (s : Sys n κ δ ε ω) : Prop where
  chnl : s.k.link.chnl = true
  structs : (pool s.k).idle.Sound
  replies_length : s.replies.length = s.served
  found_length : s.hist.found.length = s.served
  reply : ∀ (j : ℕ) rep, s.replies[j]? = some rep → ∃ m w, s.k.link.wire[j]? = some m ∧
    s.hist.found[j]? = some w ∧ rep.seq = m.seq ∧ rep.ind = m.ind ∧
    Carries rep ((regMap sem).serve w (query n m)).2

/-- The numbers that are drawn, the wire and the replies only grow. -/
structure Grows (s s' : Sys n κ δ ε ω) : Prop where
  drawn : s.k.link.drawn ≤ s'.k.link.drawn
  wire : s.k.link.wire <+: s'.k.link.wire
  delivered : s.delivered ≤ s'.delivered

lemma served_start (idle : Idle) (fw : Cfg n κ δ ε ω) : Served sem (start idle fw) :=
  ⟨idle.sane.chnl, idle.sane.sound.idle, rfl, rfl, fun _ _ h => absurd h (by simp [start])⟩

lemma Grows.refl (s : Sys n κ δ ε ω) : Grows s s := ⟨le_rfl, List.prefix_refl _, le_rfl⟩

lemma Grows.trans' {s₀ : Sys n κ δ ε ω} (h₀ : Grows s₀ s) (h : Grows s s') : Grows s₀ s' :=
  ⟨h₀.drawn.trans h.drawn, h₀.wire.trans h.wire, h₀.delivered.trans h.delivered⟩

lemma Served.of_call {k' : Driver} {hist' : History n κ δ ε ω} {d : ℕ} (h : Served sem s)
    (hc : k'.link.chnl = true) (hk : (pool k').idle.Sound) (hw : s.k.link.wire <+: k'.link.wire)
    (hf : hist'.found = s.hist.found) :
    Served sem { s with k := k', hist := hist', delivered := d } := by
  refine ⟨hc, hk, h.replies_length, (congrArg List.length hf).trans h.found_length, fun j rep hj => ?_⟩
  obtain ⟨m, w, hm, hw', h⟩ := h.reply j rep hj
  exact ⟨m, w, getElem?_of_isPrefix hw hm, (congrArg (·[j]?) hf).trans hw', h⟩

lemma served_client {e : Kernel.Files.Event} (h : Served sem s)
    (hs : step kstrtol sem s (.client e) = some s') : Served sem s' ∧ Spares s.k s'.k ∧ Grows s s' ∧
      ∀ t, Pool.Lost t (pool s.k) → Pool.Lost t (pool s'.k) := by
  obtain ⟨k', hk, rfl⟩ := step_client hs
  have he : ∀ data, e ≠ .reply data := by
    rintro data rfl
    cases hs
  have hf : (observe kstrtol s.k k' s.hist e).found = s.hist.found := by
    cases hfile : fileOf e with
    | some f => exact (recorded_observe hfile).found
    | none =>
      cases e with
      | reply data => exact absurd rfl (he data)
      | _ => cases hfile
  obtain ⟨hc, hw⟩ : k'.link.chnl = true ∧ s.k.link.wire <+: k'.link.wire := by
    rcases client_sends h.chnl h.structs he hk with ⟨hc, hw | ⟨m, hw, -⟩⟩ | ⟨hc, m, hw, -⟩
    · exact ⟨hc, hw ▸ List.prefix_refl _⟩
    · exact ⟨hc, hw ▸ List.prefix_append ..⟩
    · exact ⟨hc, hw ▸ List.prefix_append ..⟩
  have hhands : Pool.Keeps (pool s.k) (pool k') ∨ Pool.Drops (pool s.k) (pool k') := by
    have hstep := (step_hands h.chnl hk).1
    split at hstep
    · exact .inr hstep
    · exact .inl hstep
  obtain ⟨hpool, hlost⟩ := h.structs.idle_step hhands
  have hspares := call_spares h.chnl he hk
  exact ⟨h.of_call hc hpool hw hf, hspares, ⟨hspares.drawn, hw, le_rfl⟩, hlost⟩

lemma served_serve (h : Served sem s) (hs : step kstrtol sem s .serve = some s') :
    Served sem s' ∧ s'.k = s.k ∧ s'.delivered = s.delivered := by
  obtain ⟨m, hm, hs⟩ := Option.bind_eq_some_iff.1 hs
  obtain ⟨fw, hfw, hs⟩ := Option.bind_eq_some_iff.1 hs
  obtain ⟨rep, hrep, hseq, hind, hc⟩ := configMsgHandler_serves sem m s.fw
  obtain rfl := Option.some.inj (hrep.symm.trans hfw)
  obtain ⟨prints, hout⟩ := serve_out sem s.fw.w (query n m)
  have hnew : newReplies s.fw (send rep ((regMap sem).serve s.fw.w (query n m)).1) = [rep] := by
    simp [newReplies, send, hout, List.filterMap_append]
  rw [hnew] at hs
  obtain rfl := Option.some.inj hs
  refine ⟨⟨h.chnl, h.structs, ?_, ?_, fun j rep' hj => ?_⟩, rfl, rfl⟩
  · simp [h.replies_length]
  · simp [h.found_length]
  · rcases getElem?_concat_cases hj with hj | ⟨rfl, rfl⟩
    · obtain ⟨m', w, hm', hw, h'⟩ := h.reply j rep' hj
      exact ⟨m', w, hm', getElem?_of_isPrefix (List.prefix_append ..) hw, h'⟩
    · rw [h.replies_length]
      exact ⟨m, s.fw.w, hm, by rw [← h.found_length, List.getElem?_concat_length], hseq, hind, hc⟩

lemma served_deliver (h : Served sem s) (hs : step kstrtol sem s .deliver = some s') :
    ∃ rep, s.replies[s.delivered]? = some rep ∧
      s' = { s with
        k := { s.k with link := s.k.link.rpmsgCb rep.encode }, delivered := s.delivered + 1 } ∧
      Served sem s' ∧ Grows s s' := by
  obtain ⟨rep, hrep, hs⟩ := Option.bind_eq_some_iff.1 hs
  obtain rfl := Option.some.inj hs
  obtain ⟨hc, hd, hwire⟩ := s.k.link.rpmsgCb_keeps rep.encode
  have hstays := (reply_hands s.k rep.encode).1
  have hw : s.k.link.wire <+: (s.k.link.rpmsgCb rep.encode).wire := hwire ▸ List.prefix_refl _
  refine ⟨rep, hrep, rfl, ?_, hd.ge, hw, Nat.le_succ _⟩
  exact h.of_call (hc.trans h.chnl) (h.structs.idle_step (.inl hstays.keeps)).1 hw rfl

theorem served_step {e : Event} (h : Served sem s) (hs : step kstrtol sem s e = some s') :
    Served sem s' ∧ Grows s s' := by
  cases e with
  | client e =>
    obtain ⟨h', -, hg, -⟩ := served_client h hs
    exact ⟨h', hg⟩
  | serve =>
    obtain ⟨h', hk, hd⟩ := served_serve h hs
    exact ⟨h', by rw [hk], hk ▸ List.prefix_refl _, hd.ge⟩
  | deliver =>
    obtain ⟨rep, -, -, h', hg⟩ := served_deliver h hs
    exact ⟨h', hg⟩

theorem served_run {es : List Event} (h : Served sem s) (hr : run (step kstrtol sem) s es = some s') :
    Served sem s' ∧ Grows s s' := by
  refine run_invariant (P := fun t => Served sem t ∧ Grows s t) (fun t e t' ht hs => ?_)
    ⟨h, Grows.refl s⟩ hr
  obtain ⟨h', hg⟩ := served_step ht.1 hs
  exact ⟨h', ht.2.trans' hg⟩

/-- The number `seq` of a request that waits in `s` is not used for others until `s'`: the replies that
are delivered in between have other numbers, and fewer than `2 ^ 32` numbers are drawn. -/
structure Unique (seq : UInt32) (s s' : Sys n κ δ ε ω) : Prop where
  replies : ∀ (i : ℕ) m, s.delivered ≤ i → i < s'.delivered → s'.k.link.wire[i]? = some m →
    m.seq ≠ seq
  numbers : ∀ b, s.k.link.drawn ≤ b → b ≤ s'.k.link.drawn → seq ≠ UInt32.ofNat b

lemma Unique.after {t : Sys n κ δ ε ω} (h : Unique seq s s') (hg : Grows s t) : Unique seq t s' :=
  ⟨fun i m hi => h.replies i m (hg.delivered.trans hi), fun b hb => h.numbers b (hg.drawn.trans hb)⟩

lemma waits_step {e : Event} {s₁ : Sys n κ δ ε ω} (h : Served sem s) (hw : Waits seq t s.k)
    (hs : step kstrtol sem s e = some s₁) (hg : Grows s₁ s') (hu : Unique seq s s') : Waits seq t s₁.k := by
  cases e with
  | client e =>
    obtain ⟨-, hk, hg₁, hlost⟩ := served_client h hs
    exact hw.spares (hlost t hw.lost) hk (hu.numbers _ le_rfl (hg₁.drawn.trans hg.drawn))
  | serve =>
    obtain ⟨-, hk, -⟩ := served_serve h hs
    rwa [hk]
  | deliver =>
    obtain ⟨rep, hrep, rfl, -, hg₁⟩ := served_deliver h hs
    obtain ⟨m, w, hm, -, hseq, -⟩ := h.reply _ rep hrep
    have hm' := getElem?_of_isPrefix (hg₁.wire.trans hg.wire) hm
    refine hw.reply fun response hr => ?_
    obtain rfl := Option.some.inj (rep.received_encode.symm.trans hr)
    exact hseq ▸ hu.replies _ m le_rfl hg.delivered hm'

/-- **Until its reply comes** the struct of `get_n_vars` waits, whatever the clients do. -/
theorem waits_run {es : List Event} (h : Served sem s) (hw : Waits seq t s.k)
    (hr : run (step kstrtol sem) s es = some s') (hu : Unique seq s s') : Waits seq t s'.k := by
  induction es generalizing s with
  | nil =>
    obtain rfl := Option.some.inj hr
    exact hw
  | cons e es ih =>
    obtain ⟨s₁, hs, hrest⟩ := run_cons_eq_some.1 hr
    obtain ⟨h₁, hg₁⟩ := served_step h hs
    obtain ⟨-, hg⟩ := served_run h₁ hrest
    exact ih h₁ (waits_step h hw hs hg hu) hrest (hu.after hg₁)

end Runs

/-! ### The exchange of a request and its reply -/

section Exchange

variable {n : VarCount} {κ δ ε ω : Type} (kstrtol : List UInt8 → Int32 × Int32) (sem : CbSem n κ δ ε ω)

/-- Until `s` the number of the request `m`, which is sent in `s₀`, is not used for another one: the
requests that are unanswered in `s₀` have other numbers, and fewer than `2 ^ 32` numbers are drawn. -/
structure OwnNumber (s₀ s : Sys n κ δ ε ω) (m : CfgMsg) : Prop where
  unanswered : ∀ (i : ℕ) r, s₀.delivered ≤ i → s₀.k.link.wire[i]? = some r → r.seq ≠ m.seq
  drawn : s.k.link.drawn < s₀.k.link.drawn + 2 ^ 32

/-- **An exchange** behind any history: a call sends the request `m`, which finds the memory `w` when it
is served, and the reply to it, which leads to the state `s'`, completes the struct `t`.  What the clients
do before, and until the reply comes, is arbitrary; a request for the number of variables is the only one
whose struct must not be completed for another request. -/
inductive Exchange (m : CfgMsg) (w : World n κ δ ε ω) (t : Ptr) (s' : Sys n κ δ ε ω) : Prop
  | intro {idle : Idle} {fw : Cfg n κ δ ε ω} {es mid : List Event} {e : Kernel.Files.Event}
      {s₀ s₁ s : Sys n κ δ ε ω}
      (history : run (step kstrtol sem) (start idle fw) es = some s₀)
      (asks : step kstrtol sem s₀ (.client e) = some s₁)
      (sends : s₁.k.link.wire = s₀.k.link.wire ++ [m])
      (meanwhile : run (step kstrtol sem) s₁ mid = some s)
      (turn : s.delivered = s₀.k.link.wire.length)
      (own : m.type = reqNVars → OwnNumber s₀ s m)
      (found : s.hist.found[s.delivered]? = some w)
      (completes :
        (s.k.link.pendingList.find? fun t => (s.k.link.trans t).msgSeqNr = m.seq) = some t)
      (delivers : step kstrtol sem s .deliver = some s')

variable {kstrtol sem} {m m₁ m₂ : CfgMsg} {w w₁ w₂ : World n κ δ ε ω} {t t₁ t₂ : Ptr}
  {s' s₁ s₂ : Sys n κ δ ε ω}

/-- A call that sends a request for the number of variables waits for the reply. -/
lemma waits_of_asks {e : Kernel.Files.Event} {s₀ : Sys n κ δ ε ω} (h : Served sem s₀)
    (asks : step kstrtol sem s₀ (.client e) = some s₁)
    (sends : s₁.k.link.wire = s₀.k.link.wire ++ [m]) (ht : m.type = reqNVars) :
    m.seq = UInt32.ofNat s₀.k.link.drawn ∧ s₀.k.link.drawn < s₁.k.link.drawn ∧
      ∃ t, Waits m.seq t s₁.k := by
  obtain ⟨k', hk, rfl⟩ := step_client asks
  have he : ∀ data, e ≠ .reply data := by
    rintro data rfl
    cases asks
  have hlast : ∀ {r}, k'.link.wire = s₀.k.link.wire ++ [r] → r = m := by
    intro r hr
    exact List.singleton_inj.1 (List.append_cancel_left (hr.symm.trans sends))
  rcases client_sends h.chnl h.structs he hk with ⟨-, hw | ⟨r, hw, hne⟩⟩ | ⟨-, r, hw, hr⟩
  · have hlen := congrArg List.length (hw.symm.trans sends)
    simp at hlen
  · exact absurd ht (hlast hw ▸ hne)
  · exact hlast hw ▸ hr

/-- The reply of an exchange carries the answer to its request, and a struct that waits for the number of
variables has no error. -/
theorem Exchange.completed (h : Exchange kstrtol sem m w t s') :
    ∃ rep x, rep.seq = m.seq ∧ rep.ind = m.ind ∧ Carries rep ((regMap sem).serve w (query n m)).2 ∧
      s'.k.link.trans t = Link.complete rep x ∧ (m.type = reqNVars → x.err = 0) := by
  obtain @⟨idle, fw, es, mid, e, s₀, s₁, s, history, asks, sends, meanwhile, turn, own, found,
    completes, delivers⟩ := h
  obtain ⟨h₀, -⟩ := served_run (served_start idle fw) history
  obtain ⟨h₁, hg₁⟩ := served_step h₀ asks
  obtain ⟨h, hg⟩ := served_run h₁ meanwhile
  obtain ⟨rep, hrep, rfl, -, -⟩ := served_deliver h delivers
  obtain ⟨m', w', hm', hw', hseq, hind, hc⟩ := h.reply _ rep hrep
  have hm : s.k.link.wire[s.delivered]? = some m := by
    refine getElem?_of_isPrefix hg.wire ?_
    rw [sends, turn, List.getElem?_concat_length]
  obtain rfl := Option.some.inj (hm.symm.trans hm')
  obtain rfl := Option.some.inj (found.symm.trans hw')
  refine ⟨rep, s.k.link.trans t, hseq, hind, hc, ?_, fun ht => ?_⟩
  · show (s.k.link.rpmsgCb rep.encode).trans t = _
    rw [s.k.link.rpmsgCb_of_find (hseq ▸ completes)]
    exact Function.update_self ..
  · -- only `get_n_vars` sends this request
    obtain ⟨hother, hdrawn⟩ := own ht
    obtain ⟨hseq₀, hlt, t, hw⟩ := waits_of_asks h₀ asks sends ht
    have hd₁ : s₁.delivered = s₀.delivered := by
      obtain ⟨k', -, rfl⟩ := step_client asks
      rfl
    refine (waits_run h₁ hw meanwhile ⟨fun i r hi hlt hr => ?_, fun b hb hle => ?_⟩).err completes
    · rw [turn] at hlt
      have hr₀ := getElem?_of_isPrefix hg₁.wire (List.getElem?_eq_getElem hlt)
      obtain rfl := Option.some.inj (hr.symm.trans (getElem?_of_isPrefix hg.wire hr₀))
      exact hother i _ (hd₁ ▸ hi) (List.getElem?_eq_getElem hlt)
    · rw [hseq₀]
      exact (Kernel.Matching.ofNat_ne (by omega) (by omega)).symm

/-- **The result of a request does not depend on earlier traffic**: whatever was exchanged before, two
requests that say the same and find the same table, without read callbacks, end their transactions with the
same error, the same length and the same text. -/
theorem same_outcome (h₁ : Exchange kstrtol sem m₁ w₁ t₁ s₁) (h₂ : Exchange kstrtol sem m₂ w₂ t₂ s₂)
    (hm : SameRequest m₁ m₂) (hv : w₁.vars = w₂.vars) (hq : ∀ k, (w₁.vars k).rdCb = none) :
    outcome (s₁.k.link.trans t₁) = outcome (s₂.k.link.trans t₂) := by
  obtain ⟨rep₁, x₁, hseq₁, hind₁, hc₁, e₁, herr₁⟩ := h₁.completed
  obtain ⟨rep₂, x₂, hseq₂, hind₂, hc₂, e₂, herr₂⟩ := h₂.completed
  have hanswer : ((regMap sem).serve w₁ (query n m₁)).2 = ((regMap sem).serve w₂ (query n m₂)).2 := by
    rw [query_eq hm]
    exact answer_eq hv hq _
  rw [hanswer] at hc₁
  have hseq : rep₁.seq = rep₂.seq := by rw [hseq₁, hseq₂, hm.seq]
  have hind : rep₁.ind = rep₂.ind := by rw [hind₁, hind₂, hm.ind]
  rw [e₁, e₂]
  refine outcome_eq (alike_of_carries hc₁ hc₂ hseq hind) fun ht => ?_
  have ht₂ : m₂.type = reqNVars := type_of_nVars w₂ hc₂ ht
  rw [herr₁ (hm.type.trans ht₂), herr₂ ht₂]

end Exchange

/-! ### Two histories -/

/-- A client has read something of the variable `s`. -/
def hasRead (acc : Access) : List Event :=
  [.client (.openVar 0 ⟨0, acc⟩ true false false true 0), .serve, .deliver]

/-- Another one reads its value. -/
def readsValue : Kernel.Files.Event := .openVar 1 ⟨0, .val⟩ true false false true 0

/-- Its request. -/
def valueReq : CfgMsg := { CfgMsg.zero with seq := 1, type := reqRd }

set_option maxRecDepth 20000 in
/-- The exchange of this request finds the table as it was at the start. -/
lemma exchange_after (acc : Access) (h : acc = .desc ∨ acc = .min) : ∃ w s',
    Exchange Kernel.Leaks.noStrtol noCbs valueReq w 14 s' ∧ w.vars = speedFw.w.vars := by
  have hrun : ((run (step Kernel.Leaks.noStrtol noCbs) (start .probed speedFw) (hasRead acc)).any
      fun s₀ => (step Kernel.Leaks.noStrtol noCbs s₀ (.client readsValue)).any fun s₁ =>
        (step Kernel.Leaks.noStrtol noCbs s₁ .serve).any fun s =>
          (step Kernel.Leaks.noStrtol noCbs s .deliver).any fun _ =>
            decide (s₁.k.link.wire = s₀.k.link.wire ++ [valueReq] ∧ s.delivered = s₀.k.link.wire.length ∧
              (s.k.link.pendingList.find? fun t => (s.k.link.trans t).msgSeqNr = valueReq.seq) = some 14)) =
      true := by
    rcases h with rfl | rfl
    · decide +kernel
    · decide +kernel
  have hfound : (run (step Kernel.Leaks.noStrtol noCbs) (start .probed speedFw)
      (hasRead acc ++ [.client readsValue, .serve])).bind
        (fun s => s.hist.found[s.delivered]?.map World.vars) = some speedFw.w.vars := by
    rcases h with rfl | rfl
    · rfl
    · rfl
  obtain ⟨s₀, h₀, hrun⟩ := (Option.any_eq_true ..).1 hrun
  obtain ⟨s₁, h₁, hrun⟩ := (Option.any_eq_true ..).1 hrun
  obtain ⟨s, hs, hrun⟩ := (Option.any_eq_true ..).1 hrun
  obtain ⟨s', hs', hrun⟩ := (Option.any_eq_true ..).1 hrun
  obtain ⟨hsends, hturn, hfind⟩ := of_decide_eq_true hrun
  have hserve : run (step Kernel.Leaks.noStrtol noCbs) s₁ [.serve] = some s :=
    run_cons_eq_some.2 ⟨s, hs, rfl⟩
  have hall := run_append_eq_some.2 ⟨s₀, h₀, run_cons_eq_some.2 ⟨s₁, h₁, hserve⟩⟩
  rw [hall, Option.bind_some] at hfound
  obtain ⟨w, hw, hv⟩ := Option.map_eq_some_iff.1 hfound
  have hown : valueReq.type = reqNVars → OwnNumber s₀ s valueReq := fun h => absurd h (by decide)
  exact ⟨w, s', .intro h₀ h₁ hsends hserve hturn hown hw hfind hs', hv⟩

/-- The value is read with the same result after the description or the lower limit was read. -/
theorem value_sameOutcome : ∃ w₁ w₂ s₁ s₂,
    Exchange Kernel.Leaks.noStrtol noCbs valueReq w₁ 14 s₁ ∧
      Exchange Kernel.Leaks.noStrtol noCbs valueReq w₂ 14 s₂ ∧
        outcome (s₁.k.link.trans 14) = outcome (s₂.k.link.trans 14) := by
  obtain ⟨w₁, s₁, h₁, hv₁⟩ := exchange_after .desc (.inl rfl)
  obtain ⟨w₂, s₂, h₂, hv₂⟩ := exchange_after .min (.inr rfl)
  exact ⟨w₁, w₂, s₁, s₂, h₁, h₂, same_outcome h₁ h₂ ⟨rfl, rfl, rfl, rfl⟩ (hv₁.trans hv₂.symm)
    fun k => by rw [hv₁]; rfl⟩

end CfgMgmt.System.Isolation
