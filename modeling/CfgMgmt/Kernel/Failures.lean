import CfgMgmt.Kernel.Completion
import CfgMgmt.Kernel.Kstrtol
import CfgMgmt.Kernel.Matching
import CfgMgmt.Kernel.Sessions

/-!
# When a request fails

`access_var` puts the struct on `pending_list` before `rpmsg_send`, since the reply may come at once, and
leaves it there when `rpmsg_send` fails (`atomic_iff`).  `debugfs_open_var` returns early when the request
was sent, and goes on when it failed: an error is not reported (`reported_iff`).
-/

namespace CfgMgmt.Kernel.Failures

open CfgMgmt.Lib.Bytes CfgMgmt.Msg CfgMgmt.Kernel.Linux CfgMgmt.Kernel.RpmsgLink CfgMgmt.Kernel.Files
open CfgMgmt.Kernel.Calls CfgMgmt.Kernel.Sessions

/-! ### `access_var` -/

section AccessVar

variable (kstrtol : List UInt8 → Int32 × Int32)

/-- The access is one that can be requested: its kind is known, and a value to write is a number. -/
def Requestable (acc : Access) (x : Transaction) : Prop :=
  acc ≠ .unknown ∧ (acc = .val → x.rnw = true ∨ (kstrtol (Link.text x)).1 = 0)

/-- `access_var` gets as far as `rpmsg_send`. -/
def Sends (acc : Access) (t : Option Ptr) (s : Link) : Prop :=
  s.chnl = true ∧ ∃ p, t = some p ∧ Requestable kstrtol acc (s.trans p)

/-- A call that fails leaves no request, neither on the wire nor on `pending_list`. -/
def Atomic (s : Link) (r : Int32 × Link) : Prop :=
  r.1 ≠ 0 → r.2.wire = s.wire ∧ r.2.pendingList = s.pendingList

variable {kstrtol} {index : Int32} {acc : Access} {s : Link} {p : Ptr}

lemma prepare_iff : (s.prepare kstrtol index acc p).1 = 0 ↔ Requestable kstrtol acc (s.trans p) := by
  cases acc with
  | val =>
    rw [Link.prepare_val]
    exact ⟨fun h => ⟨nofun, fun _ => h⟩, fun h => h.2 rfl⟩
  | unknown =>
    have hinval : -einval ≠ 0 := by decide
    exact ⟨fun h => absurd h hinval, fun h => absurd rfl h.1⟩
  | name => exact ⟨fun _ => ⟨nofun, nofun⟩, fun _ => rfl⟩
  | min => exact ⟨fun _ => ⟨nofun, nofun⟩, fun _ => rfl⟩
  | max => exact ⟨fun _ => ⟨nofun, nofun⟩, fun _ => rfl⟩
  | desc => exact ⟨fun _ => ⟨nofun, nofun⟩, fun _ => rfl⟩

/-- `access_var` stops in front of `rpmsg_send`, with an error and no request. -/
lemma accessVar_of_not_sends {t : Option Ptr} (h : ¬ Sends kstrtol acc t s) (send : Int32) :
    (s.accessVar kstrtol index acc t send).1 ≠ 0 ∧
      (s.accessVar kstrtol index acc t send).2.wire = s.wire ∧
      (s.accessVar kstrtol index acc t send).2.pendingList = s.pendingList := by
  have hinval : -einval ≠ 0 := by decide
  cases hc : s.chnl with
  | false =>
    have e : s.accessVar kstrtol index acc t send = (-einval, s) := by
      simp [Link.accessVar, Link.accessFill, hc, hinval]
    rw [e]
    exact ⟨hinval, rfl, rfl⟩
  | true =>
    cases t with
    | none =>
      have e : s.accessVar kstrtol index acc none send = (-einval, s) := by
        simp [Link.accessVar, Link.accessFill, hc, hinval]
      rw [e]
      exact ⟨hinval, rfl, rfl⟩
    | some p =>
      have hp : (s.prepare kstrtol index acc p).1 ≠ 0 := fun h0 => h ⟨hc, p, rfl, prepare_iff.1 h0⟩
      rw [Link.accessVar_of_ne hc hp]
      exact ⟨hp, rfl, rfl⟩

/-- `access_var` succeeds when `rpmsg_send` is called and succeeds. -/
lemma accessVar_iff {t : Option Ptr} {send : Int32} :
    (s.accessVar kstrtol index acc t send).1 = 0 ↔ Sends kstrtol acc t s ∧ send = 0 := by
  by_cases h : Sends kstrtol acc t s
  · obtain ⟨hc, p, rfl, hp⟩ := h
    rw [Link.accessVar_of_eq hc (prepare_iff.2 hp), Link.rpmsgSend_eq]
    exact (and_iff_right ⟨hc, p, rfl, hp⟩).symm
  · exact iff_of_false (accessVar_of_not_sends h send).1 fun h' => h h'.1

/-- **A failing `access_var` leaves no request exactly when `rpmsg_send` does not fail**, or is not
called. -/
theorem atomic_iff (kstrtol : List UInt8 → Int32 × Int32) (index : Int32) (acc : Access) (t : Option Ptr)
    (send : Int32) (s : Link) :
    Atomic s (s.accessVar kstrtol index acc t send) ↔ send = 0 ∨ ¬ Sends kstrtol acc t s := by
  by_cases h : Sends kstrtol acc t s
  · obtain ⟨hc, p, rfl, hp⟩ := h
    rw [Link.accessVar_of_eq hc (prepare_iff.2 hp), Link.rpmsgSend_eq]
    constructor
    · intro ha
      by_contra hn
      -- the struct is one more on the list
      have hlist : p :: s.pendingList = s.pendingList := (ha fun h0 => hn (.inl h0)).2
      exact absurd hlist (List.cons_ne_self p s.pendingList)
    · rintro (rfl | hn)
      · exact fun h0 => absurd rfl h0
      · exact absurd ⟨hc, p, rfl, hp⟩ hn
  · exact ⟨fun _ => .inr h, fun _ _ => (accessVar_of_not_sends h send).2⟩

/-- The state after the first struct was taken. -/
def firstTaken : Link :=
  { Link.rpmsgLinkInit with unusedList := (List.range 15).reverse }.modify 15 fun _ => .zero

lemma allocTrans_init : Link.rpmsgLinkInit.allocTrans true = some (15, firstTaken) := rfl

/-- The request for a minimum is refused by the transport, and its struct stays pending. -/
theorem refused_not_atomic :
    ¬ Atomic firstTaken (firstTaken.accessVar Kstrtol.kstrtol 0 .min (some 15) (-enomem)) := by
  have hp : (firstTaken.accessVar Kstrtol.kstrtol 0 .min (some 15) (-enomem)).2.pendingList = [15] := by
    decide
  have hr : (firstTaken.accessVar Kstrtol.kstrtol 0 .min (some 15) (-enomem)).1 ≠ 0 := by decide
  intro h
  have hnil := (h hr).2
  rw [hp] at hnil
  cases hnil

end AccessVar

/-! ### Replies to a request -/

/-- The messages are passed to `cfg_mgmt_rpmsg_cb` one after the other. -/
def deliver (datas : List (List UInt8)) (s : Link) : Link := datas.foldl (fun s data => s.rpmsgCb data) s

/-- One of the messages has answered the request with the number `seq` of the struct `t`. -/
def Replied (t : Ptr) (seq : UInt32) (datas : List (List UInt8)) (s : Link) : Prop :=
  ∃ data ∈ datas, ∃ response, CfgMsg.received data = some response ∧ response.seq = seq ∧
    ∃ x, s.trans t = Link.complete response x

section Replies

variable {s : Link} {t : Ptr} {x : Transaction} {seq : UInt32} {data : List UInt8}

lemma deliver_concat (datas : List (List UInt8)) :
    deliver (datas ++ [data]) s = (deliver datas s).rpmsgCb data := by
  unfold deliver
  rw [List.foldl_append]
  rfl

lemma rpmsgCb_msgSeqNr : ((s.rpmsgCb data).trans t).msgSeqNr = (s.trans t).msgSeqNr := by
  rcases s.rpmsgCb_cases data with ⟨response, -, p, -, -, e⟩ | ⟨-, e⟩
  · rw [e]
    by_cases hpt : t = p
    · subst hpt
      exact (congrArg _ (Function.update_self ..)).trans (Link.complete_msgSeqNr response (s.trans t))
    · exact congrArg _ (Function.update_of_ne hpt ..)
  · rw [e]

/-- The struct waits for the reply to its request, which was the last one. -/
def Waits (t : Ptr) (x : Transaction) (s : Link) : Prop :=
  (∃ rest, s.pendingList = t :: rest) ∧ s.trans t = x

/-- A message answers the request, or leaves the struct as it is. -/
lemma rpmsgCb_waits (data : List UInt8) (h : Waits t x s) : Waits t x (s.rpmsgCb data) ∨
    ∃ response, CfgMsg.received data = some response ∧ response.seq = x.msgSeqNr ∧
      (s.rpmsgCb data).trans t = Link.complete response x := by
  obtain ⟨⟨rest, hp⟩, hx⟩ := h
  rcases s.rpmsgCb_cases data with ⟨response, hr, p, hmem, hseq, e⟩ | ⟨-, e⟩
  · rw [e]
    by_cases hpt : p = t
    · subst hpt
      refine .inr ⟨response, hr, hx ▸ hseq.symm, ?_⟩
      rw [← hx]
      exact Function.update_self ..
    · refine .inl ⟨⟨rest.erase p, ?_⟩, ?_⟩
      · show s.pendingList.erase p = _
        rw [hp, List.erase_cons_tail (by simpa using Ne.symm hpt)]
      · rw [← hx]
        exact Function.update_of_ne (Ne.symm hpt) ..
  · rw [e]
    exact .inl ⟨⟨rest, hp⟩, hx⟩

lemma rpmsgCb_replied {datas : List (List UInt8)} (hseq : (s.trans t).msgSeqNr = seq)
    (h : Replied t seq datas s) : Replied t seq (datas ++ [data]) (s.rpmsgCb data) := by
  rcases s.rpmsgCb_cases data with ⟨response, hr, p, hmem, hp, e⟩ | ⟨-, e⟩
  · rw [e]
    by_cases hpt : t = p
    · subst hpt
      refine ⟨data, List.mem_append_right _ List.mem_cons_self, response, hr, hp.symm.trans hseq, s.trans t, ?_⟩
      exact Function.update_self ..
    · obtain ⟨data', hd, response', hr', hs', y, hy⟩ := h
      refine ⟨data', List.mem_append_left _ hd, response', hr', hs', y, ?_⟩
      exact (Function.update_of_ne hpt ..).trans hy
  · rw [e]
    obtain ⟨data', hd, h⟩ := h
    exact ⟨data', List.mem_append_left _ hd, h⟩

/-- **A request is pending until it is answered.** -/
theorem waits_deliver (datas : List (List UInt8)) (h : Waits t x s) :
    (deliver datas s).trans t = x ∧ (∃ rest, (deliver datas s).pendingList = t :: rest) ∨
      Replied t x.msgSeqNr datas (deliver datas s) ∧ ((deliver datas s).trans t).msgSeqNr = x.msgSeqNr := by
  induction datas using List.reverseRecOn with
  | nil => exact .inl h.symm
  | append_singleton datas data ih =>
    rw [deliver_concat]
    rcases ih with ⟨hx, hp⟩ | ⟨hr, hseq⟩
    · rcases rpmsgCb_waits data ⟨hp, hx⟩ with hw | ⟨response, hr, hs, e⟩
      · exact .inl hw.symm
      · refine .inr ⟨⟨data, List.mem_append_right _ List.mem_cons_self, response, hr, hs, x, e⟩, ?_⟩
        rw [e, Link.complete_msgSeqNr]
    · exact .inr ⟨rpmsgCb_replied hseq hr, rpmsgCb_msgSeqNr.trans hseq⟩

end Replies

/-! ### `debugfs_open_var` -/

/-- What `access_var` returns to `debugfs_open_var`, which has got the struct `t`. -/
def queryResult (kstrtol : List UInt8 → Int32 × Int32) (info : VarAccessInfo) (send : Int32) (t : Ptr)
    (s : Link) : Int32 :=
  ((s.modify t fun x => { x with rnw := true, wq := true }).accessVar kstrtol info.index info.type (some t)
    send).1

/-- From `k` to `k'` a query was sent for the struct `t` of the file.  It is pending until it is answered,
whatever messages arrive, and as long as it is not answered no read returns a text. -/
structure Asked (f : FileId) (info : VarAccessInfo) (t : Ptr) (k k' : Driver) : Prop where
  sent : ∃ m, k'.link.wire = k.link.wire ++ [m] ∧ m.seq = (k'.link.trans t).msgSeqNr ∧
    m.ind = info.index ∧ m.type = readType info.type
  pending : ∀ datas, t ∈ (deliver datas k'.link).pendingList ∧
      ((deliver datas k'.link).trans t).valid = false ∨
    Replied t (k'.link.trans t).msgSeqNr datas (deliver datas k'.link)
  read : ∀ datas file len own intr uncopied k'' text, k'.files f = some file →
    Driver.debugfsReadVar f file len own intr uncopied { k' with link := deliver datas k'.link } = some k'' →
    k''.log = k'.log ++ [(f, .read (.ok text))] →
    Replied t (k'.link.trans t).msgSeqNr datas (deliver datas k'.link)

/-- **A failing query is reported**, and a file that could be opened has asked for its value. -/
structure Reported (f : FileId) (info : VarAccessInfo) (t : Ptr) (r : Int32) (k k' : Driver) : Prop where
  error : r ≠ 0 → k'.log = k.log ++ [(f, .opened r)] ∧ t ∈ k'.link.unusedList
  asked : k'.log = k.log ++ [(f, .opened 0)] → Asked f info t k k'

section OpenVar

variable {kstrtol : List UInt8 → Int32 × Int32} {k k' : Driver} {f : FileId} {file : File}
  {info : VarAccessInfo} {t : Ptr} {link : Link} {mem : Bool} {m : CfgMsg} {x : Transaction}

lemma readVar_invalid {len uncopied : ℕ} {own : Option ℤ} {intr : Bool} {text : List UInt8}
    (hv : (k.transOf file).valid = false)
    (hs : k.debugfsReadVar f file len own intr uncopied = some k') :
    k'.log ≠ k.log ++ [(f, .read (.ok text))] := by
  unfold Driver.debugfsReadVar at hs
  simp only [hv, Bool.not_false, if_true] at hs
  intro e
  split at hs
  · obtain rfl := Option.some.inj hs
    cases List.append_cancel_left e
  · obtain ⟨-, hs⟩ := Option.ite_none_right_eq_some.1 hs
    obtain rfl := Option.some.inj hs
    cases List.append_cancel_left e

lemma asked_of_requested (hr : Requested t x m k.link k'.link) (hx : x.valid = false)
    (hf : k'.files f = some file) (ht : file.privateData = t) (hind : m.ind = info.index)
    (htype : m.type = readType info.type) : Asked f info t k k' := by
  have hvalid : (k'.link.trans t).valid = false := by
    rw [hr.trans]
    exact hx
  have hpending : ∀ datas, t ∈ (deliver datas k'.link).pendingList ∧
      ((deliver datas k'.link).trans t).valid = false ∨
      Replied t (k'.link.trans t).msgSeqNr datas (deliver datas k'.link) := by
    intro datas
    rcases waits_deliver datas ⟨⟨_, hr.pendingList⟩, rfl⟩ with ⟨htrans, rest, hp⟩ | ⟨hrep, -⟩
    · refine .inl ⟨?_, ?_⟩
      · rw [hp]
        exact List.mem_cons_self
      · rw [htrans]
        exact hvalid
    · exact .inr hrep
  refine ⟨⟨m, hr.wire, ?_, hind, htype⟩, hpending, ?_⟩
  · rw [hr.seq, hr.trans]
  · intro datas file' len own intr uncopied k'' text hf' hs hlog
    obtain rfl := Option.some.inj (hf.symm.trans hf')
    refine (hpending datas).resolve_left fun h => readVar_invalid ?_ hs hlog
    subst ht
    exact h.2

/-- The state in which `debugfs_open_var` calls `access_var`. -/
def reading (f : FileId) (file : File) (link : Link) (k : Driver) : Driver :=
  Driver.modifyTrans file (fun x => { x with rnw := true, wq := true })
    (Driver.setFile f (some file) { k with link })

section Reading

variable {send : Int32}

lemma reading_files : (reading f file link k).files f = some file := setFile_files_self _

lemma reading_trans (ha : k.link.allocTrans mem = some (file.privateData, link)) :
    (reading f file link k).link.trans file.privateData =
      { Transaction.zero with rnw := true, wq := true } := by
  have hself := Link.modify_trans_self (s := link) (t := file.privateData)
    fun x => { x with rnw := true, wq := true }
  rw [(Link.allocTrans_spec ha).trans_self] at hself
  exact hself

lemma unsent_reading (ha : k.link.allocTrans mem = some (file.privateData, link)) :
    Unsent k.link (reading f file link k).link := by
  have hal := Link.allocTrans_spec ha
  exact ⟨hal.pendingList, hal.drawn, hal.number, hal.wire⟩

lemma accessVar_reading : ((reading f file link k).accessVar kstrtol file info send).1 =
    queryResult kstrtol info send file.privateData link := rfl

/-- The query succeeds whatever `kstrtol` does: no text is parsed. -/
lemma queryResult_eq_zero (kstrtol : List UInt8 → Int32 × Int32) (info : VarAccessInfo) (send : Int32)
    (ha : k.link.allocTrans mem = some (file.privateData, link)) :
    queryResult kstrtol info send file.privateData link = 0 ↔
      k.link.chnl = true ∧ info.type ≠ .unknown ∧ send = 0 := by
  have hc : (reading 0 file link k).link.chnl = k.link.chnl := (Link.allocTrans_spec ha).chnl
  rw [← accessVar_reading (f := 0) (k := k), ← hc]
  unfold Driver.accessVar
  rw [accessVar_iff, and_assoc.symm]
  refine and_congr_left fun _ => ⟨?_, ?_⟩
  · rintro ⟨hc', p, -, hacc, -⟩
    exact ⟨hc', hacc⟩
  · rintro ⟨hc', hacc⟩
    refine ⟨hc', _, rfl, hacc, fun _ => .inl ?_⟩
    rw [reading_trans ha]

lemma asked_reading (ha : k.link.allocTrans mem = some (file.privateData, link))
    (hc : k.link.chnl = true) (hu : info.type ≠ .unknown) (r : Result) :
    Asked f info file.privateData k
      (((reading f file link k).accessVar kstrtol file info 0).2.returns f r) := by
  have hx := reading_trans (f := f) ha
  have hreads : (reading f file link k).link.prepare kstrtol info.index info.type file.privateData =
      (0, { (reading f file link k).link.accessReq with
        ind := info.index, val := 0, len := 0, type := readType info.type }) :=
    prepare_reads (by rw [hx]) hu
  have hc' : (reading f file link k).link.chnl = true := (Link.allocTrans_spec ha).chnl.trans hc
  obtain ⟨-, hreq⟩ := accessVar_sends info hc' hreads
  refine asked_of_requested (hreq.of_unsent (unsent_reading ha)) ?_ reading_files rfl rfl rfl
  rw [hx]
  rfl

end Reading

/-- **`debugfs_open_var` reports what `access_var` returns exactly when this is no error**: when there is
a channel, the access is known, and `rpmsg_send` succeeds. -/
theorem reported_iff (kstrtol : List UInt8 → Int32 × Int32) (f : FileId) (info : VarAccessInfo)
    (fModeWrite nonblock : Bool) (send : Int32) (ha : k.link.allocTrans mem = some (t, link)) :
    ∃ k', k.debugfsOpenVar kstrtol f info true fModeWrite nonblock mem send = some k' ∧
      (Reported f info t (queryResult kstrtol info send t link) k k' ↔
        k.link.chnl = true ∧ info.type ≠ .unknown ∧ send = 0) := by
  generalize hfile : (⟨.var info, true, fModeWrite, nonblock, 0, t, .ready⟩ : File) = file
  obtain rfl : file.privateData = t := hfile ▸ rfl
  have hzero := queryResult_eq_zero kstrtol info send ha
  have hopen : k.debugfsOpenVar kstrtol f info true fModeWrite nonblock mem send =
      if queryResult kstrtol info send file.privateData link = 0 then
        some (((reading f file link k).accessVar kstrtol file info send).2.returns f
          (.opened (queryResult kstrtol info send file.privateData link)))
      else some (((reading f file link k).accessVar kstrtol file info send).2.openedForWriting f file) := by
    unfold Driver.debugfsOpenVar
    rw [ha, Option.bind_eq_bind, Option.bind_some]
    dsimp only
    rw [if_pos rfl, hfile]
    rfl
  rw [hopen]
  by_cases h0 : queryResult kstrtol info send file.privateData link = 0
  · obtain ⟨hc, hu, rfl⟩ := hzero.1 h0
    exact ⟨_, if_pos h0, iff_of_true ⟨fun h => absurd h0 h, fun _ => asked_reading ha hc hu _⟩ ⟨hc, hu, rfl⟩⟩
  · refine ⟨_, if_neg h0, iff_of_false (fun h => ?_) fun h => h0 (hzero.2 h)⟩
    -- the error is dropped
    have herr := (h.error h0).1
    rw [openedForWriting_log] at herr
    have e := List.append_cancel_left (show k.log ++ _ = k.log ++ _ from herr)
    simp only [List.cons.injEq, Prod.mk.injEq, Result.opened.injEq, true_and, and_true] at e
    exact h0 e.symm

/-- A client reads the value of the variable 0. -/
theorem sentQuery_reported : ∃ k',
    Driver.debugfsOpenVar Kstrtol.kstrtol 0 ⟨0, .val⟩ true false false true 0 .probed = some k' ∧
      Reported 0 ⟨0, .val⟩ 15 (queryResult Kstrtol.kstrtol ⟨0, .val⟩ 0 15 firstTaken) .probed k' := by
  obtain ⟨k', hs, h⟩ := reported_iff (k := .probed) Kstrtol.kstrtol 0 ⟨0, .val⟩ false false 0 allocTrans_init
  exact ⟨k', hs, h.2 ⟨rfl, nofun, rfl⟩⟩

/-- The transport refuses the query: the file is opened, its struct is not returned, and nothing was
asked. -/
theorem refusedQuery_dropped : ∃ k',
    Driver.debugfsOpenVar Kstrtol.kstrtol 0 ⟨0, .val⟩ true false false true (-enomem) .probed = some k' ∧
      k'.link.wire = [] ∧
      ¬ Reported 0 ⟨0, .val⟩ 15 (queryResult Kstrtol.kstrtol ⟨0, .val⟩ (-enomem) 15 firstTaken) .probed k' := by
  have hrun : ((Driver.debugfsOpenVar Kstrtol.kstrtol 0 ⟨0, .val⟩ true false false true (-enomem)
      .probed).any fun k => decide (k.link.wire = [] ∧ 15 ∉ k.link.unusedList)) = true := by
    decide
  obtain ⟨k', hs, hk⟩ := (Option.any_eq_true ..).1 hrun
  obtain ⟨hwire, hunused⟩ := of_decide_eq_true hk
  have hne : queryResult Kstrtol.kstrtol ⟨0, .val⟩ (-enomem) 15 firstTaken ≠ 0 := by decide
  exact ⟨k', hs, hwire, fun h => hunused (h.error hne).2⟩

end OpenVar

end CfgMgmt.Kernel.Failures
