import CfgMgmt.Firmware.Callbacks
import CfgMgmt.Firmware.ConfigRefinement
import CfgMgmt.Lib.Machine

/-!
# The limits of the variables

Every value stored by `cfgSetInd` is within the limits of its entry.  The read path of
`cfgFloatMilliCB` stores the converted value directly, so that a run keeps the limits if and only if
no read request meets a `float` whose conversion lies outside of them (`inLimits_iff`).
-/

namespace CfgMgmt.Firmware.Limits

open CfgMgmt.Msg CfgMgmt.Lib.Machine CfgMgmt.Firmware.Config CfgMgmt.Firmware.Callbacks
open CfgMgmt.Firmware.RegisterMap CfgMgmt.Firmware.ConfigRefinement

variable {n : VarCount}

/-- The table with the memory outside, and the replies sent so far. -/
abbrev Store (n : VarCount) : Type := Cfg n GenericCb Loc Mem Empty

/-- What happens to the variables: a request of the kernel, a call of `cfgSetId` or of
`cfgSetCallback` by the firmware, or a change of a location outside of the table. -/
inductive Event
  | request (req : CfgMsg)
  | setId (id val : Int32) (trigCb : Bool)
  | setCallback (id : Int32) (cb : Option GenericCb) (read : Bool) (data : Loc)
  | outside (p : Loc) (x : UInt32)

def step (conv : MilliConv) (s : Store n) : Event → Option (Store n)
  | .request req => configMsgHandler (genericSem conv) req s
  | .setId id val trigCb => do
    let (_, w) ← cfgSetId (genericSem conv) id val trigCb s.w
    some { s with w }
  | .setCallback id cb read data =>
    some { s with w := { s.w with vars := (cfgSetCallback id cb read data s.w.vars).2 } }
  | .outside p x => some { s with w := { s.w with ext := Function.update s.w.ext p x } }

def Within (v : CfgVar GenericCb Loc) (x : Int32) : Prop := v.min ≤ x ∧ x ≤ v.max

instance (v : CfgVar GenericCb Loc) (x : Int32) : Decidable (Within v x) := by
  unfold Within; infer_instance

/-- Every entry is within its limits, and so is every value sent in a `RES_RD_VAL` reply. -/
structure InLimits (s : Store n) : Prop where
  vars : ∀ k, Within (s.w.vars k) (s.w.vars k).val
  replies : ∀ rep, .inr rep ∈ s.w.out → rep.type = resRdVal →
    ∃ k, entry? n rep.ind = some k ∧ Within (s.w.vars k) rep.val

/-- A table with `min ≤ val ≤ max` in every entry. -/
abbrev LimitedTable (n : VarCount) : Type :=
  { vars : Table n GenericCb Loc // ∀ k, Within (vars k) (vars k).val }

def start (vars : LimitedTable n) (ext : Mem) (txBuf : CfgMsg) : Store n :=
  ⟨⟨vars.1, ext, []⟩, txBuf⟩

/-- The step is not a read request for an entry that is read through `cfgFloatMilliCB` while the
`float` converts to a value outside of the limits of the entry. -/
def MilliWithin (conv : MilliConv) (s : Store n) : Event → Prop
  | .request req => req.type = reqRd → ∀ k, entry? n req.ind = some k →
    (s.w.vars k).rdCb = some .floatMilli →
      Within (s.w.vars k) (conv.toVal (s.w.ext (s.w.vars k).rdCbData))
  | _ => True

/-! ### Storing a value -/

/-- The table `vars'` is within the limits of `vars`, which are also its own. -/
def Keeps (vars vars' : Table n GenericCb Loc) : Prop :=
  ∀ k, (vars' k).min = (vars k).min ∧ (vars' k).max = (vars k).max ∧ Within (vars k) (vars' k).val

lemma Keeps.within {vars vars' : Table n GenericCb Loc} (h : Keeps vars vars') (k : Fin n.1)
    (x : Int32) : Within (vars' k) x ↔ Within (vars k) x := by
  unfold Within
  rw [(h k).1, (h k).2.1]

lemma keeps_refl {vars : Table n GenericCb Loc} (h : ∀ k, Within (vars k) (vars k).val) :
    Keeps vars vars := fun k => ⟨rfl, rfl, h k⟩

/-- A change of one value keeps the limits if the new value is within them. -/
lemma keeps_update {vars : Table n GenericCb Loc} (h : ∀ k, Within (vars k) (vars k).val)
    {k : Fin n.1} {x : Int32} (hx : Within (vars k) x) :
    Keeps vars (Function.update vars k { vars k with val := x }) := by
  intro j
  by_cases hj : j = k
  · subst hj
    simp only [Function.update_self, true_and]
    exact hx
  · rw [Function.update_of_ne hj]
    exact ⟨rfl, rfl, h j⟩

lemma within_limit {v : CfgVar GenericCb Loc} {x : Int32} (h : Within v x) (val : Int32) :
    Within v (limit v val) :=
  limit_mem (Int32.le_trans h.1 h.2) val

section Stores

variable (conv : MilliConv) {w : World n GenericCb Loc Mem Empty}
  (h : ∀ k, Within (w.vars k) (w.vars k).val)
include h

lemma keeps_setVal (k : Fin n.1) (val : Int32) :
    Keeps w.vars (setVal k (limit (w.vars k) val) w).vars :=
  keeps_update h (within_limit (h k) val)

omit h in
lemma callCb_write_vars (cb : Option GenericCb) (k : Fin n.1) (data : Loc) :
    (callCb (genericSem conv) cb k false data w).vars = w.vars := by
  cases cb with
  | none => rfl
  | some c => exact genericSem_write_vars conv c k data w.vars w.ext

omit h in
lemma callCb_out (cb : Option GenericCb) (k : Fin n.1) (isread : Bool) (data : Loc) :
    (callCb (genericSem conv) cb k isread data w).out = w.out := by
  cases cb with
  | none => rfl
  | some c =>
    have hp : (genericSem conv c k isread data w.vars w.ext).prints = [] :=
      List.eq_nil_iff_forall_not_mem.2 fun x _ => Empty.elim x
    simp [callCb, hp]

/-- A read through `cfgCpyCB` stores a limited value; a read through `cfgFloatMilliCB` is the one
place where the limits are not enforced. -/
lemma keeps_callCb_read (cb : Option GenericCb) (k : Fin n.1) (data : Loc)
    (hm : cb = some .floatMilli → Within (w.vars k) (conv.toVal (w.ext data))) :
    Keeps w.vars (callCb (genericSem conv) cb k true data w).vars := by
  rcases cb with _ | _ | _
  · exact keeps_refl h
  · simp only [callCb, genericSem, cfgCpyCB, if_true]
    split
    · exact keeps_refl h
    · rw [cfgSetId_false]
      cases hi : findId w.vars (w.vars k).id with
      | none => exact keeps_refl h
      | some i => exact keeps_update h (within_limit (h i) _)
  · exact keeps_update h (hm rfl)

end Stores

/-! ### One step -/

/-- A step that keeps the limits of the table and sends a reply keeps `InLimits`, if the value of the
reply is within the limits. -/
lemma inLimits_send {s : Store n} (h : InLimits s) {w : World n GenericCb Loc Mem Empty}
    (hk : Keeps s.w.vars w.vars) (ho : w.out = s.w.out) {rep : CfgMsg}
    (hr : rep.type = resRdVal → ∃ k, entry? n rep.ind = some k ∧ Within (w.vars k) rep.val) :
    InLimits (send rep w) := by
  refine ⟨fun k => (hk.within k _).2 (hk k).2.2, fun r hmem ht => ?_⟩
  simp only [send, ho, List.mem_append, List.mem_singleton, Sum.inr.injEq] at hmem
  rcases hmem with hmem | rfl
  · obtain ⟨k, hk', hw⟩ := h.replies r hmem ht
    exact ⟨k, hk', (hk.within k _).2 hw⟩
  · exact hr ht

lemma inLimits_request (conv : MilliConv) {s s' : Store n} {req : CfgMsg} (h : InLimits s)
    (hok : MilliWithin conv s (.request req)) (hs : step conv s (.request req) = some s') :
    InLimits s' := by
  obtain ⟨rep, he, -, hind, hc⟩ := configMsgHandler_serves (genericSem conv) req s
  rw [step, he, Option.some.injEq] at hs
  subst hs
  cases hq : query n req with
  | read k =>
    obtain ⟨ht, hk⟩ := query_eq_read hq
    rw [hq] at hc
    have hkeep := keeps_callCb_read conv h.vars (s.w.vars k).rdCb k (s.w.vars k).rdCbData
      (fun hcb => hok ht k hk hcb)
    refine inLimits_send h hkeep (callCb_out conv _ _ _ _) fun _ => ⟨k, hind ▸ hk, ?_⟩
    have hv : rep.val = ((callCb (genericSem conv) (s.w.vars k).rdCb k true
        (s.w.vars k).rdCbData s.w).vars k).val := Int32.toInt_inj.1 hc.2.1
    rw [hv]
    exact (hkeep.within k _).2 (hkeep k).2.2
  | write k v =>
    obtain ⟨-, -, rfl⟩ := query_eq_write hq
    rw [hq] at hc
    rw [serve_write]
    refine inLimits_send h ?_ ?_ fun ht => absurd (hc.1.symm.trans ht) (by decide)
    · rw [callCb_write_vars]
      exact keeps_setVal h.vars k _
    · rw [callCb_out]
      rfl
  | _ =>
    rw [hq] at hc
    exact inLimits_send h (keeps_refl h.vars) rfl fun ht => absurd (hc.1.symm.trans ht) (by decide)

/-- A change of the table that keeps the limits keeps `InLimits`. -/
lemma inLimits_world {s : Store n} (h : InLimits s) {w : World n GenericCb Loc Mem Empty}
    (hk : Keeps s.w.vars w.vars) (ho : w.out = s.w.out) : InLimits { s with w } := by
  refine ⟨fun k => (hk.within k _).2 (hk k).2.2, fun r hmem ht => ?_⟩
  obtain ⟨k, hk', hw⟩ := h.replies r (ho ▸ hmem) ht
  exact ⟨k, hk', (hk.within k _).2 hw⟩

lemma keeps_cfgSetId (conv : MilliConv) {w w' : World n GenericCb Loc Mem Empty}
    (h : ∀ k, Within (w.vars k) (w.vars k).val) {id val r : Int32} {trigCb : Bool}
    (hs : cfgSetId (genericSem conv) id val trigCb w = some (r, w')) :
    Keeps w.vars w'.vars ∧ w'.out = w.out := by
  unfold cfgSetId at hs
  cases hi : findId w.vars id with
  | none =>
    rw [hi] at hs
    cases hs
    exact ⟨keeps_refl h, rfl⟩
  | some i =>
    simp only [hi, cfgSetInd_entry _ (entry?_ofNat i), Option.some.injEq, Prod.mk.injEq] at hs
    obtain ⟨-, rfl⟩ := hs
    have hk := keeps_setVal h i val
    cases trigCb with
    | false => exact ⟨hk, rfl⟩
    | true => exact ⟨(callCb_write_vars conv _ _ _).symm ▸ hk, callCb_out conv _ _ _ _⟩

lemma keeps_cfgSetCallback {vars : Table n GenericCb Loc}
    (h : ∀ k, Within (vars k) (vars k).val) (id : Int32) (cb : Option GenericCb) (read : Bool)
    (data : Loc) : Keeps vars (cfgSetCallback id cb read data vars).2 := by
  unfold cfgSetCallback
  cases hi : findId vars id with
  | none => exact keeps_refl h
  | some i =>
    intro k
    by_cases hk : k = i
    · subst hk
      cases read <;> simpa using h k
    · cases read <;> simpa [hk] using h k

theorem inLimits_step (conv : MilliConv) (s : Store n) (e : Event) (s' : Store n) (h : InLimits s)
    (hok : MilliWithin conv s e) (hs : step conv s e = some s') : InLimits s' := by
  cases e with
  | request req => exact inLimits_request conv h hok hs
  | setId id val trigCb =>
    simp only [step, Option.bind_eq_bind, Option.bind_eq_some_iff, Option.some.injEq] at hs
    obtain ⟨⟨r, w⟩, hw, rfl⟩ := hs
    obtain ⟨hk, ho⟩ := keeps_cfgSetId conv h.vars hw
    exact inLimits_world h hk ho
  | setCallback id cb read data =>
    cases hs
    exact inLimits_world h (keeps_cfgSetCallback h.vars id cb read data) rfl
  | outside p x =>
    cases hs
    exact inLimits_world h (keeps_refl h.vars) rfl

/-- A read through `cfgFloatMilliCB` leaves the converted value in the table, so that the limits hold
afterwards only if they enclose it. -/
theorem milliWithin_of_step (conv : MilliConv) (s : Store n) (e : Event) (_ : InLimits s)
    (hs : ∀ s', step conv s e = some s' → InLimits s') : MilliWithin conv s e := by
  cases e with
  | request req =>
    intro ht k hk hcb
    obtain ⟨rep, he, -⟩ := configMsgHandler_serves (genericSem conv) req s
    have hk' := (hs _ he).vars k
    rw [query_of_read ht hk] at hk'
    simpa [send, RegMap.serve, regMap, callCb, hcb, genericSem, cfgFloatMilliCB, Within] using hk'
  | _ => trivial

/-! ### Every run -/

lemma inLimits_start (vars : LimitedTable n) (ext : Mem) (txBuf : CfgMsg) :
    InLimits (start vars ext txBuf) :=
  ⟨vars.2, fun _ hmem => absurd hmem List.not_mem_nil⟩

/-- **The limits hold in every state of a run if and only if** every read request through
`cfgFloatMilliCB` finds a `float` that converts to a value within the limits of the entry. -/
theorem inLimits_iff (conv : MilliConv) (vars : LimitedTable n) (ext : Mem) (txBuf : CfgMsg)
    (es : List Event) :
    States (step conv) InLimits (start vars ext txBuf) es ↔
      Steps (step conv) (MilliWithin conv) (start vars ext txBuf) es :=
  states_iff_steps (inLimits_step conv) (fun _ => id) (milliWithin_of_step conv)
    (inLimits_start vars ext txBuf)

/-! ### A `float` outside of the limits -/

/-- A variable limited to `[0, 1000]`. -/
def gain : CfgVar GenericCb Loc where
  id := 1
  name := ⟨[103, 97, 105, 110], by decide⟩
  desc := ⟨[], by decide⟩
  val := 0
  min := 0
  max := 1000
  rdCb := none
  rdCbData := 0
  wrCb := none
  wrCbData := 0

def gainTable : LimitedTable ⟨1, by decide⟩ :=
  ⟨fun _ => gain, fun _ => (by decide : Within gain gain.val)⟩

/-- The conversion of `5.0f`, whose bits are `0x40A00000`. -/
def fiveConv : MilliConv where
  toVal x := if x = 0x40A00000 then 5000 else 0
  ofVal _ := 0

/-- Register `cfgFloatMilliCB` for reading `gain` from a location that holds `5.0f`, then read. -/
def gainRead : List Event :=
  [.setCallback 1 (some .floatMilli) true 0x100, .outside 0x100 0x40A00000,
    .request { CfgMsg.zero with type := reqRd, ind := 0 }]

/-- The read stores 5000 in `gain` and sends it. -/
theorem gainRead_leaves_limits :
    ¬ States (step fiveConv) InLimits (start gainTable (fun _ => 0) CfgMsg.zero) gainRead := by
  intro h
  have hv := (h gainRead (List.prefix_refl _) _ rfl).vars ⟨0, by decide⟩
  revert hv
  decide

end CfgMgmt.Firmware.Limits
