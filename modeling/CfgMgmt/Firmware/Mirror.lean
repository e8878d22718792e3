import CfgMgmt.Firmware.Callbacks
import CfgMgmt.Firmware.Lookup
import CfgMgmt.Firmware.SetInd

/-!
# Variables mirrored by `cfgCpyCB`

A variable with `cfgCpyCB` registered for reading and for writing is kept together with a location
outside of the table: a write of the kernel reaches both, a read takes the value of the location.  The
read callback calls `cfgSetId` in the middle of the request; that call triggers no callback
(`cpyCB_eq`), so that every request makes one call, and concerns one variable and its location
(`mirrors_coherent`).
-/

namespace CfgMgmt.Firmware.Mirror

open CfgMgmt.Lib.Machine CfgMgmt.Msg CfgMgmt.Firmware.Config CfgMgmt.Firmware.Callbacks
open CfgMgmt.Firmware.RegisterMap CfgMgmt.Firmware.ConfigRefinement CfgMgmt.Firmware.SetInd

variable {n : VarCount}

/-! ### The callbacks and their record -/

/-- The memory outside of the table, and the calls of callbacks so far. -/
abbrev Ext (n : VarCount) : Type := Mem × List (CbCall n GenericCb Loc)

/-- `cfgCpyCB`, where `sem` are the callbacks within reach of its own call of `cfgSetId`. -/
def cpyCB (sem : CbSem n GenericCb Loc (Ext n) Empty) (k : Fin n.1) (isread : Bool) (data : Loc)
    (vars : Table n GenericCb Loc) (ext : Ext n) : CbResult n GenericCb Loc (Ext n) Empty :=
  if data = 0 then
    ⟨vars, ext, []⟩
  else if isread then
    match cfgSetId sem (vars k).id (ext.1 data).toInt32 false ⟨vars, ext, []⟩ with
    | some (_, w) => ⟨w.vars, w.ext, []⟩
    | none => ⟨vars, ext, []⟩
  else
    ⟨vars, (Function.update ext.1 data (vars k).val.toUInt32, ext.2), []⟩

/-- The function pointers, with a record of every call.  `inner` is what callbacks do that are called
out of a callback, and what the other one does. -/
def mirrorSem (inner : CbSem n GenericCb Loc Mem Empty) : CbSem n GenericCb Loc (Ext n) Empty
  | .cpy, k, isread, data, vars, ext =>
    cpyCB (recorded inner) k isread data vars (ext.1, ext.2 ++ [⟨.cpy, k, isread, data, vars⟩])
  | .floatMilli, k, isread, data, vars, ext => recorded inner .floatMilli k isread data vars ext

/-- **`cfgCpyCB` triggers no further callback**: whatever the callbacks are, it does to the table and the
memory what it does without any, and adds nothing to the record. -/
theorem cpyCB_eq (sem : CbSem n GenericCb Loc (Ext n) Empty) (k : Fin n.1) (isread : Bool) (data : Loc)
    (vars : Table n GenericCb Loc) (ext : Ext n) :
    cpyCB sem k isread data vars ext =
      ⟨(cfgCpyCB k isread data vars ext.1).vars,
        ((cfgCpyCB k isread data vars ext.1).ext, ext.2), []⟩ := by
  unfold cpyCB cfgCpyCB
  by_cases h0 : data = 0
  · simp only [if_pos h0]
  · simp only [if_neg h0]
    cases isread with
    | true =>
      simp only [if_true, cfgSetId_false]
      cases findId vars (vars k).id <;> rfl
    | false => rfl

/-! ### Tables with mirrored variables -/

/-- The variable is mirrored in the location of its callbacks. -/
structure Mirrored (v : CfgVar GenericCb Loc) : Prop where
  rdCb : v.rdCb = some .cpy
  wrCb : v.wrCb = some .cpy
  data : v.wrCbData = v.rdCbData
  ne_zero : v.rdCbData ≠ 0

/-- A table with distinct ids, in which any of the variables are mirrored, each in a location of its
own, and the others have no callbacks. -/
structure MirrorTable (n : VarCount) where
  vars : Table n GenericCb Loc
  ids : ∀ j k, (vars j).id = (vars k).id → j = k
  limits : ∀ k, (vars k).min ≤ (vars k).max
  kinds : ∀ k, Mirrored (vars k) ∨ ((vars k).rdCb = none ∧ (vars k).wrCb = none)
  locs : ∀ j k, Mirrored (vars j) → Mirrored (vars k) →
    (vars j).rdCbData = (vars k).rdCbData → j = k

/-- Register `cfgCpyCB` for reading and for writing. -/
def register (id : Int32) (data : Loc) (vars : Table n GenericCb Loc) : Table n GenericCb Loc :=
  (cfgSetCallback id (some .cpy) false data (cfgSetCallback id (some .cpy) true data vars).2).2

lemma register_eq {vars : Table n GenericCb Loc} (hids : ∀ i j, (vars i).id = (vars j).id → i = j)
    (k : Fin n.1) (data : Loc) :
    register (vars k).id data vars = Function.update vars k
      { vars k with rdCb := some .cpy, rdCbData := data, wrCb := some .cpy, wrCbData := data } := by
  have hk : findId vars (vars k).id = some k := Lookup.findId_self hids rfl
  have hk' : findId (Function.update vars k { vars k with rdCb := some .cpy, rdCbData := data })
      (vars k).id = some k := by
    refine Lookup.find?_finRange (by simp) fun j hj => ?_
    by_cases hjk : j = k
    · exact hjk
    · rw [Function.update_of_ne hjk] at hj
      exact hids j k (of_decide_eq_true hj)
  simp [register, cfgSetCallback, hk, hk']

/-- **A variable becomes mirrored when `cfgCpyCB` is registered for it**, with a location that no other
variable has. -/
theorem register_mirrors (t : MirrorTable n) (k : Fin n.1) {data : Loc} (h0 : data ≠ 0)
    (hfresh : ∀ j, j ≠ k → Mirrored (t.vars j) → (t.vars j).rdCbData ≠ data) :
    ∃ t' : MirrorTable n, t'.vars = register (t.vars k).id data t.vars ∧ Mirrored (t'.vars k) := by
  have hk := register_eq t.ids k data
  set vars' := register (t.vars k).id data t.vars
  have hself : vars' k = { t.vars k with
      rdCb := some .cpy, rdCbData := data, wrCb := some .cpy, wrCbData := data } := by
    rw [hk, Function.update_self]
  have hother : ∀ j, j ≠ k → vars' j = t.vars j := fun j hj => by rw [hk, Function.update_of_ne hj]
  have hm : Mirrored (vars' k) := by
    rw [hself]
    exact ⟨rfl, rfl, rfl, h0⟩
  have hid : ∀ j, (vars' j).id = (t.vars j).id := by
    intro j
    by_cases hj : j = k
    · rw [hj, hself]
    · rw [hother j hj]
  refine ⟨⟨vars', fun i j h => t.ids i j ?_, fun j => ?_, fun j => ?_, fun i j hi hj h => ?_⟩, rfl, hm⟩
  · rw [← hid i, ← hid j]
    exact h
  · by_cases hj : j = k
    · rw [hj, hself]
      exact t.limits k
    · rw [hother j hj]
      exact t.limits j
  · by_cases hj : j = k
    · rw [hj]
      exact .inl hm
    · rw [hother j hj]
      exact t.kinds j
  · by_cases hik : i = k <;> by_cases hjk : j = k
    · rw [hik, hjk]
    · rw [hik, hself, hother j hjk] at h
      rw [hother j hjk] at hj
      exact absurd h.symm (hfresh j hjk hj)
    · rw [hjk, hself, hother i hik] at h
      rw [hother i hik] at hi
      exact absurd h (hfresh i hik hi)
    · rw [hother i hik] at hi h
      rw [hother j hjk] at hj h
      exact t.locs i j hi hj h

/-- The value `x` limited to the limits of a variable. -/
def limited (v : CfgVar GenericCb Loc) (x : Int32) : Int32 :=
  Int32.ofInt (limitTo v.min.toInt v.max.toInt x.toInt)

/-! ### The requests and the changes of the locations -/

abbrev Store (n : VarCount) : Type := Cfg n GenericCb Loc (Ext n) Empty

/-- A request of the kernel, or a change of a location by the rest of the firmware. -/
inductive Event
  | request (req : CfgMsg)
  | outside (p : Loc) (x : UInt32)

def step (inner : CbSem n GenericCb Loc Mem Empty) (s : Store n) : Event → Option (Store n)
  | .request req => configMsgHandler (mirrorSem inner) req s
  | .outside p x =>
    some { s with w := { s.w with ext := (Function.update s.w.ext.1 p x, s.w.ext.2) } }

/-- The value in the location of a mirrored variable. -/
def Store.located (s : Store n) (v : CfgVar GenericCb Loc) : Int32 := (s.w.ext.1 v.rdCbData).toInt32

/-- The event is a request for the variable `k`, or changes its location. -/
def Concerns (t : MirrorTable n) (k : Fin n.1) : Event → Prop
  | .request req => req.ind.toInt = (k : ℕ)
  | .outside p _ => Mirrored (t.vars k) ∧ p = (t.vars k).rdCbData

/-- What holds in the state `s` of a run with the table `t`, whatever happens next. -/
structure Coherent (inner : CbSem n GenericCb Loc Mem Empty) (t : MirrorTable n) (s : Store n) :
    Prop where
  /-- a write reaches the variable and its location, in one call of the callback -/
  write : ∀ k, Mirrored (t.vars k) → ∀ req : CfgMsg, req.type = reqWr → req.ind.toInt = (k : ℕ) →
    ∃ s' c, step inner s (.request req) = some s' ∧
      (s'.w.vars k).val = limited (t.vars k) req.val ∧
      s'.located (t.vars k) = limited (t.vars k) req.val ∧
      s'.w.ext.2 = s.w.ext.2 ++ [c] ∧ c.ind = k ∧ c.isread = false
  /-- a read replies with the value of the location, in one call of the callback -/
  read : ∀ k, Mirrored (t.vars k) → ∀ req : CfgMsg, req.type = reqRd → req.ind.toInt = (k : ℕ) →
    ∃ s' c, step inner s (.request req) = some s' ∧
      s'.w.out = s.w.out ++ [.inr s'.txBuf] ∧ s'.txBuf.type = resRdVal ∧ s'.txBuf.ind = req.ind ∧
      s'.txBuf.val = limited (t.vars k) (s.located (t.vars k)) ∧
      (s'.w.vars k).val = s'.txBuf.val ∧ s'.located (t.vars k) = s.located (t.vars k) ∧
      s'.w.ext.2 = s.w.ext.2 ++ [c] ∧ c.ind = k ∧ c.isread = true
  /-- what does not concern a variable changes neither its value nor its location -/
  apart : ∀ e s' k, step inner s e = some s' → ¬ Concerns t k e →
    (s'.w.vars k).val = (s.w.vars k).val ∧
      (Mirrored (t.vars k) → s'.located (t.vars k) = s.located (t.vars k))
  /-- limited values are within the limits -/
  within : ∀ k x, (t.vars k).min ≤ limited (t.vars k) x ∧ limited (t.vars k) x ≤ (t.vars k).max

/-! ### What the callbacks do -/

section Calls

variable (inner : CbSem n GenericCb Loc Mem Empty) {v : CfgVar GenericCb Loc}

lemma callCb_wrCb (h : Mirrored v) (k : Fin n.1) (w : World n GenericCb Loc (Ext n) Empty) :
    callCb (mirrorSem inner) v.wrCb k false v.wrCbData w =
      { w with ext := (Function.update w.ext.1 v.rdCbData (w.vars k).val.toUInt32,
        w.ext.2 ++ [⟨.cpy, k, false, v.rdCbData, w.vars⟩]) } := by
  rw [h.wrCb, h.data]
  simp [callCb, mirrorSem, cpyCB, h.ne_zero]

/-- The read callback stores the limited value of the location, if the search for the id leads back to
the variable. -/
lemma callCb_rdCb (h : Mirrored v) {k : Fin n.1} {w : World n GenericCb Loc (Ext n) Empty}
    (hk : findId w.vars (w.vars k).id = some k) :
    callCb (mirrorSem inner) v.rdCb k true v.rdCbData w =
      { setVal k (limit (w.vars k) (w.ext.1 v.rdCbData).toInt32) w with
        ext := (w.ext.1, w.ext.2 ++ [⟨.cpy, k, true, v.rdCbData, w.vars⟩]) } := by
  rw [h.rdCb]
  simp [callCb, mirrorSem, cpyCB, h.ne_zero, cfgSetId_false, hk, setVal]

end Calls

/-! ### One step -/

/-- Between `w` and `w'` at most the value and the location of the variable `k` have changed. -/
structure Only (t : MirrorTable n) (k : Fin n.1) (w w' : World n GenericCb Loc (Ext n) Empty) :
    Prop where
  self : w'.vars k = { w.vars k with val := (w'.vars k).val }
  vars : ∀ j, j ≠ k → w'.vars j = w.vars j
  locs : ∀ j, j ≠ k → Mirrored (t.vars j) →
    w'.ext.1 (t.vars j).rdCbData = w.ext.1 (t.vars j).rdCbData

/-- The table of the memory is the table `t`, but for the values. -/
def Tabled (t : MirrorTable n) (w : World n GenericCb Loc (Ext n) Empty) : Prop :=
  ∀ k, w.vars k = { t.vars k with val := (w.vars k).val }

lemma Tabled.of_only {t : MirrorTable n} {k : Fin n.1} {w w' : World n GenericCb Loc (Ext n) Empty}
    (h : Tabled t w) (ho : Only t k w w') : Tabled t w' := by
  intro j
  by_cases hj : j = k
  · subst hj
    rw [ho.self, h j]
  · rw [ho.vars j hj, ← h j]

section Step

variable (inner : CbSem n GenericCb Loc Mem Empty) {t : MirrorTable n}
  {w : World n GenericCb Loc (Ext n) Empty} (h : Tabled t w)
include h

lemma limit_tabled (k : Fin n.1) (x : Int32) : limit (w.vars k) x = limited (t.vars k) x := by
  rw [h k, limit_eq_limitTo]
  rfl

lemma mirrored_tabled (k : Fin n.1) : Mirrored (w.vars k) ↔ Mirrored (t.vars k) := by
  rw [h k]
  exact ⟨fun hm => ⟨hm.1, hm.2, hm.3, hm.4⟩, fun hm => ⟨hm.1, hm.2, hm.3, hm.4⟩⟩

lemma rdCbData_tabled (k : Fin n.1) : (w.vars k).rdCbData = (t.vars k).rdCbData := by
  rw [h k]

lemma findId_tabled (k : Fin n.1) : findId w.vars (w.vars k).id = some k :=
  Lookup.findId_self (fun i j hij => t.ids i j (by rw [h i, h j] at hij; exact hij)) rfl

lemma serve_write_mirrored {k : Fin n.1} (hm : Mirrored (t.vars k)) (val : Int32) :
    ((regMap (mirrorSem inner)).serve w (.write k val.toInt)).1 =
      { setVal k (limited (t.vars k) val) w with
        ext := (Function.update w.ext.1 (t.vars k).rdCbData (limited (t.vars k) val).toUInt32,
          w.ext.2 ++ [⟨.cpy, k, false, (t.vars k).rdCbData,
            (setVal k (limited (t.vars k) val) w).vars⟩]) } := by
  rw [serve_write, callCb_wrCb inner ((mirrored_tabled h k).2 hm), limit_tabled h,
    rdCbData_tabled h, setVal_vars_self]
  rfl

lemma serve_read_mirrored {k : Fin n.1} (hm : Mirrored (t.vars k)) :
    ((regMap (mirrorSem inner)).serve w (.read k)).1 =
      { setVal k (limited (t.vars k) (w.ext.1 (t.vars k).rdCbData).toInt32) w with
        ext := (w.ext.1, w.ext.2 ++ [⟨.cpy, k, true, (t.vars k).rdCbData, w.vars⟩]) } := by
  simp only [RegMap.serve, regMap]
  rw [callCb_rdCb inner ((mirrored_tabled h k).2 hm) (findId_tabled h k), limit_tabled h,
    rdCbData_tabled h]

omit h in
lemma only_setVal {k : Fin n.1} (x : Int32) {ext : Ext n}
    (hl : ∀ j, j ≠ k → Mirrored (t.vars j) →
      ext.1 (t.vars j).rdCbData = w.ext.1 (t.vars j).rdCbData) :
    Only t k w { setVal k x w with ext } where
  self := by simp [setVal]
  vars j hj := setVal_vars_of_ne hj x w
  locs := hl

lemma only_write (k : Fin n.1) (val : Int32) :
    Only t k w ((regMap (mirrorSem inner)).serve w (.write k val.toInt)).1 := by
  rcases t.kinds k with hm | ⟨-, hn⟩
  · rw [serve_write_mirrored inner h hm]
    refine only_setVal _ fun j hj hmj => ?_
    exact Function.update_of_ne (fun e => hj (t.locs j k hmj hm e)) _ _
  · have hcb : (w.vars k).wrCb = none := by
      rw [h k]
      exact hn
    rw [serve_write, hcb]
    exact only_setVal _ fun _ _ _ => rfl

lemma only_read (k : Fin n.1) : Only t k w ((regMap (mirrorSem inner)).serve w (.read k)).1 := by
  rcases t.kinds k with hm | ⟨hn, -⟩
  · rw [serve_read_mirrored inner h hm]
    exact only_setVal _ fun _ _ _ => rfl
  · have hcb : (w.vars k).rdCb = none := by
      rw [h k]
      exact hn
    simp only [RegMap.serve, regMap, hcb, callCb]
    exact ⟨rfl, fun _ _ => rfl, fun _ _ _ => rfl⟩

lemma only_request (req : CfgMsg) :
    ((regMap (mirrorSem inner)).serve w (query n req)).1 = w ∨
      ∃ k : Fin n.1, req.ind.toInt = (k : ℕ) ∧
        Only t k w ((regMap (mirrorSem inner)).serve w (query n req)).1 := by
  cases hq : query n req with
  | write k v =>
    obtain ⟨-, hk, rfl⟩ := query_eq_write hq
    exact .inr ⟨k, entry?_eq_some.1 hk, only_write inner h k req.val⟩
  | read k => exact .inr ⟨k, entry?_eq_some.1 (query_eq_read hq).2, only_read inner h k⟩
  | _ => exact .inl rfl

end Step

/-! ### Every run -/

section Runs

variable (inner : CbSem n GenericCb Loc Mem Empty) {t : MirrorTable n} {s : Store n}

def start (t : MirrorTable n) (mem : Mem) (txBuf : CfgMsg) : Store n := ⟨⟨t.vars, (mem, []), []⟩, txBuf⟩

lemma tabled_step (h : Tabled t s.w) (e : Event) : ∃ s', step inner s e = some s' ∧ Tabled t s'.w := by
  cases e with
  | request req =>
    obtain ⟨rep, he, -⟩ := configMsgHandler_serves (mirrorSem inner) req s
    refine ⟨_, he, ?_⟩
    rcases only_request inner h req with hw | ⟨k, -, ho⟩
    · rw [hw]
      exact h
    · have h' := h.of_only ho
      exact h'
  | outside p x => exact ⟨_, rfl, h⟩

lemma limited_mem (t : MirrorTable n) (k : Fin n.1) (x : Int32) :
    (t.vars k).min ≤ limited (t.vars k) x ∧ limited (t.vars k) x ≤ (t.vars k).max := by
  unfold limited
  rw [← limit_eq_limitTo]
  exact limit_mem (t.limits k) x

lemma apart_step (h : Tabled t s.w) {e : Event} {s' : Store n} {k : Fin n.1}
    (hs : step inner s e = some s') (hk : ¬ Concerns t k e) :
    (s'.w.vars k).val = (s.w.vars k).val ∧
      (Mirrored (t.vars k) → s'.located (t.vars k) = s.located (t.vars k)) := by
  cases e with
  | request req =>
    obtain ⟨rep, he, -⟩ := configMsgHandler_serves (mirrorSem inner) req s
    obtain rfl := Option.some.inj (he.symm.trans hs)
    rcases only_request inner h req with hw | ⟨j, hj, ho⟩
    · rw [hw]
      exact ⟨rfl, fun _ => rfl⟩
    · have hne : k ≠ j := fun e => hk (e ▸ hj)
      exact ⟨congrArg CfgVar.val (ho.vars k hne),
        fun hm => congrArg UInt32.toInt32 (ho.locs k hne hm)⟩
  | outside p x =>
    cases hs
    refine ⟨rfl, fun hm => ?_⟩
    exact congrArg UInt32.toInt32 (Function.update_of_ne (fun e => hk ⟨hm, e.symm⟩) _ _)

lemma coherent_of_tabled (h : Tabled t s.w) : Coherent inner t s := by
  refine ⟨fun k hm req ht hi => ?_, fun k hm req ht hi => ?_, fun e s' k hs hk => ?_, limited_mem t⟩
  · obtain ⟨rep, he, -⟩ := configMsgHandler_serves (mirrorSem inner) req s
    rw [query_of_write ht (entry?_eq_some.2 hi), serve_write_mirrored inner h hm] at he
    refine ⟨_, _, he, ?_, ?_, rfl, rfl, rfl⟩
    · simp [send, setVal]
    · simp [send, Store.located]
  · obtain ⟨rep, he, -, hind, hc⟩ := configMsgHandler_serves (mirrorSem inner) req s
    rw [query_of_read ht (entry?_eq_some.2 hi)] at he hc
    have hval : rep.val = limited (t.vars k) (s.located (t.vars k)) := by
      have hread := congrArg (fun w => (w.vars k).val) (serve_read_mirrored inner h hm)
      rw [Int32.toInt_inj.1 hc.2.1]
      exact hread.trans (by simp [setVal, Store.located])
    rw [serve_read_mirrored inner h hm] at he
    refine ⟨_, _, he, rfl, hc.1, hind, hval, ?_, rfl, rfl, rfl, rfl⟩
    simp [send, setVal, hval, Store.located]
  · exact apart_step inner h hs hk

end Runs

/-- **Mirrored variables stay coherent** in every state of every run. -/
theorem mirrors_coherent (inner : CbSem n GenericCb Loc Mem Empty) (t : MirrorTable n) (mem : Mem)
    (txBuf : CfgMsg) (es : List Event) :
    ∃ s, run (step inner) (start t mem txBuf) es = some s ∧ Coherent inner t s := by
  have hrun : ∃ s, run (step inner) (start t mem txBuf) es = some s ∧ Tabled t s.w := by
    induction es using List.reverseRecOn with
    | nil => exact ⟨_, rfl, fun _ => rfl⟩
    | append_singleton es e ih =>
      obtain ⟨s, hs, h⟩ := ih
      obtain ⟨s', hs', h'⟩ := tabled_step inner h e
      exact ⟨s', run_concat_eq_some.2 ⟨s, hs, hs'⟩, h'⟩
  obtain ⟨s, hs, h⟩ := hrun
  exact ⟨s, hs, coherent_of_tabled inner h⟩

end CfgMgmt.Firmware.Mirror
