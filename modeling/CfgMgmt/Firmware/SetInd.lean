import CfgMgmt.Firmware.ConfigRefinement

/-!
# What `cfgSetInd` promises

On an index of the table, `cfgSetInd` stores the limited value, changes nothing else, and then calls the
write callback once, if it is asked to; any other index it has to refuse.  The check of the index is
`i > n_vars`: the index `n_vars` passes it (`sets_iff`).
-/

namespace CfgMgmt.Firmware.SetInd

open CfgMgmt.Lib.Bytes CfgMgmt.Msg CfgMgmt.Firmware.Config CfgMgmt.Firmware.RegisterMap
open CfgMgmt.Firmware.ConfigRefinement

/-! ### Calls of the callbacks -/

/-- A call of a callback, with the table that it finds. -/
structure CbCall (n : VarCount) (κ δ : Type) where
  cb : κ
  ind : Fin n.1
  isread : Bool
  data : δ
  vars : Table n κ δ

section

variable {n : VarCount} {κ δ ε ω : Type}

/-- The callbacks, and a record of their calls behind the memory. -/
def recorded (sem : CbSem n κ δ ε ω) : CbSem n κ δ (ε × List (CbCall n κ δ)) ω :=
  fun c k isread data vars ext =>
    let r := sem c k isread data vars ext.1
    ⟨r.vars, (r.ext, ext.2 ++ [⟨c, k, isread, data, vars⟩]), r.prints⟩

/-- The table after the value `val`, limited, was stored in the entry `k`. -/
def stored (vars : Table n κ δ) (k : Fin n.1) (val : Int32) : Table n κ δ :=
  Function.update vars k { vars k with
    val := Int32.ofInt (limitTo (vars k).min.toInt (vars k).max.toInt val.toInt) }

/-- The calls that `cfgSetInd` has to make for the entry `k`. -/
def wrCalls (vars : Table n κ δ) (k : Fin n.1) (val : Int32) (trigCb : Bool) : List (CbCall n κ δ) :=
  if trigCb then
    (vars k).wrCb.toList.map fun c => ⟨c, k, false, (vars k).wrCbData, stored vars k val⟩
  else []

/-- What the result `r` of `cfgSetInd` promises, when it was called in the memory `w`. -/
structure Sets (w : World n κ δ (ε × List (CbCall n κ δ)) ω) (i val : Int32) (trigCb : Bool)
    (r : Option (Int32 × World n κ δ (ε × List (CbCall n κ δ)) ω)) : Prop where
  /-- for an index of the table it returns 1, and calls the write callback as it has to -/
  inside : ∀ k : Fin n.1, i.toInt = (k : ℕ) → ∃ w', r = some (1, w') ∧
    w'.ext.2 = w.ext.2 ++ wrCalls w.vars k val trigCb ∧
    (wrCalls w.vars k val trigCb = [] → w' = { w with vars := stored w.vars k val })
  /-- for any other index it returns 0, and nothing has happened -/
  outside : (∀ k : Fin n.1, i.toInt ≠ (k : ℕ)) → r = some (0, w)

variable (sem : CbSem n κ δ ε ω) (w : World n κ δ (ε × List (CbCall n κ δ)) ω) (i val : Int32)
  (trigCb : Bool)

lemma setVal_limit (k : Fin n.1) :
    setVal k (limit (w.vars k) val) w = { w with vars := stored w.vars k val } := by
  rw [limit_eq_limitTo]
  rfl

/-- The source refuses an index that is not in the table, but the first one behind it. -/
lemma cfgSetInd_refuses (hnone : entry? n i = none) (h : i ≠ nVars n) :
    cfgSetInd (recorded sem) i val trigCb w = some (0, w) := by
  unfold cfgSetInd
  by_cases hneg : i < 0
  · rw [if_pos hneg]
  · have hge : i ≥ nVars n := (entry?_eq_none.1 hnone).resolve_right hneg
    have hgt : i > nVars n := Int32.lt_of_le_of_ne hge h.symm
    rw [if_neg hneg, if_pos hgt]

/-- The index behind the table passes the checks, and leads to an access behind the table. -/
lemma cfgSetInd_behind (h : i = nVars n) : cfgSetInd (recorded sem) i val trigCb w = none := by
  have hnone : entry? n i = none := entry?_eq_none.2 (.inl (Int32.le_of_eq h.symm))
  have h0 : (0 : Int32).toInt = 0 := rfl
  have hneg : ¬ i < 0 := by
    rw [h, Int32.lt_iff_toInt_lt, toInt_nVars, h0]
    omega
  have hgt : ¬ i > nVars n := by
    rw [h]
    exact Int32.lt_irrefl
  unfold cfgSetInd
  rw [if_neg hneg, if_neg hgt, hnone]
  rfl

end

/-- **`cfgSetInd` does what it promises**, for every table, every value and all callbacks, unless it is
called for the index behind the table. -/
theorem sets_iff {n : VarCount} {κ δ ε ω : Type} (sem : CbSem n κ δ ε ω)
    (w : World n κ δ (ε × List (CbCall n κ δ)) ω) (i val : Int32) (trigCb : Bool) :
    Sets w i val trigCb (cfgSetInd (recorded sem) i val trigCb w) ↔ i.toInt ≠ n.1 := by
  have hne : i.toInt ≠ n.1 ↔ i ≠ nVars n := by
    rw [ne_eq, ne_eq, ← Int32.toInt_inj, toInt_nVars]
  rw [hne]
  constructor
  · rintro h rfl
    have hout : ∀ k : Fin n.1, (nVars n).toInt ≠ (k : ℕ) := fun k e => by
      rw [toInt_nVars] at e
      have hk := k.isLt
      omega
    have hsome := h.outside hout
    rw [cfgSetInd_behind sem w (nVars n) val trigCb rfl] at hsome
    cases hsome
  · intro h
    refine ⟨fun k hk => ?_, fun hout => ?_⟩
    · rw [cfgSetInd_entry (recorded sem) (entry?_eq_some.2 hk), setVal_limit]
      refine ⟨_, rfl, ?_, ?_⟩
      · cases trigCb <;> cases hc : (w.vars k).wrCb <;> simp [wrCalls, callCb, recorded, hc]
      · cases trigCb <;> cases hc : (w.vars k).wrCb <;> simp [wrCalls, callCb, hc]
    · have hnone : entry? n i = none := by
        cases hk : entry? n i with
        | none => rfl
        | some k => exact absurd (entry?_eq_some.1 hk) (hout k)
      exact cfgSetInd_refuses sem w i val trigCb hnone h

/-- A table with one variable, which is limited to `[0, 1000]` and has no callbacks. -/
def oneVar : World ⟨1, one_lt_limit⟩ Empty Unit (Unit × List (CbCall ⟨1, one_lt_limit⟩ Empty Unit)) Empty where
  vars _ := ⟨1, .empty, .empty, 0, 0, 1000, none, (), none, ()⟩
  ext := ((), [])
  out := []

/-- In a table with one variable, to set the variable 1 is no error that `cfgSetInd` reports. -/
theorem behindTable_not_refused :
    ¬ Sets oneVar 1 5 false (cfgSetInd (recorded (ε := Unit) fun c => c.elim) 1 5 false oneVar) := by
  intro h
  have hrefused := h.outside (by decide)
  cases hrefused

end CfgMgmt.Firmware.SetInd
