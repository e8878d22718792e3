import CfgMgmt.Firmware.Limits
import CfgMgmt.Firmware.Lookup

/-!
# The variables of the demo application (`config_vars.c`, `config_vars.h`)

The table that the firmware is built with.  Its ids and its names are distinct, it has no callbacks, and
every default is within its own limits.  So every value stays within them (`values_within`).
-/

namespace CfgMgmt.Firmware.ConfigVars

open CfgMgmt.Lib.Bytes CfgMgmt.Lib.Machine CfgMgmt.Msg CfgMgmt.Firmware.Config
open CfgMgmt.Firmware.Callbacks CfgMgmt.Firmware.RegisterMap CfgMgmt.Firmware.ConfigRefinement

def literal (s : String) : CStr where
  bytes := (s.toList.map fun c => UInt8.ofNat c.toNat).filter fun b => b ≠ 0
  noNul h := absurd (List.of_mem_filter h) (by simp)

/-- A variable before any callback was registered for it. -/
def dfltVar (id : Int32) (name desc : String) (val min max : Int32) : CfgVar GenericCb Loc :=
  ⟨id, literal name, literal desc, val, min, max, none, 0, none, 0⟩

def cfgDfltVar1 : CfgVar GenericCb Loc :=
  dfltVar 1 "var_1" "First config variable, possible values are 0 and 1" 0 0 1
def cfgDfltVar2 : CfgVar GenericCb Loc :=
  dfltVar 2 "var_2" "Second config variable, >0" 0 0 2147483647
def cfgDfltVar3 : CfgVar GenericCb Loc :=
  dfltVar 3 "var_3" "3rd config variable, >0" 0 0 2147483647
def cfgDfltVar4 : CfgVar GenericCb Loc :=
  dfltVar 4 "var_4" "4th config variable, >0" 0 0 2147483647
def cfgDfltVar5 : CfgVar GenericCb Loc :=
  dfltVar 5 "var_5" "5th config variable, >0" 0 0 2147483647
def cfgDfltVar6 : CfgVar GenericCb Loc :=
  dfltVar 6 "var_6" "6th config variable, >0" 0 0 2147483647
def cfgDfltVar7 : CfgVar GenericCb Loc :=
  dfltVar 7 "var_7" "7th config variable, >0" 0 0 2147483647

/-- The initializer of `vars`. -/
def varsInit : List (CfgVar GenericCb Loc) :=
  [cfgDfltVar1, cfgDfltVar2, cfgDfltVar3, cfgDfltVar4, cfgDfltVar5, cfgDfltVar6, cfgDfltVar7]

lemma seven_lt : 7 < 2 ^ 31 := by decide

/-- `n_vars`. -/
abbrev count : VarCount := ⟨7, seven_lt⟩

/-- `vars`, as it is initialized. -/
def vars : Table count GenericCb Loc := fun k => varsInit.get k

lemma ids_distinct : ∀ j k, (vars j).id = (vars k).id → j = k := by decide

lemma names_distinct : ∀ j k, (vars j).name = (vars k).name → j = k := by decide

lemma noCb_registered : ∀ k, (vars k).rdCb = none ∧ (vars k).wrCb = none := by decide

lemma defaults_within : ∀ k, Limits.Within (vars k) (vars k).val := by decide

def plain : Lookup.PlainTable count GenericCb Loc :=
  ⟨vars, ids_distinct, names_distinct, fun k => (noCb_registered k).1, fun k => (noCb_registered k).2⟩

def limited : Limits.LimitedTable count := ⟨vars, defaults_within⟩

lemma within_lastVal {n : VarCount} (vars : Limits.LimitedTable n) (k : Fin n.1) (es : List Lookup.Event) :
    Limits.Within (vars.1 k) (Lookup.lastVal vars.1 k es) := by
  unfold Lookup.lastVal
  split
  · rename_i val _
    rw [← limit_eq_limitTo]
    exact Limits.within_limit (vars.2 k) val
  · exact vars.2 k

/-- **The variables of the demo stay within their limits**, whatever Linux and the firmware write. -/
theorem values_within {ε ω : Type} (sem : CbSem count GenericCb Loc ε ω) (ext : ε) (txBuf : CfgMsg)
    (es : List Lookup.Event) : ∃ s, run (Lookup.step sem) (Lookup.start plain ext txBuf) es = some s ∧
      ∀ k, Limits.Within (vars k) (s.w.vars k).val := by
  obtain ⟨s, hs, h⟩ := Lookup.run_tableAfter sem plain ext txBuf es
  refine ⟨s, hs, fun k => ?_⟩
  rw [h]
  exact within_lastVal limited k es

end CfgMgmt.Firmware.ConfigVars
