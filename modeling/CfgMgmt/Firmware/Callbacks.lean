import CfgMgmt.Firmware.Config

/-!
# The generic callbacks (`cfgCpyCB`, `cfgFloatMilliCB`)

Both mirror a variable in a memory location outside of the table.  The memory is made of 32-bit
words, the location is the data pointer of the registration.
-/

namespace CfgMgmt.Firmware.Callbacks

open CfgMgmt.Firmware.Config

/-- The two function pointers. -/
inductive GenericCb
  | cpy
  | floatMilli
  deriving DecidableEq

/-- An address outside of the table, or `NULL`. -/
abbrev Loc : Type := UInt32

abbrev Mem : Type := Loc → UInt32

/-- The conversions of `cfgFloatMilliCB` between the bits of a `float` and a value:
`(int32_t)(*f * 1000)` and `var->val * 1.0e-3`. -/
structure MilliConv where
  toVal : UInt32 → Int32
  ofVal : Int32 → UInt32

section

variable {n : VarCount}

/-- The callbacks where `trigCb` is `false`: there are none. -/
def noCb : CbSem n GenericCb Loc Mem Empty := fun _ _ _ _ vars ext => ⟨vars, ext, []⟩

def cfgCpyCB (k : Fin n.1) (isread : Bool) (data : Loc) (vars : Table n GenericCb Loc) (ext : Mem) :
    CbResult n GenericCb Loc Mem Empty :=
  if data = 0 then
    ⟨vars, ext, []⟩
  else if isread then
    match cfgSetId noCb (vars k).id (ext data).toInt32 false ⟨vars, ext, []⟩ with
    | some (_, w) => ⟨w.vars, w.ext, []⟩
    | none => ⟨vars, ext, []⟩ -- `cfgSetId` stays inside of the table
  else
    ⟨vars, Function.update ext data (vars k).val.toUInt32, []⟩

def cfgFloatMilliCB (conv : MilliConv) (k : Fin n.1) (isread : Bool) (data : Loc)
    (vars : Table n GenericCb Loc) (ext : Mem) : CbResult n GenericCb Loc Mem Empty :=
  if isread then
    ⟨Function.update vars k { vars k with val := conv.toVal (ext data) }, ext, []⟩
  else
    ⟨vars, Function.update ext data (conv.ofVal (vars k).val), []⟩

/-- What the two function pointers do. -/
def genericSem (conv : MilliConv) : CbSem n GenericCb Loc Mem Empty
  | .cpy => cfgCpyCB
  | .floatMilli => cfgFloatMilliCB conv

/-! ### What a call changes -/

lemma genericSem_write_vars (conv : MilliConv) (c : GenericCb) (k : Fin n.1) (data : Loc)
    (vars : Table n GenericCb Loc) (ext : Mem) :
    (genericSem conv c k false data vars ext).vars = vars := by
  cases c with
  | cpy =>
    simp only [genericSem, cfgCpyCB]
    split <;> rfl
  | floatMilli => rfl

/-- Without a callback `cfgSetId` stores the limited value in the first entry with the id, whatever the
callbacks are. -/
lemma cfgSetId_false {κ δ ε ω : Type} (sem : CbSem n κ δ ε ω) (id val : Int32)
    (w : World n κ δ ε ω) :
    cfgSetId sem id val false w =
      some (match findId w.vars id with
        | some i => (1, setVal i (limit (w.vars i) val) w)
        | none => (0, w)) := by
  unfold cfgSetId
  cases findId w.vars id with
  | none => rfl
  | some i => exact cfgSetInd_entry sem (entry?_ofNat i) val false w

end

end CfgMgmt.Firmware.Callbacks
