import Mathlib.Data.Fin.Basic
import Mathlib.Data.List.FinRange
import Mathlib.Logic.Function.Basic
import CfgMgmt.Msg

/-!
# The configuration variables of the firmware (`config.c`, `config_vars.c`)

The table `vars` has `n_vars` entries.  Callbacks are function pointers with a data pointer; what
they do is a parameter (`CbSem`), so that the functions here are those of the source for any
callbacks.  An access behind the end of the table is `none`.
-/

namespace CfgMgmt.Firmware.Config

open CfgMgmt.Lib.Bytes CfgMgmt.Msg

/-! ### The table -/

/-- `n_vars`, an `int`. -/
abbrev VarCount : Type := { n : ℕ // n < 2 ^ 31 }

/-- `n_vars` as the `int` the source compares with. -/
def nVars (n : VarCount) : Int32 := Int32.ofNat n.1

/-- `struct cfg_var`, for function pointers `κ` and data pointers `δ`. -/
structure CfgVar (κ δ : Type) where
  id : Int32
  name : CStr
  desc : CStr
  val : Int32
  min : Int32
  max : Int32
  rdCb : Option κ
  rdCbData : δ
  wrCb : Option κ
  wrCbData : δ

/-- `vars`. -/
abbrev Table (n : VarCount) (κ δ : Type) : Type := Fin n.1 → CfgVar κ δ

/-- What the callbacks and the handler act on: the table, the memory `ext` outside of it, and the
messages handed to `rpmsg_send` so far: what the callbacks print (`ω`) and the replies. -/
structure World (n : VarCount) (κ δ ε ω : Type) where
  vars : Table n κ δ
  ext : ε
  out : List (ω ⊕ CfgMsg)

/-- What a callback leaves behind. -/
structure CbResult (n : VarCount) (κ δ ε ω : Type) where
  vars : Table n κ δ
  ext : ε
  prints : List ω

/-- The meaning of the function pointers: a callback gets the index of its entry, whether it is a
read access, its data pointer, and the memory. -/
abbrev CbSem (n : VarCount) (κ δ ε ω : Type) : Type :=
  κ → Fin n.1 → Bool → δ → Table n κ δ → ε → CbResult n κ δ ε ω

section Functions

variable {n : VarCount} {κ δ ε ω : Type} (sem : CbSem n κ δ ε ω)

def callCb (cb : Option κ) (k : Fin n.1) (isread : Bool) (data : δ) (w : World n κ δ ε ω) :
    World n κ δ ε ω :=
  match cb with
  | none => w
  | some c =>
    let r := sem c k isread data w.vars w.ext
    ⟨r.vars, r.ext, w.out ++ r.prints.map .inl⟩

/-- The entry an index addresses, if it is inside of the table. -/
def entry? (n : VarCount) (i : Int32) : Option (Fin n.1) :=
  if h : 0 ≤ i.toInt ∧ i.toInt.toNat < n.1 then some ⟨i.toInt.toNat, h.2⟩ else none

/-- The limitation of a new value in `cfgSetInd`. -/
def limit (v : CfgVar κ δ) (val : Int32) : Int32 :=
  let val := if val > v.max then v.max else val
  if val < v.min then v.min else val

/-- `vars[k].val = val`. -/
def setVal (k : Fin n.1) (val : Int32) (w : World n κ δ ε ω) : World n κ δ ε ω :=
  { w with vars := Function.update w.vars k { w.vars k with val } }

def cfgSetInd (i val : Int32) (trigCb : Bool) (w : World n κ δ ε ω) :
    Option (Int32 × World n κ δ ε ω) :=
  if i < 0 then
    some (0, w)
  else if i > nVars n then
    some (0, w)
  else do
    let k ← entry? n i
    let w := setVal k (limit (w.vars k) val) w
    if trigCb then
      some (1, callCb sem (w.vars k).wrCb k false (w.vars k).wrCbData w)
    else
      some (1, w)

def findId (vars : Table n κ δ) (id : Int32) : Option (Fin n.1) :=
  (List.finRange n.1).find? fun k => (vars k).id = id

def cfgSetId (id val : Int32) (trigCb : Bool) (w : World n κ δ ε ω) :
    Option (Int32 × World n κ δ ε ω) :=
  match findId w.vars id with
  | some i => cfgSetInd sem (Int32.ofNat i) val trigCb w
  | none => some (0, w)

def cfgSetCallback (id : Int32) (cb : Option κ) (read : Bool) (data : δ) (vars : Table n κ δ) :
    Int32 × Table n κ δ :=
  match findId vars id with
  | some i =>
    if read then
      (1, Function.update vars i { vars i with rdCb := cb, rdCbData := data })
    else
      (1, Function.update vars i { vars i with wrCb := cb, wrCbData := data })
  | none => (0, vars)

/-! ### The message handler -/

/-- `CFG_BUF_LEN`, the size of `cfgMsgTxBuf`. -/
abbrev cfgBufLen : ℕ := dataLenMax

/-- The memory the handler works on.  Of `cfgMsgTxBuf` only the reply at its start is used. -/
structure Cfg (n : VarCount) (κ δ ε ω : Type) where
  w : World n κ δ ε ω
  txBuf : CfgMsg

/-- The length of a text in a reply. -/
def textLen (s : CStr) : ℕ :=
  if s.strlen > cfgBufLen - sizeofCfgMsg then cfgBufLen - sizeofCfgMsg else s.strlen

lemma textLen_eq (s : CStr) : textLen s = min s.strlen (cfgBufLen - sizeofCfgMsg) := by
  unfold textLen
  split <;> omega

lemma length_take_textLen (s : CStr) : (s.bytes.take (textLen s)).length = textLen s := by
  rw [List.length_take, textLen_eq]
  exact min_eq_left (min_le_left _ _)

lemma textLen_le (s : CStr) : textLen s ≤ msgDataSize := by
  rw [textLen_eq]
  exact (min_le_right _ _).trans (by decide)

lemma text_fits (s : CStr) : 0 + (s.bytes.take (textLen s)).length ≤ msgDataSize := by
  rw [length_take_textLen, Nat.zero_add]
  exact textLen_le s

/-- Copy a text and its length into a reply. -/
def putText (rep : CfgMsg) (s : CStr) : CfgMsg :=
  { rep with
    len := UInt32.ofNat (textLen s)
    data := rep.data.write 0 (s.bytes.take (textLen s)) (text_fits s) }

/-- `rpmsg_send(rpmsg_config, rep, sizeof(*rep))`. -/
def send (rep : CfgMsg) (w : World n κ δ ε ω) : Cfg n κ δ ε ω :=
  ⟨{ w with out := w.out ++ [.inr rep] }, rep⟩

/-- The requests that concern the entry `k`: the `switch` of `config_msg_handler`. -/
def serveEntry (req rep : CfgMsg) (ind : Int32) (k : Fin n.1) (w : World n κ δ ε ω) :
    Option (Cfg n κ δ ε ω) :=
  if req.type = reqWr then do
    let (r, w) ← cfgSetInd sem ind req.val true w
    if r = 1 then
      some (send { rep with type := resOk } w)
    else
      some (send { rep with type := resIdErr } w)
  else if req.type = reqRd then
    let w := callCb sem (w.vars k).rdCb k true (w.vars k).rdCbData w
    some (send { rep with val := (w.vars k).val, type := resRdVal } w)
  else if req.type = reqRdMin then
    some (send { rep with val := (w.vars k).min, type := resRdMin } w)
  else if req.type = reqRdMax then
    some (send { rep with val := (w.vars k).max, type := resRdMax } w)
  else if req.type = reqName then
    some (send { putText rep (w.vars k).name with val := (w.vars k).val, type := resName } w)
  else if req.type = reqDesc then
    some (send { putText rep (w.vars k).desc with val := (w.vars k).val, type := resDesc } w)
  else
    some (send { rep with type := resReqErr } w)

/-- `config_msg_handler`, for the request in the received data. -/
def configMsgHandler (req : CfgMsg) (s : Cfg n κ δ ε ω) : Option (Cfg n κ δ ε ω) :=
  let rep := { s.txBuf with seq := req.seq, ind := req.ind, len := 0 }
  if req.type = reqNop then
    some (send { rep with type := resOk, val := 0 } s.w)
  else if req.type = reqNVars then
    some (send { rep with type := resNVars, val := nVars n } s.w)
  else
    let ind := req.ind
    if ind ≥ nVars n ∨ ind < 0 then
      some (send { rep with type := resIdErr } s.w)
    else do
      let k ← entry? n ind
      serveEntry sem req rep ind k s.w

end Functions

/-! ### Indices -/

section Indices

variable {n : VarCount}

lemma toInt_nVars (n : VarCount) : (nVars n).toInt = n.1 := Int32.toInt_ofNat_of_lt n.2

lemma entry?_eq_some {i : Int32} {k : Fin n.1} : entry? n i = some k ↔ i.toInt = (k : ℕ) := by
  unfold entry?
  constructor
  · intro h
    split at h
    · rename_i hi
      obtain rfl := Option.some.inj h
      simp only
      omega
    · cases h
  · intro h
    have hk := k.isLt
    rw [dif_pos ⟨by omega, by omega⟩]
    simp [h]

lemma entry?_eq_none {i : Int32} : entry? n i = none ↔ i ≥ nVars n ∨ i < 0 := by
  have h0 : (0 : Int32).toInt = 0 := rfl
  have hn := toInt_nVars n
  simp only [ge_iff_le, Int32.le_iff_toInt_le, Int32.lt_iff_toInt_lt, hn, h0]
  unfold entry?
  split
  · simp only [reduceCtorEq, false_iff]; omega
  · simp only [true_iff]; omega

lemma entry?_ofNat (k : Fin n.1) : entry? n (Int32.ofNat k) = some k :=
  entry?_eq_some.2 (Int32.toInt_ofNat_of_lt (k.isLt.trans n.2))

lemma not_outside {i : Int32} {k : Fin n.1} (h : entry? n i = some k) :
    ¬ (i ≥ nVars n ∨ i < 0) := by
  rw [← entry?_eq_none, h]
  exact Option.some_ne_none k

end Indices

/-! ### `cfgSetInd` -/

section SetInd

variable {n : VarCount} {κ δ ε ω : Type} (sem : CbSem n κ δ ε ω)

/-- **`cfgSetInd` on an entry of the table** stores the limited value and then, if asked to, runs
the write callback. -/
theorem cfgSetInd_entry {i : Int32} {k : Fin n.1} (h : entry? n i = some k) (val : Int32)
    (trigCb : Bool) (w : World n κ δ ε ω) :
    cfgSetInd sem i val trigCb w =
      some (1, if trigCb then
        callCb sem (w.vars k).wrCb k false (w.vars k).wrCbData (setVal k (limit (w.vars k) val) w)
      else setVal k (limit (w.vars k) val) w) := by
  have hin := not_outside h
  have hlt : ¬ i > nVars n := by
    intro hgt
    exact hin (Or.inl (Int32.le_of_lt hgt))
  unfold cfgSetInd
  rw [if_neg (fun h0 => hin (Or.inr h0)), if_neg hlt, h]
  cases trigCb <;> simp [setVal]

lemma setVal_vars_self (k : Fin n.1) (val : Int32) (w : World n κ δ ε ω) :
    (setVal k val w).vars k = { w.vars k with val } := by
  simp [setVal]

lemma setVal_vars_of_ne {k j : Fin n.1} (h : j ≠ k) (val : Int32) (w : World n κ δ ε ω) :
    (setVal k val w).vars j = w.vars j := by
  simp [setVal, h]

/-- The limits of an entry enclose every value `cfgSetInd` stores in it. -/
lemma limit_mem {v : CfgVar κ δ} (h : v.min ≤ v.max) (val : Int32) :
    v.min ≤ limit v val ∧ limit v val ≤ v.max := by
  unfold limit
  simp only [gt_iff_lt, Int32.lt_iff_toInt_lt, Int32.le_iff_toInt_le] at *
  split <;> split <;> omega

end SetInd

end CfgMgmt.Firmware.Config
