import Mathlib.Logic.Function.Basic
import CfgMgmt.Kernel.Linux

/-!
# The link layer of the kernel module (`rpmsg_link.c`)

Every request has a transaction struct.  While the request is unanswered the struct is on
`pending_list`; structs that are not in use are on `unused_list`.  A list is modelled by the structs on
it, the first one first.  `kstrtol` (base 0, 32-bit `long`) is a parameter: the code it returns and the
value it stores.
-/

namespace CfgMgmt.Kernel.RpmsgLink

open CfgMgmt.Lib.Bytes CfgMgmt.Msg CfgMgmt.Kernel.Linux

/-! ### Data -/

abbrev ioBufSize : ℕ := msgDataSize

/-- `access_t`, and any other value of its type. -/
inductive Access
  | name
  | val
  | min
  | max
  | desc
  | unknown
  deriving DecidableEq

/-- `struct rpmsg_link_transaction`, less its `list`.  Of `wq` it matters whether it is set. -/
structure Transaction where
  msgSeqNr : UInt32
  len : Int32
  buf : Buf ioBufSize
  dirty : Bool
  valid : Bool
  rnw : Bool
  err : Int32
  wq : Bool

/-- A struct after `memset(…, 0, …)`. -/
def Transaction.zero : Transaction := ⟨0, 0, .zero _, false, false, false, 0, false⟩

/-- The address of a transaction struct. -/
abbrev Ptr : Type := ℕ

/-- The global variables of the link layer. -/
structure Link where
  /-- whether `rpmsg_chnl` is set -/
  chnl : Bool
  nVars : Int32
  pendingList : List Ptr
  unusedList : List Ptr
  /-- the transaction structs; those from `allocated` on do not exist yet -/
  trans : Ptr → Transaction
  allocated : ℕ
  /-- how many sequence numbers were drawn: `msg_seq_nr` of the source is this number modulo `2 ^ 32` -/
  drawn : ℕ
  /-- the number drawn for the last request of a struct, before it was reduced modulo `2 ^ 32` -/
  number : Ptr → ℕ
  /-- the `req` of `get_n_vars` and the `req` of `access_var`, which are static -/
  nVarsReq : CfgMsg
  accessReq : CfgMsg
  /-- the messages handed to the transport -/
  wire : List CfgMsg

namespace Link

def modify (p : Ptr) (f : Transaction → Transaction) (s : Link) : Link :=
  { s with trans := Function.update s.trans p (f (s.trans p)) }

/-! ### Transaction structs -/

/-- `rpmsg_link_alloc_trans`, where `mem` tells whether `kzalloc` finds memory.  Without memory the
source initialises the list head of a null pointer: there is no next state. -/
def allocTrans (mem : Bool) (s : Link) : Option (Ptr × Link) :=
  match s.unusedList with
  | t :: rest => some (t, { s with unusedList := rest }.modify t fun _ => .zero)
  | [] =>
    if mem then
      some (s.allocated, { s with allocated := s.allocated + 1 }.modify s.allocated fun _ => .zero)
    else none

/-- `rpmsg_link_return_trans`. -/
def returnTrans (t : Ptr) (s : Link) : Link :=
  { s.modify t fun _ => .zero with unusedList := t :: s.unusedList }

def getNextSeqNr (s : Link) : UInt32 × Link :=
  (UInt32.ofNat s.drawn, { s with drawn := s.drawn + 1 })

def addPendTrans (t : Ptr) (s : Link) : Link := { s with pendingList := t :: s.pendingList }

/-- Store a new number in a struct. -/
def setSeqNr (t : Ptr) (num : ℕ) (s : Link) : Link :=
  { s.modify t fun x => { x with msgSeqNr := UInt32.ofNat num } with
    number := Function.update s.number t num }

/-- `rpmsg_link_init`, when its `kzalloc` finds memory for every struct.  Otherwise it returns with
`pending_list_lock` held. -/
def rpmsgLinkInit : Link where
  chnl := true
  nVars := -1
  pendingList := []
  unusedList := (List.range 16).reverse
  trans _ := .zero
  allocated := 16
  drawn := 0
  number _ := 0
  nVarsReq := .zero
  accessReq := .zero
  wire := []

/-! ### Requests -/

/-- `rpmsg_send` with the result `ret`. -/
def rpmsgSend (msg : CfgMsg) (ret : Int32) (s : Link) : Int32 × Link :=
  if ret ≠ 0 then (ret, s) else (0, { s with wire := s.wire ++ [msg] })

/-- `get_n_vars` up to the wait, which comes when the result is 0. -/
def getNVars (mem : Bool) (ret : Int32) (s : Link) : Option (Int32 × Link) :=
  if !s.chnl then
    some (-einval, s)
  else do
    let num := s.drawn
    let (seq, s) := s.getNextSeqNr
    let s := { s with
      nVarsReq := { s.nVarsReq with seq, ind := -1, val := 0, len := 0, type := reqNVars } }
    let (t, s) ← s.allocTrans mem
    let s := (s.setSeqNr t num).modify t fun x => { x with wq := true }
    let s := s.addPendTrans t
    some (s.rpmsgSend s.nVarsReq ret)

/-- A `bool` in memory. -/
def boolByte (b : Bool) : UInt8 := if b then 1 else 0

/-- The string at `t->buf`.  When `buf` holds no 0, it goes on in the members that follow. -/
def text (t : Transaction) : List UInt8 :=
  cstr (t.buf.bytes ++ [boolByte t.dirty, boolByte t.valid, boolByte t.rnw])

section AccessVar

variable (kstrtol : List UInt8 → Int32 × Int32)

/-- The fields of the request that depend on the access, or the error. -/
def accessFields (acc : Access) (t : Transaction) (req : CfgMsg) : Int32 × CfgMsg :=
  match acc with
  | .val =>
    if t.rnw then
      (0, { req with type := reqRd })
    else
      let req := { req with type := reqWr }
      let (ret, val) := kstrtol (text t)
      if ret ≠ 0 then (ret, req) else (0, { req with val })
  | .min => (0, { req with type := reqRdMin })
  | .max => (0, { req with type := reqRdMax })
  | .desc => (0, { req with type := reqDesc })
  | .name => (0, { req with type := reqName })
  | .unknown => (-einval, req)

/-- `access_var` up to the call of `rpmsg_send`, which comes when the result is 0. -/
def accessFill (index : Int32) (acc : Access) (t : Option Ptr) (s : Link) : Int32 × Link :=
  if !s.chnl then
    (-einval, s)
  else match t with
    | none => (-einval, s)
    | some t =>
      let req := { s.accessReq with ind := index, val := 0, len := 0 }
      let (ret, req) := accessFields kstrtol acc (s.trans t) req
      if ret ≠ 0 then
        (ret, { s with accessReq := req })
      else
        let num := s.drawn
        let (seq, s) := s.getNextSeqNr
        let s := { s with accessReq := { req with seq } }
        (0, (s.setSeqNr t num).addPendTrans t)

/-- The rest of `access_var`. -/
def accessSend (ret : Int32) (s : Link) : Int32 × Link := s.rpmsgSend s.accessReq ret

/-- `access_var`, where `ret` is the result of `rpmsg_send`. -/
def accessVar (index : Int32) (acc : Access) (t : Option Ptr) (ret : Int32) (s : Link) :
    Int32 × Link :=
  let (err, s) := s.accessFill kstrtol index acc t
  if err ≠ 0 then (err, s) else s.accessSend ret

end AccessVar

/-! ### Replies -/

lemma ioBufSize_fits : 0 < ioBufSize ∧ ioBufSize ≤ ioBufSize := by decide

lemma ioBufSize_pred_fits : 0 < ioBufSize - 1 ∧ ioBufSize - 1 ≤ ioBufSize := by decide

/-- A text in the buffer, with its length. -/
def printText (size : ℕ) (h : 0 < size ∧ size ≤ ioBufSize) (s : List UInt8) (t : Transaction) :
    Transaction :=
  let (len, buf) := scnprintf t.buf size h s
  { t with len := Int32.ofNat len, buf }

/-- A `uint32_t` printed with `%d`. -/
def decimalU32 (x : UInt32) : List UInt8 := decimal x.toInt32.toInt

lemma data_fits {response : CfgMsg} (h : ¬ response.len.toNat > ioBufSize - 1) :
    0 + (response.data.read response.len.toNat ++ [0]).length ≤ ioBufSize := by
  have hle : response.len.toNat ≤ 399 := Nat.not_lt.1 h
  have hread : (response.data.read response.len.toNat).length ≤ 399 := by
    rw [Buf.length_read]
    exact (Nat.min_le_left _ _).trans hle
  rw [List.length_append, Nat.zero_add]
  exact Nat.succ_le_succ hread

/-- The `switch` of `cfg_mgmt_rpmsg_cb`, on the transaction. -/
def complete (response : CfgMsg) (t : Transaction) : Transaction :=
  if response.type = resOk then
    { t with len := 0, valid := true, err := 0 }
  else if response.type = resNVars then
    { t with len := 0, valid := true }
  else if response.type = resRdVal ∨ response.type = resRdMin ∨ response.type = resRdMax then
    { printText ioBufSize ioBufSize_fits (decimal response.val.toInt ++ [10]) t with
      err := 0, valid := true }
  else if response.type = resName ∨ response.type = resDesc then
    if h : response.len.toNat > ioBufSize - 1 then
      { printText (ioBufSize - 1) ioBufSize_pred_fits (ascii "data part of response too long\n") t with
        err := -einval, valid := true }
    else
      { t with
        buf := t.buf.write 0 (response.data.read response.len.toNat ++ [0]) (data_fits h)
        len := response.len.toInt32, err := 0, valid := true }
  else if response.type = resIdErr then
    { printText ioBufSize ioBufSize_fits (ascii "received ID error for id " ++
        decimal response.ind.toInt ++ ascii " in msg nr " ++ decimalU32 response.seq ++ [10]) t with
      valid := true, err := response.type.toInt32 }
  else if response.type = resReqErr then
    { printText ioBufSize ioBufSize_fits (ascii "received request error for msg nr " ++
        decimalU32 response.seq ++ [10]) t with
      valid := true, err := response.type.toInt32 }
  else
    { printText ioBufSize ioBufSize_fits (ascii "unknonw type " ++ decimal response.ind.toInt ++
        ascii " in msg nr " ++ decimalU32 response.seq ++ [10]) t with
      valid := true, err := -1 }

/-- `cfg_mgmt_rpmsg_cb`. -/
def rpmsgCb (data : List UInt8) (s : Link) : Link :=
  match CfgMsg.received data with
  | none => s
  | some response =>
    match s.pendingList.find? fun t => (s.trans t).msgSeqNr = response.seq with
    | none => s
    | some t =>
      let s := { s with pendingList := s.pendingList.erase t }
      let s := if response.type = resNVars then { s with nVars := response.val } else s
      s.modify t (complete response)

/-! ### What the functions do -/

section Lemmas

variable {s s' : Link} {t : Ptr}

@[simp] lemma modify_trans_self (f : Transaction → Transaction) :
    (s.modify t f).trans t = f (s.trans t) := Function.update_self ..

lemma modify_trans_of_ne (f : Transaction → Transaction) {p : Ptr} (h : p ≠ t) :
    (s.modify t f).trans p = s.trans p := Function.update_of_ne h ..

lemma returnTrans_trans_of_ne {p : Ptr} (h : p ≠ t) : (s.returnTrans t).trans p = s.trans p :=
  Function.update_of_ne h ..

/-- `rpmsg_link_alloc_trans` takes the first unused struct, or a new one when there is none. -/
structure Allocated (t : Ptr) (s s' : Link) : Prop where
  source : s.unusedList = t :: s'.unusedList ∧ s'.allocated = s.allocated ∨
    s.unusedList = [] ∧ s'.unusedList = [] ∧ t = s.allocated ∧ s'.allocated = s.allocated + 1
  trans_self : s'.trans t = .zero
  trans_of_ne : ∀ p ≠ t, s'.trans p = s.trans p
  pendingList : s'.pendingList = s.pendingList
  chnl : s'.chnl = s.chnl
  nVars : s'.nVars = s.nVars
  drawn : s'.drawn = s.drawn
  number : s'.number = s.number
  wire : s'.wire = s.wire

lemma allocTrans_true (s : Link) : ∃ t s', s.allocTrans true = some (t, s') := by
  unfold allocTrans
  split <;> exact ⟨_, _, rfl⟩

theorem allocTrans_spec {mem : Bool} (h : s.allocTrans mem = some (t, s')) : Allocated t s s' := by
  unfold allocTrans at h
  split at h
  · rename_i hu
    obtain ⟨rfl, rfl⟩ := Prod.mk.inj (Option.some.inj h)
    exact ⟨.inl ⟨hu, rfl⟩, modify_trans_self _, fun p hp => modify_trans_of_ne _ hp, rfl, rfl, rfl, rfl,
      rfl, rfl⟩
  · rename_i hu
    obtain ⟨-, h⟩ := Option.ite_none_right_eq_some.1 h
    obtain ⟨rfl, rfl⟩ := Prod.mk.inj (Option.some.inj h)
    exact ⟨.inr ⟨hu, hu, rfl, rfl⟩, modify_trans_self _, fun p hp => modify_trans_of_ne _ hp, rfl, rfl,
      rfl, rfl, rfl, rfl⟩

/-- `rpmsg_send` returns its result, and only what it takes gets on the wire. -/
lemma rpmsgSend_eq (msg : CfgMsg) (ret : Int32) :
    s.rpmsgSend msg ret = (ret, { s with wire := if ret = 0 then s.wire ++ [msg] else s.wire }) := by
  unfold rpmsgSend
  by_cases h : ret = 0 <;> simp [h]

/-- The state after the request `req` was filled in for the struct `t`, with the next number. -/
def fill (t : Ptr) (req : CfgMsg) (s : Link) : Link :=
  { s with
    accessReq := { req with seq := UInt32.ofNat s.drawn }
    drawn := s.drawn + 1
    trans := Function.update s.trans t { s.trans t with msgSeqNr := UInt32.ofNat s.drawn }
    number := Function.update s.number t s.drawn
    pendingList := t :: s.pendingList }

section AccessVar

variable (kstrtol : List UInt8 → Int32 × Int32) (index : Int32) (acc : Access)

/-- The request before its number is drawn, and the error of the access. -/
def prepare (t : Ptr) (s : Link) : Int32 × CfgMsg :=
  accessFields kstrtol acc (s.trans t) { s.accessReq with ind := index, val := 0, len := 0 }

variable {kstrtol index acc}

/-- The only access that can fail is to write a text that is no number. -/
lemma prepare_val : (s.prepare kstrtol index .val t).1 = 0 ↔
    (s.trans t).rnw = true ∨ (kstrtol (text (s.trans t))).1 = 0 := by
  cases hr : (s.trans t).rnw with
  | true => simp [prepare, accessFields, hr]
  | false =>
    by_cases h : (kstrtol (text (s.trans t))).1 = 0 <;> simp [prepare, accessFields, hr, h]

lemma accessFill_of_eq (hc : s.chnl = true) (h : (s.prepare kstrtol index acc t).1 = 0) :
    s.accessFill kstrtol index acc (some t) = (0, s.fill t (s.prepare kstrtol index acc t).2) := by
  unfold prepare at h
  simp [accessFill, hc, h, fill, prepare, setSeqNr, addPendTrans, getNextSeqNr, modify]

lemma accessFill_of_ne (hc : s.chnl = true) (h : (s.prepare kstrtol index acc t).1 ≠ 0) :
    s.accessFill kstrtol index acc (some t) =
      ((s.prepare kstrtol index acc t).1,
        { s with accessReq := (s.prepare kstrtol index acc t).2 }) := by
  unfold prepare at h
  simp [accessFill, hc, h, prepare]

/-- **`access_var` without an error in the access** fills in the request and sends it. -/
theorem accessVar_of_eq (hc : s.chnl = true) (h : (s.prepare kstrtol index acc t).1 = 0) (ret : Int32) :
    s.accessVar kstrtol index acc (some t) ret =
      (s.fill t (s.prepare kstrtol index acc t).2).rpmsgSend
        { (s.prepare kstrtol index acc t).2 with seq := UInt32.ofNat s.drawn } ret := by
  unfold accessVar
  rw [accessFill_of_eq hc h]
  rfl

/-- **`access_var` with an error in the access** changes nothing but its static request. -/
theorem accessVar_of_ne (hc : s.chnl = true) (h : (s.prepare kstrtol index acc t).1 ≠ 0) (ret : Int32) :
    s.accessVar kstrtol index acc (some t) ret =
      ((s.prepare kstrtol index acc t).1,
        { s with accessReq := (s.prepare kstrtol index acc t).2 }) := by
  unfold accessVar
  rw [accessFill_of_ne hc h]
  simp [h]

lemma accessVar_trans (kstrtol : List UInt8 → Int32 × Int32) (index : Int32) (acc : Access)
    (hc : s.chnl = true) (t : Ptr) (ret : Int32) (p : Ptr) :
    ∃ n, (s.accessVar kstrtol index acc (some t) ret).2.trans p = { s.trans p with msgSeqNr := n } := by
  by_cases hr : (s.prepare kstrtol index acc t).1 = 0
  · rw [accessVar_of_eq hc hr, rpmsgSend_eq]
    by_cases hp : p = t
    · subst hp
      exact ⟨_, Function.update_self ..⟩
    · exact ⟨_, Function.update_of_ne hp ..⟩
  · rw [accessVar_of_ne hc hr]
    exact ⟨_, rfl⟩

lemma accessVar_pendingList (hc : s.chnl = true) (h : (s.prepare kstrtol index acc t).1 = 0)
    (ret : Int32) : (s.accessVar kstrtol index acc (some t) ret).2.pendingList = t :: s.pendingList := by
  rw [accessVar_of_eq hc h, rpmsgSend_eq]
  rfl

end AccessVar

/-- The request of `get_n_vars`. -/
def countReq (s : Link) : CfgMsg :=
  { s.nVarsReq with seq := UInt32.ofNat s.drawn, ind := -1, val := 0, len := 0, type := reqNVars }

/-- `get_n_vars` may take the struct before it draws the number. -/
lemma getNVars_eq {mem : Bool} {ret : Int32} (hc : s.chnl = true) :
    s.getNVars mem ret = (s.allocTrans mem).map fun (t, s₁) =>
      rpmsgSend s.countReq ret
        { s₁ with
          nVarsReq := s.countReq
          drawn := s.drawn + 1
          trans := Function.update s₁.trans t
            { s₁.trans t with msgSeqNr := UInt32.ofNat s.drawn, wq := true }
          number := Function.update s.number t s.drawn
          pendingList := t :: s.pendingList } := by
  rcases s with ⟨chnl, nVars, pending, _ | ⟨t, rest⟩, trans⟩ <;> cases hc <;> cases mem <;>
    simp [getNVars, allocTrans, getNextSeqNr, setSeqNr, modify, addPendTrans, countReq]

/-- **`get_n_vars`** fills in and sends a request for a struct that no file has. -/
theorem getNVars_spec {mem : Bool} {ret r : Int32} (hc : s.chnl = true)
    (h : s.getNVars mem ret = some (r, s')) :
    r = ret ∧ ∃ t s₁, s.allocTrans mem = some (t, s₁) ∧
      s'.pendingList = t :: s.pendingList ∧ s'.unusedList = s₁.unusedList ∧
      s'.allocated = s₁.allocated ∧ s'.chnl = s.chnl ∧ s'.nVars = s.nVars ∧
      s'.drawn = s.drawn + 1 ∧ s'.number = Function.update s.number t s.drawn ∧
      s'.trans t = { Transaction.zero with msgSeqNr := UInt32.ofNat s.drawn, wq := true } ∧
      ∀ p ≠ t, s'.trans p = s.trans p := by
  rw [getNVars_eq hc, Option.map_eq_some_iff] at h
  obtain ⟨⟨t, s₁⟩, ha, h⟩ := h
  have hs := allocTrans_spec ha
  obtain ⟨rfl, rfl⟩ := Prod.mk.inj ((rpmsgSend_eq ..).symm.trans h)
  refine ⟨rfl, t, s₁, ha, rfl, rfl, rfl, hs.chnl, hs.nVars, rfl, rfl, ?_, fun p hp => ?_⟩
  · rw [← hs.trans_self]
    exact Function.update_self ..
  · exact (Function.update_of_ne hp ..).trans (hs.trans_of_ne p hp)

lemma holds_printText {text : List UInt8} (x : Transaction) (ht : text.length < ioBufSize) :
    (printText ioBufSize ioBufSize_fits text x).len.toUInt32.toNat = text.length ∧
      (printText ioBufSize ioBufSize_fits text x).buf.bytes.take text.length = text := by
  have htake : text.take (ioBufSize - 1) = text := List.take_of_length_le (Nat.le_sub_one_of_lt ht)
  have hlt : text.length < 2 ^ 32 := ht.trans (by decide)
  constructor
  · show (Int32.ofNat (text.take (ioBufSize - 1)).length).toUInt32.toNat = _
    rw [htake]
    exact Nat.mod_eq_of_lt hlt
  · simp only [printText, scnprintf, Buf.write, htake]
    simp

lemma complete_number {response : CfgMsg} (x : Transaction)
    (ht : response.type = resRdVal ∨ response.type = resRdMin ∨ response.type = resRdMax) :
    complete response x = { printText ioBufSize ioBufSize_fits (decimal response.val.toInt ++ [10]) x with
      err := 0, valid := true } := by
  unfold complete
  rcases ht with ht | ht | ht
  all_goals
    rw [ht, if_neg (by decide), if_neg (by decide), if_pos (by decide)]

lemma complete_text {response : CfgMsg} (x : Transaction)
    (ht : response.type = resName ∨ response.type = resDesc)
    (hl : ¬ response.len.toNat > ioBufSize - 1) :
    complete response x = { x with
      buf := x.buf.write 0 (response.data.read response.len.toNat ++ [0]) (data_fits hl)
      len := response.len.toInt32, err := 0, valid := true } := by
  unfold complete
  rcases ht with ht | ht
  all_goals
    rw [ht, if_neg (by decide), if_neg (by decide), if_neg (by decide), if_pos (by decide), dif_neg hl]

section Fields

variable {size : ℕ} (h : 0 < size ∧ size ≤ ioBufSize) (text : List UInt8) (response : CfgMsg)
  (x : Transaction)

lemma printText_msgSeqNr : (printText size h text x).msgSeqNr = x.msgSeqNr := rfl

lemma printText_rnw : (printText size h text x).rnw = x.rnw := rfl

lemma complete_msgSeqNr : (complete response x).msgSeqNr = x.msgSeqNr := by
  simp only [complete, apply_ite Transaction.msgSeqNr, apply_dite Transaction.msgSeqNr,
    printText_msgSeqNr, dite_eq_ite, ite_self]

@[simp] lemma complete_rnw : (complete response x).rnw = x.rnw := by
  simp only [complete, apply_ite Transaction.rnw, apply_dite Transaction.rnw, printText_rnw, dite_eq_ite,
    ite_self]

@[simp] lemma complete_valid : (complete response x).valid = true := by
  simp only [complete, apply_ite Transaction.valid, apply_dite Transaction.valid, dite_eq_ite, ite_self]

end Fields

/-- The state after a reply to the request of the struct `t`. -/
def settle (response : CfgMsg) (t : Ptr) (s : Link) : Link :=
  { s with
    pendingList := s.pendingList.erase t
    nVars := if response.type = resNVars then response.val else s.nVars
    trans := Function.update s.trans t (complete response (s.trans t)) }

/-- **`cfg_mgmt_rpmsg_cb`** settles the request that the message replies to, if there is one. -/
theorem rpmsgCb_cases (data : List UInt8) (s : Link) :
    (∃ response, CfgMsg.received data = some response ∧ ∃ t ∈ s.pendingList,
      (s.trans t).msgSeqNr = response.seq ∧ s.rpmsgCb data = s.settle response t) ∨
    (∀ response, CfgMsg.received data = some response → ∀ t ∈ s.pendingList,
      (s.trans t).msgSeqNr ≠ response.seq) ∧ s.rpmsgCb data = s := by
  unfold rpmsgCb
  cases hr : CfgMsg.received data with
  | none => exact .inr ⟨nofun, rfl⟩
  | some response =>
    dsimp only
    split
    · rename_i hf
      refine .inr ⟨?_, rfl⟩
      rintro _ ⟨⟩ t ht e
      simpa [e] using List.find?_eq_none.1 hf t ht
    · rename_i t hf
      refine .inl ⟨response, rfl, t, List.mem_of_find?_eq_some hf, by simpa using List.find?_some hf, ?_⟩
      by_cases hn : response.type = resNVars <;> simp [settle, modify, hn]

lemma rpmsgCb_keeps (data : List UInt8) (s : Link) : (s.rpmsgCb data).chnl = s.chnl ∧
    (s.rpmsgCb data).drawn = s.drawn ∧ (s.rpmsgCb data).wire = s.wire := by
  rcases s.rpmsgCb_cases data with ⟨response, -, t, -, -, e⟩ | ⟨-, e⟩
  · rw [e]
    exact ⟨rfl, rfl, rfl⟩
  · rw [e]
    exact ⟨rfl, rfl, rfl⟩

/-- A message settles the first pending request that has its number. -/
lemma rpmsgCb_of_find {response : CfgMsg} {t : Ptr} (s : Link)
    (hf : (s.pendingList.find? fun t => (s.trans t).msgSeqNr = response.seq) = some t) :
    s.rpmsgCb response.encode = s.settle response t := by
  unfold rpmsgCb
  rw [CfgMsg.received_encode]
  dsimp only
  rw [hf]
  by_cases hn : response.type = resNVars <;> simp [settle, modify, hn]

end Lemmas

end Link

end CfgMgmt.Kernel.RpmsgLink
