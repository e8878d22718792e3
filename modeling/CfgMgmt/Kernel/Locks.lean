import CfgMgmt.Kernel.Kstrtol
import CfgMgmt.Kernel.Removal

/-!
# The locks of the link layer

The functions of `rpmsg_link.c` once more, with their locks and with what they do when `kzalloc` finds no
memory.  As long as it finds memory they return, hold no lock, and do what the model without locks says.
Without memory `rpmsg_link_init` returns with a lock held, and `rpmsg_link_alloc_trans` follows a null
pointer (`survives_iff`).
-/

namespace CfgMgmt.Kernel.Locks

open CfgMgmt.Lib CfgMgmt.Lib.Machine CfgMgmt.Msg CfgMgmt.Kernel.Linux CfgMgmt.Kernel.RpmsgLink
open CfgMgmt.Kernel.Structs (take_of_allocated)

/-! ### Programs with locks -/

/-- `pending_list_lock`, `unused_list_lock` and `seq_lock`. -/
inductive Lock
  | pendingList
  | unusedList
  | seq
  deriving DecidableEq

/-- Why a function does not return. -/
inductive Fault
  /-- it waits for a lock that nobody releases -/
  | deadlock
  /-- it follows a null pointer -/
  | nullPointer
  deriving DecidableEq

/-- The link layer with the locks that are held. -/
structure Layer where
  link : Link
  held : List Lock

/-- A function of the link layer. -/
abbrev M : Type → Type := StateT Layer (Except Fault)

def spinLock (x : Lock) : M Unit := do
  if x ∈ (← get).held then throw .deadlock
  modify fun s => { s with held := x :: s.held }

def spinUnlock (x : Lock) : M Unit := modify fun s => { s with held := s.held.erase x }

def modifyLink (f : Link → Link) : M Unit := modify fun s => { s with link := f s.link }

/-- `kzalloc` of a transaction struct, where `mem` tells whether there is memory. -/
def kzalloc (mem : Bool) : M (Option Ptr) := do
  let t := (← get).link.allocated
  if mem then
    modifyLink fun l => { l with allocated := l.allocated + 1 }.modify t fun _ => .zero
    return some t
  else
    return none

def deref : Option Ptr → M Ptr
  | some t => return t
  | none => throw .nullPointer

/-- `&rpmsg_chnl->dev` for a message in the log of the kernel. -/
def derefChnl : M Unit := do
  if !(← get).link.chnl then throw .nullPointer

/-! ### The functions -/

/-- The loop of `rpmsg_link_init` for the remaining rounds, and what comes after it. -/
def initLoop (mem : ℕ → Bool) : ℕ → ℕ → M Int32
  | _, 0 => do
    spinUnlock .pendingList
    return 0
  | i, n + 1 => do
    match ← kzalloc (mem i) with
    | none => return -enomem
    | some t =>
      modifyLink fun l => { l with unusedList := t :: l.unusedList }
      initLoop mem (i + 1) n

/-- `rpmsg_link_init`, where `mem` tells which of its allocations find memory. -/
def rpmsgLinkInit (mem : ℕ → Bool) : M Int32 := do
  modifyLink fun l => { l with chnl := true }
  -- `spin_lock_init`
  modify fun s => { s with held := [] }
  spinLock .pendingList
  initLoop mem 0 16

def rpmsgLinkExit : M Unit := do
  spinLock .pendingList
  spinLock .unusedList
  if (← get).link.pendingList ≠ [] then derefChnl
  modifyLink fun l => { l with pendingList := [], unusedList := [], chnl := false }
  spinUnlock .unusedList
  spinUnlock .pendingList

/-- The first entry of `unused_list`, which is removed. -/
def takeUnused : M (Option Ptr) := do
  match (← get).link.unusedList with
  | [] => return none
  | t :: rest =>
    modifyLink fun l => { l with unusedList := rest }
    return some t

def rpmsgLinkAllocTrans (mem : Bool) : M (Option Ptr) := do
  spinLock .unusedList
  let t ← takeUnused
  spinUnlock .unusedList
  let t ← match t with
    | some t => pure (some t)
    | none => do
      let t ← kzalloc mem
      -- `INIT_LIST_HEAD`
      let _ ← deref t
      pure t
  let p ← deref t
  modifyLink fun l => l.modify p fun _ => .zero
  return some p

def rpmsgLinkReturnTrans (t : Option Ptr) : M Unit := do
  let t ← deref t
  modifyLink fun l => l.modify t fun _ => .zero
  spinLock .unusedList
  modifyLink fun l => { l with unusedList := t :: l.unusedList }
  spinUnlock .unusedList

/-- `get_next_seq_nr`: the number, before it is reduced modulo `2 ^ 32`. -/
def getNextSeqNr : M ℕ := do
  spinLock .seq
  let num := (← get).link.drawn
  modifyLink fun l => { l with drawn := l.drawn + 1 }
  spinUnlock .seq
  return num

def addPendTrans (t : Ptr) : M Unit := do
  spinLock .pendingList
  modifyLink (Link.addPendTrans t)
  spinUnlock .pendingList

/-- `rpmsg_send` with the result `ret`. -/
def rpmsgSend (msg : CfgMsg) (ret : Int32) : M Int32 := do
  let (ret, l) := (← get).link.rpmsgSend msg ret
  modifyLink fun _ => l
  return ret

/-- The end of `get_n_vars`, from the struct on. -/
def requestNVars (num : ℕ) (send : Int32) (t : Option Ptr) : M Int32 := do
  match t with
  | none => return -enomem
  | some t =>
    modifyLink fun l => (l.setSeqNr t num).modify t fun x => { x with wq := true }
    addPendTrans t
    rpmsgSend (← get).link.nVarsReq send

/-- `get_n_vars` up to its wait, which comes when the result is 0. -/
def getNVars (mem : Bool) (send : Int32) : M Int32 := do
  if !(← get).link.chnl then
    return -einval
  let num ← getNextSeqNr
  modifyLink fun l => { l with
    nVarsReq := { l.nVarsReq with seq := UInt32.ofNat num, ind := -1, val := 0, len := 0, type := reqNVars } }
  let t ← rpmsgLinkAllocTrans mem
  requestNVars num send t

section

variable (kstrtol : List UInt8 → Int32 × Int32)

/-- The end of `access_var`, from the number on. -/
def accessSend (t : Ptr) (req : CfgMsg) (send : Int32) : M Int32 := do
  let num ← getNextSeqNr
  modifyLink fun l => { l with accessReq := { req with seq := UInt32.ofNat num } }.setSeqNr t num
  addPendTrans t
  rpmsgSend (← get).link.accessReq send

/-- `access_var`, where `send` is the result of `rpmsg_send`. -/
def accessVar (index : Int32) (acc : Access) (t : Option Ptr) (send : Int32) : M Int32 := do
  if !(← get).link.chnl then
    return -einval
  match t with
  | none => return -einval
  | some t =>
    let l := (← get).link
    let (err, req) := Link.accessFields kstrtol acc (l.trans t)
      { l.accessReq with ind := index, val := 0, len := 0 }
    if err ≠ 0 then
      modifyLink fun l => { l with accessReq := req }
      return err
    accessSend t req send

/-- The first pending struct with the number of the response, which is removed from `pending_list`. -/
def takePending (seq : UInt32) : M (Option Ptr) := do
  let l := (← get).link
  match l.pendingList.find? fun t => (l.trans t).msgSeqNr = seq with
  | none => return none
  | some t =>
    modifyLink fun l => { l with pendingList := l.pendingList.erase t }
    return some t

/-- `cfg_mgmt_rpmsg_cb` after it has looked for the struct. -/
def completeTrans (response : CfgMsg) (trans : Option Ptr) : M Unit := do
  match trans with
  | none => return
  | some t =>
    if response.type = resOk then derefChnl
    if response.type = resNVars then modifyLink fun l => { l with nVars := response.val }
    modifyLink fun l => l.modify t (Link.complete response)

def cfgMgmtRpmsgCb (data : List UInt8) : M Unit := do
  match CfgMsg.received data with
  | none => return
  | some response =>
    spinLock .pendingList
    let trans ← takePending response.seq
    spinUnlock .pendingList
    completeTrans response trans

end

/-! ### Without a lock in the way -/

section Free

section Run

variable {α β : Type} {m : M α} {s s' : Layer} {a : α}

lemma bind_of_ok {f : α → M β} (h : m s = .ok (a, s')) : (m >>= f) s = f a s' := by
  show (m s >>= fun r => f r.1 r.2) = f a s'
  rw [h]
  rfl

lemma map_of_ok (f : α → β) (h : m s = .ok (a, s')) : (f <$> m) s = .ok (f a, s') := by
  show (m s >>= fun r => _) = _
  rw [h]
  rfl

lemma map_of_error (f : α → β) {x : Fault} (h : m s = .error x) : (f <$> m) s = .error x := by
  show (m s >>= fun r => _) = _
  rw [h]
  rfl

end Run

/-- **`rpmsg_link_alloc_trans`** follows a null pointer when there is neither an unused struct nor
memory. -/
theorem allocTrans_eq (l : Link) (mem : Bool) : rpmsgLinkAllocTrans mem ⟨l, []⟩ =
    match l.allocTrans mem with
    | some (t, l') => .ok (some t, ⟨l', []⟩)
    | none => .error .nullPointer := by
  rcases l with ⟨chnl, nVars, pending, _ | ⟨t, rest⟩, trans, allocated, drawn, number, req, req', wire⟩
  · cases mem with
    | false => rfl
    | true =>
      -- the new struct is cleared twice
      have hidem : Function.update (Function.update trans allocated .zero) allocated .zero =
          Function.update trans allocated .zero := Function.update_idem ..
      exact congrArg (fun x => Except.ok (some allocated, (⟨⟨chnl, nVars, pending, [], x, allocated + 1,
        drawn, number, req, req', wire⟩, []⟩ : Layer))) hidem
  · rfl

theorem returnTrans_eq (l : Link) (t : Ptr) :
    rpmsgLinkReturnTrans (some t) ⟨l, []⟩ = .ok ((), ⟨l.returnTrans t, []⟩) := rfl

/-- **`get_n_vars`** follows a null pointer when `rpmsg_link_alloc_trans` does. -/
theorem getNVars_eq (l : Link) (mem : Bool) (send : Int32) : getNVars mem send ⟨l, []⟩ =
    match l.getNVars mem send with
    | some (ret, l') => .ok (ret, ⟨l', []⟩)
    | none => .error .nullPointer := by
  rcases l with ⟨_ | _, nVars, pending, unused, trans, allocated, drawn, number, nVarsReq, accessReq, wire⟩
  · rfl
  · generalize hl : Link.mk true nVars pending unused trans allocated (drawn + 1) number
      { nVarsReq with seq := UInt32.ofNat drawn, ind := -1, val := 0, len := 0, type := reqNVars } accessReq
      wire = l
    have hrun : getNVars mem send ⟨⟨true, nVars, pending, unused, trans, allocated, drawn, number, nVarsReq,
        accessReq, wire⟩, []⟩ = (rpmsgLinkAllocTrans mem ⟨l, []⟩).bind fun r =>
          requestNVars drawn send r.1 r.2 := by
      rw [← hl]
      rfl
    have hlink : Link.getNVars mem send ⟨true, nVars, pending, unused, trans, allocated, drawn, number,
        nVarsReq, accessReq, wire⟩ = (l.allocTrans mem).bind fun r =>
          let l := ((r.2.setSeqNr r.1 drawn).modify r.1 fun x => { x with wq := true }).addPendTrans r.1
          some (l.rpmsgSend l.nVarsReq send) := by
      rw [← hl]
      rfl
    rw [hrun, hlink, allocTrans_eq]
    cases l.allocTrans mem with
    | none => rfl
    | some r => rfl

/-- **`access_var`** returns. -/
theorem accessVar_eq (kstrtol : List UInt8 → Int32 × Int32) (l : Link) (index : Int32) (acc : Access)
    (t : Option Ptr) (send : Int32) : accessVar kstrtol index acc t send ⟨l, []⟩ =
      .ok ((l.accessVar kstrtol index acc t send).1, ⟨(l.accessVar kstrtol index acc t send).2, []⟩) := by
  rcases l with ⟨_ | _, nVars, pending, unused, trans, allocated, drawn, number, nVarsReq, accessReq, wire⟩
  · rfl
  cases t with
  | none => rfl
  | some t =>
    generalize hl : Link.mk true nVars pending unused trans allocated drawn number nVarsReq accessReq wire = l
    have hc : l.chnl = true := hl ▸ rfl
    have hrun : accessVar kstrtol index acc (some t) send ⟨l, []⟩ =
        (if (l.prepare kstrtol index acc t).1 ≠ 0 then do
          modifyLink fun l' => { l' with accessReq := (l.prepare kstrtol index acc t).2 }
          return (l.prepare kstrtol index acc t).1
        else accessSend t (l.prepare kstrtol index acc t).2 send : M Int32) ⟨l, []⟩ := by
      rw [← hl]
      rfl
    rw [hrun]
    by_cases he : (l.prepare kstrtol index acc t).1 = 0
    · rw [if_neg (not_not.2 he), Link.accessVar_of_eq hc he]
      rfl
    · rw [if_pos he, Link.accessVar_of_ne hc he]
      rfl

lemma takePending_eq {l : Link} {seq : UInt32} {t : Option Ptr} {held : List Lock}
    (h : l.pendingList.find? (fun t => (l.trans t).msgSeqNr = seq) = t) :
    takePending seq ⟨l, held⟩ =
      .ok (t, ⟨t.elim l fun t => { l with pendingList := l.pendingList.erase t }, held⟩) := by
  show (match l.pendingList.find? _ with | none => _ | some t => _ : M (Option Ptr)) _ = _
  rw [h]
  cases t with
  | none => rfl
  | some t => rfl

lemma completeTrans_eq {l : Link} (response : CfgMsg) (t : Ptr) (hc : l.chnl = true) :
    completeTrans response (some t) ⟨l, []⟩ = .ok ((),
      ⟨(if response.type = resNVars then { l with nVars := response.val } else l).modify t
        (Link.complete response), []⟩) := by
  rcases l with ⟨_ | _, nVars, pending, unused, trans⟩
  · cases hc
  · unfold completeTrans
    split_ifs <;> rfl

/-- **`cfg_mgmt_rpmsg_cb`** returns when there is a channel, or nothing is pending. -/
theorem rpmsgCb_eq (l : Link) (data : List UInt8) (hc : l.pendingList ≠ [] → l.chnl = true) :
    cfgMgmtRpmsgCb data ⟨l, []⟩ = .ok ((), ⟨l.rpmsgCb data, []⟩) := by
  cases hr : CfgMsg.received data with
  | none =>
    unfold cfgMgmtRpmsgCb Link.rpmsgCb
    rw [hr]
    rfl
  | some response =>
    have hrun : cfgMgmtRpmsgCb data ⟨l, []⟩ = (takePending response.seq >>= fun trans => do
        spinUnlock .pendingList
        completeTrans response trans) ⟨l, [.pendingList]⟩ := by
      unfold cfgMgmtRpmsgCb
      rw [hr]
      rfl
    rw [hrun]
    unfold Link.rpmsgCb
    simp only [hr]
    cases hf : l.pendingList.find? fun t => (l.trans t).msgSeqNr = response.seq with
    | none =>
      rw [bind_of_ok (takePending_eq hf)]
      rfl
    | some t =>
      have hchnl : l.chnl = true := hc (List.ne_nil_of_mem (List.mem_of_find?_eq_some hf))
      rw [bind_of_ok (takePending_eq hf)]
      exact completeTrans_eq response t hchnl

theorem exit_eq (l : Link) (hc : l.pendingList ≠ [] → l.chnl = true) :
    rpmsgLinkExit ⟨l, []⟩ = .ok ((), ⟨(Removal.rpmsgLinkExit l).2, []⟩) := by
  rcases l with ⟨_ | _, nVars, _ | ⟨p, ps⟩, unused⟩
  · rfl
  · cases hc (List.cons_ne_nil _ _)
  · rfl
  · rfl

/-- The link layer with one more unused struct. -/
def stock (l : Link) : Link :=
  { { l with allocated := l.allocated + 1 }.modify l.allocated fun _ => .zero with
    unusedList := l.allocated :: l.unusedList }

lemma initLoop_succ {mem : ℕ → Bool} {i : ℕ} (hi : mem i = true) (n : ℕ) (l : Link)
    (held : List Lock) : initLoop mem i (n + 1) ⟨l, held⟩ = initLoop mem (i + 1) n ⟨stock l, held⟩ := by
  have hk : kzalloc (mem i) ⟨l, held⟩ = .ok (some l.allocated,
      ⟨{ l with allocated := l.allocated + 1 }.modify l.allocated fun _ => .zero, held⟩) := by
    rw [hi]
    rfl
  rw [initLoop, bind_of_ok hk]
  rfl

/-- The loop of `rpmsg_link_init`, when it finds memory for every struct. -/
lemma initLoop_eq {mem : ℕ → Bool} {i n : ℕ} {l : Link} (h : ∀ j, i ≤ j → j < i + n → mem j = true) :
    initLoop mem i n ⟨l, [.pendingList]⟩ = .ok (0, ⟨stock^[n] l, []⟩) := by
  induction n generalizing i l with
  | zero => rfl
  | succ n ih =>
    rw [initLoop_succ (h i (Nat.le_refl i) (by omega)), Function.iterate_succ_apply]
    exact ih fun j h₁ h₂ => h j (by omega) (by omega)

/-- **Without memory** for one of the structs `rpmsg_link_init` returns with `pending_list_lock` held. -/
lemma initLoop_held {mem : ℕ → Bool} {i n j : ℕ} {l : Link} (h₁ : i ≤ j) (h₂ : j < i + n)
    (hj : mem j = false) :
    ∃ l', initLoop mem i n ⟨l, [.pendingList]⟩ = .ok (-enomem, ⟨l', [.pendingList]⟩) := by
  induction n generalizing i l with
  | zero => omega
  | succ n ih =>
    cases hi : mem i with
    | false =>
      have hk : kzalloc (mem i) ⟨l, [.pendingList]⟩ = .ok (none, ⟨l, [.pendingList]⟩) := by
        rw [hi]
        rfl
      refine ⟨l, ?_⟩
      rw [initLoop, bind_of_ok hk]
      rfl
    | true =>
      have hne : i ≠ j := by
        rintro rfl
        rw [hi] at hj
        cases hj
      rw [initLoop_succ hi]
      exact ih (by omega) (by omega)

lemma iterate_stock (n : ℕ) (l : Link) : (stock^[n] l).allocated = l.allocated + n ∧
    (stock^[n] l).unusedList = (List.range' l.allocated n).reverse ++ l.unusedList ∧
    (stock^[n] l).pendingList = l.pendingList ∧ (stock^[n] l).chnl = l.chnl := by
  induction n generalizing l with
  | zero => exact ⟨rfl, rfl, rfl, rfl⟩
  | succ n ih =>
    obtain ⟨ha, hu, hp, hc⟩ := ih (stock l)
    rw [Function.iterate_succ_apply]
    refine ⟨?_, ?_, hp, hc⟩
    · rw [ha]
      show l.allocated + 1 + n = _
      omega
    · rw [hu, List.range'_succ, List.reverse_cons, List.append_assoc]
      rfl

end Free

/-! ### The machine -/

/-- The link layer, and the struct that each of its clients has. -/
structure System where
  layer : Layer
  owner : ℕ → Option Ptr

/-- The module after `cm_init`, before `rpmsg_link_init`. -/
def System.start : System := ⟨⟨Removal.Module.loaded.driver.link, []⟩, fun _ => none⟩

/-- A call of a function.  A client returns, or sends, the struct that it has; `access_var` may be called
with a null pointer as well. -/
inductive Event
  | init (mem : ℕ → Bool)
  | exit
  | allocTrans (c : ℕ) (mem : Bool)
  | returnTrans (c : ℕ)
  | accessVar (c : Option ℕ) (index : Int32) (acc : Access) (send : Int32)
  | getNVars (mem : Bool) (send : Int32)
  | reply (data : List UInt8)

/-- What a function returns. -/
inductive Result
  | done
  | code (ret : Int32)
  | trans (t : Option Ptr)

section Machine

variable (kstrtol : List UInt8 → Int32 × Int32)

/-- The function that is called, if the client has a struct for it, or has none when it asks for one. -/
def call (s : System) : Event → Option (M Result)
  | .init mem => some (.code <$> rpmsgLinkInit mem)
  | .exit => some (rpmsgLinkExit >>= fun _ => pure .done)
  | .allocTrans c mem => if (s.owner c).isSome then none else some (.trans <$> rpmsgLinkAllocTrans mem)
  | .returnTrans c => (s.owner c).map fun t => rpmsgLinkReturnTrans (some t) >>= fun _ => pure .done
  | .accessVar none index acc send => some (.code <$> Locks.accessVar kstrtol index acc none send)
  | .accessVar (some c) index acc send =>
    (s.owner c).map fun t => .code <$> Locks.accessVar kstrtol index acc (some t) send
  | .getNVars mem send => some (.code <$> Locks.getNVars mem send)
  | .reply data => some (cfgMgmtRpmsgCb data >>= fun _ => pure .done)

/-- Who has which struct after a call. -/
def ownerAfter (owner : ℕ → Option Ptr) : Event → Result → ℕ → Option Ptr
  | .allocTrans c _, .trans t => Function.update owner c t
  | .returnTrans c, _ => Function.update owner c none
  | _, _ => owner

def step (s : System) (e : Event) : Option System := do
  let m ← call kstrtol s e
  match m s.layer with
  | .ok (r, layer) => some ⟨layer, ownerAfter s.owner e r⟩
  | .error _ => none

/-! ### What is expected of the functions -/

/-- `rpmsg_link_alloc_trans` returns a null pointer when there is no struct, and otherwise a struct that is
clear, and that was unused or is new. -/
structure Handed (l : Link) (mem : Bool) (t : Option Ptr) (l' : Link) : Prop where
  null : t = none ↔ l.unusedList = [] ∧ mem = false
  unchanged : t = none → l'.pendingList = l.pendingList ∧ l'.unusedList = l.unusedList
  zeroed : ∀ p, t = some p → l'.trans p = .zero
  source : ∀ p, t = some p → l.unusedList = p :: l'.unusedList ∨
    l.unusedList = l'.unusedList ∧ l.allocated ≤ p ∧ p < l'.allocated
  unlinked : ∀ p, t = some p → p ∉ l'.unusedList ∧ p ∉ l'.pendingList

/-- What is expected of the result of a call. -/
def Expected (l : Link) (l' : Link) : Event → Result → Prop
  | .allocTrans _ mem, r => ∃ t, r = .trans t ∧ Handed l mem t l'
  | _, _ => True

/-- The call returns, follows no null pointer, and holds no lock when it has returned. -/
def Survives (s : System) (e : Event) : Prop :=
  ∀ m, call kstrtol s e = some m → ∃ r layer, m s.layer = .ok (r, layer) ∧ layer.held = [] ∧
    Expected s.layer.link layer.link e r

/-- Every `kzalloc` of the call finds memory. -/
def Provided (s : System) : Event → Prop
  | .init mem => ∀ i < 16, mem i = true
  | .allocTrans c mem => s.owner c = none → s.layer.link.unusedList = [] → mem = true
  | .getNVars mem _ => s.layer.link.chnl = true → s.layer.link.unusedList = [] → mem = true
  | _ => True

/-- No client returns, or sends again, a struct that is pending, and none has one that is when the
channel is removed. -/
def Careful (s : System) : Event → Prop
  | .returnTrans c => ∀ t, s.owner c = some t → t ∉ s.layer.link.pendingList
  | .accessVar (some c) _ _ _ => ∀ t, s.owner c = some t → t ∉ s.layer.link.pendingList
  | .exit => ∀ c t, s.owner c = some t → t ∉ s.layer.link.pendingList
  | _ => True

/-! ### One step -/

/-- Where the structs are. -/
def pool (s : System) : Pool ℕ where
  pending := s.layer.link.pendingList
  unused := s.layer.link.unusedList
  owner := s.owner
  made := s.layer.link.allocated

/-- What holds between two calls. -/
structure Good (s : System) : Prop where
  held : s.layer.held = []
  sound : (pool s).Sound
  chnl : s.layer.link.pendingList ≠ [] → s.layer.link.chnl = true

variable {kstrtol} {s s' : System} {e : Event}

lemma good_start : Good .start where
  held := rfl
  sound := Pool.sound_empty
  chnl h := absurd rfl h

lemma allocTrans_eq_none {l : Link} {mem : Bool} :
    l.allocTrans mem = none ↔ l.unusedList = [] ∧ mem = false := by
  unfold Link.allocTrans
  cases l.unusedList with
  | nil => cases mem <;> simp
  | cons t rest => simp

lemma getNVars_eq_none {l : Link} {mem : Bool} {send : Int32} :
    l.getNVars mem send = none ↔ l.chnl = true ∧ l.unusedList = [] ∧ mem = false := by
  cases hc : l.chnl with
  | false => simp [Link.getNVars, hc]
  | true =>
    rw [Link.getNVars_eq hc, Option.map_eq_none_iff, allocTrans_eq_none]
    exact (and_iff_right rfl).symm

lemma handed_of_allocated {l l' : Link} {owner : ℕ → Option Ptr} {mem : Bool} {t : Ptr}
    (h : (pool ⟨⟨l, []⟩, owner⟩).Sound) (ha : l.allocTrans mem = some (t, l')) :
    Handed l mem (some t) l' := by
  have hal := Link.allocTrans_spec ha
  obtain ⟨-, huse, -, hnp, -, -⟩ := h.take (take_of_allocated hal owner)
  refine ⟨iff_of_false nofun fun hn => ?_, nofun, ?_, ?_, ?_⟩
  · cases ha.symm.trans (allocTrans_eq_none.2 hn)
  · rintro p ⟨⟩
    exact hal.trans_self
  · rintro p ⟨⟩
    rcases hal.source with ⟨hu, -⟩ | ⟨hu, hu', rfl, hm⟩
    · exact .inl hu
    · exact .inr ⟨hu.trans hu'.symm, Nat.le_refl _, hm ▸ Nat.lt_succ_self _⟩
  · rintro p ⟨⟩
    exact ⟨huse.not_unused, hal.pendingList ▸ hnp⟩

lemma result_eq {m : M Result} {x y : Layer} {r r' : Result} {layer : Layer} (h : m x = .ok (r', y))
    (h' : m x = .ok (r, layer)) : r' = r ∧ y = layer :=
  Prod.mk.inj (Except.ok.inj (h.symm.trans h'))

lemma call_allocTrans {c : ℕ} {mem : Bool} (h : s.owner c = none) :
    call kstrtol s (.allocTrans c mem) = some (.trans <$> rpmsgLinkAllocTrans mem) := by
  rw [call, h]
  rfl

lemma call_allocTrans_of_some {c : ℕ} {mem : Bool} {t : Ptr} (h : s.owner c = some t) :
    call kstrtol s (.allocTrans c mem) = none := by
  rw [call, h]
  rfl

section Survive

variable {l : Link} {owner : ℕ → Option Ptr}

lemma survives_init (mem : ℕ → Bool) :
    Survives kstrtol ⟨⟨l, []⟩, owner⟩ (.init mem) ↔ ∀ i < 16, mem i = true := by
  constructor
  · intro hs i hi
    by_contra hmem
    obtain ⟨l', hl'⟩ := initLoop_held (l := { l with chnl := true }) (Nat.zero_le i)
      (n := 16) (by omega) (Bool.eq_false_of_not_eq_true hmem)
    obtain ⟨r, layer, hr, hheld, -⟩ := hs _ rfl
    have hrun := map_of_ok Result.code (m := rpmsgLinkInit mem) (s := ⟨l, []⟩) hl'
    obtain ⟨-, rfl⟩ := result_eq hrun hr
    cases hheld
  · rintro hmem _ ⟨⟩
    have hrun : rpmsgLinkInit mem ⟨l, []⟩ = _ := initLoop_eq fun j _ hj => hmem j (by omega)
    exact ⟨_, _, map_of_ok Result.code hrun, rfl, trivial⟩

lemma survives_allocTrans (hsound : (pool ⟨⟨l, []⟩, owner⟩).Sound) (c : ℕ) (mem : Bool) :
    Survives kstrtol ⟨⟨l, []⟩, owner⟩ (.allocTrans c mem) ↔
      (owner c = none → l.unusedList = [] → mem = true) := by
  cases hown : owner c with
  | some t =>
    refine iff_of_true (fun m hm => ?_) fun hn => ?_
    · cases (call_allocTrans_of_some hown).symm.trans hm
    · cases hn
  | none =>
    have hcall : call kstrtol ⟨⟨l, []⟩, owner⟩ (.allocTrans c mem) = _ := call_allocTrans hown
    have hrun := allocTrans_eq l mem
    cases ha : l.allocTrans mem with
    | none =>
      rw [ha] at hrun
      obtain ⟨hu, hm⟩ := allocTrans_eq_none.1 ha
      refine iff_of_false (fun hs => ?_) fun hp => ?_
      · obtain ⟨r, layer, hr, -⟩ := hs _ hcall
        cases (map_of_error Result.trans hrun).symm.trans hr
      · exact Bool.false_ne_true (hm.symm.trans (hp rfl hu))
    | some r =>
      obtain ⟨t, l'⟩ := r
      rw [ha] at hrun
      refine iff_of_true (fun m hm => ?_) fun _ hu => ?_
      · obtain rfl := Option.some.inj (hcall.symm.trans hm)
        exact ⟨_, _, map_of_ok Result.trans hrun, rfl, _, rfl, handed_of_allocated hsound ha⟩
      · by_contra hm
        cases ha.symm.trans (allocTrans_eq_none.2 ⟨hu, Bool.eq_false_of_not_eq_true hm⟩)

lemma survives_getNVars (mem : Bool) (send : Int32) :
    Survives kstrtol ⟨⟨l, []⟩, owner⟩ (.getNVars mem send) ↔
      (l.chnl = true → l.unusedList = [] → mem = true) := by
  have hrun := getNVars_eq l mem send
  cases ha : l.getNVars mem send with
  | none =>
    rw [ha] at hrun
    obtain ⟨hc, hu, hm⟩ := getNVars_eq_none.1 ha
    refine iff_of_false (fun hs => ?_) fun hp => ?_
    · obtain ⟨r, layer, hr, -⟩ := hs _ rfl
      cases (map_of_error Result.code hrun).symm.trans hr
    · exact Bool.false_ne_true (hm.symm.trans (hp hc hu))
  | some r =>
    rw [ha] at hrun
    refine iff_of_true (fun m hm => ?_) fun hc hu => ?_
    · obtain rfl := Option.some.inj hm
      exact ⟨_, _, map_of_ok Result.code hrun, rfl, trivial⟩
    · by_contra hm
      cases ha.symm.trans (getNVars_eq_none.2 ⟨hc, hu, Bool.eq_false_of_not_eq_true hm⟩)

end Survive

/-- The only calls that do not survive are those that find no memory. -/
theorem survives_iff_provided (h : Good s) (e : Event) : Survives kstrtol s e ↔ Provided s e := by
  obtain ⟨⟨l, held⟩, owner⟩ := s
  obtain ⟨rfl, hsound, hchnl⟩ := h
  cases e with
  | init mem => exact survives_init mem
  | exit =>
    refine iff_of_true ?_ trivial
    rintro _ ⟨⟩
    exact ⟨_, _, bind_of_ok (exit_eq l hchnl), rfl, trivial⟩
  | allocTrans c mem => exact survives_allocTrans hsound c mem
  | returnTrans c =>
    refine iff_of_true (fun m hm => ?_) trivial
    obtain ⟨t, -, rfl⟩ := Option.map_eq_some_iff.1 hm
    exact ⟨_, _, bind_of_ok (returnTrans_eq l t), rfl, trivial⟩
  | accessVar c index acc send =>
    refine iff_of_true (fun m hm => ?_) trivial
    cases c with
    | none =>
      obtain rfl := Option.some.inj hm
      exact ⟨_, _, map_of_ok _ (accessVar_eq kstrtol l index acc none send), rfl, trivial⟩
    | some c =>
      obtain ⟨t, -, rfl⟩ := Option.map_eq_some_iff.1 hm
      exact ⟨_, _, map_of_ok _ (accessVar_eq kstrtol l index acc (some t) send), rfl, trivial⟩
  | getNVars mem send => exact survives_getNVars mem send
  | reply data =>
    refine iff_of_true (fun m hm => ?_) trivial
    obtain rfl := Option.some.inj hm
    exact ⟨_, _, bind_of_ok (rpmsgCb_eq l data hchnl), rfl, trivial⟩

lemma step_cases (hs : step kstrtol s e = some s') : ∃ m r layer, call kstrtol s e = some m ∧
    m s.layer = .ok (r, layer) ∧ s' = ⟨layer, ownerAfter s.owner e r⟩ := by
  obtain ⟨m, hm, hs⟩ := Option.bind_eq_some_iff.1 hs
  split at hs
  · rename_i r layer hr
    exact ⟨m, r, layer, hm, hr, (Option.some.inj hs).symm⟩
  · cases hs

/-- `access_var` posts at most the struct that it is called for. -/
lemma accessVar_lists (kstrtol : List UInt8 → Int32 × Int32) (l : Link) (index : Int32) (acc : Access)
    (t : Option Ptr) (send : Int32) :
    (l.accessVar kstrtol index acc t send).2.unusedList = l.unusedList ∧
    (l.accessVar kstrtol index acc t send).2.allocated = l.allocated ∧
    (l.accessVar kstrtol index acc t send).2.chnl = l.chnl ∧
    ((l.accessVar kstrtol index acc t send).2.pendingList = l.pendingList ∨
      ∃ p, t = some p ∧ l.chnl = true ∧
        (l.accessVar kstrtol index acc t send).2.pendingList = p :: l.pendingList) := by
  cases hc : l.chnl with
  | false =>
    have hrun : l.accessVar kstrtol index acc t send = (-einval, l) := by
      simp [Link.accessVar, Link.accessFill, hc, einval]
    rw [hrun]
    exact ⟨rfl, rfl, hc, .inl rfl⟩
  | true =>
    cases t with
    | none =>
      have hrun : l.accessVar kstrtol index acc none send = (-einval, l) := by
        simp [Link.accessVar, Link.accessFill, hc, einval]
      rw [hrun]
      exact ⟨rfl, rfl, hc, .inl rfl⟩
    | some t =>
      by_cases he : (l.prepare kstrtol index acc t).1 = 0
      · rw [Link.accessVar_of_eq hc he, Link.rpmsgSend_eq]
        exact ⟨rfl, rfl, hc, .inr ⟨t, rfl, rfl, rfl⟩⟩
      · rw [Link.accessVar_of_ne hc he]
        exact ⟨rfl, rfl, hc, .inl rfl⟩

section Keep

variable {l l' : Link} {owner : ℕ → Option Ptr}

lemma good_init (h : Good ⟨⟨l, []⟩, owner⟩) : Good ⟨⟨stock^[16] { l with chnl := true }, []⟩, owner⟩ := by
  obtain ⟨ha, hu, hpend, hc⟩ := iterate_stock 16 { l with chnl := true }
  have hpool : pool ⟨⟨stock^[16] { l with chnl := true }, []⟩, owner⟩ =
      (pool ⟨⟨l, []⟩, owner⟩).restock 16 := by
    simp only [pool, Pool.restock, ha, hu, hpend]
  exact ⟨rfl, hpool ▸ h.sound.restock 16, fun _ => hc⟩

lemma good_allocTrans {mem : Bool} {t : Ptr} (h : Good ⟨⟨l, []⟩, owner⟩)
    (ha : l.allocTrans mem = some (t, l')) (c : ℕ) :
    Good ⟨⟨l', []⟩, Function.update owner c (some t)⟩ := by
  have hal := Link.allocTrans_spec ha
  obtain ⟨hq, huse, hun, -, -, -⟩ := h.sound.take (take_of_allocated hal owner)
  refine ⟨rfl, hq.own huse hun, ?_⟩
  show l'.pendingList ≠ [] → l'.chnl = true
  rw [hal.pendingList, hal.chnl]
  exact h.chnl

lemma good_accessVar (h : Good ⟨⟨l, []⟩, owner⟩) (index : Int32)
    (acc : Access) (t : Option Ptr) (send : Int32)
    (ht : ∀ p, t = some p → Pool.InUse p (pool ⟨⟨l, []⟩, owner⟩) ∧ p ∉ l.pendingList) :
    Good ⟨⟨(l.accessVar kstrtol index acc t send).2, []⟩, owner⟩ := by
  obtain ⟨hu, ha, hc, hp⟩ := accessVar_lists kstrtol l index acc t send
  generalize (l.accessVar kstrtol index acc t send).2 = l' at hu ha hc hp
  rcases hp with hp | ⟨p, rfl, hchnl, hp⟩
  · have hpool : pool ⟨⟨l', []⟩, owner⟩ = pool ⟨⟨l, []⟩, owner⟩ := by
      simp only [pool, hu, ha, hp]
    refine ⟨rfl, hpool ▸ h.sound, ?_⟩
    show l'.pendingList ≠ [] → l'.chnl = true
    rw [hp, hc]
    exact h.chnl
  · have hpool : pool ⟨⟨l', []⟩, owner⟩ = (pool ⟨⟨l, []⟩, owner⟩).post p := by
      simp only [pool, Pool.post, hu, ha, hp]
    obtain ⟨huse, hn⟩ := ht p rfl
    exact ⟨rfl, hpool ▸ h.sound.post huse hn, fun _ => hc.trans hchnl⟩

lemma good_getNVars {mem : Bool} {send ret : Int32} (h : Good ⟨⟨l, []⟩, owner⟩)
    (ha : l.getNVars mem send = some (ret, l')) : Good ⟨⟨l', []⟩, owner⟩ := by
  cases hc : l.chnl with
  | false =>
    have hrun : l.getNVars mem send = some (-einval, l) := by
      simp [Link.getNVars, hc]
    obtain ⟨-, rfl⟩ := Prod.mk.inj (Option.some.inj (hrun.symm.trans ha))
    exact h
  | true =>
    obtain ⟨-, t, l₁, halloc, hp, hu, hm, hc', -⟩ := Link.getNVars_spec hc ha
    have hal := Link.allocTrans_spec halloc
    obtain ⟨hq, huse, -, hn, -, hpend⟩ := h.sound.take (take_of_allocated hal owner)
    have hpool : pool ⟨⟨l', []⟩, owner⟩ =
        Pool.post t ⟨l₁.pendingList, l₁.unusedList, owner, l₁.allocated⟩ := by
      simp only [pool, Pool.post, hp, hu, hm, hal.pendingList]
    refine ⟨rfl, hpool ▸ hq.post huse ?_, fun _ => hc'.trans hc⟩
    rw [hpend]
    exact hn

lemma good_reply (h : Good ⟨⟨l, []⟩, owner⟩) (data : List UInt8) :
    Good ⟨⟨l.rpmsgCb data, []⟩, owner⟩ := by
  rcases Link.rpmsgCb_cases data l with ⟨response, -, t, ht, -, hcb⟩ | ⟨-, hcb⟩
  · rw [hcb]
    exact ⟨rfl, h.sound.settle, fun _ => h.chnl (List.ne_nil_of_mem ht)⟩
  · rw [hcb]
    exact h

end Keep

theorem good_step (h : Good s) (hc : Careful s e) (hp : Provided s e) (hs : step kstrtol s e = some s') :
    Good s' := by
  obtain ⟨m, r, layer, hm, hr, rfl⟩ := step_cases hs
  obtain ⟨⟨l, held⟩, owner⟩ := s
  obtain ⟨rfl, hsound, hchnl⟩ := h
  have h : Good ⟨⟨l, []⟩, owner⟩ := ⟨rfl, hsound, hchnl⟩
  cases e with
  | init mem =>
    obtain rfl := Option.some.inj hm
    have hrun : rpmsgLinkInit mem ⟨l, []⟩ = _ := initLoop_eq fun j _ hj => hp j (by omega)
    obtain ⟨rfl, rfl⟩ := result_eq (map_of_ok Result.code hrun) hr
    exact good_init h
  | exit =>
    obtain rfl := Option.some.inj hm
    obtain ⟨rfl, rfl⟩ := result_eq (bind_of_ok (exit_eq l hchnl)) hr
    exact ⟨rfl, hsound.drain, fun h => absurd rfl h⟩
  | allocTrans c mem =>
    cases hown : owner c with
    | some t => cases (call_allocTrans_of_some hown).symm.trans hm
    | none =>
      obtain rfl := Option.some.inj ((call_allocTrans hown).symm.trans hm)
      have hrun := allocTrans_eq l mem
      cases ha : l.allocTrans mem with
      | none =>
        rw [ha] at hrun
        cases (map_of_error Result.trans hrun).symm.trans hr
      | some r =>
        rw [ha] at hrun
        obtain ⟨rfl, rfl⟩ := result_eq (map_of_ok Result.trans hrun) hr
        exact good_allocTrans h ha c
  | returnTrans c =>
    obtain ⟨t, hown, rfl⟩ := Option.map_eq_some_iff.1 hm
    obtain ⟨rfl, rfl⟩ := result_eq (bind_of_ok (returnTrans_eq l t)) hr
    have huse := hsound.inUse hown
    exact ⟨rfl, hsound.disown.recycle ⟨huse.lt, huse.not_unused⟩ (hsound.unowned_disown hown) (hc t hown),
      hchnl⟩
  | accessVar c index acc send =>
    cases c with
    | none =>
      obtain rfl := Option.some.inj hm
      obtain ⟨rfl, rfl⟩ := result_eq (map_of_ok _ (accessVar_eq kstrtol l index acc none send)) hr
      exact good_accessVar h index acc none send fun p hp => by cases hp
    | some c =>
      obtain ⟨t, hown, rfl⟩ := Option.map_eq_some_iff.1 hm
      obtain ⟨rfl, rfl⟩ := result_eq (map_of_ok _ (accessVar_eq kstrtol l index acc (some t) send)) hr
      refine good_accessVar h index acc (some t) send ?_
      rintro p ⟨⟩
      exact ⟨hsound.inUse hown, hc t hown⟩
  | getNVars mem send =>
    obtain rfl := Option.some.inj hm
    have hrun := getNVars_eq l mem send
    cases ha : l.getNVars mem send with
    | none =>
      rw [ha] at hrun
      cases (map_of_error Result.code hrun).symm.trans hr
    | some r =>
      rw [ha] at hrun
      obtain ⟨rfl, rfl⟩ := result_eq (map_of_ok Result.code hrun) hr
      exact good_getNVars h ha
  | reply data =>
    obtain rfl := Option.some.inj hm
    obtain ⟨rfl, rfl⟩ := result_eq (bind_of_ok (rpmsgCb_eq l data hchnl)) hr
    exact good_reply h data

end Machine

/-! ### Every run -/

/-- **In every run** in which the clients are careful, all calls survive if and only if every `kzalloc`
finds memory. -/
theorem survives_iff (kstrtol : List UInt8 → Int32 × Int32) (es : List Event)
    (h : Steps (step kstrtol) Careful .start es) :
    Steps (step kstrtol) (Survives kstrtol) .start es ↔ Steps (step kstrtol) Provided .start es := by
  refine steps_congr ?_ ?_ good_start h
  · exact fun s e hs => survives_iff_provided hs e
  · exact fun s e s' hs hc hp hstep => good_step hs hc hp hstep

/-- The link layer is made ready, a client gets a struct, and the variables are counted. -/
def startup : List Event := [.init fun _ => true, .allocTrans 0 true, .getNVars true 0]

/-- With memory the start survives. -/
theorem startup_survives :
    Steps (step Kstrtol.kstrtol) (Survives Kstrtol.kstrtol) .start startup := by
  have hcareful : Steps (step Kstrtol.kstrtol) Careful .start startup :=
    ⟨trivial, fun _ _ => ⟨trivial, fun _ _ => ⟨trivial, fun _ _ => trivial⟩⟩⟩
  refine (survives_iff Kstrtol.kstrtol startup hcareful).2 ⟨fun _ _ => rfl, fun _ _ => ⟨fun _ _ => rfl,
    fun _ _ => ⟨fun _ _ => rfl, fun _ _ => trivial⟩⟩⟩

/-- Memory for the first three structs only. -/
def scarce (i : ℕ) : Bool := decide (i < 3)

/-- **Without memory** the start fails: `rpmsg_link_init` keeps `pending_list_lock`, so that no request
can be posted any more, and `rpmsg_link_alloc_trans` follows a null pointer. -/
theorem scarce_not_survives :
    ¬ Steps (step Kstrtol.kstrtol) (Survives Kstrtol.kstrtol) .start [.init scarce] ∧
    (∃ s, step Kstrtol.kstrtol .start (.init scarce) = some s ∧
      ∀ t, addPendTrans t s.layer = .error .deadlock) ∧
    ¬ Steps (step Kstrtol.kstrtol) (Survives Kstrtol.kstrtol) .start [.allocTrans 0 false] ∧
    rpmsgLinkAllocTrans false System.start.layer = .error .nullPointer := by
  refine ⟨fun h => ?_, ⟨_, rfl, fun t => rfl⟩, fun h => ?_, rfl⟩
  · exact absurd ((survives_iff_provided good_start _).1 h.1 3 (by decide)) (by decide)
  · exact absurd ((survives_iff_provided good_start _).1 h.1 rfl rfl) (by decide)

end CfgMgmt.Kernel.Locks
