import CfgMgmt.Firmware.VirtioRing
import CfgMgmt.Msg

/-!
# The rpmsg transport of the firmware (`remoteproc.c`)

The firmware owns two vrings: it takes empty buffers from the transmit ring and returns them filled,
and it takes messages from the receive ring and returns their buffers empty.  The kernel acts at any
time; what it does is read off an `Env`, of which the firmware meets the next entry whenever it looks
at a ring or at a kick counter.  A call that does not return waits for a transmit buffer that never
comes, or has accessed memory outside of a table (`Stop`).
-/

namespace CfgMgmt.Firmware.Remoteproc

open CfgMgmt.Lib.Bytes CfgMgmt.Msg CfgMgmt.Firmware.VirtioRing

/-! ### Outcomes -/

/-- Why a call does not return. -/
inductive Stop
  /-- it waits in `block_send_message` and no transmit buffer ever comes -/
  | waiting
  /-- it has accessed a table behind its end -/
  | fault
  deriving DecidableEq

section Outcomes

variable {β γ : Type} {x : Except Stop β} {f : β → Except Stop γ}

lemma bind_eq_ok {c : γ} : (x >>= f) = .ok c ↔ ∃ b, x = .ok b ∧ f b = .ok c := by
  cases x <;> simp [bind, Except.bind]

lemma toOption_eq_some {b : β} : x.toOption = some b ↔ x = .ok b := by
  cases x <;> simp [Except.toOption]

lemma bind_ne_fault (hx : x ≠ .error .fault) (hf : ∀ b, x = .ok b → f b ≠ .error .fault) :
    (x >>= f) ≠ .error .fault := by
  cases x with
  | error e => exact fun h => hx (by simpa [bind, Except.bind] using h)
  | ok b => exact hf b rfl

end Outcomes

/-! ### Data -/

abbrev maxRpmsgCh : ℕ := 5

def appAddrStart : UInt32 := 0x50

def rpmsgAddrAny : UInt32 := 0xFFFFFFFF

def linuxServiceAnnouncementAddr : UInt32 := 0x35

abbrev rpmsgNameSize : ℕ := 32

/-- `enum rpmsg_ch_state`. -/
inductive ChState
  | unused
  | announced
  | up
  deriving DecidableEq

/-- `struct rpmsg_channel`, for callback function pointers `κ`. -/
structure Channel (κ : Type) where
  localAddr : UInt32
  remoteAddr : UInt32
  state : ChState
  cb : Option κ

/-- A buffer: `struct rpmsg_hdr` and the data behind it. -/
structure Packet where
  src : UInt32
  dst : UInt32
  reserved : UInt32
  len : UInt16
  flags : UInt16
  data : Buf dataLenMax
  deriving DecidableEq

def Packet.encode (p : Packet) : List UInt8 :=
  u32Bytes p.src ++ u32Bytes p.dst ++ u32Bytes p.reserved ++ u16Bytes p.len ++ u16Bytes p.flags ++
    p.data.bytes

def Packet.decode (bs : List UInt8) (h : bs.length = packetLenMax) : Packet where
  src := u32At bs 0
  dst := u32At bs 4
  reserved := u32At bs 8
  len := u16At bs 12
  flags := u16At bs 14
  data := ⟨bs.drop 16, by rw [List.length_drop, h]⟩

@[simp] lemma Packet.length_encode (p : Packet) : p.encode.length = packetLenMax := by
  simp only [encode, List.length_append, length_u32Bytes, length_u16Bytes, p.data.size]
  rfl

/-- The buffers after a 0 was stored at the address `addr`, in whichever of them it lies. -/
def storeZero (addr : UInt32) (bufs : UInt32 → Packet) : UInt32 → Packet := fun b =>
  .decode ((bufs b).encode.set (addr - b).toNat 0) (by simp)

theorem Packet.decode_encode (p : Packet) : decode p.encode p.length_encode = p := by
  have h0 := u32At_append [] (u32Bytes p.dst ++ (u32Bytes p.reserved ++ (u16Bytes p.len ++
    (u16Bytes p.flags ++ p.data.bytes)))) p.src
  have h4 := u32At_append (u32Bytes p.src) (u32Bytes p.reserved ++ (u16Bytes p.len ++
    (u16Bytes p.flags ++ p.data.bytes))) p.dst
  have h8 := u32At_append (u32Bytes p.src ++ u32Bytes p.dst) (u16Bytes p.len ++
    (u16Bytes p.flags ++ p.data.bytes)) p.reserved
  have h12 := u16At_append (u32Bytes p.src ++ u32Bytes p.dst ++ u32Bytes p.reserved)
    (u16Bytes p.flags ++ p.data.bytes) p.len
  have h14 := u16At_append (u32Bytes p.src ++ u32Bytes p.dst ++ u32Bytes p.reserved ++ u16Bytes p.len)
    p.data.bytes p.flags
  have h16 : p.encode.drop 16 = p.data.bytes := List.drop_left' (by simp)
  simp only [List.append_assoc, List.length_append, length_u32Bytes, length_u16Bytes, List.nil_append,
    List.length_nil] at h0 h4 h8 h12 h14
  cases p with
  | mk src dst reserved len flags data =>
    simp only [decode, encode, List.append_assoc, Packet.mk.injEq] at h0 h4 h8 h12 h14 h16 ⊢
    exact ⟨h0, h4, h8, h12, h14, Buf.ext h16⟩

/-- A store behind a buffer, or in front of it, does not change it. -/
lemma storeZero_of_far {addr b : UInt32} (h : packetLenMax ≤ (addr - b).toNat)
    (bufs : UInt32 → Packet) : storeZero addr bufs b = bufs b := by
  have hset : (bufs b).encode.set (addr - b).toNat 0 = (bufs b).encode :=
    List.set_eq_of_length_le (by rw [Packet.length_encode]; exact h)
  unfold storeZero
  simp only [hset]
  exact (bufs b).decode_encode

/-- What the kernel does to the memory and to the interrupts of the firmware. -/
inductive KernelAct
  /-- offer an empty transmit buffer -/
  | offerTx (d : Fin vringSize)
  /-- fill a receive buffer and offer it -/
  | offerRx (d : Fin vringSize) (pkt : Packet)
  /-- set the flags of the available ring of the transmit ring -/
  | flagsTx (flags : UInt16)
  | kickTx
  | kickRx

/-- What the kernel does each time the firmware looks.  An entry is a list because the firmware may
wait there: it looks again after each element. -/
abbrev Env : Type := ℕ → List (List KernelAct)

/-- The history of the transport. -/
inductive Ev
  | kernel (a : KernelAct)
  /-- `read_message` took the buffer `d`, which holds `pkt` -/
  | rxTake (d : UInt16) (pkt : Packet)
  | rxPublish (d : UInt16) (notified : Bool)
  /-- the callback of a channel is called, and returns -/
  | cbCall (i : Fin maxRpmsgCh)
  | cbReturn (i : Fin maxRpmsgCh)
  | txTake (d : UInt16)
  /-- header and payload of the buffer `d` are complete: it holds `pkt` -/
  | txWrite (d : UInt16) (pkt : Packet)
  /-- the buffer `d`, which holds `pkt`, is published -/
  | txPublish (d : UInt16) (pkt : Packet) (notified : Bool)

/-- What a channel callback leaves behind: the memory of the application, the calls of `rpmsg_send` it
makes, each with its channel pointer and its data, and the index in `data` at which it stores a 0. -/
structure CbResult (α : Type) where
  app : α
  sends : List (Option (Fin maxRpmsgCh) × List UInt8)
  zeroAt : Option ℕ

/-- The meaning of the callback function pointers: a callback gets its channel, the data area of the
buffer and the length of the message. -/
abbrev App (κ α : Type) : Type :=
  κ → Fin maxRpmsgCh → Buf dataLenMax → UInt16 → α → Option (CbResult α)

/-- The memory of the firmware.  Buffers are found by their address. -/
structure Fw (κ α : Type) where
  channels : Fin maxRpmsgCh → Channel κ
  nextRpmsgAddr : UInt32
  txvringKicks : UInt32
  rxvringKicks : UInt32
  txProcessedKicks : UInt32
  rxProcessedKicks : UInt32
  tx : Vring
  rx : Vring
  bufs : UInt32 → Packet
  app : α
  time : ℕ
  log : List Ev

/-- The memory of a firmware that the kernel has just loaded. -/
def Fw.loaded {κ α : Type} (app : α) : Fw κ α where
  channels _ := ⟨0, 0, .unused, none⟩
  nextRpmsgAddr := appAddrStart
  txvringKicks := 0
  rxvringKicks := 0
  txProcessedKicks := 0
  rxProcessedKicks := 0
  tx := .zero
  rx := .zero
  bufs _ := ⟨0, 0, 0, 0, 0, .zero dataLenMax⟩
  app
  time := 0
  log := []

/-- The same, where the kernel has told the firmware its buffers: those of a ring follow each other. -/
def Fw.prepared {κ α : Type} (app : α) : Fw κ α :=
  let s := Fw.loaded app
  { s with
    rx := { s.rx with desc := fun i => ⟨0x10000000 + 512 * UInt32.ofNat i, 0, 512, 0, 0⟩ }
    tx := { s.tx with desc := fun i => ⟨0x20000000 + 512 * UInt32.ofNat i, 0, 512, 0, 0⟩ } }

def remoteprocInit {κ α : Type} (s : Fw κ α) : Fw κ α :=
  { s with
    channels := fun _ => ⟨0, 0, .unused, none⟩
    tx := vringInit s.tx true
    rx := vringInit s.rx true }

section Functions

variable {κ α : Type} (app : App κ α) (env : Env)

namespace Fw

def emit (e : Ev) (s : Fw κ α) : Fw κ α := { s with log := s.log ++ [e] }

/-- One action of the kernel. -/
def act (s : Fw κ α) (a : KernelAct) : Fw κ α :=
  emit (.kernel a) <| match a with
    | .offerTx d => { s with tx := offerDesc s.tx (UInt16.ofNat d) }
    | .offerRx d pkt =>
      { s with
        bufs := Function.update s.bufs (s.rx.desc d).addr pkt
        rx := offerDesc s.rx (UInt16.ofNat d) }
    | .flagsTx flags => { s with tx := { s.tx with avail := { s.tx.avail with flags } } }
    | .kickTx => { s with txvringKicks := s.txvringKicks + 1 }
    | .kickRx => { s with rxvringKicks := s.rxvringKicks + 1 }

def acts (s : Fw κ α) (as : List KernelAct) : Fw κ α := as.foldl act s

/-- The firmware looks: the kernel has acted. -/
def look (s : Fw κ α) : Fw κ α := { s.acts (env s.time).flatten with time := s.time + 1 }

end Fw

/-! ### Sending -/

def txvringTask (s : Fw κ α) : ℕ × Fw κ α :=
  if s.txvringKicks ≠ s.txProcessedKicks then
    (1, { s with txProcessedKicks := s.txProcessedKicks + 1 })
  else
    (0, s)

/-- The part of the data that fits into a packet. -/
def payload (data : List UInt8) : List UInt8 := data.take dataLenMax

lemma payload_fits (data : List UInt8) : 0 + (payload data).length ≤ dataLenMax := by
  simp [payload]

/-- The header and the payload `__send_message` writes into a buffer. -/
def fillPacket (old : Packet) (src dst : UInt32) (data : List UInt8) : Packet where
  src
  dst
  reserved := 0
  flags := 0
  len := UInt16.ofNat (payload data).length
  data := old.data.write 0 (payload data) (payload_fits data)

/-- `__send_message`: 1 if there is no buffer, 0 if the message is sent. -/
def sendMessage (src dst : UInt32) (data : List UInt8) (s : Fw κ α) : Except Stop (ℕ × Fw κ α) :=
  match vringGetBuf s.tx with
  | (none, _) => .ok (1, s)
  | (some idx, tx) =>
    if h : idx.toNat < vringSize then
      let s := { s with tx }.emit (.txTake idx)
      let addr := (tx.desc ⟨idx.toNat, h⟩).addr
      let pkt := fillPacket (s.bufs addr) src dst data
      let s := { s with bufs := Function.update s.bufs addr pkt }.emit (.txWrite idx pkt)
      let (tx, notified) := vringPublishBuf s.tx idx (UInt32.ofNat packetLenMax) true
      .ok (0, { s with tx }.emit (.txPublish idx (s.bufs addr) notified))
    else .error .fault

/-- The loop of `block_send_message`: one attempt after each time the kernel has acted. -/
def sendLoop (src dst : UInt32) (data : List UInt8) : List (List KernelAct) → Fw κ α →
    Except Stop (Fw κ α)
  | [], _ => .error .waiting
  | as :: rest, s =>
    match sendMessage src dst data (s.acts as) with
    | .error e => .error e
    | .ok (0, s) => .ok s
    | .ok (_, s) => sendLoop src dst data rest (txvringTask s).2

def blockSendMessage (src dst : UInt32) (data : List UInt8) (s : Fw κ α) : Except Stop (Fw κ α) :=
  sendLoop src dst data (env s.time) { s with time := s.time + 1 }

def rpmsgSend (ch : Option (Fin maxRpmsgCh)) (data : List UInt8) (s : Fw κ α) :
    Except Stop (Fw κ α) :=
  match ch with
  | none => .ok s
  | some i =>
    if (s.channels i).state ≠ .announced ∧ (s.channels i).state ≠ .up then
      .ok s
    else
      blockSendMessage env (s.channels i).localAddr (s.channels i).remoteAddr data s

/-- Several calls of `rpmsg_send`, in order. -/
def rpmsgSends (sends : List (Option (Fin maxRpmsgCh) × List UInt8)) (s : Fw κ α) :
    Except Stop (Fw κ α) :=
  sends.foldlM (fun s p => rpmsgSend env p.1 p.2 s) s

/-! ### Receiving -/

/-- Call the callback `c` of the channel `i` with the packet received at the address `addr`. -/
def callCb (c : κ) (i : Fin maxRpmsgCh) (addr : UInt32) (pkt : Packet) (s : Fw κ α) :
    Except Stop (Fw κ α) :=
  let s := s.emit (.cbCall i)
  match app c i pkt.data pkt.len s.app with
  | none => .error .fault
  | some r => do
    let bufs := r.zeroAt.elim s.bufs fun k => storeZero (addr + 16 + UInt32.ofNat k) s.bufs
    let s ← rpmsgSends env r.sends { s with app := r.app, bufs }
    .ok (s.emit (.cbReturn i))

/-- The loop of `read_message` over the channels. -/
def deliver (addr : UInt32) (pkt : Packet) : List (Fin maxRpmsgCh) → Fw κ α → Except Stop (Fw κ α)
  | [], s => .ok s
  | i :: rest, s =>
    let ch := s.channels i
    if (ch.state = .announced ∨ ch.state = .up) ∧ pkt.dst = ch.localAddr then
      let s := { s with
        channels := Function.update s.channels i { ch with remoteAddr := pkt.src, state := .up } }
      match ch.cb with
      | some c => callCb app env c i addr pkt s
      | none => deliver addr pkt rest s
    else
      deliver addr pkt rest s

def readMessage (s : Fw κ α) : Except Stop (Fw κ α) :=
  let s := s.look env
  match vringGetBuf s.rx with
  | (none, _) => .ok s
  | (some index, rx) =>
    if h : index.toNat < vringSize then do
      let addr := (rx.desc ⟨index.toNat, h⟩).addr
      let pkt := s.bufs addr
      let s ← deliver app env addr pkt (List.finRange maxRpmsgCh)
        ({ s with rx }.emit (.rxTake index pkt))
      let (rx, notified) := vringPublishBuf s.rx index (UInt32.ofNat packetLenMax) false
      .ok ({ s with rx }.emit (.rxPublish index notified))
    else .error .fault

/-- The loop of `rxvring_task`: its first `rounds` rounds, fewer if it ends before. -/
def rxLoop : ℕ → Fw κ α → Except Stop (Fw κ α)
  | 0, s => .ok s
  | rounds + 1, s =>
    let s := s.look env
    if vringAvailable s.rx = 1 then do
      let s ← readMessage app env s
      rxLoop rounds s
    else
      .ok s

def rxvringTask (rounds : ℕ) (s : Fw κ α) : Except Stop (ℕ × Fw κ α) :=
  let s := s.look env
  if s.rxvringKicks ≠ s.rxProcessedKicks then do
    let s ← rxLoop app env rounds { s with rxProcessedKicks := s.rxProcessedKicks + 1 }
    .ok (1, s)
  else
    .ok (0, s)

def rpmsgPoll (rounds : ℕ) (s : Fw κ α) : Except Stop (ℕ × Fw κ α) := do
  let (ret, s) := txvringTask (s.look env)
  let (ret', s) ← rxvringTask app env rounds s
  .ok (ret ||| ret', s)

/-! ### Channels -/

/-- `struct rpmsg_ns_msg` for a new channel. -/
def nsMsg (name : CStr) (addr : UInt32) : List UInt8 :=
  let name := name.bytes.take rpmsgNameSize
  name ++ List.replicate (rpmsgNameSize - name.length) 0 ++ u32Bytes addr ++ u32Bytes 0

def rpmsgCreateCh (name : CStr) (cb : Option κ) (s : Fw κ α) :
    Except Stop (Option (Fin maxRpmsgCh) × Fw κ α) :=
  match (List.finRange maxRpmsgCh).find? fun i => (s.channels i).state = .unused with
  | none => .ok (none, s)
  | some i => do
    let localAddr := s.nextRpmsgAddr
    let s := { s with
      nextRpmsgAddr := s.nextRpmsgAddr + 1
      channels := Function.update s.channels i
        { localAddr, remoteAddr := rpmsgAddrAny, state := .announced, cb } }
    let s ← blockSendMessage env localAddr linuxServiceAnnouncementAddr (nsMsg name localAddr) s
    .ok (some i, s)

/-! ### The rule of the receive loop -/

variable {app env} {I : Fw κ α → Prop}

variable (app env I) in
/-- `I` is kept by everything `rpmsg_poll` does. -/
structure Kept : Prop where
  look : ∀ s, I s → I (s.look env)
  txKick : ∀ s k, I s → I { s with txProcessedKicks := k }
  rxKick : ∀ s k, I s → I { s with rxProcessedKicks := k }
  read : ∀ s s', I s → readMessage app env s = .ok s' → I s'

namespace Kept

lemma txvringTask (hI : Kept app env I) {s : Fw κ α} (h : I s) : I (txvringTask s).2 := by
  unfold Remoteproc.txvringTask
  split
  · exact hI.txKick s _ h
  · exact h

lemma rxLoop (hI : Kept app env I) {rounds : ℕ} {s s' : Fw κ α} (h : I s)
    (hs : rxLoop app env rounds s = .ok s') : I s' := by
  induction rounds generalizing s with
  | zero => exact Except.ok.inj hs ▸ h
  | succ rounds ih =>
    rw [Remoteproc.rxLoop] at hs
    split at hs
    · obtain ⟨t, ht, hs⟩ := bind_eq_ok.1 hs
      exact ih (hI.read _ _ (hI.look _ h) ht) hs
    · exact Except.ok.inj hs ▸ hI.look _ h

/-- **What reading one message keeps, `rpmsg_poll` keeps.** -/
theorem rpmsgPoll (hI : Kept app env I) {rounds ret : ℕ} {s s' : Fw κ α} (h : I s)
    (hs : rpmsgPoll app env rounds s = .ok (ret, s')) : I s' := by
  obtain ⟨⟨ret', t⟩, ht, hs⟩ := bind_eq_ok.1 hs
  obtain ⟨-, rfl⟩ := Prod.mk.inj (Except.ok.inj hs)
  have hl := hI.look _ (hI.txvringTask (hI.look _ h))
  unfold rxvringTask at ht
  simp only at ht
  split at ht
  · obtain ⟨u, hu, ht⟩ := bind_eq_ok.1 ht
    obtain ⟨-, rfl⟩ := Prod.mk.inj (Except.ok.inj ht)
    exact hI.rxLoop (hI.rxKick _ _ hl) hu
  · obtain ⟨-, rfl⟩ := Prod.mk.inj (Except.ok.inj ht)
    exact hl

section Fault

variable (hf : ∀ s, I s → readMessage app env s ≠ .error .fault)
include hf

lemma rxLoop_ne_fault (hI : Kept app env I) {rounds : ℕ} {s : Fw κ α} (h : I s) :
    Remoteproc.rxLoop app env rounds s ≠ .error .fault := by
  induction rounds generalizing s with
  | zero => exact fun hf => nomatch hf
  | succ rounds ih =>
    rw [Remoteproc.rxLoop]
    split
    · exact bind_ne_fault (hf _ (hI.look _ h)) fun t ht => ih (hI.read _ _ (hI.look _ h) ht)
    · exact fun hf => nomatch hf

/-- **`rpmsg_poll` accesses no table behind its end** if reading one message does not. -/
theorem rpmsgPoll_ne_fault (hI : Kept app env I) {s : Fw κ α} (h : I s) (rounds : ℕ) :
    Remoteproc.rpmsgPoll app env rounds s ≠ .error .fault := by
  have hl := hI.look _ (hI.txvringTask (hI.look _ h))
  refine bind_ne_fault ?_ fun t _ hf => nomatch hf
  unfold rxvringTask
  simp only
  split
  · exact bind_ne_fault (hI.rxLoop_ne_fault hf (hI.rxKick _ _ hl)) fun t _ hf => nomatch hf
  · exact fun hf => nomatch hf

end Fault

end Kept

end Functions

end CfgMgmt.Firmware.Remoteproc
