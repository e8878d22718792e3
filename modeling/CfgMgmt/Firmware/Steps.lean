import Mathlib.Logic.Relation
import CfgMgmt.Firmware.Buffers

/-!
# The shared memory in small steps

What the kernel and the transport of the firmware do to the memory they share, one step at a time.  Every
call of the transport is a sequence of these steps (`steps_run`): what each of them keeps holds in every
run, whatever the callbacks send and whenever the kernel acts.
-/

namespace CfgMgmt.Firmware.Steps

open CfgMgmt.Lib.Bytes CfgMgmt.Lib.Ring CfgMgmt.Lib.Machine CfgMgmt.Msg
open CfgMgmt.Firmware.VirtioRing CfgMgmt.Firmware.Remoteproc CfgMgmt.Firmware.Buffers
open Relation (ReflTransGen)

/-! ### The memory -/

/-- The two rings, the buffers, and what has happened to them. -/
structure Shared where
  tx : Vring
  rx : Vring
  bufs : UInt32 → Packet
  log : List Ev

/-- The address of the buffer of a descriptor. -/
def addrAt (vr : Vring) (d : UInt16) : UInt32 := (vr.desc (slot vringSize d.toNat)).addr

lemma slot_of_lt {d : UInt16} (h : d.toNat < vringSize) : slot vringSize d.toNat = ⟨d.toNat, h⟩ :=
  Fin.ext (Nat.mod_eq_of_lt h)

lemma addrAt_of_lt {vr : Vring} {d : UInt16} (h : d.toNat < vringSize) :
    addrAt vr d = (vr.desc ⟨d.toNat, h⟩).addr := by
  rw [addrAt, slot_of_lt h]

namespace Shared

/-- One action of the kernel. -/
def act (m : Shared) : KernelAct → Shared
  | .offerTx d =>
    { m with tx := offerDesc m.tx (UInt16.ofNat d), log := m.log ++ [.kernel (.offerTx d)] }
  | .offerRx d pkt =>
    { m with
      bufs := Function.update m.bufs (m.rx.desc d).addr pkt
      rx := offerDesc m.rx (UInt16.ofNat d)
      log := m.log ++ [.kernel (.offerRx d pkt)] }
  | .flagsTx flags =>
    { m with
      tx := { m.tx with avail := { m.tx.avail with flags } }
      log := m.log ++ [.kernel (.flagsTx flags)] }
  | .kickTx => { m with log := m.log ++ [.kernel .kickTx] }
  | .kickRx => { m with log := m.log ++ [.kernel .kickRx] }

/-- A message is put into the transmit buffer `d`, which was taken from the ring, and published. -/
def send (m : Shared) (tx : Vring) (d : UInt16) (pkt : Packet) (notified : Bool) : Shared :=
  { m with
    tx := (vringPublishBuf tx d (UInt32.ofNat packetLenMax) true).1
    bufs := Function.update m.bufs (addrAt tx d) pkt
    log := m.log ++ [.txTake d, .txWrite d pkt, .txPublish d pkt notified] }

def take (m : Shared) (rx : Vring) (d : UInt16) : Shared :=
  { m with rx, log := m.log ++ [.rxTake d (m.bufs (addrAt rx d))] }

/-- A callback is called with the data in the receive buffer `d`, and stores a 0 at the index `zeroAt`. -/
def enter (m : Shared) (d : UInt16) (i : Fin maxRpmsgCh) (zeroAt : Option ℕ) : Shared :=
  { m with
    bufs := zeroAt.elim m.bufs fun k => storeZero (addrAt m.rx d + 16 + UInt32.ofNat k) m.bufs
    log := m.log ++ [.cbCall i] }

def give (m : Shared) (d : UInt16) (notified : Bool) : Shared :=
  { m with
    rx := (vringPublishBuf m.rx d (UInt32.ofNat packetLenMax) false).1
    log := m.log ++ [.rxPublish d notified] }

end Shared

/-- The shared memory, and the receive buffer that the firmware has taken and not yet returned, with
whether a callback was called on it. -/
abbrev Stage : Type := Option (UInt16 × Bool) × Shared

section Steps

variable {κ α : Type} (app : App κ α) (env : Env)

/-- A callback that gets the packet may store a 0 at the index `k` of its data. -/
def Zeroes (pkt : Packet) (k : ℕ) : Prop :=
  ∃ c i a r, app c i pkt.data pkt.len a = some r ∧ r.zeroAt = some k

/-- One step of the kernel or of the firmware. -/
inductive Step : Stage → Stage → Prop
  | kernel (held : Option (UInt16 × Bool)) (m : Shared) (a : KernelAct) : Step (held, m) (held, m.act a)
  | send {m : Shared} {tx : Vring} {d : UInt16} (held : Option (UInt16 × Bool)) (pkt : Packet)
    (notified : Bool) (hg : vringGetBuf m.tx = (some d, tx)) (hd : d.toNat < vringSize) :
    Step (held, m) (held, m.send tx d pkt notified)
  | take {m : Shared} {rx : Vring} {d : UInt16} (hg : vringGetBuf m.rx = (some d, rx))
    (hd : d.toNat < vringSize) : Step (none, m) (some (d, false), m.take rx d)
  | enter {m : Shared} {d : UInt16} {zeroAt : Option ℕ} (i : Fin maxRpmsgCh)
    (hz : ∀ k, zeroAt = some k → Zeroes app (m.bufs (addrAt m.rx d)) k) :
    Step (some (d, false), m) (some (d, true), m.enter d i zeroAt)
  | leave (d : UInt16) (m : Shared) (i : Fin maxRpmsgCh) :
    Step (some (d, true), m) (some (d, true), { m with log := m.log ++ [.cbReturn i] })
  | give {d : UInt16} (m : Shared) (called notified : Bool) (hd : d.toNat < vringSize) :
    Step (some (d, called), m) (none, m.give d notified)

abbrev Reaches : Stage → Stage → Prop := ReflTransGen (Step app)

theorem Reaches.keep {app : App κ α} {P : Stage → Prop} {c c' : Stage} (h : Reaches app c c')
    (hstep : ∀ c c', Step app c c' → P c → P c') (hc : P c) : P c' := by
  induction h with
  | refl => exact hc
  | tail _ hs ih => exact hstep _ _ hs ih

end Steps

/-! ### The functions of the transport -/

section Functions

variable {κ α : Type} {app : App κ α} {env : Env} {held : Option (UInt16 × Bool)} {s s' : Fw κ α}

/-- The shared memory of the firmware. -/
def shared (s : Fw κ α) : Shared := ⟨s.tx, s.rx, s.bufs, s.log⟩

lemma shared_act (s : Fw κ α) (a : KernelAct) : shared (s.act a) = (shared s).act a := by
  cases a <;> rfl

lemma reaches_acts (s : Fw κ α) (as : List KernelAct) :
    Reaches app (held, shared s) (held, shared (s.acts as)) := by
  induction as generalizing s with
  | nil => exact .refl
  | cons a as ih =>
    have ha : Step app (held, shared s) (held, shared (s.act a)) := by
      rw [shared_act]
      exact .kernel held (shared s) a
    exact .head ha (ih (s.act a))

lemma reaches_look (s : Fw κ α) : Reaches app (held, shared s) (held, shared (s.look env)) :=
  reaches_acts s (env s.time).flatten

lemma shared_txvringTask (s : Fw κ α) : shared (txvringTask s).2 = shared s := by
  unfold txvringTask
  split <;> rfl

/-! #### Sending -/

/-- **An attempt to send** publishes a message, or changes nothing. -/
lemma reaches_sendMessage {src dst : UInt32} {data : List UInt8} {ret : ℕ}
    (hs : sendMessage src dst data s = .ok (ret, s')) :
    Reaches app (held, shared s) (held, shared s') := by
  unfold sendMessage at hs
  split at hs
  · obtain ⟨-, rfl⟩ := Prod.mk.inj (Except.ok.inj hs)
    exact .refl
  · rename_i idx tx hg
    split at hs
    · rename_i hidx
      simp only [Except.ok.injEq, Prod.mk.injEq] at hs
      obtain ⟨-, rfl⟩ := hs
      set pkt := fillPacket (s.bufs (tx.desc ⟨idx.toNat, hidx⟩).addr) src dst data
      have hstep : Step app (held, shared s) _ := .send held pkt
        (vringPublishBuf tx idx (UInt32.ofNat packetLenMax) true).2 hg hidx
      convert ReflTransGen.single hstep using 2
      simp [shared, Shared.send, Fw.emit, addrAt_of_lt hidx, pkt]
    · cases hs

lemma reaches_sendLoop {src dst : UInt32} {data : List UInt8} {ass : List (List KernelAct)}
    (hs : sendLoop src dst data ass s = .ok s') : Reaches app (held, shared s) (held, shared s') := by
  induction ass generalizing s with
  | nil => cases hs
  | cons as rest ih =>
    rw [sendLoop] at hs
    refine (reaches_acts s as).trans ?_
    split at hs
    · cases hs
    · rename_i t hm
      obtain rfl := Except.ok.inj hs
      exact reaches_sendMessage hm
    · rename_i t hm
      have hrest := ih hs
      rw [shared_txvringTask] at hrest
      exact (reaches_sendMessage hm).trans hrest

lemma reaches_blockSendMessage {src dst : UInt32} {data : List UInt8}
    (hs : blockSendMessage env src dst data s = .ok s') :
    Reaches app (held, shared s) (held, shared s') :=
  reaches_sendLoop (s := { s with time := s.time + 1 }) hs

lemma reaches_rpmsgSend {ch : Option (Fin maxRpmsgCh)} {data : List UInt8}
    (hs : rpmsgSend env ch data s = .ok s') : Reaches app (held, shared s) (held, shared s') := by
  unfold rpmsgSend at hs
  split at hs
  · exact Except.ok.inj hs ▸ .refl
  · split at hs
    · exact Except.ok.inj hs ▸ .refl
    · exact reaches_blockSendMessage hs

lemma reaches_rpmsgSends {sends : List (Option (Fin maxRpmsgCh) × List UInt8)}
    (hs : rpmsgSends env sends s = .ok s') : Reaches app (held, shared s) (held, shared s') := by
  induction sends generalizing s with
  | nil => exact Except.ok.inj hs ▸ .refl
  | cons p rest ih =>
    obtain ⟨t, ht, hr⟩ := bind_eq_ok.1 hs
    exact (reaches_rpmsgSend ht).trans (ih hr)

/-! #### Receiving -/

lemma reaches_callCb {d : UInt16} {c : κ} {i : Fin maxRpmsgCh} {pkt : Packet}
    (hp : pkt = s.bufs (addrAt s.rx d)) (hs : callCb app env c i (addrAt s.rx d) pkt s = .ok s') :
    Reaches app (some (d, false), shared s) (some (d, true), shared s') := by
  unfold callCb at hs
  simp only at hs
  split at hs
  · cases hs
  rename_i r hr
  obtain ⟨t, ht, hs⟩ := bind_eq_ok.1 hs
  obtain rfl := Except.ok.inj hs
  have hz : ∀ k, r.zeroAt = some k → Zeroes app (s.bufs (addrAt s.rx d)) k := fun k hk =>
    ⟨c, i, s.app, r, hp ▸ hr, hk⟩
  have hleave : Step app (some (d, true), shared t) (some (d, true), shared (t.emit (.cbReturn i))) :=
    .leave d (shared t) i
  have hsent : Reaches app (some (d, true), (shared s).enter d i r.zeroAt) (some (d, true), shared t) :=
    reaches_rpmsgSends ht
  exact (ReflTransGen.head (.enter i hz) hsent).tail hleave

lemma reaches_deliver {d : UInt16} {pkt : Packet} {is : List (Fin maxRpmsgCh)}
    (hp : pkt = s.bufs (addrAt s.rx d))
    (hs : deliver app env (addrAt s.rx d) pkt is s = .ok s') :
    ∃ called, Reaches app (some (d, false), shared s) (some (d, called), shared s') := by
  induction is generalizing s with
  | nil => exact ⟨false, Except.ok.inj hs ▸ .refl⟩
  | cons i rest ih =>
    rw [deliver] at hs
    simp only at hs
    split at hs
    · set t : Fw κ α := { s with
        channels := Function.update s.channels i
          { s.channels i with remoteAddr := pkt.src, state := .up } }
      have ht : shared t = shared s := rfl
      rw [← ht]
      split at hs
      · exact ⟨true, reaches_callCb (s := t) hp hs⟩
      · exact ih (s := t) hp hs
    · exact ih hp hs

/-- **A call of `read_message`** takes a buffer, delivers its packet and returns the buffer. -/
lemma reaches_readMessage (hs : readMessage app env s = .ok s') :
    Reaches app (none, shared s) (none, shared s') := by
  unfold readMessage at hs
  simp only at hs
  have hlook : Reaches app (none, shared s) (none, shared (s.look env)) := reaches_look s
  refine hlook.trans ?_
  split at hs
  · exact Except.ok.inj hs ▸ .refl
  · rename_i index rx hg
    split at hs
    · rename_i hidx
      obtain ⟨t, ht, hs⟩ := bind_eq_ok.1 hs
      obtain rfl := Except.ok.inj hs
      rw [← addrAt_of_lt hidx] at ht
      set u : Fw κ α := ({ s.look env with rx }.emit
        (.rxTake index ((s.look env).bufs (addrAt rx index))))
      have htake : Step app (none, shared (s.look env)) (some (index, false), shared u) :=
        .take hg hidx
      obtain ⟨called, hdeliver⟩ := reaches_deliver (s := u) rfl ht
      exact (ReflTransGen.head htake hdeliver).tail (.give (shared t) called _ hidx)
    · cases hs

lemma kept_reaches (c : Stage) : Kept app env fun s => Reaches app c (none, shared s) where
  look s h := h.trans (reaches_look s)
  txKick _ _ h := h
  rxKick _ _ h := h
  read _ _ h hs := h.trans (reaches_readMessage hs)

lemma reaches_rpmsgPoll {rounds ret : ℕ} (hs : rpmsgPoll app env rounds s = .ok (ret, s')) :
    Reaches app (none, shared s) (none, shared s') :=
  (kept_reaches (none, shared s)).rpmsgPoll .refl hs

lemma reaches_rpmsgCreateCh {name : CStr} {cb : Option κ} {ch : Option (Fin maxRpmsgCh)}
    (hs : rpmsgCreateCh env name cb s = .ok (ch, s')) :
    Reaches app (held, shared s) (held, shared s') := by
  unfold rpmsgCreateCh at hs
  split at hs
  · obtain ⟨-, rfl⟩ := Prod.mk.inj (Except.ok.inj hs)
    exact .refl
  · obtain ⟨t, ht, hs⟩ := bind_eq_ok.1 hs
    obtain ⟨-, rfl⟩ := Prod.mk.inj (Except.ok.inj hs)
    exact reaches_blockSendMessage (s := { s with
      nextRpmsgAddr := s.nextRpmsgAddr + 1
      channels := _ }) ht

lemma reaches_step {c : Call κ} (hs : step app env s c = some s') :
    Reaches app (none, shared s) (none, shared s') := by
  have hc := toOption_eq_some.1 hs
  cases c with
  | create name cb =>
    obtain ⟨⟨ch, t⟩, ht, hc⟩ := bind_eq_ok.1 hc
    obtain rfl := Except.ok.inj hc
    exact reaches_rpmsgCreateCh ht
  | send ch data => exact reaches_rpmsgSend hc
  | poll rounds =>
    obtain ⟨⟨ret, t⟩, ht, hc⟩ := bind_eq_ok.1 hc
    obtain rfl := Except.ok.inj hc
    exact reaches_rpmsgPoll ht

/-- **A run of calls of the transport is a sequence of steps.** -/
theorem steps_run {calls : List (Call κ)} (hr : run (step app env) s calls = some s') :
    Reaches app (none, shared s) (none, shared s') :=
  run_invariant (P := fun t => Reaches app (none, shared s) (none, shared t))
    (fun _ _ _ h hs => h.trans (reaches_step hs)) .refl hr

end Functions

end CfgMgmt.Firmware.Steps
