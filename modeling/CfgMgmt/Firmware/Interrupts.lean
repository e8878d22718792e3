import CfgMgmt.Firmware.Buffers

/-!
# When the kernel is woken

The kernel sets the lowest bit of `avail->flags` when it does not want to be notified of buffers that are
returned.  `vring_publish_buf` shifts 1 by `VRING_AVAIL_F_NO_INTERRUPT`, which is the mask already, and so
tests the next bit.  It does what the kernel asked for exactly when the two bits are equal.
-/

namespace CfgMgmt.Firmware.Interrupts

open CfgMgmt.Lib.Bytes CfgMgmt.Lib.Machine CfgMgmt.Msg
open CfgMgmt.Firmware.VirtioRing CfgMgmt.Firmware.Remoteproc CfgMgmt.Firmware.Buffers

/-! ### The flags in a history -/

/-- `avail->flags` of the transmit ring after one event. -/
def flagsNext (flags : UInt16) : Ev → Option UInt16
  | .kernel (.flagsTx flags') => some flags'
  | _ => some flags

/-- The kernel is notified of a message unless it has set the flag, and never of a receive buffer. -/
def Honoured (flags : UInt16) : Ev → Prop
  | .txPublish _ _ notified => notified = true ↔ flags &&& vringAvailFNoInterrupt = 0
  | .rxPublish _ notified => notified = false
  | _ => True

/-- When a message is published, the flag and the bit behind it are equal. -/
def SameBits (flags : UInt16) : Ev → Prop
  | .txPublish _ _ _ =>
    flags &&& vringAvailFNoInterrupt = 0 ↔ flags &&& (1 <<< vringAvailFNoInterrupt) = 0
  | _ => True

def Tested (flags : UInt16) : Ev → Prop
  | .txPublish _ _ notified => notified = true ↔ flags &&& (1 <<< vringAvailFNoInterrupt) = 0
  | .rxPublish _ notified => notified = false
  | _ => True

instance (flags : UInt16) : DecidablePred (Honoured flags)
  | .txPublish _ _ notified =>
    inferInstanceAs (Decidable (notified = true ↔ flags &&& vringAvailFNoInterrupt = 0))
  | .rxPublish _ notified => inferInstanceAs (Decidable (notified = false))
  | .kernel _ => .isTrue trivial
  | .rxTake .. => .isTrue trivial
  | .cbCall _ => .isTrue trivial
  | .cbReturn _ => .isTrue trivial
  | .txTake _ => .isTrue trivial
  | .txWrite .. => .isTrue trivial

instance (flags : UInt16) : DecidablePred (SameBits flags)
  | .txPublish .. => inferInstanceAs (Decidable
    (flags &&& vringAvailFNoInterrupt = 0 ↔ flags &&& (1 <<< vringAvailFNoInterrupt) = 0))
  | .rxPublish .. => .isTrue trivial
  | .kernel _ => .isTrue trivial
  | .rxTake .. => .isTrue trivial
  | .cbCall _ => .isTrue trivial
  | .cbReturn _ => .isTrue trivial
  | .txTake _ => .isTrue trivial
  | .txWrite .. => .isTrue trivial

lemma honoured_iff {flags : UInt16} {e : Ev} (h : Tested flags e) : Honoured flags e ↔ SameBits flags e := by
  cases e with
  | txPublish d pkt notified =>
    have ht : notified = true ↔ flags &&& (1 <<< vringAvailFNoInterrupt) = 0 := h
    exact ⟨fun hh => hh.symm.trans ht, fun hs => ht.trans hs.symm⟩
  | rxPublish d notified => exact iff_of_true h trivial
  | _ => exact Iff.rfl

/-! ### What every function keeps -/

/-- What the firmware has tested is what the flags were, from `flags` on. -/
structure Tracked {κ α : Type} (flags : UInt16) (s : Fw κ α) : Prop where
  notify : s.tx.notify = true
  current : run flagsNext flags s.log = some s.tx.avail.flags
  tested : Steps flagsNext Tested flags s.log

section Functions

variable {κ α : Type} {app : App κ α} {env : Env} {flags : UInt16} {s s' : Fw κ α}

lemma Tracked.of_eq (h : Tracked flags s) (hlog : s'.log = s.log) (htx : s'.tx = s.tx) :
    Tracked flags s' :=
  ⟨htx ▸ h.notify, by rw [hlog, htx]; exact h.current, hlog ▸ h.tested⟩

lemma Tracked.emit (h : Tracked flags s) (e : Ev)
    (hn : flagsNext s.tx.avail.flags e = some s'.tx.avail.flags) (ht : Tested s.tx.avail.flags e)
    (hnotify : s'.tx.notify = s.tx.notify) (hlog : s'.log = s.log ++ [e]) : Tracked flags s' := by
  refine ⟨hnotify.trans h.notify, ?_, ?_⟩
  · rw [hlog]
    exact run_concat_eq_some.2 ⟨_, h.current, hn⟩
  · rw [hlog]
    refine steps_append.2 ⟨h.tested, fun flags' hr => ?_⟩
    obtain rfl := Option.some.inj (h.current.symm.trans hr)
    exact ⟨ht, fun _ _ => trivial⟩

lemma Tracked.act (h : Tracked flags s) (a : KernelAct) : Tracked flags (s.act a) := by
  cases a with
  | flagsTx flags' => exact h.emit (.kernel (.flagsTx flags')) rfl trivial rfl rfl
  | offerTx d => exact h.emit (.kernel (.offerTx d)) rfl trivial rfl rfl
  | offerRx d pkt => exact h.emit (.kernel (.offerRx d pkt)) rfl trivial rfl rfl
  | kickTx => exact h.emit (.kernel .kickTx) rfl trivial rfl rfl
  | kickRx => exact h.emit (.kernel .kickRx) rfl trivial rfl rfl

lemma Tracked.acts (h : Tracked flags s) (as : List KernelAct) : Tracked flags (s.acts as) := by
  induction as generalizing s with
  | nil => exact h
  | cons a as ih => exact ih (h.act a)

lemma Tracked.look (h : Tracked flags s) : Tracked flags (s.look env) :=
  (h.acts (env s.time).flatten).of_eq rfl rfl

lemma Tracked.txvringTask (h : Tracked flags s) : Tracked flags (txvringTask s).2 := by
  unfold Remoteproc.txvringTask
  split
  · exact h.of_eq rfl rfl
  · exact h

lemma vringGetBuf_keeps {vr vr' : Vring} {d : Option UInt16} (hg : vringGetBuf vr = (d, vr')) :
    vr'.avail = vr.avail ∧ vr'.notify = vr.notify := by
  by_cases he : vr.avail.availIdx = vr.availTail
  · rw [vringGetBuf_of_eq vr he] at hg
    obtain ⟨-, rfl⟩ := Prod.mk.inj hg
    exact ⟨rfl, rfl⟩
  · rw [vringGetBuf_of_ne vr he] at hg
    obtain ⟨-, rfl⟩ := Prod.mk.inj hg
    exact ⟨rfl, rfl⟩

lemma vringPublishBuf_notify {vr : Vring} {idx : UInt16} (len : UInt32) (kick : Bool)
    (h : idx.toNat < vringSize) : (vringPublishBuf vr idx len kick).1.notify = vr.notify := by
  simp [vringPublishBuf, h.not_gt, pushUsed, clearDesc_of_lt h]

lemma vringPublishBuf_notified (vr : Vring) {idx : UInt16} (len : UInt32) (kick : Bool)
    (h : idx.toNat < vringSize) : (vringPublishBuf vr idx len kick).2 =
      (kick && vr.notify && vr.avail.flags &&& (1 <<< vringAvailFNoInterrupt) == 0) := by
  simp [vringPublishBuf, h.not_gt, pushUsed, clearDesc_of_lt h]

/-! #### Sending -/

/-- An attempt to send publishes one message, or changes nothing. -/
lemma sendMessage_publishes {src dst : UInt32} {data : List UInt8} {ret : ℕ}
    (hs : sendMessage src dst data s = .ok (ret, s')) :
    s' = s ∨ ∃ idx pkt, s'.log = s.log ++ [.txTake idx] ++ [.txWrite idx pkt] ++
        [.txPublish idx pkt (s.tx.notify && s.tx.avail.flags &&& (1 <<< vringAvailFNoInterrupt) == 0)] ∧
      s'.tx.avail = s.tx.avail ∧ s'.tx.notify = s.tx.notify := by
  unfold Remoteproc.sendMessage at hs
  split at hs
  · exact .inl (Prod.mk.inj (Except.ok.inj hs)).2.symm
  · rename_i idx tx hg
    obtain ⟨havail, hnotify⟩ := vringGetBuf_keeps hg
    split at hs
    · rename_i hidx
      simp only [Except.ok.injEq, Prod.mk.injEq] at hs
      obtain ⟨-, rfl⟩ := hs
      set pkt := fillPacket (s.bufs (tx.desc ⟨idx.toNat, hidx⟩).addr) src dst data
      refine .inr ⟨idx, pkt, ?_, ?_, ?_⟩
      · have hpub := vringPublishBuf_notified tx (UInt32.ofNat packetLenMax) true hidx
        rw [havail, hnotify, Bool.true_and] at hpub
        rw [← hpub]
        simp [Fw.emit, pkt]
      · exact (vringPublishBuf_avail _ _ hidx).trans havail
      · exact (vringPublishBuf_notify _ _ hidx).trans hnotify
    · cases hs

lemma Tracked.sendMessage {src dst : UInt32} {data : List UInt8} {ret : ℕ} (h : Tracked flags s)
    (hs : sendMessage src dst data s = .ok (ret, s')) : Tracked flags s' := by
  rcases sendMessage_publishes hs with rfl | ⟨idx, pkt, hlog, havail, hnotify⟩
  · exact h
  · have h₁ : Tracked flags (s.emit (.txTake idx)) := h.emit (.txTake idx) rfl trivial rfl rfl
    have h₂ : Tracked flags ((s.emit (.txTake idx)).emit (.txWrite idx pkt)) :=
      h₁.emit (.txWrite idx pkt) rfl trivial rfl rfl
    have hflags : flagsNext s.tx.avail.flags (.txPublish idx pkt (s.tx.notify &&
        s.tx.avail.flags &&& (1 <<< vringAvailFNoInterrupt) == 0)) = some s'.tx.avail.flags := by
      rw [havail]
      rfl
    refine h₂.emit _ hflags ?_ hnotify hlog
    show (s.tx.notify && s.tx.avail.flags &&& (1 <<< vringAvailFNoInterrupt) == 0) = true ↔ _
    rw [h.notify, Bool.true_and, beq_iff_eq]
    rfl

lemma Tracked.sendLoop {src dst : UInt32} {data : List UInt8} {ass : List (List KernelAct)}
    (h : Tracked flags s) (hs : sendLoop src dst data ass s = .ok s') : Tracked flags s' := by
  induction ass generalizing s with
  | nil => cases hs
  | cons as rest ih =>
    rw [Remoteproc.sendLoop] at hs
    split at hs
    · cases hs
    · rename_i t hm
      obtain rfl := Except.ok.inj hs
      exact (h.acts as).sendMessage hm
    · rename_i t hm
      exact ih ((h.acts as).sendMessage hm).txvringTask hs

lemma Tracked.blockSendMessage {src dst : UInt32} {data : List UInt8} (h : Tracked flags s)
    (hs : blockSendMessage env src dst data s = .ok s') : Tracked flags s' := by
  refine Tracked.sendLoop ?_ hs
  exact h.of_eq rfl rfl

lemma Tracked.rpmsgSend {ch : Option (Fin maxRpmsgCh)} {data : List UInt8} (h : Tracked flags s)
    (hs : rpmsgSend env ch data s = .ok s') : Tracked flags s' := by
  unfold Remoteproc.rpmsgSend at hs
  split at hs
  · exact Except.ok.inj hs ▸ h
  · split at hs
    · exact Except.ok.inj hs ▸ h
    · exact h.blockSendMessage hs

lemma Tracked.rpmsgSends {sends : List (Option (Fin maxRpmsgCh) × List UInt8)} (h : Tracked flags s)
    (hs : rpmsgSends env sends s = .ok s') : Tracked flags s' := by
  induction sends generalizing s with
  | nil => exact Except.ok.inj hs ▸ h
  | cons p rest ih =>
    obtain ⟨t, ht, hr⟩ := bind_eq_ok.1 hs
    exact ih (h.rpmsgSend ht) hr

/-! #### Receiving -/

lemma Tracked.callCb {c : κ} {i : Fin maxRpmsgCh} {addr : UInt32} {pkt : Packet} (h : Tracked flags s)
    (hs : callCb app env c i addr pkt s = .ok s') : Tracked flags s' := by
  unfold Remoteproc.callCb at hs
  simp only at hs
  split at hs
  · cases hs
  obtain ⟨t, ht, hs⟩ := bind_eq_ok.1 hs
  obtain rfl := Except.ok.inj hs
  have hcall : Tracked flags (s.emit (.cbCall i)) := h.emit (.cbCall i) rfl trivial rfl rfl
  have hsent : Tracked flags t := by
    refine Tracked.rpmsgSends ?_ ht
    exact hcall.of_eq rfl rfl
  exact hsent.emit (.cbReturn i) rfl trivial rfl rfl

lemma Tracked.deliver {addr : UInt32} {pkt : Packet} {is : List (Fin maxRpmsgCh)} (h : Tracked flags s)
    (hs : deliver app env addr pkt is s = .ok s') : Tracked flags s' := by
  induction is generalizing s with
  | nil => exact Except.ok.inj hs ▸ h
  | cons i rest ih =>
    have hch : ∀ chs, Tracked flags { s with channels := chs } := fun chs => h.of_eq rfl rfl
    rw [Remoteproc.deliver] at hs
    simp only at hs
    split at hs
    · split at hs
      · exact (hch _).callCb hs
      · exact ih (hch _) hs
    · exact ih h hs

lemma Tracked.readMessage (h : Tracked flags s) (hs : readMessage app env s = .ok s') :
    Tracked flags s' := by
  unfold Remoteproc.readMessage at hs
  simp only at hs
  split at hs
  · exact Except.ok.inj hs ▸ h.look
  · rename_i index rx hg
    have hl : Tracked flags (s.look env) := h.look
    split at hs
    · rename_i hidx
      obtain ⟨t, ht, hs⟩ := bind_eq_ok.1 hs
      obtain rfl := Except.ok.inj hs
      have htake : ∀ pkt, Tracked flags (({ s.look env with rx }).emit (.rxTake index pkt)) :=
        fun pkt => hl.emit (.rxTake index pkt) rfl trivial rfl rfl
      refine ((htake _).deliver ht).emit (.rxPublish index _) rfl ?_ rfl rfl
      exact vringPublishBuf_notified _ (UInt32.ofNat packetLenMax) false hidx
    · cases hs

lemma kept_tracked : Kept app env (Tracked flags) where
  look _ h := h.look
  txKick _ _ h := h.of_eq rfl rfl
  rxKick _ _ h := h.of_eq rfl rfl
  read _ _ h := h.readMessage

lemma Tracked.rpmsgCreateCh {name : CStr} {cb : Option κ} {ch : Option (Fin maxRpmsgCh)}
    (h : Tracked flags s) (hs : rpmsgCreateCh env name cb s = .ok (ch, s')) : Tracked flags s' := by
  unfold Remoteproc.rpmsgCreateCh at hs
  split at hs
  · obtain ⟨-, rfl⟩ := Prod.mk.inj (Except.ok.inj hs)
    exact h
  · obtain ⟨t, ht, hs⟩ := bind_eq_ok.1 hs
    obtain ⟨-, rfl⟩ := Prod.mk.inj (Except.ok.inj hs)
    refine Tracked.blockSendMessage ?_ ht
    exact h.of_eq rfl rfl

/-! ### Every run -/

lemma Tracked.step {c : Call κ} (h : Tracked flags s) (hs : step app env s c = some s') :
    Tracked flags s' := by
  replace hs := toOption_eq_some.1 hs
  cases c with
  | create name cb =>
    obtain ⟨⟨ch, t⟩, ht, hs⟩ := bind_eq_ok.1 hs
    obtain rfl := Except.ok.inj hs
    exact h.rpmsgCreateCh ht
  | send ch data => exact h.rpmsgSend hs
  | poll rounds =>
    obtain ⟨⟨ret, t⟩, ht, hs⟩ := bind_eq_ok.1 hs
    obtain rfl := Except.ok.inj hs
    exact kept_tracked.rpmsgPoll h ht

lemma tracked_init (hlog : s.log = []) : Tracked s.tx.avail.flags (remoteprocInit s) where
  notify := rfl
  current := by
    show run flagsNext _ s.log = _
    rw [hlog]
    rfl
  tested := by
    show Steps flagsNext Tested _ s.log
    rw [hlog]
    trivial

/-- **The flag of the kernel is honoured exactly when the bit behind it is the same**, whenever a message
is published: in every run of the calls of the transport, with any callbacks and any behaviour of the
kernel. -/
theorem honoured_run_iff (app : App κ α) (env : Env) {s s' : Fw κ α} (hlog : s.log = [])
    {calls : List (Call κ)} (hr : run (step app env) (remoteprocInit s) calls = some s') :
    Steps flagsNext Honoured s.tx.avail.flags s'.log ↔ Steps flagsNext SameBits s.tx.avail.flags s'.log := by
  have ht := (run_invariant (fun _ _ _ => Tracked.step) (tracked_init hlog) hr).tested
  constructor
  · exact fun h => (ht.and h).mono fun _ _ hh => (honoured_iff hh.1).1 hh.2
  · exact fun h => (ht.and h).mono fun _ _ hh => (honoured_iff hh.1).2 hh.2

end Functions

/-- The firmware announces a channel while the flags are `flags`. -/
def announce (flags : UInt16) : Option (Fw Unit Unit) :=
  run (step (fun _ _ _ _ _ => none) fun _ => [[.flagsTx flags, .offerTx 0]]) (remoteprocInit (.loaded ()))
    [.create .empty none]

set_option maxRecDepth 20000 in
/-- The flag is honoured when both bits are set. -/
theorem bothBits_honoured : ∃ s, announce 3 = some s ∧ Steps flagsNext Honoured 0 s.log := by
  have hrun : ((announce 3).any fun s => decide (Steps flagsNext SameBits 0 s.log)) = true := by
    decide +kernel
  obtain ⟨s, hr, hbits⟩ := (Option.any_eq_true ..).1 hrun
  exact ⟨s, hr, (honoured_run_iff _ _ (s := .loaded ()) rfl hr).2 (of_decide_eq_true hbits)⟩

set_option maxRecDepth 20000 in
/-- **The kernel is notified although it has set the flag.** -/
theorem flagSet_notified : ∃ s, announce 1 = some s ∧ ¬ Steps flagsNext Honoured 0 s.log := by
  have hrun : ((announce 1).any fun s => decide (¬ Steps flagsNext Honoured 0 s.log)) = true := by
    decide +kernel
  obtain ⟨s, hr, hnot⟩ := (Option.any_eq_true ..).1 hrun
  exact ⟨s, hr, of_decide_eq_true hnot⟩

end CfgMgmt.Firmware.Interrupts
