import CfgMgmt.Firmware.Remoteproc
import CfgMgmt.Lib.Machine

/-!
# No buffer is lost, none is returned twice

`Hold` is a monitor of the transport's history: it knows which buffers the firmware holds and what it
may do with them next.  `Accounted` is what holds whenever a call of the transport has returned: the
monitor has accepted the whole history and the firmware holds nothing.
-/

namespace CfgMgmt.Firmware.Buffers

open CfgMgmt.Lib.Bytes CfgMgmt.Lib.Ring CfgMgmt.Lib.Machine CfgMgmt.Msg
open CfgMgmt.Firmware.VirtioRing CfgMgmt.Firmware.Remoteproc

/-! ### The monitor -/

/-- The buffers the firmware has taken and not yet returned. -/
structure Hold where
  /-- the receive buffer, and whether a callback runs on it -/
  rx : Option (UInt16 × Bool)
  /-- the transmit buffer, and what it holds once it is complete -/
  tx : Option (UInt16 × Option Packet)
  deriving DecidableEq

namespace Hold

def empty : Hold := ⟨none, none⟩

/-- What may happen next: a transmit buffer is published when it is complete, a receive buffer when
no callback runs on it and no message is half sent. -/
def next : Hold → Ev → Option Hold
  | h, .kernel _ => some h
  | ⟨none, none⟩, .rxTake d _ => some ⟨some (d, false), none⟩
  | ⟨some (d, false), none⟩, .cbCall _ => some ⟨some (d, true), none⟩
  | ⟨some (d, true), none⟩, .cbReturn _ => some ⟨some (d, false), none⟩
  | ⟨some (d, false), none⟩, .rxPublish d' _ => if d = d' then some empty else none
  | ⟨r, none⟩, .txTake d => some ⟨r, some (d, none)⟩
  | ⟨r, some (d, none)⟩, .txWrite d' pkt => if d = d' then some ⟨r, some (d, some pkt)⟩ else none
  | ⟨r, some (d, some pkt)⟩, .txPublish d' pkt' _ =>
    if d = d' ∧ pkt = pkt' then some ⟨r, none⟩ else none
  | _, _ => none

end Hold

/-- The receive buffers a history takes, and those it returns. -/
def rxTaken (log : List Ev) : List UInt16 :=
  log.filterMap fun | .rxTake d _ => some d | _ => none

def rxReturned (log : List Ev) : List UInt16 :=
  log.filterMap fun | .rxPublish d _ => some d | _ => none

/-- The transmit buffers a history takes, and those it returns. -/
def txTaken (log : List Ev) : List UInt16 :=
  log.filterMap fun | .txTake d => some d | _ => none

def txReturned (log : List Ev) : List UInt16 :=
  log.filterMap fun | .txPublish d _ _ => some d | _ => none

/-- One step of the monitor keeps what is taken and not returned. -/
lemma taken_next {h h' : Hold} {e : Ev} (hn : h.next e = some h') :
    h.rx.toList.map Prod.fst ++ rxTaken [e] = rxReturned [e] ++ h'.rx.toList.map Prod.fst ∧
      h.tx.toList.map Prod.fst ++ txTaken [e] = txReturned [e] ++ h'.tx.toList.map Prod.fst := by
  unfold Hold.next at hn
  split at hn
  case h_9 => cases hn
  -- the events that name a buffer are accepted for the buffer that is held
  case h_5 | h_7 | h_8 =>
    obtain ⟨h1, h2⟩ := Option.ite_none_right_eq_some.1 hn
    obtain rfl := Option.some.inj h2
    first
    | obtain rfl := h1
    | obtain ⟨rfl, rfl⟩ := h1
    exact ⟨List.append_nil _, rfl⟩
  all_goals
    obtain rfl := Option.some.inj hn
    first
    | exact ⟨rfl, rfl⟩
    | exact ⟨List.append_nil _, rfl⟩
    | exact ⟨List.append_nil _, List.append_nil _⟩

/-- **What an accepted history takes is what it returns**, up to what is still held. -/
lemma taken_run {h h' : Hold} {log : List Ev} (hr : run Hold.next h log = some h') :
    h.rx.toList.map Prod.fst ++ rxTaken log = rxReturned log ++ h'.rx.toList.map Prod.fst ∧
      h.tx.toList.map Prod.fst ++ txTaken log = txReturned log ++ h'.tx.toList.map Prod.fst := by
  induction log generalizing h with
  | nil =>
    obtain rfl := Option.some.inj hr
    simp [rxTaken, rxReturned, txTaken, txReturned]
  | cons e es ih =>
    obtain ⟨t, ht, hr⟩ := run_cons_eq_some.1 hr
    obtain ⟨hrx, htx⟩ := taken_next ht
    obtain ⟨ihr, iht⟩ := ih hr
    have happ : ∀ f : Ev → Option UInt16, (e :: es).filterMap f = [e].filterMap f ++ es.filterMap f :=
      fun f => by rw [← List.filterMap_append, List.singleton_append]
    simp only [rxTaken, rxReturned, txTaken, txReturned, happ _] at *
    constructor
    · rw [← List.append_assoc, hrx, List.append_assoc, ihr, List.append_assoc]
    · rw [← List.append_assoc, htx, List.append_assoc, iht, List.append_assoc]

/-! ### The rings -/

/-- Every unread entry of the available ring is the index of a descriptor. -/
def Offered (vr : Vring) : Prop :=
  ∀ k < pending (2 ^ 16) vr.availTail.toNat vr.avail.availIdx.toNat,
    (vr.avail.ring (slot vringSize (vr.availTail.toNat + k))).toNat < vringSize

section Rings

variable {vr vr' : Vring} {d : UInt16}

lemma offered_offerDesc (h : Offered vr) (hd : d.toNat < vringSize) :
    Offered (offerDesc vr d) := by
  intro k hk
  have ht : vr.availTail.toNat < 2 ^ 16 := UInt16.toNat_lt_size _
  have hh : vr.avail.availIdx.toNat < 2 ^ 16 := UInt16.toNat_lt_size _
  simp only [offerDesc, UInt16.toNat_add, UInt16.reduceToNat] at hk ⊢
  by_cases hs : slot vringSize (vr.availTail.toNat + k) = slot vringSize vr.avail.availIdx.toNat
  · simpa [hs] using hd
  · rw [Function.update_of_ne hs]
    refine h k ?_
    have hle := pending_head_succ_le ht hh
    have hne : k ≠ pending (2 ^ 16) vr.availTail.toNat vr.avail.availIdx.toNat := by
      rintro rfl
      exact hs (slot_head (by decide) ht hh).symm
    omega

/-- A buffer that `vring_get_buf` returns is a descriptor, and leaves the unread entries. -/
lemma offered_getBuf (h : Offered vr) (hg : vringGetBuf vr = (some d, vr')) :
    d.toNat < vringSize ∧ Offered vr' ∧ vr'.availTail = vr.availTail + 1 ∧ vr'.used = vr.used := by
  have ht : vr.availTail.toNat < 2 ^ 16 := UInt16.toNat_lt_size _
  have hh : vr.avail.availIdx.toNat < 2 ^ 16 := UInt16.toNat_lt_size _
  by_cases he : vr.avail.availIdx = vr.availTail
  · simp [vringGetBuf_of_eq vr he] at hg
  · rw [vringGetBuf_of_ne vr he, Prod.mk.injEq, Option.some.injEq] at hg
    obtain ⟨rfl, rfl⟩ := hg
    have hp := pending_tail_succ ht hh fun e => he (UInt16.toNat_inj.1 e)
    refine ⟨h 0 (by omega), fun k hk => ?_, rfl, rfl⟩
    simp only [UInt16.toNat_add, UInt16.reduceToNat] at hk ⊢
    rw [slot_mod_succ (by decide)]
    exact h (k + 1) (by omega)

lemma offered_publishBuf (h : Offered vr) (hd : d.toNat < vringSize) (len : UInt32) (kick : Bool) :
    Offered (vringPublishBuf vr d len kick).1 := by
  unfold Offered
  rw [vringPublishBuf_avail len kick hd, vringPublishBuf_availTail len kick hd]
  exact h

end Rings

/-! ### What every function keeps -/

section Functions

variable {κ α : Type} (app : App κ α) (env : Env)

/-- How far an index is behind because of a held buffer. -/
def count {β : Type} (o : Option β) : UInt16 := if o.isSome then 1 else 0

/-- The firmware holds the buffers `h`. -/
structure Holds (h : Hold) (s : Fw κ α) : Prop where
  log : run Hold.next .empty s.log = some h
  rxIdx : s.rx.availTail = s.rx.used.idx + count h.rx
  txIdx : s.tx.availTail = s.tx.used.idx + count h.tx
  rxOffered : Offered s.rx
  txOffered : Offered s.tx

section Steps

variable {app env} {h : Hold} {s s' : Fw κ α}

lemma log_emit {h' : Hold} {e : Ev} (hl : run Hold.next .empty s.log = some h)
    (hn : h.next e = some h') : run Hold.next .empty (s.emit e).log = some h' :=
  run_concat_eq_some.2 ⟨h, hl, hn⟩

lemma Holds.of_eq (H : Holds h s) (hlog : s'.log = s.log) (hrx : s'.rx = s.rx)
    (htx : s'.tx = s.tx) : Holds h s' :=
  ⟨hlog ▸ H.log, hrx ▸ H.rxIdx, htx ▸ H.txIdx, hrx ▸ H.rxOffered, htx ▸ H.txOffered⟩

lemma Holds.emit {h' : Hold} {e : Ev} (H : Holds h s) (hn : h.next e = some h')
    (hrx : count h.rx = count h'.rx) (htx : count h.tx = count h'.tx) : Holds h' (s.emit e) :=
  ⟨log_emit H.log hn, hrx ▸ H.rxIdx, htx ▸ H.txIdx, H.rxOffered, H.txOffered⟩

lemma next_kernel (h : Hold) (a : KernelAct) : h.next (.kernel a) = some h := by
  unfold Hold.next
  rfl

lemma Holds.act (H : Holds h s) (a : KernelAct) : Holds h (s.act a) := by
  have hlog := log_emit (s := s) H.log (next_kernel h a)
  have hd : ∀ d : Fin vringSize, (UInt16.ofNat d).toNat < vringSize := fun d => by
    rw [UInt16.toNat_ofNat_of_lt' (d.isLt.trans (by decide))]
    exact d.isLt
  cases a with
  | offerTx d => exact ⟨hlog, H.rxIdx, H.txIdx, H.rxOffered, offered_offerDesc H.txOffered (hd d)⟩
  | offerRx d pkt =>
    exact ⟨hlog, H.rxIdx, H.txIdx, offered_offerDesc H.rxOffered (hd d), H.txOffered⟩
  | flagsTx | kickTx | kickRx => exact ⟨hlog, H.rxIdx, H.txIdx, H.rxOffered, H.txOffered⟩

lemma Holds.acts (H : Holds h s) (as : List KernelAct) : Holds h (s.acts as) := by
  induction as generalizing s with
  | nil => exact H
  | cons a as ih => exact ih (H.act a)

lemma Holds.look (H : Holds h s) : Holds h (s.look env) :=
  (H.acts (env s.time).flatten).of_eq rfl rfl rfl

lemma Holds.txvringTask (H : Holds h s) : Holds h (txvringTask s).2 := by
  unfold Remoteproc.txvringTask
  split
  · exact H.of_eq rfl rfl rfl
  · exact H

/-! #### Sending -/

/-- **An attempt to send** takes, fills and publishes one transmit buffer, or changes nothing. -/
lemma Holds.sendMessage {r : Option (UInt16 × Bool)} (H : Holds ⟨r, none⟩ s) {src dst : UInt32}
    {data : List UInt8} {ret : ℕ} (hs : sendMessage src dst data s = .ok (ret, s')) :
    Holds ⟨r, none⟩ s' := by
  unfold Remoteproc.sendMessage at hs
  split at hs
  · simp only [Except.ok.injEq, Prod.mk.injEq] at hs
    exact hs.2 ▸ H
  · rename_i idx tx hg
    obtain ⟨hidx, hoff, htail, hused⟩ := offered_getBuf H.txOffered hg
    rw [dif_pos hidx] at hs
    simp only [Except.ok.injEq, Prod.mk.injEq] at hs
    obtain ⟨-, rfl⟩ := hs
    refine ⟨?_, H.rxIdx, ?_, H.rxOffered, offered_publishBuf hoff hidx _ _⟩
    · set pkt := fillPacket (s.bufs (tx.desc ⟨idx.toNat, hidx⟩).addr) src dst data
      have h1 : run Hold.next .empty (s.log ++ [.txTake idx]) = some ⟨r, some (idx, none)⟩ :=
        log_emit H.log rfl
      have h2 : run Hold.next .empty (s.log ++ [.txTake idx] ++ [.txWrite idx pkt]) =
          some ⟨r, some (idx, some pkt)⟩ :=
        run_concat_eq_some.2 ⟨_, h1, by simp [Hold.next]⟩
      exact run_concat_eq_some.2 ⟨_, h2, by simp [Hold.next, Fw.emit, pkt]⟩
    · have := H.txIdx
      simp only [Fw.emit, vringPublishBuf_availTail _ _ hidx, vringPublishBuf_idx _ _ hidx, htail,
        hused, this, count]
      simp

lemma Holds.sendLoop {r : Option (UInt16 × Bool)} {src dst : UInt32} {data : List UInt8}
    {ass : List (List KernelAct)} (H : Holds ⟨r, none⟩ s)
    (hs : sendLoop src dst data ass s = .ok s') : Holds ⟨r, none⟩ s' := by
  induction ass generalizing s with
  | nil => cases hs
  | cons as rest ih =>
    rw [Remoteproc.sendLoop] at hs
    split at hs
    · cases hs
    · rename_i t hm
      obtain rfl := Except.ok.inj hs
      exact (H.acts as).sendMessage hm
    · rename_i t hm
      exact ih ((H.acts as).sendMessage hm).txvringTask hs

lemma Holds.blockSendMessage {r : Option (UInt16 × Bool)} {src dst : UInt32} {data : List UInt8}
    (H : Holds ⟨r, none⟩ s) (hs : blockSendMessage env src dst data s = .ok s') :
    Holds ⟨r, none⟩ s' := by
  refine Holds.sendLoop ?_ hs
  exact H.of_eq rfl rfl rfl

lemma Holds.rpmsgSend {r : Option (UInt16 × Bool)} {ch : Option (Fin maxRpmsgCh)}
    {data : List UInt8} (H : Holds ⟨r, none⟩ s) (hs : rpmsgSend env ch data s = .ok s') :
    Holds ⟨r, none⟩ s' := by
  unfold Remoteproc.rpmsgSend at hs
  split at hs
  · exact Except.ok.inj hs ▸ H
  · split at hs
    · exact Except.ok.inj hs ▸ H
    · exact H.blockSendMessage hs

lemma Holds.rpmsgSends {r : Option (UInt16 × Bool)}
    {sends : List (Option (Fin maxRpmsgCh) × List UInt8)} (H : Holds ⟨r, none⟩ s)
    (hs : rpmsgSends env sends s = .ok s') : Holds ⟨r, none⟩ s' := by
  induction sends generalizing s with
  | nil => exact Except.ok.inj hs ▸ H
  | cons p rest ih =>
    obtain ⟨t, ht, hr⟩ := bind_eq_ok.1 hs
    exact ih (H.rpmsgSend ht) hr

/-! #### Receiving -/

lemma Holds.callCb {d : UInt16} {c : κ} {i : Fin maxRpmsgCh} {addr : UInt32} {pkt : Packet}
    (H : Holds ⟨some (d, false), none⟩ s) (hs : callCb app env c i addr pkt s = .ok s') :
    Holds ⟨some (d, false), none⟩ s' := by
  unfold Remoteproc.callCb at hs
  simp only at hs
  split at hs
  · cases hs
  obtain ⟨t, ht, hs⟩ := bind_eq_ok.1 hs
  obtain rfl := Except.ok.inj hs
  have hcall : Holds ⟨some (d, true), none⟩ (s.emit (.cbCall i)) := H.emit rfl rfl rfl
  have hsent : Holds ⟨some (d, true), none⟩ t := by
    refine Holds.rpmsgSends ?_ ht
    exact hcall.of_eq rfl rfl rfl
  exact hsent.emit rfl rfl rfl

lemma Holds.deliver {d : UInt16} {addr : UInt32} {pkt : Packet} {is : List (Fin maxRpmsgCh)}
    (H : Holds ⟨some (d, false), none⟩ s) (hs : deliver app env addr pkt is s = .ok s') :
    Holds ⟨some (d, false), none⟩ s' := by
  induction is generalizing s with
  | nil => exact Except.ok.inj hs ▸ H
  | cons i rest ih =>
    have hch : ∀ chs, Holds ⟨some (d, false), none⟩ { s with channels := chs } :=
      fun chs => H.of_eq rfl rfl rfl
    rw [Remoteproc.deliver] at hs
    simp only at hs
    split at hs
    · split at hs
      · exact (hch _).callCb hs
      · exact ih (hch _) hs
    · exact ih H hs

lemma Holds.rxTake {index : UInt16} {rx : Vring} (H : Holds .empty s)
    (hg : vringGetBuf s.rx = (some index, rx)) (pkt : Packet) :
    Holds ⟨some (index, false), none⟩ ({ s with rx }.emit (.rxTake index pkt)) := by
  obtain ⟨-, hoff, htail, hused⟩ := offered_getBuf H.rxOffered hg
  refine ⟨log_emit (s := { s with rx }) H.log rfl, ?_, H.txIdx, hoff, H.txOffered⟩
  simp only [Fw.emit, htail, hused, H.rxIdx, count]
  simp [Hold.empty]

/-- **A call of `read_message`** returns the receive buffer it takes. -/
lemma Holds.readMessage (H : Holds .empty s) (hs : readMessage app env s = .ok s') :
    Holds .empty s' := by
  unfold Remoteproc.readMessage at hs
  simp only at hs
  split at hs
  · exact Except.ok.inj hs ▸ H.look
  · rename_i index rx hg
    have HL : Holds .empty (s.look env) := H.look
    obtain ⟨hidx, -⟩ := offered_getBuf HL.rxOffered hg
    rw [dif_pos hidx] at hs
    obtain ⟨t, ht, hs⟩ := bind_eq_ok.1 hs
    obtain rfl := Except.ok.inj hs
    have HT := (HL.rxTake hg _).deliver ht
    refine ⟨log_emit (s := t) HT.log (by simp [Hold.next]), ?_, HT.txIdx,
      offered_publishBuf HT.rxOffered hidx _ _, HT.txOffered⟩
    have := HT.rxIdx
    simp only [Fw.emit, vringPublishBuf_availTail _ _ hidx, vringPublishBuf_idx _ _ hidx, this,
      count]
    simp [Hold.empty]

lemma kept_holds : Kept app env (Holds .empty) where
  look _ H := H.look
  txKick _ _ H := H.of_eq rfl rfl rfl
  rxKick _ _ H := H.of_eq rfl rfl rfl
  read _ _ H := H.readMessage

lemma Holds.rpmsgCreateCh {name : CStr} {cb : Option κ} {ch : Option (Fin maxRpmsgCh)}
    (H : Holds .empty s) (hs : rpmsgCreateCh env name cb s = .ok (ch, s')) :
    Holds .empty s' := by
  unfold Remoteproc.rpmsgCreateCh at hs
  split at hs
  · obtain ⟨-, rfl⟩ := Prod.mk.inj (Except.ok.inj hs)
    exact H
  · obtain ⟨t, ht, hs⟩ := bind_eq_ok.1 hs
    obtain ⟨-, rfl⟩ := Prod.mk.inj (Except.ok.inj hs)
    refine Holds.blockSendMessage ?_ ht
    exact H.of_eq rfl rfl rfl

/-! #### No access behind the end of a table -/

lemma Holds.sendMessage_ne_fault (H : Holds h s) (src dst : UInt32) (data : List UInt8) :
    Remoteproc.sendMessage src dst data s ≠ .error .fault := by
  unfold Remoteproc.sendMessage
  split
  · exact fun hf => nomatch hf
  · rename_i idx tx hg
    rw [dif_pos (offered_getBuf H.txOffered hg).1]
    exact fun hf => nomatch hf

lemma Holds.sendLoop_ne_fault {r : Option (UInt16 × Bool)} {src dst : UInt32} {data : List UInt8}
    {ass : List (List KernelAct)} (H : Holds ⟨r, none⟩ s) :
    Remoteproc.sendLoop src dst data ass s ≠ .error .fault := by
  induction ass generalizing s with
  | nil => exact fun hf => nomatch hf
  | cons as rest ih =>
    rw [Remoteproc.sendLoop]
    split
    · rename_i e hm
      rintro ⟨⟩
      exact (H.acts as).sendMessage_ne_fault src dst data hm
    · exact fun hf => nomatch hf
    · rename_i t hm
      exact ih ((H.acts as).sendMessage hm).txvringTask

lemma Holds.rpmsgSend_ne_fault {r : Option (UInt16 × Bool)} (H : Holds ⟨r, none⟩ s)
    (ch : Option (Fin maxRpmsgCh)) (data : List UInt8) :
    Remoteproc.rpmsgSend env ch data s ≠ .error .fault := by
  unfold Remoteproc.rpmsgSend
  split
  · exact fun hf => nomatch hf
  · split
    · exact fun hf => nomatch hf
    · refine Holds.sendLoop_ne_fault (r := r) ?_
      exact H.of_eq rfl rfl rfl

lemma Holds.rpmsgSends_ne_fault {r : Option (UInt16 × Bool)}
    {sends : List (Option (Fin maxRpmsgCh) × List UInt8)} (H : Holds ⟨r, none⟩ s) :
    Remoteproc.rpmsgSends env sends s ≠ .error .fault := by
  induction sends generalizing s with
  | nil => exact fun hf => nomatch hf
  | cons p rest ih =>
    exact bind_ne_fault (H.rpmsgSend_ne_fault p.1 p.2) fun t ht => ih (H.rpmsgSend ht)

lemma Holds.rpmsgCreateCh_ne_fault (H : Holds .empty s) (name : CStr) (cb : Option κ) :
    Remoteproc.rpmsgCreateCh env name cb s ≠ .error .fault := by
  unfold Remoteproc.rpmsgCreateCh
  split
  · exact fun hf => nomatch hf
  · refine bind_ne_fault (Holds.sendLoop_ne_fault (r := none) ?_) fun t _ hf => nomatch hf
    exact H.of_eq rfl rfl rfl

/-- The callbacks themselves access no table behind its end. -/
def Total (app : App κ α) : Prop := ∀ c i data len a, (app c i data len a).isSome

variable (happ : Total app)
include happ

lemma Holds.callCb_ne_fault {d : UInt16} {c : κ} {i : Fin maxRpmsgCh} {addr : UInt32} {pkt : Packet}
    (H : Holds ⟨some (d, false), none⟩ s) :
    Remoteproc.callCb app env c i addr pkt s ≠ .error .fault := by
  unfold Remoteproc.callCb
  simp only
  split
  · rename_i hn
    have hsome := happ c i pkt.data pkt.len (s.emit (.cbCall i)).app
    rw [hn] at hsome
    cases hsome
  · have hcall : Holds ⟨some (d, true), none⟩ (s.emit (.cbCall i)) := H.emit rfl rfl rfl
    refine bind_ne_fault (Holds.rpmsgSends_ne_fault (r := some (d, true)) ?_)
      fun t _ hf => nomatch hf
    exact hcall.of_eq rfl rfl rfl

lemma Holds.deliver_ne_fault {d : UInt16} {addr : UInt32} {pkt : Packet}
    {is : List (Fin maxRpmsgCh)} (H : Holds ⟨some (d, false), none⟩ s) :
    Remoteproc.deliver app env addr pkt is s ≠ .error .fault := by
  induction is generalizing s with
  | nil => exact fun hf => nomatch hf
  | cons i rest ih =>
    have hch : ∀ chs, Holds ⟨some (d, false), none⟩ { s with channels := chs } :=
      fun chs => H.of_eq rfl rfl rfl
    rw [Remoteproc.deliver]
    simp only
    split
    · split
      · exact (hch _).callCb_ne_fault happ
      · exact ih (hch _)
    · exact ih H

lemma Holds.readMessage_ne_fault (H : Holds .empty s) :
    Remoteproc.readMessage app env s ≠ .error .fault := by
  unfold Remoteproc.readMessage
  simp only
  split
  · exact fun hf => nomatch hf
  · rename_i index rx hg
    have HL : Holds .empty (s.look env) := H.look
    obtain ⟨hidx, hoff, htail, hused⟩ := offered_getBuf HL.rxOffered hg
    rw [dif_pos hidx]
    refine bind_ne_fault (Holds.deliver_ne_fault happ (HL.rxTake hg _)) fun t _ hf => nomatch hf

end Steps

/-! ### Every run -/

/-- The calls of the transport. -/
inductive Call (κ : Type)
  | create (name : CStr) (cb : Option κ)
  | send (ch : Option (Fin maxRpmsgCh)) (data : List UInt8)
  | poll (rounds : ℕ)

def call (s : Fw κ α) : Call κ → Except Stop (Fw κ α)
  | .create name cb => do
    let (_, s) ← rpmsgCreateCh env name cb s
    .ok s
  | .send ch data => rpmsgSend env ch data s
  | .poll rounds => do
    let (_, s) ← rpmsgPoll app env rounds s
    .ok s

/-- A call that returns. -/
def step (s : Fw κ α) (c : Call κ) : Option (Fw κ α) := (call app env s c).toOption

/-- The rings as `vring_init` leaves them, with descriptors from the kernel. -/
structure Start (s : Fw κ α) : Prop where
  log : s.log = []
  rx : s.rx.used.idx = 0 ∧ s.rx.availTail = 0 ∧ Offered s.rx
  tx : s.tx.used.idx = 0 ∧ s.tx.availTail = 0 ∧ Offered s.tx

/-- Every buffer is accounted for. -/
structure Accounted (s : Fw κ α) : Prop where
  /-- every buffer is used as the monitor demands, and none is held -/
  discipline : run Hold.next .empty s.log = some .empty
  /-- the buffers taken are returned, each exactly once and in order -/
  rxReturned : rxReturned s.log = rxTaken s.log
  txReturned : txReturned s.log = txTaken s.log
  rxIdx : s.rx.used.idx = s.rx.availTail
  txIdx : s.tx.used.idx = s.tx.availTail

variable {app env}

lemma Start.holds {s : Fw κ α} (h : Start s) : Holds .empty s where
  log := by rw [h.log]; rfl
  rxIdx := by rw [h.rx.1, h.rx.2.1]; rfl
  txIdx := by rw [h.tx.1, h.tx.2.1]; rfl
  rxOffered := h.rx.2.2
  txOffered := h.tx.2.2

lemma sendMessage_of_not_available (s : Fw κ α) (src dst : UInt32) (data : List UInt8)
    (h : vringAvailable s.tx = 0) : sendMessage src dst data s = .ok (1, s) := by
  have he : s.tx.avail.availIdx = s.tx.availTail := by
    by_contra hne
    rw [(vringAvailable_eq_one_iff s.tx).2 hne] at h
    cases h
  simp [sendMessage, vringGetBuf_of_eq s.tx he]

lemma Holds.accounted {s : Fw κ α} (H : Holds .empty s) : Accounted s := by
  obtain ⟨hrx, htx⟩ := taken_run H.log
  refine ⟨H.log, ?_, ?_, ?_, ?_⟩
  · simpa [Hold.empty] using hrx.symm
  · simpa [Hold.empty] using htx.symm
  · simpa [count, Hold.empty] using H.rxIdx.symm
  · simpa [count, Hold.empty] using H.txIdx.symm

lemma Holds.call {s s' : Fw κ α} {c : Call κ} (H : Holds .empty s)
    (hs : call app env s c = .ok s') : Holds .empty s' := by
  cases c with
  | create name cb =>
    obtain ⟨⟨ch, t⟩, ht, hs⟩ := bind_eq_ok.1 hs
    obtain rfl := Except.ok.inj hs
    exact H.rpmsgCreateCh ht
  | send ch data => exact H.rpmsgSend hs
  | poll rounds =>
    obtain ⟨⟨ret, t⟩, ht, hs⟩ := bind_eq_ok.1 hs
    obtain rfl := Except.ok.inj hs
    exact kept_holds.rpmsgPoll H ht

lemma Holds.step {s s' : Fw κ α} {c : Call κ} (H : Holds .empty s)
    (hs : step app env s c = some s') : Holds .empty s' := by
  unfold Buffers.step at hs
  cases hc : Buffers.call app env s c with
  | error e => rw [hc] at hs; cases hs
  | ok t =>
    rw [hc] at hs
    exact Option.some.inj hs ▸ H.call hc

/-- **The firmware neither leaks a buffer nor returns one twice**, in any run of the calls of the
transport, with any callbacks and any behaviour of the kernel.  An attempt to send that finds no
buffer changes nothing. -/
theorem accounted_run {s : Fw κ α} (hs : Start s) (calls : List (Call κ)) :
    States (step app env) Accounted s calls ∧
      ∀ (t : Fw κ α) (src dst : UInt32) (data : List UInt8), vringAvailable t.tx = 0 →
        sendMessage src dst data t = .ok (1, t) :=
  ⟨fun _ _ _ hr => (run_invariant (fun _ _ _ => Holds.step) hs.holds hr).accounted,
    sendMessage_of_not_available⟩

end Functions

lemma offered_of_eq {vr : Vring} (h : vr.avail.availIdx = vr.availTail) : Offered vr := by
  intro k hk
  have hlt : vr.availTail.toNat < 2 ^ 16 := vr.availTail.toNat_lt
  rw [h, pending_self hlt] at hk
  exact absurd hk (Nat.not_lt_zero k)

lemma start_loaded {κ α : Type} (app : α) : Start (remoteprocInit (Fw.loaded app : Fw κ α)) :=
  ⟨rfl, ⟨rfl, rfl, offered_of_eq rfl⟩, ⟨rfl, rfl, offered_of_eq rfl⟩⟩

lemma start_prepared {κ α : Type} (app : α) : Start (remoteprocInit (Fw.prepared app : Fw κ α)) :=
  ⟨rfl, ⟨rfl, rfl, offered_of_eq rfl⟩, ⟨rfl, rfl, offered_of_eq rfl⟩⟩

/-- A firmware that echoes what it receives, with a kernel that offers the first buffers of both rings
again and again. -/
theorem accounted_echo :
    Start (remoteprocInit (Fw.loaded () : Fw Unit Unit)) ∧
      States
        (step (fun _ ch data len _ => some ⟨(), [(some ch, data.read len.toNat)], none⟩)
          fun _ => [[.offerTx 0], [.offerRx 0 ⟨0x400, 0x50, 0, 1, 0, .zero _⟩, .kickRx]])
        Accounted (remoteprocInit (Fw.loaded () : Fw Unit Unit))
        [.create ⟨[0x61], by decide⟩ (some ()), .poll 2, .send (some 0) [0x62]] :=
  ⟨start_loaded (), (accounted_run (start_loaded ()) _).1⟩

end CfgMgmt.Firmware.Buffers
