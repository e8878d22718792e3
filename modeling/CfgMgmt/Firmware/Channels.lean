import CfgMgmt.Firmware.Sending
import CfgMgmt.Lib.Machine

/-!
# The channel table and its routing

Channels are created one after the other, each in the next slot and with the next address, and are
never given back.  `Numbered` says this; that a message is delivered to one callback at most follows
from it, although the loop of `read_message` only stops at a channel that has a callback.
-/

namespace CfgMgmt.Firmware.Channels

open CfgMgmt.Lib.Bytes CfgMgmt.Lib.Machine CfgMgmt.Msg
open CfgMgmt.Firmware.VirtioRing CfgMgmt.Firmware.Remoteproc CfgMgmt.Firmware.Sending

/-! ### The machine -/

/-- The calls of the transport.  Messages are received one at a time. -/
inductive Call (κ : Type)
  | create (name : CStr) (cb : Option κ)
  | send (ch : Option (Fin maxRpmsgCh)) (data : List UInt8)
  | receive

/-- The packets a history takes from the receive ring. -/
def received (log : List Ev) : List Packet := log.filterMap fun | .rxTake _ pkt => some pkt | _ => none

/-- The channels whose callback a history calls. -/
def called (log : List Ev) : List (Fin maxRpmsgCh) :=
  log.filterMap fun | .cbCall i => some i | _ => none

/-- The source of the last packet for an address. -/
def lastSrc (addr : UInt32) (log : List Ev) : Option UInt32 :=
  ((received log).filter fun pkt => pkt.dst = addr).getLast?.map Packet.src

section Machine

variable {κ α : Type} (app : App κ α) (env : Env)

/-- A call, when it returns. -/
def step (s : Fw κ α) : Call κ → Option (Fw κ α)
  | .create name cb => (rpmsgCreateCh env name cb s).toOption.map Prod.snd
  | .send ch data => (rpmsgSend env ch data s).toOption
  | .receive => (readMessage app env s).toOption

end Machine

/-- How the state of a channel may change. -/
def Moves : ChState → ChState → Prop
  | .unused, .unused | .unused, .announced | .announced, .announced | .announced, .up | .up, .up => True
  | _, _ => False

section Properties

variable {κ α : Type}

/-- What holds of the channels at any time. -/
structure Routed (s : Fw κ α) : Prop where
  distinct : ∀ i j, (s.channels i).state ≠ .unused → (s.channels j).state ≠ .unused →
    (s.channels i).localAddr = (s.channels j).localAddr → i = j
  announced : ∀ i, (s.channels i).state = .announced → (s.channels i).remoteAddr = rpmsgAddrAny
  up : ∀ i, (s.channels i).state = .up →
    lastSrc (s.channels i).localAddr s.log = some (s.channels i).remoteAddr

/-- The packet `pkt` changes no channel, and no callback is called. -/
structure Dropped (pkt : Packet) (s s' : Fw κ α) (seg : List Ev) : Prop where
  nobody : ∀ i, ¬ Accepts pkt (s.channels i)
  channels : s'.channels = s.channels
  app : s'.app = s.app
  called : called seg = []

/-- The packet `pkt` is received on the channel `i` and on no other one; its callback, if it has one, is
called once, with the data and the length of the packet. -/
structure DeliveredTo (app : App κ α) (pkt : Packet) (i : Fin maxRpmsgCh) (s s' : Fw κ α)
    (seg : List Ev) : Prop where
  only : ∀ j, Accepts pkt (s.channels j) ↔ j = i
  channels : s'.channels = Function.update s.channels i (accepted pkt (s.channels i))
  callback : match (s.channels i).cb with
    | none => s'.app = s.app ∧ called seg = []
    | some c => (app c i pkt.data pkt.len s.app).map CbResult.app = some s'.app ∧ called seg = [i]

/-- What happens to a packet. -/
def Handles (app : App κ α) (pkt : Packet) (s s' : Fw κ α) (seg : List Ev) : Prop :=
  Dropped pkt s s' seg ∨ ∃ i, DeliveredTo app pkt i s s' seg

/-- What `read_message` does to the channels and to the application. -/
inductive Receives (app : App κ α) (s s' : Fw κ α) : Prop
  | nothing (hc : s'.channels = s.channels) (ha : s'.app = s.app) (seg : List Ev)
      (hl : s'.log = s.log ++ seg) (hr : received seg = []) (hcalled : called seg = [])
  | packet (pkt : Packet) (seg : List Ev) (hl : s'.log = s.log ++ seg) (hr : received seg = [pkt])
      (hd : Dropped pkt s s' seg ∨ ∃ i, DeliveredTo app pkt i s s' seg)

end Properties

section Lemmas

variable {κ α : Type} {app : App κ α} {env : Env} {s s' t : Fw κ α}

/-! ### What sending appends to the history -/

/-- An event of the kernel or of the transmit ring. -/
def IsTx : Ev → Prop
  | .kernel _ | .txTake _ | .txWrite .. | .txPublish .. => True
  | _ => False

/-- The history grows by events of the kernel and of the transmit ring. -/
def Quiet (s s' : Fw κ α) : Prop := ∃ seg, s'.log = s.log ++ seg ∧ ∀ e ∈ seg, IsTx e

lemma Quiet.of_log_eq (h : s'.log = s.log) : Quiet s s' :=
  ⟨[], by rw [h, List.append_nil], fun _ he => absurd he List.not_mem_nil⟩

lemma Quiet.trans (h : Quiet s t) (h' : Quiet t s') : Quiet s s' := by
  obtain ⟨seg, hl, he⟩ := h
  obtain ⟨seg', hl', he'⟩ := h'
  refine ⟨seg ++ seg', by rw [hl', hl, List.append_assoc], fun e hm => ?_⟩
  exact (List.mem_append.1 hm).elim (he e) (he' e)

lemma quiet_emit {e : Ev} (he : IsTx e) : Quiet s (s.emit e) :=
  ⟨[e], rfl, fun _ hm => List.mem_singleton.1 hm ▸ he⟩

lemma quiet_acts (s : Fw κ α) (as : List KernelAct) : Quiet s (s.acts as) := by
  induction as generalizing s with
  | nil => exact .of_log_eq rfl
  | cons a as ih =>
    refine Quiet.trans (t := s.act a) ?_ (ih (s.act a))
    cases a <;> exact quiet_emit (e := .kernel _) trivial

lemma quiet_txvringTask (s : Fw κ α) : Quiet s (txvringTask s).2 := by
  unfold txvringTask
  split <;> exact .of_log_eq rfl

lemma quiet_sendMessage {src dst : UInt32} {data : List UInt8} {ret : ℕ}
    (h : sendMessage src dst data s = .ok (ret, s')) : Quiet s s' := by
  unfold sendMessage at h
  split at h
  · obtain ⟨-, rfl⟩ := Prod.mk.inj (Except.ok.inj h)
    exact .of_log_eq rfl
  · rename_i idx tx _
    split at h
    · rename_i hidx
      simp only [Except.ok.injEq, Prod.mk.injEq] at h
      obtain ⟨-, rfl⟩ := h
      set pkt := fillPacket (s.bufs (tx.desc ⟨idx.toNat, hidx⟩).addr) src dst data
      refine ⟨[.txTake idx, .txWrite idx pkt,
        .txPublish idx pkt (vringPublishBuf tx idx (UInt32.ofNat packetLenMax) true).2], ?_, ?_⟩
      · simp [Fw.emit, pkt]
      · simp [IsTx]
    · cases h

lemma quiet_sendLoop {src dst : UInt32} {data : List UInt8} {ass : List (List KernelAct)}
    (h : sendLoop src dst data ass s = .ok s') : Quiet s s' := by
  induction ass generalizing s with
  | nil => cases h
  | cons as rest ih =>
    rw [sendLoop] at h
    have ha := quiet_acts s as
    split at h
    · cases h
    · rename_i t hm
      obtain rfl := Except.ok.inj h
      exact ha.trans (quiet_sendMessage hm)
    · rename_i t _ hm
      exact (ha.trans (quiet_sendMessage hm)).trans ((quiet_txvringTask t).trans (ih h))

lemma quiet_blockSendMessage {src dst : UInt32} {data : List UInt8}
    (h : blockSendMessage env src dst data s = .ok s') : Quiet s s' := by
  obtain ⟨seg, hl, he⟩ := quiet_sendLoop h
  exact ⟨seg, hl, he⟩

lemma quiet_rpmsgSend {ch : Option (Fin maxRpmsgCh)} {data : List UInt8}
    (h : rpmsgSend env ch data s = .ok s') : Quiet s s' := by
  unfold rpmsgSend at h
  split at h
  · exact Except.ok.inj h ▸ .of_log_eq rfl
  · split at h
    · exact Except.ok.inj h ▸ .of_log_eq rfl
    · exact quiet_blockSendMessage h

lemma quiet_rpmsgSends {sends : List (Option (Fin maxRpmsgCh) × List UInt8)}
    (h : rpmsgSends env sends s = .ok s') : Quiet s s' := by
  induction sends generalizing s with
  | nil => exact Except.ok.inj h ▸ .of_log_eq rfl
  | cons p rest ih =>
    obtain ⟨t, ht, h⟩ := bind_eq_ok.1 h
    exact (quiet_rpmsgSend ht).trans (ih h)

@[simp] lemma received_append (log log' : List Ev) :
    received (log ++ log') = received log ++ received log' := List.filterMap_append

@[simp] lemma called_append (log log' : List Ev) :
    called (log ++ log') = called log ++ called log' := List.filterMap_append

lemma received_of_isTx {seg : List Ev} (h : ∀ e ∈ seg, IsTx e) : received seg = [] := by
  refine List.filterMap_eq_nil_iff.2 fun e he => ?_
  have htx := h e he
  cases e with
  | rxTake => exact htx.elim
  | _ => rfl

lemma called_of_isTx {seg : List Ev} (h : ∀ e ∈ seg, IsTx e) : called seg = [] := by
  refine List.filterMap_eq_nil_iff.2 fun e he => ?_
  have htx := h e he
  cases e with
  | cbCall => exact htx.elim
  | _ => rfl

/-! ### The loop of `read_message` -/

section Deliver

variable {addr : UInt32} {pkt : Packet} {i : Fin maxRpmsgCh} {is : List (Fin maxRpmsgCh)}

lemma deliver_cons_of_not_accepts {j : Fin maxRpmsgCh} (h : ¬ Accepts pkt (s.channels j)) :
    deliver app env addr pkt (j :: is) s = deliver app env addr pkt is s := if_neg h

lemma deliver_cons_of_accepts {j : Fin maxRpmsgCh} (h : Accepts pkt (s.channels j)) :
    deliver app env addr pkt (j :: is) s =
      let t := { s with channels := Function.update s.channels j (accepted pkt (s.channels j)) }
      match (s.channels j).cb with
      | some c => callCb app env c j addr pkt t
      | none => deliver app env addr pkt is t := if_pos h

lemma deliver_of_not_accepts (h : ∀ j ∈ is, ¬ Accepts pkt (s.channels j)) :
    deliver app env addr pkt is s = .ok s := by
  induction is with
  | nil => rfl
  | cons j rest ih =>
    rw [deliver_cons_of_not_accepts (h j List.mem_cons_self)]
    exact ih fun k hk => h k (List.mem_cons_of_mem _ hk)

/-- **A packet that one channel accepts** is given to its callback. -/
theorem deliver_of_accepts (hnd : is.Nodup) (hi : i ∈ is)
    (h : ∀ j, Accepts pkt (s.channels j) ↔ j = i) :
    deliver app env addr pkt is s =
      let t := { s with channels := Function.update s.channels i (accepted pkt (s.channels i)) }
      match (s.channels i).cb with
      | none => .ok t
      | some c => callCb app env c i addr pkt t := by
  induction is with
  | nil => exact absurd hi List.not_mem_nil
  | cons j rest ih =>
    obtain ⟨hj, hnd⟩ := List.nodup_cons.1 hnd
    by_cases hji : j = i
    · subst hji
      rw [deliver_cons_of_accepts ((h j).2 rfl)]
      cases (s.channels j).cb with
      | some c => rfl
      | none =>
        -- the channels behind it do not accept the packet
        refine deliver_of_not_accepts fun k hk hacc => ?_
        have hkj : k ≠ j := fun e => hj (e ▸ hk)
        have hk' : Accepts pkt (Function.update s.channels j (accepted pkt (s.channels j)) k) := hacc
        rw [Function.update_of_ne hkj] at hk'
        exact hkj ((h k).1 hk')
    · rw [deliver_cons_of_not_accepts fun hacc => hji ((h j).1 hacc)]
      exact ih hnd ((List.mem_cons.1 hi).resolve_left fun e => hji e.symm)

end Deliver

/-! ### Receiving -/

lemma quiet_look : Quiet s (s.look env) := by
  obtain ⟨seg, hl, he⟩ := quiet_acts s (env s.time).flatten
  exact ⟨seg, hl, he⟩

lemma callCb_log {c : κ} {i : Fin maxRpmsgCh} {addr : UInt32} {pkt : Packet}
    (h : callCb app env c i addr pkt s = .ok s') :
    ∃ seg, s'.log = s.log ++ seg ∧ received seg = [] ∧ called seg = [i] := by
  unfold callCb at h
  simp only at h
  split at h
  · cases h
  · obtain ⟨t, ht, h⟩ := bind_eq_ok.1 h
    obtain rfl := Except.ok.inj h
    obtain ⟨seg, hl, he⟩ := quiet_rpmsgSends ht
    refine ⟨.cbCall i :: (seg ++ [.cbReturn i]), ?_, ?_, ?_⟩
    · simp [Fw.emit, hl]
    · show received ([Ev.cbCall i] ++ (seg ++ [.cbReturn i])) = []
      rw [received_append, received_append, received_of_isTx he]
      rfl
    · show called ([Ev.cbCall i] ++ (seg ++ [.cbReturn i])) = [i]
      rw [called_append, called_append, called_of_isTx he]
      rfl

/-- **What the loop of `read_message` does**, when no two channels accept the packet. -/
theorem handles_of_deliver {addr : UInt32} {pkt : Packet}
    (hd : ∀ i j, Accepts pkt (s.channels i) → Accepts pkt (s.channels j) → i = j)
    (h : deliver app env addr pkt (List.finRange maxRpmsgCh) s = .ok s') :
    ∃ seg, s'.log = s.log ++ seg ∧ received seg = [] ∧ s'.nextRpmsgAddr = s.nextRpmsgAddr ∧
      Handles app pkt s s' seg := by
  by_cases hex : ∃ i, Accepts pkt (s.channels i)
  · obtain ⟨i, hi⟩ := hex
    have honly : ∀ j, Accepts pkt (s.channels j) ↔ j = i :=
      fun j => ⟨fun hj => hd j i hj hi, fun e => e ▸ hi⟩
    rw [deliver_of_accepts (List.nodup_finRange maxRpmsgCh) (List.mem_finRange i) honly] at h
    dsimp only at h
    split at h
    · rename_i hcb
      obtain rfl := Except.ok.inj h
      refine ⟨[], (List.append_nil _).symm, rfl, rfl, .inr ⟨i, honly, rfl, ?_⟩⟩
      rw [hcb]
      exact ⟨rfl, rfl⟩
    · rename_i c hcb
      obtain ⟨r, -, hr, -, -, hch, happ, hnext⟩ := callCb_cases h
      obtain ⟨seg, hl, hrec, hcall⟩ := callCb_log h
      refine ⟨seg, hl, hrec, hnext, .inr ⟨i, honly, hch, ?_⟩⟩
      have hr' : app c i pkt.data pkt.len s.app = some r := hr
      rw [hcb]
      exact ⟨by rw [hr', happ]; rfl, hcall⟩
  · have hno : ∀ i, ¬ Accepts pkt (s.channels i) := not_exists.1 hex
    rw [deliver_of_not_accepts fun j _ => hno j] at h
    obtain rfl := Except.ok.inj h
    exact ⟨[], (List.append_nil _).symm, rfl, rfl, .inl ⟨hno, rfl, rfl, rfl⟩⟩

/-- What happens to a packet does not depend on what else the history records. -/
lemma Handles.congr {pkt : Packet} {u u' : Fw κ α} {seg seg' : List Ev} (h : Handles app pkt u u' seg)
    (hc : u.channels = s.channels) (ha : u.app = s.app) (hc' : s'.channels = u'.channels)
    (ha' : s'.app = u'.app) (hs : called seg' = called seg) : Handles app pkt s s' seg' := by
  rcases h with ⟨hno, hch, happ, hcall⟩ | ⟨i, honly, hch, hcb⟩
  · exact .inl ⟨fun i => hc ▸ hno i, (hc'.trans hch).trans hc, (ha'.trans happ).trans ha, hs.trans hcall⟩
  · rw [hc] at honly hch hcb
    refine .inr ⟨i, honly, hc'.trans hch, ?_⟩
    cases hi : (s.channels i).cb with
    | none =>
      rw [hi] at hcb
      exact ⟨(ha'.trans hcb.1).trans ha, hs.trans hcb.2⟩
    | some c =>
      rw [hi] at hcb
      exact ⟨by rw [ha', ← ha]; exact hcb.1, hs.trans hcb.2⟩

/-- **What `read_message` does**, when no two channels accept the same packet. -/
theorem receives_of_readMessage
    (hd : ∀ pkt i j, Accepts pkt (s.channels i) → Accepts pkt (s.channels j) → i = j)
    (h : readMessage app env s = .ok s') : Receives app s s' ∧ s'.nextRpmsgAddr = s.nextRpmsgAddr := by
  obtain ⟨seg, hlook, hquiet⟩ : Quiet s (s.look env) := quiet_look
  have hs : Sends [] s (s.look env) := sends_look s
  have hrec := received_of_isTx hquiet
  have hcall := called_of_isTx hquiet
  rcases readMessage_cases h with rfl | ⟨rx, index, addr, pkt, notified, t, ht, hlog, hch, happ, hnext⟩
  · exact ⟨.nothing hs.channels hs.app seg hlook hrec hcall, hs.next⟩
  · obtain ⟨mid, hmid, hrmid, hn, hh⟩ := handles_of_deliver (fun i j => by
      show Accepts pkt ((s.look env).channels i) → Accepts pkt ((s.look env).channels j) → i = j
      rw [hs.channels]
      exact hd pkt i j) ht
    -- the packet is taken, `mid` happens, and its buffer is returned
    refine ⟨.packet pkt (seg ++ [.rxTake index pkt] ++ mid ++ [.rxPublish index notified]) ?_ ?_
      (hh.congr hs.channels hs.app hch happ ?_), hnext.trans (hn.trans hs.next)⟩
    · have hmid' : t.log = (s.look env).log ++ [.rxTake index pkt] ++ mid := hmid
      rw [hlog, hmid', hlook]
      simp only [List.append_assoc]
    · simp only [received_append, hrec, hrmid]
      rfl
    · simp only [called_append, hcall]
      exact List.append_nil _

/-! ### The invariant -/

lemma lastSrc_append_of_not_received {addr : UInt32} {log seg : List Ev} (h : received seg = []) :
    lastSrc addr (log ++ seg) = lastSrc addr log := by
  simp [lastSrc, h]

lemma lastSrc_append {addr : UInt32} {log seg : List Ev} {pkt : Packet} (h : received seg = [pkt]) :
    lastSrc addr (log ++ seg) = if pkt.dst = addr then some pkt.src else lastSrc addr log := by
  unfold lastSrc
  rw [received_append, h, List.filter_append]
  by_cases hd : pkt.dst = addr <;> simp [hd]

/-- What holds of the channel in the slot `i`, when the first `c` slots are in use. -/
structure Placed (first : UInt32) (c : ℕ) (log : List Ev) (i : Fin maxRpmsgCh) (ch : Channel κ) :
    Prop where
  used : ch.state ≠ .unused ↔ (i : ℕ) < c
  addr : (i : ℕ) < c → ch.localAddr = first + UInt32.ofNat i
  announced : ch.state = .announced → ch.remoteAddr = rpmsgAddrAny
  up : ch.state = .up → lastSrc ch.localAddr log = some ch.remoteAddr

/-- The first `c` slots are in use, with the addresses from `first` on. -/
structure Numbered (first : UInt32) (c : ℕ) (s : Fw κ α) : Prop where
  le : c ≤ maxRpmsgCh
  next : s.nextRpmsgAddr = first + UInt32.ofNat c
  channels : ∀ i, Placed first c s.log i (s.channels i)

variable {first : UInt32} {c : ℕ} {i : Fin maxRpmsgCh}

lemma Placed.not_received {log seg : List Ev} {ch : Channel κ} (h : Placed first c log i ch)
    (hr : received seg = []) : Placed first c (log ++ seg) i ch :=
  ⟨h.used, h.addr, h.announced, fun hu => (lastSrc_append_of_not_received hr).trans (h.up hu)⟩

lemma Numbered.routed (h : Numbered first c s) : Routed s where
  distinct i j hi hj hl := by
    rw [(h.channels i).addr ((h.channels i).used.1 hi),
      (h.channels j).addr ((h.channels j).used.1 hj)] at hl
    have he := congrArg UInt32.toNat ((UInt32.add_right_inj first).1 hl)
    have hlt : ∀ k : Fin maxRpmsgCh, (k : ℕ) < 2 ^ 32 := fun k => k.isLt.trans (by decide)
    rw [UInt32.toNat_ofNat_of_lt' (hlt i), UInt32.toNat_ofNat_of_lt' (hlt j)] at he
    exact Fin.ext he
  announced i := (h.channels i).announced
  up i := (h.channels i).up

lemma used_of_accepts {pkt : Packet} {ch : Channel κ} (h : Accepts pkt ch) : ch.state ≠ .unused := by
  intro hu
  rcases h.1 with hs | hs <;> exact ChState.noConfusion (hu.symm.trans hs)

lemma Routed.accepts_unique (h : Routed s) (pkt : Packet) (i j : Fin maxRpmsgCh)
    (hi : Accepts pkt (s.channels i)) (hj : Accepts pkt (s.channels j)) : i = j :=
  h.distinct i j (used_of_accepts hi) (used_of_accepts hj) (hi.2.symm.trans hj.2)

lemma moves_refl (st : ChState) : Moves st st := by cases st <;> trivial

lemma Numbered.of_eq (h : Numbered first c s) (hc : s'.channels = s.channels)
    (hn : s'.nextRpmsgAddr = s.nextRpmsgAddr) {seg : List Ev} (hl : s'.log = s.log ++ seg)
    (hr : received seg = []) :
    Numbered first c s' ∧ ∀ i, Moves (s.channels i).state (s'.channels i).state := by
  refine ⟨⟨h.le, hn.trans h.next, fun i => ?_⟩, fun i => ?_⟩ <;> rw [hc]
  · rw [hl]
    exact (h.channels i).not_received hr
  · exact moves_refl _

/-! ### Creating a channel -/

lemma quiet_rpmsgCreateCh {name : CStr} {cb : Option κ} {ch : Option (Fin maxRpmsgCh)}
    (h : rpmsgCreateCh env name cb s = .ok (ch, s')) : Quiet s s' := by
  unfold rpmsgCreateCh at h
  split at h
  · obtain ⟨-, rfl⟩ := Prod.mk.inj (Except.ok.inj h)
    exact .of_log_eq rfl
  · obtain ⟨t, ht, h⟩ := bind_eq_ok.1 h
    obtain ⟨-, rfl⟩ := Prod.mk.inj (Except.ok.inj h)
    obtain ⟨seg, hl, he⟩ := quiet_blockSendMessage ht
    exact ⟨seg, hl, he⟩

lemma rpmsgCreateCh_full (h : ∀ i, (s.channels i).state ≠ .unused) (name : CStr) (cb : Option κ) :
    rpmsgCreateCh env name cb s = .ok (none, s) := by
  have hnone : ((List.finRange maxRpmsgCh).find? fun i => (s.channels i).state = .unused) = none :=
    List.find?_eq_none.2 fun i _ hi => h i (of_decide_eq_true hi)
  unfold rpmsgCreateCh
  rw [hnone]

lemma Numbered.next_slot (h : Numbered first c s)
    (hi : ((List.finRange maxRpmsgCh).find? fun i => (s.channels i).state = .unused) = some i) :
    (i : ℕ) = c := by
  obtain ⟨hu, k, hk, rfl, hbefore⟩ := List.find?_eq_some_iff_getElem.1 hi
  have hge : ¬ ((List.finRange maxRpmsgCh)[k] : ℕ) < c := fun hlt =>
    (h.channels _).used.2 hlt (of_decide_eq_true hu)
  simp only [List.getElem_finRange, Fin.val_cast] at hge ⊢
  by_contra hne
  have hck : c < k := by omega
  have hb := hbefore c hck
  rw [Bool.not_eq_true', decide_eq_false_iff_not] at hb
  exact absurd ((h.channels _).used.1 hb) (by simp)

lemma Placed.succ {log : List Ev} {ch : Channel κ} (h : Placed first c log i ch) (hi : (i : ℕ) ≠ c) :
    Placed first (c + 1) log i ch := by
  have hlt : (i : ℕ) < c + 1 ↔ (i : ℕ) < c := by omega
  exact ⟨h.used.trans hlt.symm, fun h' => h.addr (hlt.1 h'), h.announced, h.up⟩

lemma placed_newChannel (log : List Ev) (cb : Option κ) :
    Placed first (i + 1) log i (newChannel (first + UInt32.ofNat i) cb) :=
  ⟨⟨fun _ => Nat.lt_succ_self _, fun _ => ChState.noConfusion⟩, fun _ => rfl, fun _ => rfl,
    fun h => ChState.noConfusion h⟩

/-- **Creating a channel keeps the numbering.** -/
theorem Numbered.create {name : CStr} {cb : Option κ} {ch : Option (Fin maxRpmsgCh)}
    (h : Numbered first c s) (hs : rpmsgCreateCh env name cb s = .ok (ch, s')) :
    (∃ c', Numbered first c' s') ∧ ∀ i, Moves (s.channels i).state (s'.channels i).state := by
  cases hi : (List.finRange maxRpmsgCh).find? fun i => (s.channels i).state = .unused with
  | none =>
    have hfull : ∀ i, (s.channels i).state ≠ .unused := fun i hu =>
      List.find?_eq_none.1 hi i (List.mem_finRange i) (decide_eq_true hu)
    rw [rpmsgCreateCh_full hfull] at hs
    obtain ⟨-, rfl⟩ := Prod.mk.inj (Except.ok.inj hs)
    exact ⟨⟨c, h⟩, fun i => moves_refl _⟩
  | some i =>
    obtain ⟨-, -, hn, hch⟩ := rpmsgCreateCh_cases hi hs
    obtain ⟨seg, hl, he⟩ := quiet_rpmsgCreateCh hs
    obtain rfl := h.next_slot hi
    have hui : (s.channels i).state = .unused := by
      by_contra hu
      exact absurd ((h.channels i).used.1 hu) (lt_irrefl _)
    refine ⟨⟨i + 1, i.isLt, ?_, fun j => ?_⟩, fun j => ?_⟩
    · rw [hn, h.next, UInt32.ofNat_add]
      exact UInt32.add_assoc ..
    · rw [hch, hl]
      by_cases hji : j = i
      · subst hji
        rw [Function.update_self, h.next]
        exact placed_newChannel _ cb
      · rw [Function.update_of_ne hji]
        refine ((h.channels j).not_received (received_of_isTx he)).succ fun e => hji (Fin.ext e)
    · rw [hch]
      by_cases hji : j = i
      · subst hji
        rw [Function.update_self, hui]
        trivial
      · rw [Function.update_of_ne hji]
        exact moves_refl _

/-! ### Receiving a message -/

lemma Placed.not_accepts {log seg : List Ev} {ch : Channel κ} {pkt : Packet}
    (h : Placed first c log i ch) (hr : received seg = [pkt]) (hno : ¬ Accepts pkt ch) :
    Placed first c (log ++ seg) i ch := by
  refine ⟨h.used, h.addr, h.announced, fun hu => ?_⟩
  rw [lastSrc_append hr, if_neg fun hd => hno ⟨.inr hu, hd⟩]
  exact h.up hu

lemma Placed.accepts {log seg : List Ev} {ch : Channel κ} {pkt : Packet}
    (h : Placed first c log i ch) (hr : received seg = [pkt]) (hacc : Accepts pkt ch) :
    Placed first c (log ++ seg) i (accepted pkt ch) := by
  refine ⟨?_, h.addr, fun ha => ChState.noConfusion ha, fun _ => ?_⟩
  · rw [← h.used]
    exact ⟨fun _ => used_of_accepts hacc, fun _ => ChState.noConfusion⟩
  · rw [lastSrc_append hr]
    exact if_pos hacc.2

lemma moves_accepted {ch : Channel κ} {pkt : Packet} (hacc : Accepts pkt ch) :
    Moves ch.state (accepted pkt ch).state := by
  rcases hacc.1 with hs | hs <;> rw [hs] <;> trivial

/-- **Receiving a message keeps the numbering.** -/
theorem Numbered.receive (h : Numbered first c s) (hs : readMessage app env s = .ok s') :
    Numbered first c s' ∧ ∀ i, Moves (s.channels i).state (s'.channels i).state := by
  obtain ⟨hrec, hn⟩ := receives_of_readMessage h.routed.accepts_unique hs
  cases hrec with
  | nothing hc ha seg hl hr _ => exact h.of_eq hc hn hl hr
  | packet pkt seg hl hr hh =>
    rcases hh with ⟨hno, hch, -, -⟩ | ⟨i, honly, hch, -⟩
    · refine ⟨⟨h.le, hn.trans h.next, fun j => ?_⟩, fun j => ?_⟩ <;> rw [hch]
      · rw [hl]
        exact (h.channels j).not_accepts hr (hno j)
      · exact moves_refl _
    · have hacc := (honly i).2 rfl
      refine ⟨⟨h.le, hn.trans h.next, fun j => ?_⟩, fun j => ?_⟩ <;> rw [hch]
      · rw [hl]
        by_cases hji : j = i
        · subst hji
          rw [Function.update_self]
          exact (h.channels j).accepts hr hacc
        · rw [Function.update_of_ne hji]
          exact (h.channels j).not_accepts hr fun hj => hji ((honly j).1 hj)
      · by_cases hji : j = i
        · subst hji
          rw [Function.update_self]
          exact moves_accepted hacc
        · rw [Function.update_of_ne hji]
          exact moves_refl _

/-! ### Runs -/

lemma numbered_init (s : Fw κ α) : Numbered s.nextRpmsgAddr 0 (remoteprocInit s) := by
  refine ⟨Nat.zero_le _, (UInt32.add_zero _).symm, fun i => ⟨?_, ?_, ?_, ?_⟩⟩
  · exact ⟨fun h => absurd rfl h, fun h => absurd h (Nat.not_lt_zero _)⟩
  · exact fun h => absurd h (Nat.not_lt_zero _)
  · exact fun h => ChState.noConfusion h
  · exact fun h => ChState.noConfusion h

theorem Numbered.step {call : Call κ} (h : Numbered first c s) (hs : step app env s call = some s') :
    (∃ c', Numbered first c' s') ∧ ∀ i, Moves (s.channels i).state (s'.channels i).state := by
  cases call with
  | create name cb =>
    obtain ⟨⟨ch, t⟩, ht, rfl⟩ := Option.map_eq_some_iff.1 hs
    exact h.create (toOption_eq_some.1 ht)
  | send ch data =>
    have ht := toOption_eq_some.1 hs
    obtain ⟨ps, -, hsend⟩ := rpmsgSend_sends ht
    obtain ⟨seg, hl, he⟩ := quiet_rpmsgSend ht
    obtain ⟨hn, hm⟩ := h.of_eq hsend.channels hsend.next hl (received_of_isTx he)
    exact ⟨⟨c, hn⟩, hm⟩
  | receive =>
    obtain ⟨hn, hm⟩ := h.receive (toOption_eq_some.1 hs)
    exact ⟨⟨c, hn⟩, hm⟩

/-- **The channel table and its routing**, after any sequence of calls: the channels are in order, the
states only move forward, a message is delivered to one callback at most, and a full table refuses a
new channel. -/
theorem routed_run {s₀ : Fw κ α} {calls : List (Call κ)}
    (hr : run (step app env) (remoteprocInit s₀) calls = some s) :
    Routed s ∧
      (∀ call s', step app env s call = some s' →
        ∀ i, Moves (s.channels i).state (s'.channels i).state) ∧
      (∀ s', step app env s .receive = some s' → Receives app s s') ∧
      ∀ name cb, (∀ i, (s.channels i).state ≠ .unused) →
        rpmsgCreateCh env name cb s = .ok (none, s) := by
  obtain ⟨c, h⟩ : ∃ c, Numbered s₀.nextRpmsgAddr c s := by
    refine run_invariant (P := fun s => ∃ c, Numbered s₀.nextRpmsgAddr c s) ?_
      ⟨0, numbered_init s₀⟩ hr
    rintro s call s' ⟨c, h⟩ hs
    exact (h.step hs).1
  refine ⟨h.routed, fun call s' hs => (h.step hs).2, fun s' hs => ?_, fun name cb hfull => ?_⟩
  · exact (receives_of_readMessage h.routed.accepts_unique (toOption_eq_some.1 hs)).1
  · exact rpmsgCreateCh_full hfull name cb

end Lemmas

/-! ### An echo -/

def echo : App Unit Unit := fun _ ch data len _ => some ⟨(), [(some ch, data.read len.toNat)], none⟩

/-- A kernel that offers the first buffers of both rings again and again, with a message for the first
channel. -/
def oneMessage : Env := fun _ => [[.offerTx 0], [.offerRx 0 ⟨0x400, 0x50, 0, 1, 0, .zero _⟩]]

lemma a_noNul : (0 : UInt8) ∉ [0x61] := by decide

/-- A channel is created, and a message is received. -/
def echoes : List (Call Unit) := [.create ⟨[0x61], a_noNul⟩ (some ()), .receive]

theorem routed_echo : ∃ s,
    run (step echo oneMessage) (remoteprocInit (Fw.loaded () : Fw Unit Unit)) echoes = some s ∧
      (s.channels 0).state = .up ∧ called s.log = [0] ∧ Routed s := by
  have h : ((run (step echo oneMessage) (remoteprocInit (Fw.loaded () : Fw Unit Unit)) echoes).any
      fun s => decide ((s.channels 0).state = .up ∧ called s.log = [0])) = true := by decide +kernel
  obtain ⟨s, hs, h⟩ := (Option.any_eq_true ..).1 h
  obtain ⟨hup, hcalled⟩ := of_decide_eq_true h
  exact ⟨s, hs, hup, hcalled, (routed_run hs).1⟩

end CfgMgmt.Firmware.Channels
