import CfgMgmt.Firmware.Remoteproc

/-!
# What a call sends

The messages that a call of the transport publishes on the transmit ring, and what it leaves alone:
sending changes neither the channels nor the memory of the application, and reading a message changes
of a channel only its state and its remote address.
-/

namespace CfgMgmt.Firmware.Sending

open CfgMgmt.Lib.Bytes CfgMgmt.Msg
open CfgMgmt.Firmware.VirtioRing CfgMgmt.Firmware.Remoteproc

/-! ### Histories -/

/-- The messages a history publishes on the transmit ring. -/
def sent (log : List Ev) : List Packet :=
  log.filterMap fun | .txPublish _ pkt _ => some pkt | _ => none

/-- An event of the receive ring. -/
def IsRx : Ev → Prop
  | .rxTake .. | .rxPublish .. => True
  | _ => False

@[simp] lemma sent_nil : sent [] = [] := rfl

@[simp] lemma sent_append (log log' : List Ev) : sent (log ++ log') = sent log ++ sent log' :=
  List.filterMap_append

section Calls

variable {κ α : Type} {app : App κ α} {env : Env} {s s' t : Fw κ α} {ps qs : List Packet}

/-- From `s` to `s'` the messages `ps` are published and the receive ring is left alone. -/
def Emits (ps : List Packet) (s s' : Fw κ α) : Prop :=
  ∃ seg, s'.log = s.log ++ seg ∧ sent seg = ps ∧ ∀ e ∈ seg, ¬ IsRx e

lemma Emits.of_log_eq (h : s'.log = s.log) : Emits [] s s' :=
  ⟨[], by rw [h, List.append_nil], rfl, fun _ he => nomatch he⟩

lemma Emits.trans (h : Emits ps s t) (h' : Emits qs t s') : Emits (ps ++ qs) s s' := by
  obtain ⟨seg, hl, hp, hr⟩ := h
  obtain ⟨seg', hl', hp', hr'⟩ := h'
  refine ⟨seg ++ seg', by rw [hl', hl, List.append_assoc], by rw [sent_append, hp, hp'], ?_⟩
  intro e he
  exact (List.mem_append.1 he).elim (hr e) (hr' e)

lemma emits_emit {e : Ev} (h : ¬ IsRx e) : Emits (sent [e]) s (s.emit e) :=
  ⟨[e], rfl, rfl, fun _ he => List.mem_singleton.1 he ▸ h⟩

/-- The messages `ps` are sent, and nothing else happens to the channels and the application. -/
structure Sends (ps : List Packet) (s s' : Fw κ α) : Prop where
  emits : Emits ps s s'
  channels : s'.channels = s.channels
  app : s'.app = s.app
  next : s'.nextRpmsgAddr = s.nextRpmsgAddr

lemma Sends.refl (s : Fw κ α) : Sends [] s s := ⟨.of_log_eq rfl, rfl, rfl, rfl⟩

lemma Sends.trans (h : Sends ps s t) (h' : Sends qs t s') : Sends (ps ++ qs) s s' :=
  ⟨h.emits.trans h'.emits, h'.channels.trans h.channels, h'.app.trans h.app, h'.next.trans h.next⟩

lemma sends_act (s : Fw κ α) (a : KernelAct) : Sends [] s (s.act a) := by
  have he : Emits [] s (s.act a) := by
    cases a <;> exact emits_emit (e := .kernel _) (fun h => h)
  cases a <;> exact ⟨he, rfl, rfl, rfl⟩

lemma sends_acts (s : Fw κ α) (as : List KernelAct) : Sends [] s (s.acts as) := by
  induction as generalizing s with
  | nil => exact .refl s
  | cons a as ih => exact (sends_act s a).trans (ih (s.act a))

lemma sends_look (s : Fw κ α) : Sends [] s (s.look env) :=
  let h := sends_acts s (env s.time).flatten
  ⟨h.emits, h.channels, h.app, h.next⟩

lemma sends_txvringTask (s : Fw κ α) : Sends [] s (txvringTask s).2 := by
  unfold txvringTask
  split
  · exact ⟨.of_log_eq rfl, rfl, rfl, rfl⟩
  · exact .refl s

/-! ### Sending -/

/-- A packet carries a message. -/
structure IsMessage (src dst : UInt32) (data : List UInt8) (pkt : Packet) : Prop where
  src : pkt.src = src
  dst : pkt.dst = dst
  len : pkt.len.toNat = (payload data).length
  data : ∃ rest, pkt.data.bytes = payload data ++ rest

lemma isMessage_fillPacket (old : Packet) (src dst : UInt32) (data : List UInt8) :
    IsMessage src dst data (fillPacket old src dst data) := by
  have hlen : (payload data).length < 2 ^ 16 := by
    have := payload_fits data
    rw [Nat.zero_add] at this
    exact this.trans_lt (by decide)
  refine ⟨rfl, rfl, UInt16.toNat_ofNat_of_lt' hlen, ?_⟩
  simp only [fillPacket, Buf.write, List.take_zero, List.nil_append]
  exact ⟨_, rfl⟩

/-- **An attempt to send** publishes its message or changes nothing. -/
theorem sendMessage_cases {src dst : UInt32} {data : List UInt8} {ret : ℕ}
    (h : sendMessage src dst data s = .ok (ret, s')) :
    (ret = 0 ∧ ∃ pkt, IsMessage src dst data pkt ∧ Sends [pkt] s s') ∨ (ret = 1 ∧ s' = s) := by
  unfold sendMessage at h
  split at h
  · simp only [Except.ok.injEq, Prod.mk.injEq] at h
    exact .inr ⟨h.1.symm, h.2.symm⟩
  · rename_i idx tx _
    split at h
    · rename_i hidx
      simp only [Except.ok.injEq, Prod.mk.injEq] at h
      obtain ⟨rfl, rfl⟩ := h
      set pkt := fillPacket (s.bufs (tx.desc ⟨idx.toNat, hidx⟩).addr) src dst data
      refine .inl ⟨rfl, pkt, isMessage_fillPacket _ src dst data, ⟨[.txTake idx, .txWrite idx pkt,
        .txPublish idx pkt (vringPublishBuf tx idx (UInt32.ofNat packetLenMax) true).2], ?_, ?_, ?_⟩,
        rfl, rfl, rfl⟩
      · simp [Fw.emit, pkt]
      · rfl
      · simp [IsRx]
    · cases h

lemma sendLoop_sends {src dst : UInt32} {data : List UInt8} {ass : List (List KernelAct)}
    (h : sendLoop src dst data ass s = .ok s') :
    ∃ pkt, IsMessage src dst data pkt ∧ Sends [pkt] s s' := by
  induction ass generalizing s with
  | nil => cases h
  | cons as rest ih =>
    rw [sendLoop] at h
    have ha := sends_acts s as
    split at h
    · cases h
    · rename_i t hm
      obtain rfl := Except.ok.inj h
      rcases sendMessage_cases hm with ⟨-, pkt, hp, hs⟩ | ⟨hf, -⟩
      · exact ⟨pkt, hp, ha.trans hs⟩
      · cases hf
    · rename_i t hne hm
      rcases sendMessage_cases hm with ⟨rfl, -⟩ | ⟨-, rfl⟩
      · exact absurd rfl hne
      · obtain ⟨pkt, hp, hs⟩ := ih h
        exact ⟨pkt, hp, (ha.trans (sends_txvringTask _)).trans hs⟩

/-- **`block_send_message` sends its message once** when it returns. -/
theorem blockSendMessage_sends {src dst : UInt32} {data : List UInt8}
    (h : blockSendMessage env src dst data s = .ok s') :
    ∃ pkt, IsMessage src dst data pkt ∧ Sends [pkt] s s' := by
  obtain ⟨pkt, hp, hs⟩ := sendLoop_sends h
  exact ⟨pkt, hp, ⟨hs.emits, hs.channels, hs.app, hs.next⟩⟩

/-- What a call of `rpmsg_send` publishes. -/
def Publishes (chs : Fin maxRpmsgCh → Channel κ) :
    Option (Fin maxRpmsgCh) × List UInt8 → List Packet → Prop
  | (none, _), ps => ps = []
  | (some i, data), ps =>
    if (chs i).state = .unused then ps = []
    else ∃ pkt, ps = [pkt] ∧ IsMessage (chs i).localAddr (chs i).remoteAddr data pkt

lemma rpmsgSend_sends {ch : Option (Fin maxRpmsgCh)} {data : List UInt8}
    (h : rpmsgSend env ch data s = .ok s') :
    ∃ ps, Publishes s.channels (ch, data) ps ∧ Sends ps s s' := by
  unfold rpmsgSend at h
  cases ch with
  | none => exact ⟨[], rfl, Except.ok.inj h ▸ .refl s⟩
  | some i =>
    simp only [Publishes]
    cases hst : (s.channels i).state with
    | unused =>
      simp only [hst, ne_eq, reduceCtorEq, not_false_eq_true, and_self, if_true] at h ⊢
      exact ⟨[], rfl, Except.ok.inj h ▸ .refl s⟩
    | announced | up =>
      simp only [hst, ne_eq, reduceCtorEq, not_true_eq_false, not_false_eq_true, and_false, and_true,
        if_false] at h ⊢
      obtain ⟨pkt, hp, hs⟩ := blockSendMessage_sends h
      exact ⟨[pkt], ⟨pkt, rfl, hp⟩, hs⟩

lemma rpmsgSends_sends {sends : List (Option (Fin maxRpmsgCh) × List UInt8)}
    (h : rpmsgSends env sends s = .ok s') :
    ∃ pss, List.Forall₂ (Publishes s.channels) sends pss ∧ Sends pss.flatten s s' := by
  induction sends generalizing s with
  | nil => exact ⟨[], .nil, Except.ok.inj h ▸ .refl s⟩
  | cons p rest ih =>
    obtain ⟨t, ht, h⟩ := bind_eq_ok.1 h
    obtain ⟨ps, hp, hs⟩ := rpmsgSend_sends ht
    obtain ⟨pss, hps, hss⟩ := ih h
    rw [hs.channels] at hps
    exact ⟨ps :: pss, .cons hp hps, hs.trans hss⟩

/-- A new channel, before anything was received on it. -/
def newChannel (addr : UInt32) (cb : Option κ) : Channel κ := ⟨addr, rpmsgAddrAny, .announced, cb⟩

/-- **What `rpmsg_create_ch` does** when it finds a free channel. -/
theorem rpmsgCreateCh_cases {name : CStr} {cb : Option κ} {ch : Option (Fin maxRpmsgCh)}
    {i : Fin maxRpmsgCh}
    (hi : ((List.finRange maxRpmsgCh).find? fun i => (s.channels i).state = .unused) = some i)
    (h : rpmsgCreateCh env name cb s = .ok (ch, s')) :
    ch = some i ∧ s'.app = s.app ∧ s'.nextRpmsgAddr = s.nextRpmsgAddr + 1 ∧
      s'.channels = Function.update s.channels i (newChannel s.nextRpmsgAddr cb) := by
  unfold rpmsgCreateCh at h
  simp only [hi] at h
  obtain ⟨t, ht, h⟩ := bind_eq_ok.1 h
  obtain ⟨rfl, rfl⟩ := Prod.mk.inj (Except.ok.inj h)
  obtain ⟨pkt, -, hs⟩ := blockSendMessage_sends ht
  exact ⟨rfl, hs.app, hs.next, hs.channels⟩

/-! ### Receiving -/

/-- A callback publishes what its calls of `rpmsg_send` publish. -/
theorem callCb_cases {c : κ} {i : Fin maxRpmsgCh} {addr : UInt32} {pkt : Packet}
    (h : callCb app env c i addr pkt s = .ok s') :
    ∃ r pss, app c i pkt.data pkt.len s.app = some r ∧
      List.Forall₂ (Publishes s.channels) r.sends pss ∧ Emits pss.flatten s s' ∧
      s'.channels = s.channels ∧ s'.app = r.app ∧ s'.nextRpmsgAddr = s.nextRpmsgAddr := by
  unfold callCb at h
  simp only at h
  split at h
  · cases h
  · rename_i r hr
    obtain ⟨t, ht, h⟩ := bind_eq_ok.1 h
    obtain rfl := Except.ok.inj h
    obtain ⟨pss, hp, hs⟩ := rpmsgSends_sends ht
    have h1 : Emits [] s (s.emit (.cbCall i)) := emits_emit (fun hf => hf)
    have h2 : Emits [] t (t.emit (.cbReturn i)) := emits_emit (fun hf => hf)
    refine ⟨r, pss, hr, hp, ?_, hs.channels, hs.app, hs.next⟩
    simpa using (h1.trans hs.emits).trans h2

def Accepts (pkt : Packet) (ch : Channel κ) : Prop :=
  (ch.state = .announced ∨ ch.state = .up) ∧ pkt.dst = ch.localAddr

def accepted (pkt : Packet) (ch : Channel κ) : Channel κ := { ch with remoteAddr := pkt.src, state := .up }

/-- Some of the channels that accept the packet have done so, and nothing else has changed. -/
structure Marked (pkt : Packet) (s t : Fw κ α) : Prop where
  channels : ∀ j, t.channels j = s.channels j ∨
    (Accepts pkt (s.channels j) ∧ t.channels j = accepted pkt (s.channels j))
  log : t.log = s.log
  app : t.app = s.app
  next : t.nextRpmsgAddr = s.nextRpmsgAddr

lemma marked_update {pkt : Packet} {i : Fin maxRpmsgCh} (h : Accepts pkt (s.channels i)) :
    Marked pkt s
      { s with channels := Function.update s.channels i (accepted pkt (s.channels i)) } := by
  refine ⟨fun j => ?_, rfl, rfl, rfl⟩
  by_cases hj : j = i
  · subst hj
    exact .inr ⟨h, Function.update_self ..⟩
  · exact .inl (Function.update_of_ne hj ..)

section Marked

variable {pkt : Packet} (h : Marked pkt s t) (j : Fin maxRpmsgCh)
include h

lemma Marked.cb : (t.channels j).cb = (s.channels j).cb := by
  rcases h.channels j with e | ⟨-, e⟩ <;> rw [e]
  rfl

lemma Marked.localAddr : (t.channels j).localAddr = (s.channels j).localAddr := by
  rcases h.channels j with e | ⟨-, e⟩ <;> rw [e]
  rfl

lemma Marked.unused_iff : (t.channels j).state = .unused ↔ (s.channels j).state = .unused := by
  rcases h.channels j with e | ⟨⟨hs, -⟩, e⟩ <;> rw [e]
  rcases hs with hs | hs <;> simp [accepted, hs]

lemma Marked.accepts_iff : Accepts pkt (t.channels j) ↔ Accepts pkt (s.channels j) := by
  rcases h.channels j with e | ⟨ha, e⟩ <;> rw [e]
  exact ⟨fun _ => ha, fun _ => ⟨.inr rfl, ha.2⟩⟩

lemma Marked.accepted_eq : accepted pkt (t.channels j) = accepted pkt (s.channels j) := by
  rcases h.channels j with e | ⟨-, e⟩ <;> rw [e]
  rfl

lemma Marked.trans (h' : Marked pkt t s') : Marked pkt s s' := by
  refine ⟨fun j => ?_, h'.log.trans h.log, h'.app.trans h.app, h'.next.trans h.next⟩
  rcases h'.channels j with e | ⟨ha, e⟩
  · exact (h.channels j).imp e.trans fun ⟨ha, e'⟩ => ⟨ha, e.trans e'⟩
  · exact .inr ⟨(h.accepts_iff j).1 ha, e.trans (h.accepted_eq j)⟩

end Marked

/-- **What the loop of `read_message` does**: it marks the channels that accept the packet, up to the
first of them that has a callback, and calls it. -/
theorem deliver_cases {addr : UInt32} {pkt : Packet} {is : List (Fin maxRpmsgCh)}
    (h : deliver app env addr pkt is s = .ok s') :
    (Marked pkt s s' ∧ ∀ i ∈ is, Accepts pkt (s.channels i) → (s.channels i).cb = none) ∨
      ∃ t i c, Marked pkt s t ∧ Accepts pkt (s.channels i) ∧ (s.channels i).cb = some c ∧
        t.channels i = accepted pkt (s.channels i) ∧ callCb app env c i addr pkt t = .ok s' := by
  induction is generalizing s with
  | nil =>
    obtain rfl := Except.ok.inj h
    exact .inl ⟨⟨fun _ => .inl rfl, rfl, rfl, rfl⟩, fun _ hi => nomatch hi⟩
  | cons i rest ih =>
    rw [deliver] at h
    simp only at h
    split at h
    · rename_i hacc
      have hm := marked_update hacc
      split at h
      · rename_i c hc
        exact .inr ⟨_, i, c, hm, hacc, hc, Function.update_self .., h⟩
      · rename_i hc
        rcases ih h with ⟨hm', hall⟩ | ⟨t, j, c, hm', hj, hc', ht, hcall⟩
        · refine .inl ⟨hm.trans hm', fun j hj hja => ?_⟩
          rcases List.mem_cons.1 hj with rfl | hj
          · exact hc
          · exact (hm.cb j).symm.trans (hall j hj ((hm.accepts_iff j).2 hja))
        · exact .inr ⟨t, j, c, hm.trans hm', (hm.accepts_iff j).1 hj, (hm.cb j).symm.trans hc',
            ht.trans (hm.accepted_eq j), hcall⟩
    · rename_i hacc
      rcases ih h with ⟨hm, hall⟩ | hcase
      · refine .inl ⟨hm, fun j hj hja => ?_⟩
        rcases List.mem_cons.1 hj with rfl | hj
        · exact absurd hja hacc
        · exact hall j hj hja
      · exact .inr hcase

/-- **What `read_message` does**: it takes a packet, delivers it and returns its buffer. -/
theorem readMessage_cases (h : readMessage app env s = .ok s') :
    s' = s.look env ∨
      ∃ rx index addr pkt notified t,
        deliver app env addr pkt (List.finRange maxRpmsgCh)
          ({ s.look env with rx }.emit (.rxTake index pkt)) = .ok t ∧
        s'.log = t.log ++ [.rxPublish index notified] ∧ s'.channels = t.channels ∧
        s'.app = t.app ∧ s'.nextRpmsgAddr = t.nextRpmsgAddr := by
  unfold readMessage at h
  simp only at h
  split at h
  · exact .inl (Except.ok.inj h).symm
  · split at h
    · obtain ⟨t, ht, h⟩ := bind_eq_ok.1 h
      obtain rfl := Except.ok.inj h
      exact .inr ⟨_, _, _, _, _, t, ht, rfl, rfl, rfl, rfl⟩
    · cases h

end Calls

end CfgMgmt.Firmware.Sending
