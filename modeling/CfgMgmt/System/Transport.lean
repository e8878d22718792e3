import CfgMgmt.Firmware.Endpoint
import CfgMgmt.Kernel.Kstrtol
import CfgMgmt.System.Isolation

/-!
# The channels of the system are the rings

In `System.step` the requests and the replies travel through two FIFO channels, and the firmware serves a
request in one step.  Here they travel as packets through the two rings, past Linux's rpmsg bus (`Bus`),
and the firmware runs its own code.  Every such run is a run of the system (`refines_run`).
-/

namespace CfgMgmt.System.Transport

open CfgMgmt.Lib CfgMgmt.Lib.Bytes CfgMgmt.Lib.Machine CfgMgmt.Msg
open CfgMgmt.Firmware.Config (VarCount CbSem Table World Cfg)
open CfgMgmt.Firmware.Remoteproc CfgMgmt.Firmware.Buffers CfgMgmt.Firmware.Main
open CfgMgmt.Firmware.Sending hiding Sends
open CfgMgmt.Firmware.Sending (Sends)
open CfgMgmt.Firmware.Steps CfgMgmt.Firmware.Delivery CfgMgmt.Firmware.Server CfgMgmt.Firmware.Endpoint
open CfgMgmt.Firmware.Replies (Serving Ready serve_out)
open CfgMgmt.Firmware.ConfigRefinement (configMsgHandler_serves)
open CfgMgmt.Kernel.RpmsgLink CfgMgmt.Kernel.Files
open CfgMgmt.System.Isolation (Served Grows served_step served_start)

/-! ### Linux -/

/-- The kernel module, and what the rpmsg bus has done for it. -/
structure Bus where
  k : Driver
  /-- how many of its requests were put into the receive ring -/
  offered : ℕ
  /-- the messages that were published for it on the transmit ring -/
  sent : List Packet
  /-- how many of them were passed to `cfg_mgmt_rpmsg_cb` -/
  received : ℕ

/-- What happens at the two ends of the rings. -/
inductive Joint
  /-- a call of a client, or its return from a wait -/
  | client (e : Kernel.Files.Event)
  /-- an event of the rings -/
  | ring (e : Ev)
  /-- the next message reaches the kernel module -/
  | receive

def Joint.ring? : Joint → Option Ev
  | .ring e => some e
  | _ => none

section Machine

variable (kstrtol : List UInt8 → Int32 × Int32) (a ka : UInt32)

/-- The packet carries a request from the module, whose address is `ka`, to the channel with the address
`a`. -/
def IsRequest (pkt : Packet) (req : CfgMsg) : Prop :=
  pkt.src = ka ∧ pkt.dst = a ∧ pkt.len.toNat = sizeofCfgMsg ∧ cfgMsg pkt.data = req

instance (pkt : Packet) (req : CfgMsg) : Decidable (IsRequest a ka pkt req) :=
  inferInstanceAs (Decidable (_ ∧ _ ∧ _ ∧ _))

/-- The rpmsg bus puts the requests of the module into the receive ring in their order, and passes the
messages for its address to it in the order of the transmit ring.  Nobody else sends from its address or to
its channel. -/
def Bus.step (b : Bus) : Joint → Option Bus
  | .client (.reply _) => none
  | .client e => do
    let k ← Kernel.Files.step kstrtol b.k e
    some { b with k }
  | .ring (.kernel (.offerRx _ pkt)) =>
    if pkt.src = ka ∨ pkt.dst = a then do
      let req ← b.k.link.wire[b.offered]?
      if IsRequest a ka pkt req then some { b with offered := b.offered + 1 } else none
    else some b
  | .ring (.txPublish _ p _) => if p.dst = ka then some { b with sent := b.sent ++ [p] } else some b
  | .ring _ => some b
  | .receive => do
    let p ← b.sent[b.received]?
    let k ← Kernel.Files.step kstrtol b.k (.reply (p.data.read p.len.toNat))
    some { b with k, received := b.received + 1 }

/-- Before the clients come. -/
def Bus.start (idle : Idle) : Bus := ⟨idle.k, 0, [], 0⟩

/-- What the event is in the system: the firmware serves a request when it takes its packet. -/
def Joint.seen : Joint → Option Event
  | .client e => some (.client e)
  | .ring (.rxTake _ pkt) => if pkt.dst = a then some .serve else none
  | .ring _ => none
  | .receive => some .deliver

end Machine

/-! ### The requests in the receive ring -/

/-- A packet in the receive ring, as a request with its sender. -/
def request? (a : UInt32) (w : UInt16 × Packet) : Option (UInt32 × CfgMsg) :=
  if w.2.dst = a then some (w.2.src, cfgMsg w.2.data) else none

/-- What happens to the requests in the receive ring. -/
def requestOps (a : UInt32) (log : List Ev) : List (Fifo.Op (UInt32 × CfgMsg)) :=
  (rxOps log).filterMap (Fifo.Op.filterMap (request? a))

section RequestOps

variable {a : UInt32}

lemma requestOps_append (log log' : List Ev) :
    requestOps a (log ++ log') = requestOps a log ++ requestOps a log' := by
  unfold requestOps
  rw [rxOps_append, List.filterMap_append]

lemma requestOps_offerRx (d : Fin Firmware.VirtioRing.vringSize) (pkt : Packet) :
    requestOps a [.kernel (.offerRx d pkt)] =
      if pkt.dst = a then [.put (pkt.src, cfgMsg pkt.data)] else [] := by
  by_cases h : pkt.dst = a <;> simp [requestOps, rxOps, Fifo.Op.filterMap, request?, h]

lemma requestOps_rxTake (d : UInt16) (pkt : Packet) :
    requestOps a [.rxTake d pkt] =
      if pkt.dst = a then [.take (pkt.src, cfgMsg pkt.data)] else [] := by
  by_cases h : pkt.dst = a <;> simp [requestOps, rxOps, Fifo.Op.filterMap, request?, h]

end RequestOps

/-! ### The simulation -/

section Simulation

variable {n : VarCount} {κ δ ε : Type} {kstrtol : List UInt8 → Int32 × Int32}
  {sem : CbSem n κ δ ε (List UInt8)} {a ka : UInt32}
  {d d' : Desk n κ δ ε} {q q' : List (UInt32 × CfgMsg)} {b b' : Bus}
  {s s' : Sys n κ δ ε (List UInt8)}

/-- The registers of the firmware of the system. -/
def regsOf (fw : Cfg n κ δ ε (List UInt8)) : Regs n κ δ ε := ⟨fw.w.vars, fw.w.ext, fw.txBuf⟩

/-- The state of the system, and what there is at the two ends of the rings and in the receive ring. -/
structure Sim (ka : UInt32) (d : Desk n κ δ ε) (q : List (UInt32 × CfgMsg)) (b : Bus)
    (s : Sys n κ δ ε (List UInt8)) : Prop where
  k : s.k = b.k
  regs : regsOf s.fw = d.regs
  ring : q = ((b.k.link.wire.take b.offered).drop s.served).map (Prod.mk ka)
  offered_le : b.offered ≤ b.k.link.wire.length
  served_le : s.served ≤ b.offered
  due : ∀ x ∈ d.due, x.1 = ka
  /-- the reply that is due is already sent in the system -/
  replies : s.replies = b.sent.map (fun p => cfgMsg p.data) ++ d.due.toList.map Prod.snd
  len : ∀ p ∈ b.sent, p.len.toNat = sizeofCfgMsg
  delivered : s.delivered = b.received

lemma received_read {p : Packet} (h : p.len.toNat = sizeofCfgMsg) :
    CfgMsg.received (p.data.read p.len.toNat) = some (cfgMsg p.data) := by
  have hlen : (p.data.read p.len.toNat).length = sizeofCfgMsg := by
    rw [Buf.length_read, h]
    decide
  have hpre : p.data.read p.len.toNat <+: p.data.bytes := List.take_prefix ..
  unfold CfgMsg.received
  rw [dif_pos hlen, cfgMsg]
  unfold CfgMsg.decode
  have hat : ∀ {off}, off + 4 ≤ sizeofCfgMsg →
      u32At (p.data.read p.len.toNat) off = u32At p.data.bytes off := fun hoff =>
    (u32At_of_isPrefix hpre (by rw [hlen]; exact hoff)).symm
  rw [hat (by decide), hat (by decide), hat (by decide), hat (by decide), hat (by decide)]
  congr 2
  refine Buf.ext ?_
  show ((p.data.read p.len.toNat).drop 20).take msgDataSize = (p.data.bytes.drop 20).take msgDataSize
  rw [Buf.read, h, List.drop_take, List.take_take]
  rfl

lemma rpmsgCb_congr {data data' : List UInt8} (h : CfgMsg.received data = CfgMsg.received data')
    (l : Link) : l.rpmsgCb data = l.rpmsgCb data' := by
  unfold Link.rpmsgCb
  rw [h]

lemma sim_client {e : Kernel.Files.Event} (h : Sim ka d q b s) (hserved : Served sem s)
    (hb : b.step kstrtol a ka (.client e) = some b') :
    ∃ s', step kstrtol sem s (.client e) = some s' ∧ Sim ka d q b' s' := by
  have he : ∀ data, e ≠ .reply data := by
    rintro data rfl
    cases hb
  have hb : ((Kernel.Files.step kstrtol b.k e).bind fun k => some { b with k }) = some b' := by
    cases e with
    | reply data => exact absurd rfl (he data)
    | _ => exact hb
  obtain ⟨k', hk, hb⟩ := Option.bind_eq_some_iff.1 hb
  obtain rfl := Option.some.inj hb
  obtain ⟨s', hs, hs'⟩ : ∃ s', step kstrtol sem s (.client e) = some s' ∧
      s' = { s with k := k', hist := observe kstrtol s.k k' s.hist e } := by
    refine ⟨_, ?_, rfl⟩
    rw [← h.k] at hk
    cases e with
    | reply data => exact absurd rfl (he data)
    | _ =>
      simp only [step, hk]
      rfl
  have hw : b.k.link.wire <+: k'.link.wire := by
    have hg := (served_step hserved hs).2.wire
    rwa [hs', h.k] at hg
  refine ⟨s', hs, ?_⟩
  subst hs'
  have hring : k'.link.wire.take b.offered = b.k.link.wire.take b.offered := by
    obtain ⟨rest, hrest⟩ := hw
    rw [← hrest, List.take_append_of_le_length h.offered_le]
  exact ⟨rfl, h.regs, hring ▸ h.ring, h.offered_le.trans hw.length_le, h.served_le, h.due, h.replies, h.len,
    h.delivered⟩

lemma sim_receive (h : Sim ka d q b s) (hb : b.step kstrtol a ka .receive = some b') :
    ∃ s', step kstrtol sem s .deliver = some s' ∧ Sim ka d q b' s' := by
  obtain ⟨p, hp, hb⟩ := Option.bind_eq_some_iff.1 hb
  obtain rfl := Option.some.inj hb
  have hrep : s.replies[s.delivered]? = some (cfgMsg p.data) := by
    have hmap : (b.sent.map fun p => cfgMsg p.data)[b.received]? = some (cfgMsg p.data) := by
      rw [List.getElem?_map, hp]
      rfl
    rw [h.replies, h.delivered]
    exact getElem?_of_isPrefix (List.prefix_append ..) hmap
  have hcb : b.k.link.rpmsgCb (cfgMsg p.data).encode = b.k.link.rpmsgCb (p.data.read p.len.toNat) := by
    refine rpmsgCb_congr ?_ _
    rw [CfgMsg.received_encode, received_read (h.len p (List.mem_of_getElem? hp))]
  obtain ⟨-, -, hwire⟩ := b.k.link.rpmsgCb_keeps (p.data.read p.len.toNat)
  refine ⟨{ s with
      k := { b.k with link := b.k.link.rpmsgCb (p.data.read p.len.toNat) }
      delivered := s.delivered + 1 }, ?_, ?_⟩
  · simp only [step, hrep, Kernel.Files.step, Option.bind_eq_bind, Option.bind_some, hcb, h.k]
  · refine ⟨rfl, h.regs, ?_, ?_, h.served_le, h.due, h.replies, h.len, congrArg (· + 1) h.delivered⟩
    · show q = (((b.k.link.rpmsgCb (p.data.read p.len.toNat)).wire.take _).drop _).map _
      rw [hwire]
      exact h.ring
    · show b.offered ≤ (b.k.link.rpmsgCb (p.data.read p.len.toNat)).wire.length
      rw [hwire]
      exact h.offered_le

/-- **A packet is put into the receive ring.** -/
lemma sim_offer {f : Fin Firmware.VirtioRing.vringSize} {pkt : Packet} (h : Sim ka d q b s)
    (hb : b.step kstrtol a ka (.ring (.kernel (.offerRx f pkt))) = some b')
    (hq : run Fifo.step q (requestOps a [.kernel (.offerRx f pkt)]) = some q') : Sim ka d q' b' s := by
  rw [requestOps_offerRx] at hq
  simp only [Bus.step] at hb
  split at hb
  · obtain ⟨req, hreq, hb⟩ := Option.bind_eq_some_iff.1 hb
    obtain ⟨⟨hsrc, hdst, -, hmsg⟩, hb⟩ := Option.ite_none_right_eq_some.1 hb
    obtain rfl := Option.some.inj hb
    rw [if_pos hdst, hsrc, hmsg] at hq
    obtain ⟨t, ht, hq⟩ := run_cons_eq_some.1 hq
    obtain rfl := Option.some.inj hq
    rw [Fifo.step_put] at ht
    obtain rfl := Option.some.inj ht
    obtain ⟨hlt, -⟩ := List.getElem?_eq_some_iff.1 hreq
    refine ⟨h.k, h.regs, ?_, hlt, h.served_le.trans (Nat.le_succ _), h.due, h.replies, h.len, h.delivered⟩
    have hle : s.served ≤ (b.k.link.wire.take b.offered).length := by
      rw [List.length_take]
      exact h.served_le.trans (Nat.le_of_eq (min_eq_left h.offered_le).symm)
    show q ++ [(ka, req)] = ((b.k.link.wire.take (b.offered + 1)).drop s.served).map (Prod.mk ka)
    rw [List.take_add_one, hreq, List.drop_append_of_le_length hle, List.map_append, ← h.ring]
    rfl
  · rename_i hother
    obtain rfl := Option.some.inj hb
    rw [if_neg fun hdst => hother (.inr hdst)] at hq
    obtain rfl := Option.some.inj hq
    exact h

/-- The next request is served in the system, where more was printed before. -/
lemma serve_system {req : CfgMsg} {regs : Regs n κ δ ε} (hreq : s.k.link.wire[s.served]? = some req)
    (hregs : regs.serve sem req = some d'.regs) (h : regsOf s.fw = regs) :
    ∃ s', step kstrtol sem s .serve = some s' ∧ regsOf s'.fw = d'.regs ∧ s'.k = s.k ∧
      s'.served = s.served + 1 ∧ s'.replies = s.replies ++ [d'.regs.cfgMsgTxBuf] ∧
      s'.delivered = s.delivered := by
  obtain ⟨c, hc, hregs'⟩ := Option.bind_eq_some_iff.1 hregs
  have hfw : s.fw = afterCfg s.fw.w.out ⟨⟨regs.vars, regs.ext, []⟩, regs.cfgMsgTxBuf⟩ := by
    subst h
    simp [afterCfg, after, regsOf]
  have hrun := configMsgHandler_after sem s.fw.w.out req ⟨⟨regs.vars, regs.ext, []⟩, regs.cfgMsgTxBuf⟩
  rw [← hfw, hc, Option.map_some] at hrun
  have hnew : newReplies s.fw (afterCfg s.fw.w.out c) = [c.txBuf] := by
    obtain ⟨rep, hrep, -⟩ :=
      configMsgHandler_serves sem req ⟨⟨regs.vars, regs.ext, []⟩, regs.cfgMsgTxBuf⟩
    obtain rfl := Option.some.inj (hc.symm.trans hrep)
    obtain ⟨prints, hout⟩ := serve_out sem ⟨regs.vars, regs.ext, []⟩
      (Firmware.ConfigRefinement.query n req)
    simp [newReplies, afterCfg, after, Firmware.Config.send, hout, List.filterMap_append]
  refine ⟨{ s with
      fw := afterCfg s.fw.w.out c, served := s.served + 1, replies := s.replies ++ [c.txBuf]
      hist := { s.hist with found := s.hist.found ++ [s.fw.w] } },
    ?_, Option.some.inj hregs', rfl, rfl, ?_, rfl⟩
  · simp only [step, hreq, hrun, hnew, Option.bind_eq_bind, Option.bind_some]
  · rw [← Option.some.inj hregs']

/-- **A packet is taken from the receive ring.** -/
lemma sim_take {idx : UInt16} {pkt : Packet} (h : Sim ka d q b s)
    (hd : d.next sem a (.rxTake idx pkt) = some d')
    (hq : run Fifo.step q (requestOps a [.rxTake idx pkt]) = some q') :
    ∃ s', run (step kstrtol sem) s ((Joint.ring (.rxTake idx pkt)).seen a).toList = some s' ∧
      Sim ka d' q' b s' := by
  rw [requestOps_rxTake] at hq
  obtain ⟨regs, due⟩ := d
  cases due with
  | some x => cases hd
  | none =>
    by_cases hdst : pkt.dst = a
    · -- the oldest request of the module, which has not been served
      rw [if_pos hdst] at hq
      obtain ⟨t, ht, hq⟩ := run_cons_eq_some.1 hq
      obtain rfl := Option.some.inj hq
      rw [Fifo.step_take_eq_some, h.ring] at ht
      obtain ⟨req, rest, hdrop, hreq, rfl⟩ := List.map_eq_cons_iff.1 ht
      obtain ⟨hsrc, hmsg⟩ := Prod.mk.inj hreq
      have hget : (b.k.link.wire.take b.offered)[s.served]? = some req := by
        rw [← List.head?_drop, hdrop]
        rfl
      have hwire : s.k.link.wire[s.served]? = some req := by
        rw [h.k]
        exact getElem?_of_isPrefix (List.take_prefix ..) hget
      obtain ⟨hlt, -⟩ := List.getElem?_eq_some_iff.1 hget
      rw [List.length_take] at hlt
      simp only [Desk.next, if_pos hdst, ← hmsg, ← hsrc] at hd
      obtain ⟨regs', hserve, hd⟩ := Option.bind_eq_some_iff.1 hd
      obtain rfl := Option.some.inj hd
      obtain ⟨s', hs, hregs, hk, hserved, hreplies, hdel⟩ :=
        serve_system hwire (show regs.serve sem req = some (Desk.mk regs' (some (ka, regs'.cfgMsgTxBuf))).regs
          from hserve) h.regs
      refine ⟨s', ?_, hk.trans h.k, hregs, ?_, h.offered_le, ?_, ?_, ?_, h.len, hdel.trans h.delivered⟩
      · simp only [Joint.seen, if_pos hdst]
        exact run_cons_eq_some.2 ⟨s', hs, rfl⟩
      · rw [hserved, ← List.drop_drop, hdrop]
        rfl
      · rw [hserved]
        omega
      · rintro x ⟨⟩
        rfl
      · rw [hreplies, h.replies]
        simp
    · rw [if_neg hdst] at hq
      obtain rfl := Option.some.inj hq
      simp only [Desk.next, if_neg hdst] at hd
      obtain rfl := Option.some.inj hd
      simp only [Joint.seen, if_neg hdst]
      exact ⟨s, rfl, h⟩

lemma sim_publish {idx : UInt16} {p : Packet} {notified : Bool} (h : Sim ka d q b s)
    (hp : p.dst = ka → p.src = a) (hb : b.step kstrtol a ka (.ring (.txPublish idx p notified)) = some b')
    (hd : d.next sem a (.txPublish idx p notified) = some d') : Sim ka d' q b' s := by
  simp only [Bus.step] at hb
  simp only [Desk.next] at hd
  by_cases hsrc : p.src = a
  · rw [if_pos hsrc] at hd
    obtain ⟨regs, due⟩ := d
    cases due with
    | none => cases hd
    | some x =>
      obtain ⟨dst, rep⟩ := x
      obtain ⟨⟨hdst, hlen, hmsg⟩, hd⟩ := Option.ite_none_right_eq_some.1 hd
      obtain rfl := Option.some.inj hd
      have hka : dst = ka := h.due (dst, rep) rfl
      rw [if_pos (hdst.trans hka)] at hb
      obtain rfl := Option.some.inj hb
      refine ⟨h.k, h.regs, h.ring, h.offered_le, h.served_le, ?_, ?_, ?_, h.delivered⟩
      · rintro x ⟨⟩
      · rw [h.replies]
        simp [hmsg]
      · intro p' hp'
        rcases List.mem_append.1 hp' with hp' | hp'
        · exact h.len p' hp'
        · exact List.mem_singleton.1 hp' ▸ hlen
  · rw [if_neg hsrc] at hd
    obtain rfl := Option.some.inj hd
    rw [if_neg fun hdst => hsrc (hp hdst)] at hb
    obtain rfl := Option.some.inj hb
    exact h

lemma sim_ring {e : Ev} (h : Sim ka d q b s) (hsent : ∀ p ∈ sent [e], p.dst = ka → p.src = a)
    (hb : b.step kstrtol a ka (.ring e) = some b') (hd : d.next sem a e = some d')
    (hq : run Fifo.step q (requestOps a [e]) = some q') :
    ∃ s', run (step kstrtol sem) s ((Joint.ring e).seen a).toList = some s' ∧ Sim ka d' q' b' s' := by
  have hquiet : b' = b → d' = d → q' = q →
      ∃ s', run (step kstrtol sem) s [] = some s' ∧ Sim ka d' q' b' s' := by
    rintro rfl rfl rfl
    exact ⟨s, rfl, h⟩
  cases e with
  | rxTake idx pkt =>
    obtain rfl := Option.some.inj hb
    exact sim_take h hd hq
  | txPublish idx p notified =>
    obtain rfl := Option.some.inj hq
    exact ⟨s, rfl, sim_publish h (hsent p List.mem_cons_self) hb hd⟩
  | rxPublish idx notified =>
    obtain ⟨regs, due⟩ := d
    cases due with
    | some x => cases hd
    | none => exact hquiet (Option.some.inj hb).symm (Option.some.inj hd).symm (Option.some.inj hq).symm
  | kernel act =>
    obtain rfl := Option.some.inj hd
    cases act with
    | offerRx f pkt => exact ⟨s, rfl, sim_offer h hb hq⟩
    | _ => exact hquiet (Option.some.inj hb).symm rfl (Option.some.inj hq).symm
  | _ => exact hquiet (Option.some.inj hb).symm (Option.some.inj hd).symm (Option.some.inj hq).symm

theorem sim_step {j : Joint} (h : Sim ka d q b s) (hserved : Served sem s)
    (hsent : ∀ p ∈ sent j.ring?.toList, p.dst = ka → p.src = a) (hb : b.step kstrtol a ka j = some b')
    (hd : run (Desk.next sem a) d j.ring?.toList = some d')
    (hq : run Fifo.step q (requestOps a j.ring?.toList) = some q') :
    ∃ s', run (step kstrtol sem) s (j.seen a).toList = some s' ∧ Sim ka d' q' b' s' := by
  cases j with
  | client e =>
    obtain rfl := Option.some.inj hd
    obtain rfl := Option.some.inj hq
    obtain ⟨s', hs, h'⟩ := sim_client h hserved hb
    exact ⟨s', run_cons_eq_some.2 ⟨s', hs, rfl⟩, h'⟩
  | ring e =>
    obtain ⟨t, ht, hd⟩ := run_cons_eq_some.1 hd
    obtain rfl := Option.some.inj hd
    exact sim_ring h hsent hb ht hq
  | receive =>
    obtain rfl := Option.some.inj hd
    obtain rfl := Option.some.inj hq
    obtain ⟨s', hs, h'⟩ := sim_receive h hb
    exact ⟨s', run_cons_eq_some.2 ⟨s', hs, rfl⟩, h'⟩

lemma filterMap_cons_toList {α β : Type} (f : α → Option β) (x : α) (l : List α) :
    (x :: l).filterMap f = (f x).toList ++ l.filterMap f := by
  rw [List.filterMap_cons]
  cases f x <;> rfl

theorem sim_run {js : List Joint} (h : Sim ka d q b s) (hserved : Served sem s)
    (hsent : ∀ p ∈ sent (js.filterMap Joint.ring?), p.dst = ka → p.src = a)
    (hb : run (Bus.step kstrtol a ka) b js = some b')
    (hd : run (Desk.next sem a) d (js.filterMap Joint.ring?) = some d')
    (hq : run Fifo.step q (requestOps a (js.filterMap Joint.ring?)) = some q') :
    ∃ s', run (step kstrtol sem) s (js.filterMap (Joint.seen a)) = some s' ∧ Sim ka d' q' b' s' := by
  induction js generalizing d q b s with
  | nil =>
    obtain rfl := Option.some.inj hb
    obtain rfl := Option.some.inj hd
    obtain rfl := Option.some.inj hq
    exact ⟨s, rfl, h⟩
  | cons j js ih =>
    rw [filterMap_cons_toList] at hsent hd hq ⊢
    obtain ⟨b₁, hb₁, hb⟩ := run_cons_eq_some.1 hb
    obtain ⟨d₁, hd₁, hd⟩ := run_append_eq_some.1 hd
    rw [requestOps_append] at hq
    obtain ⟨q₁, hq₁, hq⟩ := run_append_eq_some.1 hq
    obtain ⟨s₁, hs₁, h₁⟩ := sim_step h hserved
      (fun p hp => hsent p (by rw [sent_append]; exact List.mem_append_left _ hp)) hb₁ hd₁ hq₁
    have hserved₁ : Served sem s₁ := run_invariant (P := Served sem)
      (fun _ _ _ ht hs => (served_step ht hs).1) hserved hs₁
    obtain ⟨s', hs', h'⟩ := ih h₁ hserved₁
      (fun p hp => hsent p (by rw [sent_append]; exact List.mem_append_right _ hp)) hb hd hq
    exact ⟨s', run_append_eq_some.2 ⟨s₁, hs₁, hs'⟩, h'⟩

end Simulation

/-! ### Every run -/

section Run

variable {n : VarCount} {κ δ ε : Type} {kstrtol : List UInt8 → Int32 × Int32}
  {sem : CbSem n κ δ ε (List UInt8)} {env : Env} {ic : Fin maxRpmsgCh} {a ka : UInt32}
  {s₀ s : State n κ δ ε} {b₀ b : Bus}

variable (sem) in
/-- The callbacks of the channels store their 0 behind the text. -/
lemma tidy_handlers : Tidy (handlers sem) := by
  rintro pkt k ⟨c, i, m, r, hr, hk⟩ hlen
  cases c with
  | stdioMsgHandler =>
    obtain rfl := Option.some.inj hr
    unfold stdioMsgHandler at hk
    split at hk
    · cases hk
    · exact Option.some.inj hk ▸ hlen
  | configMsgHandler =>
    obtain ⟨c, -, hr⟩ := Option.bind_eq_some_iff.1 hr
    obtain rfl := Option.some.inj hr
    cases hk

/-- What the bus lets into the ring: what comes from the module goes to its channel, and nothing else
does. -/
lemma offers_of_run {js : List Joint} (hb : run (Bus.step kstrtol a ka) b₀ js = some b) :
    ∀ w ∈ Fifo.puts (rxOps (js.filterMap Joint.ring?)), w.2.src = ka ↔ w.2.dst = a := by
  induction js generalizing b₀ with
  | nil => exact fun w hw => absurd hw List.not_mem_nil
  | cons j js ih =>
    obtain ⟨t, ht, hb⟩ := run_cons_eq_some.1 hb
    have ih := ih hb
    rw [filterMap_cons_toList, rxOps_append, Fifo.puts_append]
    intro w hw
    rcases List.mem_append.1 hw with hw | hw
    · cases j with
      | client | receive => exact absurd hw List.not_mem_nil
      | ring e =>
        cases e with
        | kernel act =>
          cases act with
          | offerRx f pkt =>
            obtain rfl := List.mem_singleton.1 hw
            simp only [Bus.step] at ht
            split at ht
            · obtain ⟨req, -, ht⟩ := Option.bind_eq_some_iff.1 ht
              obtain ⟨⟨hsrc, hdst, -⟩, -⟩ := Option.ite_none_right_eq_some.1 ht
              exact iff_of_true hsrc hdst
            · rename_i hother
              exact iff_of_false (fun h => hother (.inl h)) fun h => hother (.inr h)
          | _ => exact absurd hw List.not_mem_nil
        | _ => exact absurd hw List.not_mem_nil
    · exact ih w hw

lemma mem_takes_of_mem_received {log : List Ev} {pkt : Packet}
    (h : pkt ∈ Firmware.Channels.received log) : ∃ d, (d, pkt) ∈ Fifo.takes (rxOps log) := by
  obtain ⟨e, he, hpkt⟩ := List.mem_filterMap.1 h
  cases e with
  | rxTake d pkt' =>
    obtain rfl := Option.some.inj hpkt
    exact ⟨d, List.mem_filterMap.2 ⟨.take (d, pkt'), List.mem_filterMap.2 ⟨_, he, rfl⟩, rfl⟩⟩
  | _ => cases hpkt

/-- The link before the module has sent its first request. -/
structure Opened (ic : Fin maxRpmsgCh) (a ka : UInt32) (s₀ : State n κ δ ε) : Prop where
  serving : Serving ic a s₀
  start : Start (shared s₀)
  others : ∀ i ≠ ic, (s₀.channels i).remoteAddr ≠ ka
  waiting : ∀ w ∈ waiting (shared s₀), w.2.src ≠ ka ∧ w.2.dst ≠ a

/-- The firmware and Linux are where the system is. -/
structure Realizes (a ka : UInt32) (s : State n κ δ ε) (b : Bus) (sys : Sys n κ δ ε (List UInt8)) :
    Prop where
  k : sys.k = b.k
  vars : sys.fw.w.vars = s.app.vars
  ext : sys.fw.w.ext = s.app.ext
  /-- in the receive ring there are the requests that were sent and not served -/
  ring : (waiting (shared s)).filterMap (request? a) =
    ((b.k.link.wire.take b.offered).drop sys.served).map (Prod.mk ka)
  replies : sys.replies = b.sent.map fun p => cfgMsg p.data
  delivered : sys.delivered = b.received

/-- **The rings implement the channels of the system.**  Whatever the firmware prints, and however the
clients, the rpmsg bus and the firmware take turns, as long as the kernel is honest with its buffers: what
the clients see is a run of the system. -/
theorem refines_run {idle : Idle} {acts : List (Act κ δ ε)} {js : List Joint} (h : Opened ic a ka s₀)
    (hcalm : ∀ x ∈ acts, Calm x) (hr : run (Firmware.Main.step sem env) s₀ acts = some s)
    (hh : Honest (shared s₀) s.log) (hjs : js.filterMap Joint.ring? = s.log)
    (hb : run (Bus.step kstrtol a ka) (.start idle) js = some b) :
    ∃ sys, run (step kstrtol sem)
        (start idle ⟨⟨s₀.app.vars, s₀.app.ext, []⟩, s₀.app.cfgMsgTxBuf⟩) (js.filterMap (Joint.seen a)) =
      some sys ∧ Realizes a ka s b sys := by
  have hlog : s₀.log = [] := h.start.log
  have hprivate : Private ic a ka s₀ := by
    refine ⟨h.others, fun p hp => ?_⟩
    rw [hlog] at hp
    exact absurd hp List.not_mem_nil
  have hsince := since_run h.serving hprivate hcalm hr
  have hfifo : run Fifo.step (waiting (shared s₀)) (rxOps s.log) = some (waiting (shared s)) :=
    (carried_of_reaches (tidy_handlers sem) h.start hsince.reaches hh).received
  -- what the firmware has received was put into the ring by the bus
  have hloyal : Loyal a ka s.log := by
    intro pkt hpkt
    obtain ⟨d, hd⟩ := mem_takes_of_mem_received hpkt
    have hmem := List.mem_append_left (waiting (shared s)) hd
    rw [← Fifo.puts_of_run hfifo] at hmem
    rcases List.mem_append.1 hmem with hmem | hmem
    · exact fun hsrc => absurd hsrc (h.waiting _ hmem).1
    · rw [← hjs] at hmem
      exact (offers_of_run hb _ hmem).1
  have hring := Fifo.run_filterMap (request? a) hfifo
  have hnone : (waiting (shared s₀)).filterMap (request? a) = [] :=
    List.filterMap_eq_nil_iff.2 fun w hw => if_neg (h.waiting w hw).2
  rw [hnone] at hring
  obtain ⟨seg, hseg, hworks⟩ := hsince.works
  rw [hlog, List.nil_append] at hseg
  have hsim : Sim ka ⟨.of s₀.app, none⟩ [] (.start idle)
      (start idle ⟨⟨s₀.app.vars, s₀.app.ext, []⟩, s₀.app.cfgMsgTxBuf⟩) :=
    ⟨rfl, rfl, rfl, Nat.zero_le _, Nat.le_refl _, fun _ hx => absurd hx.symm (Option.some_ne_none _), rfl,
      fun _ hp => absurd hp List.not_mem_nil, rfl⟩
  obtain ⟨sys, hsys, hend⟩ := sim_run hsim (served_start idle _)
    (by rw [hjs]; exact (hsince.loyal hloyal).sent) hb (by rw [hjs, hseg]; exact hworks)
    (by rw [hjs]; exact hring)
  exact ⟨sys, hsys, hend.k, congrArg Regs.vars hend.regs, congrArg Regs.ext hend.regs, hend.ring,
    hend.replies.trans (List.append_nil _), hend.delivered⟩

end Run

/-! ### A read of a variable -/

open CfgMgmt.Kernel.Kstrtol (kstrtol)

lemma zero_lt_maxRpmsgCh : 0 < maxRpmsgCh := by decide

lemma one_lt_maxRpmsgCh : 1 < maxRpmsgCh := by decide

/-- The firmware after `cfgInit`, with the buffers where `echoFw` has them.  Its first channel is connected
to the address `0x3ff`. -/
def linkFw : State ⟨1, one_lt_limit⟩ Empty Unit Unit :=
  let fw := remoteprocInit (Fw.loaded (Mem.loaded oneVar ()))
  { fw with
    rx := echoFw.rx
    tx := echoFw.tx
    channels := Function.update
      (Function.update fw.channels ⟨0, zero_lt_maxRpmsgCh⟩ ⟨appAddrStart, 0x3ff, .up, some .stdioMsgHandler⟩)
      ⟨1, one_lt_maxRpmsgCh⟩ (newChannel (appAddrStart + 1) (some .configMsgHandler))
    app := { fw.app with
      rpmsgConfig := some ⟨1, one_lt_maxRpmsgCh⟩, rpmsgStdio := some ⟨0, zero_lt_maxRpmsgCh⟩, stdioInit := true } }

/-- A request for the value of the variable, and a transmit buffer for the reply. -/
def linkEnv : Env
  | 0 => [[.offerTx 4, .offerRx 9 (reqPacket ⟨0, reqRd, 0, 0, 0, .zero _⟩), .kickRx]]
  | _ => [[]]

/-- The channels are polled once. -/
def linkActs : List (Act Empty Unit Unit) := [.poll 1]

lemma opened_link : Opened 1 (appAddrStart + 1) 0x400 linkFw := by
  have hholds := (start_loaded (κ := Handler) (Mem.loaded oneVar ())).holds
  have hother : ∀ j : Fin maxRpmsgCh, j ≠ 1 → (linkFw.channels j).localAddr ≠ appAddrStart + 1 ∧
      (linkFw.channels j).cb ≠ some .configMsgHandler ∧ (linkFw.channels j).remoteAddr ≠ 0x400 := by
    decide
  have hready : Ready 1 (appAddrStart + 1) linkFw := by
    refine ⟨rfl, by decide, by decide, rfl, rfl, fun j hj => (hother j hj).1, fun j hcb => ?_⟩
    by_contra hj
    exact (hother j hj).2.1 hcb
  have hwaiting : waiting (shared linkFw) = [] :=
    congrArg (List.map _) (Ring.unread_self _ (UInt16.toNat_lt_size 0))
  refine ⟨⟨⟨hholds.log, hholds.rxIdx, hholds.txIdx, hholds.rxOffered, hholds.txOffered⟩, hready, rfl⟩, ?_,
    fun j hj => (hother j hj).2.2, ?_⟩
  · obtain ⟨-, hsep, hlt, hrx, htx, hshort⟩ := start_echo
    exact ⟨rfl, hsep.of_addr (fun _ => rfl) fun _ => rfl, hlt, hrx, htx, hshort⟩
  · rw [hwaiting]
    exact fun w hw => absurd hw List.not_mem_nil

/-- A client opens the file of the value, the firmware does its work, the reply arrives, and the client
reads. -/
def linkRun (log : List Ev) : List Joint :=
  .client (.openVar 0 ⟨0, .val⟩ true false false true 0) :: (log.map .ring ++
    [.receive, .client (.read 0 16 none false 0)])

lemma ring?_linkRun (log : List Ev) : (linkRun log).filterMap Joint.ring? = log := by
  have hlog : (log.map Joint.ring).filterMap Joint.ring? = log := by
    rw [List.filterMap_map]
    exact List.filterMap_some
  rw [linkRun, List.filterMap_cons_none rfl, List.filterMap_append, hlog]
  exact List.append_nil log

/-- The client has read the value of the variable. -/
theorem link_refines : ∃ s b sys, run (Firmware.Main.step noSem linkEnv) linkFw linkActs = some s ∧
    run (Bus.step kstrtol (appAddrStart + 1) 0x400) (.start .probed) (linkRun s.log) = some b ∧
    b.k.log = [(0, .opened 0), (0, .read (.ok [0x30, 0x0a]))] ∧
    run (step kstrtol noSem) (start .probed ⟨⟨oneVar, (), []⟩, .zero⟩)
      ((linkRun s.log).filterMap (Joint.seen (appAddrStart + 1))) = some sys ∧
    Realizes (appAddrStart + 1) 0x400 s b sys := by
  have h : (run (Firmware.Main.step noSem linkEnv) linkFw linkActs).any (fun s =>
      (run Loans.next (.of (shared linkFw)) s.log).isSome &&
        (run (Bus.step kstrtol (appAddrStart + 1) 0x400) (.start .probed) (linkRun s.log)).any fun b =>
          decide (b.k.log = [(0, .opened 0), (0, .read (.ok [0x30, 0x0a]))])) = true := by decide +kernel
  obtain ⟨s, hs, h'⟩ := (Option.any_eq_true ..).1 h
  obtain ⟨hh, h'⟩ := Bool.and_eq_true_iff.1 h'
  obtain ⟨b, hb, h'⟩ := (Option.any_eq_true ..).1 h'
  have hcalm : ∀ x ∈ linkActs, Calm x := by
    intro x hx
    rw [List.mem_singleton.1 hx]
    trivial
  obtain ⟨sys, hsys, hreal⟩ :=
    refines_run opened_link hcalm hs hh (ring?_linkRun s.log) hb
  exact ⟨s, b, sys, hs, hb, of_decide_eq_true h', hsys, hreal⟩

end CfgMgmt.System.Transport
