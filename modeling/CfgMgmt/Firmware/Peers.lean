import CfgMgmt.Firmware.Channels
import CfgMgmt.Firmware.Replies

/-!
# The firmware sends to known peers only

`rpmsg_send` sends on a channel that was only announced, too, and then to `RPMSG_ADDR_ANY`.  That this
never happens is a property of the whole program: what is printed is sent after the first message on the
channel of the standard output only, and replies are sent from inside of a delivery.
-/

namespace CfgMgmt.Firmware.Peers

open CfgMgmt.Lib.Bytes CfgMgmt.Lib.Machine CfgMgmt.Msg
open CfgMgmt.Firmware.Config (VarCount CbSem Table World)
open CfgMgmt.Firmware.Remoteproc CfgMgmt.Firmware.Main
open CfgMgmt.Firmware.Sending hiding Sends
open CfgMgmt.Firmware.Sending (Sends)
open CfgMgmt.Firmware.Channels (received received_append received_of_isTx Quiet quiet_look
  quiet_rpmsgSends quiet_rpmsgCreateCh)
open CfgMgmt.Firmware.Replies (fst_of_mem_write fst_of_mem_outSends configMsgHandler_sends
  cfgSetId_out forall₂_concat)

/-! ### The program -/

/-- How far `main` has come. -/
inductive Phase
  | start
  | waitStdio
  | running
  deriving DecidableEq

/-- The firmware and its program counter. -/
structure Prog (n : VarCount) (κ δ ε : Type) where
  phase : Phase
  fw : State n κ δ ε

/-- What `main` does next, or anything else the firmware does. -/
inductive Event (κ δ ε : Type)
  | createStdio
  | cfgInit
  | act (x : Act κ δ ε)

section Program

variable {n : VarCount} {κ δ ε : Type} (sem : CbSem n κ δ ε (List UInt8)) (env : Env)

/-- Whether `main` is in one of its two polling loops. -/
def Prog.Polls (s : Prog n κ δ ε) : Prop :=
  s.phase = .running ∨ s.phase = .waitStdio ∧ s.fw.app.stdioInit = false

instance (s : Prog n κ δ ε) : Decidable s.Polls := inferInstanceAs (Decidable (_ ∨ _))

/-- A step of the firmware, when it returns.  Everything but polling may happen at any time. -/
def step (s : Prog n κ δ ε) : Event κ δ ε → Option (Prog n κ δ ε)
  | .createStdio =>
    if s.phase = .start then do
      let (rpmsgStdio, fw) ← (rpmsgCreateCh env bmStdio (some .stdioMsgHandler) s.fw).toOption
      some ⟨.waitStdio, { fw with app := { fw.app with rpmsgStdio } }⟩
    else none
  | .cfgInit =>
    if s.phase = .waitStdio ∧ s.fw.app.stdioInit = true then do
      let fw ← (Main.cfgInit env s.fw).toOption
      some ⟨.running, fw⟩
    else none
  | .act (.poll rounds) =>
    if s.Polls then do
      let fw ← Main.step sem env s.fw (.poll rounds)
      some { s with fw }
    else none
  | .act x => do
    let fw ← Main.step sem env s.fw x
    some { s with fw }

/-- The firmware after `remoteproc_init`. -/
def start (s : State n κ δ ε) : Prog n κ δ ε := ⟨.start, remoteprocInit s⟩

end Program

section Invariant

variable {n : VarCount} {κ δ ε : Type} {sem : CbSem n κ δ ε (List UInt8)} {env : Env}
  {s s' t : State n κ δ ε}

/-- The channel pointer that belongs to a handler. -/
def pointer (m : Mem n κ δ ε) : Handler → Option (Fin maxRpmsgCh)
  | .stdioMsgHandler => m.rpmsgStdio
  | .configMsgHandler => m.rpmsgConfig

/-- What keeps the firmware from sending to `RPMSG_ADDR_ANY`. -/
structure Known (s : State n κ δ ε) : Prop where
  up : ∀ i, (s.channels i).state = .up → (s.channels i).remoteAddr ≠ rpmsgAddrAny
  cb : ∀ i c, (s.channels i).cb = some c → pointer s.app c = some i
  stdioInit : s.app.stdioInit = true → ∀ i, s.app.rpmsgStdio = some i → (s.channels i).state = .up
  sent : ∀ p ∈ sent s.log, p.dst ≠ rpmsgAddrAny

/-- The variables of `main.c` and `config.c` that say where to send are left alone. -/
structure SameTargets (m m' : Mem n κ δ ε) : Prop where
  stdio : m'.rpmsgStdio = m.rpmsgStdio
  config : m'.rpmsgConfig = m.rpmsgConfig
  stdioInit : m'.stdioInit = m.stdioInit

lemma SameTargets.pointer {m m' : Mem n κ δ ε} (h : SameTargets m m') (c : Handler) :
    pointer m' c = pointer m c := by
  cases c
  · exact h.stdio
  · exact h.config

lemma Known.of_eq (h : Known s) (hc : s'.channels = s.channels) (ht : SameTargets s.app s'.app)
    (hl : ∀ p ∈ Sending.sent s'.log, p ∈ Sending.sent s.log ∨ p.dst ≠ rpmsgAddrAny) : Known s' where
  up i := by
    rw [hc]
    exact h.up i
  cb i c := by
    rw [hc, ht.pointer]
    exact h.cb i c
  stdioInit hi i hs := by
    rw [hc]
    exact h.stdioInit (ht.stdioInit.symm.trans hi) i (ht.stdio.symm.trans hs)
  sent p hp := (hl p hp).elim (h.sent p) id

lemma mem_sent_of_emits {ps : List Packet} (he : Emits ps s s') {p : Packet}
    (hp : p ∈ Sending.sent s'.log) : p ∈ Sending.sent s.log ∨ p ∈ ps := by
  obtain ⟨seg, hl, hs, -⟩ := he
  rw [hl, sent_append, hs] at hp
  exact List.mem_append.1 hp

/-! ### Sending -/

/-- The channel of a call of `rpmsg_send` is up. -/
def ToUp (s : State n κ δ ε) (p : Option (Fin maxRpmsgCh) × List UInt8) : Prop :=
  ∀ i, p.1 = some i → (s.channels i).state = .up

lemma Known.publishes (h : Known s) {sends : Main.Sends} {pss : List (List Packet)}
    (hp : List.Forall₂ (Publishes s.channels) sends pss) (hup : ∀ p ∈ sends, ToUp s p) :
    ∀ p ∈ pss.flatten, p.dst ≠ rpmsgAddrAny := by
  induction hp with
  | nil => exact fun p hp => absurd hp List.not_mem_nil
  | @cons call ps sends pss hpub _ ih =>
    intro p hp
    rw [List.flatten_cons] at hp
    rcases List.mem_append.1 hp with hp | hp
    · have hcall := hup call List.mem_cons_self
      obtain ⟨ch, data⟩ := call
      cases ch with
      | none =>
        obtain rfl : ps = [] := hpub
        exact absurd hp List.not_mem_nil
      | some i =>
        have hi : (s.channels i).state = .up := hcall i rfl
        rw [Publishes, if_neg (by rw [hi]; exact ChState.noConfusion)] at hpub
        obtain ⟨pkt, rfl, hpkt⟩ := hpub
        rw [List.mem_singleton.1 hp, hpkt.dst]
        exact h.up i hi
    · exact ih (fun q hq => hup q (List.mem_cons_of_mem _ hq)) p hp

lemma Known.write (h : Known s) {m : Mem n κ δ ε} (hm : SameTargets s.app m) {text : List UInt8}
    {p : Option (Fin maxRpmsgCh) × List UInt8} (hp : p ∈ write m text) : ToUp s p := by
  intro i hi
  unfold Main.write at hp
  split at hp
  · rename_i hgate
    obtain ⟨chunk, -, rfl⟩ := List.mem_map.1 hp
    exact h.stdioInit (hm.stdioInit.symm.trans hgate.2) i (hm.stdio.symm.trans hi)
  · exact absurd hp List.not_mem_nil

lemma Known.outSends (h : Known s) {m : Mem n κ δ ε} (hm : SameTargets s.app m)
    {prints : List (List UInt8)} {p : Option (Fin maxRpmsgCh) × List UInt8}
    (hp : p ∈ outSends m (prints.map .inl)) : ToUp s p := by
  obtain ⟨o, ho, hp⟩ := List.mem_flatMap.1 hp
  obtain ⟨text, -, rfl⟩ := List.mem_map.1 ho
  exact h.write hm hp

lemma Known.rpmsgSends (h : Known s) {sends : Main.Sends} (hup : ∀ p ∈ sends, ToUp s p)
    (hs : rpmsgSends env sends s = .ok s') : Known s' := by
  obtain ⟨pss, hp, hsent⟩ := rpmsgSends_sends hs
  refine h.of_eq hsent.channels ⟨?_, ?_, ?_⟩ fun p hmem => ?_
  · rw [hsent.app]
  · rw [hsent.app]
  · rw [hsent.app]
  · exact (mem_sent_of_emits hsent.emits hmem).imp_right (h.publishes hp hup p)

/-! ### Reading a message -/

lemma Known.marked {pkt : Packet} (h : Known s) (hm : Marked pkt s t)
    (hsrc : pkt.src ≠ rpmsgAddrAny) : Known t where
  up i hi := by
    rcases hm.channels i with e | ⟨-, e⟩
    · rw [e] at hi ⊢
      exact h.up i hi
    · rw [e]
      exact hsrc
  cb i c hc := by
    rw [hm.app]
    exact h.cb i c ((hm.cb i).symm.trans hc)
  stdioInit hi i hs := by
    rw [hm.app] at hi hs
    rcases hm.channels i with e | ⟨-, e⟩
    · rw [e]
      exact h.stdioInit hi i hs
    · rw [e]
      rfl
  sent p := by
    rw [hm.log]
    exact h.sent p

/-- The handlers keep the channel pointers, and the one of the configuration channel `stdio_init`. -/
lemma handlers_pointer {c : Handler} {i : Fin maxRpmsgCh} {data : Buf dataLenMax} {len : UInt16}
    {m : Mem n κ δ ε} {r : CbResult (Mem n κ δ ε)} (h : handlers sem c i data len m = some r)
    (c' : Handler) : pointer r.app c' = pointer m c' := by
  cases c with
  | configMsgHandler =>
    obtain ⟨k, -, h⟩ := Option.bind_eq_some_iff.1 h
    obtain rfl := Option.some.inj h
    cases c' <;> rfl
  | stdioMsgHandler =>
    obtain rfl := Option.some.inj h
    unfold stdioMsgHandler
    cases c' <;> split <;> rfl

lemma configMsgHandler_targets {data : Buf dataLenMax} {m : Mem n κ δ ε}
    {r : CbResult (Mem n κ δ ε)} (h : Main.configMsgHandler sem data m = some r) :
    SameTargets m r.app := by
  obtain ⟨c, -, h⟩ := Option.bind_eq_some_iff.1 h
  obtain rfl := Option.some.inj h
  exact ⟨rfl, rfl, rfl⟩

/-- **A callback that is called on its channel** sends to known peers only. -/
theorem Known.callCb {c : Handler} {i : Fin maxRpmsgCh} {addr : UInt32} {pkt : Packet}
    (h : Known s) (hc : (s.channels i).cb = some c) (hi : (s.channels i).state = .up)
    (hs : callCb (handlers sem) env c i addr pkt s = .ok s') : Known s' := by
  obtain ⟨r, pss, hr, hp, hem, hch, happ, -⟩ := callCb_cases hs
  have hptr := h.cb i c hc
  have hkeep : ∀ c, pointer s'.app c = pointer s.app c := happ ▸ handlers_pointer hr
  cases c with
  | configMsgHandler =>
    have ht : SameTargets s.app s'.app := happ ▸ configMsgHandler_targets hr
    obtain ⟨r', prints, rep, hr', -, -, hsends, -⟩ := configMsgHandler_sends sem pkt.data s.app
    obtain rfl := Option.some.inj (hr.symm.trans hr')
    refine h.of_eq hch ht fun p hmem => ?_
    refine (mem_sent_of_emits hem hmem).imp_right (h.publishes hp (fun q hq => ?_) p)
    rw [hsends] at hq
    rcases List.mem_append.1 hq with hq | hq
    · exact h.outSends ⟨rfl, rfl, rfl⟩ hq
    · -- the reply goes to the channel the request came from
      obtain rfl := List.mem_singleton.1 hq
      intro j hj
      obtain rfl : i = j := Option.some.inj (hptr.symm.trans hj)
      exact hi
  | stdioMsgHandler =>
    obtain rfl := Option.some.inj hr
    have hsends : (stdioMsgHandler pkt.len s.app).sends = [] := by
      unfold stdioMsgHandler
      split <;> rfl
    rw [hsends] at hp
    obtain rfl := List.forall₂_nil_left_iff.1 hp
    refine ⟨?_, ?_, ?_, ?_⟩
    · rw [hch]
      exact h.up
    · rw [hch]
      intro j c hj
      rw [hkeep]
      exact h.cb j c hj
    · -- the message has arrived on the channel of the standard output
      intro _ j hj
      obtain rfl : i = j := Option.some.inj (hptr.symm.trans ((hkeep .stdioMsgHandler).symm.trans hj))
      rw [hch]
      exact hi
    · intro p hmem
      exact h.sent p ((mem_sent_of_emits hem hmem).resolve_right List.not_mem_nil)

/-- Every message was received from an address. -/
def FromPeers (log : List Ev) : Prop := ∀ pkt ∈ received log, pkt.src ≠ rpmsgAddrAny

lemma FromPeers.of_prefix {log log' : List Ev} (h : FromPeers log') (hp : log <+: log') :
    FromPeers log := by
  obtain ⟨seg, rfl⟩ := hp
  intro pkt hpkt
  refine h pkt ?_
  rw [received_append]
  exact List.mem_append_left _ hpkt

/-- What holds between the messages of a polling loop, with fixed channel pointers. -/
structure Polling (stdio config : Option (Fin maxRpmsgCh)) (s : State n κ δ ε) : Prop where
  known : FromPeers s.log → Known s
  stdio : s.app.rpmsgStdio = stdio
  config : s.app.rpmsgConfig = config

variable {stdio config : Option (Fin maxRpmsgCh)}

lemma Polling.sends {ps : List Packet} (h : Polling stdio config s) (hs : Sends ps s s')
    (hp : FromPeers s.log → ∀ p ∈ ps, p.dst ≠ rpmsgAddrAny) : Polling stdio config s' where
  known hpeers := by
    obtain ⟨seg, hl, -⟩ := hs.emits
    have hpre : FromPeers s.log := hpeers.of_prefix ⟨seg, hl.symm⟩
    have ht : SameTargets s.app s'.app := by
      rw [hs.app]
      exact ⟨rfl, rfl, rfl⟩
    exact (h.known hpre).of_eq hs.channels ht
      fun p hmem => (mem_sent_of_emits hs.emits hmem).imp_right (hp hpre p)
  stdio := by
    rw [hs.app]
    exact h.stdio
  config := by
    rw [hs.app]
    exact h.config

lemma Polling.look (h : Polling stdio config s) : Polling stdio config (s.look env) :=
  h.sends (sends_look s) fun _ _ hp => absurd hp List.not_mem_nil

theorem Known.deliver {addr : UInt32} {pkt : Packet} (h : Known s) (hsrc : pkt.src ≠ rpmsgAddrAny)
    (hs : deliver (handlers sem) env addr pkt (List.finRange maxRpmsgCh) s = .ok s') : Known s' := by
  rcases deliver_cases hs with ⟨hm, -⟩ | ⟨t, i, c, hm, -, hcb, hti, hcall⟩
  · exact h.marked hm hsrc
  · have hup : (t.channels i).state = .up := by rw [hti]; rfl
    exact (h.marked hm hsrc).callCb ((hm.cb i).trans hcb) hup hcall

lemma deliver_pointer {addr : UInt32} {pkt : Packet}
    (hs : deliver (handlers sem) env addr pkt (List.finRange maxRpmsgCh) s = .ok s') :
    (∀ c, pointer s'.app c = pointer s.app c) ∧ s.log <+: s'.log := by
  rcases deliver_cases hs with ⟨hm, -⟩ | ⟨t, i, c, hm, -, -, -, hcall⟩
  · rw [hm.app, hm.log]
    exact ⟨fun _ => rfl, List.prefix_refl _⟩
  · obtain ⟨r, pss, hr, -, ⟨seg, hl, -⟩, -, happ, -⟩ := callCb_cases hcall
    rw [happ, ← hm.app, hl, hm.log]
    exact ⟨handlers_pointer hr, List.prefix_append _ _⟩

theorem Polling.readMessage (h : Polling stdio config s)
    (hs : readMessage (handlers sem) env s = .ok s') : Polling stdio config s' := by
  rcases readMessage_cases hs with rfl | ⟨rx, index, addr, pkt, notified, t, ht, hlog, hch, happ, -⟩
  · exact h.look
  · have hl : Polling stdio config (s.look env) := h.look
    obtain ⟨hptr, hpre⟩ := deliver_pointer ht
    refine ⟨fun hpeers => ?_, ?_, ?_⟩
    · have hpt : FromPeers ((s.look env).log ++ [.rxTake index pkt]) :=
        hpeers.of_prefix (hpre.trans ⟨_, hlog.symm⟩)
      have hk : Known ({ s.look env with rx }.emit (.rxTake index pkt)) := by
        refine (hl.known (hpt.of_prefix (List.prefix_append _ _))).of_eq rfl ⟨rfl, rfl, rfl⟩
          fun p hp => .inl ?_
        have hp' : p ∈ Sending.sent ((s.look env).log ++ [.rxTake index pkt]) := hp
        rw [sent_append] at hp'
        exact (List.mem_append.1 hp').resolve_right List.not_mem_nil
      have hsrc : pkt.src ≠ rpmsgAddrAny := by
        refine hpt pkt ?_
        rw [received_append]
        exact List.mem_append_right _ List.mem_cons_self
      refine (hk.deliver hsrc ht).of_eq hch (happ ▸ ⟨rfl, rfl, rfl⟩) fun p hp => .inl ?_
      rw [hlog, sent_append] at hp
      exact (List.mem_append.1 hp).resolve_right List.not_mem_nil
    · rw [happ]
      exact (hptr .stdioMsgHandler).trans hl.stdio
    · rw [happ]
      exact (hptr .configMsgHandler).trans hl.config

lemma kept_polling : Kept (handlers sem) env (Polling stdio config) where
  look _ h := h.look
  txKick _ _ h := ⟨fun hp => (h.known hp).of_eq rfl ⟨rfl, rfl, rfl⟩ fun _ => .inl, h.stdio, h.config⟩
  rxKick _ _ h := ⟨fun hp => (h.known hp).of_eq rfl ⟨rfl, rfl, rfl⟩ fun _ => .inl, h.stdio, h.config⟩
  read _ _ h hs := h.readMessage hs

/-! ### Creating a channel -/

lemma rpmsgCreateCh_emits {name : CStr} {cb : Option Handler} {ch : Option (Fin maxRpmsgCh)}
    (hs : rpmsgCreateCh env name cb s = .ok (ch, s')) :
    s'.app = s.app ∧ ∃ ps, Emits ps s s' ∧ ∀ p ∈ ps, p.dst = linuxServiceAnnouncementAddr := by
  unfold rpmsgCreateCh at hs
  split at hs
  · obtain ⟨-, rfl⟩ := Prod.mk.inj (Except.ok.inj hs)
    exact ⟨rfl, [], .of_log_eq rfl, fun p hp => absurd hp List.not_mem_nil⟩
  · obtain ⟨t, ht, hs⟩ := bind_eq_ok.1 hs
    obtain ⟨-, rfl⟩ := Prod.mk.inj (Except.ok.inj hs)
    obtain ⟨pkt, hpkt, hsent⟩ := blockSendMessage_sends ht
    obtain ⟨seg, hl, h⟩ := hsent.emits
    refine ⟨hsent.app, [pkt], ⟨seg, hl, h⟩, fun p hp => ?_⟩
    rw [List.mem_singleton.1 hp]
    exact hpkt.dst

lemma linuxServiceAnnouncementAddr_ne : linuxServiceAnnouncementAddr ≠ rpmsgAddrAny := by decide

/-- **Creating the channel of a handler** that has none yet, and storing the pointer. -/
theorem Known.create {c : Handler} {name : CStr} {ch : Option (Fin maxRpmsgCh)} {m : Mem n κ δ ε}
    (h : Known s) (hc : pointer s.app c = none)
    (hs : rpmsgCreateCh env name (some c) s = .ok (ch, s')) (hm : pointer m c = ch)
    (hother : ∀ c' ≠ c, pointer m c' = pointer s.app c') (hi : m.stdioInit = s.app.stdioInit)
    (hgate : c = .stdioMsgHandler → s.app.stdioInit = false) : Known { s' with app := m } := by
  have hcb : ∀ i c', (s.channels i).cb = some c' → c' ≠ c ∧ pointer m c' = some i := by
    intro i c' hc'
    have hne : c' ≠ c := by
      rintro rfl
      exact Option.some_ne_none i ((h.cb i _ hc').symm.trans hc)
    exact ⟨hne, (hother c' hne).trans (h.cb i c' hc')⟩
  have hstd : m.stdioInit = true → ∀ i, m.rpmsgStdio = some i → (s.channels i).state = .up := by
    intro hinit i hptr
    have hne : Handler.stdioMsgHandler ≠ c := fun e =>
      Bool.false_ne_true ((hgate e.symm).symm.trans (hi.symm.trans hinit))
    exact h.stdioInit (hi.symm.trans hinit) i ((hother _ hne).symm.trans hptr)
  have hsent : ∀ p ∈ Sending.sent s'.log, p.dst ≠ rpmsgAddrAny := by
    intro p hp
    obtain ⟨-, ps, hem, hps⟩ := rpmsgCreateCh_emits hs
    rcases mem_sent_of_emits hem hp with hp | hp
    · exact h.sent p hp
    · rw [hps p hp]
      exact linuxServiceAnnouncementAddr_ne
  cases hfind : (List.finRange maxRpmsgCh).find? fun i => (s.channels i).state = .unused with
  | none =>
    have hch : s'.channels = s.channels := by
      unfold rpmsgCreateCh at hs
      rw [hfind] at hs
      exact (Prod.mk.inj (Except.ok.inj hs)).2 ▸ rfl
    refine ⟨?_, ?_, ?_, hsent⟩ <;> rw [hch]
    · exact h.up
    · exact fun i c' hc' => (hcb i c' hc').2
    · exact hstd
  | some i =>
    obtain ⟨rfl, -, -, hch⟩ := rpmsgCreateCh_cases hfind hs
    have hu : (s.channels i).state = .unused := by simpa using List.find?_some hfind
    have hself : s'.channels i = newChannel s.nextRpmsgAddr (some c) := by
      rw [hch, Function.update_self]
    have hne : ∀ j ≠ i, s'.channels j = s.channels j := fun j hj => by
      rw [hch, Function.update_of_ne hj]
    refine ⟨fun j hj => ?_, fun j c' hj => ?_, fun hinit j hptr => ?_, hsent⟩
    · by_cases hji : j = i
      · subst hji
        rw [hself] at hj
        exact ChState.noConfusion hj
      · rw [hne j hji] at hj ⊢
        exact h.up j hj
    · by_cases hji : j = i
      · subst hji
        rw [hself] at hj
        obtain rfl : c = c' := Option.some.inj hj
        exact hm
      · rw [hne j hji] at hj
        exact (hcb j c' hj).2
    · have hup := hstd hinit j hptr
      have hji : j ≠ i := by
        rintro rfl
        exact ChState.noConfusion (hup.symm.trans hu)
      rw [hne j hji]
      exact hup

/-! ### Runs -/

/-- What holds between the steps of the program. -/
structure Inv (s : Prog n κ δ ε) : Prop where
  known : FromPeers s.fw.log → Known s.fw
  start : s.phase = .start → s.fw.app.rpmsgStdio = none ∧ s.fw.app.stdioInit = false
  config : s.phase ≠ .running → s.fw.app.rpmsgConfig = none

lemma rpmsgSends_known {sends : Main.Sends} (h : FromPeers s.log → Known s)
    (hup : Known s → ∀ p ∈ sends, ToUp s p) (hs : rpmsgSends env sends s = .ok s') :
    (FromPeers s'.log → Known s') ∧ SameTargets s.app s'.app := by
  obtain ⟨pss, -, ⟨seg, hl, -⟩, -, happ, -⟩ := rpmsgSends_sends hs
  refine ⟨fun hpeers => ?_, happ ▸ ⟨rfl, rfl, rfl⟩⟩
  have hk := h (hpeers.of_prefix ⟨seg, hl.symm⟩)
  exact hk.rpmsgSends (hup hk) hs

/-- **Everything but polling** leaves the channel pointers alone. -/
theorem act_known {x : Act κ δ ε} (hx : ∀ rounds, x ≠ .poll rounds)
    (h : FromPeers s.log → Known s) (hs : act sem env s x = .ok s') :
    (FromPeers s'.log → Known s') ∧ SameTargets s.app s'.app := by
  have happ : ∀ m : Mem n κ δ ε, SameTargets s.app m →
      FromPeers s.log → Known { s with app := m } :=
    fun m hm hp => (h hp).of_eq rfl hm fun _ => .inl
  cases x with
  | poll rounds => exact absurd rfl (hx rounds)
  | print text => exact rpmsgSends_known h (fun hk p hp => hk.write ⟨rfl, rfl, rfl⟩ hp) hs
  | setCallback id cb read data =>
    obtain rfl := Except.ok.inj hs
    exact ⟨happ _ ⟨rfl, rfl, rfl⟩, ⟨rfl, rfl, rfl⟩⟩
  | setId id val trigCb =>
    obtain ⟨r, w, hw, prints, hout⟩ := cfgSetId_out sem id val trigCb ⟨s.app.vars, s.app.ext, []⟩
    simp only [Main.act, hw, hout, List.nil_append] at hs
    obtain ⟨hk, ht⟩ := rpmsgSends_known
      (s := { s with app := { s.app with vars := w.vars, ext := w.ext } })
      (happ _ ⟨rfl, rfl, rfl⟩) (fun hk p hp => hk.outSends ⟨rfl, rfl, rfl⟩ hp) hs
    exact ⟨hk, ht.stdio, ht.config, ht.stdioInit⟩
  | setExt ext =>
    obtain rfl := Except.ok.inj hs
    exact ⟨happ _ ⟨rfl, rfl, rfl⟩, ⟨rfl, rfl, rfl⟩⟩

lemma inv_poll {s s' : Prog n κ δ ε} {rounds : ℕ} (h : Inv s)
    (hs : step sem env s (.act (.poll rounds)) = some s') : Inv s' := by
  obtain ⟨hpolls, hs⟩ := Option.ite_none_right_eq_some.1 hs
  obtain ⟨fw, hfw, hs⟩ := Option.bind_eq_some_iff.1 hs
  obtain rfl := Option.some.inj hs
  obtain ⟨⟨ret, t⟩, ht, he⟩ := bind_eq_ok.1 (toOption_eq_some.1 hfw)
  obtain rfl := Except.ok.inj he
  have hp : Polling s.fw.app.rpmsgStdio s.fw.app.rpmsgConfig t :=
    kept_polling.rpmsgPoll ⟨h.known, rfl, rfl⟩ ht
  refine ⟨hp.known, fun hstart => ?_, fun hne => hp.config.trans (h.config hne)⟩
  rcases hpolls with hr | ⟨hw, -⟩
  · exact Phase.noConfusion (hstart.symm.trans hr)
  · exact Phase.noConfusion (hstart.symm.trans hw)

lemma inv_act {s s' : Prog n κ δ ε} {x : Act κ δ ε} (hx : ∀ rounds, x ≠ .poll rounds) (h : Inv s)
    (hs : step sem env s (.act x) = some s') : Inv s' := by
  have hs' : (Main.step sem env s.fw x).bind (fun fw => some { s with fw }) = some s' := by
    cases x with
    | poll rounds => exact absurd rfl (hx rounds)
    | _ => exact hs
  obtain ⟨fw, hfw, hs⟩ := Option.bind_eq_some_iff.1 hs'
  obtain rfl := Option.some.inj hs
  obtain ⟨hk, ht⟩ := act_known hx h.known (toOption_eq_some.1 hfw)
  refine ⟨hk, fun hstart => ?_, fun hne => ht.config.trans (h.config hne)⟩
  obtain ⟨h1, h2⟩ := h.start hstart
  exact ⟨ht.stdio.trans h1, ht.stdioInit.trans h2⟩

lemma inv_createStdio {s s' : Prog n κ δ ε} (h : Inv s)
    (hs : step sem env s .createStdio = some s') : Inv s' := by
  obtain ⟨hphase, hs⟩ := Option.ite_none_right_eq_some.1 hs
  obtain ⟨⟨ch, fw⟩, hfw, hs⟩ := Option.bind_eq_some_iff.1 hs
  obtain rfl := Option.some.inj hs
  have hfw := toOption_eq_some.1 hfw
  obtain ⟨h1, h2⟩ := h.start hphase
  obtain ⟨happ, ps, ⟨seg, hl, -⟩, -⟩ := rpmsgCreateCh_emits hfw
  have hconfig : fw.app.rpmsgConfig = s.fw.app.rpmsgConfig := congrArg Mem.rpmsgConfig happ
  have hinit : fw.app.stdioInit = s.fw.app.stdioInit := congrArg Mem.stdioInit happ
  refine ⟨fun hpeers => ?_, fun hf => Phase.noConfusion hf, fun _ => ?_⟩
  · have hk := h.known (hpeers.of_prefix ⟨seg, hl.symm⟩)
    refine hk.create (c := .stdioMsgHandler) h1 hfw rfl ?_ hinit fun _ => h2
    intro c hc
    cases c with
    | stdioMsgHandler => exact absurd rfl hc
    | configMsgHandler => exact hconfig
  · refine hconfig.trans (h.config ?_)
    rw [hphase]
    exact Phase.noConfusion

lemma inv_cfgInit {s s' : Prog n κ δ ε} (h : Inv s) (hs : step sem env s .cfgInit = some s') :
    Inv s' := by
  obtain ⟨⟨hphase, -⟩, hs⟩ := Option.ite_none_right_eq_some.1 hs
  obtain ⟨fw, hfw, hs⟩ := Option.bind_eq_some_iff.1 hs
  obtain rfl := Option.some.inj hs
  obtain ⟨⟨ch, t⟩, ht, he⟩ := bind_eq_ok.1 (toOption_eq_some.1 hfw)
  obtain rfl := Except.ok.inj he
  obtain ⟨happ, ps, ⟨seg, hl, -⟩, -⟩ := rpmsgCreateCh_emits ht
  have hcfg : s.fw.app.rpmsgConfig = none := by
    refine h.config ?_
    rw [hphase]
    exact Phase.noConfusion
  have hstdio : t.app.rpmsgStdio = s.fw.app.rpmsgStdio := congrArg Mem.rpmsgStdio happ
  have hinit : t.app.stdioInit = s.fw.app.stdioInit := congrArg Mem.stdioInit happ
  refine ⟨fun hpeers => ?_, fun hf => Phase.noConfusion hf, fun hf => absurd rfl hf⟩
  have hk := h.known (hpeers.of_prefix ⟨seg, hl.symm⟩)
  refine hk.create (c := .configMsgHandler) hcfg ht rfl ?_ hinit fun hf => Handler.noConfusion hf
  intro c hc
  cases c with
  | stdioMsgHandler => exact hstdio
  | configMsgHandler => exact absurd rfl hc

theorem inv_step {s s' : Prog n κ δ ε} {e : Event κ δ ε} (h : Inv s)
    (hs : step sem env s e = some s') : Inv s' := by
  cases e with
  | createStdio => exact inv_createStdio h hs
  | cfgInit => exact inv_cfgInit h hs
  | act x =>
    by_cases hx : ∃ rounds, x = .poll rounds
    · obtain ⟨rounds, rfl⟩ := hx
      exact inv_poll h hs
    · exact inv_act (not_exists.1 hx) h hs

lemma inv_start {vars : Table n κ δ} {ext : ε} {s : State n κ δ ε} (h : Loaded vars ext s) :
    Inv (start s) := by
  have happ : (start s).fw.app = .loaded vars ext := h.app
  have hlog : (start s).fw.log = [] := h.log
  refine ⟨fun _ => ⟨?_, ?_, ?_, ?_⟩, fun _ => ?_, fun _ => ?_⟩
  · exact fun i hi => ChState.noConfusion hi
  · exact fun i c hc => absurd hc.symm (Option.some_ne_none c)
  · rw [happ]
    exact fun hi => absurd hi Bool.false_ne_true
  · rw [hlog]
    exact fun p hp => absurd hp List.not_mem_nil
  · rw [happ]
    exact ⟨rfl, rfl⟩
  · rw [happ]
    rfl

/-- **The firmware never sends to an unknown peer**: in every run of the program, whatever is in the rings
and in the buffers, as long as no message is received from `RPMSG_ADDR_ANY`, no message is sent to it. -/
theorem peers_known {vars : Table n κ δ} {ext : ε} {fw : State n κ δ ε} {s : Prog n κ δ ε}
    {es : List (Event κ δ ε)} (h : Loaded vars ext fw) (hr : run (step sem env) (start fw) es = some s)
    (hsrc : ∀ pkt ∈ received s.fw.log, pkt.src ≠ rpmsgAddrAny) :
    ∀ p ∈ sent s.fw.log, p.dst ≠ rpmsgAddrAny :=
  ((run_invariant (fun _ _ _ => inv_step) (inv_start h) hr).known hsrc).sent

end Invariant

/-! ### A greeting -/

/-- A firmware without variables, with the buffers where Linux has put them. -/
def bare : State ⟨0, zero_lt_limit⟩ Empty Unit Unit := Fw.prepared (Mem.loaded (fun k => k.elim0) ())

def noCbs : CbSem ⟨0, zero_lt_limit⟩ Empty Unit Unit (List UInt8) := fun c => c.elim

/-- A kernel that offers the first buffers of both rings again and again, with a message from the address
0x400 to the channel of the standard output. -/
def oneHello : Env :=
  fun _ => [[.offerTx 0], [.offerRx 0 ⟨0x400, 0x50, 0, 1, 0, .zero _⟩, .kickRx]]

/-- The firmware prints before and after it has heard of the kernel. -/
def greets : List (Event Empty Unit Unit) :=
  [.createStdio, .act (.print [0x61]), .act (.poll 1), .act (.print [0x62]), .cfgInit]

/-- The second text is sent to 0x400, the first one is not sent. -/
theorem greeting_known : ∃ s, run (step noCbs oneHello) (start bare) greets = some s ∧
    (sent s.fw.log).map Packet.dst = [0x35, 0x400, 0x35] ∧
    ∀ p ∈ sent s.fw.log, p.dst ≠ rpmsgAddrAny := by
  have h : ((run (step noCbs oneHello) (start bare) greets).any
      fun s : Prog ⟨0, zero_lt_limit⟩ Empty Unit Unit => decide ((sent s.fw.log).map Packet.dst =
        [0x35, 0x400, 0x35] ∧ ∀ pkt ∈ received s.fw.log, pkt.src ≠ rpmsgAddrAny)) = true := by
    decide +kernel
  obtain ⟨s, hs, h⟩ := (Option.any_eq_true ..).1 h
  obtain ⟨hsent, hsrc⟩ := of_decide_eq_true h
  exact ⟨s, hs, hsent, peers_known (loaded_prepared _ _) hs hsrc⟩

end CfgMgmt.Firmware.Peers
