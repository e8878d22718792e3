import CfgMgmt.Firmware.Delivery
import CfgMgmt.Firmware.Peers
import CfgMgmt.Firmware.Server

/-!
# The firmware as Linux sees it

While the firmware only polls and prints, the kernel module is served by one channel of it: the handler
works on the registers (`works_of_calm`), the rings are the only memory that is shared
(`reaches_of_calm`), and no other channel sends to the address of the module (`Private`).
-/

namespace CfgMgmt.Firmware.Endpoint

open CfgMgmt.Lib.Bytes CfgMgmt.Lib.Machine CfgMgmt.Msg
open CfgMgmt.Firmware.Config (VarCount CbSem Table World Cfg)
open CfgMgmt.Firmware.Remoteproc CfgMgmt.Firmware.Buffers CfgMgmt.Firmware.Main
open CfgMgmt.Firmware.Sending hiding Sends
open CfgMgmt.Firmware.Sending (Sends)
open CfgMgmt.Firmware.Channels (received received_append)
open CfgMgmt.Firmware.Peers (mem_sent_of_emits)
open CfgMgmt.Firmware.Replies (Serving Ready fst_of_mem_write kept_serving)
open CfgMgmt.Firmware.Server CfgMgmt.Firmware.Steps

/-! ### The handler and what was printed before -/

section Handler

variable {n : VarCount} {κ δ ε ω : Type} (sem : CbSem n κ δ ε ω)

/-- Something was printed before. -/
def after (out : List (ω ⊕ CfgMsg)) (w : World n κ δ ε ω) : World n κ δ ε ω :=
  { w with out := out ++ w.out }

variable (out : List (ω ⊕ CfgMsg))

lemma callCb_after (cb : Option κ) (k : Fin n.1) (isread : Bool) (data : δ) (w : World n κ δ ε ω) :
    Config.callCb sem cb k isread data (after out w) =
      after out (Config.callCb sem cb k isread data w) := by
  cases cb with
  | none => rfl
  | some c => simp [Config.callCb, after]

lemma cfgSetInd_after (i val : Int32) (trigCb : Bool) (w : World n κ δ ε ω) :
    Config.cfgSetInd sem i val trigCb (after out w) =
      (Config.cfgSetInd sem i val trigCb w).map (Prod.map id (after out)) := by
  unfold Config.cfgSetInd
  split
  · rfl
  split
  · rfl
  cases Config.entry? n i with
  | none => rfl
  | some k =>
    cases trigCb with
    | false => rfl
    | true =>
      let w' := Config.setVal k (Config.limit (w.vars k) val) w
      exact congrArg (fun w => some (1, w)) (callCb_after sem out (w'.vars k).wrCb k false
        (w'.vars k).wrCbData w')

/-- The same with the buffer of the reply. -/
def afterCfg (c : Cfg n κ δ ε ω) : Cfg n κ δ ε ω := { c with w := after out c.w }

lemma send_after (rep : CfgMsg) (w : World n κ δ ε ω) :
    Config.send rep (after out w) = afterCfg out (Config.send rep w) := by
  simp [Config.send, afterCfg, after]

lemma serveEntry_after (req rep : CfgMsg) (ind : Int32) (k : Fin n.1) (w : World n κ δ ε ω) :
    Config.serveEntry sem req rep ind k (after out w) =
      (Config.serveEntry sem req rep ind k w).map (afterCfg out) := by
  unfold Config.serveEntry
  split
  · rw [cfgSetInd_after]
    cases Config.cfgSetInd sem ind req.val true w with
    | none => rfl
    | some p =>
      simp only [Option.map_some, Option.bind_eq_bind, Option.bind_some, Prod.map, id_eq]
      split <;> exact congrArg some (send_after out ..)
  split
  · have hcb : Config.callCb sem ((after out w).vars k).rdCb k true
        ((after out w).vars k).rdCbData (after out w) = _ := callCb_after sem out ..
    simp only [hcb]
    exact congrArg some (send_after out ..)
  all_goals
    repeat' split
    all_goals exact congrArg some (send_after out ..)

/-- **What the handler does** does not depend on what was printed. -/
theorem configMsgHandler_after (req : CfgMsg) (c : Cfg n κ δ ε ω) :
    Config.configMsgHandler sem req (afterCfg out c) =
      (Config.configMsgHandler sem req c).map (afterCfg out) := by
  unfold Config.configMsgHandler
  simp only
  split
  · exact congrArg some (send_after out ..)
  split
  · exact congrArg some (send_after out ..)
  split
  · exact congrArg some (send_after out ..)
  · cases Config.entry? n req.ind with
    | none => rfl
    | some k => exact serveEntry_after sem out ..

end Handler

/-! ### The address of the module -/

section Address

variable {n : VarCount} {κ δ ε : Type} {sem : CbSem n κ δ ε (List UInt8)} {env : Env}
  {ic : Fin maxRpmsgCh} {a ka : UInt32} {s s' t : State n κ δ ε}

/-- Only the channel `ic`, whose address is `a`, sends to the address `ka` of the module. -/
structure Private (ic : Fin maxRpmsgCh) (a ka : UInt32) (s : State n κ δ ε) : Prop where
  others : ∀ i ≠ ic, (s.channels i).remoteAddr ≠ ka
  sent : ∀ p ∈ sent s.log, p.dst = ka → p.src = a

/-- What comes from the module goes to the address `a`. -/
def Loyal (a ka : UInt32) (log : List Ev) : Prop := ∀ pkt ∈ received log, pkt.src = ka → pkt.dst = a

lemma Loyal.of_prefix {log log' : List Ev} (h : Loyal a ka log') (hp : log <+: log') :
    Loyal a ka log := by
  obtain ⟨seg, rfl⟩ := hp
  intro pkt hpkt
  refine h pkt ?_
  rw [received_append]
  exact List.mem_append_left _ hpkt

lemma Private.publishes (h : Private ic a ka s) (hr : Ready ic a s) {sends : Main.Sends}
    {pss : List (List Packet)} (hp : List.Forall₂ (Publishes s.channels) sends pss) :
    ∀ p ∈ pss.flatten, p.dst = ka → p.src = a := by
  induction hp with
  | nil => exact fun p hp => absurd hp List.not_mem_nil
  | @cons call ps sends pss hpub _ ih =>
    intro p hp hdst
    rw [List.flatten_cons] at hp
    rcases List.mem_append.1 hp with hp | hp
    · obtain ⟨ch, data⟩ := call
      cases ch with
      | none =>
        obtain rfl : ps = [] := hpub
        exact absurd hp List.not_mem_nil
      | some i =>
        simp only [Publishes] at hpub
        split at hpub
        · subst hpub
          exact absurd hp List.not_mem_nil
        · obtain ⟨pkt, rfl, hpkt⟩ := hpub
          obtain rfl := List.mem_singleton.1 hp
          by_cases hi : i = ic
          · subst hi
            rw [hpkt.src, hr.addr]
          · exact absurd (hpkt.dst.symm.trans hdst) (h.others i hi)
    · exact ih p hp hdst

lemma Private.sends (h : Private ic a ka s) (hr : Ready ic a s) {sends : Main.Sends}
    {pss : List (List Packet)} (hp : List.Forall₂ (Publishes s.channels) sends pss)
    (he : Emits pss.flatten s s') (hc : s'.channels = s.channels) : Private ic a ka s' :=
  ⟨hc ▸ h.others, fun p hmem =>
    (mem_sent_of_emits he hmem).elim (h.sent p) (h.publishes hr hp p)⟩

lemma Private.look (h : Private ic a ka s) (hr : Ready ic a s) : Private ic a ka (s.look env) :=
  have hl : Sends [] s (s.look env) := sends_look s
  h.sends hr .nil hl.emits hl.channels

lemma Private.marked {pkt : Packet} (h : Private ic a ka s) (hr : Ready ic a s)
    (hl : pkt.src = ka → pkt.dst = a) (hm : Marked pkt s t) : Private ic a ka t := by
  refine ⟨fun i hi => ?_, by rw [hm.log]; exact h.sent⟩
  rcases hm.channels i with e | ⟨hacc, e⟩
  · rw [e]
    exact h.others i hi
  · rw [e]
    exact fun hsrc => hr.otherAddr i hi (hacc.2.symm.trans (hl hsrc))

lemma Private.deliver {addr : UInt32} {pkt : Packet} (h : Private ic a ka s) (hr : Ready ic a s)
    (hl : pkt.src = ka → pkt.dst = a)
    (hs : deliver (handlers sem) env addr pkt (List.finRange maxRpmsgCh) s = .ok s') :
    Private ic a ka s' := by
  rcases deliver_cases hs with ⟨hm, -⟩ | ⟨t, i, c, hm, -, -, -, hcall⟩
  · exact h.marked hr hl hm
  · obtain ⟨r, pss, -, hp, hem, hch, -, -⟩ := callCb_cases hcall
    exact (h.marked hr hl hm).sends (hr.marked hm) hp hem hch

lemma private_readMessage (hr : Ready ic a s) (h : Loyal a ka s.log → Private ic a ka s)
    (hs : readMessage (handlers sem) env s = .ok s') : Loyal a ka s'.log → Private ic a ka s' := by
  have hlook : Sends [] s (s.look env) := sends_look s
  have hready : Ready ic a (s.look env) :=
    hr.of_eq hlook.channels (hlook.app ▸ rfl) (hlook.app ▸ rfl)
  obtain ⟨seg, hseg, -⟩ := hlook.emits
  rcases readMessage_cases hs with rfl | ⟨rx, index, addr, pkt, notified, t, ht, hlog, hch, -, -⟩
  · intro hl
    exact (h (hl.of_prefix ⟨seg, hseg.symm⟩)).look hr
  · intro hl
    obtain ⟨-, hpre⟩ := Firmware.Peers.deliver_pointer ht
    have hlt : Loyal a ka ((s.look env).log ++ [.rxTake index pkt]) :=
      hl.of_prefix (hpre.trans ⟨_, hlog.symm⟩)
    have hlook' : Loyal a ka (s.look env).log := hlt.of_prefix (List.prefix_append _ _)
    have hprivate : Private ic a ka (s.look env) := (h (hlook'.of_prefix ⟨seg, hseg.symm⟩)).look hr
    have htake : Private ic a ka ({ s.look env with rx }.emit (.rxTake index pkt)) := by
      refine ⟨hprivate.others, fun p hp => hprivate.sent p ?_⟩
      have hp : p ∈ Sending.sent ((s.look env).log ++ [.rxTake index pkt]) := hp
      rw [sent_append] at hp
      exact (List.mem_append.1 hp).resolve_right List.not_mem_nil
    have hpkt : pkt.src = ka → pkt.dst = a := by
      refine hlt pkt ?_
      rw [received_append]
      exact List.mem_append_right _ List.mem_cons_self
    have hend := htake.deliver (hready.of_eq rfl rfl rfl) hpkt ht
    refine ⟨hch ▸ hend.others, fun p hp => hend.sent p ?_⟩
    rw [hlog, sent_append] at hp
    exact (List.mem_append.1 hp).resolve_right List.not_mem_nil

end Address

/-! ### Polling and printing -/

section Calm

variable {n : VarCount} {κ δ ε : Type} {sem : CbSem n κ δ ε (List UInt8)} {env : Env}
  {ic : Fin maxRpmsgCh} {a ka : UInt32} {s₀ s s' : State n κ δ ε} {x : Act κ δ ε}

/-- The main loop polls, and the firmware may print; it leaves the variables to the kernel. -/
def Calm : Act κ δ ε → Prop
  | .poll _ | .print _ => True
  | .setCallback .. | .setId .. | .setExt _ => False

lemma works_of_calm (hx : Calm x) (h : Serving ic a s) (hs : act sem env s x = .ok s') :
    Works sem a s s' := by
  obtain ⟨regs, seg, hregs, hlog, hrun⟩ := act_works h hs
  have he : regs = .of s.app := by
    cases x with
    | poll | print => exact (Option.some.inj hregs).symm
    | _ => exact absurd hx id
  exact ⟨seg, hlog, he ▸ hrun⟩

lemma reaches_of_calm (hx : Calm x) (hs : act sem env s x = .ok s') :
    Reaches (handlers sem) (none, shared s) (none, shared s') := by
  cases x with
  | poll rounds =>
    obtain ⟨⟨ret, t⟩, ht, hs⟩ := bind_eq_ok.1 hs
    obtain rfl := Except.ok.inj hs
    exact reaches_rpmsgPoll ht
  | print text => exact reaches_rpmsgSends hs
  | _ => exact absurd hx id

lemma kept_private : Kept (handlers sem) env fun t : State n κ δ ε =>
    Serving ic a t ∧ (Loyal a ka t.log → Private ic a ka t) :=
  have hserv : Kept (handlers sem) env (Serving ic a) := kept_serving
  { look := fun t h => by
      have hl : Sends [] t (t.look env) := sends_look t
      obtain ⟨seg, hseg, -⟩ := hl.emits
      exact ⟨hserv.look t h.1, fun hp =>
        (h.2 (hp.of_prefix ⟨seg, hseg.symm⟩)).look h.1.idle.ready⟩
    txKick := fun t k h => ⟨hserv.txKick t k h.1, fun hp => ⟨(h.2 hp).others, (h.2 hp).sent⟩⟩
    rxKick := fun t k h => ⟨hserv.rxKick t k h.1, fun hp => ⟨(h.2 hp).others, (h.2 hp).sent⟩⟩
    read := fun t t' h hs =>
      ⟨hserv.read t t' h.1 hs, private_readMessage h.1.idle.ready h.2 hs⟩ }

lemma private_of_calm (hx : Calm x) (hserv : Serving ic a s)
    (h : Loyal a ka s.log → Private ic a ka s) (hs : act sem env s x = .ok s') :
    Loyal a ka s'.log → Private ic a ka s' := by
  cases x with
  | poll rounds =>
    obtain ⟨⟨ret, t⟩, ht, hs⟩ := bind_eq_ok.1 hs
    obtain rfl := Except.ok.inj hs
    exact (kept_private.rpmsgPoll ⟨hserv, h⟩ ht).2
  | print text =>
    obtain ⟨pss, hp, hsent⟩ := rpmsgSends_sends hs
    obtain ⟨seg, hseg, -⟩ := hsent.emits
    exact fun hl => (h (hl.of_prefix ⟨seg, hseg.symm⟩)).sends hserv.idle.ready hp hsent.emits
      hsent.channels
  | _ => exact absurd hx id

/-- What has happened since `s₀`. -/
structure Since (sem : CbSem n κ δ ε (List UInt8)) (ic : Fin maxRpmsgCh) (a ka : UInt32)
    (s₀ s : State n κ δ ε) : Prop where
  serving : Serving ic a s
  works : Works sem a s₀ s
  reaches : Reaches (handlers sem) (none, shared s₀) (none, shared s)
  loyal : Loyal a ka s.log → Private ic a ka s

/-- **A run of a firmware that polls and prints.** -/
theorem since_run {acts : List (Act κ δ ε)} (hserv : Serving ic a s₀) (h : Private ic a ka s₀)
    (hcalm : ∀ x ∈ acts, Calm x) (hr : run (step sem env) s₀ acts = some s) :
    Since sem ic a ka s₀ s := by
  induction acts using List.reverseRecOn generalizing s with
  | nil =>
    obtain rfl := Option.some.inj hr
    exact ⟨hserv, .refl _, .refl, fun _ => h⟩
  | append_singleton acts x ih =>
    obtain ⟨t, ht, hs⟩ := run_concat_eq_some.1 hr
    have hs := toOption_eq_some.1 hs
    have hx := hcalm x (List.mem_append_right _ List.mem_cons_self)
    have ht := ih (fun y hy => hcalm y (List.mem_append_left _ hy)) ht
    exact ⟨ht.serving.act hs, ht.works.trans (works_of_calm hx ht.serving hs),
      ht.reaches.trans (reaches_of_calm hx hs), private_of_calm hx ht.serving ht.loyal hs⟩

end Calm

end CfgMgmt.Firmware.Endpoint
