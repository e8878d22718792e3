import CfgMgmt.Firmware.Replies

/-!
# The firmware is a sequential server

The history of the transport and the list of what the firmware does by itself can be merged so that the
whole is the run of a server (`next`) that handles one request after the other: it takes a request, changes
its registers as `config_msg_handler` does, publishes the reply, and returns the buffer.  What the firmware
does by itself happens between two requests.
-/

namespace CfgMgmt.Firmware.Server

open CfgMgmt.Lib.Bytes CfgMgmt.Lib.Machine CfgMgmt.Msg
open CfgMgmt.Firmware.Config (VarCount CbSem Table World)
open CfgMgmt.Firmware.ConfigRefinement (regMap query configMsgHandler_serves)
open CfgMgmt.Firmware.Remoteproc CfgMgmt.Firmware.Buffers CfgMgmt.Firmware.Main
open CfgMgmt.Firmware.Replies (Ready Serving Idle sentFrom sentFrom_cons serve_out outSends_append
  fst_of_mem_write fst_of_mem_outSends forall₂_concat callCb_stdio kept_serving boot_serving cfgSetId_out)
open CfgMgmt.Firmware.Sending hiding Sends
open CfgMgmt.Firmware.Sending (Sends)

/-! ### The server -/

/-- What `config_msg_handler` and the functions of `config.c` read and write. -/
structure Regs (n : VarCount) (κ δ ε : Type) where
  vars : Table n κ δ
  ext : ε
  cfgMsgTxBuf : CfgMsg

/-- The registers, and the reply that the server has still to publish, with its destination. -/
structure Desk (n : VarCount) (κ δ ε : Type) where
  regs : Regs n κ δ ε
  due : Option (UInt32 × CfgMsg)

def IsAnswer (p : Packet) (dst : UInt32) (rep : CfgMsg) : Prop :=
  p.dst = dst ∧ p.len.toNat = sizeofCfgMsg ∧ cfgMsg p.data = rep

instance (p : Packet) (dst : UInt32) (rep : CfgMsg) : Decidable (IsAnswer p dst rep) :=
  inferInstanceAs (Decidable (_ ∧ _ ∧ _))

section Server

variable {n : VarCount} {κ δ ε : Type} (sem : CbSem n κ δ ε (List UInt8))

def Regs.of (m : Mem n κ δ ε) : Regs n κ δ ε := ⟨m.vars, m.ext, m.cfgMsgTxBuf⟩

/-- The handler serves a request; the reply is left in `cfgMsgTxBuf`. -/
def Regs.serve (req : CfgMsg) (r : Regs n κ δ ε) : Option (Regs n κ δ ε) := do
  let c ← Config.configMsgHandler sem req ⟨⟨r.vars, r.ext, []⟩, r.cfgMsgTxBuf⟩
  some ⟨c.w.vars, c.w.ext, c.txBuf⟩

/-- What the firmware does by itself. -/
def Regs.act (r : Regs n κ δ ε) : Act κ δ ε → Option (Regs n κ δ ε)
  | .poll _ => some r
  | .print _ => some r
  | .setCallback id cb read data =>
    some { r with vars := (Config.cfgSetCallback id cb read data r.vars).2 }
  | .setId id val trigCb => do
    let (_, w) ← Config.cfgSetId sem id val trigCb ⟨r.vars, r.ext, []⟩
    some { r with vars := w.vars, ext := w.ext }
  | .setExt ext => some { r with ext }

variable (a : UInt32)

/-- An event of the transport, for the server with the address `a`: a packet is taken when the reply to the
one before is published, from the address only the reply that is due is published, and a buffer is returned
when nothing is due. -/
def Desk.next (d : Desk n κ δ ε) : Ev → Option (Desk n κ δ ε)
  | .rxTake _ pkt =>
    match d.due with
    | some _ => none
    | none =>
      if pkt.dst = a then do
        let regs ← d.regs.serve sem (cfgMsg pkt.data)
        some ⟨regs, some (pkt.src, regs.cfgMsgTxBuf)⟩
      else some d
  | .txPublish _ p _ =>
    if p.src = a then
      match d.due with
      | some (dst, rep) => if IsAnswer p dst rep then some { d with due := none } else none
      | none => none
    else some d
  | .rxPublish .. =>
    match d.due with
    | some _ => none
    | none => some d
  | _ => some d

/-- An event of the transport, or something the firmware does by itself. -/
def next (d : Desk n κ δ ε) : Ev ⊕ Act κ δ ε → Option (Desk n κ δ ε)
  | .inl e => d.next sem a e
  | .inr x =>
    match d.due with
    | some _ => none
    | none => do
      let regs ← d.regs.act sem x
      some { d with regs }

variable {sem a}

lemma run_next_inl (d : Desk n κ δ ε) (log : List Ev) :
    run (next sem a) d (log.map .inl) = run (Desk.next sem a) d log := by
  induction log generalizing d with
  | nil => rfl
  | cons e log ih =>
    simp only [List.map_cons, run, next]
    cases Desk.next sem a d e with
    | none => rfl
    | some d' => exact ih d'

/-! ### Segments of a history -/

lemma next_of_silent {d : Desk n κ δ ε} {e : Ev} (h : ¬ IsRx e) (hs : sentFrom a [e] = []) :
    d.next sem a e = some d := by
  cases e with
  | rxTake | rxPublish => exact absurd trivial h
  | txPublish idx p notified =>
    have hp : p.src ≠ a := by
      intro hp
      simp [sentFrom, sent, hp] at hs
    exact if_neg hp
  | _ => rfl

lemma run_silent {d : Desk n κ δ ε} {seg : List Ev} (h : ∀ e ∈ seg, ¬ IsRx e)
    (hs : sentFrom a seg = []) : run (Desk.next sem a) d seg = some d := by
  induction seg with
  | nil => rfl
  | cons e es ih =>
    rw [sentFrom_cons, List.append_eq_nil_iff] at hs
    exact run_cons_eq_some.2 ⟨d, next_of_silent (h e List.mem_cons_self) hs.1,
      ih (fun e' he' => h e' (List.mem_cons_of_mem _ he')) hs.2⟩

/-- The reply that is due is sent from the address of the server, and nothing else. -/
lemma run_reply {regs : Regs n κ δ ε} {dst : UInt32} {rep : CfgMsg} {p : Packet} {seg : List Ev}
    (h : ∀ e ∈ seg, ¬ IsRx e) (hs : sentFrom a seg = [p]) (hp : IsAnswer p dst rep) :
    run (Desk.next sem a) ⟨regs, some (dst, rep)⟩ seg = some ⟨regs, none⟩ := by
  induction seg with
  | nil => cases hs
  | cons e es ih =>
    have htail : ∀ e' ∈ es, ¬ IsRx e' := fun e' he' => h e' (List.mem_cons_of_mem _ he')
    rw [sentFrom_cons] at hs
    rcases List.append_eq_cons_iff.1 hs with ⟨he, hes⟩ | ⟨rest, he, hes⟩
    · exact run_cons_eq_some.2 ⟨_, next_of_silent (h e List.mem_cons_self) he, ih htail hes⟩
    · obtain ⟨rfl, hnone⟩ := List.append_eq_nil_iff.1 hes.symm
      refine run_cons_eq_some.2 ⟨⟨regs, none⟩, ?_, run_silent htail hnone⟩
      cases e with
      | txPublish idx q notified =>
        have hq : q.src = a ∧ q = p := by
          by_cases hqa : q.src = a
          · simp only [sentFrom, sent, List.filterMap_cons, List.filterMap_nil, List.filter_cons, hqa,
              decide_true, if_true, List.filter_nil, List.cons.injEq, and_true] at he
            exact ⟨hqa, he⟩
          · simp [sentFrom, sent, hqa] at he
        obtain ⟨hqa, rfl⟩ := hq
        simp [Desk.next, hqa, hp]
      | _ => cases he

end Server

/-! ### The functions of the firmware -/

section Firmware

variable {n : VarCount} {κ δ ε : Type} {sem : CbSem n κ δ ε (List UInt8)} {env : Env}
  {ic : Fin maxRpmsgCh} {a : UInt32} {s s' t : State n κ δ ε}

variable (sem) in
/-- **What the handler does**: it serves the request, and sends what the callback of the variable prints and
then the reply. -/
lemma configMsgHandler_serves_regs (data : Buf dataLenMax) (m : Mem n κ δ ε) :
    ∃ (r : CbResult (Mem n κ δ ε)) (prints : List (List UInt8)),
      Main.configMsgHandler sem data m = some r ∧
      (Regs.of m).serve sem (cfgMsg data) = some (.of r.app) ∧
      r.app.rpmsgConfig = m.rpmsgConfig ∧ r.app.rpmsgStdio = m.rpmsgStdio ∧
      r.sends = outSends m (prints.map .inl) ++ [(m.rpmsgConfig, r.app.cfgMsgTxBuf.encode)] := by
  obtain ⟨rep, hrun, -⟩ :=
    configMsgHandler_serves sem (cfgMsg data) ⟨⟨m.vars, m.ext, []⟩, m.cfgMsgTxBuf⟩
  obtain ⟨prints, hout⟩ := serve_out sem ⟨m.vars, m.ext, []⟩ (query n (cfgMsg data))
  refine ⟨⟨{ m with
      vars := ((regMap sem).serve ⟨m.vars, m.ext, []⟩ (query n (cfgMsg data))).1.vars
      ext := ((regMap sem).serve ⟨m.vars, m.ext, []⟩ (query n (cfgMsg data))).1.ext
      cfgMsgTxBuf := rep }, outSends m (prints.map .inl ++ [.inr rep]), none⟩, prints, ?_, ?_, rfl, rfl,
    outSends_append ..⟩
  · unfold Main.configMsgHandler
    rw [hrun]
    simp [Config.send, hout]
  · unfold Regs.serve Regs.of
    rw [hrun]
    rfl

lemma isAnswer_of_isMessage {dst : UInt32} {p : Packet} {rep : CfgMsg}
    (hp : IsMessage a dst rep.encode p) : IsAnswer p dst rep := by
  have hpay : payload rep.encode = rep.encode := by
    unfold payload
    rw [List.take_of_length_le]
    rw [CfgMsg.length_encode]
    decide
  obtain ⟨rest, hdata⟩ := hp.data
  rw [hpay] at hdata
  refine ⟨hp.dst, by rw [hp.len, hpay, CfgMsg.length_encode], ?_⟩
  unfold cfgMsg
  simp only [hdata]
  exact rep.decode_encode_append rest _

/-- From `s` to `s'` the transport does what the server does. -/
def Works (sem : CbSem n κ δ ε (List UInt8)) (a : UInt32) (s s' : State n κ δ ε) : Prop :=
  ∃ seg, s'.log = s.log ++ seg ∧
    run (Desk.next sem a) ⟨.of s.app, none⟩ seg = some ⟨.of s'.app, none⟩

lemma Works.refl (s : State n κ δ ε) : Works sem a s s := ⟨[], (List.append_nil _).symm, rfl⟩

lemma Works.trans (h : Works sem a s t) (h' : Works sem a t s') : Works sem a s s' := by
  obtain ⟨seg, hlog, hrun⟩ := h
  obtain ⟨seg', hlog', hrun'⟩ := h'
  exact ⟨seg ++ seg', by rw [hlog', hlog, List.append_assoc], run_append_eq_some.2 ⟨_, hrun, hrun'⟩⟩

/-- Messages from other addresses are sent, and the registers are left alone. -/
lemma works_of_emits {ps : List Packet} (he : Emits ps s s') (hps : ps.filter (fun p => p.src = a) = [])
    (hregs : Regs.of s'.app = .of s.app) : Works sem a s s' := by
  obtain ⟨seg, hlog, hsent, hrx⟩ := he
  refine ⟨seg, hlog, ?_⟩
  rw [hregs]
  exact run_silent hrx (by rw [sentFrom, hsent, hps])

lemma works_look : Works sem a s (s.look env) :=
  have h : Sends [] s (s.look env) := sends_look s
  works_of_emits h.emits rfl (by rw [h.app])

lemma callCb_serves {addr : UInt32} {pkt : Packet} (h : Ready ic a t)
    (hsrc : (t.channels ic).remoteAddr = pkt.src)
    (hcall : callCb (handlers sem) env .configMsgHandler ic addr pkt t = .ok s') :
    (Regs.of t.app).serve sem (cfgMsg pkt.data) = some (.of s'.app) ∧
      ∃ ps p, Emits ps t s' ∧ ps.filter (fun p => p.src = a) = [p] ∧
        IsAnswer p pkt.src (Regs.of s'.app).cfgMsgTxBuf := by
  obtain ⟨r, pss, hr, hp, hem, -, happ, -⟩ := callCb_cases hcall
  obtain ⟨r', prints, hr', hserve, -, -, hsends⟩ := configMsgHandler_serves_regs sem pkt.data t.app
  obtain rfl := Option.some.inj (hr.symm.trans hr')
  rw [happ]
  refine ⟨hserve, pss.flatten, ?_⟩
  rw [hsends] at hp
  obtain ⟨pss, ps, rfl, hprints, hrep⟩ := forall₂_concat hp
  have hnone : pss.flatten.filter (fun p => p.src = a) = [] :=
    h.sentFrom_others hprints fun p hmem => fst_of_mem_outSends hmem ▸ h.stdio
  rw [h.config, Publishes, if_neg h.used, h.addr, hsrc] at hrep
  obtain ⟨p, rfl, hpkt⟩ := hrep
  refine ⟨p, hem, ?_, isAnswer_of_isMessage hpkt⟩
  rw [List.flatten_append, List.filter_append, hnone]
  simp [hpkt.src]

/-- The callback of the standard output leaves the registers alone. -/
lemma regs_callCb_stdio {i : Fin maxRpmsgCh} {addr : UInt32} {pkt : Packet}
    (hcall : callCb (handlers sem) env .stdioMsgHandler i addr pkt t = .ok s') :
    Regs.of s'.app = .of t.app := by
  obtain ⟨r, pss, hr, -, -, -, happ, -⟩ := callCb_cases hcall
  obtain rfl := Option.some.inj hr
  rw [happ]
  unfold stdioMsgHandler
  split <;> rfl

/-- **Delivering a packet**: a packet for the channel is served and answered, all others are not. -/
lemma deliver_serves {addr : UInt32} {pkt : Packet} (h : Ready ic a s)
    (hs : deliver (handlers sem) env addr pkt (List.finRange maxRpmsgCh) s = .ok s') :
    (pkt.dst = a ∧ (Regs.of s.app).serve sem (cfgMsg pkt.data) = some (.of s'.app) ∧
      ∃ ps p, Emits ps s s' ∧ ps.filter (fun p => p.src = a) = [p] ∧
        IsAnswer p pkt.src (Regs.of s'.app).cfgMsgTxBuf) ∨
      (pkt.dst ≠ a ∧ Regs.of s'.app = .of s.app ∧ Emits [] s s') := by
  rcases deliver_cases hs with ⟨hm, hcb⟩ | ⟨t, i, c, hm, hacc, hcb, hti, hcall⟩
  · -- no callback: the packet is not for the channel, which has one
    refine .inr ⟨fun hd => ?_, by rw [hm.app], .of_log_eq hm.log⟩
    have hacc : Accepts pkt (s.channels ic) := by
      refine ⟨?_, hd.trans h.addr.symm⟩
      cases hst : (s.channels ic).state with
      | unused => exact absurd hst h.used
      | announced => exact .inl rfl
      | up => exact .inr rfl
    cases h.cb.symm.trans (hcb ic (List.mem_finRange ic) hacc)
  · have ht := h.marked hm
    cases c with
    | configMsgHandler =>
      obtain rfl := h.otherCb i hcb
      have hsrc : (t.channels i).remoteAddr = pkt.src := by rw [hti]; rfl
      obtain ⟨hserve, ps, p, hem, hans⟩ := callCb_serves ht hsrc hcall
      rw [hm.app] at hserve
      exact .inl ⟨hacc.2.trans h.addr, hserve, ps, p, (Emits.of_log_eq hm.log).trans hem, hans⟩
    | stdioMsgHandler =>
      obtain ⟨hem, -⟩ := callCb_stdio hcall
      have hregs := regs_callCb_stdio hcall
      rw [hm.app] at hregs
      refine .inr ⟨fun hd => ?_, hregs, (Emits.of_log_eq hm.log).trans hem⟩
      have hi : i ≠ ic := by
        rintro rfl
        cases h.cb.symm.trans hcb
      exact h.otherAddr i hi (hacc.2.symm.trans hd)

lemma works_readMessage (h : Ready ic a s) (hs : readMessage (handlers sem) env s = .ok s') :
    Works sem a s s' := by
  rcases readMessage_cases hs with rfl | ⟨rx, index, addr, pkt, notified, t, ht, hlog, -, happ, -⟩
  · exact works_look
  · have hl : Sends [] s (s.look env) := sends_look s
    have hready : Ready ic a (s.look env) := h.of_eq hl.channels (hl.app ▸ rfl) (hl.app ▸ rfl)
    have htake : Ready ic a ({ s.look env with rx }.emit (.rxTake index pkt)) :=
      hready.of_eq rfl rfl rfl
    -- what is left to show is the run from the taking of the packet on
    have hworks : ∀ seg, t.log = (s.look env).log ++ [.rxTake index pkt] ++ seg →
        run (Desk.next sem a) ⟨.of (s.look env).app, none⟩ (.rxTake index pkt :: seg) =
          some ⟨.of t.app, none⟩ → Works sem a s s' := by
      intro seg hseg hrun
      have hrest : Works sem a (s.look env) s' := by
        refine ⟨.rxTake index pkt :: seg ++ [.rxPublish index notified], ?_, ?_⟩
        · rw [hlog, hseg]
          simp
        · rw [happ]
          exact run_concat_eq_some.2 ⟨_, hrun, rfl⟩
      exact works_look.trans hrest
    rcases deliver_serves htake ht with
      ⟨hd, hserve, ps, p, ⟨seg, hseg, hsent, hrx⟩, hps, hans⟩ | ⟨hd, hregs, seg, hseg, hsent, hrx⟩
    · refine hworks seg hseg (run_cons_eq_some.2
        ⟨⟨.of t.app, some (pkt.src, (Regs.of t.app).cfgMsgTxBuf)⟩, ?_, ?_⟩)
      · simp only [Desk.next, if_pos hd]
        rw [show (Regs.of (s.look env).app).serve sem (cfgMsg pkt.data) = some (.of t.app) from hserve]
        rfl
      · exact run_reply hrx (by rw [sentFrom, hsent, hps]) hans
    · have hregs : Regs.of t.app = .of (s.look env).app := hregs
      rw [hregs] at hworks
      refine hworks seg hseg (run_cons_eq_some.2 ⟨⟨.of (s.look env).app, none⟩, ?_, ?_⟩)
      · simp only [Desk.next, if_neg hd]
      · exact run_silent hrx (by rw [sentFrom, hsent, List.filter_nil])

lemma kept_works : Kept (handlers sem) env fun t => Serving ic a t ∧ Works sem a s t :=
  have hserv : Kept (handlers sem) env (Serving ic a) := kept_serving
  { look := fun t h => ⟨hserv.look t h.1, h.2.trans works_look⟩
    txKick := fun t k h => ⟨hserv.txKick t k h.1, h.2⟩
    rxKick := fun t k h => ⟨hserv.rxKick t k h.1, h.2⟩
    read := fun t t' h hs =>
      ⟨hserv.read t t' h.1 hs, h.2.trans (works_readMessage h.1.idle.ready hs)⟩ }

lemma works_prints {sends : Main.Sends} (h : Ready ic a s) (hp : ∀ p ∈ sends, p.1 ≠ some ic)
    (hs : rpmsgSends env sends s = .ok s') : Works sem a s s' := by
  obtain ⟨pss, hpub, hsent⟩ := rpmsgSends_sends hs
  exact works_of_emits hsent.emits (h.sentFrom_others hpub hp) (by rw [hsent.app])

/-- **Everything the firmware does by itself** changes the registers as the server does, and then the
transport goes on. -/
lemma act_works {x : Act κ δ ε} (h : Serving ic a s) (hs : act sem env s x = .ok s') :
    ∃ regs seg, (Regs.of s.app).act sem x = some regs ∧ s'.log = s.log ++ seg ∧
      run (Desk.next sem a) ⟨regs, none⟩ seg = some ⟨.of s'.app, none⟩ := by
  cases x with
  | poll rounds =>
    obtain ⟨⟨ret, t⟩, ht, hs⟩ := bind_eq_ok.1 hs
    obtain rfl := Except.ok.inj hs
    obtain ⟨-, seg, hlog, hrun⟩ := kept_works.rpmsgPoll ⟨h, .refl s⟩ ht
    exact ⟨_, seg, rfl, hlog, hrun⟩
  | print text =>
    obtain ⟨seg, hlog, hrun⟩ :=
      works_prints h.idle.ready (fun p hp => fst_of_mem_write hp ▸ h.idle.ready.stdio) hs
    exact ⟨_, seg, rfl, hlog, hrun⟩
  | setCallback id cb read data =>
    obtain rfl := Except.ok.inj hs
    exact ⟨_, [], rfl, (List.append_nil _).symm, rfl⟩
  | setId id val trigCb =>
    obtain ⟨r, w, hw, prints, hout⟩ := cfgSetId_out sem id val trigCb ⟨s.app.vars, s.app.ext, []⟩
    simp only [Main.act, hw, hout, List.nil_append] at hs
    have hready : Ready ic a { s with app := { s.app with vars := w.vars, ext := w.ext } } :=
      h.idle.ready.of_eq rfl rfl rfl
    obtain ⟨seg, hlog, hrun⟩ : Works sem a _ s' :=
      works_prints hready (fun p hp => fst_of_mem_outSends hp ▸ h.idle.ready.stdio) hs
    exact ⟨_, seg, by simp only [Regs.act, Regs.of, hw]; rfl, hlog, hrun⟩
  | setExt ext =>
    obtain rfl := Except.ok.inj hs
    exact ⟨_, [], rfl, (List.append_nil _).symm, rfl⟩

/-! ### Every run -/

/-- A merged history: the events of the transport since `s₀`, the acts of the firmware, and that the server
accepts the whole. -/
structure Merges (sem : CbSem n κ δ ε (List UInt8)) (a : UInt32) (s₀ s : State n κ δ ε)
    (acts : List (Act κ δ ε)) (hist : List (Ev ⊕ Act κ δ ε)) : Prop where
  log : s.log = s₀.log ++ hist.filterMap Sum.getLeft?
  acts : hist.filterMap Sum.getRight? = acts
  accepted : run (next sem a) ⟨.of s₀.app, none⟩ hist = some ⟨.of s.app, none⟩

lemma getLeft?_map_inl (seg : List Ev) :
    (seg.map (Sum.inl : Ev → Ev ⊕ Act κ δ ε)).filterMap Sum.getLeft? = seg := by
  rw [List.filterMap_map]
  exact List.filterMap_some

lemma getRight?_map_inl (seg : List Ev) :
    (seg.map (Sum.inl : Ev → Ev ⊕ Act κ δ ε)).filterMap Sum.getRight? = [] := by
  rw [List.filterMap_map]
  exact List.filterMap_eq_nil_iff.2 fun _ _ => rfl

lemma Merges.step {s₀ : State n κ δ ε} {acts : List (Act κ δ ε)} {hist : List (Ev ⊕ Act κ δ ε)}
    {x : Act κ δ ε} (h : Merges sem a s₀ s acts hist) (hserv : Serving ic a s)
    (hs : act sem env s x = .ok s') : ∃ hist', Merges sem a s₀ s' (acts ++ [x]) hist' := by
  obtain ⟨regs, seg, hregs, hlog, hrun⟩ := act_works hserv hs
  refine ⟨hist ++ .inr x :: seg.map .inl, ?_, ?_, ?_⟩
  · rw [hlog, h.log, List.filterMap_append, List.filterMap_cons_none rfl, getLeft?_map_inl,
      List.append_assoc]
  · have hx : Sum.getRight? (.inr x : Ev ⊕ Act κ δ ε) = some x := rfl
    rw [List.filterMap_append, List.filterMap_cons_some hx, getRight?_map_inl, h.acts]
  · refine run_append_eq_some.2 ⟨_, h.accepted, run_cons_eq_some.2 ⟨⟨regs, none⟩, ?_, ?_⟩⟩
    · simp only [next, hregs]
      rfl
    · rw [run_next_inl]
      exact hrun

/-- The merged history of a run, from any state in which the firmware is at work. -/
theorem merges_run {s₀ : State n κ δ ε} {acts : List (Act κ δ ε)} (h : Serving ic a s₀)
    (hr : run (step sem env) s₀ acts = some s) :
    Serving ic a s ∧ ∃ hist, Merges sem a s₀ s acts hist := by
  induction acts using List.reverseRecOn generalizing s with
  | nil =>
    obtain rfl := Option.some.inj hr
    exact ⟨h, [], (List.append_nil _).symm, rfl, rfl⟩
  | append_singleton acts x ih =>
    obtain ⟨t, ht, hs⟩ := run_concat_eq_some.1 hr
    obtain ⟨hserv, hist, hm⟩ := ih ht
    have hs := toOption_eq_some.1 hs
    exact ⟨hserv.act hs, hm.step hserv hs⟩

/-- **The firmware is a sequential server**, in every run after `cfgInit`, with any callbacks, any buffers
and any behaviour of the kernel. -/
theorem serves_run {vars : Table n κ δ} {ext : ε} {polls : List ℕ} {fw s₀ : State n κ δ ε}
    {acts : List (Act κ δ ε)} (h : Loaded vars ext fw) (hstart : Start (remoteprocInit fw))
    (hb : boot sem env fw polls = .ok s₀) (hr : run (step sem env) s₀ acts = some s) :
    ∃ hist, Merges sem (appAddrStart + 1) s₀ s acts hist :=
  (merges_run (boot_serving h.nextRpmsgAddr hstart hb) hr).2

end Firmware

/-! ### Two writes -/

/-- A table of one variable, with the limits 0 and 9. -/
def oneVar : Table ⟨1, one_lt_limit⟩ Empty Unit := fun _ =>
  ⟨1, ⟨[0x61], by decide⟩, .empty, 0, 0, 9, none, (), none, ()⟩

def noSem : CbSem ⟨1, one_lt_limit⟩ Empty Unit Unit (List UInt8) := fun c => c.elim

/-- A write of the variable. -/
def writeReq (val : Int32) : CfgMsg := ⟨7, reqWr, 0, val, 0, .zero _⟩

/-- The packet that carries a request to the second channel. -/
def reqPacket (req : CfgMsg) : Packet :=
  ⟨0x400, 0x51, 0, 420, 0, (Buf.zero _).write 0 req.encode (by rw [CfgMsg.length_encode]; decide)⟩

/-- A kernel that greets the first channel, and then writes 5. -/
def writerEnv : Env := fun time =>
  let pkt := if time < 8 then ⟨0x400, 0x50, 0, 1, 0, .zero _⟩ else reqPacket (writeReq 5)
  [[.offerTx 0, .offerRx 0 pkt, .kickRx]]

/-- A firmware with this table, with the buffers where Linux has put them. -/
def oneVarFw : State ⟨1, one_lt_limit⟩ Empty Unit Unit := Fw.prepared (Mem.loaded oneVar ())

/-- The firmware serves four writes of the kernel, and then writes 30 by itself. -/
theorem serves_write : ∃ s₀ s, boot noSem writerEnv oneVarFw [2] = .ok s₀ ∧
    run (step noSem writerEnv) s₀ [.poll 4, .setId 1 30 true] = some s ∧
    (s₀.app.vars 0).val = 0 ∧ (s.app.vars 0).val = 9 ∧
    (sentFrom (appAddrStart + 1) s.log).length = 4 ∧
    ∃ hist, Merges noSem (appAddrStart + 1) s₀ s [.poll 4, .setId 1 30 true] hist := by
  have h : (boot noSem writerEnv oneVarFw [2]).toOption.any (fun s₀ =>
      (run (step noSem writerEnv) s₀ [.poll 4, .setId 1 30 true]).any fun s =>
        decide ((s₀.app.vars 0).val = 0 ∧ (s.app.vars 0).val = 9 ∧
          (sentFrom (appAddrStart + 1) s.log).length = 4)) = true := by decide +kernel
  obtain ⟨s₀, hb, h'⟩ := (Option.any_eq_true ..).1 h
  obtain ⟨s, hs, h''⟩ := (Option.any_eq_true ..).1 h'
  obtain ⟨h1, h2, h3⟩ := of_decide_eq_true h''
  have hb := toOption_eq_some.1 hb
  exact ⟨s₀, s, hb, hs, h1, h2, h3, serves_run (loaded_prepared _ _) (start_prepared _) hb hs⟩

end CfgMgmt.Firmware.Server
