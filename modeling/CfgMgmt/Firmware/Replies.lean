import CfgMgmt.Firmware.Buffers
import CfgMgmt.Firmware.ConfigRefinement
import CfgMgmt.Firmware.Main
import CfgMgmt.Firmware.Sending

/-!
# Every request is answered once

After `cfgInit`, each message that `read_message` takes for the address of the `cfg_mgmt` channel is
answered by one message from that address before its buffer is returned, and messages for other
addresses by none.  A monitor of the history (`next`) carries the proof.
-/

namespace CfgMgmt.Firmware.Replies

open CfgMgmt.Lib.Bytes CfgMgmt.Lib.Machine CfgMgmt.Msg
open CfgMgmt.Firmware.Config (VarCount CbSem Table World)
open CfgMgmt.Firmware.ConfigRefinement (regMap query configMsgHandler_serves)
open CfgMgmt.Firmware.Remoteproc CfgMgmt.Firmware.Buffers CfgMgmt.Firmware.Main
open CfgMgmt.Firmware.Sending hiding Sends
open CfgMgmt.Firmware.Sending (Sends)

/-! ### The monitor -/

/-- A packet is the reply to a request. -/
structure IsReply (pkt rep : Packet) : Prop where
  dst : rep.dst = pkt.src
  len : rep.len.toNat = sizeofCfgMsg
  seq : (cfgMsg rep.data).seq = (cfgMsg pkt.data).seq
  ind : (cfgMsg rep.data).ind = (cfgMsg pkt.data).ind

instance (pkt rep : Packet) : Decidable (IsReply pkt rep) :=
  decidable_of_iff (rep.dst = pkt.src ∧ rep.len.toNat = sizeofCfgMsg ∧
      (cfgMsg rep.data).seq = (cfgMsg pkt.data).seq ∧ (cfgMsg rep.data).ind = (cfgMsg pkt.data).ind)
    ⟨fun ⟨h1, h2, h3, h4⟩ => ⟨h1, h2, h3, h4⟩, fun ⟨h1, h2, h3, h4⟩ => ⟨h1, h2, h3, h4⟩⟩

/-- The messages a history publishes from the address `a`. -/
def sentFrom (a : UInt32) (log : List Ev) : List Packet := (sent log).filter fun p => p.src = a

/-- The packets a history takes from the receive ring for the address `a`. -/
def requestsTo (a : UInt32) (log : List Ev) : List Packet :=
  log.filterMap fun | .rxTake _ pkt => if pkt.dst = a then some pkt else none | _ => none

/-- The messages `reps` from the address `a` answer the packet `pkt`. -/
def Answers (a : UInt32) (pkt : Packet) (reps : List Packet) : Prop :=
  reps.length = (if pkt.dst = a then 1 else 0) ∧ ∀ rep ∈ reps, IsReply pkt rep

instance (a : UInt32) (pkt : Packet) (reps : List Packet) : Decidable (Answers a pkt reps) :=
  inferInstanceAs (Decidable (_ ∧ _))

/-- The packet that is being processed, and what was sent from the address since it was taken. -/
abbrev Round : Type := Option (Packet × List Packet)

/-- What may happen next: nothing is sent from the address `a` unless a packet is being processed,
and its buffer is returned when it is answered. -/
def next (a : UInt32) : Round → Ev → Option Round
  | none, .rxTake _ pkt => some (some (pkt, []))
  | none, .rxPublish .. => none
  | none, .txPublish _ p _ => if p.src = a then none else some none
  | none, _ => some none
  | some _, .rxTake .. => none
  | some (pkt, reps), .rxPublish .. => if Answers a pkt reps then some none else none
  | some (pkt, reps), .txPublish _ p _ => some (some (pkt, if p.src = a then reps ++ [p] else reps))
  | some r, _ => some (some r)

section Monitor

variable {a : UInt32}

lemma sentFrom_cons (e : Ev) (log : List Ev) :
    sentFrom a (e :: log) = sentFrom a [e] ++ sentFrom a log := by
  unfold sentFrom
  rw [← List.filter_append, ← sent_append, List.singleton_append]

lemma next_open {pkt : Packet} {reps : List Packet} {e : Ev} (h : ¬ IsRx e) :
    next a (some (pkt, reps)) e = some (some (pkt, reps ++ sentFrom a [e])) := by
  cases e with
  | rxTake | rxPublish => exact absurd trivial h
  | txPublish d p notified =>
    by_cases hp : p.src = a <;> simp [next, sentFrom, sent, hp]
  | _ => simp [next, sentFrom, sent]

lemma run_open {pkt : Packet} {reps : List Packet} {seg : List Ev} (h : ∀ e ∈ seg, ¬ IsRx e) :
    run (next a) (some (pkt, reps)) seg = some (some (pkt, reps ++ sentFrom a seg)) := by
  induction seg generalizing reps with
  | nil => simp [sentFrom]
  | cons e es ih =>
    refine run_cons_eq_some.2 ⟨_, next_open (h e List.mem_cons_self), ?_⟩
    rw [sentFrom_cons e es, ← List.append_assoc]
    exact ih fun e' he' => h e' (List.mem_cons_of_mem _ he')

lemma run_idle {seg : List Ev} (h : ∀ e ∈ seg, ¬ IsRx e) (hs : sentFrom a seg = []) :
    run (next a) none seg = some none := by
  induction seg with
  | nil => rfl
  | cons e es ih =>
    rw [sentFrom_cons e es, List.append_eq_nil_iff] at hs
    refine run_cons_eq_some.2 ⟨none, ?_, ih (fun e' he' => h e' (List.mem_cons_of_mem _ he')) hs.2⟩
    have he := h e List.mem_cons_self
    cases e with
    | rxTake | rxPublish => exact absurd trivial he
    | txPublish d p notified =>
      have hp : p.src ≠ a := by
        intro hp
        simp [sentFrom, sent, hp] at hs
      simp [next, hp]
    | _ => rfl

lemma run_round {pkt : Packet} {reps : List Packet} {seg : List Ev} {r : Round}
    (hr : run (next a) (some (pkt, reps)) seg = some r)
    (h : ∀ e ∈ seg, ∀ d notified, e ≠ .rxPublish d notified) :
    r = some (pkt, reps ++ sentFrom a seg) := by
  induction seg generalizing reps with
  | nil => simpa [sentFrom] using hr.symm
  | cons e es ih =>
    obtain ⟨t, ht, hr⟩ := run_cons_eq_some.1 hr
    have he : ¬ IsRx e := by
      intro he
      cases e with
      | rxTake => cases ht
      | rxPublish d notified => exact h _ List.mem_cons_self d notified rfl
      | _ => exact he
    rw [next_open he] at ht
    obtain rfl := Option.some.inj ht
    rw [sentFrom_cons e es, ← List.append_assoc]
    exact ih hr fun e' he' => h e' (List.mem_cons_of_mem _ he')

/-- **In an accepted history every packet is answered before its buffer is returned.** -/
theorem answers_of_run {log pre mid suf : List Ev} {d d' : UInt16} {pkt : Packet} {notified : Bool}
    {r : Round} (hr : run (next a) none log = some r)
    (hlog : log = pre ++ .rxTake d pkt :: (mid ++ .rxPublish d' notified :: suf))
    (h : ∀ e ∈ mid, ∀ d notified, e ≠ .rxPublish d notified) : Answers a pkt (sentFrom a mid) := by
  rw [hlog] at hr
  obtain ⟨t, -, hr⟩ := run_append_eq_some.1 hr
  obtain ⟨u, hu, hr⟩ := run_cons_eq_some.1 hr
  obtain ⟨v, hv, hr⟩ := run_append_eq_some.1 hr
  obtain ⟨w, hw, -⟩ := run_cons_eq_some.1 hr
  cases t with
  | some p => cases hu
  | none =>
    obtain rfl := Option.some.inj hu
    obtain rfl := run_round hv h
    rw [List.nil_append] at hw
    exact (Option.ite_none_right_eq_some.1 hw).1

lemma requestsTo_cons (e : Ev) (log : List Ev) :
    requestsTo a (e :: log) = requestsTo a [e] ++ requestsTo a log := by
  unfold requestsTo
  rw [← List.filterMap_append, List.singleton_append]

lemma requestsTo_of_not_isRx {e : Ev} (h : ¬ IsRx e) : requestsTo a [e] = [] := by
  cases e with
  | rxTake | rxPublish => exact absurd trivial h
  | _ => rfl

/-- The request that is being processed, and its replies so far. -/
def current (a : UInt32) : Round → List Packet × List Packet
  | none => ([], [])
  | some (pkt, reps) => (if pkt.dst = a then [pkt] else [], reps)

lemma Answers.forall₂ {pkt : Packet} {reps : List Packet} (h : Answers a pkt reps) :
    List.Forall₂ IsReply (current a (some (pkt, reps))).1 reps := by
  obtain ⟨hlen, hrep⟩ := h
  simp only [current]
  split at hlen
  · rename_i hd
    obtain ⟨rep, rfl⟩ := List.length_eq_one_iff.1 hlen
    rw [if_pos hd]
    exact .cons (hrep rep List.mem_cons_self) .nil
  · rename_i hd
    rw [List.length_eq_zero_iff.1 hlen, if_neg hd]
    exact .nil

/-- **In an accepted history the requests and their replies correspond one to one**, in order. -/
theorem forall₂_of_run {r : Round} {log : List Ev} (hr : run (next a) r log = some none) :
    List.Forall₂ IsReply ((current a r).1 ++ requestsTo a log)
      ((current a r).2 ++ sentFrom a log) := by
  induction log generalizing r with
  | nil =>
    obtain rfl := Option.some.inj hr
    exact .nil
  | cons e es ih =>
    obtain ⟨t, ht, hr⟩ := run_cons_eq_some.1 hr
    have ih := ih hr
    rw [sentFrom_cons e es, requestsTo_cons e es]
    by_cases he : IsRx e
    · cases e with
      | rxTake d pkt =>
        cases r with
        | some p => cases ht
        | none =>
          obtain rfl := Option.some.inj ht
          have htake : requestsTo a [.rxTake d pkt] = if pkt.dst = a then [pkt] else [] := by
            by_cases hd : pkt.dst = a <;> simp [requestsTo, hd]
          rw [htake]
          exact ih
      | rxPublish d notified =>
        cases r with
        | none => cases ht
        | some p =>
          obtain ⟨pkt, reps⟩ := p
          obtain ⟨hans, ht⟩ := Option.ite_none_right_eq_some.1 ht
          obtain rfl := Option.some.inj ht
          exact List.rel_append hans.forall₂ ih
      | _ => exact absurd he id
    · rw [requestsTo_of_not_isRx he, List.nil_append]
      cases r with
      | none =>
        have hs : sentFrom a [e] = [] ∧ t = none := by
          cases e with
          | rxTake | rxPublish => exact absurd trivial he
          | txPublish d p notified =>
            obtain ⟨hp, ht⟩ := Option.ite_none_left_eq_some.1 ht
            exact ⟨by simp [sentFrom, sent, hp], (Option.some.inj ht).symm⟩
          | _ => exact ⟨rfl, (Option.some.inj ht).symm⟩
        obtain ⟨hs, rfl⟩ := hs
        rw [hs]
        exact ih
      | some p =>
        rw [next_open he] at ht
        obtain rfl := Option.some.inj ht
        rw [← List.append_assoc]
        exact ih

end Monitor

section Firmware

variable {n : VarCount} {κ δ ε : Type} {sem : CbSem n κ δ ε (List UInt8)} {env : Env}

/-! ### The channels after `cfgInit` -/

/-- The channel `ic` is the `cfg_mgmt` channel, with the address `a`, and no other channel has its
address or its callback. -/
structure Ready (ic : Fin maxRpmsgCh) (a : UInt32) (s : State n κ δ ε) : Prop where
  config : s.app.rpmsgConfig = some ic
  stdio : s.app.rpmsgStdio ≠ some ic
  used : (s.channels ic).state ≠ .unused
  addr : (s.channels ic).localAddr = a
  cb : (s.channels ic).cb = some .configMsgHandler
  otherAddr : ∀ j ≠ ic, (s.channels j).localAddr ≠ a
  otherCb : ∀ j, (s.channels j).cb = some .configMsgHandler → j = ic

section Lemmas

variable {ic : Fin maxRpmsgCh} {a : UInt32} {s s' : State n κ δ ε}

lemma Ready.of_eq (h : Ready ic a s) (hc : s'.channels = s.channels)
    (hcfg : s'.app.rpmsgConfig = s.app.rpmsgConfig) (hstd : s'.app.rpmsgStdio = s.app.rpmsgStdio) :
    Ready ic a s' := by
  refine ⟨hcfg.trans h.config, hstd ▸ h.stdio, ?_, ?_, ?_, ?_, ?_⟩ <;> rw [hc]
  exacts [h.used, h.addr, h.cb, h.otherAddr, h.otherCb]

lemma Ready.marked {pkt : Packet} (h : Ready ic a s) (hm : Marked pkt s s') : Ready ic a s' where
  config := by rw [hm.app]; exact h.config
  stdio := by rw [hm.app]; exact h.stdio
  used := fun hu => h.used ((hm.unused_iff ic).1 hu)
  addr := (hm.localAddr ic).trans h.addr
  cb := (hm.cb ic).trans h.cb
  otherAddr := fun j hj hl => h.otherAddr j hj ((hm.localAddr j).symm.trans hl)
  otherCb := fun j hj => h.otherCb j ((hm.cb j).symm.trans hj)

lemma Ready.sentFrom_others (h : Ready ic a s) {sends : Main.Sends} {pss : List (List Packet)}
    (hp : List.Forall₂ (Publishes s.channels) sends pss) (hs : ∀ p ∈ sends, p.1 ≠ some ic) :
    pss.flatten.filter (fun p => p.src = a) = [] := by
  induction hp with
  | nil => rfl
  | @cons p ps sends pss hp _ ih =>
    rw [List.flatten_cons, List.filter_append, ih fun q hq => hs q (List.mem_cons_of_mem _ hq),
      List.append_nil]
    obtain ⟨ch, data⟩ := p
    cases ch with
    | none => rw [show ps = [] from hp]; rfl
    | some i =>
      have hi : i ≠ ic := fun e => hs _ List.mem_cons_self (congrArg some e)
      simp only [Publishes] at hp
      split at hp
      · rw [hp]; rfl
      · obtain ⟨pkt, rfl, hpkt⟩ := hp
        have hsrc : pkt.src ≠ a := hpkt.src ▸ h.otherAddr i hi
        simp [hsrc]

lemma fst_of_mem_write {m : Mem n κ δ ε} {text : List UInt8}
    {p : Option (Fin maxRpmsgCh) × List UInt8} (h : p ∈ write m text) : p.1 = m.rpmsgStdio := by
  unfold write at h
  split at h
  · obtain ⟨chunk, -, rfl⟩ := List.mem_map.1 h
    rfl
  · cases h

lemma outSends_append (m : Mem n κ δ ε) (out out' : List (List UInt8 ⊕ CfgMsg)) :
    outSends m (out ++ out') = outSends m out ++ outSends m out' := List.flatMap_append

/-- What a callback of a variable prints is sent on the channel of the standard output. -/
lemma fst_of_mem_outSends {m : Mem n κ δ ε} {prints : List (List UInt8)}
    {p : Option (Fin maxRpmsgCh) × List UInt8} (h : p ∈ outSends m (prints.map .inl)) :
    p.1 = m.rpmsgStdio := by
  obtain ⟨o, ho, hp⟩ := List.mem_flatMap.1 h
  obtain ⟨text, -, rfl⟩ := List.mem_map.1 ho
  exact fst_of_mem_write hp

end Lemmas

/-! ### The handler -/

variable (sem)

lemma callCb_out (cb : Option κ) (k : Fin n.1) (isread : Bool) (data : δ)
    (w : World n κ δ ε (List UInt8)) :
    ∃ prints : List (List UInt8),
      (Config.callCb sem cb k isread data w).out = w.out ++ prints.map .inl := by
  cases cb with
  | none => exact ⟨[], by simp [Config.callCb]⟩
  | some c => exact ⟨_, rfl⟩

lemma serve_out (w : World n κ δ ε (List UInt8)) (q : RegisterMap.Query (Fin n.1) ℤ) :
    ∃ prints : List (List UInt8), ((regMap sem).serve w q).1.out = w.out ++ prints.map .inl := by
  cases q with
  | write i v => exact callCb_out ..
  | read i => exact callCb_out ..
  | _ => exact ⟨[], by simp [RegisterMap.RegMap.serve]⟩

/-- **What the handler sends**: what the callback of the variable prints, and then one message on the
`cfg_mgmt` channel with the number and the index of the request. -/
theorem configMsgHandler_sends (data : Buf dataLenMax) (m : Mem n κ δ ε) :
    ∃ (r : CbResult (Mem n κ δ ε)) (prints : List (List UInt8)) (rep : CfgMsg),
      Main.configMsgHandler sem data m = some r ∧
      r.app.rpmsgConfig = m.rpmsgConfig ∧ r.app.rpmsgStdio = m.rpmsgStdio ∧
      r.sends = outSends m (prints.map .inl) ++ [(m.rpmsgConfig, rep.encode)] ∧
      rep.seq = (cfgMsg data).seq ∧ rep.ind = (cfgMsg data).ind := by
  obtain ⟨rep, hrun, hseq, hind, -⟩ :=
    configMsgHandler_serves sem (cfgMsg data) ⟨⟨m.vars, m.ext, []⟩, m.cfgMsgTxBuf⟩
  obtain ⟨prints, hout⟩ := serve_out sem ⟨m.vars, m.ext, []⟩ (query n (cfgMsg data))
  have hr : Main.configMsgHandler sem data m = some
      ⟨{ m with
          vars := ((regMap sem).serve ⟨m.vars, m.ext, []⟩ (query n (cfgMsg data))).1.vars
          ext := ((regMap sem).serve ⟨m.vars, m.ext, []⟩ (query n (cfgMsg data))).1.ext
          cfgMsgTxBuf := rep }, outSends m (prints.map .inl ++ [.inr rep]), none⟩ := by
    unfold Main.configMsgHandler
    rw [hrun]
    simp [Config.send, hout]
  exact ⟨_, prints, rep, hr, rfl, rfl, outSends_append .., hseq, hind⟩

lemma isReply_of_isMessage {a : UInt32} {pkt p : Packet} {rep : CfgMsg}
    (hp : IsMessage a pkt.src rep.encode p) (hseq : rep.seq = (cfgMsg pkt.data).seq)
    (hind : rep.ind = (cfgMsg pkt.data).ind) : IsReply pkt p := by
  have hpay : payload rep.encode = rep.encode := by
    unfold payload
    rw [List.take_of_length_le]
    rw [CfgMsg.length_encode]
    decide
  obtain ⟨rest, hdata⟩ := hp.data
  rw [hpay] at hdata
  have hdec : cfgMsg p.data = rep := by
    unfold cfgMsg
    simp only [hdata]
    exact rep.decode_encode_append rest _
  refine ⟨hp.dst, ?_, hdec ▸ hseq, hdec ▸ hind⟩
  rw [hp.len, hpay, CfgMsg.length_encode]

/-! ### Reading a message -/

section Reading

variable {sem} {ic : Fin maxRpmsgCh} {a : UInt32} {s s' : State n κ δ ε}

lemma forall₂_concat {β γ : Type} {R : β → γ → Prop} {l : List β} {x : β} {m : List γ}
    (h : List.Forall₂ R (l ++ [x]) m) : ∃ m' y, m = m' ++ [y] ∧ List.Forall₂ R l m' ∧ R x y := by
  induction l generalizing m with
  | nil =>
    obtain ⟨y, m', hy, hm, rfl⟩ := List.forall₂_cons_left_iff.1 h
    obtain rfl := List.forall₂_nil_left_iff.1 hm
    exact ⟨[], y, rfl, .nil, hy⟩
  | cons b l ih =>
    obtain ⟨c, m', hc, hm, rfl⟩ := List.forall₂_cons_left_iff.1 h
    obtain ⟨m', y, rfl, hl, hy⟩ := ih hm
    exact ⟨c :: m', y, rfl, .cons hc hl, hy⟩

/-- The callback of the `cfg_mgmt` channel sends one message from its address, the reply. -/
lemma callCb_config {t : State n κ δ ε} {addr : UInt32} {pkt : Packet} (h : Ready ic a t)
    (hsrc : (t.channels ic).remoteAddr = pkt.src) (hdst : pkt.dst = a)
    (hcall : callCb (handlers sem) env .configMsgHandler ic addr pkt t = .ok s') :
    Ready ic a s' ∧ ∃ ps, Emits ps t s' ∧ Answers a pkt (ps.filter fun p => p.src = a) := by
  obtain ⟨r, pss, hr, hp, hem, hch, happ, -⟩ := callCb_cases hcall
  obtain ⟨r', prints, rep, hr', hcfg, hstd, hsends, hseq, hind⟩ :=
    configMsgHandler_sends sem pkt.data t.app
  obtain rfl := Option.some.inj (hr.symm.trans hr')
  refine ⟨h.of_eq hch (happ ▸ hcfg) (happ ▸ hstd), pss.flatten, hem, ?_⟩
  rw [hsends] at hp
  obtain ⟨pss, ps, rfl, hprints, hrep⟩ := forall₂_concat hp
  have hnone : pss.flatten.filter (fun p => p.src = a) = [] :=
    h.sentFrom_others hprints fun p hmem => fst_of_mem_outSends hmem ▸ h.stdio
  rw [h.config, Publishes, if_neg h.used, h.addr, hsrc] at hrep
  obtain ⟨p, rfl, hpkt⟩ := hrep
  have hflat : (pss ++ [[p]]).flatten.filter (fun p => p.src = a) = [p] := by
    rw [List.flatten_append, List.filter_append, hnone]
    simp [hpkt.src]
  rw [hflat]
  refine ⟨by simp [hdst], fun q hq => ?_⟩
  rw [List.mem_singleton.1 hq]
  exact isReply_of_isMessage hpkt hseq hind

lemma callCb_stdio {t : State n κ δ ε} {i : Fin maxRpmsgCh} {addr : UInt32} {pkt : Packet}
    (hcall : callCb (handlers sem) env .stdioMsgHandler i addr pkt t = .ok s') :
    Emits [] t s' ∧ s'.channels = t.channels ∧ s'.app.rpmsgConfig = t.app.rpmsgConfig ∧
      s'.app.rpmsgStdio = t.app.rpmsgStdio ∧ s'.nextRpmsgAddr = t.nextRpmsgAddr := by
  obtain ⟨r, pss, hr, hp, hem, hch, happ, hnext⟩ := callCb_cases hcall
  obtain rfl := Option.some.inj hr
  have hkeep : ∀ m : Mem n κ δ ε, (stdioMsgHandler pkt.len m).sends = [] ∧
      (stdioMsgHandler pkt.len m).app.rpmsgConfig = m.rpmsgConfig ∧
      (stdioMsgHandler pkt.len m).app.rpmsgStdio = m.rpmsgStdio := by
    intro m
    unfold stdioMsgHandler
    split <;> exact ⟨rfl, rfl, rfl⟩
  obtain ⟨hsends, hcfg, hstd⟩ := hkeep t.app
  rw [hsends] at hp
  obtain rfl := List.forall₂_nil_left_iff.1 hp
  exact ⟨hem, hch, happ ▸ hcfg, happ ▸ hstd, hnext⟩

/-- **Delivering a packet** sends what answers it from the address of the channel. -/
theorem deliver_answers {addr : UInt32} {pkt : Packet} (h : Ready ic a s)
    (hs : deliver (handlers sem) env addr pkt (List.finRange maxRpmsgCh) s = .ok s') :
    Ready ic a s' ∧ ∃ ps, Emits ps s s' ∧ Answers a pkt (ps.filter fun p => p.src = a) := by
  have hnil : ∀ {pkt : Packet}, pkt.dst ≠ a → Answers a pkt [] := fun hd =>
    ⟨by simp [hd], fun _ hr => nomatch hr⟩
  rcases deliver_cases hs with ⟨hm, hcb⟩ | ⟨t, i, c, hm, hacc, hcb, hti, hcall⟩
  · -- no callback: the packet is not for the `cfg_mgmt` channel, which has one
    refine ⟨h.marked hm, [], .of_log_eq hm.log, hnil fun hd => ?_⟩
    have hacc : Accepts pkt (s.channels ic) := by
      refine ⟨?_, hd.trans h.addr.symm⟩
      cases hst : (s.channels ic).state with
      | unused => exact absurd hst h.used
      | announced => exact .inl rfl
      | up => exact .inr rfl
    cases h.cb.symm.trans (hcb ic (List.mem_finRange ic) hacc)
  · have ht := h.marked hm
    cases c with
    | configMsgHandler =>
      obtain rfl := h.otherCb i hcb
      have hsrc : (t.channels i).remoteAddr = pkt.src := by rw [hti]; rfl
      obtain ⟨hr, ps, hem, hans⟩ := callCb_config ht hsrc (hacc.2.trans h.addr) hcall
      exact ⟨hr, ps, (Emits.of_log_eq hm.log).trans hem, hans⟩
    | stdioMsgHandler =>
      obtain ⟨hem, hch, hcfg, hstd, -⟩ := callCb_stdio hcall
      refine ⟨ht.of_eq hch hcfg hstd, [], (Emits.of_log_eq hm.log).trans hem, hnil fun hd => ?_⟩
      have hi : i ≠ ic := by
        rintro rfl
        cases h.cb.symm.trans hcb
      exact h.otherAddr i hi (hacc.2.symm.trans hd)

/-- What holds between the calls of the transport. -/
structure Idle (ic : Fin maxRpmsgCh) (a : UInt32) (s : State n κ δ ε) : Prop where
  ready : Ready ic a s
  log : run (next a) none s.log = some none

lemma Idle.emits {ps : List Packet} (h : Idle ic a s) (hr : Ready ic a s') (he : Emits ps s s')
    (hps : ps.filter (fun p => p.src = a) = []) : Idle ic a s' := by
  obtain ⟨seg, hlog, hsent, hrx⟩ := he
  refine ⟨hr, ?_⟩
  rw [hlog]
  exact run_append_eq_some.2 ⟨none, h.log, run_idle hrx (by rw [sentFrom, hsent, hps])⟩

lemma Idle.look (h : Idle ic a s) : Idle ic a (s.look env) :=
  have hs : Sends [] s (s.look env) := sends_look s
  h.emits (h.ready.of_eq hs.channels (hs.app ▸ rfl) (hs.app ▸ rfl)) hs.emits rfl

/-- **Reading a message** is one round of the monitor. -/
theorem Idle.readMessage (h : Idle ic a s) (hs : readMessage (handlers sem) env s = .ok s') :
    Idle ic a s' := by
  rcases readMessage_cases hs with rfl | ⟨rx, index, addr, pkt, notified, t, ht, hlog, hch, happ, -⟩
  · exact h.look
  · have hl : Idle ic a (s.look env) := h.look
    have htake : Ready ic a ({ s.look env with rx }.emit (.rxTake index pkt)) :=
      hl.ready.of_eq rfl rfl rfl
    obtain ⟨hr, ps, ⟨seg, hseg, hsent, hrx⟩, hans⟩ := deliver_answers htake ht
    refine ⟨hr.of_eq hch (happ ▸ rfl) (happ ▸ rfl), ?_⟩
    rw [hlog, hseg]
    have h1 : run (next a) none ((s.look env).log ++ [.rxTake index pkt]) = some (some (pkt, [])) :=
      run_concat_eq_some.2 ⟨none, hl.log, rfl⟩
    have h2 : run (next a) none ((s.look env).log ++ [.rxTake index pkt] ++ seg) =
        some (some (pkt, sentFrom a seg)) := run_append_eq_some.2 ⟨_, h1, run_open hrx⟩
    refine run_concat_eq_some.2 ⟨_, h2, ?_⟩
    rw [sentFrom, hsent]
    exact if_pos hans

end Reading

/-! ### The firmware at work -/

section Acts

variable {sem} {ic : Fin maxRpmsgCh} {a : UInt32} {s s' : State n κ δ ε}

variable (sem) in
lemma total_handlers : Total (handlers sem) := by
  intro c i data len m
  cases c with
  | stdioMsgHandler => rfl
  | configMsgHandler =>
    obtain ⟨r, prints, rep, hr, -⟩ := configMsgHandler_sends sem data m
    rw [show handlers sem .configMsgHandler i data len m = Main.configMsgHandler sem data m from rfl,
      hr]
    rfl

variable (sem) in
/-- `cfgSetId` accesses nothing behind the table, prints, and sends nothing else. -/
lemma cfgSetId_out (id val : Int32) (trigCb : Bool) (w : World n κ δ ε (List UInt8)) :
    ∃ r w', Config.cfgSetId sem id val trigCb w = some (r, w') ∧
      ∃ prints : List (List UInt8), w'.out = w.out ++ prints.map .inl := by
  unfold Config.cfgSetId
  cases hi : Config.findId w.vars id with
  | none => exact ⟨_, _, rfl, [], by simp⟩
  | some k =>
    refine ⟨_, _, Config.cfgSetInd_entry sem (Config.entry?_ofNat k) val trigCb w, ?_⟩
    cases trigCb with
    | true => exact callCb_out ..
    | false => exact ⟨[], by simp [Config.setVal]⟩

/-- The state of the firmware between two things it does. -/
structure Serving (ic : Fin maxRpmsgCh) (a : UInt32) (s : State n κ δ ε) : Prop where
  holds : Holds .empty s
  idle : Idle ic a s

lemma Serving.of_eq (h : Serving ic a s) (hlog : s'.log = s.log) (hrx : s'.rx = s.rx)
    (htx : s'.tx = s.tx) (hc : s'.channels = s.channels)
    (hcfg : s'.app.rpmsgConfig = s.app.rpmsgConfig) (hstd : s'.app.rpmsgStdio = s.app.rpmsgStdio) :
    Serving ic a s' :=
  ⟨h.holds.of_eq hlog hrx htx, h.idle.ready.of_eq hc hcfg hstd, hlog ▸ h.idle.log⟩

lemma kept_serving : Kept (handlers sem) env (Serving ic a) where
  look _ h := ⟨h.holds.look, h.idle.look⟩
  txKick _ _ h := h.of_eq rfl rfl rfl rfl rfl rfl
  rxKick _ _ h := h.of_eq rfl rfl rfl rfl rfl rfl
  read _ _ h hs := ⟨h.holds.readMessage hs, h.idle.readMessage hs⟩

/-- Printing sends nothing from the address of the `cfg_mgmt` channel. -/
lemma Serving.prints {sends : Main.Sends} (h : Serving ic a s) (hp : ∀ p ∈ sends, p.1 ≠ some ic)
    (hs : rpmsgSends env sends s = .ok s') : Serving ic a s' := by
  obtain ⟨pss, hpub, hsent⟩ := rpmsgSends_sends hs
  refine ⟨h.holds.rpmsgSends hs, h.idle.emits ?_ hsent.emits
    (h.idle.ready.sentFrom_others hpub hp)⟩
  exact h.idle.ready.of_eq hsent.channels (hsent.app ▸ rfl) (hsent.app ▸ rfl)

/-- **Everything the firmware does** leaves it serving. -/
theorem Serving.act {x : Act κ δ ε} (h : Serving ic a s) (hs : act sem env s x = .ok s') :
    Serving ic a s' := by
  cases x with
  | poll rounds =>
    obtain ⟨⟨ret, t⟩, ht, hs⟩ := bind_eq_ok.1 hs
    obtain rfl := Except.ok.inj hs
    exact kept_serving.rpmsgPoll h ht
  | print text => exact h.prints (fun p hp => fst_of_mem_write hp ▸ h.idle.ready.stdio) hs
  | setCallback id cb read data =>
    obtain rfl := Except.ok.inj hs
    exact h.of_eq rfl rfl rfl rfl rfl rfl
  | setId id val trigCb =>
    obtain ⟨r, w, hw, prints, hout⟩ := cfgSetId_out sem id val trigCb ⟨s.app.vars, s.app.ext, []⟩
    simp only [Main.act, hw, hout, List.nil_append] at hs
    refine Serving.prints ?_ (fun p hp => fst_of_mem_outSends hp ▸ h.idle.ready.stdio) hs
    exact h.of_eq rfl rfl rfl rfl rfl rfl
  | setExt ext =>
    obtain rfl := Except.ok.inj hs
    exact h.of_eq rfl rfl rfl rfl rfl rfl

lemma Serving.act_ne_fault (h : Serving ic a s) (x : Act κ δ ε) :
    Main.act sem env s x ≠ .error .fault := by
  cases x with
  | poll rounds =>
    refine bind_ne_fault ?_ fun t _ hf => nomatch hf
    exact kept_serving.rpmsgPoll_ne_fault
      (fun s hs => hs.holds.readMessage_ne_fault (total_handlers sem)) h rounds
  | print text => exact h.holds.rpmsgSends_ne_fault
  | setCallback id cb read data => exact fun hf => nomatch hf
  | setId id val trigCb =>
    obtain ⟨r, w, hw, -⟩ := cfgSetId_out sem id val trigCb ⟨s.app.vars, s.app.ext, []⟩
    simp only [Main.act, hw]
    refine Holds.rpmsgSends_ne_fault (r := none) ?_
    exact h.holds.of_eq rfl rfl rfl
  | setExt ext => exact fun hf => nomatch hf

end Acts

/-! ### From the start -/

section Boot

variable {sem} {s s' : State n κ δ ε}

/-- While the firmware waits for the kernel, the channel of the standard output is its only one. -/
structure Booting (s : State n κ δ ε) : Prop where
  stdio : s.app.rpmsgStdio = some 0
  used : (s.channels 0).state ≠ .unused
  addr : (s.channels 0).localAddr = appAddrStart
  cb : (s.channels 0).cb = some .stdioMsgHandler
  rest : ∀ j ≠ 0, s.channels j = ⟨0, 0, .unused, none⟩
  next : s.nextRpmsgAddr = appAddrStart + 1

lemma Booting.of_eq (h : Booting s) (hc : s'.channels = s.channels)
    (hstd : s'.app.rpmsgStdio = s.app.rpmsgStdio) (hn : s'.nextRpmsgAddr = s.nextRpmsgAddr) :
    Booting s' := by
  refine ⟨hstd.trans h.stdio, ?_, ?_, ?_, ?_, hn.trans h.next⟩ <;> rw [hc]
  exacts [h.used, h.addr, h.cb, h.rest]

lemma Booting.marked {pkt : Packet} (h : Booting s) (hm : Marked pkt s s') : Booting s' where
  stdio := by rw [hm.app]; exact h.stdio
  used := fun hu => h.used ((hm.unused_iff 0).1 hu)
  addr := (hm.localAddr 0).trans h.addr
  cb := (hm.cb 0).trans h.cb
  rest := by
    intro j hj
    have hr := h.rest j hj
    rcases hm.channels j with e | ⟨⟨hu, -⟩, -⟩
    · exact e.trans hr
    · rw [hr] at hu
      rcases hu with hu | hu <;> cases hu
  next := hm.next.trans h.next

lemma Booting.look (h : Booting s) : Booting (s.look env) :=
  have hs : Sends [] s (s.look env) := sends_look s
  h.of_eq hs.channels (hs.app ▸ rfl) hs.next

lemma Booting.readMessage (h : Booting s) (hs : readMessage (handlers sem) env s = .ok s') :
    Booting s' := by
  rcases readMessage_cases hs with rfl | ⟨rx, index, addr, pkt, notified, t, ht, -, hch, happ, hnext⟩
  · exact h.look
  · refine Booting.of_eq ?_ hch (happ ▸ rfl) hnext
    have htake : Booting ({ s.look env with rx }.emit (.rxTake index pkt)) :=
      h.look.of_eq rfl rfl rfl
    rcases deliver_cases ht with ⟨hm, -⟩ | ⟨u, i, c, hm, hacc, hcb, -, hcall⟩
    · exact htake.marked hm
    · -- only the first channel is in use
      have hi : i = 0 := by
        by_contra hne
        rw [htake.rest i hne] at hcb
        cases hcb
      subst hi
      obtain rfl : Handler.stdioMsgHandler = c := Option.some.inj (htake.cb.symm.trans hcb)
      obtain ⟨-, hc, -, hstd, hn⟩ := callCb_stdio hcall
      exact (htake.marked hm).of_eq hc hstd hn

lemma kept_booting :
    Kept (handlers sem) env fun s : State n κ δ ε => Holds .empty s ∧ Booting s where
  look _ h := ⟨h.1.look, h.2.look⟩
  txKick _ _ h := ⟨h.1.of_eq rfl rfl rfl, h.2.of_eq rfl rfl rfl⟩
  rxKick _ _ h := ⟨h.1.of_eq rfl rfl rfl, h.2.of_eq rfl rfl rfl⟩
  read _ _ h hs := ⟨h.1.readMessage hs, h.2.readMessage hs⟩

lemma waitStdio_booting {polls : List ℕ} (h : Holds .empty s ∧ Booting s)
    (hs : waitStdio sem env polls s = .ok s') : Holds .empty s' ∧ Booting s' := by
  induction polls generalizing s with
  | nil =>
    unfold waitStdio at hs
    split at hs
    · exact Except.ok.inj hs ▸ h
    · cases hs
  | cons rounds rest ih =>
    unfold waitStdio at hs
    split at hs
    · exact Except.ok.inj hs ▸ h
    · obtain ⟨⟨ret, t⟩, ht, hs⟩ := bind_eq_ok.1 hs
      exact ih (kept_booting.rpmsgPoll h ht) hs

lemma waitStdio_ne_fault {polls : List ℕ} (h : Holds .empty s ∧ Booting s) :
    waitStdio sem env polls s ≠ .error .fault := by
  induction polls generalizing s with
  | nil =>
    unfold waitStdio
    split <;> exact fun hf => nomatch hf
  | cons rounds rest ih =>
    unfold waitStdio
    split
    · exact fun hf => nomatch hf
    · refine bind_ne_fault ?_ fun t ht => ih (kept_booting.rpmsgPoll h ht)
      exact kept_booting.rpmsgPoll_ne_fault
        (fun s hs => hs.1.readMessage_ne_fault (total_handlers sem)) h rounds

lemma finRange_maxRpmsgCh : List.finRange maxRpmsgCh = [0, 1, 2, 3, 4] := by decide

lemma cfgInit_ready (h : Booting s) (hs : cfgInit env s = .ok s') :
    Ready 1 (appAddrStart + 1) s' := by
  obtain ⟨⟨ch, t⟩, ht, hs⟩ := bind_eq_ok.1 hs
  obtain rfl := Except.ok.inj hs
  have hfind : ((List.finRange maxRpmsgCh).find? fun i => (s.channels i).state = .unused) =
      some 1 := by
    simp [finRange_maxRpmsgCh, h.used, h.rest 1 (by decide)]
  obtain ⟨rfl, happ, -, hch⟩ := rpmsgCreateCh_cases hfind ht
  have h1 : t.channels 1 = newChannel s.nextRpmsgAddr (some .configMsgHandler) := by
    rw [hch, Function.update_self]
  have hne : ∀ j ≠ 1, t.channels j = s.channels j := fun j hj => by
    rw [hch, Function.update_of_ne hj]
  have hold : ∀ j, (s.channels j).localAddr ≠ appAddrStart + 1 ∧
      (s.channels j).cb ≠ some .configMsgHandler := by
    intro j
    by_cases hj : j = 0
    · subst hj
      rw [h.addr, h.cb]
      decide
    · rw [h.rest j hj]
      decide
  refine ⟨rfl, ?_, ?_, ?_, ?_, ?_, ?_⟩
  · simp [happ, h.stdio]
  · simp [h1, newChannel]
  · simp [h1, newChannel, h.next]
  · simp [h1, newChannel]
  · intro j hj
    simpa only [hne j hj] using (hold j).1
  · intro j hj
    by_contra hj1
    exact (hold j).2 ((congrArg Channel.cb (hne j hj1)).symm.trans hj)

lemma booting_create {s₀ : State n κ δ ε} {ch : Option (Fin maxRpmsgCh)}
    (haddr : s₀.nextRpmsgAddr = appAddrStart)
    (hs : rpmsgCreateCh env bmStdio (some .stdioMsgHandler) (remoteprocInit s₀) = .ok (ch, s)) :
    Booting { s with app := { s.app with rpmsgStdio := ch } } := by
  have hfind : ((List.finRange maxRpmsgCh).find? fun i =>
      ((remoteprocInit s₀).channels i).state = .unused) = some 0 := by
    simp [finRange_maxRpmsgCh, remoteprocInit]
  have hnew : (remoteprocInit s₀).nextRpmsgAddr = appAddrStart := haddr
  obtain ⟨rfl, -, hnext, hch⟩ := rpmsgCreateCh_cases hfind hs
  rw [hnew] at hnext hch
  refine ⟨rfl, ?_, ?_, ?_, ?_, hnext⟩
  · simp [hch, newChannel]
  · simp [hch, newChannel]
  · simp [hch, newChannel]
  · intro j hj
    simp [hch, hj, remoteprocInit]

lemma boot_serving {s₀ : State n κ δ ε} {polls : List ℕ} (haddr : s₀.nextRpmsgAddr = appAddrStart)
    (hstart : Start (remoteprocInit s₀)) (hs : boot sem env s₀ polls = .ok s) :
    Serving 1 (appAddrStart + 1) s := by
  obtain ⟨⟨ch, t⟩, ht, hs⟩ := bind_eq_ok.1 hs
  obtain ⟨u, hu, hs⟩ := bind_eq_ok.1 hs
  obtain ⟨v, hv, hs⟩ := bind_eq_ok.1 hs
  obtain rfl := Except.ok.inj hs
  have H := hstart.holds.rpmsgCreateCh ht
  obtain ⟨HU, BU⟩ : Holds .empty u ∧ Booting u := by
    refine waitStdio_booting ?_ hu
    exact ⟨H.of_eq rfl rfl rfl, booting_create haddr ht⟩
  have HV : Holds .empty v := by
    obtain ⟨⟨ch', w⟩, hw, hv⟩ := bind_eq_ok.1 hv
    obtain rfl := Except.ok.inj hv
    exact (HU.rpmsgCreateCh hw).of_eq rfl rfl rfl
  exact ⟨⟨rfl, HV.rxIdx, HV.txIdx, HV.rxOffered, HV.txOffered⟩,
    (cfgInit_ready BU hv).of_eq rfl rfl rfl, rfl⟩

variable (sem env) in
lemma boot_ne_fault {s₀ : State n κ δ ε} (polls : List ℕ) (haddr : s₀.nextRpmsgAddr = appAddrStart)
    (hstart : Start (remoteprocInit s₀)) : boot sem env s₀ polls ≠ .error .fault := by
  have H := hstart.holds
  refine bind_ne_fault (H.rpmsgCreateCh_ne_fault _ _) fun ⟨ch, t⟩ ht => ?_
  have hwait : Holds .empty { t with app := { t.app with rpmsgStdio := ch } } ∧
      Booting { t with app := { t.app with rpmsgStdio := ch } } :=
    ⟨(H.rpmsgCreateCh ht).of_eq rfl rfl rfl, booting_create haddr ht⟩
  refine bind_ne_fault (waitStdio_ne_fault hwait) fun u hu => ?_
  obtain ⟨HU, -⟩ := waitStdio_booting hwait hu
  refine bind_ne_fault ?_ fun v _ hf => nomatch hf
  exact bind_ne_fault (HU.rpmsgCreateCh_ne_fault _ _) fun v _ hf => nomatch hf

end Boot

/-! ### Every run -/

variable (env)

/-- What has happened since `cfgInit` returned: `a` is the local address of the `cfg_mgmt` channel. -/
structure Answered (a : UInt32) (s : State n κ δ ε) : Prop where
  addr : ∃ i, s.app.rpmsgConfig = some i ∧ (s.channels i).localAddr = a
  /-- between the taking of a packet and the return of its buffer, one reply is published from the
  address if the packet is for it, and nothing otherwise -/
  answered : ∀ pre d pkt mid d' notified suf,
    s.log = pre ++ .rxTake d pkt :: (mid ++ .rxPublish d' notified :: suf) →
    (∀ e ∈ mid, ∀ d notified, e ≠ .rxPublish d notified) →
    (pkt.dst = a → ∃ rep, sentFrom a mid = [rep] ∧ IsReply pkt rep) ∧
      (pkt.dst ≠ a → sentFrom a mid = [])
  /-- so the requests and all messages from the address correspond one to one, in order -/
  oneToOne : List.Forall₂ IsReply (requestsTo a s.log) (sentFrom a s.log)
  /-- every buffer is returned -/
  returned : rxReturned s.log = rxTaken s.log
  /-- and whatever the firmware does next returns, unless no transmit buffer ever comes -/
  goesOn : ∀ x, act sem env s x ≠ .error .fault

variable {sem env}

lemma Serving.answered {ic : Fin maxRpmsgCh} {a : UInt32} {s : State n κ δ ε}
    (h : Serving ic a s) : Answered sem env a s where
  addr := ⟨ic, h.idle.ready.config, h.idle.ready.addr⟩
  answered := by
    intro pre d pkt mid d' notified suf hlog hmid
    obtain ⟨hlen, hrep⟩ := answers_of_run h.idle.log hlog hmid
    constructor <;> intro hd
    · rw [if_pos hd] at hlen
      obtain ⟨rep, hrep'⟩ := List.length_eq_one_iff.1 hlen
      exact ⟨rep, hrep', hrep rep (hrep' ▸ List.mem_cons_self)⟩
    · rw [if_neg hd] at hlen
      exact List.length_eq_zero_iff.1 hlen
  oneToOne := forall₂_of_run h.idle.log
  returned := h.holds.accounted.rxReturned
  goesOn := h.act_ne_fault

lemma Serving.step {ic : Fin maxRpmsgCh} {a : UInt32} {s s' : State n κ δ ε} {x : Act κ δ ε}
    (h : Serving ic a s) (hs : step sem env s x = some s') : Serving ic a s' := by
  unfold Main.step at hs
  cases hx : Main.act sem env s x with
  | error e => rw [hx] at hs; cases hs
  | ok t =>
    rw [hx] at hs
    exact Option.some.inj hs ▸ h.act hx

/-- **Every request is answered exactly once**, in every run of the firmware after `cfgInit`, for any
callbacks of the variables, any buffers and any behaviour of the kernel. -/
theorem answered_run {vars : Table n κ δ} {ext : ε} {s₀ : State n κ δ ε} (h : Loaded vars ext s₀)
    (hstart : Start (remoteprocInit s₀)) (polls : List ℕ) (acts : List (Act κ δ ε)) :
    match boot sem env s₀ polls with
    | .error e => e = .waiting
    | .ok s => ∃ a, States (step sem env) (Answered sem env a) s acts := by
  have hf := boot_ne_fault sem env polls h.nextRpmsgAddr hstart
  cases hb : boot sem env s₀ polls with
  | error e =>
    cases e with
    | waiting => rfl
    | fault => exact absurd hb hf
  | ok s =>
    have hserving := boot_serving h.nextRpmsgAddr hstart hb
    exact ⟨appAddrStart + 1, fun _ _ _ hr =>
      (run_invariant (fun _ _ _ => Serving.step) hserving hr).answered⟩

end Firmware

/-! ### Two requests -/

/-- A kernel that greets the first channel, and then sends a message of zeros to the second one. -/
def asks : Env := fun time =>
  [[.offerTx 0, .offerRx 0 ⟨0x400, if time < 8 then 0x50 else 0x51, 0, 420, 0, .zero _⟩, .kickRx]]

/-- The meaning of callbacks that do nothing. -/
def idleSem {n : VarCount} : CbSem n Unit Unit Unit (List UInt8) := fun _ _ _ _ vars ext => ⟨vars, ext, []⟩

/-- A firmware without variables, with the buffers where Linux has put them. -/
def bareFw : State ⟨0, by decide⟩ Unit Unit Unit := Fw.prepared (Mem.loaded (fun k => k.elim0) ())

theorem asks_answered : ∃ s s', boot idleSem asks bareFw [1] = .ok s ∧
    run (step idleSem asks) s [.poll 2] = some s' ∧ (requestsTo 0x51 s'.log).length = 2 ∧
    Answered idleSem asks 0x51 s' := by
  have h : (boot idleSem asks bareFw [1]).toOption.any (fun s =>
      (run (step idleSem asks) s [.poll 2]).any fun s' =>
        decide (s'.app.rpmsgConfig = some 1 ∧ (s'.channels 1).localAddr = 0x51 ∧
          (requestsTo 0x51 s'.log).length = 2)) = true := by decide +kernel
  obtain ⟨s, hb, h'⟩ := (Option.any_eq_true ..).1 h
  obtain ⟨s', hs, h''⟩ := (Option.any_eq_true ..).1 h'
  obtain ⟨hconfig, haddr, hlen⟩ := of_decide_eq_true h''
  have hb := toOption_eq_some.1 hb
  have hloaded : Loaded (fun k => k.elim0) () bareFw := loaded_prepared _ _
  have hall := @answered_run _ _ _ _ idleSem asks _ _ _ hloaded (start_prepared _) [1] [.poll 2]
  rw [hb] at hall
  obtain ⟨a, hall⟩ := hall
  have hend := hall _ (List.prefix_refl _) s' hs
  obtain ⟨i, hi, ha⟩ := hend.addr
  obtain rfl : i = 1 := Option.some.inj (hi.symm.trans hconfig)
  obtain rfl : a = 0x51 := ha.symm.trans haddr
  exact ⟨s, s', hb, hs, hlen, hend⟩

end CfgMgmt.Firmware.Replies
