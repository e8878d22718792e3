import CfgMgmt.Firmware.Main
import CfgMgmt.Firmware.Sending
import CfgMgmt.Kernel.BmStdio
import CfgMgmt.Lib.Machine

/-!
# The standard output of the firmware

A call of `_write` sends its text in chunks, the messages reach `bm_stdio_rpmsg_cb` in their order, and
processes read from the FIFO.  The text is conserved: what was written is what has arrived in a process,
what is in the FIFO, what is on its way and what is still to be sent, in this order.  A read that fails
loses what has arrived with it.
-/

namespace CfgMgmt.System.Output

open CfgMgmt.Lib.Bytes CfgMgmt.Lib.Machine CfgMgmt.Msg
open CfgMgmt.Kernel.Linux (efault)
open CfgMgmt.Firmware.Config (VarCount)
open CfgMgmt.Firmware.Remoteproc CfgMgmt.Firmware.Main CfgMgmt.Kernel.BmStdio
open CfgMgmt.Firmware.Sending hiding Sends
open CfgMgmt.Firmware.Sending (Sends)

/-! ### The machine -/

section Machine

variable {n : VarCount} {κ δ ε : Type}

/-- The way of the text.  The last two fields are its history. -/
structure Pipe (n : VarCount) (κ δ ε : Type) where
  fw : State n κ δ ε
  /-- the calls of `rpmsg_send` the current call of `_write` has still to make -/
  todo : Firmware.Main.Sends
  /-- how many messages have reached `bm_stdio_rpmsg_cb` -/
  received : ℕ
  fifo : List UInt8
  written : List UInt8
  /-- what the calls of `dev_read` have returned, each with the bytes that have arrived in the process -/
  reads : List (Int32 × List UInt8)

/-- The bytes that the calls report: a call that fails reports none. -/
def reported (reads : List (Int32 × List UInt8)) : List UInt8 :=
  reads.flatMap fun r => r.2.take r.1.toInt.toNat

def arrived (reads : List (Int32 × List UInt8)) : List UInt8 := reads.flatMap Prod.snd

/-- The messages that were sent on the channel of the standard output. -/
def stdioSent (fw : State n κ δ ε) : List Packet :=
  match fw.app.rpmsgStdio with
  | none => []
  | some i => (sent fw.log).filter fun p => p.src = (fw.channels i).localAddr

inductive Event
  /-- the firmware calls `_write` -/
  | write (data : List UInt8)
  /-- `_write` calls `rpmsg_send` -/
  | send
  /-- `bm_stdio_rpmsg_cb` is called with the next message -/
  | receive
  | devRead (len uncopied : ℕ)

variable (env : Env)

def step (s : Pipe n κ δ ε) : Event → Option (Pipe n κ δ ε)
  | .write data =>
    if s.todo = [] then
      some { s with todo := write s.fw.app data, written := s.written ++ data }
    else none
  | .send =>
    match s.todo with
    | [] => none
    | p :: todo => do
      let fw ← (rpmsgSend env p.1 p.2 s.fw).toOption
      some { s with fw, todo }
  | .receive => do
    let p ← (stdioSent s.fw)[s.received]?
    let (_, fifo) ← bmStdioRpmsgCb p.data p.len.toNat s.fifo
    some { s with received := s.received + 1, fifo }
  | .devRead len uncopied =>
    let (ret, copied, fifo) := devRead s.fifo len uncopied
    some { s with fifo, reads := s.reads ++ [(ret, copied)] }

/-- Before the first call of `_write`. -/
def start (fw : State n κ δ ε) : Pipe n κ δ ε where
  fw := { fw with log := [] }
  todo := []
  received := 0
  fifo := []
  written := []
  reads := []

/-- The channel of the standard output is up, and `_write` uses it. -/
structure Up (i : Fin maxRpmsgCh) (fw : State n κ δ ε) : Prop where
  stdio : fw.app.rpmsgStdio = some i
  stdioInit : fw.app.stdioInit = true
  used : (fw.channels i).state = .up

/-- The FIFO does not overflow. -/
def Fits (s : Pipe n κ δ ε) : Event → Prop
  | .receive => ∀ p ∈ (stdioSent s.fw)[s.received]?, s.fifo.length + p.len.toNat ≤ fifoSize
  | _ => True

instance (s : Pipe n κ δ ε) : ∀ e, Decidable (Fits s e)
  | .receive => inferInstanceAs (Decidable (∀ p ∈ (stdioSent s.fw)[s.received]?, _))
  | .write _ | .send | .devRead .. => .isTrue trivial

end Machine

def text (p : Packet) : List UInt8 := p.data.read p.len.toNat

/-! ### Chunks -/

lemma flatten_chunks (data : List UInt8) : (chunks data).flatten = data := by
  induction data using chunks.induct with
  | case1 data h ih =>
    rw [chunks, if_pos h, List.flatten_cons, ih, List.take_append_drop]
  | case2 data h =>
    rw [chunks, if_neg h]
    exact (List.length_eq_zero_iff.1 (Nat.eq_zero_of_not_pos h)).symm

lemma length_chunks (data : List UInt8) : ∀ c ∈ chunks data, c.length ≤ dataLenMax - 1 := by
  induction data using chunks.induct with
  | case1 data h ih =>
    intro c hc
    rw [chunks, if_pos h] at hc
    rcases List.mem_cons.1 hc with rfl | hc
    · exact (List.length_take ..).trans_le (min_le_left _ _)
    · exact ih c hc
  | case2 data h =>
    intro c hc
    rw [chunks, if_neg h] at hc
    exact absurd hc List.not_mem_nil

lemma payload_of_chunk {c : List UInt8} (h : c.length ≤ dataLenMax - 1) : payload c = c :=
  List.take_of_length_le (h.trans (Nat.sub_le _ _))

/-! ### The invariant -/

section Invariant

variable {n : VarCount} {κ δ ε : Type} {env : Env} {i : Fin maxRpmsgCh} {s s' : Pipe n κ δ ε}

/-- Where the text is. -/
structure Conserves (i : Fin maxRpmsgCh) (s : Pipe n κ δ ε) : Prop where
  up : Up i s.fw
  todo : ∀ p ∈ s.todo, p.1 = some i ∧ p.2.length ≤ dataLenMax - 1
  sent : ∀ p ∈ stdioSent s.fw, p.len.toNat ≤ dataLenMax - 1
  received_le : s.received ≤ (stdioSent s.fw).length
  written : s.written = (stdioSent s.fw).flatMap text ++ (s.todo.map Prod.snd).flatten
  reads : ((stdioSent s.fw).take s.received).flatMap text = arrived s.reads ++ s.fifo
  fifo_le : s.fifo.length ≤ fifoSize
  results : ∀ r ∈ s.reads, r.1 = -efault ∨ r.1 = Int32.ofNat r.2.length ∧ r.2.length ≤ fifoSize

lemma conserves_write {data : List UInt8} (h : Conserves i s)
    (hs : step env s (.write data) = some s') : Conserves i s' := by
  obtain ⟨hnone, hs⟩ := Option.ite_none_right_eq_some.1 hs
  obtain rfl := Option.some.inj hs
  have hw : write s.fw.app data = (chunks data).map fun c => (some i, c) := by
    unfold Firmware.Main.write
    rw [if_pos ⟨by rw [h.up.stdio]; rfl, h.up.stdioInit⟩, h.up.stdio]
  refine ⟨h.up, ?_, h.sent, h.received_le, ?_, h.reads, h.fifo_le, h.results⟩
  · intro p hp
    rw [hw] at hp
    obtain ⟨c, hc, rfl⟩ := List.mem_map.1 hp
    exact ⟨rfl, length_chunks data c hc⟩
  · have hold := h.written
    rw [hnone, List.map_nil, List.flatten_nil, List.append_nil] at hold
    show s.written ++ data = _
    rw [hw, List.map_map, hold]
    show _ = (stdioSent s.fw).flatMap text ++ ((chunks data).map id).flatten
    rw [List.map_id, flatten_chunks]

lemma text_of_isMessage {src dst : UInt32} {c : List UInt8} {p : Packet}
    (h : IsMessage src dst c p) (hc : c.length ≤ dataLenMax - 1) :
    text p = c ∧ p.len.toNat ≤ dataLenMax - 1 := by
  obtain ⟨rest, hdata⟩ := h.data
  have hlen := h.len
  rw [payload_of_chunk hc] at hdata hlen
  refine ⟨?_, hlen.trans_le hc⟩
  unfold text Buf.read
  rw [hdata, hlen, List.take_left]

lemma stdioSent_send {fw fw' : State n κ δ ε} {c : List UInt8} (hup : Up i fw)
    (hs : rpmsgSend env (some i) c fw = .ok fw') (hc : c.length ≤ dataLenMax - 1) :
    Up i fw' ∧ ∃ p, stdioSent fw' = stdioSent fw ++ [p] ∧ text p = c ∧
      p.len.toNat ≤ dataLenMax - 1 := by
  obtain ⟨ps, hp, hsent⟩ := rpmsgSend_sends hs
  obtain ⟨seg, hl, hps, -⟩ := hsent.emits
  rw [Publishes, if_neg (by rw [hup.used]; exact ChState.noConfusion)] at hp
  obtain ⟨p, rfl, hmsg⟩ := hp
  obtain ⟨htext, hlen⟩ := text_of_isMessage hmsg hc
  refine ⟨⟨?_, ?_, ?_⟩, p, ?_, htext, hlen⟩
  · rw [hsent.app]
    exact hup.stdio
  · rw [hsent.app]
    exact hup.stdioInit
  · rw [hsent.channels]
    exact hup.used
  · unfold stdioSent
    rw [hsent.app, hup.stdio, hsent.channels]
    dsimp only
    rw [hl, sent_append, hps, List.filter_append]
    simp [hmsg.src]

lemma conserves_send (h : Conserves i s) (hs : step env s .send = some s') : Conserves i s' := by
  simp only [step] at hs
  split at hs
  · cases hs
  · rename_i p todo htodo
    obtain ⟨fw, hfw, hs⟩ := Option.bind_eq_some_iff.1 hs
    obtain rfl := Option.some.inj hs
    obtain ⟨ch, c⟩ := p
    obtain ⟨rfl, hc⟩ := h.todo (ch, c) (by rw [htodo]; exact List.mem_cons_self)
    obtain ⟨hup, p, hsent, htext, hlen⟩ := stdioSent_send h.up (toOption_eq_some.1 hfw) hc
    refine ⟨hup, ?_, ?_, ?_, ?_, ?_, h.fifo_le, h.results⟩
    · exact fun q hq => h.todo q (by rw [htodo]; exact List.mem_cons_of_mem _ hq)
    · intro q hq
      rw [hsent] at hq
      rcases List.mem_append.1 hq with hq | hq
      · exact h.sent q hq
      · exact List.mem_singleton.1 hq ▸ hlen
    · have hle := h.received_le
      show s.received ≤ (stdioSent fw).length
      rw [hsent, List.length_append]
      omega
    · have hold := h.written
      rw [htodo] at hold
      show s.written = _
      rw [hold, hsent, List.flatMap_append, List.append_assoc]
      simp [htext]
    · show ((stdioSent fw).take s.received).flatMap text = arrived s.reads ++ s.fifo
      rw [hsent, List.take_append_of_le_length h.received_le]
      exact h.reads

lemma conserves_receive (h : Conserves i s) (hf : Fits s .receive)
    (hs : step env s .receive = some s') : Conserves i s' := by
  obtain ⟨p, hp, hs⟩ := Option.bind_eq_some_iff.1 hs
  obtain ⟨⟨data, fifo⟩, hcb, hs⟩ := Option.bind_eq_some_iff.1 hs
  obtain rfl := Option.some.inj hs
  obtain ⟨hlt, hget⟩ := List.getElem?_eq_some_iff.1 hp
  have hlen : p.len.toNat < dataLenMax := by
    have hle := h.sent p (List.mem_of_getElem? hp)
    have hpos : 0 < dataLenMax := by decide
    omega
  obtain ⟨data', hcb'⟩ := bmStdioRpmsgCb_of_lt p.data hlen s.fifo
  have he := (Prod.mk.inj (Option.some.inj (hcb.symm.trans hcb'))).2
  have hfifo : fifo = s.fifo ++ text p := by
    rw [he]
    refine kfifoIn_of_fits ?_
    have hread := Buf.length_read p.data p.len.toNat
    have hfits := hf p hp
    omega
  refine ⟨h.up, h.todo, h.sent, hlt, h.written, ?_, he ▸ length_kfifoIn h.fifo_le, h.results⟩
  show ((stdioSent s.fw).take (s.received + 1)).flatMap text = arrived s.reads ++ fifo
  rw [List.take_add_one, hp, List.flatMap_append, h.reads, hfifo, List.append_assoc]
  simp

lemma step_devRead (s : Pipe n κ δ ε) (len uncopied : ℕ) : step env s (.devRead len uncopied) =
    some { s with
      fifo := (devRead s.fifo len uncopied).2.2
      reads := s.reads ++ [((devRead s.fifo len uncopied).1, (devRead s.fifo len uncopied).2.1)] } :=
  rfl

lemma conserves_devRead {len uncopied : ℕ} (h : Conserves i s)
    (hs : step env s (.devRead len uncopied) = some s') : Conserves i s' := by
  rw [step_devRead] at hs
  obtain rfl := Option.some.inj hs
  obtain ⟨hcopied, hfifo⟩ := devRead_length s.fifo len uncopied
  refine ⟨h.up, h.todo, h.sent, h.received_le, h.written, ?_, hfifo.trans h.fifo_le, fun r hr => ?_⟩
  · show _ = arrived (s.reads ++ [_]) ++ (devRead s.fifo len uncopied).2.2
    rw [arrived, List.flatMap_append, List.flatMap_singleton, List.append_assoc, devRead_conserves]
    exact h.reads
  · rcases List.mem_append.1 hr with hr | hr
    · exact h.results r hr
    · obtain rfl := List.mem_singleton.1 hr
      exact (devRead_ret s.fifo len uncopied).imp_right fun he => ⟨he, hcopied.trans h.fifo_le⟩

theorem conserves_step {e : Event} (h : Conserves i s) (hf : Fits s e)
    (hs : step env s e = some s') : Conserves i s' := by
  cases e with
  | write data => exact conserves_write h hs
  | send => exact conserves_send h hs
  | receive => exact conserves_receive h hf hs
  | devRead len uncopied => exact conserves_devRead h hs

lemma conserves_start {fw : State n κ δ ε} (h : Up i fw) : Conserves i (start fw) := by
  have hnone : stdioSent (start fw).fw = [] := by
    have hstd : (start fw).fw.app.rpmsgStdio = some i := h.stdio
    unfold stdioSent
    rw [hstd]
    rfl
  refine ⟨⟨h.stdio, h.stdioInit, h.used⟩, ?_, ?_, Nat.zero_le _, ?_, ?_, Nat.zero_le _,
    fun r hr => absurd hr List.not_mem_nil⟩
  · exact fun p hp => absurd hp List.not_mem_nil
  · rw [hnone]
    exact fun p hp => absurd hp List.not_mem_nil
  · rw [hnone]
    rfl
  · rw [hnone]
    rfl

/-- What the calls report is what has arrived with those that have not failed. -/
lemma Conserves.reported (h : Conserves i s) :
    reported s.reads = arrived (s.reads.filter fun r => 0 ≤ r.1) := by
  have hres := h.results
  generalize s.reads = reads at hres
  induction reads with
  | nil => rfl
  | cons r reads ih =>
    have ih := ih fun x hx => hres x (List.mem_cons_of_mem _ hx)
    have hcons : Output.reported (r :: reads) = r.2.take r.1.toInt.toNat ++ Output.reported reads := rfl
    rw [hcons, ih]
    rcases hres r List.mem_cons_self with he | ⟨he, hle⟩
    · have hneg : ¬ 0 ≤ r.1 := by
        rw [he]
        decide
      rw [List.filter_cons_of_neg (by simpa using hneg), he]
      rfl
    · have hlt : r.2.length < 2 ^ 31 := hle.trans_lt (by decide)
      have hint : r.1.toInt = r.2.length := by
        rw [he]
        exact Int32.toInt_ofNat_of_lt hlt
      have hpos : 0 ≤ r.1 := by
        rw [Int32.le_iff_toInt_le, hint]
        exact Int.natCast_nonneg _
      rw [List.filter_cons_of_pos (by simpa using hpos), hint, Int.toNat_natCast,
        List.take_of_length_le le_rfl]
      rfl

/-- **The standard output is preserved**, as long as the FIFO does not overflow: what has arrived in a
process is a prefix of what was written, and what the reads report is that without what has arrived with
those that have failed.  So when none fails, the reads report a prefix of what was written, and all of it
when nothing is left on the way.  No message is cut, and the 0 that `bm_stdio_rpmsg_cb` stores stays inside
of the buffer. -/
theorem output_preserved {fw : State n κ δ ε} {es : List Event} (hup : Up i fw)
    (hf : Steps (step env) Fits (start fw) es) (hr : run (step env) (start fw) es = some s) :
    (arrived s.reads <+: s.written ∧ reported s.reads = arrived (s.reads.filter fun r => 0 ≤ r.1)) ∧
      ((∀ r ∈ s.reads, 0 ≤ r.1) → reported s.reads <+: s.written ∧
        (s.todo = [] → s.received = (stdioSent s.fw).length → s.fifo = [] →
          reported s.reads = s.written)) ∧
      s.written = (stdioSent s.fw).flatMap text ++ (s.todo.map Prod.snd).flatten ∧
      (∀ p ∈ s.todo, payload p.2 = p.2) ∧
      ∀ p ∈ stdioSent s.fw, p.len.toNat ≤ dataLenMax - 1 ∧
        ∀ fifo, (bmStdioRpmsgCb p.data p.len.toNat fifo).isSome := by
  have h : Conserves i s := run_invariant_of_steps (fun _ _ _ => conserves_step)
    (conserves_start hup) hf hr
  have hsplit : s.written = arrived s.reads ++ (s.fifo ++
      ((stdioSent s.fw).drop s.received).flatMap text ++ (s.todo.map Prod.snd).flatten) := by
    rw [h.written, ← List.take_append_drop s.received (stdioSent s.fw), List.flatMap_append, h.reads,
      List.take_append_drop]
    simp only [List.append_assoc]
  have hpre : arrived s.reads <+: s.written := ⟨_, hsplit.symm⟩
  refine ⟨⟨hpre, h.reported⟩, fun hall => ?_, h.written, fun p hp => ?_, fun p hp => ?_⟩
  · have hsame : reported s.reads = arrived s.reads := by
      rw [h.reported, List.filter_eq_self.2 fun r hr => by simpa using hall r hr]
    rw [hsame]
    refine ⟨hpre, fun htodo hrec hfifo => ?_⟩
    rw [hsplit, htodo, hrec, hfifo]
    simp
  · exact payload_of_chunk (h.todo p hp).2
  · have hle := h.sent p hp
    refine ⟨hle, fun fifo => ?_⟩
    have hpos : 0 < dataLenMax := by decide
    have hlt : p.len.toNat < dataLenMax := by omega
    obtain ⟨data, hcb⟩ := bmStdioRpmsgCb_of_lt p.data hlt fifo
    rw [hcb]
    rfl

end Invariant

/-! ### Two messages -/

/-- A firmware whose first channel is the one of the standard output, and is up. -/
def chatty : State ⟨0, zero_lt_limit⟩ Empty Unit Unit :=
  let fw := remoteprocInit (Fw.prepared (Mem.loaded (fun k => k.elim0) ()))
  { fw with
    channels := Function.update fw.channels 0 ⟨appAddrStart, 0x400, .up, some .stdioMsgHandler⟩
    app := { fw.app with rpmsgStdio := some 0, stdioInit := true } }

/-- A kernel that offers the first transmit buffer again and again. -/
def offers : Env := fun _ => [[.offerTx 0]]

/-- A text of 500 bytes is sent in two messages and read in three pieces. -/
def longText : List Event :=
  [.write (List.replicate 500 0x61), .send, .receive, .devRead 7 0, .send, .devRead 100 0, .receive,
    .devRead 1000 0]

theorem longText_preserved : ∃ s, run (step offers) (start chatty) longText = some s ∧
    (stdioSent s.fw).map (fun p => p.len) = [495, 5] ∧
    reported s.reads = List.replicate 500 0x61 := by
  have h : Steps (step offers) Fits (start chatty) longText ∧
      (run (step offers) (start chatty) longText).any (fun s : Pipe _ _ _ _ =>
        decide ((stdioSent s.fw).map (fun p => p.len) = [495, 5] ∧ s.todo = [] ∧ s.received = 2 ∧
          s.fifo = [] ∧ s.written = List.replicate 500 0x61 ∧ ∀ r ∈ s.reads, 0 ≤ r.1)) = true := by
    decide +kernel
  obtain ⟨s, hs, h'⟩ := (Option.any_eq_true ..).1 h.2
  obtain ⟨hlen, htodo, hrec, hfifo, hwritten, hgood⟩ := of_decide_eq_true h'
  have hcount : s.received = (stdioSent s.fw).length := by
    rw [hrec, ← List.length_map (fun p : Packet => p.len), hlen]
    rfl
  obtain ⟨-, hall, -⟩ := output_preserved (i := 0) ⟨rfl, rfl, rfl⟩ h.1 hs
  exact ⟨s, hs, hlen, ((hall hgood).2 htodo hcount hfifo).trans hwritten⟩

end CfgMgmt.System.Output
