import CfgMgmt.Firmware.ConfigRefinement
import CfgMgmt.Firmware.Main

/-!
# Messages in recycled buffers

A receive buffer holds the bytes of the message, and behind them what earlier messages have left.  The
handler of the configuration channel gets the length of the message and does not look at it: a request
is decoded from the buffer.  `readsReceived_iff` says which messages are read from their own bytes
alone, and change no variable when they are too short for a request.
-/

namespace CfgMgmt.Firmware.Recycled

open CfgMgmt.Lib.Bytes CfgMgmt.Msg CfgMgmt.Firmware.Remoteproc CfgMgmt.Firmware.Main
open CfgMgmt.Firmware.Config (VarCount CfgVar Table World CbSem entry? limit setVal)
open CfgMgmt.Firmware.RegisterMap CfgMgmt.Firmware.ConfigRefinement

/-! ### Receiving -/

/-- The length of a request without its data. -/
abbrev headerLen : ℕ := sizeofCfgMsg - msgDataSize

section Receive

variable {n : VarCount} {κ δ ε : Type} (sem : CbSem n κ δ ε (List UInt8))

/-- The call of the handler for the message `msg` in the buffer `data`. -/
def receive (msg : List UInt8) (data : Buf dataLenMax) (i : Fin maxRpmsgCh) (m : Mem n κ δ ε) :
    Option (CbResult (Mem n κ δ ε)) :=
  handlers sem .configMsgHandler i data (UInt16.ofNat msg.length) m

/-- Two calls leave the same table, and send the same number, type and index. -/
def SameOutcome (r r' : CbResult (Mem n κ δ ε)) : Prop :=
  r.app.vars = r'.app.vars ∧ ∃ ch rep rep', r.sends.getLast? = some (ch, CfgMsg.encode rep) ∧
    r'.sends.getLast? = some (ch, CfgMsg.encode rep') ∧
    rep.seq = rep'.seq ∧ rep.type = rep'.type ∧ rep.ind = rep'.ind

end Receive

/-- The message `msg` is interpreted only from the bytes received, in every table with `n` variables:
two buffers that hold it have the same outcome, and when it is shorter than the header of a request it
changes no variable. -/
structure ReadsReceived (n : VarCount) (msg : List UInt8) : Prop where
  same : ∀ {κ δ ε : Type} (sem : CbSem n κ δ ε (List UInt8)) (i : Fin maxRpmsgCh) (m : Mem n κ δ ε)
    (data data' : Buf dataLenMax), msg <+: data.bytes → msg <+: data'.bytes →
      ∃ r r', receive sem msg data i m = some r ∧ receive sem msg data' i m = some r' ∧
        SameOutcome r r'
  short : msg.length < headerLen → ∀ {κ δ ε : Type} (sem : CbSem n κ δ ε (List UInt8))
    (i : Fin maxRpmsgCh) (m : Mem n κ δ ε) (data : Buf dataLenMax) (r : CbResult (Mem n κ δ ε)),
      msg <+: data.bytes → receive sem msg data i m = some r → r.app.vars = m.vars

/-- The message is as long as the header, or it has a number, a type and an index and neither writes a
variable nor reads one. -/
def Covered (n : VarCount) (msg : List UInt8) : Prop :=
  headerLen ≤ msg.length ∨ 12 ≤ msg.length ∧
    (u32At msg 4 = reqWr ∨ u32At msg 4 = reqRd → entry? n (u32At msg 8).toInt32 = none)

/-! ### What a call does -/

section Receive

variable {n : VarCount} {κ δ ε : Type} {sem : CbSem n κ δ ε (List UInt8)}

/-- The memory the variables and their callbacks act on. -/
abbrev world (m : Mem n κ δ ε) : World n κ δ ε (List UInt8) := ⟨m.vars, m.ext, []⟩

lemma receive_serves (sem : CbSem n κ δ ε (List UInt8)) (msg : List UInt8) (data : Buf dataLenMax)
    (i : Fin maxRpmsgCh) (m : Mem n κ δ ε) :
    ∃ r rep, receive sem msg data i m = some r ∧
      r.app.vars = ((regMap sem).serve (world m) (query n (cfgMsg data))).1.vars ∧
      r.sends.getLast? = some (m.rpmsgConfig, CfgMsg.encode rep) ∧
      rep.seq = (cfgMsg data).seq ∧ rep.ind = (cfgMsg data).ind ∧
      Carries rep ((regMap sem).serve (world m) (query n (cfgMsg data))).2 := by
  obtain ⟨rep, hrun, hseq, hind, hc⟩ :=
    configMsgHandler_serves sem (cfgMsg data) ⟨world m, m.cfgMsgTxBuf⟩
  have hr : receive sem msg data i m = (Config.configMsgHandler sem (cfgMsg data)
      ⟨world m, m.cfgMsgTxBuf⟩).bind fun c => some ⟨{ m with
        vars := c.w.vars, ext := c.w.ext, cfgMsgTxBuf := c.txBuf }, outSends m c.w.out, none⟩ := rfl
  rw [hrun] at hr
  refine ⟨_, rep, hr, rfl, ?_, hseq, hind, hc⟩
  simp [Config.send, outSends]

lemma type_of_carries {rep rep' : CfgMsg} {a : Answer ℤ (List UInt8)} (h : Carries rep a)
    (h' : Carries rep' a) : rep.type = rep'.type := by
  cases a <;> exact h.1.trans h'.1.symm

lemma sameOutcome_of_query {msg : List UInt8} {data data' : Buf dataLenMax}
    (hseq : (cfgMsg data).seq = (cfgMsg data').seq) (hind : (cfgMsg data).ind = (cfgMsg data').ind)
    (hq : query n (cfgMsg data) = query n (cfgMsg data')) (i : Fin maxRpmsgCh) (m : Mem n κ δ ε) :
    ∃ r r', receive sem msg data i m = some r ∧ receive sem msg data' i m = some r' ∧
      SameOutcome r r' := by
  obtain ⟨r, rep, hr, hv, hl, hs, hi, hc⟩ := receive_serves sem msg data i m
  obtain ⟨r', rep', hr', hv', hl', hs', hi', hc'⟩ := receive_serves sem msg data' i m
  rw [← hq] at hv' hc'
  exact ⟨r, r', hr, hr', hv.trans hv'.symm, _, rep, rep', hl, hl',
    hs.trans (hseq.trans hs'.symm), type_of_carries hc hc', hi.trans (hind.trans hi'.symm)⟩

/-- The value of a request is read for a write only. -/
lemma query_congr {req req' : CfgMsg} (ht : req.type = req'.type) (hi : req.ind = req'.ind)
    (hv : req.type = reqWr → entry? n req.ind ≠ none → req.val = req'.val) :
    query n req = query n req' := by
  unfold query
  rw [← ht, ← hi]
  cases hk : entry? n req.ind with
  | none => rfl
  | some k =>
    by_cases hw : req.type = reqWr
    · rw [hv hw (by rw [hk]; exact Option.some_ne_none k)]
    · simp only [if_neg hw]

lemma serve_vars {req : CfgMsg} (h : req.type = reqWr ∨ req.type = reqRd → entry? n req.ind = none)
    (w : World n κ δ ε (List UInt8)) : ((regMap sem).serve w (query n req)).1 = w := by
  cases hq : query n req with
  | write k v =>
    obtain ⟨ht, hk, -⟩ := query_eq_write hq
    cases hk.symm.trans (h (.inl ht))
  | read k =>
    obtain ⟨ht, hk⟩ := query_eq_read hq
    cases hk.symm.trans (h (.inr ht))
  | _ => rfl

end Receive

/-! ### Messages that are covered -/

section Covered

variable {n : VarCount} {msg : List UInt8}

lemma readsReceived_of_covered (h : Covered n msg) : ReadsReceived n msg := by
  have h12 : 12 ≤ msg.length := by
    rcases h with h | h
    · exact (by decide : 12 ≤ headerLen).trans h
    · exact h.1
  have hseq : ∀ data : Buf dataLenMax, msg <+: data.bytes → (cfgMsg data).seq = u32At msg 0 :=
    fun _ hd => u32At_of_isPrefix hd (by omega)
  have htype : ∀ data : Buf dataLenMax, msg <+: data.bytes → (cfgMsg data).type = u32At msg 4 :=
    fun _ hd => u32At_of_isPrefix hd (by omega)
  have hind : ∀ data : Buf dataLenMax, msg <+: data.bytes →
      (cfgMsg data).ind = (u32At msg 8).toInt32 :=
    fun _ hd => congrArg UInt32.toInt32 (u32At_of_isPrefix hd (by omega))
  constructor
  · intro κ δ ε sem i m data data' hd hd'
    refine sameOutcome_of_query ((hseq data hd).trans (hseq data' hd').symm)
      ((hind data hd).trans (hind data' hd').symm) (query_congr ?_ ?_ fun hw hne => ?_) i m
    · exact (htype data hd).trans (htype data' hd').symm
    · exact (hind data hd).trans (hind data' hd').symm
    · -- a write is covered only if its value has been received
      rcases h with h | ⟨-, h⟩
      · have h16 : 12 + 4 ≤ msg.length := (by decide : 16 ≤ headerLen).trans h
        exact congrArg UInt32.toInt32
          ((u32At_of_isPrefix hd h16).trans (u32At_of_isPrefix hd' h16).symm)
      · rw [htype data hd] at hw
        rw [hind data hd] at hne
        exact absurd (h (.inl hw)) hne
  · intro hlt κ δ ε sem i m data r hd hr
    obtain ⟨r', rep, hr', hv, -⟩ := receive_serves sem msg data i m
    obtain rfl := Option.some.inj (hr.symm.trans hr')
    rw [hv, serve_vars]
    rw [htype data hd, hind data hd]
    exact (h.resolve_left (by omega)).2

end Covered

/-! ### Messages that are not -/

section Uncovered

variable {msg : List UInt8}

/-- The message in a buffer that is filled up with the byte `b`. -/
def fill (msg : List UInt8) (h : msg.length ≤ dataLenMax) (b : UInt8) : Buf dataLenMax where
  bytes := msg ++ List.replicate (dataLenMax - msg.length) b
  size := by
    rw [List.length_append, List.length_replicate]
    omega

lemma isPrefix_fill (h : msg.length ≤ dataLenMax) (b : UInt8) : msg <+: (fill msg h b).bytes :=
  List.prefix_append _ _

lemma fill_getElem? (h : msg.length ≤ dataLenMax) (b : UInt8) {i : ℕ} (hi : msg.length ≤ i)
    (hlt : i < dataLenMax) : (fill msg h b).bytes[i]? = some b := by
  unfold fill
  rw [List.getElem?_append_right hi, List.getElem?_replicate_of_lt (by omega)]

variable {n : VarCount}

/-- Variables without limits, which have the value `x` and a read callback. -/
def probe (n : VarCount) (x : Int32) : Table n Unit Unit :=
  fun _ => ⟨0, .empty, .empty, x, Int32.minValue, Int32.maxValue, some (), (), none, ()⟩

/-- The read callback that stores the value `v`. -/
def storing (v : Int32) : CbSem n Unit Unit Unit (List UInt8) :=
  fun _ k _ _ vars ext => ⟨Function.update vars k { vars k with val := v }, ext, []⟩

lemma limit_probe (x v : Int32) (k : Fin n.1) : limit (probe n x k) v = v := by
  have h1 := v.le_toInt
  have h2 := v.toInt_lt
  have hmin : Int32.minValue.toInt = -2 ^ 31 := by decide
  have hmax : Int32.maxValue.toInt = 2 ^ 31 - 1 := by decide
  unfold limit probe
  simp only [gt_iff_lt, Int32.lt_iff_toInt_lt, hmin, hmax]
  rw [if_neg (by omega : ¬ (2 : ℤ) ^ 31 - 1 < v.toInt), if_neg (by omega)]

/-- A write and a read that find their variable leave the value `v` there. -/
lemma serve_probe {req : CfgMsg} {k : Fin n.1} (ht : req.type = reqWr ∨ req.type = reqRd)
    (hk : entry? n req.ind = some k) (x : Int32) :
    (((regMap (storing req.val)).serve ⟨probe n x, (), []⟩ (query n req)).1.vars k).val =
      req.val := by
  rcases ht with ht | ht
  · rw [query_of_write ht hk, serve_write, limit_probe]
    simp [probe, Config.callCb, setVal]
  · rw [query_of_read ht hk]
    simp [RegMap.serve, regMap, probe, Config.callCb, storing]

/-- The index is taken from the bytes behind a message that is too short to have one. -/
lemma not_same_of_lt (hlt : msg.length < 12) : ¬ ReadsReceived n msg := by
  intro h
  have hle : msg.length ≤ dataLenMax := hlt.le.trans (by decide)
  obtain ⟨r, r', hr, hr', -, ch, rep, rep', hl, hl', -, -, hind⟩ :=
    h.same (storing 0) ⟨0, by decide⟩ (Mem.loaded (probe n 0) ()) (fill msg hle 0) (fill msg hle 255)
      (isPrefix_fill hle 0) (isPrefix_fill hle 255)
  obtain ⟨t, u, ht, -, hu, -, hi, -⟩ := receive_serves (storing 0) msg (fill msg hle 0)
    ⟨0, by decide⟩ (Mem.loaded (probe n 0) ())
  obtain ⟨t', u', ht', -, hu', -, hi', -⟩ := receive_serves (storing 0) msg (fill msg hle 255)
    ⟨0, by decide⟩ (Mem.loaded (probe n 0) ())
  obtain rfl := Option.some.inj (hr.symm.trans ht)
  obtain rfl := Option.some.inj (hr'.symm.trans ht')
  have henc : ∀ {a b : CfgMsg}, a.encode = b.encode → a = b := fun {a b} e =>
    Option.some.inj (a.received_encode.symm.trans ((congrArg CfgMsg.received e).trans b.received_encode))
  obtain rfl := henc (Prod.mk.inj (Option.some.inj (hl.symm.trans hu))).2
  obtain rfl := henc (Prod.mk.inj (Option.some.inj (hl'.symm.trans hu'))).2
  have hword : u32At (fill msg hle 0).bytes 8 = u32At (fill msg hle 255).bytes 8 :=
    congrArg Int32.toUInt32 (hi.symm.trans (hind.trans hi'))
  have h11 := getElem?_of_u32At (i := 3) hword (by rw [(fill msg hle 0).size]; decide)
    (by rw [(fill msg hle 255).size]; decide) (by decide)
  rw [fill_getElem? hle 0 (by omega) (by decide), fill_getElem? hle 255 (by omega) (by decide)] at h11
  cases h11

/-- A write or a read without all of its header changes a variable. -/
lemma not_short_of_request (h12 : 12 ≤ msg.length) (hlt : msg.length < headerLen)
    (ht : u32At msg 4 = reqWr ∨ u32At msg 4 = reqRd) {k : Fin n.1}
    (hk : entry? n (u32At msg 8).toInt32 = some k) : ¬ ReadsReceived n msg := by
  intro h
  have hle : msg.length ≤ dataLenMax := hlt.le.trans (by decide)
  have hd := isPrefix_fill hle 0
  set req := cfgMsg (fill msg hle 0)
  have htype : req.type = u32At msg 4 := u32At_of_isPrefix hd (by omega)
  have hind : req.ind = (u32At msg 8).toInt32 :=
    congrArg UInt32.toInt32 (u32At_of_isPrefix hd (by omega))
  have hother : ∃ x : Int32, x ≠ req.val := by
    by_cases h0 : req.val = 0
    · exact ⟨1, by rw [h0]; decide⟩
    · exact ⟨0, fun e => h0 e.symm⟩
  obtain ⟨x, hx⟩ := hother
  obtain ⟨r, rep, hr, hv, -⟩ := receive_serves (storing req.val) msg (fill msg hle 0)
    ⟨0, by decide⟩ (Mem.loaded (probe n x) ())
  have hkeep := h.short hlt _ _ _ _ r hd hr
  have hval := serve_probe (htype ▸ ht) (hind ▸ hk) x
  rw [hv] at hkeep
  have hx' := congrArg (fun vars => (vars k).val) hkeep
  exact hx (hx'.symm.trans hval)

end Uncovered

/-- **A message is interpreted only from the bytes received if and only if** it is as long as the header
of a request, or has its first three members and is neither a write nor a read of a variable. -/
theorem readsReceived_iff (n : VarCount) (msg : List UInt8) : ReadsReceived n msg ↔ Covered n msg := by
  constructor
  · intro h
    by_cases h12 : msg.length < 12
    · exact absurd h (not_same_of_lt h12)
    · by_cases hle : headerLen ≤ msg.length
      · exact .inl hle
      · refine .inr ⟨by omega, fun ht => ?_⟩
        cases hk : entry? n (u32At msg 8).toInt32 with
        | none => rfl
        | some k => exact absurd h (not_short_of_request (by omega) (by omega) ht hk)
  · exact readsReceived_of_covered

/-- The first 12 bytes of a write of the variable 0, with the number 1. -/
def cutWrite : List UInt8 := [1, 0, 0, 0, 2, 0, 0, 0, 0, 0, 0, 0]

/-- A write that ends behind its index stores a value from the bytes behind it. -/
theorem cutWrite_not_received : ¬ ReadsReceived ⟨1, one_lt_limit⟩ cutWrite :=
  not_short_of_request (k := ⟨0, by decide⟩) (by decide) (by decide) (by decide) (by decide)

end CfgMgmt.Firmware.Recycled
