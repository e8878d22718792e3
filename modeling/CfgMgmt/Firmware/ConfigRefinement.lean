import Mathlib.Order.Lattice
import CfgMgmt.Firmware.Config
import CfgMgmt.Firmware.RegisterMap

/-!
# The message handler serves a register map

`regMap` reads the table of the firmware as a register map whose hooks are the callbacks, `query` is
the query of a request.  `configMsgHandler_refines` says that the handler leaves the state the
register map leaves, and hands exactly one reply to `rpmsg_send`, which carries its answer.
-/

namespace CfgMgmt.Firmware.ConfigRefinement

open CfgMgmt.Lib.Bytes CfgMgmt.Msg CfgMgmt.Firmware.Config CfgMgmt.Firmware.RegisterMap

section

variable {n : VarCount} {κ δ ε ω : Type} (sem : CbSem n κ δ ε ω)

/-- The table as a register map. -/
def regMap : RegMap (Fin n.1) ℤ (List UInt8) (World n κ δ ε ω) where
  count := n.1
  val w k := (w.vars k).val.toInt
  min w k := (w.vars k).min.toInt
  max w k := (w.vars k).max.toInt
  name w k := (w.vars k).name.bytes
  desc w k := (w.vars k).desc.bytes
  store k v w := setVal k (Int32.ofInt v) w
  onWrite k w := callCb sem (w.vars k).wrCb k false (w.vars k).wrCbData w
  onRead k w := callCb sem (w.vars k).rdCb k true (w.vars k).rdCbData w

/-- The query of a request: `REQ_NOP` and `REQ_N_VARS` have no register, all other types ask for the
register of their index. -/
def query (n : VarCount) (req : CfgMsg) : Query (Fin n.1) ℤ :=
  if req.type = reqNop then .nop
  else if req.type = reqNVars then .count
  else match entry? n req.ind with
    | none => .noReg
    | some k =>
      if req.type = reqWr then .write k req.val.toInt
      else if req.type = reqRd then .read k
      else if req.type = reqRdMin then .min k
      else if req.type = reqRdMax then .max k
      else if req.type = reqName then .name k
      else if req.type = reqDesc then .desc k
      else .unknown k

/-- A reply carries the text `t`: as many of its bytes as fit behind the message in the buffer. -/
def CarriesText (t : List UInt8) (rep : CfgMsg) : Prop :=
  rep.len.toNat = min t.length (cfgBufLen - sizeofCfgMsg) ∧
    rep.data.read rep.len.toNat = t.take rep.len.toNat

/-- A reply carries an answer of the register map. -/
def Carries (rep : CfgMsg) : Answer ℤ (List UInt8) → Prop
  | .ok => rep.type = resOk ∧ rep.len = 0
  | .count c => rep.type = resNVars ∧ rep.val.toInt = c ∧ rep.len = 0
  | .noReg => rep.type = resIdErr ∧ rep.len = 0
  | .val v => rep.type = resRdVal ∧ rep.val.toInt = v ∧ rep.len = 0
  | .min v => rep.type = resRdMin ∧ rep.val.toInt = v ∧ rep.len = 0
  | .max v => rep.type = resRdMax ∧ rep.val.toInt = v ∧ rep.len = 0
  | .name t => rep.type = resName ∧ CarriesText t rep
  | .desc t => rep.type = resDesc ∧ CarriesText t rep
  | .unknown => rep.type = resReqErr ∧ rep.len = 0

/-! ### The queries that reach the callbacks -/

lemma query_of_entry {req : CfgMsg} {k : Fin n.1} (hk : entry? n req.ind = some k)
    (h0 : req.type ≠ reqNop) (h1 : req.type ≠ reqNVars) : query n req =
      if req.type = reqWr then .write k req.val.toInt
      else if req.type = reqRd then .read k
      else if req.type = reqRdMin then .min k
      else if req.type = reqRdMax then .max k
      else if req.type = reqName then .name k
      else if req.type = reqDesc then .desc k
      else .unknown k := by
  rw [query, if_neg h0, if_neg h1, hk]

lemma query_cases (n : VarCount) (req : CfgMsg) :
    query n req = .nop ∨ req.type = reqNVars ∧ query n req = .count ∨ query n req = .noReg ∨
      ∃ k, entry? n req.ind = some k ∧
        (req.type = reqWr ∧ query n req = .write k req.val.toInt ∨
          req.type = reqRd ∧ query n req = .read k ∨ query n req = .min k ∨ query n req = .max k ∨
          query n req = .name k ∨ query n req = .desc k ∨ query n req = .unknown k) := by
  by_cases h0 : req.type = reqNop
  · exact .inl (if_pos h0)
  by_cases h1 : req.type = reqNVars
  · exact .inr (.inl ⟨h1, (if_neg h0).trans (if_pos h1)⟩)
  refine .inr (.inr ?_)
  cases hk : entry? n req.ind with
  | none =>
    left
    rw [query, if_neg h0, if_neg h1, hk]
  | some k =>
    refine .inr ⟨k, rfl, ?_⟩
    rw [query_of_entry hk h0 h1]
    by_cases hWr : req.type = reqWr
    · exact .inl ⟨hWr, if_pos hWr⟩
    rw [if_neg hWr]
    by_cases hRd : req.type = reqRd
    · exact .inr (.inl ⟨hRd, if_pos hRd⟩)
    rw [if_neg hRd]
    refine .inr (.inr ?_)
    by_cases hMin : req.type = reqRdMin
    · exact .inl (if_pos hMin)
    rw [if_neg hMin]
    by_cases hMax : req.type = reqRdMax
    · exact .inr (.inl (if_pos hMax))
    rw [if_neg hMax]
    by_cases hName : req.type = reqName
    · exact .inr (.inr (.inl (if_pos hName)))
    rw [if_neg hName]
    by_cases hDesc : req.type = reqDesc
    · exact .inr (.inr (.inr (.inl (if_pos hDesc))))
    · exact .inr (.inr (.inr (.inr (if_neg hDesc))))

lemma query_eq_count {req : CfgMsg} (h : query n req = .count) : req.type = reqNVars := by
  rcases query_cases n req with
    hq | ⟨ht, -⟩ | hq | ⟨_, -, ⟨-, hq⟩ | ⟨-, hq⟩ | hq | hq | hq | hq | hq⟩
  case inr.inl => exact ht
  all_goals cases h.symm.trans hq

lemma query_eq_read {req : CfgMsg} {k : Fin n.1} (h : query n req = .read k) :
    req.type = reqRd ∧ entry? n req.ind = some k := by
  rcases query_cases n req with
    hq | ⟨-, hq⟩ | hq | ⟨k', hk, ⟨-, hq⟩ | ⟨ht, hq⟩ | hq | hq | hq | hq | hq⟩ <;>
  cases h.symm.trans hq
  exact ⟨ht, hk⟩

lemma query_eq_write {req : CfgMsg} {k : Fin n.1} {v : ℤ} (h : query n req = .write k v) :
    req.type = reqWr ∧ entry? n req.ind = some k ∧ v = req.val.toInt := by
  rcases query_cases n req with
    hq | ⟨-, hq⟩ | hq | ⟨k', hk, ⟨ht, hq⟩ | ⟨-, hq⟩ | hq | hq | hq | hq | hq⟩ <;>
  cases h.symm.trans hq
  exact ⟨ht, hk, rfl⟩

lemma query_of_read {req : CfgMsg} {k : Fin n.1} (ht : req.type = reqRd)
    (hk : entry? n req.ind = some k) : query n req = .read k := by
  unfold query
  rw [ht, hk]
  rfl

lemma query_of_write {req : CfgMsg} {k : Fin n.1} (ht : req.type = reqWr)
    (hk : entry? n req.ind = some k) : query n req = .write k req.val.toInt := by
  unfold query
  rw [ht, hk]
  rfl

/-! ### The parts of the handler -/

/-- The limitation of the source is the limitation of the register map. -/
lemma limit_eq_limitTo (v : CfgVar κ δ) (val : Int32) :
    limit v val = Int32.ofInt (limitTo v.min.toInt v.max.toInt val.toInt) := by
  have h1 := v.min.le_toInt
  have h2 := v.min.toInt_lt
  have h3 := v.max.toInt_lt
  rw [← Int32.toInt_inj, limitTo, Int32.toInt_ofInt_of_le (by omega) (by omega)]
  unfold limit
  simp only [gt_iff_lt, Int32.lt_iff_toInt_lt]
  split <;> split <;> omega

lemma carriesText_putText (rep : CfgMsg) (t : CStr) : CarriesText t.bytes (putText rep t) := by
  have hle := textLen_le t
  have hlen : (putText rep t).len.toNat = textLen t := by
    simp only [putText]
    rw [UInt32.toNat_ofNat_of_lt']
    exact hle.trans_lt (by decide)
  refine ⟨by rw [hlen, textLen_eq, CStr.strlen], ?_⟩
  rw [hlen]
  exact Buf.read_write_zero rep.data _ (text_fits t) (length_take_textLen t)

lemma serve_write (w : World n κ δ ε ω) (k : Fin n.1) (val : Int32) :
    ((regMap sem).serve w (.write k val.toInt)).1 =
      callCb sem (w.vars k).wrCb k false (w.vars k).wrCbData
        (setVal k (limit (w.vars k) val) w) := by
  rw [limit_eq_limitTo]
  simp [RegMap.serve, regMap, setVal]

lemma serveEntry_eq (req rep : CfgMsg) (hrep : rep.len = 0) {k : Fin n.1} (w : World n κ δ ε ω)
    (hk : entry? n req.ind = some k) (h0 : req.type ≠ reqNop) (h1 : req.type ≠ reqNVars) :
    ∃ rep', serveEntry sem req rep req.ind k w =
        some (send rep' ((regMap sem).serve w (query n req)).1) ∧
      rep'.seq = rep.seq ∧ rep'.ind = rep.ind ∧
      Carries rep' ((regMap sem).serve w (query n req)).2 := by
  rw [query_of_entry hk h0 h1]
  unfold serveEntry
  by_cases hWr : req.type = reqWr
  · simp only [if_pos hWr]
    refine ⟨{ rep with type := resOk }, ?_, rfl, rfl, rfl, hrep⟩
    rw [cfgSetInd_entry sem hk, serve_write]
    rfl
  by_cases hRd : req.type = reqRd
  · simp only [if_neg hWr, if_pos hRd]
    exact ⟨_, rfl, rfl, rfl, rfl, rfl, hrep⟩
  by_cases hMin : req.type = reqRdMin
  · simp only [if_neg hWr, if_neg hRd, if_pos hMin]
    exact ⟨_, rfl, rfl, rfl, rfl, rfl, hrep⟩
  by_cases hMax : req.type = reqRdMax
  · simp only [if_neg hWr, if_neg hRd, if_neg hMin, if_pos hMax]
    exact ⟨_, rfl, rfl, rfl, rfl, rfl, hrep⟩
  by_cases hName : req.type = reqName
  · simp only [if_neg hWr, if_neg hRd, if_neg hMin, if_neg hMax, if_pos hName]
    exact ⟨_, rfl, rfl, rfl, rfl, carriesText_putText rep (w.vars k).name⟩
  simp only [if_neg hWr, if_neg hRd, if_neg hMin, if_neg hMax, if_neg hName]
  by_cases hDesc : req.type = reqDesc
  · simp only [if_pos hDesc]
    exact ⟨_, rfl, rfl, rfl, rfl, carriesText_putText rep (w.vars k).desc⟩
  · simp only [if_neg hDesc]
    exact ⟨_, rfl, rfl, rfl, rfl, hrep⟩

/-- The handler serves the register map, whatever is left in `cfgMsgTxBuf` from earlier replies. -/
lemma configMsgHandler_serves (req : CfgMsg) (s : Cfg n κ δ ε ω) :
    ∃ rep, configMsgHandler sem req s =
        some (send rep ((regMap sem).serve s.w (query n req)).1) ∧
      rep.seq = req.seq ∧ rep.ind = req.ind ∧
      Carries rep ((regMap sem).serve s.w (query n req)).2 := by
  unfold configMsgHandler
  by_cases h0 : req.type = reqNop
  · simp only [query, if_pos h0]
    exact ⟨_, rfl, rfl, rfl, rfl, rfl⟩
  by_cases h1 : req.type = reqNVars
  · simp only [query, if_neg h0, if_pos h1]
    exact ⟨_, rfl, rfl, rfl, rfl, toInt_nVars n, rfl⟩
  simp only [if_neg h0, if_neg h1]
  cases hk : entry? n req.ind with
  | none =>
    simp only [query, if_neg h0, if_neg h1, hk, if_pos (entry?_eq_none.1 hk)]
    exact ⟨_, rfl, rfl, rfl, rfl, rfl⟩
  | some k =>
    simp only [if_neg (not_outside hk), Option.bind_eq_bind, Option.bind_some]
    exact serveEntry_eq sem req { s.txBuf with seq := req.seq, ind := req.ind, len := 0 } rfl s.w
      hk h0 h1

end

/-- **The message handler refines the register map**, for every table, every request and all
callbacks: it leaves the state the register map leaves and sends exactly one reply, with the number
and the index of the request and the answer of the register map. -/
theorem configMsgHandler_refines {n : VarCount} {κ δ ε ω : Type} (sem : CbSem n κ δ ε ω)
    (req : CfgMsg) (s : Cfg n κ δ ε ω) :
    ∃ rep, configMsgHandler sem req s =
        some ⟨{ ((regMap sem).serve s.w (query n req)).1 with
          out := ((regMap sem).serve s.w (query n req)).1.out ++ [.inr rep] }, rep⟩ ∧
      rep.seq = req.seq ∧ rep.ind = req.ind ∧
      Carries rep ((regMap sem).serve s.w (query n req)).2 :=
  configMsgHandler_serves sem req s

end CfgMgmt.Firmware.ConfigRefinement
