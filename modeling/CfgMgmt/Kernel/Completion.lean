import CfgMgmt.Kernel.RpmsgLink

/-!
# What a reply does to a transaction

`cfg_mgmt_rpmsg_cb` takes a message of the remote side as it comes.  Whatever the message says, it stays
inside of the two buffers (`completeChecked_eq`), and what it leaves in the transaction is determined by
the message: a text that is terminated, its length and the error (`complete_eq`).
-/

namespace CfgMgmt.Kernel.Completion

open CfgMgmt.Lib.Bytes CfgMgmt.Msg CfgMgmt.Kernel.Linux CfgMgmt.Kernel.RpmsgLink
open CfgMgmt.Kernel.RpmsgLink.Link

/-! ### The handler with checked accesses -/

/-- Read the first bytes of a buffer, `none` behind its end. -/
def readChecked {n : ℕ} (b : Buf n) (len : ℕ) : Option (List UInt8) :=
  if len ≤ n then some (b.read len) else none

/-- Write to a buffer, `none` behind its end. -/
def writeChecked {n : ℕ} (b : Buf n) (off : ℕ) (src : List UInt8) : Option (Buf n) :=
  if h : off + src.length ≤ n then some (b.write off src h) else none

/-- `scnprintf` into the buffer of a transaction. -/
def printChecked (size : ℕ) (s : List UInt8) (t : Transaction) : Option Transaction := do
  let text := s.take (size - 1)
  let buf ← writeChecked t.buf 0 (text ++ [0])
  some { t with len := Int32.ofNat text.length, buf }

/-- The `switch` of `cfg_mgmt_rpmsg_cb`, each access to the two buffers checked. -/
def completeChecked (response : CfgMsg) (t : Transaction) : Option Transaction :=
  if response.type = resOk then
    some { t with len := 0, valid := true, err := 0 }
  else if response.type = resNVars then
    some { t with len := 0, valid := true }
  else if response.type = resRdVal ∨ response.type = resRdMin ∨ response.type = resRdMax then do
    let t ← printChecked ioBufSize (decimal response.val.toInt ++ [10]) t
    some { t with err := 0, valid := true }
  else if response.type = resName ∨ response.type = resDesc then
    if response.len.toNat > ioBufSize - 1 then do
      let t ← printChecked (ioBufSize - 1) (ascii "data part of response too long\n") t
      let buf ← writeChecked t.buf t.len.toUInt32.toNat [0]
      some { t with buf, err := -einval, valid := true }
    else do
      let bytes ← readChecked response.data response.len.toNat
      let buf ← writeChecked t.buf 0 bytes
      let buf ← writeChecked buf response.len.toNat [0]
      some { t with buf, len := response.len.toInt32, err := 0, valid := true }
  else if response.type = resIdErr then do
    let t ← printChecked ioBufSize (ascii "received ID error for id " ++ decimal response.ind.toInt ++
      ascii " in msg nr " ++ decimalU32 response.seq ++ [10]) t
    some { t with valid := true, err := response.type.toInt32 }
  else if response.type = resReqErr then do
    let t ← printChecked ioBufSize (ascii "received request error for msg nr " ++
      decimalU32 response.seq ++ [10]) t
    some { t with valid := true, err := response.type.toInt32 }
  else do
    let t ← printChecked ioBufSize (ascii "unknonw type " ++ decimal response.ind.toInt ++
      ascii " in msg nr " ++ decimalU32 response.seq ++ [10]) t
    some { t with valid := true, err := -1 }

/-- `cfg_mgmt_rpmsg_cb`, each access to the two buffers checked. -/
def rpmsgCbChecked (data : List UInt8) (s : Link) : Option Link :=
  match CfgMsg.received data with
  | none => some s
  | some response =>
    match s.pendingList.find? fun t => (s.trans t).msgSeqNr = response.seq with
    | none => some s
    | some t => do
      let s := { s with pendingList := s.pendingList.erase t }
      let s := if response.type = resNVars then { s with nVars := response.val } else s
      let x ← completeChecked response (s.trans t)
      some (s.modify t fun _ => x)

/-! ### Writes to a buffer -/

section Writes

variable {n : ℕ} {b : Buf n} {s u : List UInt8}

lemma writeChecked_of_le {off : ℕ} (h : off + s.length ≤ n) : writeChecked b off s = some (b.write off s h) :=
  dif_pos h

lemma write_append (h : 0 + (s ++ u).length ≤ n) (hs : 0 + s.length ≤ n) (hu : s.length + u.length ≤ n) :
    (b.write 0 s hs).write s.length u hu = b.write 0 (s ++ u) h := by
  ext1
  have hlen : s.length ≤ b.bytes.length := by
    rw [b.size]
    omega
  simp [Buf.write, List.append_assoc]

lemma write_again (h : 0 + (s ++ u).length ≤ n) (hu : s.length + u.length ≤ n) :
    (b.write 0 (s ++ u) h).write s.length u hu = b.write 0 (s ++ u) h := by
  ext1
  simp [Buf.write, List.append_assoc]

lemma writeChecked_terminated {α : Type} {len : ℕ} (hlen : s.length = len)
    (h : 0 + (s ++ [0]).length ≤ n) (f : Buf n → Option α) :
    ((writeChecked b 0 s).bind fun buf => (writeChecked buf len [0]).bind f) =
      f (b.write 0 (s ++ [0]) h) := by
  subst hlen
  have hsum : s.length + ([0] : List UInt8).length ≤ n := by
    rw [Nat.zero_add, List.length_append] at h
    exact h
  have hs : 0 + s.length ≤ n := by
    rw [Nat.zero_add]
    exact (Nat.le_add_right _ _).trans hsum
  rw [writeChecked_of_le hs, Option.bind_some, writeChecked_of_le hsum, Option.bind_some,
    write_append h hs hsum]

end Writes

/-! ### What a reply leaves -/

/-- The text for a reply whose data part does not fit. -/
def tooLong : List UInt8 := (ascii "data part of response too long\n").take (ioBufSize - 1 - 1)

def replyText (response : CfgMsg) : List UInt8 :=
  if response.type = resRdVal ∨ response.type = resRdMin ∨ response.type = resRdMax then
    (decimal response.val.toInt ++ [10]).take (ioBufSize - 1)
  else if response.type = resName ∨ response.type = resDesc then
    if response.len.toNat > ioBufSize - 1 then tooLong
    else response.data.read response.len.toNat
  else if response.type = resIdErr then
    (ascii "received ID error for id " ++ decimal response.ind.toInt ++ ascii " in msg nr " ++
      decimalU32 response.seq ++ [10]).take (ioBufSize - 1)
  else if response.type = resReqErr then
    (ascii "received request error for msg nr " ++ decimalU32 response.seq ++ [10]).take (ioBufSize - 1)
  else
    (ascii "unknonw type " ++ decimal response.ind.toInt ++ ascii " in msg nr " ++
      decimalU32 response.seq ++ [10]).take (ioBufSize - 1)

def replyErr (response : CfgMsg) : Int32 :=
  if response.type = resOk ∨ response.type = resRdVal ∨ response.type = resRdMin ∨
      response.type = resRdMax then 0
  else if response.type = resName ∨ response.type = resDesc then
    if response.len.toNat > ioBufSize - 1 then -einval else 0
  else if response.type = resIdErr ∨ response.type = resReqErr then response.type.toInt32
  else -1

section Reply

variable (response : CfgMsg)

lemma length_tooLong_le : tooLong.length ≤ ioBufSize - 1 - 1 := by
  unfold tooLong
  rw [List.length_take]
  exact min_le_left _ _

lemma length_read_of_le {response : CfgMsg} (h : ¬ response.len.toNat > ioBufSize - 1) :
    (response.data.read response.len.toNat).length = response.len.toNat := by
  rw [Buf.length_read]
  exact min_eq_left ((Nat.not_lt.1 h).trans (by decide))

lemma length_replyText_le : (replyText response).length ≤ ioBufSize - 1 := by
  have htake : ∀ s : List UInt8, (s.take (ioBufSize - 1)).length ≤ ioBufSize - 1 := fun s => by
    rw [List.length_take]
    exact min_le_left _ _
  unfold replyText
  split
  · exact htake _
  split
  · split
    · exact length_tooLong_le.trans (by decide)
    · rename_i hle
      rw [length_read_of_le hle]
      exact Nat.not_lt.1 hle
  split
  · exact htake _
  split
  · exact htake _
  · exact htake _

lemma replyText_fits : 0 + (replyText response ++ [0]).length ≤ ioBufSize := by
  have h := length_replyText_le response
  rw [List.length_append, List.length_singleton, Nat.zero_add]
  exact Nat.succ_le_succ h

/-- What the replies other than `RES_OK` and `RES_N_VARS` leave: their text, which is terminated, its
length, and their error. -/
def answered (t : Transaction) : Transaction :=
  { t with
    len := Int32.ofNat (replyText response).length
    buf := t.buf.write 0 (replyText response ++ [0]) (replyText_fits response)
    err := replyErr response
    valid := true }

variable {response}

lemma printChecked_eq {size : ℕ} (h : 0 < size ∧ size ≤ ioBufSize) (s : List UInt8) (t : Transaction) :
    printChecked size s t = some (printText size h s t) := by
  unfold printChecked printText scnprintf
  dsimp only
  rw [writeChecked_of_le]
  rfl

lemma ofNat_toNat (x : UInt32) : Int32.ofNat x.toNat = x.toInt32 := by
  have h : UInt32.ofNat x.toNat = x := UInt32.ofNat_toNat
  conv_rhs => rw [← h]
  rfl

lemma toNat_ofNat {n : ℕ} (h : n ≤ ioBufSize - 1) : (Int32.ofNat n).toUInt32.toNat = n := by
  show (UInt32.ofNat n).toNat = n
  exact UInt32.toNat_ofNat_of_lt' (h.trans_lt (by decide))

lemma toInt_ofNat {n : ℕ} (h : n ≤ ioBufSize - 1) : (Int32.ofNat n).toInt = n :=
  Int32.toInt_ofNat_of_lt (h.trans_lt (by decide))

/-- **The handler stays inside of the two buffers**, whatever the message says. -/
theorem completeChecked_eq (response : CfgMsg) (t : Transaction) :
    completeChecked response t = some (complete response t) := by
  unfold completeChecked complete
  split
  · rfl
  split
  · rfl
  split
  · simp only [printChecked_eq ioBufSize_fits, Option.bind_eq_bind, Option.bind_some]
  split
  · split
    · -- the terminating 0 is written once more
      have hlen := toNat_ofNat (length_tooLong_le.trans (by decide))
      have hfits : tooLong.length + ([0] : List UInt8).length ≤ ioBufSize :=
        (Nat.add_le_add_right length_tooLong_le 1).trans (by decide)
      have hfits₀ : 0 + (tooLong ++ [0]).length ≤ ioBufSize := by
        rw [Nat.zero_add, List.length_append]
        exact hfits
      simp only [printChecked_eq ioBufSize_pred_fits, Option.bind_eq_bind, Option.bind_some]
      show (writeChecked (t.buf.write 0 (tooLong ++ [0]) hfits₀)
        (Int32.ofNat tooLong.length).toUInt32.toNat [0]).bind _ = _
      rw [hlen, writeChecked_of_le hfits, write_again, Option.bind_some]
      rfl
    · rename_i hle
      have hlen : (response.data.read response.len.toNat).length = response.len.toNat :=
        length_read_of_le hle
      have hread : readChecked response.data response.len.toNat =
          some (response.data.read response.len.toNat) :=
        if_pos ((Nat.not_lt.1 hle).trans (by decide))
      simp only [hread, Option.bind_eq_bind, Option.bind_some]
      exact writeChecked_terminated hlen (data_fits hle) _
  split
  · simp only [printChecked_eq ioBufSize_fits, Option.bind_eq_bind, Option.bind_some]
  split
  · simp only [printChecked_eq ioBufSize_fits, Option.bind_eq_bind, Option.bind_some]
  · simp only [printChecked_eq ioBufSize_fits, Option.bind_eq_bind, Option.bind_some]

lemma answered_eq {s : List UInt8} {e : Int32} (hs : replyText response = s) (he : replyErr response = e)
    (h : 0 + (s ++ [0]).length ≤ ioBufSize) (t : Transaction) : answered response t =
      { t with len := Int32.ofNat s.length, buf := t.buf.write 0 (s ++ [0]) h, err := e, valid := true } := by
  subst hs he
  rfl

/-- **What a reply leaves** in a transaction is determined by the reply. -/
theorem complete_eq (h0 : response.type ≠ resOk) (h1 : response.type ≠ resNVars) (t : Transaction) :
    complete response t = answered response t := by
  have hfits := replyText_fits response
  unfold complete
  rw [if_neg h0, if_neg h1]
  by_cases h2 : response.type = resRdVal ∨ response.type = resRdMin ∨ response.type = resRdMax
  · have hs : replyText response = (decimal response.val.toInt ++ [10]).take (ioBufSize - 1) := by
      unfold replyText
      rw [if_pos h2]
    have he : replyErr response = 0 := by
      unfold replyErr
      rw [if_pos (.inr h2)]
    rw [if_pos h2, answered_eq hs he (hs ▸ hfits)]
    rfl
  have h02 : ¬ (response.type = resOk ∨ response.type = resRdVal ∨ response.type = resRdMin ∨
      response.type = resRdMax) := fun h => h.elim h0 h2
  rw [if_neg h2]
  by_cases h3 : response.type = resName ∨ response.type = resDesc
  · rw [if_pos h3]
    by_cases hl : response.len.toNat > ioBufSize - 1
    · have hs : replyText response = tooLong := by
        unfold replyText
        rw [if_neg h2, if_pos h3, if_pos hl]
      have he : replyErr response = -einval := by
        unfold replyErr
        rw [if_neg h02, if_pos h3, if_pos hl]
      rw [dif_pos hl, answered_eq hs he (hs ▸ hfits)]
      rfl
    · have hs : replyText response = response.data.read response.len.toNat := by
        unfold replyText
        rw [if_neg h2, if_pos h3, if_neg hl]
      have he : replyErr response = 0 := by
        unfold replyErr
        rw [if_neg h02, if_pos h3, if_neg hl]
      rw [dif_neg hl, answered_eq hs he (hs ▸ hfits), length_read_of_le hl, ofNat_toNat]
  rw [if_neg h3]
  by_cases h4 : response.type = resIdErr
  · have hs : replyText response = (ascii "received ID error for id " ++ decimal response.ind.toInt ++
        ascii " in msg nr " ++ decimalU32 response.seq ++ [10]).take (ioBufSize - 1) := by
      unfold replyText
      rw [if_neg h2, if_neg h3, if_pos h4]
    have he : replyErr response = response.type.toInt32 := by
      unfold replyErr
      rw [if_neg h02, if_neg h3, if_pos (.inl h4)]
    rw [if_pos h4, answered_eq hs he (hs ▸ hfits)]
    rfl
  rw [if_neg h4]
  by_cases h5 : response.type = resReqErr
  · have hs : replyText response = (ascii "received request error for msg nr " ++
        decimalU32 response.seq ++ [10]).take (ioBufSize - 1) := by
      unfold replyText
      rw [if_neg h2, if_neg h3, if_neg h4, if_pos h5]
    have he : replyErr response = response.type.toInt32 := by
      unfold replyErr
      rw [if_neg h02, if_neg h3, if_pos (.inr h5)]
    rw [if_pos h5, answered_eq hs he (hs ▸ hfits)]
    rfl
  · have hs : replyText response = (ascii "unknonw type " ++ decimal response.ind.toInt ++
        ascii " in msg nr " ++ decimalU32 response.seq ++ [10]).take (ioBufSize - 1) := by
      unfold replyText
      rw [if_neg h2, if_neg h3, if_neg h4, if_neg h5]
    have he : replyErr response = -1 := by
      unfold replyErr
      rw [if_neg h02, if_neg h3, if_neg fun h => h.elim h4 h5]
    rw [if_neg h5, answered_eq hs he (hs ▸ hfits)]
    rfl

/-! ### The buffer after a reply -/

/-- The buffer of a transaction after a reply: its text, the first `len` bytes, was written by the
reply, and what the calls on the file use is this text. -/
structure Sound (response : CfgMsg) (x y : Transaction) : Prop where
  valid : y.valid = true
  nonneg : 0 ≤ y.len.toInt
  lt : y.len.toInt ≤ ioBufSize - 1
  written : ∃ out : List UInt8, ∃ h : 0 + out.length ≤ ioBufSize, y.len.toInt ≤ out.length ∧
    y.buf = x.buf.write 0 out h ∧ ∀ x', (complete response x').buf = x'.buf.write 0 out h
  terminated : response.type ≠ resOk → response.type ≠ resNVars →
    y.buf.bytes[y.len.toInt.toNat]? = some 0
  read : ∀ count ppos uncopied,
    simpleReadFromBuffer count ppos y.buf.bytes y.len.toUInt32.toNat uncopied =
      simpleReadFromBuffer count ppos (y.buf.read y.len.toInt.toNat) y.len.toInt.toNat uncopied
  name : response.type ≠ resOk → response.type ≠ resNVars →
    cstr y.buf.bytes = cstr (y.buf.read y.len.toInt.toNat)
  ends : 0 ∈ x.buf.bytes → 0 ∈ y.buf.bytes

variable {x y : Transaction} {n : ℕ}

lemma bytes_write_zero (b : Buf n) {s : List UInt8} (h : 0 + s.length ≤ n) :
    (b.write 0 s h).bytes = s ++ b.bytes.drop s.length := by
  simp [Buf.write]

lemma cstr_append (s bs : List UInt8) : cstr (s ++ 0 :: bs) = cstr s := by
  induction s with
  | nil => simp [cstr]
  | cons b s ih =>
    unfold cstr at ih ⊢
    rw [List.cons_append, List.takeWhile_cons, List.takeWhile_cons, ih]

lemma read_of_len (hn : n ≤ ioBufSize - 1) (hlen : y.len = Int32.ofNat n) (count : ℕ) (ppos : ℤ)
    (uncopied : ℕ) : simpleReadFromBuffer count ppos y.buf.bytes y.len.toUInt32.toNat uncopied =
      simpleReadFromBuffer count ppos (y.buf.read n) n uncopied := by
  have hread : (y.buf.read n).length = n := by
    rw [Buf.length_read]
    exact min_eq_left (hn.trans (by decide))
  have htake : y.buf.bytes.take (y.buf.read n).length = y.buf.read n := by
    rw [hread]
    rfl
  have h := simpleReadFromBuffer_take htake count ppos uncopied
  rw [hread] at h
  rw [hlen, toNat_ofNat hn]
  exact h

lemma sound_of_empty (hlen : y.len = 0) (hbuf : y.buf = x.buf) (hvalid : y.valid = true)
    (hkeep : ∀ x', (complete response x').buf = x'.buf)
    (ht : response.type = resOk ∨ response.type = resNVars) : Sound response x y := by
  have hzero : y.len.toInt = 0 := by
    rw [hlen]
    rfl
  have hempty : ∀ b : Buf ioBufSize, b.write 0 [] (by decide) = b := fun b => by
    ext1
    rw [bytes_write_zero]
    rfl
  refine ⟨hvalid, hzero.ge, by rw [hzero]; decide, ⟨[], by decide, hzero.le, ?_, fun x' => ?_⟩, ?_, ?_, ?_, ?_⟩
  · rw [hempty, hbuf]
  · rw [hempty, hkeep]
  · exact fun h0 h1 => (ht.elim h0 h1).elim
  · rw [hzero]
    exact read_of_len (Nat.zero_le _) hlen
  · exact fun h0 h1 => (ht.elim h0 h1).elim
  · exact fun h => hbuf ▸ h

lemma sound_answered (h0 : response.type ≠ resOk) (h1 : response.type ≠ resNVars) (x : Transaction) :
    Sound response x (complete response x) := by
  have hle := length_replyText_le response
  have hc := complete_eq h0 h1 x
  generalize complete response x = y at hc ⊢
  subst hc
  have hlen : (answered response x).len.toInt = (replyText response).length := toInt_ofNat hle
  have hbytes : (answered response x).buf.bytes =
      replyText response ++ 0 :: x.buf.bytes.drop (replyText response ++ [0]).length := by
    show (x.buf.write 0 _ (replyText_fits response)).bytes = _
    rw [bytes_write_zero, List.append_assoc]
    rfl
  have hread : (answered response x).buf.read (replyText response).length = replyText response := by
    unfold Buf.read
    rw [hbytes, List.take_left' rfl]
  refine ⟨rfl, by rw [hlen]; exact Int.natCast_nonneg _, ?_, ?_, fun _ _ => ?_, ?_, fun _ _ => ?_, fun _ => ?_⟩
  · rw [hlen]
    exact Int.ofNat_le.2 hle
  · refine ⟨replyText response ++ [0], replyText_fits response, ?_, rfl, fun x' => ?_⟩
    · rw [hlen, List.length_append]
      exact Int.ofNat_le.2 (Nat.le_add_right _ _)
    · rw [complete_eq h0 h1]
      rfl
  · rw [hlen, hbytes, Int.toNat_natCast, List.getElem?_append_right le_rfl, Nat.sub_self]
    rfl
  · rw [hlen, Int.toNat_natCast]
    exact read_of_len hle rfl
  · rw [hlen, Int.toNat_natCast, hread, hbytes]
    exact cstr_append _ _
  · rw [hbytes]
    exact List.mem_append_right _ List.mem_cons_self

/-- **The buffer is sound** after every reply. -/
theorem sound_complete (response : CfgMsg) (x : Transaction) : Sound response x (complete response x) := by
  by_cases h0 : response.type = resOk
  · have hc : ∀ x', complete response x' = { x' with len := 0, valid := true, err := 0 } := fun x' => by
      unfold complete
      rw [if_pos h0]
    refine sound_of_empty ?_ ?_ ?_ (fun x' => ?_) (.inl h0)
    all_goals rw [hc]
  by_cases h1 : response.type = resNVars
  · have hc : ∀ x', complete response x' = { x' with len := 0, valid := true } := fun x' => by
      unfold complete
      rw [if_neg h0, if_pos h1]
    refine sound_of_empty ?_ ?_ ?_ (fun x' => ?_) (.inr h1)
    all_goals rw [hc]
  exact sound_answered h0 h1 x

end Reply

/-! ### Every message -/

lemma rpmsgCbChecked_eq (data : List UInt8) (s : Link) :
    rpmsgCbChecked data s = some (s.rpmsgCb data) := by
  unfold rpmsgCbChecked rpmsgCb
  cases CfgMsg.received data with
  | none => rfl
  | some response =>
    dsimp only
    cases s.pendingList.find? fun t => (s.trans t).msgSeqNr = response.seq with
    | none => rfl
    | some t =>
      dsimp only
      rw [completeChecked_eq]
      rfl

/-- **A message cannot break a transaction**: whatever was delivered, `cfg_mgmt_rpmsg_cb` stays inside
of the message and of the buffer, and either changes nothing or leaves a sound buffer in the transaction
with the number of the message. -/
theorem rpmsgCb_sound (data : List UInt8) (s : Link) :
    rpmsgCbChecked data s = some (s.rpmsgCb data) ∧
    ((∃ response, CfgMsg.received data = some response ∧ ∃ t ∈ s.pendingList,
        (s.trans t).msgSeqNr = response.seq ∧ s.rpmsgCb data = s.settle response t ∧
          Sound response (s.trans t) ((s.rpmsgCb data).trans t)) ∨
      (∀ response, CfgMsg.received data = some response → ∀ t ∈ s.pendingList,
        (s.trans t).msgSeqNr ≠ response.seq) ∧ s.rpmsgCb data = s) := by
  refine ⟨rpmsgCbChecked_eq data s, ?_⟩
  rcases rpmsgCb_cases data s with ⟨response, hr, t, ht, hseq, e⟩ | h
  · refine .inl ⟨response, hr, t, ht, hseq, e, ?_⟩
    have htrans : (s.rpmsgCb data).trans t = complete response (s.trans t) := by
      rw [e]
      exact Function.update_self ..
    rw [htrans]
    exact sound_complete response (s.trans t)
  · exact .inr h

end CfgMgmt.Kernel.Completion
