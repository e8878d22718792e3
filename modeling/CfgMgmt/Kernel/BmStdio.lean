import CfgMgmt.Kernel.Linux

/-!
# The standard input and output on the side of the kernel (`bm_stdio.c`)

Messages of the firmware are put into a FIFO of the kernel, from which processes read.  What a process
writes is sent to the firmware in chunks; the loop that does it counts the whole buffer after the first
of them (`transmits_iff`).
-/

namespace CfgMgmt.Kernel.BmStdio

open CfgMgmt.Lib.Bytes CfgMgmt.Msg CfgMgmt.Kernel.Linux

/-- The size of `bm2lin_fifo`. -/
abbrev fifoSize : ℕ := 64 * 1024

/-! ### The FIFO of Linux -/

/-- `kfifo_in`: what does not fit is lost. -/
def kfifoIn (fifo data : List UInt8) : List UInt8 := fifo ++ data.take (fifoSize - fifo.length)

/-- `kfifo_to_user`: the result, the bytes that arrive in the process, and the FIFO.  What is copied is
taken out of the FIFO, also when not all of it can be copied. -/
def kfifoToUser (fifo : List UInt8) (len uncopied : ℕ) : Int32 × List UInt8 × List UInt8 :=
  let len := min len fifo.length
  let copied := len - uncopied
  (if copied < len then -efault else 0, fifo.take copied, fifo.drop copied)

/-! ### The functions of the module -/

abbrev txBufSize : ℕ := 256

/-- `bm_stdio_rpmsg_cb`, for the data area of the received buffer: the buffer and the FIFO.  A 0 that is
stored behind the buffer is `none`. -/
def bmStdioRpmsgCb (data : Buf dataLenMax) (len : ℕ) (fifo : List UInt8) :
    Option (Buf dataLenMax × List UInt8) :=
  if h : len < dataLenMax then
    let data := data.write len [0] h
    some (data, kfifoIn fifo (data.read len))
  else none

/-- `dev_read`: the result, the bytes that arrive in the process, and the FIFO. -/
def devRead (fifo : List UInt8) (len uncopied : ℕ) : Int32 × List UInt8 × List UInt8 :=
  let (ret, copied, fifo) := kfifoToUser fifo len uncopied
  if ret < 0 then (ret, copied, fifo) else (Int32.ofNat copied.length, copied, fifo)

/-- The length of the next chunk in `dev_write`. -/
def chunkLen (len copied : ℕ) : ℕ := if len - copied > txBufSize then txBufSize else len - copied

lemma chunk_fits (buf : List UInt8) (len copied uncopied : ℕ) :
    0 + (copyFromUser (buf.take (chunkLen len copied)) uncopied).length ≤ txBufSize := by
  rw [length_copyFromUser, List.length_take]
  unfold chunkLen
  split <;> omega

/-- The loop of `dev_write`, for the memory `buf` of the process: the result, `tx_buf`, and the messages it
has sent.  In the round `i`, `copy_from_user` cannot copy `uncopied i` bytes, and `rpmsg_send` returns
`send i`. -/
def devWriteLoop (buf : List UInt8) (uncopied : ℕ → ℕ) (send : ℕ → Int32) (i copied : ℕ)
    (txBuf : Buf txBufSize) (sent : List (List UInt8)) : Int32 × Buf txBufSize × List (List UInt8) :=
  if copied < buf.length then
    let n := chunkLen buf.length copied
    -- the chunk is always taken from the start of the buffer
    let txBuf := txBuf.write 0 (copyFromUser (buf.take n) (uncopied i))
      (chunk_fits buf buf.length copied (uncopied i))
    if min (uncopied i) n ≠ 0 then
      (-1, txBuf, sent)
    else if send i ≠ 0 then
      (send i, txBuf, sent)
    else
      devWriteLoop buf uncopied send (i + 1) (copied + buf.length) txBuf (sent ++ [txBuf.read n])
  else
    (Int32.ofNat copied, txBuf, sent)
termination_by buf.length - copied

def devWrite (buf : List UInt8) (uncopied : ℕ → ℕ) (send : ℕ → Int32) (txBuf : Buf txBufSize) :
    Int32 × Buf txBufSize × List (List UInt8) :=
  devWriteLoop buf uncopied send 0 0 txBuf []

/-! ### What they do -/

lemma kfifoIn_of_fits {fifo data : List UInt8} (h : fifo.length + data.length ≤ fifoSize) :
    kfifoIn fifo data = fifo ++ data := by
  unfold kfifoIn
  rw [List.take_of_length_le (by omega)]

lemma bmStdioRpmsgCb_of_lt (data : Buf dataLenMax) {len : ℕ} (h : len < dataLenMax)
    (fifo : List UInt8) :
    ∃ data', bmStdioRpmsgCb data len fifo = some (data', kfifoIn fifo (data.read len)) := by
  refine ⟨data.write len [0] h, ?_⟩
  have hread : (data.write len [0] h).read len = data.read len := by
    have hlen : len ≤ data.bytes.length := by
      rw [data.size]
      exact h.le
    simp [Buf.read, Buf.write, List.append_assoc, hlen]
  unfold bmStdioRpmsgCb
  rw [dif_pos h]
  simp only [hread]

/-- **A read takes bytes out of the FIFO and hands them over**, none is lost or repeated. -/
theorem devRead_conserves (fifo : List UInt8) (len uncopied : ℕ) :
    (devRead fifo len uncopied).2.1 ++ (devRead fifo len uncopied).2.2 = fifo := by
  have h : (devRead fifo len uncopied).2 = (kfifoToUser fifo len uncopied).2 := by
    unfold devRead
    dsimp only
    split <;> rfl
  rw [h]
  exact List.take_append_drop _ fifo

/-- A read returns the number of the bytes it hands over, or that it has failed. -/
lemma devRead_ret (fifo : List UInt8) (len uncopied : ℕ) : (devRead fifo len uncopied).1 = -efault ∨
    (devRead fifo len uncopied).1 = Int32.ofNat (devRead fifo len uncopied).2.1.length := by
  unfold devRead kfifoToUser
  dsimp only
  by_cases hc : min len fifo.length - uncopied < min len fifo.length
  · rw [if_pos hc, if_pos (by decide)]
    exact .inl rfl
  · rw [if_neg hc, if_neg (by decide)]
    exact .inr rfl

lemma devRead_length (fifo : List UInt8) (len uncopied : ℕ) :
    (devRead fifo len uncopied).2.1.length ≤ fifo.length ∧
      (devRead fifo len uncopied).2.2.length ≤ fifo.length := by
  have hsum := congrArg List.length (devRead_conserves fifo len uncopied)
  rw [List.length_append] at hsum
  omega

lemma length_kfifoIn {fifo data : List UInt8} (h : fifo.length ≤ fifoSize) :
    (kfifoIn fifo data).length ≤ fifoSize := by
  unfold kfifoIn
  rw [List.length_append, List.length_take]
  omega

/-! ### What `dev_write` sends -/

/-- The messages are the bytes of the buffer, in order, and they are counted in the result. -/
structure Transmits (buf : List UInt8) (ret : Int32) (sent : List (List UInt8)) : Prop where
  count : ret.toInt = buf.length
  chunks : ∀ msg ∈ sent, msg.length ≤ txBufSize
  bytes : sent.flatten = buf

section DevWrite

variable (buf : List UInt8) (txBuf : Buf txBufSize)

lemma take_chunkLen : buf.take (chunkLen buf.length 0) = buf.take txBufSize := by
  unfold chunkLen
  split
  · rfl
  · rw [List.take_of_length_le (by omega), List.take_of_length_le (by omega)]

/-- The first round counts the whole buffer, so that there is no second one. -/
lemma devWrite_eq :
    (devWrite buf (fun _ => 0) (fun _ => 0) txBuf).1 = Int32.ofNat buf.length ∧
      (devWrite buf (fun _ => 0) (fun _ => 0) txBuf).2.2 =
        if buf = [] then [] else [buf.take txBufSize] := by
  unfold devWrite
  rw [devWriteLoop]
  by_cases hb : buf = []
  · subst hb
    exact ⟨rfl, rfl⟩
  · have hpos : 0 < buf.length := List.length_pos_iff.2 hb
    have hread : ∀ h, (txBuf.write 0 (copyFromUser (buf.take (chunkLen buf.length 0)) 0) h).read
        (chunkLen buf.length 0) = buf.take txBufSize := by
      intro h
      rw [Buf.read_write_zero _ _ h, copyFromUser_zero, take_chunkLen]
      rw [length_copyFromUser, List.length_take]
      unfold chunkLen
      split <;> omega
    simp only [if_pos hpos, Nat.zero_min, ne_eq, not_true_eq_false, if_false, hread, if_neg hb]
    rw [devWriteLoop, Nat.zero_add, if_neg (lt_irrefl _)]
    exact ⟨rfl, rfl⟩

end DevWrite

/-- **`dev_write` transmits the bytes of the process**, when it returns a count, as long as they fit into
one chunk.  From `2 ^ 31` bytes on, what it returns is negative. -/
theorem transmits_iff {buf : List UInt8} (h : buf.length < 2 ^ 32) (txBuf : Buf txBufSize) :
    (0 ≤ (devWrite buf (fun _ => 0) (fun _ => 0) txBuf).1 →
      Transmits buf (devWrite buf (fun _ => 0) (fun _ => 0) txBuf).1
        (devWrite buf (fun _ => 0) (fun _ => 0) txBuf).2.2) ↔
      buf.length ≤ txBufSize ∨ 2 ^ 31 ≤ buf.length := by
  obtain ⟨hret, hsent⟩ := devWrite_eq buf txBuf
  rw [hret, hsent]
  rcases Nat.lt_or_ge buf.length (2 ^ 31) with hlt | hge
  · have hcount : (Int32.ofNat buf.length).toInt = buf.length := Int32.toInt_ofNat_of_lt hlt
    have hnonneg : (0 : Int32) ≤ Int32.ofNat buf.length := by
      rw [Int32.le_iff_toInt_le, hcount]
      exact Int.natCast_nonneg _
    rw [or_iff_left hlt.not_ge]
    constructor
    · intro ht
      have hbytes := (ht hnonneg).bytes
      by_cases hb : buf = []
      · rw [hb]
        exact Nat.zero_le _
      · rw [if_neg hb, List.flatten_singleton] at hbytes
        have hlen := congrArg List.length hbytes
        rw [List.length_take] at hlen
        omega
    · intro hle _
      refine ⟨hcount, fun msg hmsg => ?_, ?_⟩
      · split at hmsg
        · cases hmsg
        · rw [List.mem_singleton.1 hmsg, List.length_take]
          exact min_le_left _ _
      · split
        · rename_i hb
          exact hb.symm
        · rw [List.flatten_singleton, List.take_of_length_le hle]
  · have hneg : ¬ (0 : Int32) ≤ Int32.ofNat buf.length := by
      have h0 : (0 : Int32).toInt = 0 := rfl
      have hsize : Int32.size = 2 ^ 32 := rfl
      rw [Int32.le_iff_toInt_le, Int32.toInt_ofNat', h0, Int.bmod_def, hsize]
      split <;> omega
    exact iff_of_true (fun h0 => absurd h0 hneg) (.inr hge)

/-- A command of three bytes is transmitted. -/
theorem command_transmitted : Transmits [108, 115, 10]
    (devWrite [108, 115, 10] (fun _ => 0) (fun _ => 0) (.zero _)).1
    (devWrite [108, 115, 10] (fun _ => 0) (fun _ => 0) (.zero _)).2.2 := by
  refine (transmits_iff (by decide) (.zero _)).2 (.inl (by decide)) ?_
  rw [(devWrite_eq [108, 115, 10] (.zero _)).1]
  decide

/-- A line of 257 characters. -/
def longLine : List UInt8 := List.replicate 257 65

/-- Its last character is lost, but counted. -/
theorem longLine_lost : (devWrite longLine (fun _ => 0) (fun _ => 0) (.zero _)).1 = 257 ∧
    ¬ Transmits longLine (devWrite longLine (fun _ => 0) (fun _ => 0) (.zero _)).1
      (devWrite longLine (fun _ => 0) (fun _ => 0) (.zero _)).2.2 := by
  refine ⟨?_, fun h => ?_⟩
  · rw [(devWrite_eq _ _).1, longLine, List.length_replicate]
    rfl
  · have hbytes := h.bytes
    rw [(devWrite_eq _ _).2] at hbytes
    exact absurd (congrArg List.length hbytes) (by decide +kernel)

end CfgMgmt.Kernel.BmStdio
