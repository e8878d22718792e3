import CfgMgmt.Msg

/-!
# What the module uses of Linux

Functions of the kernel that are not part of the module, as they are documented: formatted output
into a buffer, and the copying between a buffer and a process.  How many bytes the processor cannot
copy is an argument.
-/

namespace CfgMgmt.Kernel.Linux

open CfgMgmt.Lib.Bytes

/-! ### Error numbers -/

def eagain : Int32 := 11
def enomem : Int32 := 12
def efault : Int32 := 14
def einval : Int32 := 22
def erestartsys : Int32 := 512

/-! ### Text -/

/-- The characters of a format string. -/
def ascii (s : String) : List UInt8 := s.toList.map fun c => UInt8.ofNat c.toNat

/-- `scnprintf`: as much of the text as fits with a terminating 0, and its length. -/
def scnprintf {n : ℕ} (buf : Buf n) (size : ℕ) (h : 0 < size ∧ size ≤ n) (text : List UInt8) :
    ℕ × Buf n :=
  let text := text.take (size - 1)
  (text.length, buf.write 0 (text ++ [0]) (by simp [text]; omega))

/-! ### Copying -/

/-- `simple_read_from_buffer`: the result and the new position. -/
def simpleReadFromBuffer (count : ℕ) (ppos : ℤ) (src : List UInt8) (available uncopied : ℕ) :
    Except Int32 (List UInt8) × ℤ :=
  if ppos < 0 then
    (.error (-einval), ppos)
  else if available ≤ ppos.toNat ∨ count = 0 then
    (.ok [], ppos)
  else
    let count := min count (available - ppos.toNat)
    if count ≤ uncopied then
      (.error (-efault), ppos)
    else
      (.ok ((src.drop ppos.toNat).take (count - uncopied)), ppos + (count - uncopied : ℕ))

lemma simpleReadFromBuffer_take {text src : List UInt8} (h : src.take text.length = text) (count : ℕ)
    (ppos : ℤ) (uncopied : ℕ) : simpleReadFromBuffer count ppos src text.length uncopied =
      simpleReadFromBuffer count ppos text text.length uncopied := by
  have hread : ∀ c ≤ text.length - ppos.toNat,
      (src.drop ppos.toNat).take c = (text.drop ppos.toNat).take c := by
    intro c hc
    have hdrop : text.drop ppos.toNat = (src.drop ppos.toNat).take (text.length - ppos.toNat) := by
      rw [← List.drop_take, h]
    rw [hdrop, List.take_take, min_eq_left hc]
  unfold simpleReadFromBuffer
  dsimp only
  rw [hread _ ((Nat.sub_le _ _).trans (min_le_right _ _))]

/-- A read from the start with enough room returns the whole text. -/
lemma simpleReadFromBuffer_all {text : List UInt8} {count : ℕ} (h : text.length ≤ count) :
    (simpleReadFromBuffer count 0 text text.length 0).1 = .ok text := by
  unfold simpleReadFromBuffer
  rw [if_neg (lt_irrefl 0)]
  have hz : (0 : ℤ).toNat = 0 := rfl
  split
  · rename_i h0
    have hnil : text.length = 0 := by omega
    rw [List.length_eq_zero_iff.1 hnil]
  · rename_i h0
    have hmin : min count (text.length - (0 : ℤ).toNat) = text.length := by omega
    have hpos : ¬ text.length ≤ 0 := by omega
    dsimp only
    rw [hmin, if_neg hpos, hz, List.drop_zero, Nat.sub_zero, List.take_length]

/-- `copy_from_user`: what it could not copy is 0 in the kernel's buffer. -/
def copyFromUser (data : List UInt8) (uncopied : ℕ) : List UInt8 :=
  data.take (data.length - uncopied) ++ List.replicate (min uncopied data.length) 0

@[simp] lemma length_copyFromUser (data : List UInt8) (uncopied : ℕ) :
    (copyFromUser data uncopied).length = data.length := by
  simp [copyFromUser]
  omega

@[simp] lemma copyFromUser_zero (data : List UInt8) : copyFromUser data 0 = data := by
  simp [copyFromUser]

/-- `simple_write_to_buffer`: the result, the new position and the buffer. -/
def simpleWriteToBuffer {n : ℕ} (buf : Buf n) (ppos : ℤ) (data : List UInt8) (uncopied : ℕ) :
    Except Int32 ℕ × ℤ × Buf n :=
  if ppos < 0 then
    (.error (-einval), ppos, buf)
  else if h : ppos.toNat < n ∧ 0 < data.length then
    let data := data.take (n - ppos.toNat)
    let buf := buf.write ppos.toNat (copyFromUser data uncopied) (by simp [data]; omega)
    if data.length ≤ uncopied then
      (.error (-efault), ppos, buf)
    else
      (.ok (data.length - uncopied), ppos + (data.length - uncopied : ℕ), buf)
  else
    (.ok 0, ppos, buf)

end CfgMgmt.Kernel.Linux
