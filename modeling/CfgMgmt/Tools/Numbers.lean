import CfgMgmt.Kernel.Kstrtol
import CfgMgmt.Kernel.RpmsgLink
import CfgMgmt.Tools.Clist

/-!
# The numbers that `clist` shows

A number is printed by the kernel module with a newline, and read by `clist` into a buffer that has no
room for the newline of the longest ones.  What is in the buffer in the end is the number
(`number_shown`).
-/

namespace CfgMgmt.Tools.Numbers

open CfgMgmt.Lib.Bytes CfgMgmt.Msg CfgMgmt.Kernel.Linux CfgMgmt.Kernel.RpmsgLink CfgMgmt.Tools.Clist

/-! ### The file of a text -/

section File

variable {text src : List UInt8} {count pos uncopied : ℕ} {data : List UInt8}

/-- What `simple_read_from_buffer` returns at a position that is not negative. -/
lemma simpleRead_eq (hsrc : src.take text.length = text)
    (h : (simpleReadFromBuffer count pos src text.length uncopied).1 = .ok data) :
    (text.length ≤ pos ∨ count = 0) ∧ data = [] ∨
      ∃ m, 0 < m ∧ m ≤ count ∧ pos + m ≤ text.length ∧ data = (text.drop pos).take m := by
  rw [simpleReadFromBuffer_take hsrc] at h
  unfold simpleReadFromBuffer at h
  rw [if_neg (Int.not_lt.2 (Int.natCast_nonneg pos)), Int.toNat_natCast] at h
  dsimp only at h
  split at h
  · rename_i hend
    exact .inl ⟨hend, (Except.ok.inj h).symm⟩
  · split at h
    · cases h
    · refine .inr ⟨_, ?_, ?_, ?_, (Except.ok.inj h).symm⟩ <;> omega

lemma isPrefix_simpleRead (hsrc : src.take text.length = text)
    (h : (simpleReadFromBuffer count pos src text.length uncopied).1 = .ok data) :
    data <+: (text.drop pos).take count := by
  rcases simpleRead_eq hsrc h with ⟨-, rfl⟩ | ⟨m, -, hm, -, rfl⟩
  · exact List.nil_prefix
  · exact List.take_prefix_take_left hm

lemma ends_simpleRead (hsrc : src.take text.length = text)
    (h : (simpleReadFromBuffer count pos src text.length uncopied).1 = .ok []) :
    count = 0 ∨ text.length ≤ pos := by
  rcases simpleRead_eq hsrc h with ⟨hend, -⟩ | ⟨m, hpos, -, hm, hnil⟩
  · exact hend.symm
  · rcases List.take_eq_nil_iff.1 hnil.symm with h0 | hdrop
    · omega
    · exact .inr (List.drop_eq_nil_iff.1 hdrop)

/-- The struct holds a text. -/
structure HoldsText (t : Transaction) (text : List UInt8) : Prop where
  len : t.len.toUInt32.toNat = text.length
  buf : t.buf.bytes.take text.length = text

/-- One call of `read` for the text of a struct, in which `uncopied` bytes cannot be copied. -/
def readText (t : Transaction) (uncopied : ℕ) (pos count : ℕ) : Option (List UInt8) :=
  match (simpleReadFromBuffer count pos t.buf.bytes t.len.toUInt32.toNat uncopied).1 with
  | .ok data => some data
  | .error _ => none

lemma readText_eq_some {t : Transaction} (ht : HoldsText t text) :
    readText t uncopied pos count = some data ↔
      (simpleReadFromBuffer count pos t.buf.bytes text.length uncopied).1 = .ok data := by
  unfold readText
  rw [ht.len]
  cases (simpleReadFromBuffer count pos t.buf.bytes text.length uncopied).1 <;> simp

lemma readText_zero_ne_none (t : Transaction) (pos count : ℕ) : readText t 0 pos count ≠ none := by
  unfold readText simpleReadFromBuffer
  rw [if_neg (Int.not_lt.2 (Int.natCast_nonneg pos)), Int.toNat_natCast]
  dsimp only
  split_ifs
  · nofun
  · omega
  · nofun

/-- The file of a variable whose struct holds a text. -/
def textFile {t : Transaction} (ht : HoldsText t text) (uncopied : ℕ → ℕ) : OpenFile text where
  read round pos count := readText t (uncopied round) pos count
  isPrefix h := isPrefix_simpleRead ht.buf ((readText_eq_some ht).1 h)
  ends h := ends_simpleRead ht.buf ((readText_eq_some ht).1 h)

end File

/-! ### Numbers -/

/-- `RES_RD_VAL`, `RES_RD_MIN` and `RES_RD_MAX`. -/
def IsNumber (response : CfgMsg) : Prop :=
  response.type = resRdVal ∨ response.type = resRdMin ∨ response.type = resRdMax

/-- What `cfg_mgmt_rpmsg_cb` prints for a number. -/
def numberText (v : Int32) : List UInt8 := decimal v.toInt ++ [10]

lemma holdsText_number {response : CfgMsg} (h : IsNumber response) (x : Transaction) :
    HoldsText (Link.complete response x) (numberText response.val) := by
  have hlen : (numberText response.val).length < ioBufSize := by
    unfold numberText
    rw [List.length_append, List.length_singleton]
    exact (Nat.add_le_add_right (Kernel.Kstrtol.length_decimal response.val) 1).trans_lt (by decide)
  obtain ⟨hl, hb⟩ := Link.holds_printText x hlen
  rw [Link.complete_number x h]
  exact ⟨hl, hb⟩

lemma withoutNewline_number (v : Int32) :
    withoutNewline ((numberText v).take (maxNumericLen - 1)) = decimal v.toInt := by
  have hlen := Kernel.Kstrtol.length_decimal v
  have hlast : (decimal v.toInt).getLast? ≠ some 10 := fun h =>
    absurd (Kernel.Kstrtol.le_of_mem_decimal (List.mem_of_getLast? h)) (by decide)
  have hmax : maxNumericLen - 1 = 11 := rfl
  unfold numberText withoutNewline
  rw [hmax]
  rcases Nat.lt_or_eq_of_le hlen with hlt | heq
  · rw [List.take_of_length_le (by rw [List.length_append, List.length_singleton]; omega)]
    simp
  · rw [List.take_left' heq, if_neg hlast]

/-- **`clist` shows every number in full**: unless a call of `read` fails, the string in the buffer is the
number in decimal, and different numbers are different strings. -/
theorem number_shown {response : CfgMsg} (h : IsNumber response) (x : Transaction) (uncopied : ℕ → ℕ)
    (buf : Buf maxNumericLen) :
    (∃ ret buf', readFd (textFile (holdsText_number h x) uncopied) buf = some (ret, buf') ∧
      (ret < 0 → ∃ round pos, (textFile (holdsText_number h x) uncopied).read round pos
        (maxNumericLen - 1 - pos) = none) ∧
      (0 ≤ ret → cstr buf'.bytes = decimal response.val.toInt)) ∧
    ∀ v w : Int32, decimal v.toInt = decimal w.toInt → v = w := by
  refine ⟨?_, fun v w => Kernel.Kstrtol.decimal_injective⟩
  have hne : numberText response.val ≠ [] := by simp [numberText]
  have hloaded : Loaded _ (readFd (textFile (holdsText_number h x) uncopied) buf) :=
    (readFd_loaded_iff (by decide)).2 (.inr ⟨hne, by decide⟩)
  obtain ⟨ret, buf', hrun⟩ := hloaded.returns
  refine ⟨ret, buf', hrun, hloaded.fails ret buf' hrun, fun hret => ?_⟩
  obtain ⟨rest, hrest⟩ := hloaded.text ret buf' hrun hret
  rw [withoutNewline_number, List.append_assoc] at hrest
  rw [← hrest]
  exact cstr_append_zero (Kernel.Kstrtol.zero_notMem_decimal _) rest

/-- The reply with the smallest number, whose text has as many characters as the buffer. -/
def smallest : CfgMsg := { CfgMsg.zero with type := resRdMin, val := Int32.minValue }

/-- The smallest number is shown. -/
theorem smallest_shown : ∃ ret buf',
    readFd (textFile (holdsText_number (.inr (.inl rfl) : IsNumber smallest) .zero) fun _ => 0)
      (Buf.zero maxNumericLen) = some (ret, buf') ∧
    cstr buf'.bytes = decimal (-2147483648) := by
  obtain ⟨ret, buf', hrun, hfails, hshown⟩ :=
    (number_shown (.inr (.inl rfl) : IsNumber smallest) .zero (fun _ => 0) (Buf.zero maxNumericLen)).1
  refine ⟨ret, buf', hrun, hshown (Int.not_lt.1 fun hneg => ?_)⟩
  obtain ⟨round, pos, hread⟩ := hfails hneg
  exact readText_zero_ne_none _ _ _ hread

end CfgMgmt.Tools.Numbers
