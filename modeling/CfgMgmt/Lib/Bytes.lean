import Mathlib.Data.List.TakeWhile
import Mathlib.Data.Nat.Digits.Defs
import Mathlib.Tactic.Ring
import Mathlib.Tactic.Common

/-!
# Bytes: little-endian words, fixed buffers and C strings

The layout of packed C structs on a little-endian machine: a word is its bytes, least significant
first, and a struct is the concatenation of its members.  A buffer carries its size, and a write to
it carries the proof that it stays inside.
-/

namespace CfgMgmt.Lib.Bytes

/-! ### Words -/

/-- The `w` low bytes of `n`, least significant first. -/
def leBytes : ℕ → ℕ → List UInt8
  | 0, _ => []
  | w + 1, n => UInt8.ofNat n :: leBytes w (n / 256)

/-- The number with the given bytes, least significant first. -/
def ofLeBytes : List UInt8 → ℕ
  | [] => 0
  | b :: bs => b.toNat + 256 * ofLeBytes bs

@[simp] lemma length_leBytes (w n : ℕ) : (leBytes w n).length = w := by
  induction w generalizing n with
  | zero => rfl
  | succ w ih => simp [leBytes, ih]

lemma ofLeBytes_leBytes (w n : ℕ) : ofLeBytes (leBytes w n) = n % 256 ^ w := by
  induction w generalizing n with
  | zero => simp [leBytes, ofLeBytes, Nat.mod_one]
  | succ w ih =>
    rw [leBytes, ofLeBytes, ih, pow_succ', Nat.mod_mul]
    simp

/-- The four bytes of a `uint32_t`. -/
def u32Bytes (x : UInt32) : List UInt8 := leBytes 4 x.toNat

/-- The two bytes of a `uint16_t`. -/
def u16Bytes (x : UInt16) : List UInt8 := leBytes 2 x.toNat

@[simp] lemma length_u16Bytes (x : UInt16) : (u16Bytes x).length = 2 := length_leBytes ..

def u16At (bs : List UInt8) (off : ℕ) : UInt16 := UInt16.ofNat (ofLeBytes ((bs.drop off).take 2))

/-- The `uint32_t` at an offset of a byte sequence. -/
def u32At (bs : List UInt8) (off : ℕ) : UInt32 := UInt32.ofNat (ofLeBytes ((bs.drop off).take 4))

@[simp] lemma length_u32Bytes (x : UInt32) : (u32Bytes x).length = 4 := length_leBytes ..

/-- A word written between two byte sequences is read back at its offset. -/
theorem u32At_append (pre suf : List UInt8) (x : UInt32) :
    u32At (pre ++ (u32Bytes x ++ suf)) pre.length = x := by
  unfold u32At
  rw [List.drop_left, List.take_left' (length_u32Bytes x), u32Bytes, ofLeBytes_leBytes,
    Nat.mod_eq_of_lt (by simpa using x.toNat_lt), UInt32.ofNat_toNat]

theorem u16At_append (pre suf : List UInt8) (x : UInt16) :
    u16At (pre ++ (u16Bytes x ++ suf)) pre.length = x := by
  unfold u16At
  rw [List.drop_left, List.take_left' (length_u16Bytes x), u16Bytes, ofLeBytes_leBytes,
    Nat.mod_eq_of_lt (by simpa using x.toNat_lt), UInt16.ofNat_toNat]

/-- A word of a prefix is a word of the whole. -/
lemma u32At_of_isPrefix {msg bs : List UInt8} (h : msg <+: bs) {off : ℕ} (hoff : off + 4 ≤ msg.length) :
    u32At bs off = u32At msg off := by
  obtain ⟨rest, rfl⟩ := h
  unfold u32At
  rw [List.drop_append_of_le_length (by omega),
    List.take_append_of_le_length (by rw [List.length_drop]; omega)]

lemma ofLeBytes_inj {l l' : List UInt8} (hlen : l.length = l'.length)
    (h : ofLeBytes l = ofLeBytes l') : l = l' := by
  induction l generalizing l' with
  | nil => exact (List.length_eq_zero_iff.1 hlen.symm).symm
  | cons b bs ih =>
    cases l' with
    | nil => cases hlen
    | cons b' bs' =>
      have hb := b.toNat_lt
      have hb' := b'.toNat_lt
      simp only [ofLeBytes] at h
      simp only [List.length_cons, Nat.add_right_cancel_iff] at hlen
      have hhead : b.toNat = b'.toNat := by omega
      rw [UInt8.toNat_inj.1 hhead, ih hlen (by omega)]

lemma ofLeBytes_lt (l : List UInt8) : ofLeBytes l < 256 ^ l.length := by
  induction l with
  | nil => simp [ofLeBytes]
  | cons b bs ih =>
    have hb := b.toNat_lt
    rw [ofLeBytes, List.length_cons, pow_succ]
    omega

/-- The bytes of a word that is read. -/
lemma getElem?_of_u32At {bs bs' : List UInt8} {off i : ℕ} (h : u32At bs off = u32At bs' off)
    (hl : off + 4 ≤ bs.length) (hl' : off + 4 ≤ bs'.length) (hi : i < 4) :
    bs[off + i]? = bs'[off + i]? := by
  have hlen : ∀ l : List UInt8, off + 4 ≤ l.length → ((l.drop off).take 4).length = 4 := fun l h4 => by
    rw [List.length_take, List.length_drop]
    omega
  have hlt : ∀ l : List UInt8, off + 4 ≤ l.length → ofLeBytes ((l.drop off).take 4) < 2 ^ 32 :=
    fun l h4 => by simpa [hlen l h4] using ofLeBytes_lt ((l.drop off).take 4)
  have heq : ofLeBytes ((bs.drop off).take 4) = ofLeBytes ((bs'.drop off).take 4) := by
    have := congrArg UInt32.toNat h
    rwa [u32At, u32At, UInt32.toNat_ofNat_of_lt' (hlt bs hl), UInt32.toNat_ofNat_of_lt' (hlt bs' hl')]
      at this
  have hword := ofLeBytes_inj ((hlen bs hl).trans (hlen bs' hl').symm) heq
  have hget := congrArg (fun l => l[i]?) hword
  simpa [List.getElem?_take_of_lt hi, List.getElem?_drop] using hget

/-- A small word as a signed number. -/
lemma toInt_toInt32 {x : UInt32} (h : x.toNat < 2 ^ 31) : x.toInt32.toInt = x.toNat :=
  BitVec.toInt_eq_toNat_of_lt (by rw [UInt32.toBitVec_toInt32, UInt32.toNat_toBitVec]; omega)

/-! ### Buffers -/

/-- A buffer of `n` bytes. -/
structure Buf (n : ℕ) where
  bytes : List UInt8
  size : bytes.length = n
  deriving DecidableEq

namespace Buf

variable {n : ℕ}

@[ext] lemma ext {a b : Buf n} (h : a.bytes = b.bytes) : a = b := by
  cases a; cases b; simp_all

/-- The buffer after `memset(…, 0, …)`. -/
def zero (n : ℕ) : Buf n := ⟨List.replicate n 0, List.length_replicate⟩

instance : Inhabited (Buf n) := ⟨zero n⟩

/-- Copy `src` into the buffer at the offset `off`. -/
def write (b : Buf n) (off : ℕ) (src : List UInt8) (h : off + src.length ≤ n) : Buf n where
  bytes := b.bytes.take off ++ src ++ b.bytes.drop (off + src.length)
  size := by
    have := b.size
    simp only [List.length_append, List.length_take, List.length_drop]
    omega

/-- The first `len` bytes. -/
def read (b : Buf n) (len : ℕ) : List UInt8 := b.bytes.take len

lemma read_write_zero (b : Buf n) (src : List UInt8) (h : 0 + src.length ≤ n) {len : ℕ}
    (hl : src.length = len) : (b.write 0 src h).read len = src := by
  subst hl
  simp [read, write]

/-- What is written behind the bytes that are read is read behind them. -/
lemma read_write (b : Buf n) {off : ℕ} {src : List UInt8} (h : off + src.length ≤ n) :
    (b.write off src h).read (off + src.length) = b.read off ++ src := by
  have htake : (b.bytes.take off ++ src).length = off + src.length := by
    have hsize := b.size
    rw [List.length_append, List.length_take]
    omega
  exact List.take_left' htake

lemma length_read (b : Buf n) (len : ℕ) : (b.read len).length = min len n := by
  simp [read, b.size]

lemma getElem?_write (b : Buf n) {off : ℕ} {src : List UInt8} (h : off + src.length ≤ n) (i : ℕ) :
    (b.write off src h).bytes[i]? =
      if off ≤ i ∧ i < off + src.length then src[i - off]? else b.bytes[i]? := by
  have hsize := b.size
  have htake : (b.bytes.take off).length = off := by
    rw [List.length_take]
    omega
  show (b.bytes.take off ++ src ++ b.bytes.drop (off + src.length))[i]? = _
  rw [List.append_assoc]
  by_cases hi : i < off
  · rw [if_neg (by omega), List.getElem?_append_left (by omega), List.getElem?_take_of_lt hi]
  · rw [List.getElem?_append_right (by omega), htake]
    by_cases hlt : i < off + src.length
    · rw [if_pos (by omega), List.getElem?_append_left (by omega)]
    · rw [if_neg (by omega), List.getElem?_append_right (by omega), List.getElem?_drop]
      congr 1
      omega

end Buf

/-! ### Stores -/

/-- Bytes that are stored at a position of a buffer. -/
structure Store where
  pos : ℕ
  bytes : List UInt8

/-- The byte that a store leaves at the position `i`. -/
def Store.byteAt (i : ℕ) (s : Store) : Option UInt8 :=
  if s.pos ≤ i then s.bytes[i - s.pos]? else none

/-- The last byte stored at the position `i` of a buffer that was cleared before. -/
def lastByte (i : ℕ) (stores : List Store) : UInt8 :=
  ((stores.filterMap (Store.byteAt i)).getLast?).getD 0

/-- The buffer holds what was stored in it. -/
def Buf.Holds {n : ℕ} (b : Buf n) (stores : List Store) : Prop :=
  ∀ i < n, b.bytes[i]? = some (lastByte i stores)

section Stores

variable {n : ℕ} {b : Buf n} {stores : List Store}

lemma lastByte_concat (i : ℕ) (s : Store) :
    lastByte i (stores ++ [s]) = (s.byteAt i).getD (lastByte i stores) := by
  unfold lastByte
  rw [List.filterMap_append]
  cases hs : s.byteAt i with
  | none => rw [List.filterMap_cons_none hs, List.filterMap_nil, List.append_nil, Option.getD_none]
  | some x =>
    rw [List.filterMap_cons_some hs, List.filterMap_nil, List.getLast?_concat, Option.getD_some,
      Option.getD_some]

lemma Buf.holds_zero : (Buf.zero n).Holds [] :=
  fun _ hi => List.getElem?_replicate_of_lt hi

/-- A store that is kept inside of the buffer. -/
lemma Buf.Holds.write (h : b.Holds stores) {off : ℕ} {src : List UInt8} (hfit : off + src.length ≤ n) :
    (b.write off src hfit).Holds (stores ++ [⟨off, src⟩]) := by
  intro i hi
  rw [Buf.getElem?_write, lastByte_concat, Store.byteAt]
  by_cases hin : off ≤ i ∧ i < off + src.length
  · have hlt : i - off < src.length := by omega
    rw [if_pos hin, if_pos hin.1, List.getElem?_eq_getElem hlt, Option.getD_some]
  · rw [if_neg hin, h i hi]
    by_cases hoff : off ≤ i
    · have hge : src.length ≤ i - off := by omega
      rw [if_pos hoff, List.getElem?_eq_none hge, Option.getD_none]
    · rw [if_neg hoff, Option.getD_none]

/-- A store of nothing. -/
lemma Buf.Holds.nothing (h : b.Holds stores) (off : ℕ) : b.Holds (stores ++ [⟨off, []⟩]) := by
  intro i hi
  rw [lastByte_concat, h i hi]
  unfold Store.byteAt
  split <;> rfl

/-- There is a 0 in the buffer exactly if a position was not stored to, or was given a 0 last. -/
lemma Buf.Holds.zero_mem (h : b.Holds stores) : 0 ∈ b.bytes ↔ ∃ i < n, lastByte i stores = 0 := by
  rw [List.mem_iff_getElem?]
  constructor
  · rintro ⟨i, hi⟩
    have hlt : i < n := b.size ▸ (List.getElem?_eq_some_iff.1 hi).1
    exact ⟨i, hlt, Option.some.inj ((h i hlt).symm.trans hi)⟩
  · rintro ⟨i, hlt, h0⟩
    exact ⟨i, (h i hlt).trans (congrArg some h0)⟩

end Stores

/-! ### C strings -/

/-- The string that starts at the first of the given bytes: everything in front of the first 0. -/
def cstr (bs : List UInt8) : List UInt8 := bs.takeWhile (· ≠ 0)

lemma cstr_append_zero {s : List UInt8} (h : 0 ∉ s) (bs : List UInt8) :
    cstr (s ++ 0 :: bs) = s := by
  have hp : ∀ b ∈ s, decide (b ≠ 0) = true := fun b hb => by
    simpa using fun h0 : b = 0 => h (h0 ▸ hb)
  unfold cstr
  rw [List.takeWhile_append_of_pos hp]
  simp

lemma cstr_append_of_mem {s : List UInt8} (h : 0 ∈ s) (bs : List UInt8) : cstr (s ++ bs) = cstr s := by
  induction s with
  | nil => cases h
  | cons b s ih =>
    unfold cstr at ih ⊢
    by_cases hb : b = 0
    · subst hb
      simp
    · have hs : 0 ∈ s := (List.mem_cons.1 h).resolve_left fun e => hb e.symm
      rw [List.cons_append, List.takeWhile_cons_of_pos (by simpa using hb),
        List.takeWhile_cons_of_pos (by simpa using hb), ih hs]

lemma zero_notMem_cstr (bs : List UInt8) : 0 ∉ cstr bs := by
  intro h
  have hp := List.mem_takeWhile_imp h
  simp at hp

/-- Behind a string that does not take all of the bytes there is a 0. -/
lemma eq_cstr_append (bs : List UInt8) : bs = cstr bs ∨ ∃ rest, bs = cstr bs ++ 0 :: rest := by
  induction bs with
  | nil => exact .inl rfl
  | cons b bs ih =>
    unfold cstr at ih ⊢
    by_cases hb : b = 0
    · subst hb
      exact .inr ⟨bs, by simp⟩
    · rw [List.takeWhile_cons_of_pos (by simpa using hb)]
      rcases ih with h | ⟨rest, h⟩
      · exact .inl (congrArg (b :: ·) h)
      · exact .inr ⟨rest, congrArg (b :: ·) h⟩

/-- A C string: its bytes without the terminating 0, none of which is 0. -/
structure CStr where
  bytes : List UInt8
  noNul : 0 ∉ bytes
  deriving DecidableEq

lemma CStr.noNul_nil : (0 : UInt8) ∉ ([] : List UInt8) := List.not_mem_nil

def CStr.empty : CStr := ⟨[], CStr.noNul_nil⟩

/-- `strlen`. -/
def CStr.strlen (s : CStr) : ℕ := s.bytes.length

/-! ### Decimal text -/

/-- The ASCII codes of the decimal digits of a natural number, the most significant first. -/
def decDigits (n : ℕ) : List UInt8 :=
  if n = 0 then [48] else (Nat.digits 10 n).reverse.map fun d => UInt8.ofNat (48 + d)

/-- `%d` of a signed number. -/
def decimal (i : ℤ) : List UInt8 :=
  if i < 0 then 45 :: decDigits i.natAbs else decDigits i.natAbs

end CfgMgmt.Lib.Bytes
