import Mathlib.Data.Nat.Digits.Lemmas
import CfgMgmt.Kernel.Linux

/-!
# `kstrtol`

`kstrtol` of Linux with base 0 and a `long` of 32 bits.  It reads back what `%d\n` prints
(`kstrtol_decimal`), and refuses a text with the byte 1 (`kstrtol_refuses`).
-/

namespace CfgMgmt.Kernel.Kstrtol

open CfgMgmt.Lib.Bytes CfgMgmt.Kernel.Linux

/-! ### Parsing -/

def erange : Int32 := 34

def tolower (c : UInt8) : UInt8 := c ||| 0x20

def digit (base : ℕ) (c : UInt8) : Option ℕ :=
  let val? :=
    if 48 ≤ c ∧ c ≤ 57 then some (c.toNat - 48)
    else if 97 ≤ tolower c ∧ tolower c ≤ 102 then some ((tolower c).toNat - 97 + 10)
    else none
  val?.filter (· < base)

/-- `_parse_integer`: the value of the digits, their number and what follows them. -/
def parseInteger (base : ℕ) : List UInt8 → ℕ → ℕ → ℕ × ℕ × List UInt8
  | [], res, rv => (res, rv, [])
  | c :: s, res, rv =>
    match digit base c with
    | some val => parseInteger base s (res * base + val) (rv + 1)
    | none => (res, rv, c :: s)

/-- `_parse_integer_fixup_radix` with base 0. -/
def fixupRadix (s : List UInt8) : ℕ × List UInt8 :=
  match s with
  | c :: s' =>
    if c = 48 then
      match s' with
      | x :: d :: rest => if tolower x = 120 ∧ (digit 16 d).isSome then (16, d :: rest) else (8, s)
      | _ => (8, s)
    else (10, s)
  | [] => (10, s)

/-- `_kstrtoull`.  The value is not reduced: it has overflown if it is not below `2 ^ 64`. -/
def kstrtoullBare (s : List UInt8) : Except Int32 ℕ :=
  let (base, s) := fixupRadix s
  let (res, rv, s) := parseInteger base s 0 0
  if 2 ^ 64 ≤ res then .error (-erange)
  else if rv = 0 then .error (-einval)
  else
    let s := if s.head? = some 10 then s.tail else s
    if s ≠ [] then .error (-einval) else .ok res

def kstrtoll (s : List UInt8) : Except Int32 ℤ :=
  if s.head? = some 45 then do
    let tmp ← kstrtoullBare s.tail
    if 2 ^ 63 < tmp then .error (-erange) else .ok (-tmp)
  else do
    let tmp ← kstrtoullBare (if s.head? = some 43 then s.tail else s)
    if 2 ^ 63 ≤ tmp then .error (-erange) else .ok tmp

/-- `kstrtol`: the code it returns and the value it stores. -/
def kstrtol (s : List UInt8) : Int32 × Int32 :=
  match kstrtoll s with
  | .error e => (e, 0)
  | .ok tmp => if (Int32.ofInt tmp).toInt = tmp then (0, Int32.ofInt tmp) else (-erange, 0)

/-! ### Reading back a decimal number -/

/-- The code of a decimal digit. -/
def ascii (d : ℕ) : UInt8 := UInt8.ofNat (48 + d)

lemma digit_ascii {d : ℕ} (h : d < 10) : digit 10 (ascii d) = some d := by
  revert d
  decide

lemma ascii_ne_zero {d : ℕ} (h : d < 10) (h0 : d ≠ 0) : ascii d ≠ 48 := by
  revert d
  decide

lemma ascii_ne_minus {d : ℕ} (h : d < 10) : ascii d ≠ 45 ∧ ascii d ≠ 43 := by
  revert d
  decide

lemma parseInteger_digits {ds : List ℕ} (h : ∀ d ∈ ds, d < 10) (res rv : ℕ) :
    parseInteger 10 (ds.map ascii ++ [10]) res rv =
      (ds.foldl (fun r d => r * 10 + d) res, rv + ds.length, [10]) := by
  induction ds generalizing res rv with
  | nil => rfl
  | cons d ds ih =>
    simp only [List.map_cons, List.cons_append, parseInteger, digit_ascii (h d List.mem_cons_self)]
    rw [ih fun e he => h e (List.mem_cons_of_mem _ he)]
    simp only [List.foldl_cons, List.length_cons, Prod.mk.injEq, true_and, and_true]
    omega

lemma foldl_digits (n : ℕ) : (Nat.digits 10 n).reverse.foldl (fun r d => r * 10 + d) 0 = n := by
  have hcomm : (fun (d r : ℕ) => r * 10 + d) = fun d r => d + 10 * r := by
    funext d r
    ring
  rw [List.foldl_reverse, hcomm]
  exact (Nat.ofDigits_eq_foldr 10 (Nat.digits 10 n)).symm.trans (Nat.ofDigits_digits 10 n)

lemma decDigits_of_ne {n : ℕ} (h : n ≠ 0) : decDigits n = (Nat.digits 10 n).reverse.map ascii := by
  unfold decDigits
  rw [if_neg h]
  rfl

/-- The digits of a number other than 0, the first of which is not 0. -/
lemma digits_cons {n : ℕ} (h : n ≠ 0) : ∃ d ds, (Nat.digits 10 n).reverse = d :: ds ∧ d ≠ 0 ∧
    ∀ e ∈ d :: ds, e < 10 := by
  have hne : Nat.digits 10 n ≠ [] := Nat.digits_ne_nil_iff_ne_zero.2 h
  obtain ⟨d, ds, hd⟩ := List.exists_cons_of_ne_nil (List.reverse_ne_nil_iff.2 hne)
  refine ⟨d, ds, hd, ?_, fun e he => ?_⟩
  · have hlast := Nat.getLast_digit_ne_zero 10 h
    have hhead : (Nat.digits 10 n).getLast hne = d := by
      rw [← List.head_reverse (List.reverse_ne_nil_iff.2 hne)]
      simp [hd]
    rwa [hhead] at hlast
  · rw [← hd] at he
    exact Nat.digits_lt_base (by omega) (List.mem_reverse.1 he)

lemma fixupRadix_of_ne {c : UInt8} (h : c ≠ 48) (s : List UInt8) :
    fixupRadix (c :: s) = (10, c :: s) := by
  simp only [fixupRadix, if_neg h]

lemma kstrtoullBare_decDigits {n : ℕ} (h : n < 2 ^ 64) :
    kstrtoullBare (decDigits n ++ [10]) = .ok n := by
  by_cases h0 : n = 0
  · subst h0
    rfl
  obtain ⟨d, ds, hds, hd, hlt⟩ := digits_cons h0
  have hfold := foldl_digits n
  rw [hds] at hfold
  have hparse := parseInteger_digits hlt 0 0
  rw [hfold] at hparse
  rw [decDigits_of_ne h0, hds]
  unfold kstrtoullBare
  rw [List.map_cons, List.cons_append,
    fixupRadix_of_ne (ascii_ne_zero (hlt d List.mem_cons_self) hd), ← List.cons_append, ← List.map_cons]
  dsimp only
  rw [hparse, if_neg h.not_ge]
  simp

lemma head_decDigits (n : ℕ) : ∃ c s, decDigits n = c :: s ∧ c ≠ 45 ∧ c ≠ 43 := by
  by_cases h0 : n = 0
  · subst h0
    exact ⟨48, [], rfl, by decide, by decide⟩
  · obtain ⟨d, ds, hds, -, hlt⟩ := digits_cons h0
    obtain ⟨h1, h2⟩ := ascii_ne_minus (hlt d List.mem_cons_self)
    exact ⟨ascii d, ds.map ascii, by rw [decDigits_of_ne h0, hds, List.map_cons], h1, h2⟩

lemma kstrtoll_decimal {i : ℤ} (hlo : -2 ^ 63 ≤ i) (hhi : i < 2 ^ 63) :
    kstrtoll (decimal i ++ [10]) = .ok i := by
  unfold decimal
  split
  · rename_i hneg
    have hbare := kstrtoullBare_decDigits (n := i.natAbs) (by omega)
    have hle : ¬ 2 ^ 63 < i.natAbs := by omega
    have habs : -(i.natAbs : ℤ) = i := by omega
    simp only [kstrtoll, List.cons_append, List.head?_cons, if_true, List.tail_cons, hbare]
    show (if 2 ^ 63 < i.natAbs then Except.error (-erange) else Except.ok (-(i.natAbs : ℤ))) = _
    rw [if_neg hle, habs]
  · rename_i hpos
    obtain ⟨c, s, hc, h1, h2⟩ := head_decDigits i.natAbs
    have hbare := kstrtoullBare_decDigits (n := i.natAbs) (by omega)
    have hle : ¬ 2 ^ 63 ≤ i.natAbs := by omega
    have habs : (i.natAbs : ℤ) = i := by omega
    rw [hc, List.cons_append] at hbare ⊢
    simp only [kstrtoll, List.head?_cons, Option.some.injEq, h1, h2, if_false, hbare]
    show (if 2 ^ 63 ≤ i.natAbs then Except.error (-erange) else Except.ok (i.natAbs : ℤ)) = _
    rw [if_neg hle, habs]

/-- **`kstrtol` reads back a printed number.** -/
theorem kstrtol_decimal (v : Int32) : kstrtol (decimal v.toInt ++ [10]) = (0, v) := by
  have h1 := v.le_toInt
  have h2 := v.toInt_lt
  unfold kstrtol
  rw [kstrtoll_decimal (by omega) (by omega)]
  simp

lemma decimal_injective {v w : Int32} (h : decimal v.toInt = decimal w.toInt) : v = w := by
  have hv := kstrtol_decimal v
  rw [h, kstrtol_decimal w] at hv
  exact (Prod.mk.inj hv).2.symm

/-! ### The shape of a decimal number -/

lemma le_ascii {d : ℕ} (h : d < 10) : 48 ≤ ascii d := by
  revert d
  decide

lemma le_of_mem_decDigits {n : ℕ} {c : UInt8} (h : c ∈ decDigits n) : 48 ≤ c := by
  by_cases h0 : n = 0
  · subst h0
    obtain rfl := List.mem_singleton.1 h
    decide
  · rw [decDigits_of_ne h0] at h
    obtain ⟨d, hd, rfl⟩ := List.mem_map.1 h
    exact le_ascii (Nat.digits_lt_base (by omega) (List.mem_reverse.1 hd))

lemma le_of_mem_decimal {i : ℤ} {c : UInt8} (h : c ∈ decimal i) : 45 ≤ c := by
  have h45 : (45 : UInt8) ≤ 48 := by decide
  unfold decimal at h
  split at h
  · rcases List.mem_cons.1 h with rfl | h
    · exact UInt8.le_refl 45
    · exact UInt8.le_trans h45 (le_of_mem_decDigits h)
  · exact UInt8.le_trans h45 (le_of_mem_decDigits h)

lemma zero_notMem_decimal (i : ℤ) : 0 ∉ decimal i := fun h => absurd (le_of_mem_decimal h) (by decide)

lemma length_decDigits {n : ℕ} (h : n < 10 ^ 10) : (decDigits n).length ≤ 10 := by
  by_cases h0 : n = 0
  · subst h0
    decide
  · rw [decDigits_of_ne h0, List.length_map, List.length_reverse]
    exact (Nat.digits_length_le_iff (by omega) n).2 h

lemma length_decimal (v : Int32) : (decimal v.toInt).length ≤ 11 := by
  have h1 := v.le_toInt
  have h2 := v.toInt_lt
  have hlen := length_decDigits (n := v.toInt.natAbs) (by omega)
  unfold decimal
  split
  · rw [List.length_cons]
    omega
  · omega

/-! ### Texts that are no number -/

lemma mem_parseInteger {base : ℕ} {c : UInt8} (hc : digit base c = none) {s : List UInt8} (hs : c ∈ s)
    (res rv : ℕ) : c ∈ (parseInteger base s res rv).2.2 := by
  induction s generalizing res rv with
  | nil => exact hs
  | cons d s ih =>
    unfold parseInteger
    cases hd : digit base d with
    | none => exact hs
    | some val =>
      have hne : c ≠ d := by
        rintro rfl
        cases hc.symm.trans hd
      exact ih ((List.mem_cons.1 hs).resolve_left hne) _ _

lemma mem_fixupRadix {s : List UInt8} (hs : 1 ∈ s) : 1 ∈ (fixupRadix s).2 := by
  unfold fixupRadix
  split
  · split
    · rename_i hc
      split
      · split
        · rename_i hx
          subst hc
          rcases List.mem_cons.1 hs with h | h
          · exact absurd h (by decide)
          rcases List.mem_cons.1 h with rfl | h
          · exact absurd hx.1 (by decide)
          · exact h
        · exact hs
      · exact hs
    · exact hs
  · exact hs

lemma kstrtoullBare_refuses {s : List UInt8} (hs : 1 ∈ s) :
    ∃ e, kstrtoullBare s = .error e ∧ e ≠ 0 := by
  have hleft : ∀ t : List UInt8, 1 ∈ t → (if t.head? = some 10 then t.tail else t) ≠ [] := by
    intro t ht
    cases t with
    | nil => exact absurd ht List.not_mem_nil
    | cons c t =>
      split
      · rename_i hc
        obtain rfl := Option.some.inj hc
        rcases List.mem_cons.1 ht with h | h
        · exact absurd h (by decide)
        · exact List.ne_nil_of_mem h
      · exact List.cons_ne_nil c t
  unfold kstrtoullBare
  dsimp only
  split
  · exact ⟨_, rfl, by decide⟩
  · split
    · exact ⟨_, rfl, by decide⟩
    · rw [if_pos (hleft _ (mem_parseInteger rfl (mem_fixupRadix hs) 0 0))]
      exact ⟨_, rfl, by decide⟩

lemma kstrtoll_refuses {s : List UInt8} (hs : 1 ∈ s) : ∃ e, kstrtoll s = .error e ∧ e ≠ 0 := by
  have htail : ∀ c : UInt8, c ≠ 1 → s.head? = some c → 1 ∈ s.tail := by
    intro c hc hh
    cases s with
    | nil => cases hh
    | cons d s =>
      obtain rfl := Option.some.inj hh
      exact (List.mem_cons.1 hs).resolve_left hc.symm
  unfold kstrtoll
  split
  · rename_i hh
    obtain ⟨e, he, h0⟩ := kstrtoullBare_refuses (htail 45 (by decide) hh)
    exact ⟨e, by rw [he]; rfl, h0⟩
  · have hm : 1 ∈ if s.head? = some 43 then s.tail else s := by
      split
      · rename_i hh
        exact htail 43 (by decide) hh
      · exact hs
    obtain ⟨e, he, h0⟩ := kstrtoullBare_refuses hm
    exact ⟨e, by rw [he]; rfl, h0⟩

/-- **`kstrtol` refuses a text with a byte 1.** -/
theorem kstrtol_refuses {s : List UInt8} (hs : 1 ∈ s) : (kstrtol s).1 ≠ 0 := by
  obtain ⟨e, he, h0⟩ := kstrtoll_refuses hs
  unfold kstrtol
  rw [he]
  exact h0

end CfgMgmt.Kernel.Kstrtol
