import CfgMgmt.Lib.Bytes

/-!
# Byte-addressed memory

Words are stored little-endian at any address.  A store changes the bytes of its word only; a load from
a place that does not overlap it reads what was there before.
-/

namespace CfgMgmt.Lib.Memory

open CfgMgmt.Lib.Bytes

/-- A memory: the byte at each address. -/
abbrev Mem : Type := ℕ → UInt8

/-- The number in the `w` bytes from the address `a` on. -/
def load (w : ℕ) (mem : Mem) (a : ℕ) : ℕ := ofLeBytes ((List.range w).map fun i => mem (a + i))

/-- Store the `w` low bytes of `n` from the address `a` on. -/
def store (w : ℕ) (a n : ℕ) (mem : Mem) : Mem := fun b =>
  if a ≤ b ∧ b < a + w then (leBytes w n).getD (b - a) 0 else mem b

section

variable {w v a b n : ℕ} {mem mem' : Mem}

/-- A load depends on the bytes of its word only. -/
lemma load_congr (h : ∀ i < w, mem (a + i) = mem' (a + i)) : load w mem a = load w mem' a := by
  unfold load
  refine congrArg _ (List.map_congr_left fun i hi => ?_)
  exact h i (List.mem_range.1 hi)

/-- Outside of its word a store changes nothing. -/
lemma store_of_outside (h : b < a ∨ a + w ≤ b) : store w a n mem b = mem b := by
  unfold store
  exact if_neg fun hb => by omega

/-- **A load from a place that a store does not overlap** reads what was there before. -/
lemma load_store_of_disjoint (h : b + v ≤ a ∨ a + w ≤ b) :
    load v (store w a n mem) b = load v mem b := by
  refine load_congr fun i hi => store_of_outside ?_
  omega

/-- **What was stored is read back.** -/
lemma load_store (w a n : ℕ) (mem : Mem) : load w (store w a n mem) a = n % 256 ^ w := by
  rw [← ofLeBytes_leBytes]
  unfold load
  congr 1
  apply List.ext_getElem
  · simp
  · intro i hi hi'
    have hw : i < w := by simpa using hi
    have hin : a ≤ a + i ∧ a + i < a + w := by omega
    simp only [List.getElem_map, List.getElem_range, store, if_pos hin, Nat.add_sub_cancel_left]
    exact (List.getElem_eq_getD _).symm

end

/-! ### Words -/

/-- The `uint16_t` at an address. -/
def load16 (mem : Mem) (a : ℕ) : UInt16 := UInt16.ofNat (load 2 mem a)

/-- The `uint32_t` at an address. -/
def load32 (mem : Mem) (a : ℕ) : UInt32 := UInt32.ofNat (load 4 mem a)

def store16 (a : ℕ) (x : UInt16) (mem : Mem) : Mem := store 2 a x.toNat mem

def store32 (a : ℕ) (x : UInt32) (mem : Mem) : Mem := store 4 a x.toNat mem

section

lemma load16_congr {mem mem' : Mem} {a : ℕ} (h : ∀ b, a ≤ b → b < a + 2 → mem b = mem' b) :
    load16 mem a = load16 mem' a :=
  congrArg _ (load_congr fun i hi => h (a + i) (by omega) (by omega))

lemma load32_congr {mem mem' : Mem} {a : ℕ} (h : ∀ b, a ≤ b → b < a + 4 → mem b = mem' b) :
    load32 mem a = load32 mem' a :=
  congrArg _ (load_congr fun i hi => h (a + i) (by omega) (by omega))

variable (a b : ℕ) (x : UInt16) (y : UInt32) (mem : Mem)

@[simp] lemma load16_store16 : load16 (store16 a x mem) a = x := by
  unfold load16 store16
  rw [load_store, Nat.mod_eq_of_lt (by simpa using x.toNat_lt), UInt16.ofNat_toNat]

@[simp] lemma load32_store32 : load32 (store32 a y mem) a = y := by
  unfold load32 store32
  rw [load_store, Nat.mod_eq_of_lt (by simpa using y.toNat_lt), UInt32.ofNat_toNat]

variable {a b}

lemma load16_store16_of_ne (h : b + 2 ≤ a ∨ a + 2 ≤ b) :
    load16 (store16 a x mem) b = load16 mem b := congrArg _ (load_store_of_disjoint h)

lemma load16_store32_of_ne (h : b + 2 ≤ a ∨ a + 4 ≤ b) :
    load16 (store32 a y mem) b = load16 mem b := congrArg _ (load_store_of_disjoint h)

lemma load32_store16_of_ne (h : b + 4 ≤ a ∨ a + 2 ≤ b) :
    load32 (store16 a x mem) b = load32 mem b := congrArg _ (load_store_of_disjoint h)

lemma load32_store32_of_ne (h : b + 4 ≤ a ∨ a + 4 ≤ b) :
    load32 (store32 a y mem) b = load32 mem b := congrArg _ (load_store_of_disjoint h)

end

end CfgMgmt.Lib.Memory
