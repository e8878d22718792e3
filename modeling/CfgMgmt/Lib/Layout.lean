import Mathlib.Algebra.Order.Floor.Div
import Mathlib.Order.CompletePartialOrder
import Mathlib.Order.Interval.Set.Disjoint
import Mathlib.Tactic.Common

/-!
# Regions behind each other

Regions of a memory are placed in their order, each at the least address behind the one before it that
its alignment allows.  They do not overlap, and nothing of them lies outside of the whole.
-/

namespace CfgMgmt.Lib.Layout

/-! ### Alignment -/

/-- The least multiple of `align` that is not below `addr`. -/
def alignUp (align addr : ℕ) : ℕ := align * (addr ⌈/⌉ align)

section Align

variable {align : ℕ} (h : 0 < align) (addr : ℕ)
include h

theorem isLeast_alignUp : IsLeast {m | align ∣ m ∧ addr ≤ m} (alignUp align addr) := by
  constructor
  · exact ⟨dvd_mul_right .., le_smul_ceilDiv h⟩
  · rintro _ ⟨⟨c, rfl⟩, hc⟩
    exact Nat.mul_le_mul_left _ ((ceilDiv_le_iff_le_mul h).2 hc)

lemma le_alignUp : addr ≤ alignUp align addr := (isLeast_alignUp h addr).1.2

lemma alignUp_lt : alignUp align addr < addr + align := by
  unfold alignUp
  rw [Nat.ceilDiv_eq_add_pred_div]
  have := Nat.mul_div_le (addr + align - 1) align
  omega

variable {addr}

lemma alignUp_of_dvd (hd : align ∣ addr) : alignUp align addr = addr :=
  (isLeast_alignUp h addr).unique ⟨⟨hd, le_rfl⟩, fun _ hm => hm.2⟩

lemma alignUp_of_not_dvd (hd : ¬ align ∣ addr) : alignUp align addr = align * (addr / align + 1) := by
  refine (isLeast_alignUp h addr).unique ⟨⟨dvd_mul_right .., (Nat.lt_mul_div_succ addr h).le⟩, ?_⟩
  rintro _ ⟨⟨c, rfl⟩, hc⟩
  have hne : addr ≠ align * c := fun e => hd ⟨c, e⟩
  exact Nat.mul_le_mul_left _ (Nat.div_lt_of_lt_mul (lt_of_le_of_ne hc hne))

end Align

@[simp] lemma alignUp_one (addr : ℕ) : alignUp 1 addr = addr :=
  alignUp_of_dvd Nat.one_pos (one_dvd addr)

/-! ### Placing -/

/-- A region that is to be placed. -/
structure Region where
  size : ℕ
  align : ℕ
  align_pos : 0 < align

/-- A region in its place. -/
@[ext] structure Extent where
  start : ℕ
  size : ℕ

namespace Extent

def stop (e : Extent) : ℕ := e.start + e.size

/-- The addresses of the bytes. -/
def bytes (e : Extent) : Set ℕ := Set.Ico e.start e.stop

end Extent

/-- The first region, at the address `addr` or behind it. -/
def Region.behind (r : Region) (addr : ℕ) : Extent := ⟨alignUp r.align addr, r.size⟩

/-- The regions from the address `addr` on. -/
def place : ℕ → List Region → List Extent
  | _, [] => []
  | addr, r :: rs => r.behind addr :: place (r.behind addr).stop rs

/-- The address behind the last region. -/
def stop : ℕ → List Region → ℕ
  | addr, [] => addr
  | addr, r :: rs => stop (r.behind addr).stop rs

lemma Region.le_start (r : Region) (addr : ℕ) : addr ≤ (r.behind addr).start :=
  le_alignUp r.align_pos addr

lemma Region.le_stop (r : Region) (addr : ℕ) : addr ≤ (r.behind addr).stop :=
  (r.le_start addr).trans (Nat.le_add_right ..)

lemma le_stop (addr : ℕ) (rs : List Region) : addr ≤ stop addr rs := by
  induction rs generalizing addr with
  | nil => exact le_rfl
  | cons r rs ih => exact (r.le_stop addr).trans (ih _)

lemma le_start_of_mem {e : Extent} {addr : ℕ} {rs : List Region} (h : e ∈ place addr rs) :
    addr ≤ e.start := by
  induction rs generalizing addr with
  | nil => cases h
  | cons r rs ih =>
    rcases List.mem_cons.1 h with rfl | h
    · exact r.le_start addr
    · exact (r.le_stop addr).trans (ih h)

lemma stop_le_of_mem {e : Extent} {addr : ℕ} {rs : List Region} (h : e ∈ place addr rs) :
    e.stop ≤ stop addr rs := by
  induction rs generalizing addr with
  | nil => cases h
  | cons r rs ih =>
    rcases List.mem_cons.1 h with rfl | h
    · exact le_stop _ rs
    · exact ih h

/-- **The regions are inside of the whole.** -/
theorem bytes_subset_of_mem {e : Extent} {addr : ℕ} {rs : List Region} (h : e ∈ place addr rs) :
    e.bytes ⊆ Set.Ico addr (stop addr rs) :=
  Set.Ico_subset_Ico (le_start_of_mem h) (stop_le_of_mem h)

/-- **The regions do not overlap.** -/
theorem pairwise_place (addr : ℕ) (rs : List Region) :
    (place addr rs).Pairwise fun e e' => Disjoint e.bytes e'.bytes := by
  induction rs generalizing addr with
  | nil => exact .nil
  | cons r rs ih =>
    refine List.pairwise_cons.2 ⟨fun e he => ?_, ih _⟩
    have hle := le_start_of_mem he
    exact Set.Ico_disjoint_Ico.2 (min_le_of_left_le (le_max_of_le_right hle))

end CfgMgmt.Lib.Layout
