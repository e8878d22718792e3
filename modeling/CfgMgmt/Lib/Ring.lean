import Mathlib.Data.List.Range
import Mathlib.Data.Nat.ModEq
import Mathlib.Logic.Function.Basic
import Mathlib.Tactic.Common

/-!
# Rings with free-running indices

A ring of `N` slots is filled at a head index and emptied at a tail index.  Both indices run freely
modulo `M`, a multiple of `N` larger than `N`; the slot of an index is the index modulo `N`.  As long
as at most `N` slots are unread, writing at the head appends to the unread entries and reading at the
tail takes their first, across every wrap of the two indices.
-/

namespace CfgMgmt.Lib.Ring

variable {α : Type*} {N M : ℕ}

/-- How far `head` is ahead of `tail` modulo `M`. -/
def pending (M tail head : ℕ) : ℕ := (head + (M - tail)) % M

/-- The slot of a free-running index. -/
def slot (N : ℕ) [NeZero N] (i : ℕ) : Fin N := ⟨i % N, Nat.mod_lt _ (Nat.pos_of_ne_zero (NeZero.ne N))⟩

/-- The entries between the tail and the head, the oldest first. -/
def unread (N M : ℕ) [NeZero N] (ring : Fin N → α) (tail head : ℕ) : List α :=
  (List.range (pending M tail head)).map fun k => ring (slot N (tail + k))

section Indices

variable {tail head : ℕ}

lemma pending_lt (hM : 0 < M) : pending M tail head < M := Nat.mod_lt _ hM

lemma pending_self (ht : tail < M) : pending M tail tail = 0 := by
  unfold pending
  rw [Nat.add_sub_cancel' ht.le, Nat.mod_self]

lemma pending_cases (ht : tail < M) (hh : head < M) :
    (tail ≤ head ∧ pending M tail head = head - tail) ∨
      (head < tail ∧ pending M tail head = head + M - tail) := by
  unfold pending
  rcases Nat.lt_or_ge head tail with h | h
  · exact Or.inr ⟨h, by rw [Nat.mod_eq_of_lt (by omega)]; omega⟩
  · refine Or.inl ⟨h, ?_⟩
    rw [show head + (M - tail) = head - tail + M by omega, Nat.add_mod_right,
      Nat.mod_eq_of_lt (by omega)]

lemma succ_mod_cases {i : ℕ} (hi : i < M) :
    (i + 1 < M ∧ (i + 1) % M = i + 1) ∨ (i + 1 = M ∧ (i + 1) % M = 0) := by
  rcases Nat.lt_or_ge (i + 1) M with h | h
  · exact Or.inl ⟨h, Nat.mod_eq_of_lt h⟩
  · have e : i + 1 = M := by omega
    exact Or.inr ⟨e, by rw [e, Nat.mod_self]⟩

lemma pending_head_succ (ht : tail < M) (hh : head < M) (h : pending M tail head + 1 < M) :
    pending M tail ((head + 1) % M) = pending M tail head + 1 := by
  have hM : 0 < M := by omega
  have hh' : (head + 1) % M < M := Nat.mod_lt _ hM
  rcases succ_mod_cases hh with ⟨_, e⟩ | ⟨_, e⟩ <;>
    rcases pending_cases ht hh with ⟨_, p⟩ | ⟨_, p⟩ <;>
    rcases pending_cases ht hh' with ⟨_, q⟩ | ⟨_, q⟩ <;> omega

lemma pending_head_succ_le (ht : tail < M) (hh : head < M) :
    pending M tail ((head + 1) % M) ≤ pending M tail head + 1 := by
  have hM : 0 < M := by omega
  have hlt : pending M tail head < M := pending_lt hM
  rcases Nat.lt_or_ge (pending M tail head + 1) M with h | h
  · exact (pending_head_succ ht hh h).le
  · exact (pending_lt hM).le.trans h

lemma pending_tail_succ (ht : tail < M) (hh : head < M) (h : head ≠ tail) :
    pending M ((tail + 1) % M) head + 1 = pending M tail head := by
  have hM : 0 < M := by omega
  have ht' : (tail + 1) % M < M := Nat.mod_lt _ hM
  rcases succ_mod_cases ht with ⟨_, e⟩ | ⟨_, e⟩ <;>
    rcases pending_cases ht hh with ⟨_, p⟩ | ⟨_, p⟩ <;>
    rcases pending_cases ht' hh with ⟨_, q⟩ | ⟨_, q⟩ <;> omega

/-- The head is the tail plus the number of unread entries, up to a multiple of `M`. -/
lemma head_modEq (ht : tail < M) (hh : head < M) : head ≡ tail + pending M tail head [MOD M] := by
  rcases pending_cases ht hh with ⟨_, p⟩ | ⟨_, p⟩
  · rw [show tail + pending M tail head = head by omega]
  · rw [show tail + pending M tail head = head + M by omega]
    simp [Nat.ModEq]

end Indices

section Slots

variable [NeZero N] {tail head : ℕ}

lemma slot_congr {i j : ℕ} (h : i ≡ j [MOD N]) : slot N i = slot N j := Fin.ext h

lemma slot_head (hNM : N ∣ M) (ht : tail < M) (hh : head < M) :
    slot N head = slot N (tail + pending M tail head) :=
  slot_congr ((head_modEq ht hh).of_dvd hNM)

lemma slot_mod_succ (hNM : N ∣ M) (i k : ℕ) : slot N ((i + 1) % M + k) = slot N (i + (k + 1)) := by
  refine slot_congr ?_
  have h : (i + 1) % M ≡ i + 1 [MOD N] := (Nat.mod_modEq _ _).of_dvd hNM
  simpa [Nat.add_assoc, Nat.add_comm 1 k] using h.add_right k

lemma slot_ne {i k l : ℕ} (hk : k < l) (hl : l < k + N) : slot N (i + k) ≠ slot N (i + l) := by
  intro h
  have h' : i + k ≡ i + l [MOD N] := Fin.ext_iff.1 h
  have hd := (Nat.modEq_iff_dvd' (by omega)).1 h'
  have := Nat.le_of_dvd (by omega) hd
  omega

/-- **The slot at the head holds no unread entry** as long as the ring is not full. -/
theorem slot_head_fresh (hNM : N ∣ M) (ht : tail < M) (hh : head < M)
    (hfree : pending M tail head < N) {k : ℕ} (hk : k < pending M tail head) :
    slot N (tail + k) ≠ slot N head := by
  rw [slot_head hNM ht hh]
  exact slot_ne hk (by omega)

@[simp] lemma length_unread (ring : Fin N → α) :
    (unread N M ring tail head).length = pending M tail head := by
  simp [unread]

lemma unread_self (ring : Fin N → α) (ht : tail < M) : unread N M ring tail tail = [] := by
  simp [unread, pending_self ht]

/-- **Writing at the head appends to the unread entries.** -/
theorem unread_push (hNM : N ∣ M) (hlt : N < M) (ht : tail < M) (hh : head < M) (ring : Fin N → α)
    (a : α) (hfree : pending M tail head < N) :
    unread N M (Function.update ring (slot N head) a) tail ((head + 1) % M) =
      unread N M ring tail head ++ [a] := by
  unfold unread
  rw [pending_head_succ ht hh (by omega), List.range_succ, List.map_append]
  congr 1
  · refine List.map_congr_left fun k hk => ?_
    exact Function.update_of_ne (slot_head_fresh hNM ht hh hfree (List.mem_range.1 hk)) _ _
  · simp [slot_head hNM ht hh]

/-- **Reading at the tail takes the first unread entry.** -/
theorem unread_pop (hNM : N ∣ M) (ht : tail < M) (hh : head < M) (ring : Fin N → α)
    (h : head ≠ tail) :
    unread N M ring tail head =
      ring (slot N tail) :: unread N M ring ((tail + 1) % M) head := by
  unfold unread
  rw [← pending_tail_succ ht hh h, List.range_succ_eq_map, List.map_cons, List.map_map]
  simp only [Nat.add_zero, List.cons.injEq, true_and]
  exact List.map_congr_left fun k _ => by simp [slot_mod_succ hNM]

end Slots

end CfgMgmt.Lib.Ring
