import Mathlib.Order.Lattice
import Mathlib.Tactic.Common

/-!
# Register maps

A register map serves queries on numbered registers.  A register has a value that is kept within two
limits, and two texts.  The state of the map is arbitrary; a write stores the limited value and then
runs the hook of the register, a read runs its hook and then takes the value.
-/

namespace CfgMgmt.Firmware.RegisterMap

/-- A query.  `noReg` is a query for a register that does not exist, `unknown` one of a kind that
does not exist. -/
inductive Query (ι α : Type)
  | nop
  | count
  | noReg
  | write (i : ι) (v : α)
  | read (i : ι)
  | min (i : ι)
  | max (i : ι)
  | name (i : ι)
  | desc (i : ι)
  | unknown (i : ι)

inductive Answer (α τ : Type)
  | ok
  | count (n : ℕ)
  | noReg
  | val (v : α)
  | min (v : α)
  | max (v : α)
  | name (t : τ)
  | desc (t : τ)
  | unknown

/-- The registers of a state, and what a store and the two hooks do to it. -/
structure RegMap (ι α τ σ : Type) where
  count : ℕ
  val : σ → ι → α
  min : σ → ι → α
  max : σ → ι → α
  name : σ → ι → τ
  desc : σ → ι → τ
  store : ι → α → σ → σ
  onWrite : ι → σ → σ
  onRead : ι → σ → σ

/-- `v` limited to `[lo, hi]`. -/
def limitTo {α : Type} [LinearOrder α] (lo hi v : α) : α := lo ⊔ (hi ⊓ v)

section

variable {α : Type} [LinearOrder α] {lo hi v : α}

lemma limitTo_of_mem (h1 : lo ≤ v) (h2 : v ≤ hi) : limitTo lo hi v = v := by
  unfold limitTo
  rw [inf_eq_right.2 h2, sup_eq_right.2 h1]

end

/-- **What a register map answers to a query, and the state it leaves.** -/
def RegMap.serve {ι α τ σ : Type} [LinearOrder α] (R : RegMap ι α τ σ) (s : σ) :
    Query ι α → σ × Answer α τ
  | .nop => (s, .ok)
  | .count => (s, .count R.count)
  | .noReg => (s, .noReg)
  | .write i v => (R.onWrite i (R.store i (limitTo (R.min s i) (R.max s i) v) s), .ok)
  | .read i => (R.onRead i s, .val (R.val (R.onRead i s) i))
  | .min i => (s, .min (R.min s i))
  | .max i => (s, .max (R.max s i))
  | .name i => (s, .name (R.name s i))
  | .desc i => (s, .desc (R.desc s i))
  | .unknown _ => (s, .unknown)

end CfgMgmt.Firmware.RegisterMap
