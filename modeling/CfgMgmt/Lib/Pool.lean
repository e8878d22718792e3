import Mathlib.Data.List.Nodup
import Mathlib.Data.List.Lattice
import Mathlib.Logic.Function.Basic
import Mathlib.Tactic.Common

/-!
# A pool of recycled objects

Objects are numbered in the order they are made.  An unused object is taken by an owner, may be posted
to a list of pending work, leaves that list when its work is done, and is recycled by its owner.  The
pool is *sound* when no object is in two places from which it could be handed out or worked on twice.
Each operation keeps the pool sound; `post` and `recycle` do so only for an object that is not pending.
-/

namespace CfgMgmt.Lib

/-- The objects on the two lists, the one each owner has, and how many were made. -/
structure Pool (F : Type*) where
  pending : List ℕ
  unused : List ℕ
  owner : F → Option ℕ
  made : ℕ

namespace Pool

variable {F : Type*}

/-- Nothing was made. -/
def empty : Pool F := ⟨[], [], fun _ => none, 0⟩

/-! ### The operations -/

/-- Take the first unused object, or make one. -/
def take (p : Pool F) : ℕ × Pool F :=
  match p.unused with
  | t :: rest => (t, { p with unused := rest })
  | [] => (p.made, { p with made := p.made + 1 })

def own [DecidableEq F] (f : F) (t : ℕ) (p : Pool F) : Pool F :=
  { p with owner := Function.update p.owner f (some t) }

def disown [DecidableEq F] (f : F) (p : Pool F) : Pool F :=
  { p with owner := Function.update p.owner f none }

def post (t : ℕ) (p : Pool F) : Pool F := { p with pending := t :: p.pending }

def settle (t : ℕ) (p : Pool F) : Pool F := { p with pending := p.pending.erase t }

def recycle (t : ℕ) (p : Pool F) : Pool F := { p with unused := t :: p.unused }

/-! ### Soundness -/

/-- No object is twice on a list, on both lists, or unused while it has an owner, and no two owners
have the same object. -/
structure Sound (p : Pool F) : Prop where
  pending_nodup : p.pending.Nodup
  unused_nodup : p.unused.Nodup
  disjoint : p.pending.Disjoint p.unused
  owner_inj : ∀ {f g t}, p.owner f = some t → p.owner g = some t → f = g
  owner_not_unused : ∀ {f t}, p.owner f = some t → t ∉ p.unused
  pending_lt : ∀ {t}, t ∈ p.pending → t < p.made
  unused_lt : ∀ {t}, t ∈ p.unused → t < p.made
  owner_lt : ∀ {f t}, p.owner f = some t → t < p.made

/-- The object was made and is not unused. -/
structure InUse (t : ℕ) (p : Pool F) : Prop where
  lt : t < p.made
  not_unused : t ∉ p.unused

def Unowned (t : ℕ) (p : Pool F) : Prop := ∀ f, p.owner f ≠ some t

variable {p : Pool F} {f : F} {t : ℕ}

theorem sound_empty : Sound (empty : Pool F) where
  pending_nodup := List.nodup_nil
  unused_nodup := List.nodup_nil
  disjoint := List.disjoint_nil_left _
  owner_inj hf := absurd hf (Option.some_ne_none _).symm
  owner_not_unused _ := List.not_mem_nil
  pending_lt ht := absurd ht List.not_mem_nil
  unused_lt ht := absurd ht List.not_mem_nil
  owner_lt hf := absurd hf (Option.some_ne_none _).symm

lemma Sound.inUse (h : Sound p) (hf : p.owner f = some t) : InUse t p :=
  ⟨h.owner_lt hf, h.owner_not_unused hf⟩

/-- **Taking an object.**  It is neither pending nor owned, and afterwards it is in use. -/
theorem Sound.take (h : Sound p) {q : Pool F} (ht : p.take = (t, q)) :
    Sound q ∧ InUse t q ∧ Unowned t p ∧ t ∉ p.pending ∧ q.owner = p.owner ∧
      q.pending = p.pending := by
  unfold Pool.take at ht
  split at ht
  · rename_i t rest hu
    obtain ⟨rfl, rfl⟩ := Prod.mk.inj ht
    have hn := List.nodup_cons.1 (hu ▸ h.unused_nodup)
    have hd := List.disjoint_cons_right.1 (hu ▸ h.disjoint)
    have hmem : ∀ {x}, x ∈ rest → x ∈ p.unused := fun hx => hu ▸ List.mem_cons_of_mem _ hx
    have hself : t ∈ p.unused := hu ▸ List.mem_cons_self
    refine ⟨⟨h.pending_nodup, hn.2, hd.2, h.owner_inj, ?_, h.pending_lt, ?_, h.owner_lt⟩,
      ⟨h.unused_lt hself, hn.1⟩, fun f hf => h.owner_not_unused hf hself, hd.1, rfl, rfl⟩
    · intro f x hf hx
      exact h.owner_not_unused hf (hmem hx)
    · intro x hx
      exact h.unused_lt (hmem hx)
  · rename_i hu
    obtain ⟨rfl, rfl⟩ := Prod.mk.inj ht
    refine ⟨⟨h.pending_nodup, h.unused_nodup, h.disjoint, h.owner_inj, h.owner_not_unused, ?_, ?_, ?_⟩,
      ⟨Nat.lt_succ_self _, ?_⟩, ?_, ?_, rfl, rfl⟩
    · intro x hx
      exact Nat.lt_succ_of_lt (h.pending_lt hx)
    · intro x hx
      exact Nat.lt_succ_of_lt (h.unused_lt hx)
    · intro g x hg
      exact Nat.lt_succ_of_lt (h.owner_lt hg)
    · rw [hu]
      exact List.not_mem_nil
    · intro g hg
      exact Nat.lt_irrefl _ (h.owner_lt hg)
    · intro hx
      exact Nat.lt_irrefl _ (h.pending_lt hx)

theorem Sound.own [DecidableEq F] (h : Sound p) (hu : InUse t p) (ho : Unowned t p) : Sound (p.own f t) where
  pending_nodup := h.pending_nodup
  unused_nodup := h.unused_nodup
  disjoint := h.disjoint
  owner_inj := by
    intro g g' x hg hg'
    simp only [Pool.own, Function.update_apply] at hg hg'
    split at hg <;> split at hg'
    · simp_all
    · cases hg
      exact absurd hg' (ho g')
    · cases hg'
      exact absurd hg (ho g)
    · exact h.owner_inj hg hg'
  owner_not_unused := by
    intro g x hg
    simp only [Pool.own, Function.update_apply] at hg
    split at hg
    · cases hg
      exact hu.not_unused
    · exact h.owner_not_unused hg
  pending_lt := h.pending_lt
  unused_lt := h.unused_lt
  owner_lt := by
    intro g x hg
    simp only [Pool.own, Function.update_apply] at hg
    split at hg
    · cases hg
      exact hu.lt
    · exact h.owner_lt hg

lemma owner_of_disown [DecidableEq F] {g : F} {x : ℕ} (hg : (p.disown f).owner g = some x) :
    g ≠ f ∧ p.owner g = some x := by
  simp only [disown, Function.update_apply] at hg
  split at hg
  · cases hg
  · exact ⟨‹_›, hg⟩

theorem Sound.disown [DecidableEq F] (h : Sound p) : Sound (p.disown f) where
  pending_nodup := h.pending_nodup
  unused_nodup := h.unused_nodup
  disjoint := h.disjoint
  owner_inj hg hg' := h.owner_inj (owner_of_disown hg).2 (owner_of_disown hg').2
  owner_not_unused hg := h.owner_not_unused (owner_of_disown hg).2
  pending_lt := h.pending_lt
  unused_lt := h.unused_lt
  owner_lt hg := h.owner_lt (owner_of_disown hg).2

/-- Nobody else has an object that its owner gives up. -/
lemma Sound.unowned_disown [DecidableEq F] (h : Sound p) (hf : p.owner f = some t) : Unowned t (p.disown f) := by
  intro g hg
  obtain ⟨hne, hg⟩ := owner_of_disown hg
  exact hne (h.owner_inj hg hf)

theorem Sound.post (h : Sound p) (hu : InUse t p) (ht : t ∉ p.pending) : Sound (p.post t) where
  pending_nodup := List.nodup_cons.2 ⟨ht, h.pending_nodup⟩
  unused_nodup := h.unused_nodup
  disjoint := List.disjoint_cons_left.2 ⟨hu.not_unused, h.disjoint⟩
  owner_inj := h.owner_inj
  owner_not_unused := h.owner_not_unused
  pending_lt := by
    intro x hx
    rcases List.mem_cons.1 hx with rfl | hx
    · exact hu.lt
    · exact h.pending_lt hx
  unused_lt := h.unused_lt
  owner_lt := h.owner_lt

theorem Sound.settle (h : Sound p) : Sound (p.settle t) where
  pending_nodup := h.pending_nodup.erase t
  unused_nodup := h.unused_nodup
  disjoint := fun _ hx => h.disjoint (List.mem_of_mem_erase hx)
  owner_inj := h.owner_inj
  owner_not_unused := h.owner_not_unused
  pending_lt hx := h.pending_lt (List.mem_of_mem_erase hx)
  unused_lt := h.unused_lt
  owner_lt := h.owner_lt

theorem Sound.recycle (h : Sound p) (hu : InUse t p) (ho : Unowned t p) (ht : t ∉ p.pending) :
    Sound (p.recycle t) where
  pending_nodup := h.pending_nodup
  unused_nodup := List.nodup_cons.2 ⟨hu.not_unused, h.unused_nodup⟩
  disjoint := List.disjoint_cons_right.2 ⟨ht, h.disjoint⟩
  owner_inj := h.owner_inj
  owner_not_unused := by
    intro f x hf hx
    rcases List.mem_cons.1 hx with rfl | hx
    · exact ho f hf
    · exact h.owner_not_unused hf hx
  pending_lt := h.pending_lt
  unused_lt := by
    intro x hx
    rcases List.mem_cons.1 hx with rfl | hx
    · exact hu.lt
    · exact h.unused_lt hx
  owner_lt := h.owner_lt

/-! ### All objects of the lists at once -/

/-- Make `n` objects that are unused. -/
def restock (n : ℕ) (p : Pool F) : Pool F :=
  { p with unused := (List.range' p.made n).reverse ++ p.unused, made := p.made + n }

/-- Take every object off the lists. -/
def drain (p : Pool F) : Pool F := { p with pending := [], unused := [] }

lemma mem_restock {n : ℕ} :
    t ∈ (p.restock n).unused ↔ p.made ≤ t ∧ t < p.made + n ∨ t ∈ p.unused := by
  rw [restock, List.mem_append, List.mem_reverse, List.mem_range'_1]

theorem Sound.restock (h : Sound p) (n : ℕ) : Sound (p.restock n) where
  pending_nodup := h.pending_nodup
  unused_nodup := by
    refine List.nodup_append.2 ⟨List.nodup_reverse.2 List.nodup_range', h.unused_nodup, ?_⟩
    intro x hx y hy
    rw [List.mem_reverse, List.mem_range'_1] at hx
    have := h.unused_lt hy
    omega
  disjoint x hx hu := by
    rcases mem_restock.1 hu with hu | hu
    · have := h.pending_lt hx
      omega
    · exact h.disjoint hx hu
  owner_inj := h.owner_inj
  owner_not_unused hf hu := by
    rcases mem_restock.1 hu with hu | hu
    · have := h.owner_lt hf
      omega
    · exact h.owner_not_unused hf hu
  pending_lt hx := Nat.lt_add_right n (h.pending_lt hx)
  unused_lt hu := by
    rcases mem_restock.1 hu with hu | hu
    · exact hu.2
    · exact Nat.lt_add_right n (h.unused_lt hu)
  owner_lt hf := Nat.lt_add_right n (h.owner_lt hf)

theorem Sound.drain (h : Sound p) : Sound p.drain where
  pending_nodup := List.nodup_nil
  unused_nodup := List.nodup_nil
  disjoint := List.disjoint_nil_left _
  owner_inj := h.owner_inj
  owner_not_unused _ := List.not_mem_nil
  pending_lt hx := absurd hx List.not_mem_nil
  unused_lt hx := absurd hx List.not_mem_nil
  owner_lt := h.owner_lt

/-! ### What is lost -/

/-- The object is in use, but nobody has it. -/
structure Lost (t : ℕ) (p : Pool F) : Prop where
  inUse : InUse t p
  unowned : Unowned t p

section Lost

variable {p' q : Pool F}

/-- What is lost stays lost when objects are made. -/
lemma Lost.restock (h : Lost t p) (n : ℕ) : Lost t (p.restock n) := by
  refine ⟨⟨Nat.lt_add_right n h.inUse.lt, fun hu => ?_⟩, h.unowned⟩
  have := h.inUse.lt
  rcases mem_restock.1 hu with hu | hu
  · omega
  · exact h.inUse.not_unused hu

/-- What nobody has is lost when it is taken off the lists. -/
lemma lost_drain (hlt : t < p.made) (ho : Unowned t p) : Lost t p.drain :=
  ⟨⟨hlt, List.not_mem_nil⟩, ho⟩

lemma Sound.unowned_of_unused (h : Sound p) (ht : t ∈ p.unused) : Unowned t p :=
  fun _ hf => h.owner_not_unused hf ht

/-- The object that is taken was not in use. -/
lemma not_inUse_of_take (ht : p.take = (t, q)) : ¬ InUse t p := by
  rintro ⟨hlt, hn⟩
  unfold Pool.take at ht
  split at ht
  · rename_i hu
    obtain ⟨rfl, -⟩ := Prod.mk.inj ht
    exact hn (hu ▸ List.mem_cons_self)
  · obtain ⟨rfl, -⟩ := Prod.mk.inj ht
    exact Nat.lt_irrefl _ hlt

/-- Taking an object changes nothing for the others. -/
lemma inUse_take_iff (ht : p.take = (t, q)) {x : ℕ} (hx : x ≠ t) : InUse x q ↔ InUse x p := by
  unfold Pool.take at ht
  split at ht
  · rename_i rest hu
    obtain ⟨rfl, rfl⟩ := Prod.mk.inj ht
    constructor
    · rintro ⟨hlt, hn⟩
      refine ⟨hlt, fun hm => hn ?_⟩
      exact (List.mem_cons.1 (hu ▸ hm)).resolve_left hx
    · rintro ⟨hlt, hn⟩
      refine ⟨hlt, fun hm => hn ?_⟩
      rw [hu]
      exact List.mem_cons_of_mem _ hm
  · rename_i hu
    obtain ⟨rfl, rfl⟩ := Prod.mk.inj ht
    constructor
    · rintro ⟨hlt, hn⟩
      have hlt : x < p.made + 1 := hlt
      exact ⟨by omega, hn⟩
    · rintro ⟨hlt, hn⟩
      exact ⟨Nat.lt_succ_of_lt hlt, hn⟩

lemma InUse.congr {x : ℕ} (hu : p'.unused = p.unused) (hm : p'.made = p.made) :
    InUse x p' ↔ InUse x p := by
  constructor
  · rintro ⟨hlt, hn⟩
    exact ⟨hm ▸ hlt, hu ▸ hn⟩
  · rintro ⟨hlt, hn⟩
    exact ⟨hm.symm ▸ hlt, hu.symm ▸ hn⟩

lemma Unowned.congr {x : ℕ} (ho : p'.owner = p.owner) : Unowned x p' ↔ Unowned x p := by
  unfold Unowned
  rw [ho]

lemma Lost.congr {x : ℕ} (hu : p'.unused = p.unused) (hm : p'.made = p.made) (ho : p'.owner = p.owner) :
    Lost x p' ↔ Lost x p := by
  constructor
  · rintro ⟨hin, hun⟩
    exact ⟨(InUse.congr hu hm).1 hin, (Unowned.congr ho).1 hun⟩
  · rintro ⟨hin, hun⟩
    exact ⟨(InUse.congr hu hm).2 hin, (Unowned.congr ho).2 hun⟩

/-- Without pending work the pool is sound when its other parts are those of a sound pool. -/
lemma Sound.of_idle {q : Pool F} (h : Sound q) (hp : p'.pending = []) (hu : p'.unused = q.unused)
    (hm : p'.made = q.made) (ho : p'.owner = q.owner) : Sound p' where
  pending_nodup := hp ▸ List.nodup_nil
  unused_nodup := hu ▸ h.unused_nodup
  disjoint := hp ▸ List.disjoint_nil_left _
  owner_inj hf hg := h.owner_inj (ho ▸ hf) (ho ▸ hg)
  owner_not_unused hf := hu ▸ h.owner_not_unused (ho ▸ hf)
  pending_lt hx := absurd (hp ▸ hx) List.not_mem_nil
  unused_lt hx := hm ▸ h.unused_lt (hu ▸ hx)
  owner_lt hf := hm ▸ h.owner_lt (ho ▸ hf)

/-- The pool without its pending work. -/
def idle (p : Pool F) : Pool F := { p with pending := [] }

lemma take_idle (ht : p.take = (t, q)) : p.idle.take = (t, q.idle) := by
  unfold Pool.take at ht
  unfold Pool.take idle
  split at ht
  · rename_i hu
    obtain ⟨rfl, rfl⟩ := Prod.mk.inj ht
    simp only [hu]
  · rename_i hu
    obtain ⟨rfl, rfl⟩ := Prod.mk.inj ht
    simp only [hu]

lemma lost_idle {x : ℕ} : Lost x p.idle ↔ Lost x p := Lost.congr rfl rfl rfl

lemma Sound.idle (h : Sound p) : Sound p.idle := h.of_idle rfl rfl rfl rfl

/-- When nobody has an object, every object is on the list of unused ones exactly once if and only if
none is lost. -/
theorem Sound.count_unused_iff (h : Sound p) (ho : ∀ f, p.owner f = none) :
    (∀ x < p.made, p.unused.count x = 1) ↔ ∀ x, ¬ Lost x p := by
  constructor
  · rintro hc x ⟨⟨hlt, hn⟩, -⟩
    have h1 := hc x hlt
    rw [List.count_eq_zero_of_not_mem hn] at h1
    omega
  · intro hl x hlt
    apply List.count_eq_one_of_mem h.unused_nodup
    by_contra hn
    exact hl x ⟨⟨hlt, hn⟩, fun f hf => Option.some_ne_none x (hf.symm.trans (ho f))⟩

variable [DecidableEq F]

/-- An owner takes an object, or gives up its object and recycles it, whatever becomes of the pending
work. -/
inductive Keeps (p p' : Pool F) : Prop
  | stays (unused : p'.unused = p.unused) (made : p'.made = p.made) (owner : p'.owner = p.owner)
  | takes (f : F) (t : ℕ) (q : Pool F) (take : p.take = (t, q)) (free : p.owner f = none)
      (unused : p'.unused = q.unused) (made : p'.made = q.made)
      (owner : p'.owner = Function.update p.owner f (some t))
  | returns (f : F) (t : ℕ) (has : p.owner f = some t) (unused : p'.unused = t :: p.unused)
      (made : p'.made = p.made) (owner : p'.owner = Function.update p.owner f none)

/-- An object is taken without an owner, or its owner gives it up and does not recycle it. -/
inductive Drops (p p' : Pool F) : Prop
  | takes (t : ℕ) (q : Pool F) (take : p.take = (t, q)) (unused : p'.unused = q.unused)
      (made : p'.made = q.made) (owner : p'.owner = p.owner)
  | leaves (f : F) (t : ℕ) (has : p.owner f = some t) (unused : p'.unused = p.unused)
      (made : p'.made = p.made) (owner : p'.owner = Function.update p.owner f none)

lemma unowned_update_some {x : ℕ} (hf : p.owner f = none)
    (ho : p'.owner = Function.update p.owner f (some t)) :
    Unowned x p' ↔ x ≠ t ∧ Unowned x p := by
  constructor
  · intro h
    refine ⟨?_, fun g hg => ?_⟩
    · rintro rfl
      exact h f (by rw [ho, Function.update_self])
    · have hne : g ≠ f := by
        rintro rfl
        exact Option.some_ne_none _ (hg.symm.trans hf)
      exact h g (by rw [ho, Function.update_of_ne hne, hg])
  · rintro ⟨hx, h⟩ g hg
    rw [ho, Function.update_apply] at hg
    split at hg
    · exact hx (Option.some.inj hg).symm
    · exact h g hg

lemma unowned_update_none (h : Sound p) {x : ℕ} (hf : p.owner f = some t)
    (ho : p'.owner = Function.update p.owner f none) : Unowned x p' ↔ x = t ∨ Unowned x p := by
  constructor
  · intro hx
    by_contra hn
    rw [not_or] at hn
    obtain ⟨hne, hn⟩ := hn
    refine hn fun g hg => hx g ?_
    have hgf : g ≠ f := by
      rintro rfl
      exact hne (Option.some.inj (hg.symm.trans hf))
    rw [ho, Function.update_of_ne hgf, hg]
  · intro hx g hg
    rw [ho, Function.update_apply] at hg
    split at hg
    · cases hg
    · rename_i hgf
      rcases hx with rfl | hx
      · exact hgf (h.owner_inj hg hf)
      · exact hx g hg

/-- **Nothing is lost**, and nothing lost comes back, by what owners do with their objects. -/
theorem Sound.lost_iff (h : Sound p) (hk : Keeps p p') {x : ℕ} : Lost x p' ↔ Lost x p := by
  cases hk with
  | stays hu hm ho => exact Lost.congr hu hm ho
  | takes f t q ht hf hu hm ho =>
    constructor
    · rintro ⟨hin, hun⟩
      obtain ⟨hne, hun⟩ := (unowned_update_some hf ho).1 hun
      exact ⟨(inUse_take_iff ht hne).1 ((InUse.congr hu hm).1 hin), hun⟩
    · rintro ⟨hin, hun⟩
      have hne : x ≠ t := by
        rintro rfl
        exact not_inUse_of_take ht hin
      exact ⟨(InUse.congr hu hm).2 ((inUse_take_iff ht hne).2 hin),
        (unowned_update_some hf ho).2 ⟨hne, hun⟩⟩
  | returns f t hf hu hm ho =>
    constructor
    · rintro ⟨⟨hlt, hn⟩, hun⟩
      have hne : x ≠ t := by
        rintro rfl
        exact hn (hu ▸ List.mem_cons_self)
      refine ⟨⟨hm ▸ hlt, fun hx => hn ?_⟩, ((unowned_update_none h hf ho).1 hun).resolve_left hne⟩
      rw [hu]
      exact List.mem_cons_of_mem _ hx
    · rintro ⟨⟨hlt, hn⟩, hun⟩
      refine ⟨⟨hm.symm ▸ hlt, fun hx => ?_⟩, (unowned_update_none h hf ho).2 (.inr hun)⟩
      rcases List.mem_cons.1 (hu ▸ hx) with rfl | hx
      · exact hun f hf
      · exact hn hx

/-- **A dropped object is lost**, and what was lost stays lost. -/
theorem Sound.lost_of_drops (h : Sound p) (hd : Drops p p') :
    (∃ x, Lost x p') ∧ ∀ x, Lost x p → Lost x p' := by
  cases hd with
  | takes t q ht hu hm ho =>
    obtain ⟨-, huse, hun, -⟩ := h.take ht
    refine ⟨⟨t, (InUse.congr hu hm).2 huse, (Unowned.congr ho).2 hun⟩, ?_⟩
    rintro x ⟨hin, hun⟩
    have hne : x ≠ t := by
      rintro rfl
      exact not_inUse_of_take ht hin
    exact ⟨(InUse.congr hu hm).2 ((inUse_take_iff ht hne).2 hin), (Unowned.congr ho).2 hun⟩
  | leaves f t hf hu hm ho =>
    refine ⟨⟨t, (InUse.congr hu hm).2 (h.inUse hf), (unowned_update_none h hf ho).2 (.inl rfl)⟩, ?_⟩
    rintro x ⟨hin, hun⟩
    exact ⟨(InUse.congr hu hm).2 hin, (unowned_update_none h hf ho).2 (.inr hun)⟩

/-- **Without pending work** nothing that owners do breaks the pool. -/
theorem Sound.of_keeps (h : Sound p) (hp : p.pending = []) (hk : Keeps p p') (hp' : p'.pending = []) :
    Sound p' := by
  cases hk with
  | stays hu hm ho => exact h.of_idle hp' hu hm ho
  | takes f t q ht hf hu hm ho =>
    obtain ⟨hs, huse, hun, -, howner, -⟩ := h.take ht
    have hq : Sound (q.own f t) := hs.own huse fun g hg => hun g (howner ▸ hg)
    refine hq.of_idle hp' hu hm ?_
    rw [ho, ← howner]
    rfl
  | returns f t hf hu hm ho =>
    have hin := h.inUse hf
    have hq : Sound ((p.disown f).recycle t) := by
      apply h.disown.recycle ⟨hin.lt, hin.not_unused⟩ (h.unowned_disown hf)
      show t ∉ p.pending
      rw [hp]
      exact List.not_mem_nil
    exact hq.of_idle hp' hu hm ho

theorem Sound.of_drops (h : Sound p) (hd : Drops p p') (hp' : p'.pending = []) : Sound p' := by
  cases hd with
  | takes t q ht hu hm ho =>
    obtain ⟨hs, -, -, -, howner, -⟩ := h.take ht
    exact hs.of_idle hp' hu hm (ho.trans howner.symm)
  | leaves f t hf hu hm ho => exact (h.disown (f := f)).of_idle hp' hu hm ho

lemma Keeps.idle (hk : Keeps p p') : Keeps p.idle p'.idle := by
  cases hk with
  | stays hu hm ho => exact .stays hu hm ho
  | takes f t q ht hf hu hm ho => exact .takes f t q.idle (take_idle ht) hf hu hm ho
  | returns f t hf hu hm ho => exact .returns f t hf hu hm ho

lemma Drops.idle (hd : Drops p p') : Drops p.idle p'.idle := by
  cases hd with
  | takes t q ht hu hm ho => exact .takes t q.idle (take_idle ht) hu hm ho
  | leaves f t hf hu hm ho => exact .leaves f t hf hu hm ho

/-- **Whatever becomes of the pending work**, what owners do keeps the rest of the pool sound, and what
was lost stays lost. -/
theorem Sound.idle_step (h : Sound p.idle) (hk : Keeps p p' ∨ Drops p p') :
    Sound p'.idle ∧ ∀ x, Lost x p → Lost x p' := by
  rcases hk with hk | hd
  · exact ⟨h.of_keeps rfl hk.idle rfl, fun x hx => lost_idle.1 ((h.lost_iff hk.idle).2 (lost_idle.2 hx))⟩
  · refine ⟨h.of_drops hd.idle rfl, fun x hx => lost_idle.1 ?_⟩
    exact (h.lost_of_drops hd.idle).2 x (lost_idle.2 hx)

end Lost

end Pool

end CfgMgmt.Lib
