import Mathlib.Logic.Relation
import Mathlib.Tactic.Common

/-!
# Programs that make calls

A program is a tree: it has returned, or it makes a call and goes on with what the call returns.  The
rest of the world is an `Env`, which says what a call may return and do, and what others may do between
any two calls.  `Ensures` is what is proved of every run of a program: an invariant of every state that
it runs through, and a condition on its result.  The rules for it are those of rely and guarantee.
`Reaches` is what is proved of one run.
-/

namespace CfgMgmt.Lib.Process

open Relation (ReflTransGen)

/-- A program with calls `C`, each of which returns an `R c`. -/
inductive Prog (C : Type) (R : C → Type) (α : Type) : Type
  | ret (a : α)
  | call (c : C) (next : R c → Prog C R α)

/-- The world of a program: what a call may return and do to the state, and what others may do to it. -/
structure Env (σ C : Type) (R : C → Type) where
  perform : σ → (c : C) → R c → σ → Prop
  others : σ → σ → Prop

section Programs

variable {C : Type} {R : C → Type} {α β γ : Type}

namespace Prog

def bind : Prog C R α → (α → Prog C R β) → Prog C R β
  | ret a, f => f a
  | call c next, f => call c fun r => (next r).bind f

instance : Monad (Prog C R) where
  pure := ret
  bind := bind

/-- The program that makes one call. -/
def make (c : C) : Prog C R (R c) := call c ret

variable (a : α) (f : α → Prog C R β)

@[simp] lemma pure_eq : (pure a : Prog C R α) = ret a := rfl

@[simp] lemma ret_bind : (ret a : Prog C R α) >>= f = f a := rfl

@[simp] lemma call_bind (c : C) (next : R c → Prog C R α) :
    call c next >>= f = call c fun r => next r >>= f := rfl

@[simp] lemma make_bind (c : C) (g : R c → Prog C R β) : make c >>= g = call c g := rfl

end Prog

/-! ### Running a program -/

variable {σ : Type}

/-- One step: the program makes its next call, or others do something. -/
inductive Step (env : Env σ C R) : σ × Prog C R α → σ × Prog C R α → Prop
  | call {s s' : σ} {c : C} {r : R c} (next : R c → Prog C R α) (h : env.perform s c r s') :
    Step env (s, .call c next) (s', next r)
  | others {s s' : σ} (p : Prog C R α) (h : env.others s s') : Step env (s, p) (s', p)

/-- The program may come from one state to another one. -/
abbrev Runs (env : Env σ C R) : σ × Prog C R α → σ × Prog C R α → Prop := ReflTransGen (Step env)

variable {env : Env σ C R} {s s' : σ}

lemma Runs.others (p : Prog C R α) (h : ReflTransGen env.others s s') : Runs env (s, p) (s', p) := by
  induction h with
  | refl => exact .refl
  | tail _ h ih => exact ih.tail (.others p h)

lemma Runs.call {c : C} {r : R c} (next : R c → Prog C R α) (h : env.perform s c r s') :
    Runs env (s, .call c next) (s', next r) :=
  .single (.call next h)

lemma Step.bind (f : α → Prog C R β) {x y : σ × Prog C R α} (h : Step env x y) :
    Step env (x.1, x.2 >>= f) (y.1, y.2 >>= f) := by
  cases h with
  | call next h => exact .call (fun r => next r >>= f) h
  | others p h => exact .others _ h

/-- A program runs as the first part of a longer one. -/
lemma Runs.bind (f : α → Prog C R β) {p q : Prog C R α} (h : Runs env (s, p) (s', q)) :
    Runs env (s, p >>= f) (s', q >>= f) :=
  ReflTransGen.lift (fun x : σ × Prog C R α => (x.1, x.2 >>= f)) (p := Step env)
    (fun _ _ => Step.bind f) _ _ h

/-! ### What a program ensures -/

/-- From the state `s` on, the invariant `I` holds whatever others do, and the program returns with `Q`. -/
def Ensures (env : Env σ C R) (I : σ → Prop) (Q : α → σ → Prop) : Prog C R α → σ → Prop
  | .ret a, s => ∀ s', ReflTransGen env.others s s' → I s' ∧ Q a s'
  | .call c next, s => ∀ s', ReflTransGen env.others s s' →
    I s' ∧ ∀ r s'', env.perform s' c r s'' → Ensures env I Q (next r) s''

/-- Others keep the assertion. -/
def Stable (env : Env σ C R) (P : σ → Prop) : Prop := ∀ s s', P s → env.others s s' → P s'

lemma Stable.many {P : σ → Prop} (h : Stable env P) (hs : P s) (ho : ReflTransGen env.others s s') :
    P s' := by
  induction ho with
  | refl => exact hs
  | tail _ ho ih => exact h _ _ ih ho

namespace Ensures

variable {I : σ → Prop} {P : σ → Prop} {Q : α → σ → Prop} {Q' : β → σ → Prop} {p : Prog C R α}

lemma others (h : Ensures env I Q p s) (ho : ReflTransGen env.others s s') : Ensures env I Q p s' := by
  cases p with
  | ret a => exact fun t ht => h t (ho.trans ht)
  | call c next => exact fun t ht => h t (ho.trans ht)

lemma invariant (h : Ensures env I Q p s) : I s := by
  cases p with
  | ret a => exact (h s .refl).1
  | call c next => exact (h s .refl).1

/-- **The rule for a result.** -/
lemma ret {a : α} (hP : Stable env P) (hI : ∀ s, P s → I s) (hQ : ∀ s, P s → Q a s) (h : P s) :
    Ensures env I Q (.ret a) s :=
  fun _ ho => ⟨hI _ (hP.many h ho), hQ _ (hP.many h ho)⟩

/-- **The rule for a call**, in states that others keep. -/
lemma call {c : C} {next : R c → Prog C R α} (hP : Stable env P) (hI : ∀ s, P s → I s)
    (hcall : ∀ s r s', P s → env.perform s c r s' → Ensures env I Q (next r) s') (h : P s) :
    Ensures env I Q (.call c next) s :=
  fun _ ho => ⟨hI _ (hP.many h ho), fun r _ hp => hcall _ r _ (hP.many h ho) hp⟩

lemma mono {Q₁ : α → σ → Prop} (h : Ensures env I Q p s) (hQ : ∀ a s, Q a s → Q₁ a s) :
    Ensures env I Q₁ p s := by
  induction p generalizing s with
  | ret a => exact fun t ho => ⟨(h t ho).1, hQ a t (h t ho).2⟩
  | call c next ih => exact fun t ho => ⟨(h t ho).1, fun r t' hp => ih r ((h t ho).2 r t' hp)⟩

/-- **The rule for a sequence.** -/
theorem bind {f : α → Prog C R β} (h : Ensures env I Q p s)
    (hf : ∀ a s, Q a s → Ensures env I Q' (f a) s) : Ensures env I Q' (p >>= f) s := by
  induction p generalizing s with
  | ret a => exact hf a s (h s .refl).2
  | call c next ih => exact fun t ho => ⟨(h t ho).1, fun r t' hp => ih r ((h t ho).2 r t' hp)⟩

lemma step {x y : σ × Prog C R α} (h : Ensures env I Q x.2 x.1) (hs : Step env x y) :
    Ensures env I Q y.2 y.1 := by
  cases hs with
  | call next hp => exact (h _ .refl).2 _ _ hp
  | others p ho => exact h.others (.single ho)

/-- **Whatever a program runs through** meets the invariant. -/
theorem of_runs {q : Prog C R α} (h : Ensures env I Q p s) (hr : Runs env (s, p) (s', q)) :
    Ensures env I Q q s' := by
  have hall : ∀ y, Runs env (s, p) y → Ensures env I Q y.2 y.1 := by
    intro y hy
    induction hy with
    | refl => exact h
    | tail _ hs ih => exact ih.step hs
  exact hall (s', q) hr

/-- **When a program returns**, its result is as it ensures. -/
theorem result {a : α} (h : Ensures env I Q p s) (hr : Runs env (s, p) (s', .ret a)) : Q a s' :=
  ((h.of_runs hr) s' .refl).2

end Ensures

/-! ### What a program may do -/

/-- From the state `s` on the program may return with `Q`. -/
def Reaches (env : Env σ C R) (Q : α → σ → Prop) (p : Prog C R α) (s : σ) : Prop :=
  ∃ a s', Runs env (s, p) (s', .ret a) ∧ Q a s'

namespace Reaches

variable {I : σ → Prop} {Q Q₁ : α → σ → Prop} {Q' : β → σ → Prop} {p : Prog C R α}

lemma ret {a : α} (h : Q a s) : Reaches env Q (.ret a) s := ⟨a, s, .refl, h⟩

lemma call {c : C} {r : R c} {next : R c → Prog C R α} (hp : env.perform s c r s')
    (h : Reaches env Q (next r) s') : Reaches env Q (.call c next) s := by
  obtain ⟨a, t, hr, hQ⟩ := h
  exact ⟨a, t, (Runs.call next hp).trans hr, hQ⟩

lemma mono (h : Reaches env Q p s) (hQ : ∀ a s, Q a s → Q₁ a s) : Reaches env Q₁ p s := by
  obtain ⟨a, t, hr, h⟩ := h
  exact ⟨a, t, hr, hQ a t h⟩

lemma others (ho : ReflTransGen env.others s s') (h : Reaches env Q p s') : Reaches env Q p s := by
  obtain ⟨a, t, hr, hQ⟩ := h
  exact ⟨a, t, (Runs.others p ho).trans hr, hQ⟩

/-- **The rule for a sequence.** -/
theorem bind {f : α → Prog C R β} (h : Reaches env Q p s)
    (hf : ∀ a s, Q a s → Reaches env Q' (f a) s) : Reaches env Q' (p >>= f) s := by
  obtain ⟨a, t, hr, hQ⟩ := h
  obtain ⟨b, t', hr', hQ'⟩ := hf a t hQ
  exact ⟨b, t', (hr.bind f).trans hr', hQ'⟩

/-- What the program ensures holds of this run too. -/
theorem ensures (h : Reaches env Q p s) (he : Ensures env I Q₁ p s) :
    Reaches env (fun a s => Q a s ∧ Q₁ a s) p s := by
  obtain ⟨a, t, hr, hQ⟩ := h
  exact ⟨a, t, hr, hQ, he.result hr⟩

end Reaches

end Programs

end CfgMgmt.Lib.Process
