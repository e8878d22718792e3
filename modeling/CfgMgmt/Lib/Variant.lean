import Mathlib.Tactic.Linarith
import CfgMgmt.Lib.Machine

/-!
# Runs that end

A variant is a number that every step makes smaller.  A run is no longer than the variant of its first
state (`length_le`); and when only the states that are `final` have no step that may be taken, every run
can be continued to a final one (`exists_final`), and one that cannot be continued is at its end
(`final_of_stuck`).  Where only the steps of one party make the variant smaller, that party reaches its goal
when it has taken enough of them, whatever the others do in between (`Approaches.reaches`).
-/

namespace CfgMgmt.Lib.Variant

open CfgMgmt.Lib.Machine

variable {σ ε : Type*} {step : σ → ε → Option σ} {I final : σ → Prop} {ok : σ → ε → Prop} {μ : σ → ℕ}

/-- The steps that are `ok` keep the invariant `I` and make the variant `μ` smaller. -/
structure Decreases (step : σ → ε → Option σ) (I : σ → Prop) (ok : σ → ε → Prop) (μ : σ → ℕ) : Prop where
  keeps : ∀ s e s', I s → ok s e → step s e = some s' → I s'
  lt : ∀ s e s', I s → ok s e → step s e = some s' → μ s' < μ s

/-- In a state that is not final there is a step. -/
def Progresses (step : σ → ε → Option σ) (I : σ → Prop) (ok : σ → ε → Prop) (final : σ → Prop) : Prop :=
  ∀ s, I s → ¬ final s → ∃ e s', ok s e ∧ step s e = some s'

/-- **A run is no longer than its variant.** -/
theorem length_le (h : Decreases step I ok μ) : ∀ {s s' : σ} {es : List ε}, I s → Steps step ok s es →
    run step s es = some s' → I s' ∧ es.length + μ s' ≤ μ s := by
  intro s s' es
  induction es generalizing s with
  | nil =>
    rintro hs - ⟨⟩
    exact ⟨hs, (Nat.zero_add _).le⟩
  | cons e es ih =>
    rintro hs ⟨hok, hrest⟩ hr
    obtain ⟨t, ht, hr⟩ := run_cons_eq_some.1 hr
    obtain ⟨hs', hle⟩ := ih (h.keeps s e t hs hok ht) (hrest t ht) hr
    have hlt := h.lt s e t hs hok ht
    refine ⟨hs', ?_⟩
    rw [List.length_cons]
    omega

/-- **Every run can be continued to a final state.** -/
theorem exists_final (h : Decreases step I ok μ) (hp : Progresses step I ok final) {s : σ} (hs : I s) :
    ∃ es s', Steps step ok s es ∧ run step s es = some s' ∧ I s' ∧ final s' := by
  induction hn : μ s using Nat.strong_induction_on generalizing s with
  | _ n ih =>
    by_cases hf : final s
    · exact ⟨[], s, trivial, rfl, hs, hf⟩
    · obtain ⟨e, t, hok, ht⟩ := hp s hs hf
      obtain ⟨es, s', hsteps, hr, hend⟩ := ih (μ t) (hn ▸ h.lt s e t hs hok ht) (h.keeps s e t hs hok ht) rfl
      exact ⟨e :: es, s', (steps_cons ht).2 ⟨hok, hsteps⟩, run_cons_eq_some.2 ⟨t, ht, hr⟩, hend⟩

/-- A run that cannot be continued has reached a final state. -/
theorem final_of_stuck (h : Decreases step I ok μ) (hp : Progresses step I ok final) {s s' : σ}
    {es : List ε} (hs : I s) (hes : Steps step ok s es) (hr : run step s es = some s')
    (hstuck : ∀ e t, ok s' e → step s' e ≠ some t) : final s' := by
  by_contra hf
  obtain ⟨e, t, hok, ht⟩ := hp s' (length_le h hs hes hr).1 hf
  exact hstuck e t hok ht

/-! ### One party among others -/

/-- Until the `goal` is reached, the steps of the party `own` make the variant `μ` smaller, and the steps of
the others do not make it larger. -/
structure Approaches (step : σ → ε → Option σ) (I goal : σ → Prop) (ok : σ → ε → Prop) (own : ε → Bool)
    (μ : σ → ℕ) : Prop where
  keeps : ∀ s e s', I s → ok s e → step s e = some s' → I s'
  stays : ∀ s e s', goal s → step s e = some s' → goal s'
  pos : ∀ s, I s → ¬ goal s → 0 < μ s
  le : ∀ s e s', I s → own e = false → step s e = some s' → μ s' ≤ μ s
  lt : ∀ s e s', I s → ¬ goal s → own e = true → step s e = some s' → μ s' < μ s

/-- **The goal is reached** after enough own steps. -/
theorem Approaches.reaches {goal : σ → Prop} {own : ε → Bool} (h : Approaches step I goal ok own μ) :
    ∀ {s s' : σ} {es : List ε}, I s → Steps step ok s es → run step s es = some s' →
      μ s ≤ es.countP own → goal s' := by
  intro s s' es
  induction es generalizing s with
  | nil =>
    rintro hs - ⟨⟩ hle
    by_contra hg
    have hpos := h.pos _ hs hg
    rw [List.countP_nil] at hle
    omega
  | cons e es ih =>
    rintro hs ⟨hok, hrest⟩ hr hle
    obtain ⟨t, ht, hr⟩ := run_cons_eq_some.1 hr
    by_cases hg : goal s
    · exact run_invariant h.stays (h.stays s e t hg ht) hr
    · refine ih (h.keeps s e t hs hok ht) (hrest t ht) hr ?_
      cases he : own e with
      | false =>
        rw [List.countP_cons_of_neg (by simp [he])] at hle
        exact (h.le s e t hs he ht).trans hle
      | true =>
        rw [List.countP_cons_of_pos he] at hle
        have hlt := h.lt s e t hs hg he ht
        omega

end CfgMgmt.Lib.Variant
