import Mathlib.Data.List.Basic
import Mathlib.Data.List.Induction
import Mathlib.Tactic.Common

/-!
# Runs of a labelled machine

A machine is a partial step function `σ → ε → Option σ`; `none` means that the event is not enabled.
A run is the list of its events.  Two rules are used throughout: what every step keeps, a run keeps
(`run_invariant`), and what every step keeps *under a condition on the step*, every state of a run
whose steps all meet the condition has (`run_invariant_of_steps`).
-/

namespace CfgMgmt.Lib.Machine

variable {σ ε : Type*} (step : σ → ε → Option σ)

/-- The state after the events `es`, when every one of them is enabled in its turn. -/
def run : σ → List ε → Option σ
  | s, [] => some s
  | s, e :: es => (step s e).bind fun s' => run s' es

/-- Every step of the run of `es` from `s` meets the condition `ok` in the state it starts from. -/
def Steps (ok : σ → ε → Prop) : σ → List ε → Prop
  | _, [] => True
  | s, e :: es => ok s e ∧ ∀ s', step s e = some s' → Steps ok s' es

/-- Every state passed through by the run of `es` from `s`, the first and the last included. -/
def States (P : σ → Prop) (s : σ) (es : List ε) : Prop :=
  ∀ pre, pre <+: es → ∀ s', run step s pre = some s' → P s'

variable {step}

instance Steps.decidable {ok : σ → ε → Prop} [∀ s e, Decidable (ok s e)] :
    ∀ (s : σ) (es : List ε), Decidable (Steps step ok s es)
  | _, [] => .isTrue trivial
  | s, e :: es =>
    have : ∀ s', Decidable (Steps step ok s' es) := fun s' => Steps.decidable s' es
    inferInstanceAs (Decidable (ok s e ∧ ∀ s' ∈ step s e, Steps step ok s' es))

@[simp] lemma run_nil (s : σ) : run step s [] = some s := rfl

lemma run_cons_eq_some {s s' : σ} {e : ε} {es : List ε} :
    run step s (e :: es) = some s' ↔ ∃ t, step s e = some t ∧ run step t es = some s' := by
  simp [run, Option.bind_eq_some_iff]

lemma run_append (s : σ) (es fs : List ε) :
    run step s (es ++ fs) = (run step s es).bind fun t => run step t fs := by
  induction es generalizing s with
  | nil => rfl
  | cons e es ih =>
    simp only [List.cons_append, run]
    cases step s e with
    | none => rfl
    | some t => exact ih t

lemma run_append_eq_some {s s' : σ} {es fs : List ε} :
    run step s (es ++ fs) = some s' ↔ ∃ t, run step s es = some t ∧ run step t fs = some s' := by
  rw [run_append, Option.bind_eq_some_iff]

lemma run_concat_eq_some {s s' : σ} {es : List ε} {e : ε} :
    run step s (es ++ [e]) = some s' ↔ ∃ t, run step s es = some t ∧ step t e = some s' := by
  simp [run_append_eq_some, run_cons_eq_some]

lemma Steps.mono {ok ok' : σ → ε → Prop} (h : ∀ s e, ok s e → ok' s e) :
    ∀ {s : σ} {es : List ε}, Steps step ok s es → Steps step ok' s es
  | _, [], _ => trivial
  | _, _ :: _, ⟨h1, h2⟩ => ⟨h _ _ h1, fun s' hs => (h2 s' hs).mono h⟩

lemma Steps.and {ok ok' : σ → ε → Prop} :
    ∀ {s : σ} {es : List ε}, Steps step ok s es → Steps step ok' s es →
      Steps step (fun s e => ok s e ∧ ok' s e) s es
  | _, [], _, _ => trivial
  | _, _ :: _, ⟨h1, h2⟩, ⟨h1', h2'⟩ => ⟨⟨h1, h1'⟩, fun s' hs => (h2 s' hs).and (h2' s' hs)⟩

/-- A condition on the events alone is a condition on the steps. -/
lemma Steps.and_forall {ok : σ → ε → Prop} {P : ε → Prop} :
    ∀ {s : σ} {es : List ε}, Steps step ok s es → (∀ e ∈ es, P e) →
      Steps step (fun s e => ok s e ∧ P e) s es
  | _, [], _, _ => trivial
  | _, e :: _, ⟨h1, h2⟩, hP =>
    ⟨⟨h1, hP e List.mem_cons_self⟩, fun s' hs =>
      (h2 s' hs).and_forall fun e' he' => hP e' (List.mem_cons_of_mem _ he')⟩

/-- The steps of a run whose first event is enabled. -/
lemma steps_cons {ok : σ → ε → Prop} {s t : σ} {e : ε} {es : List ε} (h : step s e = some t) :
    Steps step ok s (e :: es) ↔ ok s e ∧ Steps step ok t es := by
  refine and_congr_right fun _ => ⟨fun h' => h' t h, fun h' s' hs => ?_⟩
  obtain rfl := Option.some.inj (h.symm.trans hs)
  exact h'

lemma steps_append {ok : σ → ε → Prop} {s : σ} {es fs : List ε} :
    Steps step ok s (es ++ fs) ↔
      Steps step ok s es ∧ ∀ t, run step s es = some t → Steps step ok t fs := by
  induction es generalizing s with
  | nil => simp [Steps]
  | cons e es ih =>
    simp only [List.cons_append, Steps, ih, run_cons_eq_some]
    constructor
    · rintro ⟨h1, h2⟩
      exact ⟨⟨h1, fun s' hs => (h2 s' hs).1⟩, fun t ⟨s', hs, hr⟩ => (h2 s' hs).2 t hr⟩
    · rintro ⟨⟨h1, h2⟩, h3⟩
      exact ⟨h1, fun s' hs => ⟨h2 s' hs, fun t hr => h3 t ⟨s', hs, hr⟩⟩⟩

/-- **The invariant rule.**  What every step keeps, every run keeps. -/
theorem run_invariant {P : σ → Prop} (hstep : ∀ s e s', P s → step s e = some s' → P s') :
    ∀ {s s' : σ} {es : List ε}, P s → run step s es = some s' → P s' := by
  intro s s' es
  induction es generalizing s with
  | nil => rintro hs ⟨⟩; exact hs
  | cons e es ih =>
    intro hs hr
    obtain ⟨t, ht, hr⟩ := run_cons_eq_some.1 hr
    exact ih (hstep s e t hs ht) hr

/-- **The invariant rule under a condition on the steps.** -/
theorem run_invariant_of_steps {P : σ → Prop} {ok : σ → ε → Prop}
    (hstep : ∀ s e s', P s → ok s e → step s e = some s' → P s') :
    ∀ {s s' : σ} {es : List ε}, P s → Steps step ok s es → run step s es = some s' → P s' := by
  intro s s' es
  induction es generalizing s with
  | nil => rintro hs - ⟨⟩; exact hs
  | cons e es ih =>
    rintro hs ⟨hok, hrest⟩ hr
    obtain ⟨t, ht, hr⟩ := run_cons_eq_some.1 hr
    exact ih (hstep s e t hs hok ht) (hrest t ht) hr

/-- **The invariant rule with the events so far.** -/
theorem run_invariant_of_events {P : List ε → σ → Prop} {ok : σ → ε → Prop} {s : σ}
    (hstep : ∀ es t e t', P es t → ok t e → step t e = some t' → P (es ++ [e]) t') (h0 : P [] s) :
    ∀ {es : List ε} {s' : σ}, Steps step ok s es → run step s es = some s' → P es s' := by
  intro es
  induction es using List.reverseRecOn with
  | nil => rintro s' - ⟨⟩; exact h0
  | append_singleton es e ih =>
    intro s' h hr
    obtain ⟨t, ht, hs⟩ := run_concat_eq_some.1 hr
    obtain ⟨hes, he⟩ := steps_append.1 h
    exact hstep es t e s' (ih hes ht) (he t ht).1 hs

lemma steps_of_isPrefix {ok : σ → ε → Prop} {s : σ} {pre es : List ε} (h : Steps step ok s es)
    (hp : pre <+: es) : Steps step ok s pre := by
  obtain ⟨fs, rfl⟩ := hp
  exact (steps_append.1 h).1

theorem states_of_steps {P : σ → Prop} {ok : σ → ε → Prop}
    (hstep : ∀ s e s', P s → ok s e → step s e = some s' → P s') {s : σ} {es : List ε} (hs : P s)
    (h : Steps step ok s es) : States step P s es :=
  fun _ hp _ hr => run_invariant_of_steps hstep hs (steps_of_isPrefix h hp) hr

/-- When a step that starts in the invariant `I` and leads to `P` meets the condition, and keeps `I`
then, a run through `P` meets the condition in every step. -/
theorem steps_of_states {I P : σ → Prop} {ok : σ → ε → Prop}
    (hstep : ∀ s e s', I s → ok s e → step s e = some s' → I s')
    (hok : ∀ s e, I s → (∀ s', step s e = some s' → P s') → ok s e) :
    ∀ {s : σ} {es : List ε}, I s → States step P s es → Steps step ok s es := by
  intro s es
  induction es generalizing s with
  | nil => intro _ _; trivial
  | cons e es ih =>
    intro hs h
    have hnext : ∀ s', step s e = some s' → States step P s' es := by
      intro s' hs pre hp t ht
      exact h (e :: pre) (List.cons_prefix_cons.2 ⟨rfl, hp⟩) t (run_cons_eq_some.2 ⟨s', hs, ht⟩)
    have he : ok s e := hok s e hs fun s' h' => hnext s' h' [] List.nil_prefix s' rfl
    exact ⟨he, fun s' h' => ih (hstep s e s' hs he h') (hnext s' h')⟩

/-- **An exact condition**: when the steps that meet the condition keep the invariant `I`, which
implies `P`, and the others lead out of `P`, a run stays in `P` if and only if all of its steps meet the
condition. -/
theorem states_iff_steps {I P : σ → Prop} {ok : σ → ε → Prop}
    (hstep : ∀ s e s', I s → ok s e → step s e = some s' → I s') (hP : ∀ s, I s → P s)
    (hok : ∀ s e, I s → (∀ s', step s e = some s' → P s') → ok s e) {s : σ} {es : List ε}
    (hs : I s) : States step P s es ↔ Steps step ok s es := by
  constructor
  · exact steps_of_states hstep hok hs
  · intro h pre hp s' hr
    exact hP s' (states_of_steps hstep hs h pre hp s' hr)

/-- Two conditions that mean the same in the invariant `I` are met by the same runs, when `I` is kept by
the steps that meet one of them and the condition `ok`. -/
theorem steps_congr {I : σ → Prop} {ok ok₁ ok₂ : σ → ε → Prop}
    (hiff : ∀ s e, I s → (ok₁ s e ↔ ok₂ s e))
    (hstep : ∀ s e s', I s → ok s e → ok₂ s e → step s e = some s' → I s') :
    ∀ {s : σ} {es : List ε}, I s → Steps step ok s es →
      (Steps step ok₁ s es ↔ Steps step ok₂ s es) := by
  intro s es
  induction es generalizing s with
  | nil => exact fun _ _ => Iff.rfl
  | cons e es ih =>
    rintro hs ⟨hok, hrest⟩
    have hnext : ok₂ s e → ∀ s', step s e = some s' →
        (Steps step ok₁ s' es ↔ Steps step ok₂ s' es) :=
      fun h₂ s' h' => ih (hstep s e s' hs hok h₂ h') (hrest s' h')
    constructor
    · rintro ⟨h₁, h⟩
      have h₂ := (hiff s e hs).1 h₁
      exact ⟨h₂, fun s' h' => (hnext h₂ s' h').1 (h s' h')⟩
    · rintro ⟨h₂, h⟩
      exact ⟨(hiff s e hs).2 h₂, fun s' h' => (hnext h₂ s' h').2 (h s' h')⟩

/-- **A property that is lost for good**: when the steps of a run that are `bad` end the property `P`,
the others keep it, and nothing brings it back, a run ends in `P` if and only if none of its steps is
bad. -/
theorem iff_no_bad_step {I P : σ → Prop} {ok bad : σ → ε → Prop}
    (hinv : ∀ s e s', I s → ok s e → step s e = some s' → I s')
    (hkeep : ∀ s e s', I s → ok s e → ¬ bad s e → step s e = some s' → (P s' ↔ P s))
    (hbad : ∀ s e s', I s → ok s e → bad s e → step s e = some s' → ¬ P s') :
    ∀ {s s' : σ} {es : List ε}, I s → Steps step ok s es → run step s es = some s' →
      (P s' ↔ P s ∧ Steps step (fun s e => ¬ bad s e) s es) := by
  intro s s' es
  induction es generalizing s with
  | nil =>
    rintro - - ⟨⟩
    exact ⟨fun h => ⟨h, trivial⟩, And.left⟩
  | cons e es ih =>
    rintro hs ⟨hok, hrest⟩ hr
    obtain ⟨t, ht, hr⟩ := run_cons_eq_some.1 hr
    rw [ih (hinv s e t hs hok ht) (hrest t ht) hr, steps_cons ht]
    by_cases hb : bad s e
    · have hn := hbad s e t hs hok hb ht
      exact iff_of_false (fun h => hn h.1) fun h => h.2.1 hb
    · rw [hkeep s e t hs hok hb ht]
      exact and_congr_right fun _ => (and_iff_right hb).symm

/-! ### Logs -/

section Logs

variable {α : Type*} {l l' : List α} {j : ℕ} {a b : α}

/-- What was recorded stays in its place when the log grows. -/
lemma getElem?_of_isPrefix (h : l <+: l') (hj : l[j]? = some a) : l'[j]? = some a := by
  obtain ⟨hlt, rfl⟩ := List.getElem?_eq_some_iff.1 hj
  exact List.prefix_iff_getElem?.1 h j hlt

/-- An entry of a log that has grown by one is an old one, or the last one. -/
lemma getElem?_concat_cases (hj : (l ++ [b])[j]? = some a) :
    l[j]? = some a ∨ j = l.length ∧ a = b := by
  rcases Nat.lt_trichotomy j l.length with hlt | rfl | hgt
  · rw [List.getElem?_append_left hlt] at hj
    exact .inl hj
  · rw [List.getElem?_concat_length] at hj
    exact .inr ⟨rfl, (Option.some.inj hj).symm⟩
  · rw [List.getElem?_eq_none (by rw [List.length_append, List.length_singleton]; omega)] at hj
    cases hj

end Logs

end CfgMgmt.Lib.Machine
