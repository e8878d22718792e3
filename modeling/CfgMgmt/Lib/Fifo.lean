import CfgMgmt.Lib.Machine

/-!
# FIFO channels

A channel is a machine whose state is the list of the elements in it: an element can be put in at any
time, and only the oldest can be taken out.  An accepted sequence of operations has taken a prefix of what
was put in (`puts_of_run`), and it is accepted too when it is seen through a partial function
(`run_filterMap`).
-/

namespace CfgMgmt.Lib.Fifo

open CfgMgmt.Lib.Machine

inductive Op (α : Type*)
  | put (a : α)
  | take (a : α)

section Channel

variable {α : Type*}

def step [DecidableEq α] : List α → Op α → Option (List α)
  | q, .put a => some (q ++ [a])
  | [], .take _ => none
  | b :: q, .take a => if a = b then some q else none

/-- What is put in. -/
def puts (ops : List (Op α)) : List α := ops.filterMap fun | .put a => some a | .take _ => none

/-- What is taken out. -/
def takes (ops : List (Op α)) : List α := ops.filterMap fun | .put _ => none | .take a => some a

@[simp] lemma puts_append (ops ops' : List (Op α)) : puts (ops ++ ops') = puts ops ++ puts ops' :=
  List.filterMap_append

variable [DecidableEq α] {q q' : List α} {a : α} {ops : List (Op α)}

lemma step_take_eq_some : step q (.take a) = some q' ↔ q = a :: q' := by
  cases q with
  | nil => simp [step]
  | cons b q =>
    simp only [step, Option.ite_none_right_eq_some, Option.some.injEq, List.cons.injEq]
    exact ⟨fun ⟨h, h'⟩ => ⟨h.symm, h'⟩, fun ⟨h, h'⟩ => ⟨h.symm, h'⟩⟩

lemma step_put (q : List α) (a : α) : step q (.put a) = some (q ++ [a]) := by
  cases q <;> rfl

/-- **What was taken out, and what is still inside, is what was put in**, in this order. -/
theorem puts_of_run (h : run step q ops = some q') : q ++ puts ops = takes ops ++ q' := by
  induction ops generalizing q with
  | nil =>
    obtain rfl := Option.some.inj h
    exact List.append_nil q
  | cons o ops ih =>
    obtain ⟨t, ht, h⟩ := run_cons_eq_some.1 h
    have ih := ih h
    cases o with
    | put a =>
      rw [step_put] at ht
      obtain rfl := Option.some.inj ht
      rw [List.append_assoc] at ih
      exact ih
    | take a =>
      obtain rfl := step_take_eq_some.1 ht
      exact congrArg (List.cons a) ih

end Channel

section FilterMap

variable {α β : Type*} (f : α → Option β)

/-- An operation seen through `f`. -/
def Op.filterMap : Op α → Option (Op β)
  | .put a => (f a).map .put
  | .take a => (f a).map .take

variable [DecidableEq α] [DecidableEq β] {q q' : List α} {ops : List (Op α)}

/-- **A channel seen through a partial function is a channel.** -/
theorem run_filterMap (h : run step q ops = some q') :
    run step (q.filterMap f) (ops.filterMap (Op.filterMap f)) = some (q'.filterMap f) := by
  induction ops generalizing q with
  | nil =>
    obtain rfl := Option.some.inj h
    rfl
  | cons o ops ih =>
    obtain ⟨t, ht, h⟩ := run_cons_eq_some.1 h
    have ih := ih h
    cases o with
    | put a =>
      rw [step_put] at ht
      obtain rfl := Option.some.inj ht
      cases hf : f a with
      | none =>
        have ho : Op.filterMap f (.put a) = none := by simp [Op.filterMap, hf]
        rw [List.filterMap_cons_none ho]
        simpa [List.filterMap_append, hf] using ih
      | some b =>
        have ho : Op.filterMap f (.put a) = some (.put b) := by simp [Op.filterMap, hf]
        rw [List.filterMap_cons_some ho]
        refine run_cons_eq_some.2 ⟨_, step_put .., ?_⟩
        simpa [List.filterMap_append, hf] using ih
    | take a =>
      obtain rfl := step_take_eq_some.1 ht
      cases hf : f a with
      | none =>
        have ho : Op.filterMap f (.take a) = none := by simp [Op.filterMap, hf]
        rw [List.filterMap_cons_none ho, List.filterMap_cons_none hf]
        exact ih
      | some b =>
        have ho : Op.filterMap f (.take a) = some (.take b) := by simp [Op.filterMap, hf]
        rw [List.filterMap_cons_some ho, List.filterMap_cons_some hf]
        exact run_cons_eq_some.2 ⟨_, step_take_eq_some.2 rfl, ih⟩

end FilterMap

end CfgMgmt.Lib.Fifo
