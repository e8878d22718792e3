import Mathlib.Data.List.Basic
import Mathlib.Data.Nat.Init
import Mathlib.Tactic.Common

/-!
# Replaying a log

Some entries of a log are writes, which change a state.  The state after a part of the log is that of
its writes, each applied once and in their order; what it shows of one place is the last write to this
place (`exists_last`).
-/

namespace CfgMgmt.Lib.Replay

variable {σ α ε : Type*} (store : σ → α → σ) (write? : ε → Option α)

/-- The state after the writes of a log. -/
def replay (init : σ) (log : List ε) : σ := (log.filterMap write?).foldl store init

variable {store write?} {init : σ} {log : List ε}

lemma replay_concat (e : ε) : replay store write? init (log ++ [e]) =
    ((write? e).elim (replay store write? init log) (store (replay store write? init log))) := by
  unfold replay
  rw [List.filterMap_append, List.foldl_append]
  cases h : write? e with
  | none => simp [h]
  | some a => simp [h]

lemma replay_take_succ {q : ℕ} {e : ε} (h : log[q]? = some e) :
    replay store write? init (log.take (q + 1)) =
      ((write? e).elim (replay store write? init (log.take q))
        (store (replay store write? init (log.take q)))) := by
  rw [List.take_add_one, h, Option.toList_some]
  exact replay_concat e

/-- What every write keeps, a replay keeps. -/
lemma replay_induction {P : σ → Prop} (h0 : P init) (hstep : ∀ s a, P s → P (store s a)) :
    P (replay store write? init log) :=
  List.foldlRecOn _ store h0 fun s hs a _ => hstep s a hs

/-- **The last write to a place**, where `T` tells which writes are to this place, and `P` whether a state
shows a write: after the first `q` entries, with a write at `p` among them, the state shows the last
write, which is the one at `p` or a later one. -/
theorem exists_last (init : σ) {T : α → Prop} {P : α → σ → Prop}
    (hset : ∀ s a, T a → P a (store s a))
    (hkeep : ∀ s a b, ¬ T a → P b s → P b (store s a))
    {p q : ℕ} {e : ε} {a : α} (hp : log[p]? = some e) (ha : write? e = some a) (ht : T a)
    (hpq : p < q) (hq : q ≤ log.length) :
    ∃ (j : ℕ) (b : α), p ≤ j ∧ j < q ∧ log[j]?.bind write? = some b ∧ T b ∧
      P b (replay store write? init (log.take q)) ∧
      ∀ i c, j < i → i < q → log[i]?.bind write? = some c → ¬ T c := by
  induction q, hpq using Nat.le_induction with
  | base =>
    refine ⟨p, a, Nat.le_refl p, Nat.lt_succ_self p, by rw [hp]; exact ha, ht, ?_, fun i c h1 h2 => ?_⟩
    · rw [replay_take_succ hp, ha]
      exact hset _ _ ht
    · omega
  | succ q hpq ih =>
    obtain ⟨e', he'⟩ : ∃ e', log[q]? = some e' := ⟨_, List.getElem?_eq_getElem hq⟩
    obtain ⟨j, b, hpj, hjq, hb, htb, hshow, hlast⟩ := ih (Nat.le_of_succ_le hq)
    rw [replay_take_succ he']
    -- the entry `q` is no write to the place, or it is the last one
    by_cases hw : ∃ c, write? e' = some c ∧ T c
    · obtain ⟨c, hc, htc⟩ := hw
      refine ⟨q, c, Nat.le_of_succ_le hpq, Nat.lt_succ_self q, by rw [he']; exact hc, htc, ?_,
        fun i c h1 h2 => ?_⟩
      · rw [hc]
        exact hset _ _ htc
      · omega
    · refine ⟨j, b, hpj, Nat.lt_succ_of_lt hjq, hb, htb, ?_, fun i c h1 h2 hc htc => ?_⟩
      · cases hc : write? e' with
        | none => exact hshow
        | some c => exact hkeep _ _ _ (fun htc => hw ⟨c, hc, htc⟩) hshow
      · rcases Nat.lt_succ_iff_lt_or_eq.1 h2 with h2 | rfl
        · exact hlast i c h1 h2 hc htc
        · rw [he'] at hc
          exact hw ⟨c, hc, htc⟩

end CfgMgmt.Lib.Replay
