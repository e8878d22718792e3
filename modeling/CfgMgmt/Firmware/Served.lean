import CfgMgmt.Firmware.Polling
import CfgMgmt.Lib.Variant

/-!
# Every kick is served

A kick that was counted is served after a number of steps of the firmware that depends only on how many of
its messages are still unread, whatever the kernel offers, reclaims and kicks in between: neither more
messages nor more kicks can hold the reading up (`kick_served`).
-/

namespace CfgMgmt.Firmware.Served

open CfgMgmt.Lib CfgMgmt.Lib.Machine CfgMgmt.Lib.Ring CfgMgmt.Msg
open CfgMgmt.Firmware.VirtioRing CfgMgmt.Firmware.Polling
open CfgMgmt.Firmware.Remoteproc (Packet)

/-! ### The way to the next message -/

/-- How many steps `rxvring_task` takes to the call of `read_message`, when there is something to read. -/
def distance : Pc → ℕ
  | .take => 0
  | .available => 1
  | .publish _ => 2
  | .increment => 2
  | .test => 3
  | .returned _ => 4

lemma distance_le (pc : Pc) : distance pc ≤ 4 := by
  cases pc <;> simp [distance]

/-- How many steps the firmware takes until it has read `m` messages. -/
def budget (m : ℕ) (s : Poll) : ℕ := distance s.pc + 3 * (m - s.read.length)

def Event.isFirmware : Event → Bool
  | .firmware => true
  | _ => false

variable {s s' : Poll} {m : ℕ}

/-- The kernel has kicked after it had offered `m` messages. -/
def Kicked (m : ℕ) (s : Poll) : Prop := ∃ m' ∈ s.kicks, m ≤ m'

lemma lt_kicks (h : Inv s) (hk : Kicked m s) (hm : s.read.length < m) :
    done s < s.kicks.length := by
  obtain ⟨m', hmem, hle⟩ := hk
  obtain ⟨j, hj⟩ := List.getElem?_of_mem hmem
  have hlt := (List.getElem?_eq_some_iff.1 hj).1
  by_contra hdone
  have hread := h.read j m' hj (by omega)
  omega

lemma available_of_kicked (h : Inv s) (hk : Kicked m s) (hm : s.read.length < m) :
    vringAvailable s.circ.vr = 1 := by
  by_contra ha
  obtain ⟨m', hmem, hle⟩ := hk
  have hoffered := h.kicks_le m' hmem
  rw [← h.read_eq ha] at hoffered
  omega

/-! ### The steps -/

lemma firmware_budget (h : Inv s) (hk : Kicked m s) (hm : s.read.length < m)
    (hs : firmware s = some s') : budget m s' < budget m s := by
  have hdone := lt_kicks h hk hm
  have havail := available_of_kicked h hk hm
  unfold firmware at hs
  unfold budget
  unfold done at hdone
  cases hpc : s.pc with
  | test =>
    rw [hpc] at hs hdone
    dsimp only at hs hdone
    split at hs
    · obtain rfl := Option.some.inj hs
      exact Nat.add_lt_add_right (by decide : distance .increment < distance .test) _
    · rename_i heq
      have hlen := h.kicks_eq (not_not.1 heq)
      omega
  | increment =>
    rw [hpc] at hs
    obtain rfl := Option.some.inj hs
    exact Nat.add_lt_add_right (by decide : distance .available < distance .increment) _
  | available =>
    rw [hpc] at hs
    dsimp only at hs
    rw [if_pos havail] at hs
    obtain rfl := Option.some.inj hs
    exact Nat.add_lt_add_right (by decide : distance .take < distance .available) _
  | take =>
    rw [hpc] at hs
    dsimp only at hs
    have hne : s.circ.vr.avail.availIdx ≠ s.circ.vr.availTail := (vringAvailable_eq_one_iff _).1 havail
    simp only [Circulation.step, vringGetBuf_of_ne _ hne] at hs
    obtain rfl := Option.some.inj hs
    dsimp only [distance]
    rw [List.length_append, List.length_singleton]
    omega
  | publish d =>
    rw [hpc] at hs
    obtain ⟨circ, -, hs⟩ := Option.bind_eq_some_iff.1 hs
    obtain rfl := Option.some.inj hs
    exact Nat.add_lt_add_right (by decide : distance .available < 2) _
  | returned ret =>
    rw [hpc] at hs
    obtain rfl := Option.some.inj hs
    exact Nat.add_lt_add_right (by decide : distance .test < 4) _

lemma kernel_budget {e : Event} (he : Event.isFirmware e = false) (hs : step s e = some s') :
    s'.pc = s.pc ∧ s'.read = s.read := by
  cases e with
  | offer d pkt =>
    obtain ⟨circ, -, hs⟩ := Option.bind_eq_some_iff.1 hs
    obtain rfl := Option.some.inj hs
    exact ⟨rfl, rfl⟩
  | reclaim =>
    obtain ⟨circ, -, hs⟩ := Option.bind_eq_some_iff.1 hs
    obtain rfl := Option.some.inj hs
    exact ⟨rfl, rfl⟩
  | kick =>
    obtain rfl := Option.some.inj hs
    exact ⟨rfl, rfl⟩
  | firmware => cases he

/-- Kicks stay counted, offered messages stay offered, and read messages stay read. -/
lemma step_grows {e : Event} (hs : step s e = some s') :
    s.kicks <+: s'.kicks ∧ s.offered <+: s'.offered ∧ s.read <+: s'.read := by
  cases e with
  | offer d pkt =>
    obtain ⟨circ, -, hs⟩ := Option.bind_eq_some_iff.1 hs
    obtain rfl := Option.some.inj hs
    exact ⟨List.prefix_refl _, List.prefix_append .., List.prefix_refl _⟩
  | reclaim =>
    obtain ⟨circ, -, hs⟩ := Option.bind_eq_some_iff.1 hs
    obtain rfl := Option.some.inj hs
    exact ⟨List.prefix_refl _, List.prefix_refl _, List.prefix_refl _⟩
  | kick =>
    obtain rfl := Option.some.inj hs
    exact ⟨List.prefix_append .., List.prefix_refl _, List.prefix_refl _⟩
  | firmware =>
    have hs : firmware s = some s' := hs
    unfold firmware at hs
    cases hpc : s.pc with
    | test =>
      rw [hpc] at hs
      dsimp only at hs
      split at hs <;> obtain rfl := Option.some.inj hs <;>
        exact ⟨List.prefix_refl _, List.prefix_refl _, List.prefix_refl _⟩
    | increment | returned ret =>
      rw [hpc] at hs
      obtain rfl := Option.some.inj hs
      exact ⟨List.prefix_refl _, List.prefix_refl _, List.prefix_refl _⟩
    | available =>
      rw [hpc] at hs
      dsimp only at hs
      split at hs <;> obtain rfl := Option.some.inj hs <;>
        exact ⟨List.prefix_refl _, List.prefix_refl _, List.prefix_refl _⟩
    | take =>
      rw [hpc] at hs
      obtain ⟨circ, -, hs⟩ := Option.bind_eq_some_iff.1 hs
      split at hs <;> obtain rfl := Option.some.inj hs
      · exact ⟨List.prefix_refl _, List.prefix_refl _, List.prefix_refl _⟩
      · exact ⟨List.prefix_refl _, List.prefix_refl _, List.prefix_append ..⟩
    | publish d =>
      rw [hpc] at hs
      obtain ⟨circ, -, hs⟩ := Option.bind_eq_some_iff.1 hs
      obtain rfl := Option.some.inj hs
      exact ⟨List.prefix_refl _, List.prefix_refl _, List.prefix_refl _⟩

/-! ### Runs -/

/-- **The firmware approaches the last message of a kick** with every step, and the kernel never takes it
away from it. -/
lemma approaches (m : ℕ) : Variant.Approaches step (fun s => Inv s ∧ Kicked m s)
    (fun s => m ≤ s.read.length) Few Event.isFirmware (budget m) where
  keeps _ _ _ h hf hs := by
    obtain ⟨m', hmem, hle⟩ := h.2
    exact ⟨inv_step h.1 hf hs, m', (step_grows hs).1.subset hmem, hle⟩
  stays _ _ _ h hs := h.trans (step_grows hs).2.2.length_le
  pos s _ hm := by
    unfold budget
    omega
  le s e s' _ he hs := by
    obtain ⟨hpc, hread⟩ := kernel_budget he hs
    unfold budget
    rw [hpc, hread]
  lt s e s' h hm he hs := by
    cases e with
    | firmware => exact firmware_budget h.1 h.2 (Nat.not_le.1 hm) hs
    | _ => cases he

/-- **Every kick is served**: from any state of a run in which there are fewer than `2 ^ 32` unprocessed
kicks, the messages that were offered before a kick have been read after any further run in which the
firmware takes at most four steps, and three for each of them that was not read before. -/
theorem kick_served {vr : Vring} {bufs : UInt16 → Packet} {es es' : List Event}
    (hf : Steps step Few (start vr bufs) es) (hr : run step (start vr bufs) es = some s)
    (hm : m ∈ s.kicks) (hf' : Steps step Few s es') (hr' : run step s es' = some s')
    (hc : 4 + 3 * (m - s.read.length) ≤ es'.countP Event.isFirmware) :
    s.offered.take m <+: s'.read := by
  have h : Inv s := run_invariant_of_steps (fun _ _ _ => inv_step) (inv_start vr bufs) hf hr
  have h' : Inv s' := run_invariant_of_steps (fun _ _ _ => inv_step) h hf' hr'
  have hbudget : budget m s ≤ es'.countP Event.isFirmware :=
    (Nat.add_le_add_right (distance_le s.pc) _).trans hc
  have hread : m ≤ s'.read.length := (approaches m).reaches ⟨h, m, hm, le_rfl⟩ hf' hr' hbudget
  have hoffered : s.offered <+: s'.offered :=
    run_invariant (P := fun t => s.offered <+: t.offered)
      (fun _ _ _ ht hs => ht.trans (step_grows hs).2.1) (List.prefix_refl _) hr'
  -- both are prefixes of what has been offered
  have hpre : s.offered.take m <+: s'.offered := (List.take_prefix ..).trans hoffered
  refine List.prefix_of_prefix_length_le hpre ⟨_, h'.messages.symm⟩ ?_
  exact (List.length_take_le ..).trans hread

/-- One message and a kick. -/
def oneMessage : List Event := [.offer 3 ⟨0x400, 0x51, 0, 1, 0, .zero _⟩, .kick]

/-- The kernel offers further messages and kicks again and again. -/
def insistent : List Event :=
  [.firmware, .offer 5 ⟨0x400, 0x51, 0, 2, 0, .zero _⟩, .kick, .firmware, .kick, .kick, .firmware,
    .offer 7 ⟨0x400, 0x51, 0, 3, 0, .zero _⟩, .firmware, .kick, .firmware, .kick, .firmware, .firmware]

theorem oneMessage_served : ∃ s s', run step (start .zero fun _ => ⟨0, 0, 0, 0, 0, .zero _⟩) oneMessage =
    some s ∧ run step s insistent = some s' ∧ s.offered.length = 1 ∧ s.offered <+: s'.read := by
  have h : Steps step Few (start .zero fun _ => ⟨0, 0, 0, 0, 0, .zero _⟩) (oneMessage ++ insistent) ∧
      (run step (start .zero fun _ => ⟨0, 0, 0, 0, 0, .zero _⟩) oneMessage).any (fun s =>
        decide (s.kicks = [1] ∧ s.offered.length = 1 ∧ s.read = []) && (run step s insistent).isSome) =
      true := by
    decide +kernel
  obtain ⟨hsteps, hrun⟩ := h
  obtain ⟨hf, hf'⟩ := steps_append.1 hsteps
  obtain ⟨s, hr, hs⟩ := (Option.any_eq_true ..).1 hrun
  obtain ⟨hs, hsome⟩ := Bool.and_eq_true_iff.1 hs
  obtain ⟨hkicks, hlen, hread⟩ := of_decide_eq_true hs
  obtain ⟨s', hr'⟩ := Option.isSome_iff_exists.1 hsome
  have hm : 1 ∈ s.kicks := hkicks ▸ List.mem_singleton_self 1
  have hc : 4 + 3 * (1 - s.read.length) ≤ insistent.countP Event.isFirmware := by
    rw [hread]
    decide
  have hserved := kick_served hf hr hm (hf' s hr) hr' hc
  rw [List.take_of_length_le hlen.le] at hserved
  exact ⟨s, s', hr, hr', hlen, hserved⟩

end CfgMgmt.Firmware.Served
