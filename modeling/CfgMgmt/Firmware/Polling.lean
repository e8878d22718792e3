import Mathlib.Data.List.Nodup
import CfgMgmt.Firmware.Circulation
import CfgMgmt.Firmware.Remoteproc

/-!
# No message is stranded

The steps of `rxvring_task` one by one, between any two of which the kernel may offer messages and kick.
A call counts one kick and then reads all there is; `Inv` says which messages have been read at each
step.  The counters are `unsigned int`s.
-/

namespace CfgMgmt.Firmware.Polling

open CfgMgmt.Lib.Machine CfgMgmt.Lib.Ring CfgMgmt.Msg
open CfgMgmt.Firmware.VirtioRing CfgMgmt.Firmware.Remoteproc
open CfgMgmt.Firmware.Circulation (Circ unreadAvail)

/-! ### The machine -/

/-- What `rxvring_task` does next. -/
inductive Pc
  /-- the test `rxvring_kicks != processed_kicks` -/
  | test
  /-- `processed_kicks++` -/
  | increment
  /-- the call of `vring_available` -/
  | available
  /-- `read_message`, up to the call of the callback -/
  | take
  /-- the rest of `read_message`: the buffer goes back to the kernel -/
  | publish (d : UInt16)
  /-- `rxvring_task` has returned -/
  | returned (ret : ℕ)
  deriving DecidableEq

/-- The receive ring with its buffers, and the two counters.  The last fields are the history: how many
kicks were counted, the messages that were offered and read, how many of them had been offered at each
kick, and how many at the last kick that the last test has seen. -/
structure Poll where
  circ : Circ
  bufs : UInt16 → Packet
  rxvringKicks : UInt32
  processedKicks : UInt32
  pc : Pc
  processed : ℕ
  offered : List Packet
  read : List Packet
  kicks : List ℕ
  seen : ℕ

inductive Event
  /-- the kernel fills the buffer `d` and makes it available -/
  | offer (d : UInt16) (pkt : Packet)
  | reclaim
  /-- the kernel kicks, and `rxvring_irq` runs -/
  | kick
  | firmware

/-- The next step of `rxvring_task`. -/
def firmware (s : Poll) : Option Poll :=
  match s.pc with
  | .test =>
    let s := { s with seen := s.kicks.getLastD 0 }
    if s.rxvringKicks ≠ s.processedKicks then
      some { s with pc := .increment }
    else
      some { s with pc := .returned 0 }
  | .increment =>
    some { s with
      processedKicks := s.processedKicks + 1, processed := s.processed + 1, pc := .available }
  | .available =>
    if vringAvailable s.circ.vr = 1 then
      some { s with pc := .take }
    else
      some { s with pc := .returned 1 }
  | .take => do
    let circ ← Circulation.step s.circ .getBuf
    match (vringGetBuf s.circ.vr).1 with
    | none => some { s with circ, pc := .available }
    | some d => some { s with circ, read := s.read ++ [s.bufs d], pc := .publish d }
  | .publish d => do
    let circ ← Circulation.step s.circ (.publishBuf d (UInt32.ofNat packetLenMax) false)
    some { s with circ, pc := .available }
  | .returned _ => some { s with pc := .test }

def step (s : Poll) : Event → Option Poll
  | .offer d pkt => do
    let circ ← Circulation.step s.circ (.offer d)
    some { s with circ, bufs := Function.update s.bufs d pkt, offered := s.offered ++ [pkt] }
  | .reclaim => do
    let circ ← Circulation.step s.circ .reclaim
    some { s with circ }
  | .kick =>
    some { s with rxvringKicks := s.rxvringKicks + 1, kicks := s.kicks ++ [s.offered.length] }
  | .firmware => firmware s

/-- Nothing was offered yet. -/
def start (vr : Vring) (bufs : UInt16 → Packet) : Poll where
  circ := Circulation.start vr
  bufs
  rxvringKicks := 0
  processedKicks := 0
  pc := .test
  processed := 0
  offered := []
  read := []
  kicks := []
  seen := 0

/-- There are fewer than `2 ^ 32` unprocessed kicks after the step, too. -/
def Few (s : Poll) : Event → Prop
  | .kick => s.kicks.length + 1 < s.processed + 2 ^ 32
  | _ => True

instance (s : Poll) : ∀ e, Decidable (Few s e)
  | .kick => inferInstanceAs (Decidable (s.kicks.length + 1 < s.processed + 2 ^ 32))
  | .offer .. | .reclaim | .firmware => .isTrue trivial

/-! ### The invariant -/

/-- How many kicks are done with: after the increment the messages of the last one are still read. -/
def done (s : Poll) : ℕ :=
  match s.pc with
  | .available | .take | .publish _ => s.processed - 1
  | _ => s.processed

/-- What holds between any two steps. -/
structure Inv (s : Poll) : Prop where
  circ : Circulation.Inv s.circ
  messages : s.offered = s.read ++ (unreadAvail s.circ.vr).map s.bufs
  rxvringKicks : s.rxvringKicks = UInt32.ofNat s.kicks.length
  processedKicks : s.processedKicks = UInt32.ofNat s.processed
  processed_le : s.processed ≤ s.kicks.length
  few : s.kicks.length < s.processed + 2 ^ 32
  kicks_le : ∀ m ∈ s.kicks, m ≤ s.offered.length
  /-- the messages of the kicks that are done with have been read -/
  read : ∀ j m, s.kicks[j]? = some m → j < done s → m ≤ s.read.length
  increment : s.pc = .increment → s.processed < s.kicks.length
  publish : ∀ d, s.pc = .publish d → d ∈ s.circ.firmware
  /-- the messages of the last kick that was seen have been read when the call returns 0 -/
  seen : s.pc = .returned 0 → s.seen ≤ s.read.length

variable {s s' : Poll}

lemma nodup_allDescs : Circulation.allDescs.Nodup := by
  refine List.Nodup.map_on (fun i hi j hj h => ?_) List.nodup_range
  have hlt : ∀ k ∈ List.range vringSize, k < 2 ^ 16 := fun k hk =>
    (List.mem_range.1 hk).trans (by decide)
  have he := congrArg UInt16.toNat h
  rwa [UInt16.toNat_ofNat_of_lt' (hlt i hi), UInt16.toNat_ofNat_of_lt' (hlt j hj)] at he

lemma not_unread {c : Circ} {d : UInt16} (h : Circulation.Inv c) (hd : d ∈ c.kernel) :
    d ∉ unreadAvail c.vr := by
  have hnd := h.places.nodup_iff.2 nodup_allDescs
  have hnd := (List.nodup_append.1 (List.nodup_append.1 hnd).1).1
  exact fun hu => (List.nodup_append.1 hnd).2.2 d hd d hu rfl

lemma Inv.of_circ {circ : Circ} (h : Inv s) (hc : Circulation.Inv circ)
    (hu : unreadAvail circ.vr = unreadAvail s.circ.vr) (hf : circ.firmware = s.circ.firmware) :
    Inv { s with circ } :=
  ⟨hc, by rw [hu]; exact h.messages, h.rxvringKicks, h.processedKicks, h.processed_le, h.few,
    h.kicks_le, h.read, h.increment, by rw [hf]; exact h.publish, h.seen⟩

lemma inv_offer {d : UInt16} {pkt : Packet} (h : Inv s) (hs : step s (.offer d pkt) = some s') :
    Inv s' := by
  obtain ⟨circ, hc, hs⟩ := Option.bind_eq_some_iff.1 hs
  obtain rfl := Option.some.inj hs
  have hcirc := Circulation.inv_step _ _ _ h.circ hc
  obtain ⟨hd, hc⟩ := Option.ite_none_right_eq_some.1 hc
  obtain rfl := Option.some.inj hc
  have hu := Circulation.unreadAvail_offer s.circ.vr d (h.circ.avail_free (List.ne_nil_of_mem hd))
  -- the buffer is not one of those that wait to be read
  have hmap : (unreadAvail s.circ.vr).map (Function.update s.bufs d pkt) =
      (unreadAvail s.circ.vr).map s.bufs := by
    refine List.map_congr_left fun a ha => Function.update_of_ne ?_ ..
    rintro rfl
    exact not_unread h.circ hd ha
  refine ⟨hcirc, ?_, h.rxvringKicks, h.processedKicks, h.processed_le, h.few, ?_, h.read, h.increment,
    h.publish, h.seen⟩
  · show s.offered ++ [pkt] = s.read ++ (unreadAvail (offerDesc s.circ.vr d)).map _
    rw [hu, List.map_append, hmap, h.messages]
    simp
  · intro m hm
    have hle := h.kicks_le m hm
    show m ≤ (s.offered ++ [pkt]).length
    rw [List.length_append]
    omega

lemma inv_reclaim (h : Inv s) (hs : step s .reclaim = some s') : Inv s' := by
  obtain ⟨circ, hc, hs⟩ := Option.bind_eq_some_iff.1 hs
  obtain rfl := Option.some.inj hs
  have hcirc := Circulation.inv_step _ _ _ h.circ hc
  simp only [Circulation.step] at hc
  split at hc <;> obtain rfl := Option.some.inj hc
  · exact h.of_circ hcirc rfl rfl
  · exact h.of_circ hcirc rfl rfl

lemma inv_kick (h : Inv s) (hf : Few s .kick) (hs : step s .kick = some s') : Inv s' := by
  obtain rfl := Option.some.inj hs
  have hlen : (s.kicks ++ [s.offered.length]).length = s.kicks.length + 1 := List.length_append
  refine ⟨h.circ, h.messages, ?_, h.processedKicks, ?_, ?_, ?_, fun j m hm hj => ?_, ?_, h.publish,
    h.seen⟩
  · show s.rxvringKicks + 1 = _
    rw [h.rxvringKicks, hlen, UInt32.ofNat_add]
    rfl
  · show s.processed ≤ (s.kicks ++ [s.offered.length]).length
    rw [hlen]
    exact h.processed_le.trans (Nat.le_succ _)
  · show (s.kicks ++ [s.offered.length]).length < _
    rw [hlen]
    exact hf
  · intro m hm
    rcases List.mem_append.1 hm with hm | hm
    · exact h.kicks_le m hm
    · exact (List.mem_singleton.1 hm).le
  · -- the new kick is not done with
    have hdone : done s ≤ s.kicks.length := by
      have hle := h.processed_le
      unfold done
      split <;> omega
    have hj' : j < s.kicks.length := lt_of_lt_of_le hj hdone
    refine h.read j m ?_ hj
    rwa [← List.getElem?_append_left hj']
  · intro hpc
    have hlt := h.increment hpc
    show s.processed < (s.kicks ++ [s.offered.length]).length
    omega

lemma Inv.kicks_eq (h : Inv s) (he : s.rxvringKicks = s.processedKicks) :
    s.kicks.length = s.processed := by
  have hmod := congrArg UInt32.toNat ((h.rxvringKicks.symm.trans he).trans h.processedKicks)
  have hle := h.processed_le
  have hlt := h.few
  simp only [UInt32.toNat_ofNat'] at hmod
  omega

/-- When `vring_available` returns 0, everything that was offered has been read. -/
lemma Inv.read_eq (h : Inv s) (ha : vringAvailable s.circ.vr ≠ 1) : s.read = s.offered := by
  have he : s.circ.vr.avail.availIdx = s.circ.vr.availTail := by
    by_contra hne
    exact ha ((vringAvailable_eq_one_iff _).2 hne)
  have hnil : unreadAvail s.circ.vr = [] := by
    unfold unreadAvail
    rw [he]
    exact unread_self _ (UInt16.toNat_lt_size _)
  rw [h.messages, hnil, List.map_nil, List.append_nil]

lemma Inv.move (h : Inv s) {pc : Pc} {seen : ℕ}
    (hread : ∀ j m, s.kicks[j]? = some m → j < done { s with pc, seen } → m ≤ s.read.length)
    (hinc : pc = .increment → s.processed < s.kicks.length)
    (hpub : ∀ d, pc = .publish d → d ∈ s.circ.firmware)
    (hseen : pc = .returned 0 → seen ≤ s.read.length) : Inv { s with pc, seen } :=
  ⟨h.circ, h.messages, h.rxvringKicks, h.processedKicks, h.processed_le, h.few, h.kicks_le, hread,
    hinc, hpub, hseen⟩

lemma inv_test (h : Inv s) (hpc : s.pc = .test) (hs : firmware s = some s') : Inv s' := by
  have hdone : done s = s.processed := by
    unfold done
    rw [hpc]
  have hread : ∀ j m, s.kicks[j]? = some m → j < s.processed → m ≤ s.read.length :=
    fun j m hm hj => h.read j m hm (hdone ▸ hj)
  unfold firmware at hs
  simp only [hpc] at hs
  split at hs
  · rename_i hne
    obtain rfl := Option.some.inj hs
    refine h.move hread (fun _ => ?_) (fun d hf => Pc.noConfusion hf) fun hf => Pc.noConfusion hf
    refine lt_of_le_of_ne h.processed_le fun he => hne ?_
    rw [h.rxvringKicks, h.processedKicks, he]
  · rename_i heq
    obtain rfl := Option.some.inj hs
    have hlen := h.kicks_eq (not_not.1 heq)
    refine h.move hread (fun hf => Pc.noConfusion hf) (fun d hf => Pc.noConfusion hf) fun _ => ?_
    -- the last kick is done with
    rw [List.getLastD_eq_getLast?]
    cases hlast : s.kicks.getLast? with
    | none => exact Nat.zero_le _
    | some m =>
      rw [List.getLast?_eq_getElem?] at hlast
      have hlt := (List.getElem?_eq_some_iff.1 hlast).1
      exact hread _ m hlast (by omega)

lemma inv_increment (h : Inv s) (hpc : s.pc = .increment) (hs : firmware s = some s') : Inv s' := by
  have hdone : done s = s.processed := by
    unfold done
    rw [hpc]
  unfold firmware at hs
  simp only [hpc] at hs
  obtain rfl := Option.some.inj hs
  refine ⟨h.circ, h.messages, h.rxvringKicks, ?_, h.increment hpc, ?_, h.kicks_le,
    fun j m hm hj => h.read j m hm ?_, fun hf => Pc.noConfusion hf, fun d hf => Pc.noConfusion hf,
    fun hf => Pc.noConfusion hf⟩
  · show s.processedKicks + 1 = UInt32.ofNat (s.processed + 1)
    rw [h.processedKicks, UInt32.ofNat_add]
    rfl
  · have hlt := h.few
    show s.kicks.length < s.processed + 1 + 2 ^ 32
    omega
  · have hj' : j < s.processed + 1 - 1 := hj
    omega

lemma inv_available (h : Inv s) (hpc : s.pc = .available) (hs : firmware s = some s') : Inv s' := by
  have hdone : done s = s.processed - 1 := by
    unfold done
    rw [hpc]
  unfold firmware at hs
  simp only [hpc] at hs
  split at hs
  · obtain rfl := Option.some.inj hs
    refine h.move (fun j m hm hj => h.read j m hm (hdone ▸ hj)) (fun hf => Pc.noConfusion hf)
      (fun d hf => Pc.noConfusion hf) fun hf => Pc.noConfusion hf
  · rename_i ha
    obtain rfl := Option.some.inj hs
    refine h.move (fun j m hm hj => ?_) (fun hf => Pc.noConfusion hf)
      (fun d hf => Pc.noConfusion hf) fun hf => ?_
    · rw [h.read_eq ha]
      exact h.kicks_le m (List.mem_of_getElem? hm)
    · exact absurd (Pc.returned.inj hf) (by decide)

lemma inv_take (h : Inv s) (hpc : s.pc = .take) (hs : firmware s = some s') : Inv s' := by
  have hdone : done s = s.processed - 1 := by
    unfold done
    rw [hpc]
  unfold firmware at hs
  simp only [hpc] at hs
  obtain ⟨circ, hc, hs⟩ := Option.bind_eq_some_iff.1 hs
  have hcirc := Circulation.inv_step _ _ _ h.circ hc
  by_cases he : s.circ.vr.avail.availIdx = s.circ.vr.availTail
  · simp only [Circulation.step, vringGetBuf_of_eq _ he, Option.some.injEq] at hc hs
    subst hc hs
    apply Inv.move (h.of_circ hcirc rfl rfl)
    · intro j m hm hj
      exact h.read j m hm (hdone ▸ hj)
    · exact fun hf => Pc.noConfusion hf
    · exact fun d hf => Pc.noConfusion hf
    · exact fun hf => Pc.noConfusion hf
  · have hu := Circulation.unreadAvail_get s.circ.vr he
    simp only [Circulation.step, vringGetBuf_of_ne _ he, Option.some.injEq] at hc hs
    subst hc hs
    refine ⟨hcirc, ?_, h.rxvringKicks, h.processedKicks, h.processed_le, h.few, h.kicks_le,
      fun j m hm hj => ?_, fun hf => Pc.noConfusion hf, fun d hf => ?_, fun hf => Pc.noConfusion hf⟩
    · rw [h.messages, hu, List.map_cons, List.append_assoc]
      rfl
    · have hle := h.read j m hm (hdone ▸ hj)
      show m ≤ (s.read ++ [_]).length
      rw [List.length_append]
      omega
    · rw [← Pc.publish.inj hf]
      exact List.mem_cons_self

lemma inv_publish {d : UInt16} (h : Inv s) (hpc : s.pc = .publish d) (hs : firmware s = some s') :
    Inv s' := by
  have hdone : done s = s.processed - 1 := by
    unfold done
    rw [hpc]
  unfold firmware at hs
  simp only [hpc] at hs
  obtain ⟨circ, hc, hs⟩ := Option.bind_eq_some_iff.1 hs
  obtain rfl := Option.some.inj hs
  have hcirc := Circulation.inv_step _ _ _ h.circ hc
  obtain ⟨hd, hc⟩ := Option.ite_none_right_eq_some.1 hc
  obtain rfl := Option.some.inj hc
  have hu := Circulation.unreadAvail_publish s.circ.vr (UInt32.ofNat packetLenMax) false
    (h.circ.firmware_lt hd)
  refine ⟨hcirc, ?_, h.rxvringKicks, h.processedKicks, h.processed_le, h.few, h.kicks_le,
    fun j m hm hj => h.read j m hm (hdone ▸ hj), fun hf => Pc.noConfusion hf,
    fun d hf => Pc.noConfusion hf, fun hf => Pc.noConfusion hf⟩
  show s.offered = s.read ++ (unreadAvail (vringPublishBuf s.circ.vr d _ false).1).map s.bufs
  rw [hu]
  exact h.messages

lemma inv_returned {ret : ℕ} (h : Inv s) (hpc : s.pc = .returned ret) (hs : firmware s = some s') :
    Inv s' := by
  have hdone : done s = s.processed := by
    unfold done
    rw [hpc]
  unfold firmware at hs
  simp only [hpc] at hs
  obtain rfl := Option.some.inj hs
  exact h.move (fun j m hm hj => h.read j m hm (hdone ▸ hj)) (fun hf => Pc.noConfusion hf)
    (fun d hf => Pc.noConfusion hf) fun hf => Pc.noConfusion hf

theorem inv_step {e : Event} (h : Inv s) (hf : Few s e) (hs : step s e = some s') : Inv s' := by
  cases e with
  | offer d pkt => exact inv_offer h hs
  | reclaim => exact inv_reclaim h hs
  | kick => exact inv_kick h hf hs
  | firmware =>
    have hs : firmware s = some s' := hs
    cases hpc : s.pc with
    | test => exact inv_test h hpc hs
    | increment => exact inv_increment h hpc hs
    | available => exact inv_available h hpc hs
    | take => exact inv_take h hpc hs
    | publish d => exact inv_publish h hpc hs
    | returned ret => exact inv_returned h hpc hs

lemma inv_start (vr : Vring) (bufs : UInt16 → Packet) : Inv (start vr bufs) := by
  have hnil : unreadAvail (Circulation.start vr).vr = [] := unread_self _ (UInt16.toNat_lt_size 0)
  refine ⟨Circulation.inv_start vr, ?_, rfl, rfl, le_rfl, ?_, ?_, ?_, ?_, ?_, ?_⟩
  · show [] = [] ++ (unreadAvail (Circulation.start vr).vr).map bufs
    rw [hnil]
    rfl
  · show 0 < 0 + 2 ^ 32
    decide
  · exact fun m hm => absurd hm List.not_mem_nil
  · exact fun j m hm _ => absurd hm.symm (Option.some_ne_none m)
  · exact fun hf => Pc.noConfusion hf
  · exact fun d hf => Pc.noConfusion hf
  · exact fun hf => Pc.noConfusion hf

/-! ### Runs -/

/-- The firmware is never stuck. -/
lemma Inv.firmware_enabled (h : Inv s) : ∃ s', step s .firmware = some s' := by
  show ∃ s', firmware s = some s'
  unfold firmware
  cases hpc : s.pc with
  | test =>
    dsimp only
    split <;> exact ⟨_, rfl⟩
  | increment => exact ⟨_, rfl⟩
  | available =>
    dsimp only
    split <;> exact ⟨_, rfl⟩
  | take =>
    by_cases he : s.circ.vr.avail.availIdx = s.circ.vr.availTail
    · simp only [Circulation.step, vringGetBuf_of_eq _ he]
      exact ⟨_, rfl⟩
    · simp only [Circulation.step, vringGetBuf_of_ne _ he]
      exact ⟨_, rfl⟩
  | publish d =>
    simp only [Circulation.step, if_pos (h.publish d hpc)]
    exact ⟨_, rfl⟩
  | returned ret => exact ⟨_, rfl⟩

/-- **No message is stranded**, in any interleaving of the steps of the kernel and of `rxvring_task`
with fewer than `2 ^ 32` unprocessed kicks: the messages are read in the order in which they were
offered, each of them once, and when `rxvring_task` returns 0, those that were offered before the last
kick it has seen have been read.  The firmware is never stuck. -/
theorem nothing_stranded {vr : Vring} {bufs : UInt16 → Packet} {es : List Event}
    (hf : Steps step Few (start vr bufs) es) (hr : run step (start vr bufs) es = some s) :
    s.read <+: s.offered ∧
      (s.pc = .returned 0 → s.offered.take s.seen <+: s.read) ∧
      ∃ s', step s .firmware = some s' := by
  have h : Inv s :=
    run_invariant_of_steps (fun _ _ _ => inv_step) (inv_start vr bufs) hf hr
  have hpre : s.read <+: s.offered := ⟨_, h.messages.symm⟩
  refine ⟨hpre, fun hpc => ?_, h.firmware_enabled⟩
  have hle := h.seen hpc
  obtain ⟨rest, hrest⟩ := hpre
  rw [← hrest, List.take_append_of_le_length hle]
  exact List.take_prefix _ _

/-- Two messages with two kicks, the second of which comes while the firmware reads. -/
def twoMessages : List Event :=
  [.offer 3 ⟨0x400, 0x51, 0, 1, 0, .zero _⟩, .kick, .firmware, .firmware, .firmware, .firmware,
    .offer 5 ⟨0x400, 0x51, 0, 2, 0, .zero _⟩, .kick, .firmware, .firmware, .firmware, .firmware,
    .firmware, .firmware, .firmware, .firmware, .firmware, .firmware, .firmware]

theorem twoMessages_read : ∃ s, run step (start .zero fun _ => ⟨0, 0, 0, 0, 0, .zero _⟩) twoMessages =
    some s ∧ s.pc = .returned 0 ∧ s.offered.length = 2 ∧ s.read = s.offered := by
  have h : Steps step Few (start .zero fun _ => ⟨0, 0, 0, 0, 0, .zero _⟩) twoMessages ∧
      (run step (start .zero fun _ => ⟨0, 0, 0, 0, 0, .zero _⟩) twoMessages).any (fun s =>
        decide (s.pc = .returned 0 ∧ s.offered.length = 2 ∧ s.seen = 2)) = true := by
    decide +kernel
  obtain ⟨s, hs, h'⟩ := (Option.any_eq_true ..).1 h.2
  obtain ⟨hpc, hlen, hseen⟩ := of_decide_eq_true h'
  obtain ⟨hpre, hread, -⟩ := nothing_stranded h.1 hs
  have hall := hread hpc
  rw [List.take_of_length_le (hlen.trans hseen.symm).le] at hall
  exact ⟨s, hs, hpc, hlen, hpre.eq_of_length_le hall.length_le⟩

end CfgMgmt.Firmware.Polling
