import CfgMgmt.Kernel.Hands

/-!
# Removing the channel

`rpmsg_link_exit` frees the structs of both lists.  A struct that is pending usually belongs to an open
file as well, which returns it when it is closed: such a struct is freed while a file has it, and it is
unused afterwards.  Nothing of the kind happens when no open file waits for a reply at that moment
(`safe_of_cautious`).
-/

namespace CfgMgmt.Kernel.Removal

open CfgMgmt.Lib CfgMgmt.Lib.Machine CfgMgmt.Msg CfgMgmt.Kernel.Linux CfgMgmt.Kernel.RpmsgLink
open CfgMgmt.Kernel.Files CfgMgmt.Kernel.Structs CfgMgmt.Kernel.Calls CfgMgmt.Kernel.Hands

/-! ### Probe and remove -/

/-- `rpmsg_link_init`, when its `kzalloc` finds memory for every struct. -/
def rpmsgLinkInit (l : Link) : Link :=
  { l with
    chnl := true
    unusedList := (List.range' l.allocated 16).reverse ++ l.unusedList
    trans := fun t => if l.allocated ≤ t then .zero else l.trans t
    allocated := l.allocated + 16 }

/-- `rpmsg_link_exit`: the structs that it frees, and the state after it. -/
def rpmsgLinkExit (l : Link) : List Ptr × Link :=
  (l.pendingList ++ l.unusedList, { l with chnl := false, pendingList := [], unusedList := [] })

/-- `cfg_mgmt_probe`.  The directory that it creates is empty. -/
def cfgMgmtProbe (k : Driver) : Driver := { k with link := rpmsgLinkInit k.link, dirs := [] }

/-- `free_mem`: the directory of the module is removed with all that is in it. -/
def freeMem (k : Driver) : Driver :=
  { k with
    accessArray := fun _ => none
    dirs := []
    debugfs := k.debugfs.filter fun x => x.parent = none }

/-- Whether the module is bound to a channel.  `cfg_mgmt_remove` is `removing` between
`rpmsg_link_exit` and `free_mem`. -/
inductive Stage
  | idle
  | bound
  | removing
  deriving DecidableEq

/-- The module over all its channels. -/
structure Module where
  driver : Driver
  stage : Stage
  /-- the transaction structs that were handed to `kfree` -/
  freed : List Ptr

/-- The module after `cm_init`. -/
def Module.loaded : Module where
  driver := { Driver.probed with
    link := { Link.rpmsgLinkInit with chnl := false, unusedList := [], allocated := 0 } }
  stage := .idle
  freed := []

inductive Event
  | probe
  | exit
  | freeMem
  | call (e : Files.Event)

/-- One step: the calls on files go on while there is no channel. -/
def step (kstrtol : List UInt8 → Int32 × Int32) (m : Module) : Event → Option Module
  | .probe =>
    if m.stage = .idle then
      some { m with driver := cfgMgmtProbe m.driver, stage := .bound }
    else none
  | .exit =>
    if m.stage = .bound then
      let (ts, link) := rpmsgLinkExit m.driver.link
      some ⟨{ m.driver with link }, .removing, m.freed ++ ts⟩
    else none
  | .freeMem =>
    if m.stage = .removing then
      some { m with driver := freeMem m.driver, stage := .idle }
    else none
  | .call e => do
    let k ← Files.step kstrtol m.driver e
    some { m with driver := k }

/-- The first probe leads to the state in which the module is started. -/
theorem probe_loaded : cfgMgmtProbe Module.loaded.driver = .probed := by
  have htrans : (rpmsgLinkInit Module.loaded.driver.link).trans = Link.rpmsgLinkInit.trans := by
    funext t
    show (if 0 ≤ t then Transaction.zero else Transaction.zero) = _
    exact ite_self _
  have hlink : rpmsgLinkInit Module.loaded.driver.link = Link.rpmsgLinkInit := by
    unfold rpmsgLinkInit at htrans ⊢
    rw [Link.mk.injEq]
    exact ⟨rfl, rfl, rfl, rfl, htrans, rfl, rfl, rfl, rfl, rfl, rfl⟩
  unfold cfgMgmtProbe
  rw [hlink]
  rfl

/-! ### What must not happen -/

/-- No open file has a struct that was freed, and no struct was freed or returned twice. -/
structure Safe (m : Module) : Prop where
  files : ∀ f file, m.driver.files f = some file → file.privateData ∉ m.freed
  once : (m.freed ++ m.driver.link.unusedList).Nodup

/-- When the channel is removed, no open file waits for a reply; and while there is a channel, no call
returns, or sends again, a struct that is still pending. -/
def Cautious (kstrtol : List UInt8 → Int32 × Int32) (m : Module) : Event → Prop
  | .exit => ∀ f file, m.driver.files f = some file → file.privateData ∉ m.driver.link.pendingList
  | .call e => m.stage = .bound → Careful kstrtol m.driver e
  | _ => True

/-! ### What holds in every state -/

/-- **The invariant**: what was freed is lost for good, and nothing waits for it. -/
structure Good (m : Module) : Prop where
  sound : (pool m.driver).Sound
  bound : m.stage = .bound → Inv False m.driver
  gone : m.stage ≠ .bound → m.driver.link.chnl = false ∧ m.driver.link.pendingList = []
  freed_nodup : m.freed.Nodup
  lost : ∀ t ∈ m.freed, Pool.Lost t (pool m.driver)
  settled : ∀ t ∈ m.freed, t ∉ m.driver.link.pendingList

variable {kstrtol : List UInt8 → Int32 × Int32} {m m' : Module}

lemma Good.safe (h : Good m) : Safe m := by
  refine ⟨fun f file hf hm => (h.lost _ hm).unowned f (owner_pool hf), ?_⟩
  rw [List.nodup_append']
  refine ⟨h.freed_nodup, h.sound.unused_nodup, fun t ht hu => ?_⟩
  exact (h.lost t ht).inUse.not_unused hu

lemma good_loaded : Good .loaded where
  sound := Pool.sound_empty
  bound := nofun
  gone _ := ⟨rfl, rfl⟩
  freed_nodup := List.nodup_nil
  lost := nofun
  settled := nofun

lemma pool_probe (k : Driver) : pool (cfgMgmtProbe k) = (pool k).restock 16 := rfl

lemma good_probe (h : Good m) (hi : m.stage ≠ .bound) :
    Good { m with driver := cfgMgmtProbe m.driver, stage := .bound } := by
  obtain ⟨-, hp⟩ := h.gone hi
  have hnone : ∀ t, t ∉ (cfgMgmtProbe m.driver).link.pendingList := by
    intro t
    show t ∉ m.driver.link.pendingList
    rw [hp]
    exact List.not_mem_nil
  have hs : (pool (cfgMgmtProbe m.driver)).Sound := by
    rw [pool_probe]
    exact h.sound.restock 16
  have hn : Numbered (cfgMgmtProbe m.driver).link := by
    refine ⟨?_, fun t ht => absurd ht (hnone t), fun t ht => absurd ht (hnone t)⟩
    show m.driver.link.pendingList.Pairwise _
    rw [hp]
    exact List.Pairwise.nil
  refine ⟨hs, fun _ => ⟨⟨rfl, hs, hn⟩, fun f file _ => ?_⟩, fun hb => absurd rfl hb, h.freed_nodup, ?_,
    fun t _ => hnone t⟩
  · exact PhaseOk.of_not_pending (hnone _)
  · exact fun t ht => (h.lost t ht).restock 16

/-- What `rpmsg_link_exit` frees belongs to no file, if no open file waits for a reply. -/
lemma good_exit (h : Good m) (hc : Cautious kstrtol m .exit) :
    Good ⟨{ m.driver with link := (rpmsgLinkExit m.driver.link).2 }, .removing,
      m.freed ++ (rpmsgLinkExit m.driver.link).1⟩ := by
  have hpend : ∀ t ∈ m.driver.link.pendingList, Pool.Unowned t (pool m.driver) := by
    intro t ht f hf
    obtain ⟨file, hfile, rfl⟩ := Option.map_eq_some_iff.1 hf
    exact hc f file hfile ht
  refine ⟨h.sound.drain, nofun, fun _ => ⟨rfl, rfl⟩, ?_, ?_, fun _ _ => List.not_mem_nil⟩
  · refine List.nodup_append'.2 ⟨h.freed_nodup, ?_, ?_⟩
    · exact List.nodup_append'.2 ⟨h.sound.pending_nodup, h.sound.unused_nodup, h.sound.disjoint⟩
    · intro t ht hm
      rcases List.mem_append.1 hm with hp | hu
      · exact h.settled t ht hp
      · exact (h.lost t ht).inUse.not_unused hu
  · intro t ht
    rcases List.mem_append.1 ht with hfreed | ht
    · have hl := h.lost t hfreed
      exact Pool.lost_drain hl.inUse.lt hl.unowned
    · rcases List.mem_append.1 ht with hp | hu
      · exact Pool.lost_drain (h.sound.pending_lt hp) (hpend t hp)
      · exact Pool.lost_drain (h.sound.unused_lt hu) (h.sound.unowned_of_unused hu)

lemma good_call {e : Files.Event} {k : Driver} (h : Good m) (hc : Cautious kstrtol m (.call e))
    (hs : Files.step kstrtol m.driver e = some k) : Good { m with driver := k } := by
  have hkept : ∀ {k' : Driver}, Pool.Keeps (pool m.driver) (pool k') ∨
      Pool.Drops (pool m.driver) (pool k') → ∀ t ∈ m.freed, Pool.Lost t (pool k') := by
    intro k' hk t ht
    rcases hk with hk | hd
    · exact (h.sound.lost_iff hk).2 (h.lost t ht)
    · exact (h.sound.lost_of_drops hd).2 t (h.lost t ht)
  by_cases hb : m.stage = .bound
  · have hinv := h.bound hb
    have hinv' : Inv False k := inv_step hinv (hc hb) False.elim hs
    obtain ⟨hk, hpost⟩ := step_hands hinv.sane.chnl hs
    refine ⟨hinv'.sane.sound, fun _ => hinv', fun hn => absurd hb hn, h.freed_nodup, hkept ?_, ?_⟩
    · split at hk
      · exact .inr hk
      · exact .inl hk
    · intro t ht hp
      rcases hpost t hp with hp | hn
      · exact h.settled t ht hp
      · exact hn (h.lost t ht)
  · obtain ⟨hchnl, hp⟩ := h.gone hb
    have hg := step_gone hchnl hp hs
    have hp' : k.link.pendingList = [] := hg.pendingList.trans hp
    refine ⟨?_, fun hb' => absurd hb' hb, fun _ => ⟨hg.chnl.trans hchnl, hp'⟩, h.freed_nodup,
      hkept hg.hands, fun t _ => ?_⟩
    · rcases hg.hands with hk | hd
      · exact h.sound.of_keeps hp hk hp'
      · exact h.sound.of_drops hd hp'
    · show t ∉ k.link.pendingList
      rw [hp']
      exact List.not_mem_nil

/-- **Every cautious step keeps the invariant.** -/
theorem good_step {e : Event} (h : Good m) (hc : Cautious kstrtol m e)
    (hs : step kstrtol m e = some m') : Good m' := by
  cases e with
  | probe =>
    obtain ⟨hi, hs⟩ := Option.ite_none_right_eq_some.1 hs
    obtain rfl := Option.some.inj hs
    apply good_probe h
    rw [hi]
    exact nofun
  | exit =>
    obtain ⟨-, hs⟩ := Option.ite_none_right_eq_some.1 hs
    obtain rfl := Option.some.inj hs
    exact good_exit h hc
  | freeMem =>
    obtain ⟨hr, hs⟩ := Option.ite_none_right_eq_some.1 hs
    obtain rfl := Option.some.inj hs
    refine ⟨h.sound, nofun, fun _ => h.gone ?_, h.freed_nodup, h.lost, h.settled⟩
    rw [hr]
    exact nofun
  | call e =>
    obtain ⟨k, hk, hs⟩ := Option.bind_eq_some_iff.1 hs
    obtain rfl := Option.some.inj hs
    exact good_call h hc hk

/-- Removing the channel is safe if and only if no open file waits for a reply. -/
theorem exit_safe_iff (h : Good m) (hs : step kstrtol m .exit = some m') :
    Safe m' ↔ Cautious kstrtol m .exit := by
  constructor
  · intro hsafe f file hf hp
    obtain ⟨-, hs⟩ := Option.ite_none_right_eq_some.1 hs
    obtain rfl := Option.some.inj hs
    apply hsafe.files f file hf
    apply List.mem_append_right
    exact List.mem_append_left _ hp
  · intro hc
    exact (good_step h hc hs).safe

/-- **Removing the channel is safe** in every state of every cautious run. -/
theorem safe_of_cautious {es : List Event} (h : Steps (step kstrtol) (Cautious kstrtol) .loaded es) :
    States (step kstrtol) Safe .loaded es := by
  intro pre hp s hr
  exact (states_of_steps (fun _ _ _ => good_step) good_loaded h pre hp s hr).safe

/-! ### Two removals -/

/-- A client opens the value of the variable 0 for reading. -/
def opensValue : List Event := [.probe, .call (.openVar 0 ⟨0, .val⟩ true false false true 0)]

/-- The reply to its request arrives. -/
def answered : List Event :=
  opensValue ++ [.call (.reply { CfgMsg.zero with type := resRdVal, val := 5 }.encode)]

/-- The channel is removed, and then the client closes its file. -/
def removed : List Event := [.exit, .freeMem, .call (.release 0 0)]

lemma answered_idle : ((run (step fun _ => (0, 0)) .loaded answered).any fun m : Module =>
    decide (m.driver.link.pendingList = [])) = true := by
  decide +kernel

/-- A file whose reply has arrived may be open when the channel is removed. -/
theorem answered_removed_safe : (run (step fun _ => (0, 0)) .loaded (answered ++ removed)).isSome ∧
    States (step fun _ => (0, 0)) Safe .loaded (answered ++ removed) := by
  refine ⟨by decide +kernel, ?_⟩
  apply safe_of_cautious
  refine steps_append.2 ⟨⟨trivial, fun _ _ => ⟨fun _ => trivial, fun _ _ => ⟨fun _ => trivial, fun _ _ =>
    trivial⟩⟩⟩, fun m hr => ?_⟩
  have hp : m.driver.link.pendingList = [] := by
    have hidle := answered_idle
    rw [hr, Option.any_some] at hidle
    exact of_decide_eq_true hidle
  refine ⟨fun f file _ => ?_, fun _ _ => ⟨trivial, fun m' hs => ⟨fun hb => ?_, fun _ _ => trivial⟩⟩⟩
  · rw [hp]
    exact List.not_mem_nil
  · obtain ⟨-, hs⟩ := Option.ite_none_right_eq_some.1 hs
    obtain rfl := Option.some.inj hs
    cases hb

/-- **A struct is freed while a file has it**, when the channel is removed before the reply arrives, and
it is put on `unused_list` when the file is closed. -/
theorem opensValue_removed_unsafe :
    (∃ m file, run (step fun _ => (0, 0)) .loaded (opensValue ++ [.exit]) = some m ∧
      m.driver.files 0 = some file ∧ file.privateData ∈ m.freed) ∧
    ∃ m, run (step fun _ => (0, 0)) .loaded (opensValue ++ removed) = some m ∧
      15 ∈ m.freed ∧ 15 ∈ m.driver.link.unusedList := by
  constructor
  · refine ⟨_, _, rfl, rfl, ?_⟩
    decide
  · refine ⟨_, rfl, ?_, ?_⟩
    · decide
    · decide

end CfgMgmt.Kernel.Removal
