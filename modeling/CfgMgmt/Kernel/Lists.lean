import CfgMgmt.Kernel.Calls

/-!
# The lists of transaction structs

`debugfs_release_var` returns the struct of its file without a look at `pending_list`.  The lists stay
well linked exactly in the runs in which it does so for no struct that waits for a reply, and in which
`debugfs_open_ll` does not go on after a query that the transport has refused (`linked_iff`).
-/

namespace CfgMgmt.Kernel.Lists

open CfgMgmt.Lib CfgMgmt.Lib.Machine CfgMgmt.Kernel.Linux CfgMgmt.Kernel.RpmsgLink
open CfgMgmt.Kernel.Files CfgMgmt.Kernel.Structs CfgMgmt.Kernel.Calls

/-- No struct is on both lists or twice on one of them, and a struct that `rpmsg_link_alloc_trans`
hands out is neither pending nor the struct of an open file. -/
structure Linked (k : Driver) : Prop where
  disjoint : ∀ t ∈ k.link.pendingList, t ∉ k.link.unusedList
  pending_nodup : k.link.pendingList.Nodup
  unused_nodup : k.link.unusedList.Nodup
  handedOut : ∀ mem t s, k.link.allocTrans mem = some (t, s) →
    t ∉ k.link.pendingList ∧ ∀ f file, k.files f = some file → file.privateData ≠ t

variable {kstrtol : List UInt8 → Int32 × Int32} {k k' : Driver} {f : FileId} {file : File}

lemma linked_of_sane (h : Sane k) : Linked k where
  disjoint _ hp hu := h.sound.disjoint hp hu
  pending_nodup := h.sound.pending_nodup
  unused_nodup := h.sound.unused_nodup
  handedOut mem t s ha := by
    obtain ⟨q, hq, -⟩ := take_pool (Link.allocTrans_spec ha)
    obtain ⟨-, -, ho, hnp, -, -⟩ := h.sound.take hq
    exact ⟨hnp, fun f file hf e => ho f (e ▸ owner_pool hf)⟩

/-! ### The steps that break the lists -/

lemma returnTrans_closed_link (ret : Int32) :
    ((k.returnTrans file).closed f ret).link.unusedList = file.privateData :: k.link.unusedList ∧
      ((k.returnTrans file).closed f ret).link.pendingList = k.link.pendingList := ⟨rfl, rfl⟩

/-- A struct that is returned, or sent, while it is pending is linked twice afterwards. -/
lemma careful_release {send : Int32} (hc : k.link.chnl = true)
    (hs : k.debugfsReleaseVar kstrtol f file send = some k') (hl : Linked k') :
    file.privateData ∉ k.link.pendingList ∧ (WritesBack kstrtol k file → send = 0) := by
  rcases debugfsReleaseVar_cases hc hs with ⟨hnw, req, ret, -, rfl⟩ | ⟨hw, i, hi, rfl⟩
  · refine ⟨fun hp => hl.disjoint _ hp ?_, fun hw => absurd hw hnw⟩
    exact List.mem_cons_self
  · have hpend := (writeBack_link send hc hw hi).1
    by_cases hsend : send = 0
    · refine ⟨fun hp => ?_, fun _ => hsend⟩
      rw [if_pos hsend] at hl
      have hn := hl.pending_nodup
      rw [setPhase_link, hpend] at hn
      exact (List.nodup_cons.1 hn).1 hp
    · rw [if_neg hsend] at hl
      refine absurd ?_ (hl.disjoint file.privateData ?_)
      · exact List.mem_cons_self
      · rw [(returnTrans_closed_link send).2, hpend]
        exact List.mem_cons_self

lemma careful_llQuery {send : Int32} {i n : ℕ} (hc : k.link.chnl = true) (hi : i < n)
    (hs : k.debugfsOpenLlQuery kstrtol f file i n send = some k') (hl : Linked k') :
    file.privateData ∉ k.link.pendingList := by
  rcases debugfsOpenLlQuery_cases hc hs with ⟨hni, -⟩ | ⟨-, k₁, hlink, -, rfl⟩
  · exact absurd hi hni
  · have hn := hl.pending_nodup
    rw [setPhase_link, (queryName_link kstrtol i send file (hlink ▸ hc)).1, hlink] at hn
    exact (List.nodup_cons.1 hn).1

/-- The step happens only if it is careful. -/
def CarefulStep (kstrtol : List UInt8 → Int32 × Int32) (k : Driver) (e : Event) : Prop :=
  (step kstrtol k e).isSome → Careful kstrtol k e

theorem careful_of_step (e : Event) (h : Inv False k)
    (hs : ∀ k', step kstrtol k e = some k' → Linked k') : CarefulStep kstrtol k e := by
  intro hsome
  obtain ⟨k', hk'⟩ := Option.isSome_iff_exists.1 hsome
  have hl := hs k' hk'
  cases e with
  | release f send =>
    intro file hf hready
    simp only [step, hf, hready, Option.bind_eq_bind, Option.bind_some] at hk'
    exact careful_release h.sane.chnl hk' hl
  | llQuery f send =>
    intro file i n hf hphase hi
    simp only [step, hf, hphase, Option.bind_eq_bind, Option.bind_some] at hk'
    exact careful_llQuery h.sane.chnl hi hk' hl
  | _ => trivial

/-! ### Every run -/

/-- **The lists are well linked in every state of a run if and only if** no step returns, or sends
again, a struct that is pending. -/
theorem linked_iff (kstrtol : List UInt8 → Int32 × Int32) (es : List Event) :
    States (step kstrtol) Linked .probed es ↔
      Steps (step kstrtol) (CarefulStep kstrtol) .probed es := by
  apply states_iff_steps (I := Inv False)
  · intro k e k' h hc hs
    exact inv_step h (hc (hs ▸ rfl)) False.elim hs
  · exact fun k h => linked_of_sane h.sane
  · exact fun k e h hs => careful_of_step e h hs
  · exact inv_probed

/-! ### A file that is closed too early -/

/-- A client opens the value of the variable 0 for reading, and closes it before the reply arrives. -/
def impatientRead : List Event :=
  [.openVar 0 ⟨0, .val⟩ true false false true 0, .release 0 0]

/-- The struct 15 is on both lists afterwards. -/
theorem impatientRead_breaks_lists :
    ¬ States (step fun _ => (0, 0)) Linked .probed impatientRead := by
  intro h
  refine (h impatientRead (List.prefix_refl _) _ rfl).disjoint 15 ?_ ?_
  · decide
  · decide

end CfgMgmt.Kernel.Lists
