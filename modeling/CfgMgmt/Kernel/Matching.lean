import CfgMgmt.Kernel.Calls

/-!
# Matching replies to requests

When files are closed only after their reply has arrived, a message settles the one pending request
whose sequence number it carries, and any other message changes nothing (`matched_run`).  The numbers
of the pending requests are distinct across a wrap of the counter, as long as none of them is older
than `2 ^ 32` requests.
-/

namespace CfgMgmt.Kernel.Matching

open CfgMgmt.Lib CfgMgmt.Lib.Machine CfgMgmt.Msg CfgMgmt.Kernel.Linux CfgMgmt.Kernel.RpmsgLink
open CfgMgmt.Kernel.Files CfgMgmt.Kernel.Structs CfgMgmt.Kernel.Calls

/-! ### The runs -/

/-- `rpmsg_send` succeeds, and a file is closed only when no reply for its struct is outstanding. -/
def Patient (k : Driver) (e : Event) : Prop :=
  Sent e ∧ match e with
    | .release f _ => ∀ file, k.files f = some file → file.phase = .ready →
      file.privateData ∉ k.link.pendingList
    | _ => True

/-- Since a request that is still pending was numbered, fewer than `2 ^ 32` other numbers were drawn. -/
def Young (k : Driver) : Prop :=
  ∀ t ∈ k.link.pendingList, k.link.drawn ≤ k.link.number t + 2 ^ 32

instance (k : Driver) : Decidable (Young k) :=
  inferInstanceAs (Decidable (∀ t ∈ k.link.pendingList, _))

/-! ### What a message does -/

/-- The sequence number that a message of the right length carries. -/
def Carries (data : List UInt8) (seq : UInt32) : Prop :=
  ∃ response, CfgMsg.received data = some response ∧ response.seq = seq

/-- From `k` to `k'` the request of the struct `t` is settled, and nothing else happens. -/
structure Settled (t : Ptr) (k k' : Driver) : Prop where
  pendingList : k'.link.pendingList = k.link.pendingList.erase t
  not_pending : t ∉ k'.link.pendingList
  valid : (k'.link.trans t).valid = true
  trans_of_ne : ∀ p ≠ t, k'.link.trans p = k.link.trans p
  unusedList : k'.link.unusedList = k.link.unusedList
  allocated : k'.link.allocated = k.link.allocated
  drawn : k'.link.drawn = k.link.drawn
  wire : k'.link.wire = k.link.wire
  files : k'.files = k.files

/-- Messages are matched to the pending requests by their sequence numbers, which are distinct. -/
structure Matched (kstrtol : List UInt8 → Int32 × Int32) (k : Driver) : Prop where
  distinct : (k.link.pendingList.map fun t => (k.link.trans t).msgSeqNr).Nodup
  /-- a message for the request of `t` settles it, and a second one with this number is ignored -/
  matching : ∀ data, ∀ t ∈ k.link.pendingList, Carries data (k.link.trans t).msgSeqNr →
    ∃ k', step kstrtol k (.reply data) = some k' ∧ Settled t k k' ∧
      ∀ data', Carries data' (k.link.trans t).msgSeqNr → step kstrtol k' (.reply data') = some k'
  /-- any other message is ignored -/
  other : ∀ data, (∀ t ∈ k.link.pendingList, ¬ Carries data (k.link.trans t).msgSeqNr) →
    step kstrtol k (.reply data) = some k

variable {kstrtol : List UInt8 → Int32 × Int32} {k : Driver} {t : Ptr} {data : List UInt8}

lemma step_reply :
    step kstrtol k (.reply data) = some { k with link := k.link.rpmsgCb data } := rfl

lemma Carries.unique {x y : UInt32} : Carries data x → Carries data y → x = y := by
  rintro ⟨m, hm, rfl⟩ ⟨m', hm', rfl⟩
  rw [Option.some.inj (hm.symm.trans hm')]

/-! ### Distinct numbers -/

lemma ofNat_ne {a b : ℕ} (h : a < b) (hb : b < a + 2 ^ 32) : UInt32.ofNat b ≠ UInt32.ofNat a := by
  intro e
  have h' := congrArg UInt32.toNat e
  simp only [UInt32.toNat_ofNat'] at h'
  omega

/-- The newer of two pending requests is at most `2 ^ 32 - 1` requests newer. -/
lemma distinct_of_numbered {l : Link} (h : Numbered l)
    (hy : ∀ t ∈ l.pendingList, l.drawn ≤ l.number t + 2 ^ 32) :
    (l.pendingList.map fun t => (l.trans t).msgSeqNr).Nodup := by
  refine List.pairwise_map.2 (h.order.imp_of_mem fun {t u} ht hu hlt => ?_)
  have hdrawn := h.lt t ht
  have hage := hy u hu
  rw [h.seq t ht, h.seq u hu]
  exact ofNat_ne hlt (by omega)

/-! ### One message -/

/-- A message with the number of one pending request settles it. -/
lemma rpmsgCb_of_received {l : Link} {response : CfgMsg}
    (hd : (l.pendingList.map fun t => (l.trans t).msgSeqNr).Nodup) (ht : t ∈ l.pendingList)
    (hr : CfgMsg.received data = some response) (hseq : (l.trans t).msgSeqNr = response.seq) :
    l.rpmsgCb data = l.settle response t := by
  rcases l.rpmsgCb_cases data with ⟨response', hr', u, hu, hseq', e⟩ | ⟨hn, -⟩
  · obtain rfl := Option.some.inj (hr.symm.trans hr')
    obtain rfl : t = u := List.inj_on_of_nodup_map hd ht hu (hseq.trans hseq'.symm)
    exact e
  · exact absurd hseq (hn response hr t ht)

lemma eq_of_carries (hd : (k.link.pendingList.map fun t => (k.link.trans t).msgSeqNr).Nodup)
    {u : Ptr} (ht : t ∈ k.link.pendingList) (hu : u ∈ k.link.pendingList)
    (hct : Carries data (k.link.trans t).msgSeqNr) (hcu : Carries data (k.link.trans u).msgSeqNr) :
    t = u :=
  List.inj_on_of_nodup_map hd ht hu (hct.unique hcu)

/-- A message that carries the number of no pending request is ignored. -/
lemma rpmsgCb_of_not_carries {l : Link}
    (h : ∀ t ∈ l.pendingList, ¬ Carries data (l.trans t).msgSeqNr) : l.rpmsgCb data = l := by
  rcases l.rpmsgCb_cases data with ⟨response, hr, t, ht, he, -⟩ | ⟨-, e⟩
  · exact absurd ⟨response, hr, he.symm⟩ (h t ht)
  · exact e

lemma settled_settle (hn : k.link.pendingList.Nodup) (response : CfgMsg) :
    Settled t k { k with link := k.link.settle response t } where
  pendingList := rfl
  not_pending hm := ((List.Nodup.mem_erase_iff hn).1 hm).1 rfl
  valid := by simp [Link.settle]
  trans_of_ne _ hp := Function.update_of_ne hp ..
  unusedList := rfl
  allocated := rfl
  drawn := rfl
  wire := rfl
  files := rfl

/-- No other pending request has the number of the request that was settled. -/
lemma not_carries_of_settled (hd : (k.link.pendingList.map fun t => (k.link.trans t).msgSeqNr).Nodup)
    {k' : Driver} (ht : t ∈ k.link.pendingList) (hs : Settled t k k')
    (hc : Carries data (k.link.trans t).msgSeqNr) :
    ∀ u ∈ k'.link.pendingList, ¬ Carries data (k'.link.trans u).msgSeqNr := by
  intro u hu hcu
  have hne : u ≠ t := fun e => hs.not_pending (e ▸ hu)
  have hu' : u ∈ k.link.pendingList := List.mem_of_mem_erase (hs.pendingList ▸ hu)
  rw [hs.trans_of_ne u hne] at hcu
  exact hne (eq_of_carries hd hu' ht hcu hc)

theorem matched_of_inv (h : Sane k) (hy : Young k) : Matched kstrtol k := by
  have hd := distinct_of_numbered h.numbered hy
  refine ⟨hd, fun data t ht hc => ?_, fun data hn => ?_⟩
  · have ⟨response, hr, hseq⟩ := hc
    have e := rpmsgCb_of_received hd ht hr hseq.symm
    have hs := settled_settle (t := t) h.sound.pending_nodup response
    refine ⟨{ k with link := k.link.settle response t }, ?_, hs, fun data' hc' => ?_⟩
    · rw [step_reply, e]
    · rw [step_reply, rpmsgCb_of_not_carries (not_carries_of_settled hd ht hs hc')]
  · rw [step_reply, rpmsgCb_of_not_carries hn]

/-! ### Every run -/

/-- A patient step is careful: between two queries of `debugfs_open_ll` no reply is outstanding. -/
lemma careful_of_patient {e : Event} (h : Inv True k) (hp : Patient k e) : Careful kstrtol k e := by
  obtain ⟨hsent, hp⟩ := hp
  cases e with
  | release f send => exact fun file hf hready => ⟨hp file hf hready, fun _ => hsent⟩
  | llQuery f send =>
    intro file i n hf hphase _
    have hq := h.phases f file hf
    simp only [PhaseOk, hphase] at hq
    exact hq trivial
  | _ => trivial

/-- **In every state of a patient run** whose pending requests are young, messages are matched. -/
theorem matched_run {es : List Event} (hp : Steps (step kstrtol) Patient .probed es)
    (hr : run (step kstrtol) .probed es = some k) (hy : Young k) : Matched kstrtol k := by
  have hinv : Inv True k := by
    refine run_invariant_of_steps (fun k e k' h hpat hs => ?_) inv_probed hp hr
    exact inv_step h (careful_of_patient h hpat) (fun _ => hpat.1) hs
  exact matched_of_inv hinv.sane hy

/-- Two clients open variables, and wait. -/
def twoReaders : List Event :=
  [.openVar 0 ⟨0, .val⟩ true false false true 0, .openVar 1 ⟨1, .min⟩ true false true true 0]

theorem twoReaders_matched : ∃ k, run (step fun _ => (0, 0)) .probed twoReaders = some k ∧
    k.link.pendingList = [14, 15] ∧ Matched (fun _ => (0, 0)) k := by
  have hp : Steps (step fun _ => (0, 0)) Patient .probed twoReaders :=
    ⟨⟨rfl, trivial⟩, fun _ _ => ⟨⟨rfl, trivial⟩, fun _ _ => trivial⟩⟩
  refine ⟨_, rfl, rfl, matched_run hp rfl ?_⟩
  unfold Young
  decide

end CfgMgmt.Kernel.Matching
