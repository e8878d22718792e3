import CfgMgmt.Kernel.Files
import CfgMgmt.Lib.Pool

/-!
# The transaction structs of the files

Which structs are pending, unused and owned by a file is a `Pool`.  A call on a file works on the
struct of this file and on structs that no file has: it leaves the other files as they are, unless it
recycles, or posts again, a struct that is still pending.
-/

namespace CfgMgmt.Kernel.Structs

open CfgMgmt.Lib CfgMgmt.Msg CfgMgmt.Kernel.Linux CfgMgmt.Kernel.RpmsgLink CfgMgmt.Kernel.Files

/-! ### The sequence numbers -/

/-- The pending requests have the numbers drawn for them, the latest one first. -/
structure Numbered (l : Link) : Prop where
  order : l.pendingList.Pairwise fun t u => l.number u < l.number t
  lt : ∀ t ∈ l.pendingList, l.number t < l.drawn
  seq : ∀ t ∈ l.pendingList, (l.trans t).msgSeqNr = UInt32.ofNat (l.number t)

variable {l l' : Link} {t : Ptr}

lemma Numbered.nodup (h : Numbered l) : l.pendingList.Nodup :=
  h.order.imp fun hlt e => by
    rw [e] at hlt
    exact Nat.lt_irrefl _ hlt

lemma Numbered.of_sublist (h : Numbered l) (hp : l'.pendingList.Sublist l.pendingList)
    (hd : l'.drawn = l.drawn) (hn : l'.number = l.number)
    (hs : ∀ t ∈ l'.pendingList, (l'.trans t).msgSeqNr = (l.trans t).msgSeqNr) : Numbered l' where
  order := by
    rw [hn]
    exact h.order.sublist hp
  lt t ht := by
    rw [hn, hd]
    exact h.lt t (hp.subset ht)
  seq t ht := by
    rw [hs t ht, hn]
    exact h.seq t (hp.subset ht)

/-- A request gets the next number. -/
lemma Numbered.cons (h : Numbered l) (ht : t ∉ l.pendingList)
    (hp : l'.pendingList = t :: l.pendingList) (hd : l'.drawn = l.drawn + 1)
    (hn : l'.number = Function.update l.number t l.drawn)
    (hself : (l'.trans t).msgSeqNr = UInt32.ofNat l.drawn)
    (hs : ∀ p ≠ t, (l'.trans p).msgSeqNr = (l.trans p).msgSeqNr) : Numbered l' := by
  have hne : ∀ {p}, p ∈ l.pendingList → p ≠ t := fun hm e => ht (e ▸ hm)
  have hnum : ∀ {p}, p ∈ l.pendingList → l'.number p = l.number p := fun hm => by
    rw [hn, Function.update_of_ne (hne hm)]
  have hnt : l'.number t = l.drawn := by rw [hn, Function.update_self]
  refine ⟨?_, fun p hm => ?_, fun p hm => ?_⟩
  · rw [hp, List.pairwise_cons]
    refine ⟨fun u hu => ?_, h.order.imp_of_mem fun ha hb hab => ?_⟩
    · rw [hnt, hnum hu]
      exact h.lt u hu
    · rwa [hnum ha, hnum hb]
  · rcases List.mem_cons.1 (hp ▸ hm) with rfl | hm
    · omega
    · have := h.lt p hm
      rw [hnum hm]
      omega
  · rcases List.mem_cons.1 (hp ▸ hm) with rfl | hm
    · rw [hself, hnt]
    · rw [hs p (hne hm), hnum hm]
      exact h.seq p hm

/-! ### The pool of a driver -/

/-- Where the structs are. -/
def pool (k : Driver) : Pool FileId where
  pending := k.link.pendingList
  unused := k.link.unusedList
  owner f := (k.files f).map File.privateData
  made := k.link.allocated

/-- What holds of the structs whatever the files are used for. -/
structure Sane (k : Driver) : Prop where
  chnl : k.link.chnl = true
  sound : (pool k).Sound
  numbered : Numbered k.link

variable {k₀ k k' : Driver} {f g : FileId} {file file' : File}

lemma owner_pool (hf : k.files f = some file) : (pool k).owner f = some file.privateData := by
  simp [pool, hf]

lemma Sane.ne_of_ne (h : Sane k) (hf : k.files f = some file) (hg : k.files g = some file')
    (hne : g ≠ f) : file'.privateData ≠ file.privateData := by
  intro e
  exact hne (h.sound.owner_inj (owner_pool hg) (e ▸ owner_pool hf))

/-! ### What a call does -/

/-- The state `k'` is reached from `k` within a call on the file `f`. -/
structure Acts (f : FileId) (k k' : Driver) : Prop where
  sane : Sane k'
  files : ∀ g ≠ f, k'.files g = k.files g
  trans : ∀ g ≠ f, ∀ file, k.files g = some file →
    k'.link.trans file.privateData = k.link.trans file.privateData
  number : ∀ g ≠ f, ∀ file, k.files g = some file →
    k'.link.number file.privateData = k.link.number file.privateData
  pending : ∀ g ≠ f, ∀ file, k.files g = some file →
    (file.privateData ∈ k'.link.pendingList ↔ file.privateData ∈ k.link.pendingList)

lemma Acts.refl (h : Sane k) : Acts f k k :=
  ⟨h, fun _ _ => rfl, fun _ _ _ _ => rfl, fun _ _ _ _ => rfl, fun _ _ _ _ => Iff.rfl⟩

lemma Acts.trans' (h : Acts f k₀ k) (h' : Acts f k k') : Acts f k₀ k' where
  sane := h'.sane
  files g hg := (h'.files g hg).trans (h.files g hg)
  trans g hg file hf :=
    (h'.trans g hg file ((h.files g hg).trans hf)).trans (h.trans g hg file hf)
  number g hg file hf :=
    (h'.number g hg file ((h.files g hg).trans hf)).trans (h.number g hg file hf)
  pending g hg file hf :=
    (h'.pending g hg file ((h.files g hg).trans hf)).trans (h.pending g hg file hf)

lemma Acts.congr (h : Acts f k₀ k) (hl : k'.link = k.link) (hf : k'.files = k.files) :
    Acts f k₀ k' := by
  have hp : pool k' = pool k := by simp [pool, hl, hf]
  refine ⟨⟨hl ▸ h.sane.chnl, hp ▸ h.sane.sound, hl ▸ h.sane.numbered⟩, ?_, ?_, ?_, ?_⟩
  · rw [hf]
    exact h.files
  · rw [hl]
    exact h.trans
  · rw [hl]
    exact h.number
  · rw [hl]
    exact h.pending

lemma Acts.returns (h : Acts f k₀ k) (r : Result) : Acts f k₀ (k.returns f r) := h.congr rfl rfl

lemma Acts.modifyTrans (h : Acts f k₀ k) (hf : k.files f = some file)
    {m : Transaction → Transaction} (hm : ∀ x, (m x).msgSeqNr = x.msgSeqNr) :
    Acts f k₀ (k.modifyTrans file m) := by
  refine h.trans' ⟨⟨h.sane.chnl, h.sane.sound, ?_⟩, fun _ _ => rfl, fun g hg file' hf' => ?_,
    fun _ _ _ _ => rfl, fun _ _ _ _ => Iff.rfl⟩
  · refine h.sane.numbered.of_sublist (List.Sublist.refl _) rfl rfl fun t _ => ?_
    by_cases ht : t = file.privateData
    · subst ht
      rw [Driver.modifyTrans, Link.modify_trans_self, hm]
    · rw [Driver.modifyTrans, Link.modify_trans_of_ne _ ht]
  · exact Link.modify_trans_of_ne _ (h.sane.ne_of_ne hf hf' hg)

lemma Acts.setFile (h : Acts f k₀ k) (hf : k.files f = some file)
    (hp : file'.privateData = file.privateData) : Acts f k₀ (k.setFile f (some file')) := by
  refine h.trans' ⟨⟨h.sane.chnl, ?_, h.sane.numbered⟩, fun g hg => Function.update_of_ne hg ..,
    fun _ _ _ _ => rfl, fun _ _ _ _ => rfl, fun _ _ _ _ => Iff.rfl⟩
  have e : pool (k.setFile f (some file')) = pool k := by
    simp only [pool, Driver.setFile, Pool.mk.injEq, true_and, and_true]
    funext g
    by_cases hg : g = f
    · subst hg
      simp [hf, hp]
    · simp [Function.update_of_ne hg]
  rw [e]
  exact h.sane.sound

lemma pool_close : pool (k.setFile f none) = (pool k).disown f := by
  simp only [pool, Pool.disown, Driver.setFile, Pool.mk.injEq, true_and, and_true]
  funext g
  by_cases hg : g = f
  · subst hg
    simp
  · simp [Function.update_of_ne hg]

lemma Acts.closed (h : Acts f k₀ k) (ret : Int32) : Acts f k₀ (k.closed f ret) := by
  have hs : (pool (k.setFile f none)).Sound := by
    rw [pool_close]
    exact h.sane.sound.disown
  have hc : Acts f k (k.setFile f none) :=
    ⟨⟨h.sane.chnl, hs, h.sane.numbered⟩, fun g hg => Function.update_of_ne hg ..,
      fun _ _ _ _ => rfl, fun _ _ _ _ => rfl, fun _ _ _ _ => Iff.rfl⟩
  exact (h.trans' hc).returns _

lemma Acts.returnTrans_closed (h : Acts f k₀ k) (hf : k.files f = some file)
    (hp : file.privateData ∉ k.link.pendingList) (ret : Int32) :
    Acts f k₀ ((k.returnTrans file).closed f ret) := by
  have ho := owner_pool hf
  have e : pool ((k.returnTrans file).setFile f none) =
      ((pool k).disown f).recycle file.privateData := by
    rw [pool_close]
    rfl
  have hs : (pool ((k.returnTrans file).setFile f none)).Sound := by
    rw [e]
    have hu := h.sane.sound.inUse ho
    exact h.sane.sound.disown.recycle ⟨hu.lt, hu.not_unused⟩ (h.sane.sound.unowned_disown ho) hp
  have hn : Numbered (k.returnTrans file).link := by
    refine h.sane.numbered.of_sublist (List.Sublist.refl _) rfl rfl fun t ht => ?_
    have hne : t ≠ file.privateData := fun e => hp (e ▸ ht)
    exact congrArg _ (Link.returnTrans_trans_of_ne hne)
  have hc : Acts f k ((k.returnTrans file).setFile f none) :=
    ⟨⟨h.sane.chnl, hs, hn⟩, fun g hg => Function.update_of_ne hg ..,
      fun g hg file' hf' => Link.returnTrans_trans_of_ne (h.sane.ne_of_ne hf hf' hg),
      fun _ _ _ _ => rfl, fun _ _ _ _ => Iff.rfl⟩
  exact (h.trans' hc).returns _

/-- `rpmsg_link_alloc_trans` is the `take` of the pool, whoever owns the structs. -/
lemma take_of_allocated {l l' : Link} (ha : Link.Allocated t l l') (owner : FileId → Option Ptr) :
    Pool.take ⟨l.pendingList, l.unusedList, owner, l.allocated⟩ =
      (t, ⟨l'.pendingList, l'.unusedList, owner, l'.allocated⟩) := by
  have hp := ha.pendingList
  rcases ha.source with ⟨hu, hm⟩ | ⟨hu, hu', rfl, hm⟩
  · simp [Pool.take, hu, hm, hp]
  · simp [Pool.take, hu, hu', hm, hp]

lemma take_pool {s : Link} (ha : Link.Allocated t k.link s) :
    ∃ q, (pool k).take = (t, q) ∧ pool { k with link := s } = q :=
  ⟨_, take_of_allocated ha _, rfl⟩

lemma Acts.opened {s : Link} (h : Acts f k₀ k) (ha : Link.Allocated t k.link s)
    (ht : file.privateData = t) : Acts f k₀ ({ k with link := s }.setFile f (some file)) := by
  obtain ⟨q, hq, e⟩ := take_pool ha
  obtain ⟨hs, hu, ho, hnp, howner, hpend⟩ := h.sane.sound.take hq
  have e' : pool ({ k with link := s }.setFile f (some file)) = q.own f t := by
    rw [← e]
    simp only [pool, Pool.own, Driver.setFile, Pool.mk.injEq, true_and, and_true]
    funext g
    by_cases hg : g = f
    · subst hg
      simp [ht]
    · simp [Function.update_of_ne hg]
  refine h.trans' ⟨⟨ha.chnl.trans h.sane.chnl, ?_, ?_⟩, fun g hg => Function.update_of_ne hg ..,
    fun g hg file' hf' => ?_, fun _ _ _ _ => congrFun ha.number _,
    fun g hg file' hf' => iff_of_eq (congrArg (_ ∈ ·) ha.pendingList)⟩
  · rw [e']
    refine hs.own hu fun g hg => ?_
    rw [howner] at hg
    exact ho g hg
  · refine h.sane.numbered.of_sublist (ha.pendingList ▸ List.Sublist.refl _) ha.drawn ha.number ?_
    intro p hp
    refine congrArg _ (ha.trans_of_ne p fun e => hnp ?_)
    have hp' : p ∈ k.link.pendingList := ha.pendingList ▸ hp
    exact e ▸ hp'
  · exact ha.trans_of_ne _ fun e => ho g (e ▸ owner_pool hf')

section Requests

variable {kstrtol : List UInt8 → Int32 × Int32} {info : VarAccessInfo} {send : Int32}

lemma Acts.accessVar (h : Acts f k₀ k) (hf : k.files f = some file)
    (hp : file.privateData ∉ k.link.pendingList) :
    Acts f k₀ (k.accessVar kstrtol file info send).2 := by
  have ho := owner_pool hf
  unfold Driver.accessVar
  by_cases hr : (k.link.prepare kstrtol info.index info.type file.privateData).1 = 0
  · rw [Link.accessVar_of_eq h.sane.chnl hr, Link.rpmsgSend_eq]
    refine h.trans' ⟨⟨h.sane.chnl, h.sane.sound.post (h.sane.sound.inUse ho) hp, ?_⟩, fun _ _ => rfl,
      fun g hg file' hf' => ?_, fun g hg file' hf' => ?_, fun g hg file' hf' => ?_⟩
    · refine h.sane.numbered.cons hp rfl rfl rfl ?_ fun p hne => ?_
      · simp [Link.fill]
      · simp [Link.fill, Function.update_of_ne hne]
    · exact Function.update_of_ne (h.sane.ne_of_ne hf hf' hg) ..
    · exact Function.update_of_ne (h.sane.ne_of_ne hf hf' hg) ..
    · exact List.mem_cons.trans (or_iff_right (h.sane.ne_of_ne hf hf' hg))
  · rw [Link.accessVar_of_ne h.sane.chnl hr]
    exact h.trans' ⟨⟨h.sane.chnl, h.sane.sound, h.sane.numbered.of_sublist (List.Sublist.refl _) rfl rfl
      fun _ _ => rfl⟩, fun _ _ => rfl, fun _ _ _ _ => rfl, fun _ _ _ _ => rfl, fun _ _ _ _ => Iff.rfl⟩

lemma getNVars_owned {mem : Bool} {ret : Int32} {s : Link} (h : Sane k)
    (hs : k.link.getNVars mem send = some (ret, s)) (hf : k.files f = some file) :
    s.trans file.privateData = k.link.trans file.privateData ∧
      s.number file.privateData = k.link.number file.privateData ∧
      (file.privateData ∈ s.pendingList ↔ file.privateData ∈ k.link.pendingList) := by
  obtain ⟨-, t, s₁, ha, hp, -, -, -, -, -, hn, -, hne⟩ := Link.getNVars_spec h.chnl hs
  obtain ⟨q, hq, -⟩ := take_pool (Link.allocTrans_spec ha)
  obtain ⟨-, -, ho, -, -, -⟩ := h.sound.take hq
  have hft : file.privateData ≠ t := fun e => ho f (e ▸ owner_pool hf)
  refine ⟨hne _ hft, ?_, ?_⟩
  · rw [hn, Function.update_of_ne hft]
  · rw [hp]
    exact List.mem_cons.trans (or_iff_right hft)

lemma Acts.getNVars {mem : Bool} {ret : Int32} {s : Link} (h : Acts f k₀ k)
    (hs : k.link.getNVars mem send = some (ret, s)) : Acts f k₀ { k with link := s } := by
  refine h.trans' ⟨?_, fun _ _ => rfl, fun g _ file' hf' => (getNVars_owned h.sane hs hf').1,
    fun g _ file' hf' => (getNVars_owned h.sane hs hf').2.1,
    fun g _ file' hf' => (getNVars_owned h.sane hs hf').2.2⟩
  obtain ⟨-, t, s₁, ha, hp, hu, hm, hc, -, hd, hn, hself, hne⟩ := Link.getNVars_spec h.sane.chnl hs
  obtain ⟨q, hq, e⟩ := take_pool (Link.allocTrans_spec ha)
  obtain ⟨hsq, huse, ho, hnp, howner, hpend⟩ := h.sane.sound.take hq
  have e' : pool { k with link := s } = q.post t := by
    simp only [← e, pool, Pool.post, hp, hu, hm, (Link.allocTrans_spec ha).pendingList]
  refine ⟨hc.trans h.sane.chnl, ?_, ?_⟩
  · rw [e']
    exact hsq.post huse (hpend ▸ hnp)
  · exact h.sane.numbered.cons hnp hp hd hn (hself ▸ rfl) fun p hne' => congrArg _ (hne p hne')

end Requests

lemma Sane.settle (h : Sane k) (response : CfgMsg) {t : Ptr} :
    Sane { k with link := k.link.settle response t } := by
  refine ⟨h.chnl, h.sound.settle, h.numbered.of_sublist List.erase_sublist rfl rfl fun p hp => ?_⟩
  have hne : p ≠ t := ((List.Nodup.mem_erase_iff h.sound.pending_nodup).1 hp).1
  exact congrArg _ (Function.update_of_ne hne ..)

/-- A delivered message leaves every struct alone but the one it replies to, which is not pending any
more. -/
theorem Sane.rpmsgCb (h : Sane k) (data : List UInt8) :
    Sane { k with link := k.link.rpmsgCb data } ∧
      ∀ p, (k.link.rpmsgCb data).trans p = k.link.trans p ∧
          (p ∈ (k.link.rpmsgCb data).pendingList → p ∈ k.link.pendingList) ∨
        p ∉ (k.link.rpmsgCb data).pendingList := by
  rcases k.link.rpmsgCb_cases data with ⟨response, -, t, ht, -, e⟩ | ⟨-, e⟩
  · have hnt : t ∉ k.link.pendingList.erase t :=
      fun hm => ((List.Nodup.mem_erase_iff h.sound.pending_nodup).1 hm).1 rfl
    rw [e]
    refine ⟨h.settle response, fun p => ?_⟩
    · by_cases hp : p = t
      · exact .inr (hp ▸ hnt)
      · exact .inl ⟨Function.update_of_ne hp .., List.mem_of_mem_erase⟩
  · rw [e]
    exact ⟨h, fun p => .inl ⟨rfl, id⟩⟩

end CfgMgmt.Kernel.Structs
