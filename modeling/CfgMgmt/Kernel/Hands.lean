import CfgMgmt.Kernel.Sessions

/-!
# Who has the transaction structs

Every call takes a struct for its file, returns the struct of its file, or leaves all structs where they
are, but for two that lose one: `get_n_vars` takes a struct that nobody returns, and a close that is
interrupted, or whose reply reports an error, keeps its struct.
-/

namespace CfgMgmt.Kernel.Hands

open CfgMgmt.Lib CfgMgmt.Msg CfgMgmt.Kernel.Linux CfgMgmt.Kernel.RpmsgLink
open CfgMgmt.Kernel.Files CfgMgmt.Kernel.Structs CfgMgmt.Kernel.Calls CfgMgmt.Kernel.Sessions

variable {kstrtol : List UInt8 → Int32 × Int32} {k₀ k k' : Driver} {f : FileId} {file file' : File}

/-! ### Structs that stay where they are -/

/-- No struct is taken or returned. -/
structure Stays (k k' : Driver) : Prop where
  unused : k'.link.unusedList = k.link.unusedList
  made : k'.link.allocated = k.link.allocated
  owner : (pool k').owner = (pool k).owner
  chnl : k'.link.chnl = k.link.chnl

lemma Stays.refl (k : Driver) : Stays k k := ⟨rfl, rfl, rfl, rfl⟩

lemma Stays.modifyTrans (h : Stays k₀ k) (file : File) (m : Transaction → Transaction) :
    Stays k₀ (k.modifyTrans file m) := ⟨h.unused, h.made, h.owner, h.chnl⟩

lemma Stays.returns (h : Stays k₀ k) (f : FileId) (r : Result) : Stays k₀ (k.returns f r) :=
  ⟨h.unused, h.made, h.owner, h.chnl⟩

lemma Stays.congr (h : Stays k₀ k) (hl : k'.link = k.link) (hf : k'.files = k.files) : Stays k₀ k' := by
  have hp : pool k' = pool k := by simp [pool, hl, hf]
  exact ⟨hl ▸ h.unused, hl ▸ h.made, hp ▸ h.owner, hl ▸ h.chnl⟩

lemma owner_setFile (f : FileId) (file : Option File) (k : Driver) : (pool (k.setFile f file)).owner =
    Function.update (pool k).owner f (file.map File.privateData) := by
  funext g
  by_cases hg : g = f
  · subst hg
    simp [pool]
  · simp [pool, Driver.setFile, Function.update_of_ne hg]

lemma Stays.setFile (h : Stays k₀ k) (hf : k.files f = some file)
    (hp : file'.privateData = file.privateData) : Stays k₀ (k.setFile f (some file')) := by
  refine ⟨h.unused, h.made, ?_, h.chnl⟩
  rw [owner_setFile, Option.map_some, hp, ← owner_pool hf, Function.update_eq_self]
  exact h.owner

lemma Stays.seek (h : Stays k₀ k) (hf : k.files f = some file) (own : Option ℤ) (pos : ℤ) :
    Stays k₀ (k.seek f file own pos) := by
  cases own with
  | none =>
    apply h.setFile hf
    rfl
  | some _ => exact h

lemma Stays.setPhase (h : Stays k₀ k) (hf : k.files f = some file) (phase : Phase) :
    Stays k₀ (k.setPhase f file phase) := by
  apply h.setFile hf
  rfl

lemma Stays.openedWith (h : Stays k₀ k) (hf : k.files f = some file) (s : List UInt8) :
    Stays k₀ (k.openedWith f file s) := by
  apply Stays.returns
  exact (h.modifyTrans file _).setPhase hf _

lemma accessVar_gone (kstrtol : List UInt8 → Int32 × Int32) (file : File) (info : VarAccessInfo)
    (send : Int32) (hc : k.link.chnl = false) :
    k.accessVar kstrtol file info send = (-einval, k) := by
  unfold Driver.accessVar Link.accessVar Link.accessFill
  rw [hc]
  rfl

/-- `access_var` takes no struct and returns none, and makes at most the struct of the file pending. -/
lemma accessVar_lists (kstrtol : List UInt8 → Int32 × Int32) (file : File) (info : VarAccessInfo)
    (send : Int32) (k : Driver) :
    (k.accessVar kstrtol file info send).2.link.unusedList = k.link.unusedList ∧
      (k.accessVar kstrtol file info send).2.link.allocated = k.link.allocated ∧
      (k.accessVar kstrtol file info send).2.link.chnl = k.link.chnl ∧
      ∀ t ∈ (k.accessVar kstrtol file info send).2.link.pendingList,
        t ∈ k.link.pendingList ∨ t = file.privateData := by
  cases hc : k.link.chnl with
  | false =>
    rw [accessVar_gone kstrtol file info send hc]
    exact ⟨rfl, rfl, hc, fun t ht => .inl ht⟩
  | true =>
    unfold Driver.accessVar
    by_cases hr : (k.link.prepare kstrtol info.index info.type file.privateData).1 = 0
    · rw [Link.accessVar_of_eq hc hr, Link.rpmsgSend_eq]
      exact ⟨rfl, rfl, hc, fun t ht => (List.mem_cons.1 ht).symm⟩
    · rw [Link.accessVar_of_ne hc hr]
      exact ⟨rfl, rfl, hc, fun t ht => .inl ht⟩

lemma Stays.accessVar (h : Stays k₀ k) (kstrtol : List UInt8 → Int32 × Int32) (file : File)
    (info : VarAccessInfo) (send : Int32) :
    Stays k₀ (k.accessVar kstrtol file info send).2 := by
  obtain ⟨hu, hm, hc, -⟩ := accessVar_lists kstrtol file info send k
  exact ⟨hu.trans h.unused, hm.trans h.made, h.owner, hc.trans h.chnl⟩

lemma Stays.keeps (h : Stays k k') : Pool.Keeps (pool k) (pool k') := .stays h.unused h.made h.owner

/-! ### Structs that change hands -/

lemma keeps_takes {mem : Bool} {l : Link} (file : File) (hf : k.files f = none)
    (ha : k.link.allocTrans mem = some (file.privateData, l)) (hu : k'.link.unusedList = l.unusedList)
    (hm : k'.link.allocated = l.allocated) (hfiles : k'.files = (k.setFile f (some file)).files) :
    Pool.Keeps (pool k) (pool k') := by
  obtain ⟨q, hq, e⟩ := take_pool (Link.allocTrans_spec ha)
  refine .takes f file.privateData q hq ?_ ?_ ?_ ?_
  · simp [pool, hf]
  · exact hu.trans (congrArg Pool.unused e)
  · exact hm.trans (congrArg Pool.made e)
  · have ho : (pool k').owner = (pool (k.setFile f (some file))).owner := by
      simp [pool, hfiles]
    rw [ho, owner_setFile]
    rfl

lemma Stays.keeps_returns (h : Stays k₀ k) (hf : k₀.files f = some file) (ret : Int32) :
    Pool.Keeps (pool k₀) (pool ((k.returnTrans file).closed f ret)) := by
  refine .returns f file.privateData (owner_pool hf) ?_ h.made ?_
  · exact congrArg (file.privateData :: ·) h.unused
  · rw [← h.owner]
    exact owner_setFile f none _

lemma drops_leaves (hf : k.files f = some file) (ret : Int32) :
    Pool.Drops (pool k) (pool (k.closed f ret)) := by
  refine .leaves f file.privateData (owner_pool hf) rfl rfl ?_
  exact owner_setFile f none _

lemma drops_takes {mem : Bool} {send ret : Int32} {l : Link} (hc : k.link.chnl = true)
    (hs : k.link.getNVars mem send = some (ret, l)) :
    Pool.Drops (pool k) (pool { k with link := l }) := by
  obtain ⟨-, t, l₁, ha, -, hu, hm, -⟩ := Link.getNVars_spec hc hs
  obtain ⟨q, hq, e⟩ := take_pool (Link.allocTrans_spec ha)
  refine .takes t q hq ?_ ?_ rfl
  · exact hu.trans (congrArg Pool.unused e)
  · exact hm.trans (congrArg Pool.made e)

/-- No struct is posted that was lost before. -/
def Posted (k k' : Driver) : Prop :=
  ∀ t ∈ k'.link.pendingList, t ∈ k.link.pendingList ∨ ¬ Pool.Lost t (pool k)

lemma Posted.of_eq (h : k'.link.pendingList = k.link.pendingList) : Posted k k' :=
  fun _ ht => .inl (h ▸ ht)

lemma Posted.of_file (hf : k.files f = some file)
    (h : ∀ t ∈ k'.link.pendingList, t ∈ k.link.pendingList ∨ t = file.privateData) : Posted k k' := by
  intro t ht
  refine (h t ht).imp_right ?_
  rintro rfl hl
  exact hl.unowned f (owner_pool hf)

lemma Posted.of_taken {mem : Bool} {u : Ptr} {l : Link} (ha : k.link.allocTrans mem = some (u, l))
    (h : ∀ t ∈ k'.link.pendingList, t ∈ k.link.pendingList ∨ t = u) : Posted k k' := by
  intro t ht
  refine (h t ht).imp_right ?_
  rintro rfl hl
  obtain ⟨q, hq, -⟩ := take_pool (Link.allocTrans_spec ha)
  exact Pool.not_inUse_of_take hq hl.inUse

/-! ### Files of variables -/

section VarFiles

variable {info : VarAccessInfo} {send : Int32}

lemma openedForWriting_lists (f : FileId) (file : File) (k : Driver) :
    (k.openedForWriting f file).link.unusedList = k.link.unusedList ∧
      (k.openedForWriting f file).link.allocated = k.link.allocated ∧
      (k.openedForWriting f file).link.pendingList = k.link.pendingList := by
  unfold Driver.openedForWriting
  split <;> exact ⟨rfl, rfl, rfl⟩

theorem openVar_hands {fModeRead fModeWrite nonblock mem : Bool} (hf : k.files f = none)
    (hs : k.debugfsOpenVar kstrtol f info fModeRead fModeWrite nonblock mem send = some k') :
    Pool.Keeps (pool k) (pool k') ∧ Posted k k' := by
  unfold Driver.debugfsOpenVar at hs
  obtain ⟨⟨t, l⟩, ha, hs⟩ := Option.bind_eq_some_iff.1 hs
  dsimp only at hs
  generalize hfile : (⟨.var info, fModeRead, fModeWrite, nonblock, 0, t, .ready⟩ : File) = file at hs
  have ht : t = file.privateData := hfile ▸ rfl
  rw [ht] at ha
  have hp := (Link.allocTrans_spec ha).pendingList
  split at hs
  · generalize hk : Driver.modifyTrans file (fun x => { x with rnw := true, wq := true })
      (Driver.setFile f (some file) { k with link := l }) = k₁ at hs
    have hu₁ : k₁.link.unusedList = l.unusedList := hk ▸ rfl
    have hm₁ : k₁.link.allocated = l.allocated := hk ▸ rfl
    have hp₁ : k₁.link.pendingList = k.link.pendingList := hk ▸ hp
    have hf₁ : k₁.files = (k.setFile f (some file)).files := hk ▸ rfl
    obtain ⟨hu, hm, -, hpost⟩ := accessVar_lists kstrtol file info send k₁
    rw [hp₁] at hpost
    split at hs
    · obtain rfl := Option.some.inj hs
      exact ⟨keeps_takes file hf ha (hu.trans hu₁) (hm.trans hm₁) hf₁, .of_taken ha hpost⟩
    · obtain rfl := Option.some.inj hs
      obtain ⟨hu₂, hm₂, hp₂⟩ := openedForWriting_lists f file (k₁.accessVar kstrtol file info send).2
      refine ⟨keeps_takes file hf ha (hu₂.trans (hu.trans hu₁)) (hm₂.trans (hm.trans hm₁)) ?_,
        .of_taken ha fun u hu => hpost u (hp₂ ▸ hu)⟩
      rw [openedForWriting_files]
      exact hf₁
  · obtain rfl := Option.some.inj hs
    obtain ⟨hu, hm, hp'⟩ := openedForWriting_lists f file ({ k with link := l }.setFile f (some file))
    exact ⟨keeps_takes file hf ha hu hm openedForWriting_files, .of_eq (hp'.trans hp)⟩

theorem readVar_hands {len uncopied : ℕ} {own : Option ℤ} {intr : Bool} (hf : k.files f = some file)
    (hs : k.debugfsReadVar f file len own intr uncopied = some k') :
    Stays k k' ∧ Unsent k.link k'.link := by
  unfold Driver.debugfsReadVar at hs
  dsimp only at hs
  split at hs
  · split at hs
    · obtain rfl := Option.some.inj hs
      exact ⟨(Stays.refl k).returns f _, Unsent.refl _⟩
    · obtain ⟨-, hs⟩ := Option.ite_none_right_eq_some.1 hs
      obtain rfl := Option.some.inj hs
      exact ⟨(Stays.refl k).returns f _, Unsent.refl _⟩
  · split at hs
    · obtain rfl := Option.some.inj hs
      exact ⟨((Stays.refl k).modifyTrans file _).returns f _, rfl, rfl, rfl, rfl⟩
    · obtain rfl := Option.some.inj hs
      refine ⟨((Stays.refl k).seek hf own _).returns f _, ?_⟩
      cases own <;> exact ⟨rfl, rfl, rfl, rfl⟩

theorem writeVar_hands (data : List UInt8) (own : Option ℤ) (uncopied : ℕ)
    (hf : k.files f = some file) : Stays k (k.debugfsWriteVar f file data own uncopied) := by
  apply Stays.returns
  exact (((Stays.refl k).modifyTrans file _).modifyTrans file _).seek hf own _

/-- Closing a file returns its struct, or waits for the reply to a request. -/
theorem releaseVar_hands (hc : k.link.chnl = true) (hf : k.files f = some file)
    (hs : k.debugfsReleaseVar kstrtol f file send = some k') :
    Pool.Keeps (pool k) (pool k') ∧ Posted k k' := by
  rcases debugfsReleaseVar_cases hc hs with ⟨-, req, ret, -, rfl⟩ | ⟨-, i, -, rfl⟩
  · have h : Stays k { k with link := { k.link with accessReq := req } } := ⟨rfl, rfl, rfl, rfl⟩
    exact ⟨h.keeps_returns hf ret, .of_eq rfl⟩
  · obtain ⟨-, -, -, hpost⟩ := accessVar_lists kstrtol file ⟨i, .val⟩ send
      (k.modifyTrans file fun x => { x with wq := true, valid := false })
    have h : Stays k (writeBack kstrtol ⟨i, .val⟩ send file k) :=
      ((Stays.refl k).modifyTrans file _).accessVar kstrtol file _ send
    split
    · exact ⟨(h.setPhase hf _).keeps, .of_file hf hpost⟩
    · exact ⟨h.keeps_returns hf send, .of_file hf hpost⟩

/-- A close that has waited returns the struct, if the reply has arrived and reports no error. -/
theorem releaseVarWoken_hands {intr : Bool} (hf : k.files f = some file)
    (hs : k.debugfsReleaseVarWoken f file intr = some k') :
    Unsent k.link k'.link ∧ k'.link.chnl = k.link.chnl ∧
      if (k.transOf file).valid = true ∧ (k.transOf file).err = 0 then Pool.Keeps (pool k) (pool k')
      else Pool.Drops (pool k) (pool k') := by
  by_cases hv : (k.transOf file).valid = true
  · by_cases he : (k.transOf file).err = 0
    · obtain rfl := releaseVarWoken_valid hv he hs
      rw [if_pos ⟨hv, he⟩]
      exact ⟨⟨rfl, rfl, rfl, rfl⟩, rfl, (Stays.refl k).keeps_returns hf 0⟩
    · unfold Driver.debugfsReleaseVarWoken at hs
      simp only [hv, he, Bool.not_true, Bool.false_eq_true, if_false, ne_eq, not_false_eq_true,
        if_true] at hs
      obtain rfl := Option.some.inj hs
      rw [if_neg fun h => he h.2]
      exact ⟨⟨rfl, rfl, rfl, rfl⟩, rfl, drops_leaves hf _⟩
  · unfold Driver.debugfsReleaseVarWoken at hs
    simp only [hv, Bool.not_false, if_true] at hs
    obtain ⟨-, hs⟩ := Option.ite_none_right_eq_some.1 hs
    obtain rfl := Option.some.inj hs
    rw [if_neg fun h => hv h.1]
    exact ⟨⟨rfl, rfl, rfl, rfl⟩, rfl, drops_leaves hf _⟩

end VarFiles

/-! ### `load_list` -/

lemma unsent_of_eq {l l' : Link} (h : l' = l) : Unsent l l' := h ▸ Unsent.refl _

lemma unsent_openedWith {l : Link} (h : Unsent l k.link) (f : FileId) (file : File) (s : List UInt8) :
    Unsent l (k.openedWith f file s).link := ⟨h.pendingList, h.drawn, h.number, h.wire⟩

theorem openLl_hands {fModeRead fModeWrite nonblock mem : Bool} (hf : k.files f = none)
    (hs : k.debugfsOpenLl f fModeRead fModeWrite nonblock mem = some k') :
    Pool.Keeps (pool k) (pool k') ∧ k'.link.chnl = k.link.chnl ∧ Unsent k.link k'.link := by
  unfold Driver.debugfsOpenLl at hs
  obtain ⟨⟨t, l⟩, ha, hs⟩ := Option.bind_eq_some_iff.1 hs
  have hal := Link.allocTrans_spec ha
  dsimp only at hs
  split at hs
  · obtain rfl := Option.some.inj hs
    refine ⟨keeps_takes ⟨.loadList, fModeRead, fModeWrite, nonblock, 0, t, .ready⟩ hf ha rfl rfl ?_,
      hal.chnl, hal.pendingList, hal.drawn, hal.number, hal.wire⟩
    exact Function.update_idem ..
  · obtain rfl := Option.some.inj hs
    exact ⟨keeps_takes ⟨.loadList, fModeRead, fModeWrite, nonblock, 0, t, .load⟩ hf ha rfl rfl rfl,
      hal.chnl, hal.pendingList, hal.drawn, hal.number, hal.wire⟩

theorem openLlCount_hands {mem : Bool} {send : Int32} (hc : k.link.chnl = true)
    (hf : k.files f = some file) (hs : k.debugfsOpenLlCount f file mem send = some k') :
    Pool.Drops (pool k) (pool k') ∧ Posted k k' := by
  unfold Driver.debugfsOpenLlCount at hs
  obtain ⟨⟨ret, l⟩, hn, hs⟩ := Option.bind_eq_some_iff.1 hs
  dsimp only at hs
  have hf' : ({ k with link := l } : Driver).files f = some file := hf
  have hstays : Stays { k with link := l } k' ∧ k'.link.pendingList = l.pendingList := by
    split at hs
    · obtain rfl := Option.some.inj hs
      exact ⟨(Stays.refl _).openedWith hf' _, rfl⟩
    · obtain rfl := Option.some.inj hs
      exact ⟨(Stays.refl _).setPhase hf' _, rfl⟩
  obtain ⟨hstays, hpend⟩ := hstays
  obtain ⟨-, t, l₁, ha, hp, -⟩ := Link.getNVars_spec hc hn
  refine ⟨?_, .of_taken ha fun u hu => ?_⟩
  · cases drops_takes hc hn with
    | takes t q ht hu hm ho =>
      exact .takes t q ht (hstays.unused.trans hu) (hstays.made.trans hm) (hstays.owner.trans ho)
    | leaves g t hg hu hm ho =>
      exact .leaves g t hg (hstays.unused.trans hu) (hstays.made.trans hm) (hstays.owner.trans ho)
  · rw [hpend, hp] at hu
    exact (List.mem_cons.1 hu).symm

theorem openLlCounted_hands {intr : Bool} {mem dirMem : Kind → Bool} (hf : k.files f = some file)
    (hs : k.debugfsOpenLlCounted f file intr mem dirMem = some k') :
    Stays k k' ∧ Unsent k.link k'.link := by
  obtain ⟨hl₁, hf₁⟩ := allocMem_keeps mem Kind.all k
  obtain ⟨hl₂, hf₂⟩ := createDirs_keeps dirMem Kind.all (k.allocMem mem Kind.all).2
  have h₁ := (Stays.refl k).congr hl₁ hf₁
  have h₂ := h₁.congr hl₂ hf₂
  unfold Driver.debugfsOpenLlCounted at hs
  split at hs
  · obtain ⟨-, hs⟩ := Option.ite_none_right_eq_some.1 hs
    obtain rfl := Option.some.inj hs
    exact ⟨(Stays.refl k).openedWith hf _, rfl, rfl, rfl, rfl⟩
  · dsimp only at hs
    split at hs
    · obtain rfl := Option.some.inj hs
      exact ⟨(Stays.refl k).openedWith hf _, rfl, rfl, rfl, rfl⟩
    · split at hs
      · obtain rfl := Option.some.inj hs
        exact ⟨h₁.openedWith (hf₁ ▸ hf) _, unsent_openedWith (unsent_of_eq hl₁) f file _⟩
      · have hl := unsent_of_eq (hl₂.trans hl₁)
        split at hs
        · obtain rfl := Option.some.inj hs
          exact ⟨h₂.openedWith (hf₂ ▸ hf₁ ▸ hf) _, unsent_openedWith hl f file _⟩
        · obtain rfl := Option.some.inj hs
          exact ⟨h₂.setPhase (hf₂ ▸ hf₁ ▸ hf) _, hl⟩

theorem openLlQuery_hands {i n : ℕ} {send : Int32} (hf : k.files f = some file)
    (hs : k.debugfsOpenLlQuery kstrtol f file i n send = some k') : Stays k k' ∧ Posted k k' := by
  unfold Driver.debugfsOpenLlQuery at hs
  split at hs
  · obtain ⟨k₁, hk₁, hs⟩ := Option.bind_eq_some_iff.1 hs
    obtain ⟨hl, hfs⟩ := foldlM_keeps (setRecord_keeps i) hk₁
    dsimp only at hs
    obtain ⟨-, -, -, hpost⟩ := accessVar_lists kstrtol file ⟨Int32.ofNat i, .name⟩ send
      (k₁.modifyTrans file forName)
    have hposted : ∀ t ∈ ((k₁.modifyTrans file forName).accessVar kstrtol file ⟨Int32.ofNat i, .name⟩
        send).2.link.pendingList, t ∈ k.link.pendingList ∨ t = file.privateData := by
      have e : (k₁.modifyTrans file forName).link.pendingList = k.link.pendingList := by
        show k₁.link.pendingList = _
        rw [hl]
      rwa [e] at hpost
    have h := (((Stays.refl k).congr hl hfs).modifyTrans file forName).accessVar kstrtol file
      ⟨Int32.ofNat i, .name⟩ send
    split at hs
    · obtain rfl := Option.some.inj hs
      exact ⟨h.setPhase (hfs ▸ hf) _, .of_file hf hposted⟩
    · obtain rfl := Option.some.inj hs
      exact ⟨h.setPhase (hfs ▸ hf) _, .of_file hf hposted⟩
  · obtain rfl := Option.some.inj hs
    exact ⟨(Stays.refl k).openedWith hf _, .of_eq rfl⟩

theorem openLlNamed_hands {i n : ℕ} {intr : Bool} {mem : Kind → Bool} (hf : k.files f = some file)
    (hs : k.debugfsOpenLlNamed f file i n intr mem = some k') :
    Stays k k' ∧ Unsent k.link k'.link := by
  unfold Driver.debugfsOpenLlNamed at hs
  split at hs
  · obtain ⟨-, hs⟩ := Option.ite_none_right_eq_some.1 hs
    obtain rfl := Option.some.inj hs
    exact ⟨(Stays.refl k).openedWith hf _, rfl, rfl, rfl, rfl⟩
  · obtain ⟨k₁, hk₁, hs⟩ := Option.bind_eq_some_iff.1 hs
    obtain ⟨hl, hfs⟩ := foldlM_keeps (createFile_keeps _ i mem) hk₁
    obtain rfl := Option.some.inj hs
    exact ⟨((Stays.refl k).congr hl hfs).setPhase (hfs ▸ hf) _, unsent_of_eq hl⟩

/-! ### Every step -/

/-- The step takes a struct that nobody returns, or closes a file without returning its struct. -/
def Loses (k : Driver) : Event → Prop
  | .llCount .. => True
  | .releaseWoken f _ =>
    ∃ file, k.files f = some file ∧ ¬ ((k.transOf file).valid = true ∧ (k.transOf file).err = 0)
  | _ => False

instance (k : Driver) : (e : Event) → Decidable (Loses k e)
  | .llCount .. => .isTrue trivial
  | .releaseWoken f _ => inferInstanceAs (Decidable
      (∃ file ∈ k.files f, ¬ ((k.transOf file).valid = true ∧ (k.transOf file).err = 0)))
  | .openVar .. => .isFalse id
  | .openLl .. => .isFalse id
  | .reply _ => .isFalse id
  | .read .. => .isFalse id
  | .write .. => .isFalse id
  | .release .. => .isFalse id
  | .llCounted .. => .isFalse id
  | .llQuery .. => .isFalse id
  | .llNamed .. => .isFalse id

lemma reply_hands (k : Driver) (data : List UInt8) :
    Stays k { k with link := k.link.rpmsgCb data } ∧ Posted k { k with link := k.link.rpmsgCb data } := by
  rcases k.link.rpmsgCb_cases data with ⟨_, -, t, -, -, e⟩ | ⟨-, e⟩
  · rw [e]
    exact ⟨⟨rfl, rfl, rfl, rfl⟩, fun u hu => .inl (List.mem_of_mem_erase hu)⟩
  · rw [e]
    exact ⟨⟨rfl, rfl, rfl, rfl⟩, .of_eq rfl⟩

/-- **One step** drops a struct if it is one of the two, and otherwise keeps them in hand. -/
theorem step_hands {e : Event} (hc : k.link.chnl = true) (hs : step kstrtol k e = some k') :
    (if Loses k e then Pool.Drops (pool k) (pool k') else Pool.Keeps (pool k) (pool k')) ∧
      Posted k k' := by
  replace hs := leads_of_step hs
  cases hs with
  | openVar hf hs => exact openVar_hands hf hs
  | openLl hf hs =>
    obtain ⟨hk, -, hu⟩ := openLl_hands hf hs
    exact ⟨hk, .of_eq hu.pendingList⟩
  | reply hs =>
    subst hs
    obtain ⟨hk, hp⟩ := reply_hands k _
    exact ⟨hk.keeps, hp⟩
  | read file hf hready hread hs =>
    obtain ⟨hk, hu⟩ := readVar_hands hf hs
    exact ⟨hk.keeps, .of_eq hu.pendingList⟩
  | write file hf hready hwrite hs =>
    subst hs
    exact ⟨(writeVar_hands _ _ _ hf).keeps, .of_eq (writeVar_link _ _ _ hf).1.pendingList⟩
  | release file hf hready hs => exact releaseVar_hands hc hf hs
  | @releaseWoken f intr file hf hclosing hs =>
    obtain ⟨hu, -, hk⟩ := releaseVarWoken_hands hf hs
    refine ⟨?_, .of_eq hu.pendingList⟩
    have hl : Loses k (.releaseWoken f intr) ↔
        ¬ ((k.transOf file).valid = true ∧ (k.transOf file).err = 0) := by
      simp only [Loses, hf, Option.some.injEq, exists_eq_left']
    by_cases hgood : (k.transOf file).valid = true ∧ (k.transOf file).err = 0
    · rw [if_neg fun h => hl.1 h hgood]
      rwa [if_pos hgood] at hk
    · rw [if_pos (hl.2 hgood)]
      rwa [if_neg hgood] at hk
  | llCount file hf hload hs => exact openLlCount_hands hc hf hs
  | llCounted file hf hcount hs =>
    obtain ⟨hk, hu⟩ := openLlCounted_hands hf hs
    exact ⟨hk.keeps, .of_eq hu.pendingList⟩
  | llQuery file i n hf hquery hs =>
    obtain ⟨hk, hp⟩ := openLlQuery_hands hf hs
    exact ⟨hk.keeps, hp⟩
  | llNamed file i n hf hname hs =>
    obtain ⟨hk, hu⟩ := openLlNamed_hands hf hs
    exact ⟨hk.keeps, .of_eq hu.pendingList⟩

/-! ### Without a channel -/

/-- What a step does without a channel. -/
structure Gone (k k' : Driver) : Prop where
  hands : Pool.Keeps (pool k) (pool k') ∨ Pool.Drops (pool k) (pool k')
  chnl : k'.link.chnl = k.link.chnl
  pendingList : k'.link.pendingList = k.link.pendingList

lemma Stays.gone (h : Stays k k') (hu : Unsent k.link k'.link) : Gone k k' :=
  ⟨.inl h.keeps, h.chnl, hu.pendingList⟩

lemma einval_ne_zero : (-einval : Int32) ≠ 0 := by decide

lemma einval_neg : (-einval : Int32) < 0 := by decide

lemma releaseVar_gone {send : Int32} (hc : k.link.chnl = false) (hf : k.files f = some file)
    (hs : k.debugfsReleaseVar kstrtol f file send = some k') : Gone k k' := by
  have hreturns : ∀ (k₁ : Driver) (ret : Int32), Stays k k₁ →
      k₁.link.pendingList = k.link.pendingList → k₁.files f = some file →
      Gone k ((k₁.returnTrans file).closed f ret) := by
    intro k₁ ret h hp hf₁
    refine ⟨.inl (.returns f file.privateData (owner_pool hf) ?_ h.made ?_), h.chnl, hp⟩
    · exact congrArg (file.privateData :: ·) h.unused
    · rw [← h.owner]
      exact owner_setFile f none _
  unfold Driver.debugfsReleaseVar at hs
  split at hs
  · split at hs
    · cases hs
    · split at hs
      · obtain rfl := Option.some.inj hs
        exact hreturns k _ (Stays.refl k) rfl hf
      · dsimp only at hs
        have hc₁ : (k.modifyTrans file fun x => { x with wq := true, valid := false }).link.chnl =
            false := hc
        rw [accessVar_gone kstrtol file _ send hc₁, if_pos einval_ne_zero] at hs
        obtain rfl := Option.some.inj hs
        exact hreturns _ _ ((Stays.refl k).modifyTrans file _) rfl hf
  · obtain rfl := Option.some.inj hs
    exact hreturns k _ (Stays.refl k) rfl hf

lemma openVar_gone {info : VarAccessInfo} {fModeRead fModeWrite nonblock mem : Bool} {send : Int32}
    (hc : k.link.chnl = false) (hf : k.files f = none)
    (hs : k.debugfsOpenVar kstrtol f info fModeRead fModeWrite nonblock mem send = some k') :
    Gone k k' := by
  have hhands := (openVar_hands hf hs).1
  unfold Driver.debugfsOpenVar at hs
  obtain ⟨⟨t, l⟩, ha, hs⟩ := Option.bind_eq_some_iff.1 hs
  have hal := Link.allocTrans_spec ha
  dsimp only at hs
  generalize (⟨.var info, fModeRead, fModeWrite, nonblock, 0, t, .ready⟩ : File) = file at hs
  have hopened : ∀ k₁ : Driver, k₁.link.chnl = l.chnl → k₁.link.pendingList = l.pendingList →
      k' = k₁.openedForWriting f file → Gone k k' := by
    rintro k₁ hc₁ hp₁ rfl
    refine ⟨.inl hhands, ?_, ?_⟩
    · have hkeep : (k₁.openedForWriting f file).link.chnl = k₁.link.chnl := by
        unfold Driver.openedForWriting
        split <;> rfl
      rw [hkeep, hc₁, hal.chnl]
    · rw [(openedForWriting_lists f file k₁).2.2, hp₁, hal.pendingList]
  split at hs
  · generalize hk : Driver.modifyTrans file (fun x => { x with rnw := true, wq := true })
      (Driver.setFile f (some file) { k with link := l }) = k₁ at hs
    have hl₁ : k₁.link.chnl = l.chnl := hk ▸ rfl
    have hp₁ : k₁.link.pendingList = l.pendingList := hk ▸ rfl
    rw [accessVar_gone kstrtol file info send (hl₁.trans (hal.chnl.trans hc)),
      if_neg einval_ne_zero] at hs
    exact hopened k₁ hl₁ hp₁ (Option.some.inj hs).symm
  · exact hopened _ rfl rfl (Option.some.inj hs).symm

lemma openLlCount_gone {mem : Bool} {send : Int32} (hc : k.link.chnl = false)
    (hf : k.files f = some file) (hs : k.debugfsOpenLlCount f file mem send = some k') :
    Gone k k' := by
  have hn : k.link.getNVars mem send = some (-einval, k.link) := by
    unfold Link.getNVars
    rw [hc]
    rfl
  unfold Driver.debugfsOpenLlCount at hs
  rw [hn] at hs
  dsimp only [Option.bind_eq_bind, Option.bind_some] at hs
  rw [if_pos einval_ne_zero] at hs
  obtain rfl := Option.some.inj hs
  exact ((Stays.refl k).openedWith hf _).gone ⟨rfl, rfl, rfl, rfl⟩

lemma openLlQuery_gone {i n : ℕ} {send : Int32} (hc : k.link.chnl = false)
    (hf : k.files f = some file) (hs : k.debugfsOpenLlQuery kstrtol f file i n send = some k') :
    Gone k k' := by
  unfold Driver.debugfsOpenLlQuery at hs
  split at hs
  · obtain ⟨k₁, hk₁, hs⟩ := Option.bind_eq_some_iff.1 hs
    obtain ⟨hl, hfs⟩ := foldlM_keeps (setRecord_keeps i) hk₁
    have hc₁ : (k₁.modifyTrans file forName).link.chnl = false := (congrArg Link.chnl hl).trans hc
    have hgone := accessVar_gone kstrtol file ⟨Int32.ofNat i, .name⟩ send hc₁
    unfold forName at hgone
    dsimp only at hs
    rw [hgone, if_pos einval_neg] at hs
    obtain rfl := Option.some.inj hs
    have h := ((Stays.refl k).congr hl hfs).modifyTrans file forName
    have hu := unsent_of_eq hl
    exact (h.setPhase (hfs ▸ hf) _).gone ⟨hu.pendingList, hu.drawn, hu.number, hu.wire⟩
  · obtain rfl := Option.some.inj hs
    exact ((Stays.refl k).openedWith hf _).gone ⟨rfl, rfl, rfl, rfl⟩

/-- **One step without a channel** posts nothing. -/
theorem step_gone {e : Event} (hc : k.link.chnl = false) (hp : k.link.pendingList = [])
    (hs : step kstrtol k e = some k') : Gone k k' := by
  replace hs := leads_of_step hs
  cases hs with
  | openVar hf hs => exact openVar_gone hc hf hs
  | openLl hf hs =>
    obtain ⟨hk, hchnl, hu⟩ := openLl_hands hf hs
    exact ⟨.inl hk, hchnl, hu.pendingList⟩
  | @reply data hs =>
    subst hs
    rcases k.link.rpmsgCb_cases data with ⟨_, -, t, ht, -, -⟩ | ⟨-, hl⟩
    · rw [hp] at ht
      exact absurd ht List.not_mem_nil
    · exact ⟨.inl (reply_hands k data).1.keeps, congrArg Link.chnl hl, congrArg Link.pendingList hl⟩
  | read file hf hready hread hs =>
    obtain ⟨hk, hu⟩ := readVar_hands hf hs
    exact hk.gone hu
  | write file hf hready hwrite hs =>
    subst hs
    exact (writeVar_hands _ _ _ hf).gone (writeVar_link _ _ _ hf).1
  | release file hf hready hs => exact releaseVar_gone hc hf hs
  | releaseWoken file hf hclosing hs =>
    obtain ⟨hu, hchnl, hk⟩ := releaseVarWoken_hands hf hs
    refine ⟨?_, hchnl, hu.pendingList⟩
    split at hk
    · exact .inl hk
    · exact .inr hk
  | llCount file hf hload hs => exact openLlCount_gone hc hf hs
  | llCounted file hf hcount hs =>
    obtain ⟨hk, hu⟩ := openLlCounted_hands hf hs
    exact hk.gone hu
  | llQuery file i n hf hquery hs => exact openLlQuery_gone hc hf hs
  | llNamed file i n hf hname hs =>
    obtain ⟨hk, hu⟩ := openLlNamed_hands hf hs
    exact hk.gone hu

end CfgMgmt.Kernel.Hands
