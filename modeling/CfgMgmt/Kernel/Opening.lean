import CfgMgmt.Kernel.Loading

/-!
# How a call of `debugfs_open_ll` goes on

The steps of a call that loads the list, one after the other (`Next`), for any number of calls at the same
time.  `rest` bounds how far a call is from its end.  While the replies come in the order of the requests,
every call waits for a request that is pending (`Awaited`); and when none has to wait, one can go on
(`goes_on`).
-/

namespace CfgMgmt.Kernel.Opening

open CfgMgmt.Lib CfgMgmt.Lib.Bytes CfgMgmt.Lib.Machine CfgMgmt.Msg CfgMgmt.Kernel.Linux
open CfgMgmt.Kernel.RpmsgLink CfgMgmt.Kernel.Files CfgMgmt.Kernel.Structs CfgMgmt.Kernel.Calls
open CfgMgmt.Kernel.Sessions CfgMgmt.Kernel.Hands CfgMgmt.Kernel.Counting CfgMgmt.Kernel.Listing
open CfgMgmt.Kernel.LoadList
open CfgMgmt.Kernel.Loading (step_llCount step_llCounted step_llQuery step_llNamed)
open CfgMgmt.Kernel.Matching (Young)

/-! ### One step -/

/-- The next step of the call on a file, and its phase after the step. -/
inductive Next (n : ℕ) (file : File) (k k' : Driver) : Phase → Prop
  /-- the number of the variables is queried -/
  | asks {t : Ptr} {x : Transaction} {m : CfgMsg} (hp : file.phase = .load)
      (hr : Requested t x m k.link k'.link) (hm : m.type = reqNVars) : Next n file k k' .count
  /-- there are no variables, or another call has loaded them -/
  | stops (hp : file.phase = .count) (hu : Unsent k.link k'.link) : Next n file k k' .ready
  | begins (hp : file.phase = .count) (hu : Unsent k.link k'.link) : Next n file k k' (.query 0 n)
  /-- a name is queried -/
  | queries {i l : ℕ} {x : Transaction} {m : CfgMsg} (hp : file.phase = .query i l) (hi : i < l)
      (hr : Requested file.privateData x m k.link k'.link) : Next n file k k' (.name i l)
  /-- all files are there -/
  | ends {i l : ℕ} (hp : file.phase = .query i l) (hu : Unsent k.link k'.link) : Next n file k k' .ready
  /-- the files of a variable are created -/
  | creates {i l : ℕ} (hp : file.phase = .name i l) (hi : i < l) (hu : Unsent k.link k'.link) :
      Next n file k k' (.query (i + 1) l)

/-- The call on the file `f` goes on. -/
structure Moves (n : ℕ) (f : FileId) (file : File) (phase : Phase) (k k' : Driver) : Prop where
  before : k.files f = some file
  after : k'.files f = some { file with phase }
  acts : Acts f k k'
  nVars : k'.link.nVars = k.link.nVars
  next : Next n file k k' phase

variable {names : Names} {kstrtol : List UInt8 → Int32 × Int32} {k k' : Driver} {f : FileId} {file : File}
  {n : ℕ}

section Calls

lemma moves_count {mem : Bool} (hi : Sane k) (hf : k.files f = some file) (hphase : file.phase = .load)
    (hs : k.debugfsOpenLlCount f file mem 0 = some k') : Moves n f file .count k k' := by
  unfold Driver.debugfsOpenLlCount at hs
  obtain ⟨⟨ret, link⟩, hn, hs⟩ := Option.bind_eq_some_iff.1 hs
  obtain ⟨hret, t, -, -, hp, -, -, -, hnVars, hd, hnum, ht, -⟩ := Link.getNVars_spec hi.chnl hn
  have hacts := (Acts.refl hi (f := f)).getNVars hn
  have hw := Leaks.getNVars_wire hi.chnl hn
  dsimp only at hs
  rw [if_neg (not_not.2 hret)] at hs
  obtain rfl := Option.some.inj hs
  refine ⟨hf, setPhase_files_self _, acts_setPhase hacts hf _, hnVars, ?_⟩
  have hreq : Requested t { Transaction.zero with wq := true } k.link.countReq k.link link :=
    ⟨hp, hd, hnum, ht, hw, rfl⟩
  exact .asks hphase hreq rfl

lemma moves_counted {mem dirMem : Kind → Bool} (h : Listed names k) (hf : k.files f = some file)
    (hphase : file.phase = .count) (hs : k.debugfsOpenLlCounted f file false mem dirMem = some k') :
    ∃ phase, Moves names.list.length f file phase k k' := by
  obtain ⟨hb, -⟩ := openLlCounted_beside hs
  obtain ⟨-, hu⟩ := openLlCounted_hands hf hs
  have hacts : Acts f k k := .refl h.traffic.inv.sane
  obtain ⟨hl₁, hf₁⟩ := allocMem_keeps mem Kind.all k
  obtain ⟨hl₂, hf₂⟩ := createDirs_keeps dirMem Kind.all (k.allocMem mem Kind.all).2
  have hacts₁ := hacts.congr hl₁ hf₁
  have hacts₂ := hacts₁.congr hl₂ hf₂
  unfold Driver.debugfsOpenLlCounted at hs
  split at hs
  · obtain ⟨hintr, -⟩ := Option.ite_none_right_eq_some.1 hs
    cases hintr
  rename_i hneg
  dsimp only at hs
  split at hs
  · obtain rfl := Option.some.inj hs
    exact ⟨_, hf, openedWith_files_self _, acts_openedWith hacts hf _, hb.nVars, .stops hphase hu⟩
  split at hs
  · obtain rfl := Option.some.inj hs
    exact ⟨_, hf, openedWith_files_self _, acts_openedWith hacts₁ (hf₁ ▸ hf) _, hb.nVars, .stops hphase hu⟩
  have hf₂' : ((k.allocMem mem Kind.all).2.createDirs dirMem Kind.all).2.files f = some file := by
    rw [hf₂, hf₁, hf]
  split at hs
  · obtain rfl := Option.some.inj hs
    exact ⟨_, hf, openedWith_files_self _, acts_openedWith hacts₂ hf₂' _, hb.nVars, .stops hphase hu⟩
  · have hcount : k.link.nVars.toInt.toNat = names.list.length := by
      rw [h.traffic.nVars.resolve_left hneg, toInt_count, Int.toNat_natCast]
    obtain rfl := Option.some.inj hs
    rw [hcount] at hb hu ⊢
    exact ⟨_, hf, setPhase_files_self _, acts_setPhase hacts₂ hf₂' _, hb.nVars, .begins hphase hu⟩

lemma moves_query {i l : ℕ} (h : Inv True k) (hf : k.files f = some file) (hphase : file.phase = .query i l)
    (hs : k.debugfsOpenLlQuery kstrtol f file i l 0 = some k') :
    ∃ phase, Moves n f file phase k k' := by
  obtain ⟨hb, -⟩ := openLlQuery_beside hs
  have hacts : Acts f k k := .refl h.sane
  rcases debugfsOpenLlQuery_cases h.sane.chnl hs with ⟨-, rfl⟩ | ⟨hi, k₁, hl, hfs, rfl⟩
  · exact ⟨_, hf, openedWith_files_self _, acts_openedWith hacts hf _, hb.nVars,
      .ends hphase ⟨rfl, rfl, rfl, rfl⟩⟩
  · have hnp : file.privateData ∉ k.link.pendingList := by
      have hok := h.phases f file hf
      simp only [PhaseOk, hphase] at hok
      exact hok trivial
    have hf₁ : k₁.files f = some file := hfs ▸ hf
    have hq := acts_queryName kstrtol i 0 (hacts.congr hl hfs) hf₁ (hl ▸ hnp)
    obtain ⟨-, x, m, hreq, -⟩ := queryName_sends kstrtol (k := k₁) i file (hl ▸ h.sane.chnl)
    rw [if_neg (by decide)] at hb ⊢
    exact ⟨_, hf, setPhase_files_self _, acts_setPhase hq hf₁ _, hb.nVars,
      .queries hphase hi (hreq.of_unsent (unsent_of_eq hl))⟩

lemma moves_named {i l : ℕ} {mem : Kind → Bool} (h : Listed names k) (hf : k.files f = some file)
    (hphase : file.phase = .name i l) (hs : k.debugfsOpenLlNamed f file i l false mem = some k') :
    ∃ phase, Moves n f file phase k k' := by
  obtain ⟨hb, -⟩ := openLlNamed_beside hs
  obtain ⟨-, hu⟩ := openLlNamed_hands hf hs
  have hlt : i < l := by
    obtain ⟨i', a, hd, hq | ⟨hq, -⟩⟩ := h.stage.during_of_busy hf (busy_of_name hphase)
    · cases hphase.symm.trans hq
    · obtain ⟨rfl, rfl⟩ := Phase.name.inj (hphase.symm.trans hq)
      exact hd.lt
  unfold Driver.debugfsOpenLlNamed at hs
  split at hs
  · obtain ⟨hintr, -⟩ := Option.ite_none_right_eq_some.1 hs
    cases hintr
  · obtain ⟨k₁, hk₁, hs⟩ := Option.bind_eq_some_iff.1 hs
    obtain ⟨hl, hfs⟩ := foldlM_keeps (createFile_keeps _ i mem) hk₁
    have hacts : Acts f k k₁ := (Acts.refl h.traffic.inv.sane).congr hl hfs
    obtain rfl := Option.some.inj hs
    exact ⟨_, hf, setPhase_files_self _, acts_setPhase hacts (hfs ▸ hf) _, hb.nVars,
      .creates hphase hlt hu⟩

lemma openLl_acts {fModeRead fModeWrite nonblock mem : Bool} (h : Sane k)
    (hs : k.debugfsOpenLl f fModeRead fModeWrite nonblock mem = some k') :
    Acts f k k' ∧ ∃ file, k'.files f = some file ∧ (file.phase = .ready ∨ file.phase = .load) := by
  unfold Driver.debugfsOpenLl at hs
  obtain ⟨⟨t, link⟩, ha, hs⟩ := Option.bind_eq_some_iff.1 hs
  dsimp only at hs
  generalize hfile : (⟨.loadList, fModeRead, fModeWrite, nonblock, 0, t, .load⟩ : File) = file at hs
  have ht : file.privateData = t := hfile ▸ rfl
  obtain ⟨hopen, -⟩ := acts_alloc (f := f) h (ht ▸ ha)
  split at hs
  · obtain rfl := Option.some.inj hs
    exact ⟨acts_openedWith hopen (setFile_files_self _) _, _, openedWith_files_self _, .inl rfl⟩
  · obtain rfl := Option.some.inj hs
    exact ⟨hopen, file, setFile_files_self _, .inr (hfile ▸ rfl)⟩

/-- A call that has begun to load the list continues. -/
def Continues : Event → Prop
  | .llCount .. => True
  | .llCounted .. => True
  | .llQuery .. => True
  | .llNamed .. => True
  | _ => False

/-- **Every step of a call that has begun** is one of these. -/
theorem moves_step {e : Event} (h : Listed names k) (hf : Faultless names k e) (ha : Alone k e)
    (he : Continues e) (hs : step kstrtol k e = some k') :
    ∃ f file phase, Moves names.list.length f file phase k k' := by
  obtain ⟨-, hintr, -⟩ := ha
  replace hs := leads_of_step hs
  cases hs with
  | @llCount f mem send file hfile hload hs =>
    obtain rfl := hf
    exact ⟨f, file, _, moves_count h.traffic.inv.sane hfile hload hs⟩
  | @llCounted f intr mem dirMem file hfile hcount hs =>
    obtain rfl := hintr
    exact ⟨f, file, moves_counted h hfile hcount hs⟩
  | @llQuery f send file i l hfile hquery hs =>
    obtain rfl := hf
    exact ⟨f, file, moves_query h.traffic.inv hfile hquery hs⟩
  | @llNamed f intr mem file i l hfile hname hs =>
    obtain rfl := hintr
    exact ⟨f, file, moves_named h hfile hname hs⟩
  | openLl => exact he.elim
  | reply => exact he.elim
  | openVar => exact he.elim
  | read => exact he.elim
  | write => exact he.elim
  | release => exact he.elim
  | releaseWoken => exact he.elim

end Calls

/-! ### How far it is to the end -/

/-- How many steps there are at most to the end of a call in this phase, with two for every reply: the
request is served and the reply is delivered. -/
def rest (n : ℕ) : Phase → ℕ
  | .load => 4 * n + 5
  | .count => 4 * n + 2
  | .query i l => 4 * (l - i) + 1
  | .name i l => 4 * (l - i) - 2
  | .ready => 0
  | .closing => 0

/-- A call that goes on gets closer to its end, by more than its request costs. -/
lemma rest_lt {phase : Phase} (h : Next n file k k' phase) :
    rest n phase + 2 * (k'.link.wire.length - k.link.wire.length) < rest n file.phase := by
  have hnone : Unsent k.link k'.link → k'.link.wire.length - k.link.wire.length = 0 := fun hu => by
    rw [hu.wire, Nat.sub_self]
  have hone : ∀ {t x m}, Requested t x m k.link k'.link →
      k'.link.wire.length - k.link.wire.length = 1 := fun hr => by
    rw [hr.wire, List.length_append, Nat.add_sub_cancel_left, List.length_singleton]
  cases h with
  | asks hp hr =>
    rw [hone hr, hp]
    simp only [rest]
    omega
  | stops hp hu =>
    rw [hnone hu, hp]
    simp only [rest]
    omega
  | begins hp hu =>
    rw [hnone hu, hp]
    simp only [rest]
    omega
  | queries hp hi hr =>
    rw [hone hr, hp]
    simp only [rest]
    omega
  | ends hp hu =>
    rw [hnone hu, hp]
    simp only [rest]
    omega
  | creates hp hi hu =>
    rw [hnone hu, hp]
    simp only [rest]
    omega

/-! ### What a call waits for -/

/-- The structs that are pending are those of the requests from the number `d` on. -/
structure Backlog (d : ℕ) (l : Link) : Prop where
  ge : ∀ t ∈ l.pendingList, d ≤ l.number t
  all : ∀ j, d ≤ j → j < l.drawn → ∃ t ∈ l.pendingList, l.number t = j

/-- When the replies before the number `d` have arrived: what a call waits for is there, or will come. -/
def Wakes (d : ℕ) (k : Driver) (file : File) : Prop :=
  match file.phase with
  | .count => 0 ≤ k.link.nVars ∨ ∃ j m, d ≤ j ∧ k.link.wire[j]? = some m ∧ m.type = reqNVars
  | .name _ _ => (k.transOf file).valid = true ∨ file.privateData ∈ k.link.pendingList
  | .closing => False
  | _ => True

/-- Nobody waits for nothing. -/
structure Awaited (d : ℕ) (k : Driver) : Prop where
  backlog : Backlog d k.link
  wakes : ∀ f file, k.files f = some file → Wakes d k file

section Awaited

variable {d : ℕ}

lemma Backlog.of_sends (h : Backlog d k.link) (hd : d ≤ k.link.drawn) (hi : Sane k')
    (hs : Leaks.Sends k k') : Backlog d k'.link := by
  rcases hs with hu | ⟨t, x, m, hr⟩
  · refine ⟨fun t ht => ?_, fun j hj hlt => ?_⟩
    · rw [hu.number]
      exact h.ge t (hu.pendingList ▸ ht)
    · obtain ⟨t, ht, hn⟩ := h.all j hj (hu.drawn ▸ hlt)
      exact ⟨t, hu.pendingList.symm ▸ ht, (congrFun hu.number t).trans hn⟩
  · have hnew : t ∉ k.link.pendingList := by
      have hnodup := hi.sound.pending_nodup
      rw [show (pool k').pending = k'.link.pendingList from rfl, hr.pendingList] at hnodup
      exact (List.nodup_cons.1 hnodup).1
    have hold : ∀ u ∈ k.link.pendingList, k'.link.number u = k.link.number u := by
      intro u hu
      have hne : u ≠ t := by
        rintro rfl
        exact hnew hu
      rw [hr.number, Function.update_of_ne hne]
    have hself : k'.link.number t = k.link.drawn := by
      rw [hr.number, Function.update_self]
    refine ⟨fun u hu => ?_, fun j hj hlt => ?_⟩
    · rcases List.mem_cons.1 (hr.pendingList ▸ hu) with rfl | hu
      · rw [hself]
        exact hd
      · rw [hold u hu]
        exact h.ge u hu
    · rw [hr.drawn] at hlt
      rw [hr.pendingList]
      rcases Nat.lt_succ_iff_lt_or_eq.1 hlt with hlt | rfl
      · obtain ⟨u, hu, hn⟩ := h.all j hj hlt
        exact ⟨u, List.mem_cons_of_mem _ hu, (hold u hu).trans hn⟩
      · exact ⟨t, List.mem_cons_self, hself⟩

lemma Backlog.settle {t : Ptr} {l : Link} (h : Backlog d l) (hn : Numbered l) (ht : t ∈ l.pendingList)
    (hd : l.number t = d) (response : CfgMsg) : Backlog (d + 1) (l.settle response t) := by
  have hnodup : (l.pendingList.map l.number).Nodup :=
    List.pairwise_map.2 (hn.order.imp fun hlt => hlt.ne')
  refine ⟨fun u hu => ?_, fun j hj hlt => ?_⟩
  · obtain ⟨hne, hu⟩ := (List.Nodup.mem_erase_iff hn.nodup).1 hu
    have hge := h.ge u hu
    have hother : l.number u ≠ d := fun e => hne (List.inj_on_of_nodup_map hnodup hu ht (e.trans hd.symm))
    show d + 1 ≤ l.number u
    omega
  · obtain ⟨u, hu, hnu⟩ := h.all j (Nat.le_of_succ_le hj) hlt
    have hne : u ≠ t := by
      rintro rfl
      omega
    exact ⟨u, (List.mem_erase_of_ne hne).2 hu, hnu⟩

lemma Awaited.of_acts (h : Awaited d k) (hd : d ≤ k.link.drawn) (ha : Acts f k k') (hs : Leaks.Sends k k')
    (hn : k'.link.nVars = k.link.nVars) (hown : ∀ file, k'.files f = some file → Wakes d k' file) :
    Awaited d k' := by
  have hw : k.link.wire <+: k'.link.wire := by
    rcases hs with hu | ⟨t, x, m, hr⟩
    · exact hu.wire.symm ▸ List.prefix_refl _
    · exact hr.wire.symm ▸ List.prefix_append ..
  refine ⟨h.backlog.of_sends hd ha.sane hs, fun g file hg => ?_⟩
  by_cases hgf : g = f
  · subst hgf
    exact hown file hg
  · rw [ha.files g hgf] at hg
    have hwakes := h.wakes g file hg
    unfold Wakes at hwakes ⊢
    cases hphase : file.phase with
    | count =>
      simp only [hphase] at hwakes ⊢
      rw [hn]
      refine hwakes.imp_right ?_
      rintro ⟨j, m, hj, hm, ht⟩
      exact ⟨j, m, hj, getElem?_of_isPrefix hw hm, ht⟩
    | name i l =>
      simp only [hphase] at hwakes ⊢
      unfold Driver.transOf at hwakes ⊢
      rw [ha.trans g hgf file hg, ha.pending g hgf file hg]
      exact hwakes
    | closing =>
      simp only [hphase] at hwakes
    | _ => trivial

/-- **A call that continues** waits for a request that it has sent. -/
theorem Awaited.of_moves {phase : Phase} (h : Awaited d k) (hd : d ≤ k.link.wire.length)
    (hdrawn : k.link.drawn = k.link.wire.length) (hm : Moves n f file phase k k') : Awaited d k' := by
  have hsends : Leaks.Sends k k' := by
    cases hm.next with
    | asks _ hr => exact .inr ⟨_, _, _, hr⟩
    | queries _ _ hr => exact .inr ⟨_, _, _, hr⟩
    | stops _ hu => exact .inl hu
    | begins _ hu => exact .inl hu
    | ends _ hu => exact .inl hu
    | creates _ _ hu => exact .inl hu
  refine h.of_acts (hdrawn.symm ▸ hd) hm.acts hsends hm.nVars fun file' hf' => ?_
  obtain rfl := Option.some.inj (hm.after.symm.trans hf')
  cases hm.next with
  | asks _ hr ht => exact .inr ⟨_, _, hd, hr.wire_last, ht⟩
  | queries _ _ hr => exact .inr (hr.pendingList.symm ▸ List.mem_cons_self)
  | stops => trivial
  | begins => trivial
  | ends => trivial
  | creates => trivial

/-- **A reply wakes** the call that waits for it. -/
theorem Awaited.of_reply {t : Ptr} {req response : CfgMsg} (h : Awaited d k) (hl : Traffic names k)
    (ht : t ∈ k.link.pendingList) (hn : k.link.number t = d) (hreq : k.link.wire[d]? = some req)
    (ha : LoadList.Answers names req response) :
    Awaited (d + 1) { k with link := k.link.settle response t } := by
  have hcount : 0 ≤ (Int32.ofNat names.list.length) := by
    rw [Int32.le_iff_toInt_le, toInt_count]
    exact Int.natCast_nonneg _
  -- only the number of the variables sets `n_vars`
  have hnVars : response.type = resNVars → response.val = Int32.ofNat names.list.length := by
    intro htype
    rcases (hl.request _ req hreq).2 with hcount | ⟨hname, i, hlt, hind⟩
    · exact (ha.2.1 hcount).2
    · have hres := (ha.2.2 hname i hlt hind).1
      rw [htype] at hres
      exact absurd hres (by decide)
  refine ⟨h.backlog.settle hl.inv.sane.numbered ht hn response, fun g file hg => ?_⟩
  have hwakes := h.wakes g file hg
  unfold Wakes at hwakes ⊢
  cases hphase : file.phase with
  | count =>
    simp only [hphase] at hwakes ⊢
    show 0 ≤ (if response.type = resNVars then response.val else k.link.nVars) ∨ _
    by_cases htype : response.type = resNVars
    · rw [if_pos htype, hnVars htype]
      exact .inl hcount
    · rw [if_neg htype]
      refine hwakes.imp_right ?_
      rintro ⟨j, m, hj, hm, hmt⟩
      rcases Nat.lt_or_eq_of_le hj with hlt | rfl
      · exact ⟨j, m, hlt, hm, hmt⟩
      · obtain rfl := Option.some.inj (hreq.symm.trans hm)
        exact absurd (ha.2.1 hmt).1 htype
  | name i l =>
    simp only [hphase] at hwakes ⊢
    by_cases hp : file.privateData = t
    · left
      show (Function.update k.link.trans t _ file.privateData).valid = true
      rw [hp, Function.update_self, Link.complete_valid]
    · refine hwakes.imp (fun hv => ?_) fun hm => (List.mem_erase_of_ne hp).2 hm
      show (Function.update k.link.trans t _ file.privateData).valid = true
      rw [Function.update_of_ne hp]
      exact hv
  | closing =>
    simp only [hphase] at hwakes
  | _ => trivial

end Awaited

/-! ### A call that need not wait -/

/-- What the call waits for is there. -/
def Woken (k : Driver) (file : File) : Prop :=
  match file.phase with
  | .count => 0 ≤ k.link.nVars
  | .name _ _ => (k.transOf file).valid = true
  | .closing => False
  | _ => True

lemma Awaited.woken {d : ℕ} (h : Awaited d k) (hi : Sane k) (hd : k.link.drawn ≤ d)
    (hw : k.link.wire.length ≤ d) (hf : k.files f = some file) : Woken k file := by
  have hnone : ∀ t, t ∉ k.link.pendingList := fun t ht =>
    absurd (h.backlog.ge t ht) (Nat.not_le.2 ((hi.numbered.lt t ht).trans_le hd))
  have hwakes := h.wakes f file hf
  unfold Wakes at hwakes
  unfold Woken
  cases hphase : file.phase with
  | count =>
    simp only [hphase] at hwakes ⊢
    refine hwakes.resolve_right ?_
    rintro ⟨j, m, hj, hm, -⟩
    have hlt := (List.getElem?_eq_some_iff.1 hm).1
    omega
  | name i l =>
    simp only [hphase] at hwakes ⊢
    exact hwakes.resolve_right (hnone _)
  | closing => simp only [hphase] at hwakes
  | _ => trivial

/-- A call that has begun can continue. -/
def Can (names : Names) (kstrtol : List UInt8 → Int32 × Int32) (k : Driver) : Prop :=
  ∃ e k', Faultless names k e ∧ Alone k e ∧ Continues e ∧ step kstrtol k e = some k'

lemma busy_goes_on (h : Listed names k) (hy : Young k) (hf : k.files f = some file) (hb : Busy file)
    (hw : Woken k file) : Can names kstrtol k := by
  obtain ⟨i, a, hd, hcase⟩ := h.stage.during_of_busy hf hb
  rcases hcase with hq | ⟨hq, -⟩
  · obtain ⟨r, hr, -⟩ := foldlM_setRecord hd.injective i hd.access kinds_nodup
    obtain ⟨hret, -⟩ := queryName_sends kstrtol (k := { k with records := r }) i file
      h.traffic.inv.sane.chnl
    unfold forName at hret
    have hs : ∃ k', k.debugfsOpenLlQuery kstrtol f file i names.list.length 0 = some k' := by
      unfold Driver.debugfsOpenLlQuery
      rw [if_pos hd.lt, hr]
      dsimp only [Option.bind_eq_bind, Option.bind_some]
      rw [hret, if_neg (by decide)]
      exact ⟨_, rfl⟩
    obtain ⟨k', hs⟩ := hs
    exact ⟨.llQuery f 0, k', rfl, ⟨trivial, trivial, hy⟩, trivial, (step_llQuery kstrtol hf hq 0).trans hs⟩
  · have hvalid : (k.transOf file).valid = true := by
      unfold Woken at hw
      rwa [hq] at hw
    have hname := (h.traffic.named f file i _ hf hq).name hvalid
    have hnew : ∀ kind ∈ Kind.all, ∀ x ∈ k.debugfs,
        ¬ (x.name = names.list.getD i [] ∧ x.parent = some kind) := by
      intro kind _
      rw [hd.debugfs]
      exact listing_new names.distinct hd.lt kind
    have hs : ∃ k', k.debugfsOpenLlNamed f file i names.list.length false (fun _ => true) = some k' := by
      unfold Driver.debugfsOpenLlNamed
      rw [hvalid, hname, foldlM_createFile i (fun _ => rfl) hd.access hd.dirP kinds_nodup hnew]
      exact ⟨_, rfl⟩
    obtain ⟨k', hs⟩ := hs
    exact ⟨.llNamed f false fun _ => true, k', fun _ _ => rfl, ⟨trivial, rfl, hy⟩, trivial,
      (step_llNamed kstrtol hf hq _ _).trans hs⟩

/-- **Some call can go on** when one of them has not returned and none has to wait. -/
theorem goes_on (h : Listed names k) (hy : Young k) (hw : ∀ f file, k.files f = some file → Woken k file)
    (hf : k.files f = some file) (hp : file.phase ≠ .ready) : Can names kstrtol k := by
  by_cases hbusy : ∃ g file', k.files g = some file' ∧ Busy file'
  · obtain ⟨g, file', hg, hb⟩ := hbusy
    exact busy_goes_on h hy hg hb (hw g file' hg)
  have hidle : ∀ g file', k.files g = some file' → ¬ Busy file' :=
    fun g file' hg hb => hbusy ⟨g, file', hg, hb⟩
  cases hphase : file.phase with
  | ready => exact absurd hphase hp
  | load =>
    obtain ⟨t, s', hal⟩ := Link.allocTrans_true k.link
    have hn : ∃ r, k.link.getNVars true 0 = some r := by
      rw [Link.getNVars_eq h.traffic.inv.sane.chnl, hal]
      exact ⟨_, rfl⟩
    obtain ⟨⟨ret, link⟩, hn⟩ := hn
    obtain ⟨hret, -⟩ := Link.getNVars_spec h.traffic.inv.sane.chnl hn
    refine ⟨.llCount f true 0, Driver.setPhase f file .count { k with link }, rfl, ⟨trivial, trivial, hy⟩,
      trivial, ?_⟩
    rw [step_llCount kstrtol hf hphase]
    unfold Driver.debugfsOpenLlCount
    rw [hn]
    dsimp only [Option.bind_eq_bind, Option.bind_some]
    rw [if_neg (not_not.2 hret)]
  | count =>
    have hle : ¬ k.link.nVars < 0 := by
      have hwoken := hw f file hf
      unfold Woken at hwoken
      rw [hphase] at hwoken
      exact Int32.not_lt.2 hwoken
    have hsome : ∃ k', k.debugfsOpenLlCounted f file false (fun _ => true) (fun _ => true) = some k' := by
      unfold Driver.debugfsOpenLlCounted
      rw [if_neg hle]
      dsimp only
      split
      · exact ⟨_, rfl⟩
      split
      · exact ⟨_, rfl⟩
      split <;> exact ⟨_, rfl⟩
    obtain ⟨k', hs⟩ := hsome
    exact ⟨.llCounted f false (fun _ => true) fun _ => true, k', fun _ _ => ⟨rfl, rfl⟩,
      ⟨fun _ => hidle, rfl, hy⟩, trivial, (step_llCounted kstrtol hf hphase _ _ _).trans hs⟩
  | query i l =>
    have hlt : ¬ i < l := fun hlt => hidle f file hf ((busy_of_query hphase).2 hlt)
    have hs : k.debugfsOpenLlQuery kstrtol f file i l 0 = some (k.openedWith f file (ascii "ok\n")) := by
      unfold Driver.debugfsOpenLlQuery
      rw [if_neg hlt]
    exact ⟨.llQuery f 0, _, rfl, ⟨trivial, trivial, hy⟩, trivial, (step_llQuery kstrtol hf hphase 0).trans hs⟩
  | name i l => exact absurd (busy_of_name hphase) (hidle f file hf)
  | closing =>
    have hwoken := hw f file hf
    unfold Woken at hwoken
    rw [hphase] at hwoken
    exact hwoken.elim

end CfgMgmt.Kernel.Opening
