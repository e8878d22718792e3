import CfgMgmt.Kernel.Counting
import CfgMgmt.Kernel.Listing
import CfgMgmt.Kernel.Matching

/-!
# Loading the list of variables

The only guard of `debugfs_open_ll` is `val_access`, which is tested before the call sleeps in
`get_n_vars` and set after it.  When two calls pass it, the second one allocates the arrays again, does
not get the directories, and leaves a null pointer in `val_dir_p`.  This does no harm when the first one
has created its files; when it is still in its loop, its next files get into the root of debugfs.
-/

namespace CfgMgmt.Kernel.LoadList

open CfgMgmt.Lib CfgMgmt.Lib.Bytes CfgMgmt.Lib.Machine CfgMgmt.Msg CfgMgmt.Kernel.Linux
open CfgMgmt.Kernel.RpmsgLink CfgMgmt.Kernel.Files CfgMgmt.Kernel.Structs CfgMgmt.Kernel.Calls
open CfgMgmt.Kernel.Sessions CfgMgmt.Kernel.Hands CfgMgmt.Kernel.Counting CfgMgmt.Kernel.Listing
open CfgMgmt.Kernel.Matching (Young)

/-! ### The firmware and the clients -/

/-- The names of the variables, as the firmware sends them. -/
structure Names where
  list : List (List UInt8)
  distinct : list.Nodup
  fits : ∀ name ∈ list, name.length < ioBufSize ∧ 0 ∉ name
  count_lt : list.length < 2 ^ 31

def Answers (names : Names) (req response : CfgMsg) : Prop :=
  response.seq = req.seq ∧
    (req.type = reqNVars →
      response.type = resNVars ∧ response.val = Int32.ofNat names.list.length) ∧
    (req.type = reqName → ∀ i < names.list.length, req.ind = Int32.ofNat i →
      response.type = resName ∧ response.len.toNat = (names.list.getD i []).length ∧
        response.data.read (names.list.getD i []).length = names.list.getD i [])

instance (names : Names) (req response : CfgMsg) : Decidable (Answers names req response) :=
  inferInstanceAs (Decidable (_ ∧ _ ∧ _))

/-- Clients open `load_list`, every allocation succeeds, and so does `rpmsg_send`; debugfs refuses no name
that is new; a message answers a pending request. -/
def Faultless (names : Names) (k : Driver) : Event → Prop
  | .openLl .. => True
  | .llCount _ _ send => send = 0
  | .llCounted _ _ mem dirMem => ∀ kind ∈ Kind.all, mem kind = true ∧ dirMem kind = true
  | .llQuery _ send => send = 0
  | .llNamed _ _ mem => ∀ kind ∈ Kind.all, mem kind = true
  | .reply data => ∃ t ∈ k.link.pendingList, ∃ req ∈ k.link.wire[k.link.number t]?,
    ∃ response ∈ CfgMsg.received data, Answers names req response
  | _ => False

instance (names : Names) (k : Driver) : (e : Event) → Decidable (Faultless names k e)
  | .openLl .. => .isTrue trivial
  | .llCount _ _ send => inferInstanceAs (Decidable (send = 0))
  | .llCounted _ _ mem dirMem =>
    inferInstanceAs (Decidable (∀ kind ∈ Kind.all, mem kind = true ∧ dirMem kind = true))
  | .llQuery _ send => inferInstanceAs (Decidable (send = 0))
  | .llNamed _ _ mem => inferInstanceAs (Decidable (∀ kind ∈ Kind.all, mem kind = true))
  | .reply data => inferInstanceAs (Decidable (∃ t ∈ k.link.pendingList,
    ∃ req ∈ k.link.wire[k.link.number t]?, ∃ response ∈ CfgMsg.received data, Answers names req response))
  | .openVar .. => .isFalse id
  | .read .. => .isFalse id
  | .write .. => .isFalse id
  | .release .. => .isFalse id
  | .releaseWoken .. => .isFalse id

/-- The call on the file has still files to create. -/
def Busy (file : File) : Prop :=
  match file.phase with
  | .query i n => i < n
  | .name _ _ => True
  | _ => False

def Uninterrupted : Event → Prop
  | .llCounted _ intr _ _ => intr = false
  | .llNamed _ intr _ => intr = false
  | _ => True

instance : DecidablePred Uninterrupted
  | .llCounted _ intr _ _ => inferInstanceAs (Decidable (intr = false))
  | .llNamed _ intr _ => inferInstanceAs (Decidable (intr = false))
  | .openVar .. => .isTrue trivial
  | .read .. => .isTrue trivial
  | .write .. => .isTrue trivial
  | .release .. => .isTrue trivial
  | .releaseWoken .. => .isTrue trivial
  | .openLl .. => .isTrue trivial
  | .llCount .. => .isTrue trivial
  | .llQuery .. => .isTrue trivial
  | .reply .. => .isTrue trivial

/-- A call that has waited for the number of variables, and was told that there are some, goes on when
no other call has still files to create. -/
def InTurn (k : Driver) : Event → Prop
  | .llCounted .. => 0 < k.link.nVars → ∀ g file, k.files g = some file → ¬ Busy file
  | _ => True

/-- The calls come one after the other; and no request stays pending for more than `2 ^ 32` further
ones. -/
def Alone (k : Driver) (e : Event) : Prop := InTurn k e ∧ Uninterrupted e ∧ Young k

/-- All calls have returned, and there was one. -/
def Done (k : Driver) : Prop :=
  k.log ≠ [] ∧ ∀ f file, k.files f = some file → file.phase = .ready

/-- **The list is complete**: the directory of every kind holds one file for each variable, with its
name and its record, and there are no other files. -/
structure Complete (names : Names) (k : Driver) : Prop where
  files : ∀ kind : Kind, ((k.debugfs.filter fun x => x.parent = some kind).reverse.map fun x =>
      (x.name, k.records x.data.1 x.data.2)) =
    names.list.mapIdx fun i name => (name, ⟨Int32.ofNat i, kind.access⟩)
  live : ∀ x ∈ k.debugfs, x.data.1 < k.arrays ∧ x.data.2 < names.list.length
  inside : ∀ x ∈ k.debugfs, x.parent ≠ none

/-! ### What holds in every state -/

def InLoop (file : File) : Prop :=
  match file.phase with
  | .query _ _ => True
  | .name _ _ => True
  | _ => False

lemma Busy.inLoop {file : File} (h : Busy file) : InLoop file := by
  unfold Busy at h
  unfold InLoop
  split at h
  · trivial
  · trivial
  · exact h.elim

lemma busy_of_query {file : File} {i n : ℕ} (h : file.phase = .query i n) : Busy file ↔ i < n := by
  unfold Busy
  rw [h]

lemma busy_of_name {file : File} {i n : ℕ} (h : file.phase = .name i n) : Busy file := by
  unfold Busy
  rw [h]
  trivial

/-- Nobody has loaded the list. -/
structure Before (names : Names) (k : Driver) : Prop where
  dirs : k.dirs = []
  debugfs : k.debugfs = []
  access : k.accessArray .val = none
  files : ∀ f file, k.files f = some file → ¬ InLoop file
  log : names.list = [] ∨ k.log = []

/-- The call on the file `f` has created the files of the first `i` variables. -/
structure During (names : Names) (f : FileId) (i : ℕ) (a : Kind → ℕ) (k : Driver) : Prop where
  file : ∃ file, k.files f = some file ∧
    (file.phase = .query i names.list.length ∨ file.phase = .name i names.list.length ∧
      ∀ kind, k.records (a kind) i = ⟨Int32.ofNat i, kind.access⟩)
  lt : i < names.list.length
  others : ∀ g ≠ f, ∀ file, k.files g = some file → ¬ Busy file
  dirs : Kind.val ∈ k.dirs
  dirP : ∀ kind, k.dirP kind = some kind
  access : ∀ kind, k.accessArray kind = some (a kind)
  injective : Function.Injective a
  made : ∀ kind, a kind < k.arrays
  records : ∀ kind, ∀ j < i, k.records (a kind) j = ⟨Int32.ofNat j, kind.access⟩
  debugfs : k.debugfs = listing names.list a i

/-- The files of all variables are there. -/
structure After (names : Names) (a : Kind → ℕ) (k : Driver) : Prop where
  files : ∀ f file, k.files f = some file → ¬ Busy file
  dirs : Kind.val ∈ k.dirs
  made : ∀ kind, a kind < k.arrays
  records : ∀ kind, ∀ j < names.list.length, k.records (a kind) j = ⟨Int32.ofNat j, kind.access⟩
  debugfs : k.debugfs = listing names.list a names.list.length

/-- How far the list is loaded. -/
def Stage (names : Names) (k : Driver) : Prop :=
  Before names k ∨ (∃ f i a, During names f i a k) ∨ ∃ a, After names a k

/-- The call waits for the name of the variable `i`, or has it. -/
structure Named (names : Names) (k : Driver) (file : File) (i : ℕ) : Prop where
  lt : i < names.list.length
  name : (k.transOf file).valid = true → cstr (k.transOf file).buf.bytes = names.list.getD i []
  request : (k.transOf file).valid = false → ∃ req,
    k.link.wire[k.link.number file.privateData]? = some req ∧ req.type = reqName ∧
      req.ind = Int32.ofNat i

/-- The request is for the number of variables, or for one of their names. -/
def Proper (names : Names) (req : CfgMsg) : Prop :=
  req.type = reqNVars ∨ req.type = reqName ∧ ∃ i < names.list.length, req.ind = Int32.ofNat i

/-- The requests, and what their replies have brought. -/
structure Traffic (names : Names) (k : Driver) : Prop where
  inv : Inv True k
  drawn : k.link.drawn = k.link.wire.length
  nVars : k.link.nVars < 0 ∨ k.link.nVars = Int32.ofNat names.list.length
  request : ∀ (j : ℕ) req, k.link.wire[j]? = some req → req.seq = UInt32.ofNat j ∧ Proper names req
  named : ∀ f file i n, k.files f = some file → file.phase = .name i n → Named names k file i

variable {names : Names} {kstrtol : List UInt8 → Int32 × Int32} {k k' : Driver} {f : FileId} {file : File}
  {a : Kind → ℕ}

lemma During.busy {i : ℕ} (h : During names f i a k) : ∃ file, k.files f = some file ∧ Busy file := by
  obtain ⟨file, hf, hphase | ⟨hphase, -⟩⟩ := h.file
  · exact ⟨file, hf, (busy_of_query hphase).2 h.lt⟩
  · exact ⟨file, hf, busy_of_name hphase⟩

/-- When no call is busy, nobody has begun to load the list, or it is loaded. -/
lemma Stage.idle (h : Stage names k) (hb : ∀ f file, k.files f = some file → ¬ Busy file) :
    Before names k ∨ ∃ a, After names a k := by
  rcases h with h | ⟨f, i, a, h⟩ | h
  · exact .inl h
  · obtain ⟨file, hf, hbusy⟩ := h.busy
    exact absurd hbusy (hb f file hf)
  · exact .inr h

/-! ### The complete list -/

lemma After.complete (h : After names a k) : Complete names k where
  files kind := by
    rw [h.debugfs, filter_listing, List.map_map]
    apply List.ext_getElem
    · simp
    · intro j hj hj'
      have hlt : j < names.list.length := by simpa using hj'
      simp only [List.getElem_map, List.getElem_range, List.getElem_mapIdx, Function.comp_apply, fileOf,
        Prod.mk.injEq]
      exact ⟨(List.getElem_eq_getD _).symm, h.records kind j hlt⟩
  live x hx := by
    rw [h.debugfs] at hx
    obtain ⟨j, hj, kind, rfl⟩ := mem_listing.1 hx
    exact ⟨h.made kind, hj⟩
  inside x hx := by
    rw [h.debugfs] at hx
    obtain ⟨j, hj, kind, rfl⟩ := mem_listing.1 hx
    exact nofun

lemma Stage.complete (h : Stage names k) (hd : Done k) : Complete names k := by
  obtain ⟨hlog, hready⟩ := hd
  rcases h with h | ⟨f, i, a, h⟩ | ⟨a, h⟩
  · have hnil : names.list = [] := h.log.resolve_right hlog
    refine ⟨fun kind => ?_, fun x hx => ?_, fun x hx => ?_⟩
    · rw [h.debugfs, hnil]
      rfl
    · rw [h.debugfs] at hx
      cases hx
    · rw [h.debugfs] at hx
      cases hx
  · obtain ⟨file, hf, hphase⟩ := h.file
    rw [hready f file hf] at hphase
    rcases hphase with hphase | ⟨hphase, -⟩ <;> cases hphase
  · exact h.complete

/-! ### What a call leaves alone -/

lemma Named.mono {i : ℕ} (h : Named names k file i)
    (ht : k'.link.trans file.privateData = k.link.trans file.privateData)
    (hn : k'.link.number file.privateData = k.link.number file.privateData)
    (hw : k.link.wire <+: k'.link.wire) : Named names k' file i := by
  refine ⟨h.lt, fun hv => ?_, fun hv => ?_⟩
  · unfold Driver.transOf at hv ⊢
    rw [ht] at hv ⊢
    exact h.name hv
  · unfold Driver.transOf at hv
    rw [ht] at hv
    obtain ⟨req, hreq, hreq'⟩ := h.request hv
    rw [hn]
    exact ⟨req, getElem?_of_isPrefix hw hreq, hreq'⟩

lemma Traffic.of_acts (h : Traffic names k) (hi : Inv True k') (ha : Acts f k k')
    (hd : k'.link.drawn = k'.link.wire.length) (hn : k'.link.nVars = k.link.nVars)
    (hw : k.link.wire <+: k'.link.wire)
    (hreq : ∀ (j : ℕ) req, k'.link.wire[j]? = some req → req.seq = UInt32.ofNat j ∧ Proper names req)
    (hown : ∀ file i n, k'.files f = some file → file.phase = .name i n → Named names k' file i) :
    Traffic names k' := by
  refine ⟨hi, hd, hn ▸ h.nVars, hreq, fun g file i n hg hphase => ?_⟩
  by_cases hgf : g = f
  · subst hgf
    exact hown file i n hg hphase
  · rw [ha.files g hgf] at hg
    exact (h.named g file i n hg hphase).mono (ha.trans g hgf file hg) (ha.number g hgf file hg) hw

lemma Traffic.of_unsent (h : Traffic names k) (hi : Inv True k') (ha : Acts f k k')
    (hu : Unsent k.link k'.link) (hn : k'.link.nVars = k.link.nVars)
    (hown : ∀ file i n, k'.files f = some file → file.phase ≠ .name i n) : Traffic names k' := by
  refine h.of_acts hi ha ?_ hn ?_ ?_ fun file i n hf hphase => absurd hphase (hown file i n hf)
  · rw [hu.drawn, hu.wire]
    exact h.drawn
  · exact hu.wire.symm ▸ List.prefix_refl _
  · rw [hu.wire]
    exact h.request

lemma Traffic.of_requested {t : Ptr} {x : Transaction} {m : CfgMsg} (h : Traffic names k)
    (hi : Inv True k') (ha : Acts f k k') (hr : Requested t x m k.link k'.link)
    (hm : Proper names m) (hn : k'.link.nVars = k.link.nVars)
    (hown : ∀ file i n, k'.files f = some file → file.phase = .name i n → Named names k' file i) :
    Traffic names k' := by
  refine h.of_acts hi ha ?_ hn ?_ (fun j req hj => ?_) hown
  · rw [hr.drawn, hr.wire, h.drawn, List.length_append, List.length_singleton]
  · rw [hr.wire]
    exact List.prefix_append _ _
  · rw [hr.wire] at hj
    rcases getElem?_concat_cases hj with hj | ⟨rfl, rfl⟩
    · exact h.request j req hj
    · exact ⟨hr.seq.trans (congrArg _ h.drawn), hm⟩

/-- The files and directories that `debugfs_open_ll` creates stay as they are. -/
structure SameList (k k' : Driver) : Prop where
  accessArray : k'.accessArray = k.accessArray
  records : k'.records = k.records
  arrays : k'.arrays = k.arrays
  dirP : k'.dirP = k.dirP
  dirs : k'.dirs = k.dirs
  debugfs : k'.debugfs = k.debugfs

/-- A call that has no files to create changes nothing for the one that has. -/
lemma Stage.of_same (h : Stage names k) (hl : SameList k k') (ho : ∀ g ≠ f, k'.files g = k.files g)
    (hf : ∀ file, k.files f = some file → ¬ Busy file)
    (hf' : ∀ file, k'.files f = some file → ¬ InLoop file)
    (hlog : Before names k → names.list = [] ∨ k'.log = k.log) : Stage names k' := by
  have hfiles : ∀ {P : File → Prop}, (∀ file, ¬ InLoop file → P file) →
      (∀ g ≠ f, ∀ file, k.files g = some file → P file) →
      ∀ g file, k'.files g = some file → P file := by
    intro P hP hk g file hg
    by_cases hgf : g = f
    · subst hgf
      exact hP file (hf' file hg)
    · rw [ho g hgf] at hg
      exact hk g hgf file hg
  have hbusy : ∀ file, ¬ InLoop file → ¬ Busy file := fun file hn hb => hn hb.inLoop
  rcases h with h | ⟨g, i, a, h⟩ | ⟨a, h⟩
  · refine .inl ⟨hl.dirs ▸ h.dirs, hl.debugfs ▸ h.debugfs, hl.accessArray ▸ h.access, ?_, ?_⟩
    · exact hfiles (fun _ hn => hn) fun g _ file hg => h.files g file hg
    · rcases hlog h with hnil | e
      · exact .inl hnil
      · exact h.log.imp_right e.trans
  · obtain ⟨file, hg, hphase⟩ := h.file
    have hgf : g ≠ f := by
      rintro rfl
      obtain ⟨file', hg', hb⟩ := h.busy
      exact hf file' hg' hb
    refine .inr (.inl ⟨g, i, a, ⟨file, (ho g hgf).trans hg, ?_⟩, h.lt, ?_, ?_, ?_, ?_, h.injective, ?_, ?_, ?_⟩)
    · rw [hl.records]
      exact hphase
    · intro g' hg' file' hfile'
      by_cases hgf' : g' = f
      · exact hbusy file' (hf' file' (hgf' ▸ hfile'))
      · rw [ho g' hgf'] at hfile'
        exact h.others g' hg' file' hfile'
    · exact hl.dirs ▸ h.dirs
    · exact hl.dirP ▸ h.dirP
    · exact hl.accessArray ▸ h.access
    · exact hl.arrays ▸ h.made
    · exact hl.records ▸ h.records
    · exact hl.debugfs ▸ h.debugfs
  · refine .inr (.inr ⟨a, ?_, hl.dirs ▸ h.dirs, hl.arrays ▸ h.made, hl.records ▸ h.records,
      hl.debugfs ▸ h.debugfs⟩)
    exact hfiles hbusy fun g _ file hg => h.files g file hg

lemma SameList.refl (k : Driver) : SameList k k := ⟨rfl, rfl, rfl, rfl, rfl, rfl⟩

/-- The invariant. -/
structure Listed (names : Names) (k : Driver) : Prop where
  traffic : Traffic names k
  stage : Stage names k

lemma not_inLoop_ready (file : File) : ¬ InLoop { file with phase := .ready } := id

lemma ne_name_of_not_inLoop {i n : ℕ} (hp : ¬ InLoop file) : file.phase ≠ .name i n := by
  intro e
  apply hp
  unfold InLoop
  rw [e]
  trivial

lemma Listed.of_unsent (h : Listed names k) (hi : Inv True k') (ha : Acts f k k')
    (hu : Unsent k.link k'.link) (hn : k'.link.nVars = k.link.nVars) (hl : SameList k k')
    (hf : ∀ file, k.files f = some file → ¬ Busy file) (hf' : k'.files f = some file)
    (hp : ¬ InLoop file) (hlog : Before names k → names.list = [] ∨ k'.log = k.log) :
    Listed names k' := by
  have hself : ∀ file', k'.files f = some file' → ¬ InLoop file' := by
    intro file' hfile'
    obtain rfl := Option.some.inj (hf'.symm.trans hfile')
    exact hp
  refine ⟨h.traffic.of_unsent hi ha hu hn fun file' i n hfile' => ?_, ?_⟩
  · exact ne_name_of_not_inLoop (hself file' hfile')
  · exact h.stage.of_same hl ha.files hf hself hlog

/-! ### Opening the file -/

theorem listed_openLl {fModeRead fModeWrite nonblock mem : Bool} (h : Listed names k)
    (hi : Inv True k') (hf : k.files f = none)
    (hs : k.debugfsOpenLl f fModeRead fModeWrite nonblock mem = some k') : Listed names k' := by
  obtain ⟨-, -, hu⟩ := openLl_hands hf hs
  obtain ⟨hb, -⟩ := openLl_beside hs
  have hnone : ∀ file, k.files f = some file → ¬ Busy file := by
    intro file' hf'
    rw [hf] at hf'
    cases hf'
  unfold Driver.debugfsOpenLl at hs
  obtain ⟨⟨t, link⟩, ha, hs⟩ := Option.bind_eq_some_iff.1 hs
  dsimp only at hs
  generalize hfile : (⟨.loadList, fModeRead, fModeWrite, nonblock, 0, t, .load⟩ : File) = file at hs
  have ht : file.privateData = t := hfile ▸ rfl
  obtain ⟨hopen, -⟩ := acts_alloc (f := f) h.traffic.inv.sane (ht ▸ ha)
  split at hs
  · rename_i hguard
    obtain rfl := Option.some.inj hs
    refine h.of_unsent hi (acts_openedWith hopen (setFile_files_self _) _) hu hb.nVars
      ⟨rfl, rfl, rfl, rfl, rfl, rfl⟩ hnone (openedWith_files_self _) (not_inLoop_ready file) fun hbefore => ?_
    have hnot : (k.accessArray .val).isSome = true := hguard
    rw [hbefore.access] at hnot
    cases hnot
  · obtain rfl := Option.some.inj hs
    refine h.of_unsent hi hopen hu hb.nVars ⟨rfl, rfl, rfl, rfl, rfl, rfl⟩ hnone (setFile_files_self _) ?_
      fun _ => .inr rfl
    rw [← hfile]
    exact id

theorem listed_openLlCount {mem : Bool} (h : Listed names k) (hi : Inv True k')
    (hf : k.files f = some file) (hphase : file.phase = .load)
    (hs : k.debugfsOpenLlCount f file mem 0 = some k') : Listed names k' := by
  have hc := h.traffic.inv.sane.chnl
  unfold Driver.debugfsOpenLlCount at hs
  obtain ⟨⟨ret, link⟩, hn, hs⟩ := Option.bind_eq_some_iff.1 hs
  obtain ⟨hret, t, l₁, -, hp, -, -, -, hnVars, hd, hnum, ht, -⟩ := Link.getNVars_spec hc hn
  have hacts := (Acts.refl h.traffic.inv.sane (f := f)).getNVars hn
  have hw := Leaks.getNVars_wire hc hn
  dsimp only at hs
  rw [if_neg (not_not.2 hret)] at hs
  obtain rfl := Option.some.inj hs
  have hacts' : Acts f k (Driver.setPhase f file .count { k with link }) := acts_setPhase hacts hf _
  have hself : ∀ file', (Driver.setPhase f file .count { k with link }).files f = some file' →
      ¬ InLoop file' := by
    intro file' hf'
    obtain rfl := Option.some.inj ((setPhase_files_self _).symm.trans hf')
    exact id
  refine ⟨?_, ?_⟩
  · apply h.traffic.of_requested (x := { Transaction.zero with wq := true }) (t := t) (m := k.link.countReq)
      hi hacts'
    · exact ⟨hp, hd, hnum, ht, hw, rfl⟩
    · exact .inl rfl
    · exact hnVars
    · exact fun file' i n hf' hphase' => absurd hphase' (ne_name_of_not_inLoop (hself file' hf'))
  · refine h.stage.of_same ⟨rfl, rfl, rfl, rfl, rfl, rfl⟩ hacts'.files (fun file' hf' hb => ?_) hself
      fun _ => .inr rfl
    obtain rfl := Option.some.inj (hf.symm.trans hf')
    unfold Busy at hb
    rw [hphase] at hb
    exact hb

/-! ### After the wait for the number of variables -/

lemma toInt_count (names : Names) :
    (Int32.ofNat names.list.length).toInt = names.list.length :=
  Int32.toInt_ofNat_of_lt names.count_lt

lemma during_start (h : Before names k) (hpos : 0 < names.list.length) (f : FileId) (file : File) :
    During names f 0 (fun kind => k.arrays + pos kind)
      (Driver.setPhase f file (.query 0 names.list.length)
        { allocated k with dirP := some, dirs := [.desc, .max, .min, .val] }) where
  file := ⟨_, setPhase_files_self _, .inl rfl⟩
  lt := hpos
  others g hg file' hf' hb := by
    have e : k.files g = some file' := (Function.update_of_ne hg ..).symm.trans hf'
    exact h.files g file' e hb.inLoop
  dirs := by
    show Kind.val ∈ [Kind.desc, .max, .min, .val]
    decide
  dirP _ := rfl
  access _ := rfl
  injective x y e := pos_injective (Nat.add_left_cancel e)
  made kind := Nat.add_lt_add_left (pos_lt kind) _
  records kind j hj := absurd hj (Nat.not_lt_zero j)
  debugfs := h.debugfs

/-- Another call gets no directories. -/
lemma after_again (h : After names a k) (hf : k.files f = some file) (s : List UInt8) :
    After names a (Driver.openedWith f file s
      { allocated k with dirP := Function.update k.dirP .val none }) where
  files g file' hg hb := by
    by_cases hgf : g = f
    · subst hgf
      obtain rfl := Option.some.inj ((openedWith_files_self _).symm.trans hg)
      exact not_inLoop_ready file hb.inLoop
    · have e : k.files g = some file' := (Function.update_of_ne hgf ..).symm.trans hg
      exact h.files g file' e hb
  dirs := h.dirs
  made kind := Nat.lt_add_right 4 (h.made kind)
  records := h.records
  debugfs := h.debugfs

lemma not_busy_of (hf : k.files f = some file) (hn : ¬ Busy file) :
    ∀ file, k.files f = some file → ¬ Busy file := by
  intro file' hf'
  obtain rfl := Option.some.inj (hf.symm.trans hf')
  exact hn

lemma listed_begins (h : Listed names k) (hstage : Before names k) (hf : k.files f = some file)
    (hpos : 0 < names.list.length)
    (hi : Inv True (Driver.setPhase f file (.query 0 names.list.length)
      { allocated k with dirP := some, dirs := [.desc, .max, .min, .val] })) :
    Listed names (Driver.setPhase f file (.query 0 names.list.length)
      { allocated k with dirP := some, dirs := [.desc, .max, .min, .val] }) := by
  have hacts : Acts f k { allocated k with dirP := some, dirs := [.desc, .max, .min, .val] } :=
    (Acts.refl h.traffic.inv.sane).congr rfl rfl
  refine ⟨h.traffic.of_unsent hi (acts_setPhase hacts hf _) ⟨rfl, rfl, rfl, rfl⟩ rfl ?_, ?_⟩
  · intro file' i n hf' hname
    obtain rfl := Option.some.inj ((setPhase_files_self _).symm.trans hf')
    cases hname
  · exact .inr (.inl ⟨f, 0, _, during_start hstage hpos f file⟩)

lemma listed_again (h : Listed names k) (hstage : After names a k) (hf : k.files f = some file)
    (text : List UInt8)
    (hi : Inv True (Driver.openedWith f file text
      { allocated k with dirP := Function.update k.dirP .val none })) :
    Listed names (Driver.openedWith f file text
      { allocated k with dirP := Function.update k.dirP .val none }) := by
  have hacts : Acts f k { allocated k with dirP := Function.update k.dirP .val none } :=
    (Acts.refl h.traffic.inv.sane).congr rfl rfl
  refine ⟨h.traffic.of_unsent hi (acts_openedWith hacts hf _) ⟨rfl, rfl, rfl, rfl⟩ rfl ?_, ?_⟩
  · intro file' i n hf' hname
    obtain rfl := Option.some.inj ((openedWith_files_self _).symm.trans hf')
    cases hname
  · exact .inr (.inr ⟨a, after_again hstage hf _⟩)

theorem listed_openLlCounted {mem dirMem : Kind → Bool} (h : Listed names k) (hi : Inv True k')
    (hf : k.files f = some file) (hphase : file.phase = .count) (hm : ∀ kind, mem kind = true)
    (hd : ∀ kind, dirMem kind = true)
    (halone : 0 < k.link.nVars → ∀ g file, k.files g = some file → ¬ Busy file)
    (hs : k.debugfsOpenLlCounted f file false mem dirMem = some k') : Listed names k' := by
  obtain ⟨hb, -⟩ := openLlCounted_beside hs
  obtain ⟨-, hu⟩ := openLlCounted_hands hf hs
  unfold Driver.debugfsOpenLlCounted at hs
  split at hs
  · obtain ⟨hintr, -⟩ := Option.ite_none_right_eq_some.1 hs
    cases hintr
  rename_i hneg
  have hn := h.traffic.nVars.resolve_left hneg
  dsimp only at hs
  split at hs
  · rename_i hle
    have hnil : names.list = [] := by
      rw [hn, Int32.le_iff_toInt_le, toInt_count] at hle
      exact List.length_eq_zero_iff.1 (by simpa using hle)
    have hbusy : ¬ Busy file := by
      unfold Busy
      rw [hphase]
      exact id
    obtain rfl := Option.some.inj hs
    exact h.of_unsent hi (acts_openedWith (Acts.refl h.traffic.inv.sane) hf _) hu hb.nVars
      ⟨rfl, rfl, rfl, rfl, rfl, rfl⟩ (not_busy_of hf hbusy) (openedWith_files_self _)
      (not_inLoop_ready file) fun _ => .inl hnil
  · rename_i hpos
    rw [allocMem_all hm] at hs
    dsimp only at hs
    rw [if_neg (not_not.2 rfl)] at hs
    rcases h.stage.idle (halone (Int32.not_le.1 hpos)) with hstage | ⟨a, hstage⟩
    · have hcount : k.link.nVars.toInt.toNat = names.list.length := by
        rw [hn, toInt_count, Int.toNat_natCast]
      have hlt : 0 < names.list.length := by
        rw [hn, Int32.le_iff_toInt_le, toInt_count] at hpos
        simpa [Nat.pos_iff_ne_zero] using hpos
      rw [createDirs_empty (k := allocated k) hd hstage.dirs] at hs
      dsimp only at hs
      rw [hcount] at hs
      obtain rfl := Option.some.inj hs
      exact listed_begins h hstage hf hlt hi
    · rw [createDirs_exists (k := allocated k) hstage.dirs] at hs
      obtain rfl := Option.some.inj hs
      exact listed_again h hstage hf _ hi

/-! ### The loop -/

/-- The call that has still files to create is the one that has begun to load the list. -/
lemma Stage.during_of_busy (h : Stage names k) (hf : k.files f = some file) (hb : Busy file) :
    ∃ i a, During names f i a k ∧
      (file.phase = .query i names.list.length ∨ file.phase = .name i names.list.length ∧
        ∀ kind, k.records (a kind) i = ⟨Int32.ofNat i, kind.access⟩) := by
  rcases h with h | ⟨g, i, a, h⟩ | ⟨a, h⟩
  · exact absurd hb.inLoop (h.files f file hf)
  · by_cases hgf : f = g
    · subst hgf
      obtain ⟨file', hf', hphase⟩ := h.file
      obtain rfl := Option.some.inj (hf.symm.trans hf')
      exact ⟨i, a, h, hphase⟩
    · exact absurd hb (h.others f hgf file hf)
  · exact absurd hb (h.files f file hf)

lemma kinds_nodup : Kind.all.Nodup := by decide

lemma mem_kinds (kind : Kind) : kind ∈ Kind.all := by
  cases kind <;> decide

lemma queryName_sends (kstrtol : List UInt8 → Int32 × Int32) (i : ℕ) (file : File)
    (hc : k.link.chnl = true) :
    ((k.modifyTrans file forName).accessVar kstrtol file ⟨Int32.ofNat i, .name⟩ 0).1 = 0 ∧
      ∃ x m, Requested file.privateData x m k.link (queryName kstrtol i 0 file k).link ∧
        x.valid = false ∧ m.type = reqName ∧ m.ind = Int32.ofNat i := by
  have hprep : (k.modifyTrans file forName).link.prepare kstrtol (Int32.ofNat i) .name file.privateData =
      (0, { k.link.accessReq with ind := Int32.ofNat i, val := 0, len := 0, type := reqName }) := rfl
  have hc' : (k.modifyTrans file forName).link.chnl = true := hc
  obtain ⟨hret, hreq⟩ := accessVar_sends ⟨Int32.ofNat i, .name⟩ hc' hprep
  refine ⟨hret, _, _, hreq.of_unsent ⟨rfl, rfl, rfl, rfl⟩, ?_, rfl, rfl⟩
  rw [modifyTrans_trans_self]
  rfl

lemma listed_queried {i : ℕ} {r : ℕ → ℕ → VarAccessInfo} (h : Listed names k)
    (hd : During names f i a k) (hf : k.files f = some file)
    (hp : file.privateData ∉ k.link.pendingList)
    (hself : ∀ kind, r (a kind) i = ⟨Int32.ofNat i, kind.access⟩)
    (hrest : ∀ b, ∀ j ≠ i, r b j = k.records b j)
    (hi : Inv True ((queryName kstrtol i 0 file { k with records := r }).setPhase f file
      (.name i names.list.length))) :
    Listed names ((queryName kstrtol i 0 file { k with records := r }).setPhase f file
      (.name i names.list.length)) := by
  obtain ⟨-, x, m, hreq, hx, hm, hind⟩ := queryName_sends kstrtol (k := { k with records := r }) i file
    h.traffic.inv.sane.chnl
  have hrec : Acts f k { k with records := r } := (Acts.refl h.traffic.inv.sane).congr rfl rfl
  have hacts := acts_setPhase (acts_queryName kstrtol i 0 hrec hf hp) hf (.name i names.list.length)
  refine ⟨h.traffic.of_requested hi hacts hreq (.inr ⟨hm, i, hd.lt, hind⟩) ?_ fun file' j n hf' hphase => ?_, ?_⟩
  · exact accessVar_nVars kstrtol file ⟨Int32.ofNat i, .name⟩ 0 _
  · obtain rfl := Option.some.inj ((setPhase_files_self _).symm.trans hf')
    obtain ⟨rfl, -⟩ := Phase.name.inj hphase
    have hvalid : (Driver.transOf { file with phase := .name i names.list.length }
        ((queryName kstrtol i 0 file { k with records := r }).setPhase f file
          (.name i names.list.length))).valid = false := by
      show ((queryName kstrtol i 0 file { k with records := r }).link.trans file.privateData).valid = false
      rw [hreq.trans]
      exact hx
    refine ⟨hd.lt, fun hv => ?_, fun _ => ⟨m, ?_, hm, hind⟩⟩
    · rw [hvalid] at hv
      cases hv
    · show (queryName kstrtol i 0 file { k with records := r }).link.wire[
        (queryName kstrtol i 0 file { k with records := r }).link.number file.privateData]? = some m
      rw [hreq.number, Function.update_self]
      show _[k.link.drawn]? = _
      rw [h.traffic.drawn]
      exact hreq.wire_last
  · refine .inr (.inl ⟨f, i, a, ⟨_, setPhase_files_self _, .inr ⟨rfl, hself⟩⟩, hd.lt, fun g hg file' hf' => ?_,
      hd.dirs, hd.dirP, hd.access, hd.injective, hd.made, fun kind j hj => ?_, hd.debugfs⟩)
    · have e : k.files g = some file' := (Function.update_of_ne hg ..).symm.trans hf'
      exact hd.others g hg file' e
    · exact (hrest (a kind) j hj.ne).trans (hd.records kind j hj)

theorem listed_openLlQuery {i n : ℕ} (h : Listed names k) (hi : Inv True k') (hf : k.files f = some file)
    (hphase : file.phase = .query i n) (hp : i < n → file.privateData ∉ k.link.pendingList)
    (hs : k.debugfsOpenLlQuery kstrtol f file i n 0 = some k') : Listed names k' := by
  obtain ⟨hb, -⟩ := openLlQuery_beside hs
  by_cases hlt : i < n
  · obtain ⟨i', a, hd, hcase⟩ := h.stage.during_of_busy hf ((busy_of_query hphase).2 hlt)
    rcases hcase with hq | ⟨hq, -⟩
    · rw [hphase] at hq
      obtain ⟨rfl, rfl⟩ := Phase.query.inj hq
      obtain ⟨r, hr, hself, -, hrest⟩ := foldlM_setRecord hd.injective i hd.access kinds_nodup
      obtain ⟨hret, -⟩ := queryName_sends kstrtol (k := { k with records := r }) i file
        h.traffic.inv.sane.chnl
      unfold forName at hret
      unfold Driver.debugfsOpenLlQuery at hs
      rw [if_pos hlt, hr] at hs
      dsimp only [Option.bind_eq_bind, Option.bind_some] at hs
      rw [hret, if_neg (by decide)] at hs
      obtain rfl := Option.some.inj hs
      exact listed_queried h hd hf (hp hlt) (fun kind => hself kind (mem_kinds kind)) hrest hi
    · rw [hphase] at hq
      cases hq
  · unfold Driver.debugfsOpenLlQuery at hs
    rw [if_neg hlt] at hs
    obtain rfl := Option.some.inj hs
    refine h.of_unsent hi (acts_openedWith (Acts.refl h.traffic.inv.sane) hf _) ⟨rfl, rfl, rfl, rfl⟩
      hb.nVars ⟨rfl, rfl, rfl, rfl, rfl, rfl⟩ (not_busy_of hf fun hbusy => hlt ?_) (openedWith_files_self _)
      (not_inLoop_ready file) fun hbefore => ?_
    · exact (busy_of_query hphase).1 hbusy
    · refine absurd ?_ (hbefore.files f file hf)
      unfold InLoop
      rw [hphase]
      trivial

lemma listed_created {i : ℕ} (h : Listed names k) (hd : During names f i a k) (hf : k.files f = some file)
    (hrecord : ∀ kind, k.records (a kind) i = ⟨Int32.ofNat i, kind.access⟩)
    (hi : Inv True (Driver.setPhase f file (.query (i + 1) names.list.length)
      { k with debugfs := (Kind.all.map (fileOf (names.list.getD i []) a i)).reverse ++ k.debugfs })) :
    Listed names (Driver.setPhase f file (.query (i + 1) names.list.length)
      { k with debugfs := (Kind.all.map (fileOf (names.list.getD i []) a i)).reverse ++ k.debugfs }) := by
  generalize hk : ({ k with debugfs :=
    (Kind.all.map (fileOf (names.list.getD i []) a i)).reverse ++ k.debugfs } : Driver) = k₁ at hi ⊢
  have hlist : k₁.debugfs = listing names.list a (i + 1) := by
    rw [← hk]
    show _ ++ k.debugfs = _
    rw [hd.debugfs]
    rfl
  have hrecords : ∀ kind, ∀ j < i + 1, k₁.records (a kind) j = ⟨Int32.ofNat j, kind.access⟩ := by
    intro kind j hj
    rw [← hk]
    rcases Nat.lt_succ_iff_lt_or_eq.1 hj with hlt | rfl
    · exact hd.records kind j hlt
    · exact hrecord kind
  have hothers : ∀ g ≠ f, ∀ file', (k₁.setPhase f file (.query (i + 1) names.list.length)).files g =
      some file' → ¬ Busy file' := by
    intro g hg file' hf'
    have e : k₁.files g = some file' := (Function.update_of_ne hg ..).symm.trans hf'
    rw [← hk] at e
    exact hd.others g hg file' e
  have hacts : Acts f k k₁ := hk ▸ (Acts.refl h.traffic.inv.sane).congr rfl rfl
  have hf₁ : k₁.files f = some file := hk ▸ hf
  refine ⟨h.traffic.of_unsent hi (acts_setPhase hacts hf₁ _) (hk ▸ ⟨rfl, rfl, rfl, rfl⟩) (hk ▸ rfl)
    fun file' j n hf' hname => ?_, ?_⟩
  · obtain rfl := Option.some.inj ((setPhase_files_self _).symm.trans hf')
    cases hname
  · by_cases hlt : i + 1 < names.list.length
    · exact .inr (.inl ⟨f, i + 1, a, ⟨_, setPhase_files_self _, .inl rfl⟩, hlt, hothers, hk ▸ hd.dirs,
        hk ▸ hd.dirP, hk ▸ hd.access, hd.injective, hk ▸ hd.made, hrecords, hlist⟩)
    · have hlast : i + 1 = names.list.length := Nat.le_antisymm hd.lt (Nat.not_lt.1 hlt)
      refine .inr (.inr ⟨a, fun g file' hf' hb' => ?_, hk ▸ hd.dirs, hk ▸ hd.made, hlast ▸ hrecords,
        hlast ▸ hlist⟩)
      by_cases hgf : g = f
      · subst hgf
        obtain rfl := Option.some.inj ((setPhase_files_self _).symm.trans hf')
        exact hlt hb'
      · exact hothers g hgf file' hf' hb'

/-- The name has arrived, and the files of the variable are created. -/
theorem listed_openLlNamed {i n : ℕ} {mem : Kind → Bool} (h : Listed names k) (hi : Inv True k')
    (hf : k.files f = some file) (hphase : file.phase = .name i n) (hm : ∀ kind, mem kind = true)
    (hs : k.debugfsOpenLlNamed f file i n false mem = some k') : Listed names k' := by
  obtain ⟨i', a, hd, hcase⟩ := h.stage.during_of_busy hf (busy_of_name hphase)
  have hnamed := h.traffic.named f file i n hf hphase
  rcases hcase with hq | ⟨hq, hrecord⟩
  · rw [hphase] at hq
    cases hq
  rw [hphase] at hq
  obtain ⟨rfl, rfl⟩ := Phase.name.inj hq
  unfold Driver.debugfsOpenLlNamed at hs
  split at hs
  · obtain ⟨hintr, -⟩ := Option.ite_none_right_eq_some.1 hs
    cases hintr
  · rename_i hv
    have hvalid : (k.transOf file).valid = true := by simpa using hv
    have hnew : ∀ kind ∈ Kind.all, ∀ x ∈ k.debugfs,
        ¬ (x.name = names.list.getD i [] ∧ x.parent = some kind) := by
      intro kind _
      rw [hd.debugfs]
      exact listing_new names.distinct hd.lt kind
    rw [hnamed.name hvalid, foldlM_createFile i hm hd.access hd.dirP kinds_nodup hnew] at hs
    obtain rfl := Option.some.inj hs
    exact listed_created h hd hf hrecord hi

/-! ### Replies -/

lemma rpmsgCb_of_answers {t : Ptr} {req response : CfgMsg} {data : List UInt8} (h : Traffic names k)
    (hy : Young k) (ht : t ∈ k.link.pendingList) (hreq : k.link.wire[k.link.number t]? = some req)
    (hr : CfgMsg.received data = some response) (ha : Answers names req response) :
    k.link.rpmsgCb data = k.link.settle response t := by
  have hd := Matching.distinct_of_numbered h.inv.sane.numbered hy
  have hseq : (k.link.trans t).msgSeqNr = response.seq := by
    rw [h.inv.sane.numbered.seq t ht, ha.1, (h.request _ req hreq).1]
  exact Matching.rpmsgCb_of_received hd ht hr hseq

lemma complete_name {name : List UInt8} {response : CfgMsg} (x : Transaction) (h0 : 0 ∉ name)
    (hlen : name.length < ioBufSize) (ht : response.type = resName)
    (hl : response.len.toNat = name.length) (hdata : response.data.read name.length = name) :
    cstr (Link.complete response x).buf.bytes = name := by
  have hfit : ¬ response.len.toNat > ioBufSize - 1 := by
    rw [hl]
    omega
  rw [Link.complete_text x (.inl ht) hfit]
  have htext : response.data.read response.len.toNat = name := hl ▸ hdata
  show cstr (List.take 0 x.buf.bytes ++ (response.data.read response.len.toNat ++ [0]) ++ _) = name
  rw [htext, List.take_zero, List.nil_append, List.append_assoc]
  exact cstr_append_zero h0 _

theorem listed_reply {data : List UInt8} (h : Listed names k) (hy : Young k)
    (hf : Faultless names k (.reply data)) :
    Listed names { k with link := k.link.rpmsgCb data } := by
  obtain ⟨t, ht, req, hreq, response, hr, ha⟩ := hf
  have hi := inv_reply h.traffic.inv data
  rw [rpmsgCb_of_answers h.traffic hy ht hreq hr ha] at hi ⊢
  obtain ⟨hseq, hproper⟩ := h.traffic.request _ req hreq
  refine ⟨⟨hi, h.traffic.drawn, ?_, h.traffic.request, fun g file i n hg hphase => ?_⟩, ?_⟩
  · by_cases htype : response.type = resNVars
    · have hval : (k.link.settle response t).nVars = response.val := if_pos htype
      rcases hproper with hcount | ⟨hname, i, hlt, hind⟩
      · exact .inr (hval.trans (ha.2.1 hcount).2)
      · have hres := (ha.2.2 hname i hlt hind).1
        rw [htype] at hres
        exact absurd hres (by decide)
    · have hval : (k.link.settle response t).nVars = k.link.nVars := if_neg htype
      show (k.link.settle response t).nVars < 0 ∨ (k.link.settle response t).nVars = _
      rw [hval]
      exact h.traffic.nVars
  · have hnamed := h.traffic.named g file i n hg hphase
    by_cases hp : file.privateData = t
    · subst hp
      have hvalid : (k.transOf file).valid = false := by
        have hphases := h.traffic.inv.phases g file hg
        simp only [PhaseOk, hphase] at hphases
        by_contra hv
        exact hphases (by simpa [Driver.transOf] using hv) ht
      obtain ⟨req', hreq', htype, hind⟩ := hnamed.request hvalid
      obtain rfl := Option.some.inj (hreq.symm.trans hreq')
      obtain ⟨hres, hlen, hdata⟩ := ha.2.2 htype i hnamed.lt hind
      have hmem : names.list.getD i [] ∈ names.list := by
        rw [← List.getElem_eq_getD (h := hnamed.lt)]
        exact List.getElem_mem _
      obtain ⟨hfit, h0⟩ := names.fits _ hmem
      have htrans : Driver.transOf file { k with link := k.link.settle response file.privateData } =
          Link.complete response (k.transOf file) := Function.update_self ..
      refine ⟨hnamed.lt, fun _ => ?_, fun hv => ?_⟩
      · rw [htrans]
        exact complete_name _ h0 hfit hres hlen hdata
      · rw [htrans, Link.complete_valid] at hv
        cases hv
    · exact hnamed.mono (Function.update_of_ne hp ..) rfl (List.prefix_refl _)
  · rcases h.stage with h | ⟨g, i, a, h⟩ | ⟨a, h⟩
    · exact .inl ⟨h.dirs, h.debugfs, h.access, h.files, h.log⟩
    · exact .inr (.inl ⟨g, i, a, h.file, h.lt, h.others, h.dirs, h.dirP, h.access, h.injective, h.made,
        h.records, h.debugfs⟩)
    · exact .inr (.inr ⟨a, h.files, h.dirs, h.made, h.records, h.debugfs⟩)

/-! ### Every run -/

/-- **Every step of a call that is alone keeps the invariant.** -/
theorem listed_step {e : Event} (h : Listed names k) (hf : Faultless names k e) (ha : Alone k e)
    (hs : step kstrtol k e = some k') : Listed names k' := by
  have ho : Leaks.Orderly k e := by
    cases e with
    | openLl => trivial
    | llCount => exact hf
    | llCounted => trivial
    | llQuery => exact hf
    | llNamed => trivial
    | reply => trivial
    | openVar => exact hf.elim
    | read => exact hf.elim
    | write => exact hf.elim
    | release => exact hf.elim
    | releaseWoken => exact hf.elim
  obtain ⟨hcareful, hsent⟩ : Careful kstrtol k e ∧ Sent e := Leaks.careful_of_orderly h.traffic.inv ho
  have hi : Inv True k' := inv_step h.traffic.inv hcareful (fun _ => hsent) hs
  obtain ⟨hturn, hintr, hy⟩ := ha
  replace hs := leads_of_step hs
  cases hs with
  | openLl hnone hs => exact listed_openLl h hi hnone hs
  | llCount file hfile hload hs =>
    obtain rfl := hf
    exact listed_openLlCount h hi hfile hload hs
  | llCounted file hfile hcount hs =>
    obtain rfl := hintr
    exact listed_openLlCounted h hi hfile hcount (fun kind => (hf kind (mem_kinds kind)).1)
      (fun kind => (hf kind (mem_kinds kind)).2) hturn hs
  | llQuery file i n hfile hquery hs =>
    obtain rfl := hf
    exact listed_openLlQuery h hi hfile hquery (hcareful file i n hfile hquery) hs
  | llNamed file i n hfile hname hs =>
    obtain rfl := hintr
    exact listed_openLlNamed h hi hfile hname (fun kind => hf kind (mem_kinds kind)) hs
  | reply hs =>
    subst hs
    exact listed_reply h hy hf
  | openVar => exact hf.elim
  | read => exact hf.elim
  | write => exact hf.elim
  | release => exact hf.elim
  | releaseWoken => exact hf.elim

lemma listed_probed (names : Names) : Listed names .probed where
  traffic := ⟨inv_probed, rfl, .inl (by decide), fun _ req h => absurd h (Option.some_ne_none req).symm,
    fun _ _ _ _ hf => absurd hf Driver.not_files_probed⟩
  stage := .inl ⟨rfl, rfl, rfl, fun _ _ hf => absurd hf Driver.not_files_probed, .inr rfl⟩

/-- **The list is complete** in every state of a run of calls that are alone in which all calls have
returned. -/
theorem complete_of_alone {es : List Event}
    (hf : Steps (step kstrtol) (Faultless names) .probed es)
    (ha : Steps (step kstrtol) Alone .probed es) :
    States (step kstrtol) (fun k => Done k → Complete names k) .probed es := by
  intro pre hp k hr
  have hinv : States (step kstrtol) (Listed names) .probed es :=
    states_of_steps (fun k e k' h hok hs => listed_step h hok.1 hok.2 hs) (listed_probed names) (hf.and ha)
  exact (hinv pre hp k hr).stage.complete

/-! ### Two clients -/

lemma nodup_singleton_name : [[(65 : UInt8)]].Nodup := by decide

lemma name_fits : ∀ name ∈ [[(65 : UInt8)]], name.length < ioBufSize ∧ 0 ∉ name := by decide

/-- There is one variable, with the name `A`. -/
def nameA : Names := ⟨[[65]], nodup_singleton_name, name_fits, one_lt_limit⟩

/-- Two clients open `load_list`, and both are told that there is one variable. -/
def bothAsk : List Event :=
  [.openLl 0 true false false true, .llCount 0 true 0, .openLl 1 true false false true, .llCount 1 true 0,
    .reply Leaks.oneVar.encode, .reply { Leaks.oneVar with seq := 1 }.encode]

/-- The first one begins its loop, and asks for the name of the variable. -/
def firstBegins : List Event :=
  [.llCounted 0 false (fun _ => true) fun _ => true, .llQuery 0 0]

/-- It gets the name, and ends. -/
def firstEnds : List Event :=
  [.reply { Leaks.nameA with seq := 2 }.encode, .llNamed 0 false fun _ => true, .llQuery 0 0]

/-- The second one goes on. -/
def secondGoesOn : List Event := [.llCounted 1 false (fun _ => true) fun _ => true]

/-- The call on the file is in one of two phases, if the file is open. -/
def InPhase (p q : Phase) (k : Driver) (f : FileId) : Bool :=
  (k.files f).all fun file => decide (file.phase = p ∨ file.phase = q)

lemma phase_of_inPhase {p q : Phase} (h : InPhase p q k f = true) (hf : k.files f = some file) :
    file.phase = p ∨ file.phase = q := by
  unfold InPhase at h
  rw [hf, Option.all_some] at h
  exact of_decide_eq_true h

/-- Neither client is in its loop when this holds of all files after a run. -/
lemma inTurn_of_inPhase {es : List Event} {e : Event}
    (h : ∀ f, ((run (step Leaks.noStrtol) .probed es).any fun k => InPhase .ready .count k f) = true)
    (hr : run (step Leaks.noStrtol) .probed es = some k) : InTurn k e := by
  cases e with
  | llCounted f intr mem dirMem =>
    intro _ g file hg hb
    have hphase := h g
    rw [hr, Option.any_some] at hphase
    unfold Busy at hb
    rcases phase_of_inPhase hphase hg with hp | hp <;> rw [hp] at hb <;> exact hb
  | _ => trivial

set_option maxRecDepth 20000 in
lemma bothAsk_waits (f : FileId) :
    ((run (step Leaks.noStrtol) .probed bothAsk).any fun k => InPhase .ready .count k f) = true := by
  rcases f with _ | _ | f
  · decide +kernel
  · decide +kernel
  · exact rfl

set_option maxRecDepth 20000 in
lemma firstEnds_waits (f : FileId) :
    ((run (step Leaks.noStrtol) .probed (bothAsk ++ firstBegins ++ firstEnds)).any fun k =>
      InPhase .ready .count k f) = true := by
  rcases f with _ | _ | f
  · decide +kernel
  · decide +kernel
  · exact rfl

lemma inTurn_alone : Steps (step Leaks.noStrtol) Alone .probed
    (bothAsk ++ firstBegins ++ firstEnds ++ secondGoesOn) := by
  have hturn : Steps (step Leaks.noStrtol) InTurn .probed
      (bothAsk ++ firstBegins ++ firstEnds ++ secondGoesOn) := by
    refine steps_append.2 ⟨steps_append.2 ⟨steps_append.2 ⟨?_, fun k hr => ?_⟩, fun k _ => ?_⟩, fun k hr => ?_⟩
    · exact ⟨trivial, fun _ _ => ⟨trivial, fun _ _ => ⟨trivial, fun _ _ => ⟨trivial, fun _ _ => ⟨trivial,
        fun _ _ => ⟨trivial, fun _ _ => trivial⟩⟩⟩⟩⟩⟩
    · exact ⟨inTurn_of_inPhase bothAsk_waits hr, fun _ _ => ⟨trivial, fun _ _ => trivial⟩⟩
    · exact ⟨trivial, fun _ _ => ⟨trivial, fun _ _ => ⟨trivial, fun _ _ => trivial⟩⟩⟩
    · exact ⟨inTurn_of_inPhase firstEnds_waits hr, fun _ _ => trivial⟩
  have hrest : Steps (step Leaks.noStrtol) (fun k e => Uninterrupted e ∧ Young k) .probed
      (bothAsk ++ firstBegins ++ firstEnds ++ secondGoesOn) := by
    decide +kernel
  exact hturn.and hrest

set_option maxRecDepth 20000 in
lemma inTurn_ready (f : FileId) :
    ((run (step Leaks.noStrtol) .probed (bothAsk ++ firstBegins ++ firstEnds ++ secondGoesOn)).any fun k =>
      InPhase .ready .ready k f) = true := by
  rcases f with _ | _ | f
  · decide +kernel
  · decide +kernel
  · exact rfl

set_option maxRecDepth 20000 in
lemma overlap_ready (f : FileId) :
    ((run (step Leaks.noStrtol) .probed (bothAsk ++ firstBegins ++ secondGoesOn ++ firstEnds)).any fun k =>
      InPhase .ready .ready k f) = true := by
  rcases f with _ | _ | f
  · decide +kernel
  · decide +kernel
  · exact rfl

lemma done_of_ready {es : List Event}
    (h : ∀ f, ((run (step Leaks.noStrtol) .probed es).any fun k => InPhase .ready .ready k f) = true)
    (hr : run (step Leaks.noStrtol) .probed es = some k) (hlog : k.log ≠ []) : Done k := by
  refine ⟨hlog, fun f file hf => ?_⟩
  have hphase := h f
  rw [hr, Option.any_some] at hphase
  exact (phase_of_inPhase hphase hf).elim id id

/-- When the second client goes on after the first one has ended, the list is complete. -/
theorem inTurn_complete : ∃ k,
    run (step Leaks.noStrtol) .probed (bothAsk ++ firstBegins ++ firstEnds ++ secondGoesOn) = some k ∧
    Done k ∧ Complete nameA k := by
  have hrun : ((run (step Leaks.noStrtol) .probed
      (bothAsk ++ firstBegins ++ firstEnds ++ secondGoesOn)).any fun k => decide (k.log ≠ [])) = true := by
    decide +kernel
  obtain ⟨k, hr, hlog⟩ := (Option.any_eq_true ..).1 hrun
  have hdone := done_of_ready inTurn_ready hr (of_decide_eq_true hlog)
  have hf : Steps (step Leaks.noStrtol) (Faultless nameA) .probed
      (bothAsk ++ firstBegins ++ firstEnds ++ secondGoesOn) := by
    decide +kernel
  exact ⟨k, hr, hdone, complete_of_alone hf inTurn_alone _ (List.prefix_refl _) k hr hdone⟩

/-- **A file gets into the root of debugfs** when the second client goes on while the first one waits
for the name of the variable. -/
theorem overlap_incomplete : ∃ k,
    Steps (step Leaks.noStrtol) (Faultless nameA) .probed
      (bothAsk ++ firstBegins ++ secondGoesOn ++ firstEnds) ∧
    run (step Leaks.noStrtol) .probed (bothAsk ++ firstBegins ++ secondGoesOn ++ firstEnds) = some k ∧
    Done k ∧ (∃ x ∈ k.debugfs, x.parent = none) ∧ ¬ Complete nameA k := by
  have hrun : ((run (step Leaks.noStrtol) .probed
      (bothAsk ++ firstBegins ++ secondGoesOn ++ firstEnds)).any fun k =>
        decide (k.log ≠ [] ∧ ∃ x ∈ k.debugfs, x.parent = none)) = true := by
    decide +kernel
  obtain ⟨k, hr, hk⟩ := (Option.any_eq_true ..).1 hrun
  obtain ⟨hlog, x, hx, hparent⟩ := of_decide_eq_true hk
  refine ⟨k, by decide +kernel, hr, done_of_ready overlap_ready hr hlog, ⟨x, hx, hparent⟩, fun hc => ?_⟩
  exact hc.inside x hx hparent

end CfgMgmt.Kernel.LoadList
