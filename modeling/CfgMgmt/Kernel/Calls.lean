import CfgMgmt.Kernel.Structs
import CfgMgmt.Lib.Machine

/-!
# The calls of the clients

The invariant of the module.  A call keeps it unless it returns, or sends again, a struct that is still
pending: `Careful` says which calls do so.
-/

namespace CfgMgmt.Kernel.Calls

open CfgMgmt.Lib CfgMgmt.Msg CfgMgmt.Kernel.Linux CfgMgmt.Kernel.RpmsgLink CfgMgmt.Kernel.Files
open CfgMgmt.Kernel.Structs

/-! ### The invariant -/

/-- Between its requests, and when the reply has arrived, a call finds its struct not pending.  Between
two queries of `debugfs_open_ll` this takes that the transport has accepted the first one (`sent`). -/
def PhaseOk (sent : Prop) (l : Link) (file : File) : Prop :=
  match file.phase with
  | .ready => True
  | .load => file.privateData ∉ l.pendingList
  | .count => file.privateData ∉ l.pendingList
  | .query _ _ => sent → file.privateData ∉ l.pendingList
  | .name _ _ => (l.trans file.privateData).valid = true → file.privateData ∉ l.pendingList
  | .closing => (l.trans file.privateData).valid = true → file.privateData ∉ l.pendingList

/-- **The invariant**, where `sent` tells whether the transport has accepted every request. -/
structure Inv (sent : Prop) (k : Driver) : Prop where
  sane : Sane k
  phases : ∀ f file, k.files f = some file → PhaseOk sent k.link file

variable {sent : Prop} {k k' : Driver} {f : FileId} {file file' : File}

lemma PhaseOk.of_not_pending {l : Link} (h : file.privateData ∉ l.pendingList) :
    PhaseOk sent l file := by
  unfold PhaseOk
  split <;> simp [h]

lemma PhaseOk.of_ready {l : Link} (h : file.phase = .ready) : PhaseOk sent l file := by
  simp [PhaseOk, h]

lemma PhaseOk.mono {l l' : Link} (h : PhaseOk sent l file)
    (ht : l'.trans file.privateData = l.trans file.privateData)
    (hp : file.privateData ∈ l'.pendingList → file.privateData ∈ l.pendingList) :
    PhaseOk sent l' file := by
  unfold PhaseOk at h ⊢
  split at h
  · trivial
  · exact fun hm => h (hp hm)
  · exact fun hm => h (hp hm)
  · exact fun hs hm => h hs (hp hm)
  · exact fun hv hm => h (ht ▸ hv) (hp hm)
  · exact fun hv hm => h (ht ▸ hv) (hp hm)

/-- A call keeps the invariant if it leaves its own file in order. -/
lemma Inv.of_acts (h : Inv sent k) (ha : Acts f k k')
    (hf : ∀ file, k'.files f = some file → PhaseOk sent k'.link file) : Inv sent k' := by
  refine ⟨ha.sane, fun g file hg => ?_⟩
  by_cases hgf : g = f
  · subst hgf
    exact hf file hg
  · rw [ha.files g hgf] at hg
    exact (h.phases g file hg).mono (ha.trans g hgf file hg) (ha.pending g hgf file hg).1

lemma Inv.of_acts_ready (h : Inv sent k) (ha : Acts f k k')
    (hf : ∀ file, k'.files f = some file → file.phase = .ready) : Inv sent k' :=
  h.of_acts ha fun file hfile => PhaseOk.of_ready (hf file hfile)

/-! ### What a step is -/

/-- The event leads from `k` to `k'`: what the call finds at its file, and what it does. -/
inductive Leads (kstrtol : List UInt8 → Int32 × Int32) (k k' : Driver) : Event → Prop
  | openVar {f : FileId} {info : VarAccessInfo} {fModeRead fModeWrite nonblock mem : Bool}
      {send : Int32} (hf : k.files f = none)
      (hs : k.debugfsOpenVar kstrtol f info fModeRead fModeWrite nonblock mem send = some k') :
      Leads kstrtol k k' (.openVar f info fModeRead fModeWrite nonblock mem send)
  | openLl {f : FileId} {fModeRead fModeWrite nonblock mem : Bool} (hf : k.files f = none)
      (hs : k.debugfsOpenLl f fModeRead fModeWrite nonblock mem = some k') :
      Leads kstrtol k k' (.openLl f fModeRead fModeWrite nonblock mem)
  | reply {data : List UInt8} (hs : k' = { k with link := k.link.rpmsgCb data }) :
      Leads kstrtol k k' (.reply data)
  | read {f : FileId} {len : ℕ} {own : Option ℤ} {intr : Bool} {uncopied : ℕ} (file : File)
      (hf : k.files f = some file) (hready : file.phase = .ready) (hread : file.fModeRead = true)
      (hs : k.debugfsReadVar f file len own intr uncopied = some k') :
      Leads kstrtol k k' (.read f len own intr uncopied)
  | write {f : FileId} {data : List UInt8} {own : Option ℤ} {uncopied : ℕ} (file : File)
      (hf : k.files f = some file) (hready : file.phase = .ready) (hwrite : file.fModeWrite = true)
      (hs : k' = k.debugfsWriteVar f file data own uncopied) :
      Leads kstrtol k k' (.write f data own uncopied)
  | release {f : FileId} {send : Int32} (file : File) (hf : k.files f = some file)
      (hready : file.phase = .ready) (hs : k.debugfsReleaseVar kstrtol f file send = some k') :
      Leads kstrtol k k' (.release f send)
  | releaseWoken {f : FileId} {intr : Bool} (file : File) (hf : k.files f = some file)
      (hclosing : file.phase = .closing) (hs : k.debugfsReleaseVarWoken f file intr = some k') :
      Leads kstrtol k k' (.releaseWoken f intr)
  | llCount {f : FileId} {mem : Bool} {send : Int32} (file : File) (hf : k.files f = some file)
      (hload : file.phase = .load) (hs : k.debugfsOpenLlCount f file mem send = some k') :
      Leads kstrtol k k' (.llCount f mem send)
  | llCounted {f : FileId} {intr : Bool} {mem dirMem : Kind → Bool} (file : File)
      (hf : k.files f = some file) (hcount : file.phase = .count)
      (hs : k.debugfsOpenLlCounted f file intr mem dirMem = some k') :
      Leads kstrtol k k' (.llCounted f intr mem dirMem)
  | llQuery {f : FileId} {send : Int32} (file : File) (i n : ℕ) (hf : k.files f = some file)
      (hquery : file.phase = .query i n)
      (hs : k.debugfsOpenLlQuery kstrtol f file i n send = some k') :
      Leads kstrtol k k' (.llQuery f send)
  | llNamed {f : FileId} {intr : Bool} {mem : Kind → Bool} (file : File) (i n : ℕ)
      (hf : k.files f = some file) (hname : file.phase = .name i n)
      (hs : k.debugfsOpenLlNamed f file i n intr mem = some k') :
      Leads kstrtol k k' (.llNamed f intr mem)

theorem leads_of_step {kstrtol : List UInt8 → Int32 × Int32} {e : Event}
    (hs : step kstrtol k e = some k') : Leads kstrtol k k' e := by
  cases e with
  | openVar f =>
    obtain ⟨hf, hs⟩ := Option.ite_none_left_eq_some.1 hs
    exact .openVar (Option.not_isSome_iff_eq_none.1 hf) hs
  | openLl f =>
    obtain ⟨hf, hs⟩ := Option.ite_none_left_eq_some.1 hs
    exact .openLl (Option.not_isSome_iff_eq_none.1 hf) hs
  | reply => exact .reply (Option.some.inj hs).symm
  | read f =>
    obtain ⟨file, hf, hs⟩ := Option.bind_eq_some_iff.1 hs
    split at hs
    · exact .read file hf ‹_› ‹_› hs
    · cases hs
  | write f =>
    obtain ⟨file, hf, hs⟩ := Option.bind_eq_some_iff.1 hs
    split at hs
    · exact .write file hf ‹_› ‹_› (Option.some.inj hs).symm
    · cases hs
  | release f =>
    obtain ⟨file, hf, hs⟩ := Option.bind_eq_some_iff.1 hs
    split at hs
    · exact .release file hf ‹_› hs
    · cases hs
  | releaseWoken f =>
    obtain ⟨file, hf, hs⟩ := Option.bind_eq_some_iff.1 hs
    split at hs
    · exact .releaseWoken file hf ‹_› hs
    · cases hs
  | llCount f =>
    obtain ⟨file, hf, hs⟩ := Option.bind_eq_some_iff.1 hs
    split at hs
    · exact .llCount file hf ‹_› hs
    · cases hs
  | llCounted f =>
    obtain ⟨file, hf, hs⟩ := Option.bind_eq_some_iff.1 hs
    split at hs
    · exact .llCounted file hf ‹_› hs
    · cases hs
  | llQuery f =>
    obtain ⟨file, hf, hs⟩ := Option.bind_eq_some_iff.1 hs
    split at hs
    · exact .llQuery file _ _ hf ‹_› hs
    · cases hs
  | llNamed f =>
    obtain ⟨file, hf, hs⟩ := Option.bind_eq_some_iff.1 hs
    split at hs
    · exact .llNamed file _ _ hf ‹_› hs
    · cases hs

/-! ### Files after a step of a call -/

@[simp] lemma setFile_files_self (file : Option File) : (k.setFile f file).files f = file :=
  Function.update_self ..

@[simp] lemma setFile_link (file : Option File) : (k.setFile f file).link = k.link := rfl

@[simp] lemma setPhase_files_self (phase : Phase) :
    (k.setPhase f file phase).files f = some { file with phase } := Function.update_self ..

@[simp] lemma setPhase_link (phase : Phase) : (k.setPhase f file phase).link = k.link := rfl

@[simp] lemma returns_files (r : Result) : (k.returns f r).files = k.files := rfl

@[simp] lemma returns_link (r : Result) : (k.returns f r).link = k.link := rfl

@[simp] lemma modifyTrans_files (m : Transaction → Transaction) :
    (k.modifyTrans file m).files = k.files := rfl

@[simp] lemma modifyTrans_trans_self (m : Transaction → Transaction) :
    (k.modifyTrans file m).link.trans file.privateData = m (k.link.trans file.privateData) :=
  Link.modify_trans_self m

@[simp] lemma closed_files_self (ret : Int32) : (k.closed f ret).files f = none :=
  Function.update_self ..

@[simp] lemma openedWith_files_self (s : List UInt8) :
    (k.openedWith f file s).files f = some { file with phase := .ready } := Function.update_self ..

lemma openedForWriting_files : (k.openedForWriting f file).files = k.files := by
  unfold Driver.openedForWriting
  split <;> rfl

lemma openedForWriting_log : (k.openedForWriting f file).log = k.log ++ [(f, .opened 0)] := by
  unfold Driver.openedForWriting
  split <;> rfl

section Acts

variable {k₀ : Driver}

lemma acts_setPhase (h : Acts f k₀ k) (hf : k.files f = some file) (phase : Phase) :
    Acts f k₀ (k.setPhase f file phase) := h.setFile hf rfl

lemma acts_openedWith (h : Acts f k₀ k) (hf : k.files f = some file) (s : List UInt8) :
    Acts f k₀ (k.openedWith f file s) := by
  apply Acts.returns
  apply acts_setPhase
  · exact h.modifyTrans hf (by intro x; rfl)
  · exact hf

lemma acts_openedForWriting (h : Acts f k₀ k) (hf : k.files f = some file) :
    Acts f k₀ (k.openedForWriting f file) := by
  unfold Driver.openedForWriting
  split
  · exact (h.modifyTrans hf (by intro x; rfl)).returns _
  · exact h.returns _

lemma acts_seek (h : Acts f k₀ k) (hf : k.files f = some file) (own : Option ℤ) (pos : ℤ) :
    Acts f k₀ (k.seek f file own pos) := by
  cases own with
  | none => exact h.setFile hf rfl
  | some _ => exact h

lemma acts_alloc {mem : Bool} {s : Link} (h : Sane k)
    (ha : k.link.allocTrans mem = some (file.privateData, s)) :
    Acts f k ({ k with link := s }.setFile f (some file)) ∧ file.privateData ∉ s.pendingList := by
  have hal := Link.allocTrans_spec ha
  obtain ⟨q, hq, -⟩ := take_pool hal
  refine ⟨(Acts.refl h).opened hal rfl, ?_⟩
  rw [hal.pendingList]
  exact (h.sound.take hq).2.2.2.1

end Acts

lemma seek_files (hf : k.files f = some file) (own : Option ℤ) (pos : ℤ) :
    ∃ pos', (k.seek f file own pos).files f = some { file with pos := pos' } := by
  cases own with
  | none => exact ⟨pos, setFile_files_self _⟩
  | some _ => exact ⟨file.pos, hf⟩

/-- The call works on its file, and leaves it open and without a call in progress. -/
def ActsReady (f : FileId) (k k' : Driver) : Prop :=
  Acts f k k' ∧ ∃ file, k'.files f = some file ∧ file.phase = .ready

lemma Inv.of_actsReady (h : Inv sent k) (ha : ActsReady f k k') : Inv sent k' := by
  obtain ⟨ha, file, hf, hready⟩ := ha
  refine h.of_acts_ready ha fun file' hf' => ?_
  obtain rfl := Option.some.inj (hf.symm.trans hf')
  exact hready

/-! ### Variable files -/

section VarFiles

variable {kstrtol : List UInt8 → Int32 × Int32} {info : VarAccessInfo} {send : Int32}

/-- `access_var` sends a request, or finds an error in the access. -/
lemma accessVar_cases (kstrtol : List UInt8 → Int32 × Int32) (info : VarAccessInfo) (send : Int32)
    (file : File) (hc : k.link.chnl = true) :
    ((k.link.prepare kstrtol info.index info.type file.privateData).1 = 0 ∧
      (k.accessVar kstrtol file info send).1 = send) ∨
    ((k.link.prepare kstrtol info.index info.type file.privateData).1 ≠ 0 ∧
      k.accessVar kstrtol file info send =
        ((k.link.prepare kstrtol info.index info.type file.privateData).1, { k with link :=
          { k.link with accessReq :=
            (k.link.prepare kstrtol info.index info.type file.privateData).2 } })) := by
  unfold Driver.accessVar
  by_cases hr : (k.link.prepare kstrtol info.index info.type file.privateData).1 = 0
  · refine .inl ⟨hr, ?_⟩
    rw [Link.accessVar_of_eq hc hr, Link.rpmsgSend_eq]
  · refine .inr ⟨hr, ?_⟩
    rw [Link.accessVar_of_ne hc hr]

theorem acts_openVar {fModeRead fModeWrite nonblock mem : Bool} (h : Sane k)
    (hs : k.debugfsOpenVar kstrtol f info fModeRead fModeWrite nonblock mem send = some k') :
    ActsReady f k k' := by
  unfold Driver.debugfsOpenVar at hs
  obtain ⟨⟨t, link⟩, ha, hs⟩ := Option.bind_eq_some_iff.1 hs
  dsimp only at hs
  generalize hfile : (⟨.var info, fModeRead, fModeWrite, nonblock, 0, t, .ready⟩ : File) = file at hs
  generalize hk : Driver.setFile f (some file) { k with link } = k₁ at hs
  have hf₁ : k₁.files f = some file := hk ▸ setFile_files_self _
  have hready : file.phase = .ready := hfile ▸ rfl
  have ht : file.privateData = t := hfile ▸ rfl
  obtain ⟨hopen, hnp⟩ : Acts f k k₁ ∧ file.privateData ∉ k₁.link.pendingList := by
    subst hk
    exact acts_alloc h (ht ▸ ha)
  split at hs
  · have hacc : Acts f k (Driver.accessVar kstrtol file info send
        (k₁.modifyTrans file fun x => { x with rnw := true, wq := true })).2 :=
      (hopen.modifyTrans hf₁ (by intro x; rfl)).accessVar hf₁ hnp
    split at hs
    · obtain rfl := Option.some.inj hs
      exact ⟨hacc.returns _, file, hf₁, hready⟩
    · obtain rfl := Option.some.inj hs
      exact ⟨acts_openedForWriting hacc hf₁, file, (congrFun openedForWriting_files f).trans hf₁, hready⟩
  · obtain rfl := Option.some.inj hs
    exact ⟨acts_openedForWriting hopen hf₁, file, (congrFun openedForWriting_files f).trans hf₁, hready⟩

theorem acts_read {len uncopied : ℕ} {own : Option ℤ} {intr : Bool} (h : Sane k)
    (hf : k.files f = some file) (hready : file.phase = .ready)
    (hs : k.debugfsReadVar f file len own intr uncopied = some k') : ActsReady f k k' := by
  have hacts := Acts.refl h (f := f)
  unfold Driver.debugfsReadVar at hs
  dsimp only at hs
  split at hs
  · split at hs
    · obtain rfl := Option.some.inj hs
      exact ⟨hacts.returns _, file, hf, hready⟩
    · obtain ⟨-, hs⟩ := Option.ite_none_right_eq_some.1 hs
      obtain rfl := Option.some.inj hs
      exact ⟨hacts.returns _, file, hf, hready⟩
  · split at hs
    · obtain rfl := Option.some.inj hs
      exact ⟨(hacts.modifyTrans hf (by intro x; rfl)).returns _, file, hf, hready⟩
    · obtain rfl := Option.some.inj hs
      obtain ⟨pos', hf'⟩ := seek_files hf own (simpleReadFromBuffer len (own.getD file.pos)
        (k.transOf file).buf.bytes (k.transOf file).len.toUInt32.toNat uncopied).2
      exact ⟨(acts_seek hacts hf _ _).returns _, _, hf', hready⟩

theorem acts_write {data : List UInt8} {uncopied : ℕ} {own : Option ℤ} (h : Sane k)
    (hf : k.files f = some file) (hready : file.phase = .ready) :
    ActsReady f k (k.debugfsWriteVar f file data own uncopied) := by
  have hdirty : Acts f k (k.modifyTrans file fun x => { x with dirty := true }) :=
    (Acts.refl h).modifyTrans hf (by intro x; rfl)
  refine ⟨(acts_seek (hdirty.modifyTrans hf ?_) hf _ _).returns _, ?_⟩
  · intro x
    rfl
  · cases own with
    | none => exact ⟨_, setFile_files_self _, hready⟩
    | some _ => exact ⟨_, hf, hready⟩

/-- Closing the file sends its text to the firmware, or reads the variable. -/
def WritesBack (kstrtol : List UInt8 → Int32 × Int32) (k : Driver) (file : File) : Prop :=
  file.fModeWrite = true ∧ (k.transOf file).dirty = true ∧ ∃ i, file.inode = .var ⟨i, .val⟩ ∧
    ((k.transOf file).rnw = true ∨
      (kstrtol (Link.text { k.transOf file with valid := false })).1 = 0)

/-- The request that `debugfs_release_var` sends. -/
def writeBack (kstrtol : List UInt8 → Int32 × Int32) (info : VarAccessInfo) (send : Int32)
    (file : File) (k : Driver) : Driver :=
  ((k.modifyTrans file fun x => { x with wq := true, valid := false }).accessVar kstrtol file info
    send).2

lemma writesBack_iff (kstrtol : List UInt8 → Int32 × Int32) {i : Int32}
    (hm : file.fModeWrite = true) (hd : (k.transOf file).dirty = true)
    (hi : file.inode = .var ⟨i, .val⟩) : WritesBack kstrtol k file ↔
      ((k.modifyTrans file fun x => { x with wq := true, valid := false }).link.prepare kstrtol i .val
        file.privateData).1 = 0 := by
  have hdirty : (k.link.trans file.privateData).dirty = true := hd
  rw [Link.prepare_val]
  simp [WritesBack, hm, hdirty, hi, Driver.modifyTrans, Driver.transOf, Link.text]

/-- The struct of a file whose write request was sent is pending, and not valid. -/
lemma writeBack_link {i : Int32} (send : Int32) (hc : k.link.chnl = true) (hw : WritesBack kstrtol k file)
    (hi : file.inode = .var ⟨i, .val⟩) :
    (writeBack kstrtol ⟨i, .val⟩ send file k).link.pendingList =
        file.privateData :: k.link.pendingList ∧
      ((writeBack kstrtol ⟨i, .val⟩ send file k).link.trans file.privateData).valid = false := by
  have h0 := (writesBack_iff kstrtol hw.1 hw.2.1 hi).1 hw
  constructor
  · apply Link.accessVar_pendingList _ h0 send
    exact hc
  · obtain ⟨n, hn⟩ := Link.accessVar_trans kstrtol i .val
      (s := (k.modifyTrans file fun x => { x with wq := true, valid := false }).link) hc
      file.privateData send file.privateData
    have e : (writeBack kstrtol ⟨i, .val⟩ send file k).link.trans file.privateData = _ := hn
    rw [e]
    simp [Driver.modifyTrans]

lemma returnTrans_modifyTrans (m : Transaction → Transaction) (req : CfgMsg) :
    Driver.returnTrans file { k.modifyTrans file m with
      link := { (k.modifyTrans file m).link with accessReq := req } } =
    Driver.returnTrans file { k with link := { k.link with accessReq := req } } := by
  simp [Driver.modifyTrans, Driver.returnTrans, Link.returnTrans, Link.modify]

/-- **`debugfs_release_var`** returns the struct, but for a request that it waits for. -/
theorem debugfsReleaseVar_cases (hc : k.link.chnl = true)
    (hs : k.debugfsReleaseVar kstrtol f file send = some k') :
    (¬ WritesBack kstrtol k file ∧ ∃ req ret,
      (file.fModeWrite = true → (k.transOf file).dirty = true → ret ≠ 0) ∧
      k' = ({ k with link := { k.link with accessReq := req } }.returnTrans file).closed f ret) ∨
    (WritesBack kstrtol k file ∧ ∃ i, file.inode = .var ⟨i, .val⟩ ∧
      k' = if send = 0 then (writeBack kstrtol ⟨i, .val⟩ send file k).setPhase f file .closing
        else ((writeBack kstrtol ⟨i, .val⟩ send file k).returnTrans file).closed f send) := by
  unfold Driver.debugfsReleaseVar at hs
  split at hs
  · rename_i hd
    split at hs
    · cases hs
    · rename_i info hi
      split at hs
      · rename_i ht
        refine .inl ⟨?_, k.link.accessReq, _, fun _ _ => by decide, (Option.some.inj hs).symm⟩
        rintro ⟨-, -, i, hi', -⟩
        rw [hi] at hi'
        cases hi'
        exact ht rfl
      · rename_i ht
        obtain ⟨i, acc⟩ := info
        obtain rfl : acc = .val := not_not.1 ht
        have hw := writesBack_iff kstrtol hd.1 hd.2 hi
        have hr := accessVar_cases kstrtol ⟨i, .val⟩ send file
          (k := k.modifyTrans file fun x => { x with wq := true, valid := false }) hc
        dsimp only at hs
        rcases hr with ⟨h0, hret⟩ | ⟨hne, e⟩
        · refine .inr ⟨hw.2 h0, i, hi, ?_⟩
          rw [hret] at hs
          by_cases hsend : send = 0
          · simpa [hsend, writeBack] using hs.symm
          · simpa [hsend, writeBack] using hs.symm
        · refine .inl ⟨fun h => hne (hw.1 h), ?_⟩
          rw [e] at hs
          simp only [ne_eq, hne, not_false_eq_true, if_true, Option.some.injEq] at hs
          rw [returnTrans_modifyTrans] at hs
          exact ⟨_, _, fun _ _ => hne, hs.symm⟩
  · rename_i hd
    exact .inl ⟨fun hw => hd ⟨hw.1, hw.2.1⟩, k.link.accessReq, _, fun hm hdirty => absurd ⟨hm, hdirty⟩ hd,
      (Option.some.inj hs).symm⟩

lemma acts_accessReq (h : Sane k) (req : CfgMsg) :
    Acts f k { k with link := { k.link with accessReq := req } } :=
  ⟨⟨h.chnl, h.sound, h.numbered.of_sublist (List.Sublist.refl _) rfl rfl fun _ _ => rfl⟩,
    fun _ _ => rfl, fun _ _ _ _ => rfl, fun _ _ _ _ => rfl, fun _ _ _ _ => Iff.rfl⟩

lemma acts_returned (h : Sane k) (hf : k.files f = some file)
    (hp : file.privateData ∉ k.link.pendingList) (req : CfgMsg) (ret : Int32) :
    Acts f k
      (({ k with link := { k.link with accessReq := req } }.returnTrans file).closed f ret) :=
  (acts_accessReq h req).returnTrans_closed hf hp ret

lemma acts_writeBack {i : Int32} (h : Sane k) (hf : k.files f = some file)
    (hp : file.privateData ∉ k.link.pendingList) :
    Acts f k ((writeBack kstrtol ⟨i, .val⟩ send file k).setPhase f file .closing) := by
  refine acts_setPhase (Acts.accessVar (Acts.modifyTrans (Acts.refl h) hf ?_) hf hp) hf _
  exact fun _ => rfl

theorem acts_release (h : Sane k) (hf : k.files f = some file)
    (hp : file.privateData ∉ k.link.pendingList) (hw : WritesBack kstrtol k file → send = 0)
    (hs : k.debugfsReleaseVar kstrtol f file send = some k') : Acts f k k' := by
  rcases debugfsReleaseVar_cases h.chnl hs with ⟨-, req, ret, -, rfl⟩ | ⟨hwb, i, hi, rfl⟩
  · exact acts_returned h hf hp req ret
  · rw [if_pos (hw hwb)]
    exact acts_writeBack h hf hp

theorem inv_release (h : Inv sent k) (hf : k.files f = some file)
    (hp : file.privateData ∉ k.link.pendingList) (hw : WritesBack kstrtol k file → send = 0)
    (hs : k.debugfsReleaseVar kstrtol f file send = some k') : Inv sent k' := by
  refine h.of_acts (acts_release h.sane hf hp hw hs) fun file' hf' => ?_
  rcases debugfsReleaseVar_cases h.sane.chnl hs with ⟨-, req, ret, -, rfl⟩ | ⟨hwb, i, hi, rfl⟩
  · simp at hf'
  · rw [if_pos (hw hwb), setPhase_files_self, Option.some.injEq] at hf'
    rw [if_pos (hw hwb)]
    subst hf'
    intro hv
    exact absurd hv (by simp [(writeBack_link send h.sane.chnl hwb hi).2])

end VarFiles

/-- A reply has arrived for the struct of a file whose close has woken up. -/
lemma Inv.not_pending_closing (h : Inv sent k) (hf : k.files f = some file)
    (hphase : file.phase = .closing) (hv : (k.transOf file).valid = true) :
    file.privateData ∉ k.link.pendingList := by
  have hp := h.phases f file hf
  simp only [PhaseOk, hphase] at hp
  exact hp hv

theorem inv_releaseWoken {intr : Bool} (h : Inv sent k) (hf : k.files f = some file)
    (hphase : file.phase = .closing) (hs : k.debugfsReleaseVarWoken f file intr = some k') :
    Inv sent k' := by
  have hacts := Acts.refl h.sane (f := f)
  have hclosed : ∀ {k₁ : Driver} {ret : Int32} (file' : File),
      (k₁.closed f ret).files f = some file' → file'.phase = .ready := by
    intro k₁ ret file' hf'
    simp at hf'
  unfold Driver.debugfsReleaseVarWoken at hs
  split at hs
  · obtain ⟨-, hs⟩ := Option.ite_none_right_eq_some.1 hs
    obtain rfl := Option.some.inj hs
    exact h.of_acts_ready (hacts.closed _) hclosed
  · rename_i hv
    split at hs
    · obtain rfl := Option.some.inj hs
      exact h.of_acts_ready (hacts.closed _) hclosed
    · obtain rfl := Option.some.inj hs
      have hp := h.not_pending_closing hf hphase (by simpa using hv)
      exact h.of_acts_ready (hacts.returnTrans_closed hf hp _) hclosed

/-! ### `load_list` -/

/-- What a fold does not change in one step it does not change at all. -/
lemma foldlM_keeps {α : Type} {g : Driver → α → Option Driver}
    (hg : ∀ k x k', g k x = some k' → k'.link = k.link ∧ k'.files = k.files) :
    ∀ {l : List α} {k k' : Driver}, l.foldlM g k = some k' → k'.link = k.link ∧ k'.files = k.files := by
  intro l
  induction l with
  | nil =>
    intro k k' h
    obtain rfl : k = k' := by simpa using h
    exact ⟨rfl, rfl⟩
  | cons x l ih =>
    intro k k' h
    rw [List.foldlM_cons] at h
    obtain ⟨k₁, h₁, h⟩ := Option.bind_eq_some_iff.1 h
    obtain ⟨hl, hf⟩ := ih h
    obtain ⟨hl₁, hf₁⟩ := hg k x k₁ h₁
    exact ⟨hl.trans hl₁, hf.trans hf₁⟩

lemma setRecord_keeps (i : ℕ) (k : Driver) (kind : Kind) (k' : Driver)
    (h : k.setRecord i kind = some k') : k'.link = k.link ∧ k'.files = k.files := by
  obtain ⟨a, -, h⟩ := Option.bind_eq_some_iff.1 h
  obtain rfl := Option.some.inj h
  exact ⟨rfl, rfl⟩

lemma createFile_keeps (name : List UInt8) (i : ℕ) (mem : Kind → Bool) (k : Driver) (kind : Kind)
    (k' : Driver) (h : k.createFile name i mem kind = some k') :
    k'.link = k.link ∧ k'.files = k.files := by
  obtain ⟨a, -, h⟩ := Option.bind_eq_some_iff.1 h
  split at h <;> obtain rfl := Option.some.inj h <;> exact ⟨rfl, rfl⟩

lemma allocMem_keeps (mem : Kind → Bool) (kinds : List Kind) :
    ∀ k : Driver, (k.allocMem mem kinds).2.link = k.link ∧ (k.allocMem mem kinds).2.files = k.files := by
  induction kinds with
  | nil => exact fun k => ⟨rfl, rfl⟩
  | cons kind kinds ih =>
    intro k
    unfold Driver.allocMem
    split
    · exact ih _
    · exact ⟨rfl, rfl⟩

lemma createDirs_keeps (mem : Kind → Bool) (kinds : List Kind) :
    ∀ k : Driver,
      (k.createDirs mem kinds).2.link = k.link ∧ (k.createDirs mem kinds).2.files = k.files := by
  induction kinds with
  | nil => exact fun k => ⟨rfl, rfl⟩
  | cons kind kinds ih =>
    intro k
    unfold Driver.createDirs
    split
    · exact ih _
    · exact ⟨rfl, rfl⟩

section LoadList

variable {kstrtol : List UInt8 → Int32 × Int32} {send : Int32}

lemma inv_openedWith {k₁ : Driver} (h : Inv sent k) (ha : Acts f k k₁) (hf : k₁.files f = some file)
    (s : List UInt8) : Inv sent (k₁.openedWith f file s) := by
  refine h.of_acts_ready (acts_openedWith ha hf s) fun file' hf' => ?_
  rw [openedWith_files_self, Option.some.injEq] at hf'
  rw [← hf']

lemma inv_setPhase {k₁ : Driver} {phase : Phase} (h : Inv sent k) (ha : Acts f k k₁)
    (hf : k₁.files f = some file) (hp : PhaseOk sent k₁.link { file with phase }) :
    Inv sent (k₁.setPhase f file phase) := by
  refine h.of_acts (acts_setPhase ha hf _) fun file' hf' => ?_
  rw [setPhase_files_self, Option.some.injEq] at hf'
  exact hf' ▸ hp

theorem inv_openLl {fModeRead fModeWrite nonblock mem : Bool} (h : Inv sent k)
    (hs : k.debugfsOpenLl f fModeRead fModeWrite nonblock mem = some k') : Inv sent k' := by
  unfold Driver.debugfsOpenLl at hs
  obtain ⟨⟨t, link⟩, ha, hs⟩ := Option.bind_eq_some_iff.1 hs
  dsimp only at hs
  generalize hfile : (⟨.loadList, fModeRead, fModeWrite, nonblock, 0, t, .load⟩ : File) = file at hs
  have ht : file.privateData = t := hfile ▸ rfl
  obtain ⟨hopen, hnp⟩ := acts_alloc (f := f) h.sane (ht ▸ ha)
  split at hs
  · obtain rfl := Option.some.inj hs
    exact inv_openedWith h hopen (setFile_files_self _) _
  · obtain rfl := Option.some.inj hs
    refine h.of_acts hopen fun file' hf' => ?_
    obtain rfl := Option.some.inj ((setFile_files_self _).symm.trans hf')
    exact PhaseOk.of_not_pending hnp

theorem inv_openLlCount {mem : Bool} (h : Inv sent k) (hf : k.files f = some file)
    (hphase : file.phase = .load) (hs : k.debugfsOpenLlCount f file mem send = some k') :
    Inv sent k' := by
  unfold Driver.debugfsOpenLlCount at hs
  obtain ⟨⟨ret, link⟩, hn, hs⟩ := Option.bind_eq_some_iff.1 hs
  dsimp only at hs
  have hacts := (Acts.refl h.sane (f := f)).getNVars hn
  have hp := h.phases f file hf
  simp only [PhaseOk, hphase] at hp
  split at hs
  · obtain rfl := Option.some.inj hs
    exact inv_openedWith h hacts hf _
  · obtain rfl := Option.some.inj hs
    refine inv_setPhase h hacts hf (PhaseOk.of_not_pending ?_)
    exact fun hm => hp ((getNVars_owned h.sane hn hf).2.2.1 hm)

theorem inv_openLlCounted {intr : Bool} {mem dirMem : Kind → Bool} (h : Inv sent k)
    (hf : k.files f = some file) (hphase : file.phase = .count)
    (hs : k.debugfsOpenLlCounted f file intr mem dirMem = some k') : Inv sent k' := by
  have hacts := Acts.refl h.sane (f := f)
  have hp := h.phases f file hf
  simp only [PhaseOk, hphase] at hp
  obtain ⟨hl₁, hf₁⟩ := allocMem_keeps mem Kind.all k
  obtain ⟨hl₂, hf₂⟩ := createDirs_keeps dirMem Kind.all (k.allocMem mem Kind.all).2
  have hacts₁ := hacts.congr hl₁ hf₁
  have hacts₂ := hacts₁.congr hl₂ hf₂
  unfold Driver.debugfsOpenLlCounted at hs
  split at hs
  · obtain ⟨-, hs⟩ := Option.ite_none_right_eq_some.1 hs
    obtain rfl := Option.some.inj hs
    exact inv_openedWith h hacts hf _
  · dsimp only at hs
    split at hs
    · obtain rfl := Option.some.inj hs
      exact inv_openedWith h hacts hf _
    · split at hs
      · obtain rfl := Option.some.inj hs
        exact inv_openedWith h hacts₁ (hf₁ ▸ hf) _
      · split at hs
        · obtain rfl := Option.some.inj hs
          exact inv_openedWith h hacts₂ (hf₂ ▸ hf₁ ▸ hf) _
        · obtain rfl := Option.some.inj hs
          refine inv_setPhase h hacts₂ (hf₂ ▸ hf₁ ▸ hf) (PhaseOk.of_not_pending ?_)
          rw [hl₂, hl₁]
          exact hp

/-- A struct before the query of a name. -/
def forName (x : Transaction) : Transaction :=
  { x with dirty := false, rnw := true, valid := false, len := 0, wq := true }

/-- The request for the name of the variable `i`. -/
def queryName (kstrtol : List UInt8 → Int32 × Int32) (i : ℕ) (send : Int32) (file : File)
    (k : Driver) : Driver :=
  ((k.modifyTrans file forName).accessVar kstrtol file ⟨Int32.ofNat i, .name⟩ send).2

lemma acts_queryName (kstrtol : List UInt8 → Int32 × Int32) (i : ℕ) (send : Int32) {k₀ : Driver}
    (h : Acts f k₀ k) (hf : k.files f = some file) (hp : file.privateData ∉ k.link.pendingList) :
    Acts f k₀ (queryName kstrtol i send file k) :=
  (h.modifyTrans hf (by intro x; rfl)).accessVar hf hp

/-- The struct of a file is pending, and not valid, while it queries a name. -/
lemma queryName_link (kstrtol : List UInt8 → Int32 × Int32) (i : ℕ) (send : Int32)
    (file : File) (hc : k.link.chnl = true) :
    (queryName kstrtol i send file k).link.pendingList = file.privateData :: k.link.pendingList ∧
      ((queryName kstrtol i send file k).link.trans file.privateData).valid = false := by
  constructor
  · have h0 : ((k.modifyTrans file forName).link.prepare kstrtol (Int32.ofNat i) .name
      file.privateData).1 = 0 := rfl
    apply Link.accessVar_pendingList _ h0 send
    exact hc
  · obtain ⟨n, hn⟩ := Link.accessVar_trans kstrtol (Int32.ofNat i) .name
      (s := (k.modifyTrans file forName).link) hc file.privateData send file.privateData
    have e : (queryName kstrtol i send file k).link.trans file.privateData = _ := hn
    rw [e]
    simp [Driver.modifyTrans, forName]

/-- **The loop of `debugfs_open_ll`** ends, or queries the next name. -/
theorem debugfsOpenLlQuery_cases {i n : ℕ} (hc : k.link.chnl = true)
    (hs : k.debugfsOpenLlQuery kstrtol f file i n send = some k') :
    (¬ i < n ∧ k' = k.openedWith f file (ascii "ok\n")) ∨
    (i < n ∧ ∃ k₁ : Driver, k₁.link = k.link ∧ k₁.files = k.files ∧
      k' = (queryName kstrtol i send file k₁).setPhase f file
        (if send < 0 then .query (i + 1) n else .name i n)) := by
  unfold Driver.debugfsOpenLlQuery at hs
  split at hs
  · rename_i hi
    obtain ⟨k₁, hk₁, hs⟩ := Option.bind_eq_some_iff.1 hs
    obtain ⟨hl, hf⟩ := foldlM_keeps (setRecord_keeps i) hk₁
    dsimp only at hs
    have hc₁ : (k₁.modifyTrans file forName).link.chnl = true := (congrArg Link.chnl hl).trans hc
    have hret : ((k₁.modifyTrans file forName).accessVar kstrtol file ⟨Int32.ofNat i, .name⟩
        send).1 = send :=
      ((accessVar_cases kstrtol _ send file hc₁).resolve_right fun h => h.1 rfl).2
    unfold forName at hret
    rw [hret] at hs
    refine .inr ⟨hi, k₁, hl, hf, ?_⟩
    split at hs
    · rw [if_pos ‹_›]
      exact (Option.some.inj hs).symm
    · rw [if_neg ‹_›]
      exact (Option.some.inj hs).symm
  · rename_i hi
    exact .inl ⟨hi, (Option.some.inj hs).symm⟩

theorem inv_openLlQuery {i n : ℕ} (h : Inv sent k) (hf : k.files f = some file)
    (hp : i < n → file.privateData ∉ k.link.pendingList) (hsend : sent → send = 0)
    (hs : k.debugfsOpenLlQuery kstrtol f file i n send = some k') : Inv sent k' := by
  have hacts := Acts.refl h.sane (f := f)
  rcases debugfsOpenLlQuery_cases h.sane.chnl hs with ⟨-, rfl⟩ | ⟨hi, k₁, hl, hfs, rfl⟩
  · exact inv_openedWith h hacts hf _
  · have hf₁ : k₁.files f = some file := hfs ▸ hf
    have hq := acts_queryName kstrtol i send (hacts.congr hl hfs) hf₁ (hl ▸ hp hi)
    split
    · refine inv_setPhase h hq hf₁ fun hsent => ?_
      rename_i hneg
      exact absurd (hsend hsent ▸ hneg) (by decide)
    · refine inv_setPhase h hq hf₁ fun hv => ?_
      have hv' := (queryName_link kstrtol i send file (k := k₁) (hl ▸ h.sane.chnl)).2
      exact absurd hv (by simp [hv'])

theorem inv_openLlNamed {i n : ℕ} {intr : Bool} {mem : Kind → Bool} (h : Inv sent k)
    (hf : k.files f = some file) (hphase : file.phase = .name i n)
    (hs : k.debugfsOpenLlNamed f file i n intr mem = some k') : Inv sent k' := by
  have hacts := Acts.refl h.sane (f := f)
  unfold Driver.debugfsOpenLlNamed at hs
  split at hs
  · obtain ⟨-, hs⟩ := Option.ite_none_right_eq_some.1 hs
    obtain rfl := Option.some.inj hs
    exact inv_openedWith h hacts hf _
  · rename_i hv
    obtain ⟨k₁, hk₁, hs⟩ := Option.bind_eq_some_iff.1 hs
    obtain ⟨hl, hfs⟩ := foldlM_keeps (createFile_keeps _ i mem) hk₁
    obtain rfl := Option.some.inj hs
    have hp := h.phases f file hf
    simp only [PhaseOk, hphase] at hp
    refine inv_setPhase h (hacts.congr hl hfs) (hfs ▸ hf) (PhaseOk.of_not_pending ?_)
    rw [hl]
    exact hp (by simpa [Driver.transOf] using hv)

end LoadList

/-! ### Every step -/

theorem inv_reply (h : Inv sent k) (data : List UInt8) :
    Inv sent { k with link := k.link.rpmsgCb data } := by
  obtain ⟨hs, hall⟩ := h.sane.rpmsgCb data
  refine ⟨hs, fun f file hf => ?_⟩
  rcases hall file.privateData with ⟨ht, hm⟩ | hn
  · exact (h.phases f file hf).mono ht hm
  · exact PhaseOk.of_not_pending hn

/-- `rpmsg_send` succeeds, if it is called. -/
def Sent : Event → Prop
  | .openVar _ _ _ _ _ _ send => send = 0
  | .release _ send => send = 0
  | .llCount _ _ send => send = 0
  | .llQuery _ send => send = 0
  | _ => True

/-- The step does not return, and does not send again, a struct that is pending or that it has itself
made pending. -/
def Careful (kstrtol : List UInt8 → Int32 × Int32) (k : Driver) : Event → Prop
  | .release f send => ∀ file, k.files f = some file → file.phase = .ready →
    file.privateData ∉ k.link.pendingList ∧ (WritesBack kstrtol k file → send = 0)
  | .llQuery f _ => ∀ file i n, k.files f = some file → file.phase = .query i n → i < n →
    file.privateData ∉ k.link.pendingList
  | _ => True

/-- **Every careful step keeps the invariant.** -/
theorem inv_step {kstrtol : List UInt8 → Int32 × Int32} {e : Event} (h : Inv sent k)
    (hc : Careful kstrtol k e) (hsent : sent → Sent e) (hs : step kstrtol k e = some k') :
    Inv sent k' := by
  replace hs := leads_of_step hs
  cases hs with
  | openVar hf hs => exact h.of_actsReady (acts_openVar h.sane hs)
  | openLl hf hs => exact inv_openLl h hs
  | reply hs =>
    subst hs
    exact inv_reply h _
  | read file hf hready hread hs => exact h.of_actsReady (acts_read h.sane hf hready hs)
  | write file hf hready hwrite hs =>
    subst hs
    exact h.of_actsReady (acts_write h.sane hf hready)
  | release file hf hready hs =>
    obtain ⟨hp, hw⟩ := hc file hf hready
    exact inv_release h hf hp hw hs
  | releaseWoken file hf hclosing hs => exact inv_releaseWoken h hf hclosing hs
  | llCount file hf hload hs => exact inv_openLlCount h hf hload hs
  | llCounted file hf hcount hs => exact inv_openLlCounted h hf hcount hs
  | llQuery file i n hf hquery hs =>
    exact inv_openLlQuery h hf (hc file i n hf hquery) hsent hs
  | llNamed file i n hf hname hs => exact inv_openLlNamed h hf hname hs

theorem inv_probed : Inv sent .probed := by
  have hsound : (pool .probed).idle.Sound := Pool.sound_empty.restock 16
  refine ⟨⟨rfl, hsound, ⟨List.Pairwise.nil, fun _ h => absurd h List.not_mem_nil,
    fun _ h => absurd h List.not_mem_nil⟩⟩, fun f file hf => absurd hf Driver.not_files_probed⟩

end CfgMgmt.Kernel.Calls
