import CfgMgmt.Kernel.Hands

/-!
# What happens to an open file

Whatever the clients and the firmware do, the struct of an open variable file is changed by the calls
on this file and by replies alone (`ready_step`), also in states in which structs were lost, or are
pending while they are unused.
-/

namespace CfgMgmt.Kernel.OpenFiles

open CfgMgmt.Lib CfgMgmt.Lib.Bytes CfgMgmt.Lib.Machine CfgMgmt.Msg CfgMgmt.Kernel.Linux
open CfgMgmt.Kernel.RpmsgLink CfgMgmt.Kernel.Files CfgMgmt.Kernel.Structs CfgMgmt.Kernel.Calls
open CfgMgmt.Kernel.Sessions CfgMgmt.Kernel.Hands

variable {kstrtol : List UInt8 → Int32 × Int32} {k₀ k k' : Driver} {f g : FileId}
  {file file' : File} {t : Ptr}

/-! ### What a call leaves alone -/

/-- The struct is the one of the file `f`, or was not in use. -/
def Mine (f : FileId) (k₀ : Driver) (t : Ptr) : Prop :=
  (pool k₀).owner f = some t ∨ ¬ Pool.InUse t (pool k₀)

/-- The file `file'` is the file `file`, at another position or in another phase of a call. -/
def SameFile (file file' : File) : Prop := ∃ pos phase, file' = { file with pos, phase }

/-- From `k₀` to `k` a call on the file `f` has changed no other file, and no struct in use but its
own. -/
structure Frame (f : FileId) (k₀ k : Driver) : Prop where
  files : ∀ g ≠ f, k.files g = k₀.files g
  own : ∀ file file', k₀.files f = some file → k.files f = some file' → SameFile file file'
  trans : ∀ t, ¬ Mine f k₀ t → k.link.trans t = k₀.link.trans t
  chnl : k.link.chnl = k₀.link.chnl

lemma Frame.refl (f : FileId) (k : Driver) : Frame f k k := by
  refine ⟨fun _ _ => rfl, fun file file' hf hf' => ⟨file.pos, file.phase, ?_⟩, fun _ _ => rfl, rfl⟩
  exact Option.some.inj (hf'.symm.trans hf)

lemma mine_of_file (hf : k₀.files f = some file) : Mine f k₀ file.privateData := .inl (owner_pool hf)

lemma mine_of_taken {mem : Bool} {l : Link} (ha : k₀.link.allocTrans mem = some (t, l)) :
    Mine f k₀ t := by
  obtain ⟨q, hq, -⟩ := take_pool (Link.allocTrans_spec ha)
  exact .inr (Pool.not_inUse_of_take hq)

section Frames

variable (h : Frame f k₀ k)
include h

lemma Frame.congr (hl : k'.link = k.link) (hf : k'.files = k.files) : Frame f k₀ k' := by
  refine ⟨fun g hg => ?_, fun file file' h₀ hf' => ?_, fun t ht => ?_, ?_⟩
  · rw [hf]
    exact h.files g hg
  · rw [hf] at hf'
    exact h.own file file' h₀ hf'
  · rw [hl]
    exact h.trans t ht
  · rw [hl]
    exact h.chnl

lemma Frame.returns (r : Result) : Frame f k₀ (k.returns f r) := h.congr rfl rfl

lemma Frame.setFile {new : Option File}
    (hn : ∀ file file', k₀.files f = some file → new = some file' → SameFile file file') :
    Frame f k₀ (k.setFile f new) := by
  refine ⟨fun g hg => ?_, fun file file' h₀ hf' => hn file file' h₀ ?_, h.trans, h.chnl⟩
  · exact (Function.update_of_ne hg ..).trans (h.files g hg)
  · exact (setFile_files_self new).symm.trans hf'

lemma Frame.setSame (hf : k₀.files f = some file) (hn : SameFile file file') :
    Frame f k₀ (k.setFile f (some file')) := by
  refine h.setFile fun file₁ file₂ h₁ h₂ => ?_
  obtain rfl := Option.some.inj (hf.symm.trans h₁)
  obtain rfl := Option.some.inj h₂
  exact hn

lemma Frame.setPhase (hf : k₀.files f = some file) (phase : Phase) :
    Frame f k₀ (k.setPhase f file phase) :=
  h.setSame hf ⟨file.pos, phase, rfl⟩

lemma Frame.seek (hf : k₀.files f = some file) (own : Option ℤ) (pos : ℤ) :
    Frame f k₀ (k.seek f file own pos) := by
  cases own with
  | none => exact h.setSame hf ⟨pos, file.phase, rfl⟩
  | some _ => exact h

lemma Frame.closed (ret : Int32) : Frame f k₀ (k.closed f ret) := by
  apply Frame.returns
  exact h.setFile fun _ _ _ hn => by cases hn

lemma Frame.update (ht : Mine f k₀ t) (htrans : ∀ u ≠ t, k'.link.trans u = k.link.trans u)
    (hf : k'.files = k.files) (hc : k'.link.chnl = k.link.chnl) : Frame f k₀ k' := by
  refine ⟨fun g hg => ?_, fun file file' h₀ hf' => ?_, fun u hu => ?_, hc.trans h.chnl⟩
  · rw [hf]
    exact h.files g hg
  · rw [hf] at hf'
    exact h.own file file' h₀ hf'
  · have hut : u ≠ t := by
      rintro rfl
      exact hu ht
    exact (htrans u hut).trans (h.trans u hu)

lemma Frame.modifyTrans (ht : Mine f k₀ file.privateData) (m : Transaction → Transaction) :
    Frame f k₀ (k.modifyTrans file m) :=
  h.update ht (fun _ hu => Link.modify_trans_of_ne _ hu) rfl rfl

lemma Frame.returnTrans (ht : Mine f k₀ file.privateData) : Frame f k₀ (k.returnTrans file) :=
  h.update ht (fun _ hu => Link.returnTrans_trans_of_ne hu) rfl rfl

lemma Frame.openedWith (hf : k₀.files f = some file) (s : List UInt8) :
    Frame f k₀ (k.openedWith f file s) := by
  apply Frame.returns
  exact (h.modifyTrans (mine_of_file hf) _).setPhase hf _

lemma Frame.openedForWriting (ht : Mine f k₀ file.privateData) :
    Frame f k₀ (k.openedForWriting f file) := by
  unfold Driver.openedForWriting
  split
  · exact (h.modifyTrans ht _).returns _
  · exact h.returns _

lemma Frame.alloc {mem : Bool} {l : Link} (ha : k₀.link.allocTrans mem = some (t, l))
    (hl : k.link = k₀.link) : Frame f k₀ { k with link := l } := by
  have hal := Link.allocTrans_spec ha
  refine h.update (mine_of_taken ha) (fun u hu => ?_) rfl ?_
  · rw [hl]
    exact hal.trans_of_ne u hu
  · rw [hl]
    exact hal.chnl

lemma Frame.accessVar (kstrtol : List UInt8 → Int32 × Int32) (ht : Mine f k₀ file.privateData)
    (info : VarAccessInfo) (send : Int32) : Frame f k₀ (k.accessVar kstrtol file info send).2 := by
  cases hc : k.link.chnl with
  | false =>
    rw [accessVar_gone kstrtol file info send hc]
    exact h
  | true =>
    unfold Driver.accessVar
    by_cases hr : (k.link.prepare kstrtol info.index info.type file.privateData).1 = 0
    · rw [Link.accessVar_of_eq hc hr, Link.rpmsgSend_eq]
      exact h.update ht (fun u hu => Function.update_of_ne hu ..) rfl rfl
    · rw [Link.accessVar_of_ne hc hr]
      exact h.update ht (fun _ _ => rfl) rfl rfl

end Frames

/-! ### Every call -/

section Calls

variable {send : Int32}

theorem openVar_frame {info : VarAccessInfo} {fModeRead fModeWrite nonblock mem : Bool}
    (hf : k.files f = none)
    (hs : k.debugfsOpenVar kstrtol f info fModeRead fModeWrite nonblock mem send = some k') :
    Frame f k k' := by
  unfold Driver.debugfsOpenVar at hs
  obtain ⟨⟨t, l⟩, ha, hs⟩ := Option.bind_eq_some_iff.1 hs
  dsimp only at hs
  generalize hfile : (⟨.var info, fModeRead, fModeWrite, nonblock, 0, t, .ready⟩ : File) = file at hs
  have ht : Mine f k file.privateData := hfile ▸ mine_of_taken ha
  have hopen : Frame f k ({ k with link := l }.setFile f (some file)) :=
    ((Frame.refl f k).alloc ha rfl).setFile fun _ _ h₀ _ => by cases hf.symm.trans h₀
  split at hs
  · have hacc := (hopen.modifyTrans ht fun x => { x with rnw := true, wq := true }).accessVar
      kstrtol ht info send
    split at hs
    · obtain rfl := Option.some.inj hs
      exact hacc.returns _
    · obtain rfl := Option.some.inj hs
      exact hacc.openedForWriting ht
  · obtain rfl := Option.some.inj hs
    exact hopen.openedForWriting ht

theorem readVar_frame {len uncopied : ℕ} {own : Option ℤ} {intr : Bool} (hf : k.files f = some file)
    (hs : k.debugfsReadVar f file len own intr uncopied = some k') : Frame f k k' := by
  have h := Frame.refl f k
  unfold Driver.debugfsReadVar at hs
  dsimp only at hs
  split at hs
  · split at hs
    · obtain rfl := Option.some.inj hs
      exact h.returns _
    · obtain ⟨-, hs⟩ := Option.ite_none_right_eq_some.1 hs
      obtain rfl := Option.some.inj hs
      exact h.returns _
  · split at hs
    · obtain rfl := Option.some.inj hs
      exact (h.modifyTrans (mine_of_file hf) _).returns _
    · obtain rfl := Option.some.inj hs
      exact (h.seek hf _ _).returns _

theorem writeVar_frame (data : List UInt8) (own : Option ℤ) (uncopied : ℕ)
    (hf : k.files f = some file) : Frame f k (k.debugfsWriteVar f file data own uncopied) := by
  have hm := mine_of_file hf
  have hdirty := (Frame.refl f k).modifyTrans hm fun x => { x with dirty := true }
  exact ((hdirty.modifyTrans hm _).seek hf _ _).returns _

theorem releaseVar_frame (hc : k.link.chnl = true) (hf : k.files f = some file)
    (hs : k.debugfsReleaseVar kstrtol f file send = some k') : Frame f k k' := by
  have hm := mine_of_file hf
  rcases debugfsReleaseVar_cases hc hs with ⟨-, req, ret, -, rfl⟩ | ⟨-, i, -, rfl⟩
  · have h : Frame f k { k with link := { k.link with accessReq := req } } :=
      (Frame.refl f k).update hm (fun _ _ => rfl) rfl rfl
    exact (h.returnTrans hm).closed ret
  · have h : Frame f k (writeBack kstrtol ⟨i, .val⟩ send file k) :=
      ((Frame.refl f k).modifyTrans hm _).accessVar kstrtol hm ⟨i, .val⟩ send
    split
    · exact h.setPhase hf _
    · exact (h.returnTrans hm).closed send

theorem releaseVarWoken_frame {intr : Bool} (hf : k.files f = some file)
    (hs : k.debugfsReleaseVarWoken f file intr = some k') : Frame f k k' := by
  have h := Frame.refl f k
  unfold Driver.debugfsReleaseVarWoken at hs
  split at hs
  · obtain ⟨-, hs⟩ := Option.ite_none_right_eq_some.1 hs
    obtain rfl := Option.some.inj hs
    exact h.closed _
  · split at hs
    · obtain rfl := Option.some.inj hs
      exact h.closed _
    · obtain rfl := Option.some.inj hs
      exact (h.returnTrans (mine_of_file hf)).closed 0

theorem openLl_frame {fModeRead fModeWrite nonblock mem : Bool} (hf : k.files f = none)
    (hs : k.debugfsOpenLl f fModeRead fModeWrite nonblock mem = some k') : Frame f k k' := by
  unfold Driver.debugfsOpenLl at hs
  obtain ⟨⟨t, l⟩, ha, hs⟩ := Option.bind_eq_some_iff.1 hs
  dsimp only at hs
  generalize hfile : (⟨.loadList, fModeRead, fModeWrite, nonblock, 0, t, .load⟩ : File) = file at hs
  have ht : Mine f k file.privateData := hfile ▸ mine_of_taken ha
  have hnew : ∀ (file₁ file₂ : File) (new : Option File), k.files f = some file₁ → new = some file₂ →
      SameFile file₁ file₂ := fun _ _ _ h₁ _ => by cases hf.symm.trans h₁
  have hopen : Frame f k ({ k with link := l }.setFile f (some file)) :=
    ((Frame.refl f k).alloc ha rfl).setFile fun file₁ file₂ => hnew file₁ file₂ _
  split at hs
  · obtain rfl := Option.some.inj hs
    apply Frame.returns
    exact (hopen.modifyTrans ht _).setFile fun file₁ file₂ => hnew file₁ file₂ _
  · obtain rfl := Option.some.inj hs
    exact hopen

theorem openLlCount_frame {mem : Bool} (hc : k.link.chnl = true) (hf : k.files f = some file)
    (hs : k.debugfsOpenLlCount f file mem send = some k') : Frame f k k' := by
  unfold Driver.debugfsOpenLlCount at hs
  obtain ⟨⟨ret, l⟩, hg, hs⟩ := Option.bind_eq_some_iff.1 hs
  obtain ⟨-, t, l₁, ha, -, -, -, hchnl, -, -, -, -, hne⟩ := Link.getNVars_spec hc hg
  have h : Frame f k { k with link := l } :=
    (Frame.refl f k).update (mine_of_taken ha) hne rfl hchnl
  dsimp only at hs
  split at hs
  · obtain rfl := Option.some.inj hs
    exact h.openedWith hf _
  · obtain rfl := Option.some.inj hs
    exact h.setPhase hf _

theorem openLlCounted_frame {intr : Bool} {mem dirMem : Kind → Bool} (hf : k.files f = some file)
    (hs : k.debugfsOpenLlCounted f file intr mem dirMem = some k') : Frame f k k' := by
  have h := Frame.refl f k
  obtain ⟨hl₁, hf₁⟩ := allocMem_keeps mem Kind.all k
  obtain ⟨hl₂, hf₂⟩ := createDirs_keeps dirMem Kind.all (k.allocMem mem Kind.all).2
  have h₁ := h.congr hl₁ hf₁
  have h₂ := h₁.congr hl₂ hf₂
  unfold Driver.debugfsOpenLlCounted at hs
  split at hs
  · obtain ⟨-, hs⟩ := Option.ite_none_right_eq_some.1 hs
    obtain rfl := Option.some.inj hs
    exact h.openedWith hf _
  · dsimp only at hs
    split at hs
    · obtain rfl := Option.some.inj hs
      exact h.openedWith hf _
    · split at hs
      · obtain rfl := Option.some.inj hs
        exact h₁.openedWith hf _
      · split at hs
        · obtain rfl := Option.some.inj hs
          exact h₂.openedWith hf _
        · obtain rfl := Option.some.inj hs
          exact h₂.setPhase hf _

theorem openLlQuery_frame {i n : ℕ} (hc : k.link.chnl = true) (hf : k.files f = some file)
    (hs : k.debugfsOpenLlQuery kstrtol f file i n send = some k') : Frame f k k' := by
  have hm := mine_of_file hf
  rcases debugfsOpenLlQuery_cases hc hs with ⟨-, rfl⟩ | ⟨-, k₁, hl, hfs, rfl⟩
  · exact (Frame.refl f k).openedWith hf _
  · have h : Frame f k (queryName kstrtol i send file k₁) :=
      (((Frame.refl f k).congr hl hfs).modifyTrans hm forName).accessVar kstrtol hm _ send
    exact h.setPhase hf _

theorem openLlNamed_frame {i n : ℕ} {intr : Bool} {mem : Kind → Bool} (hf : k.files f = some file)
    (hs : k.debugfsOpenLlNamed f file i n intr mem = some k') : Frame f k k' := by
  have h := Frame.refl f k
  unfold Driver.debugfsOpenLlNamed at hs
  split at hs
  · obtain ⟨-, hs⟩ := Option.ite_none_right_eq_some.1 hs
    obtain rfl := Option.some.inj hs
    exact h.openedWith hf _
  · obtain ⟨k₁, hk₁, hs⟩ := Option.bind_eq_some_iff.1 hs
    obtain ⟨hl, hfs⟩ := foldlM_keeps (createFile_keeps _ i mem) hk₁
    obtain rfl := Option.some.inj hs
    exact (h.congr hl hfs).setPhase hf _

def caller : Event → Option FileId
  | .openVar f .. => some f
  | .read f .. => some f
  | .write f .. => some f
  | .release f _ => some f
  | .releaseWoken f _ => some f
  | .openLl f .. => some f
  | .llCount f .. => some f
  | .llCounted f .. => some f
  | .llQuery f _ => some f
  | .llNamed f .. => some f
  | .reply _ => none

/-- **A call** touches its file and its struct alone. -/
theorem call_frame {e : Event} (hc : k.link.chnl = true) (he : caller e = some f)
    (hs : step kstrtol k e = some k') : Frame f k k' := by
  replace hs := leads_of_step hs
  cases hs with
  | openVar hf hs =>
    obtain rfl := Option.some.inj he
    exact openVar_frame hf hs
  | openLl hf hs =>
    obtain rfl := Option.some.inj he
    exact openLl_frame hf hs
  | reply => cases he
  | read file hf hready hread hs =>
    obtain rfl := Option.some.inj he
    exact readVar_frame hf hs
  | write file hf hready hwrite hs =>
    obtain rfl := Option.some.inj he
    subst hs
    exact writeVar_frame _ _ _ hf
  | release file hf hready hs =>
    obtain rfl := Option.some.inj he
    exact releaseVar_frame hc hf hs
  | releaseWoken file hf hclosing hs =>
    obtain rfl := Option.some.inj he
    exact releaseVarWoken_frame hf hs
  | llCount file hf hload hs =>
    obtain rfl := Option.some.inj he
    exact openLlCount_frame hc hf hs
  | llCounted file hf hcount hs =>
    obtain rfl := Option.some.inj he
    exact openLlCounted_frame hf hs
  | llQuery file i n hf hquery hs =>
    obtain rfl := Option.some.inj he
    exact openLlQuery_frame hc hf hs
  | llNamed file i n hf hname hs =>
    obtain rfl := Option.some.inj he
    exact openLlNamed_frame hf hs

end Calls

/-! ### The struct of an open file -/

/-- The struct that a message replies to. -/
def replied (l : Link) (data : List UInt8) : Option (CfgMsg × Ptr) := do
  let response ← CfgMsg.received data
  let t ← l.pendingList.find? fun t => (l.trans t).msgSeqNr = response.seq
  some (response, t)

lemma rpmsgCb_eq (l : Link) (data : List UInt8) :
    l.rpmsgCb data = match replied l data with
      | some (response, t) => l.settle response t
      | none => l := by
  unfold Link.rpmsgCb replied
  cases CfgMsg.received data with
  | none => rfl
  | some response =>
    dsimp only [Option.bind_eq_bind, Option.bind_some]
    cases l.pendingList.find? fun t => (l.trans t).msgSeqNr = response.seq with
    | none => rfl
    | some t =>
      simp only [Option.bind_some, Link.settle, Link.modify]
      split <;> rfl

/-- The struct of the open variable file `f` after an event. -/
def after (k : Driver) (f : FileId) (file : File) : Event → Transaction
  | .read g _ _ _ _ =>
    if g = f ∧ (k.transOf file).valid = true ∧ (k.transOf file).err > 0 then
      { k.transOf file with err := -(k.transOf file).err }
    else k.transOf file
  | .write g data own uncopied =>
    if g = f then
      { k.transOf file with
        dirty := true
        buf := (simpleWriteToBuffer (k.transOf file).buf (own.getD file.pos) data uncopied).2.2 }
    else k.transOf file
  | .reply data =>
    match replied k.link data with
    | some (response, t) =>
      if t = file.privateData then Link.complete response (k.transOf file) else k.transOf file
    | none => k.transOf file
  | _ => k.transOf file

lemma after_of_caller {e : Event} (he : caller e = some g) (hg : f ≠ g) :
    after k f file e = k.transOf file := by
  cases e with
  | read =>
    obtain rfl := Option.some.inj he
    exact if_neg fun h => hg h.1.symm
  | write =>
    obtain rfl := Option.some.inj he
    exact if_neg fun h => hg h.symm
  | reply => cases he
  | _ => rfl

lemma after_reply (data : List UInt8) :
    (k.link.rpmsgCb data).trans file.privateData = after k f file (.reply data) := by
  rw [rpmsgCb_eq]
  cases hr : replied k.link data with
  | none =>
    simp only [after, hr]
    rfl
  | some r =>
    simp only [after, hr, Link.settle]
    by_cases ht : r.2 = file.privateData
    · rw [if_pos ht, ← ht, Function.update_self, ht]
      rfl
    · rw [if_neg ht, Function.update_of_ne (fun e => ht e.symm)]
      rfl

/-- The struct of a file that has just been opened. -/
structure Opened (file : File) (x : Transaction) : Prop where
  buf : x.buf = .zero _
  err : x.err = 0
  kind : x.rnw = file.fModeRead ∧ x.valid = (!file.fModeRead && file.fModeWrite) ∨
    file.fModeRead = true ∧ file.fModeWrite = true ∧ x.rnw = false ∧ x.valid = true

/-! ### What a call does to its own file -/

lemma returns_modifyTrans_transOf (r : Result) (m : Transaction → Transaction) :
    ((k.modifyTrans file m).returns f r).transOf file = m (k.transOf file) :=
  modifyTrans_trans_self m

lemma openedForWriting_transOf (k : Driver) (f : FileId) (file : File) :
    (k.openedForWriting f file).transOf file =
      if file.fModeWrite then { k.transOf file with rnw := false, valid := true }
      else k.transOf file := by
  unfold Driver.openedForWriting
  cases file.fModeWrite with
  | false => rfl
  | true =>
    rw [if_pos rfl, if_pos rfl]
    exact returns_modifyTrans_transOf _ _

lemma accessVar_transOf (kstrtol : List UInt8 → Int32 × Int32) (file : File) (info : VarAccessInfo)
    (send : Int32) (hc : k.link.chnl = true) :
    ∃ n, (k.accessVar kstrtol file info send).2.transOf file =
      { k.transOf file with msgSeqNr := n } :=
  Link.accessVar_trans kstrtol info.index info.type hc file.privateData send file.privateData

/-- **A file is opened** with an empty text. -/
theorem openVar_opened {info : VarAccessInfo} {fModeRead fModeWrite nonblock mem : Bool} {send : Int32}
    (hc : k.link.chnl = true)
    (hs : k.debugfsOpenVar kstrtol f info fModeRead fModeWrite nonblock mem send = some k') :
    ∃ file, k'.files f = some file ∧ file.phase = .ready ∧ Opened file (k'.transOf file) := by
  unfold Driver.debugfsOpenVar at hs
  obtain ⟨⟨t, l⟩, ha, hs⟩ := Option.bind_eq_some_iff.1 hs
  have hal := Link.allocTrans_spec ha
  dsimp only at hs
  generalize hfile : (⟨.var info, fModeRead, fModeWrite, nonblock, 0, t, .ready⟩ : File) = file at hs
  generalize hk : Driver.setFile f (some file) { k with link := l } = k₁ at hs
  have hr : file.fModeRead = fModeRead := hfile ▸ rfl
  have hf₁ : k₁.files f = some file := hk ▸ setFile_files_self _
  have hx₁ : k₁.transOf file = .zero := by
    rw [← hk, ← hfile]
    exact hal.trans_self
  refine ⟨file, ?_⟩
  split at hs
  · rename_i hread
    have hread' : file.fModeRead = true := hr.trans hread
    generalize hk₂ : k₁.modifyTrans file (fun x => { x with rnw := true, wq := true }) = k₂ at hs
    have hx₂ : k₂.transOf file = { Transaction.zero with rnw := true, wq := true } := by
      rw [← hk₂, ← hx₁]
      exact modifyTrans_trans_self _
    have hc₂ : k₂.link.chnl = true := by
      rw [← hk₂, ← hk]
      exact hal.chnl.trans hc
    obtain ⟨n, hn⟩ := accessVar_transOf kstrtol file info send hc₂
    rw [hx₂] at hn
    have hf₂ : (k₂.accessVar kstrtol file info send).2.files f = some file := hk₂ ▸ hf₁
    generalize k₂.accessVar kstrtol file info send = r at hs hn hf₂
    split at hs
    · obtain rfl := Option.some.inj hs
      have hx : (r.2.returns f (.opened r.1)).transOf file = _ := hn
      refine ⟨hf₂, hfile ▸ rfl, ?_⟩
      rw [hx]
      exact ⟨rfl, rfl, .inl ⟨hread'.symm, by rw [hread']; rfl⟩⟩
    · obtain rfl := Option.some.inj hs
      refine ⟨(congrFun openedForWriting_files f).trans hf₂, hfile ▸ rfl, ?_⟩
      rw [openedForWriting_transOf, hn]
      cases hwrite : file.fModeWrite with
      | false => exact ⟨rfl, rfl, .inl ⟨hread'.symm, by rw [hread']; rfl⟩⟩
      | true => exact ⟨rfl, rfl, .inr ⟨hread', hwrite, rfl, rfl⟩⟩
  · rename_i hread
    have hread' : file.fModeRead = false := hr.trans (Bool.eq_false_of_not_eq_true hread)
    obtain rfl := Option.some.inj hs
    refine ⟨(congrFun openedForWriting_files f).trans hf₁, hfile ▸ rfl, ?_⟩
    rw [openedForWriting_transOf, hx₁]
    cases hwrite : file.fModeWrite with
    | false => exact ⟨rfl, rfl, .inl ⟨hread'.symm, by rw [hread', hwrite]; rfl⟩⟩
    | true => exact ⟨rfl, rfl, .inl ⟨hread'.symm, by rw [hread', hwrite]; rfl⟩⟩

lemma readVar_after {len uncopied : ℕ} {own : Option ℤ} {intr : Bool} (hf : k.files f = some file)
    (hs : k.debugfsReadVar f file len own intr uncopied = some k') :
    (∃ pos, k'.files f = some { file with pos }) ∧
      k'.transOf file = after k f file (.read f len own intr uncopied) := by
  unfold Driver.debugfsReadVar at hs
  simp only [after, true_and]
  dsimp only at hs
  split at hs
  · rename_i hv
    have hv : (k.transOf file).valid = false := by simpa using hv
    rw [if_neg fun h => by rw [hv] at h; exact Bool.false_ne_true h.1]
    split at hs
    · obtain rfl := Option.some.inj hs
      exact ⟨⟨file.pos, hf⟩, rfl⟩
    · obtain ⟨-, hs⟩ := Option.ite_none_right_eq_some.1 hs
      obtain rfl := Option.some.inj hs
      exact ⟨⟨file.pos, hf⟩, rfl⟩
  · rename_i hv
    have hv : (k.transOf file).valid = true := by simpa using hv
    split at hs
    · obtain rfl := Option.some.inj hs
      refine ⟨⟨file.pos, hf⟩, (returns_modifyTrans_transOf _ _).trans ?_⟩
      by_cases hpos : (k.transOf file).err > 0
      · simp only [hpos, hv, and_self, if_true]
      · simp only [hpos, and_false, if_false]
    · rename_i herr
      have herr : (k.transOf file).err = 0 := not_not.1 herr
      obtain rfl := Option.some.inj hs
      rw [if_neg fun h => by rw [herr] at h; exact absurd h.2 (by decide)]
      refine ⟨?_, ?_⟩
      · exact seek_files hf own _
      · cases own <;> rfl

lemma releaseVar_files {send : Int32} (hc : k.link.chnl = true)
    (hs : k.debugfsReleaseVar kstrtol f file send = some k') :
    k'.files f = none ∨ k'.files f = some { file with phase := .closing } := by
  rcases debugfsReleaseVar_cases hc hs with ⟨-, req, ret, -, rfl⟩ | ⟨-, i, -, rfl⟩
  · exact .inl (closed_files_self ret)
  · split
    · exact .inr (setPhase_files_self _)
    · exact .inl (closed_files_self send)

lemma releaseVarWoken_files {intr : Bool} (hs : k.debugfsReleaseVarWoken f file intr = some k') :
    k'.files f = none := by
  unfold Driver.debugfsReleaseVarWoken at hs
  split at hs
  · obtain ⟨-, hs⟩ := Option.ite_none_right_eq_some.1 hs
    obtain rfl := Option.some.inj hs
    exact closed_files_self _
  · split at hs
    · obtain rfl := Option.some.inj hs
      exact closed_files_self _
    · obtain rfl := Option.some.inj hs
      exact closed_files_self _

lemma openLl_files {fModeRead fModeWrite nonblock mem : Bool}
    (hs : k.debugfsOpenLl f fModeRead fModeWrite nonblock mem = some k') :
    ∃ file, k'.files f = some file ∧ file.inode = .loadList := by
  unfold Driver.debugfsOpenLl at hs
  obtain ⟨⟨t, l⟩, -, hs⟩ := Option.bind_eq_some_iff.1 hs
  dsimp only at hs
  split at hs
  · obtain rfl := Option.some.inj hs
    exact ⟨_, openedWith_files_self _, rfl⟩
  · obtain rfl := Option.some.inj hs
    exact ⟨_, setFile_files_self _, rfl⟩

/-! ### Every step -/

/-- What holds in every state of a run, whatever happens to the structs: the channel is there, no struct
is unused while a file has it, and only `load_list` has the phases of its open. -/
structure Steady (k : Driver) : Prop where
  chnl : k.link.chnl = true
  structs : (pool k).idle.Sound
  phases : ∀ f file info, k.files f = some file → file.inode = .var info →
    file.phase = .ready ∨ file.phase = .closing

section Steps

variable {e : Event} {info : VarAccessInfo} (h : Steady k)
include h

lemma Steady.not_mine (hg : k.files g = some file) (hne : g ≠ f) : ¬ Mine f k file.privateData := by
  have hown : (pool k).idle.owner g = some file.privateData := owner_pool hg
  rintro (hf | hu)
  · exact hne (h.structs.owner_inj hown hf)
  · exact hu ⟨h.structs.owner_lt hown, h.structs.owner_not_unused hown⟩

/-- **A call on a variable file** opens it, starts to close it, or changes its struct as `after` says. -/
theorem own_step (hs : step kstrtol k e = some k') (he : caller e = some f)
    (hf' : k'.files f = some file') (hi : file'.inode = .var info) :
    file'.phase = .closing ∨
      (k.files f = none ∧ file'.phase = .ready ∧ Opened file' (k'.transOf file')) ∨
      ∃ file, k.files f = some file ∧ file.phase = .ready ∧ file'.phase = .ready ∧
        k'.transOf file' = after k f file e := by
  have hframe := call_frame h.chnl he hs
  -- a file that `debugfs_open_ll` works on is no variable file
  have hload : ∀ file, k.files f = some file → file.phase ≠ .ready → file.phase ≠ .closing → False := by
    intro file hf hr hc
    obtain ⟨pos, phase, rfl⟩ := hframe.own file file' hf hf'
    exact (h.phases f file info hf hi).elim hr hc
  replace hs := leads_of_step hs
  cases hs with
  | openVar hf hs =>
    obtain rfl := Option.some.inj he
    obtain ⟨file, hfile, hready, hopen⟩ := openVar_opened h.chnl hs
    obtain rfl := Option.some.inj (hf'.symm.trans hfile)
    exact .inr (.inl ⟨hf, hready, hopen⟩)
  | openLl hf hs =>
    obtain rfl := Option.some.inj he
    obtain ⟨file, hfile, hinode⟩ := openLl_files hs
    obtain rfl := Option.some.inj (hf'.symm.trans hfile)
    cases hi.symm.trans hinode
  | reply => cases he
  | read file hf hready hread hs =>
    obtain rfl := Option.some.inj he
    obtain ⟨⟨pos, hpos⟩, hx⟩ := readVar_after hf hs
    obtain rfl := Option.some.inj (hf'.symm.trans hpos)
    exact .inr (.inr ⟨file, hf, hready, hready, hx⟩)
  | write file hf hready hwrite hs =>
    obtain rfl := Option.some.inj he
    subst hs
    obtain ⟨-, ⟨pos, hpos⟩, hx⟩ := writeVar_link _ _ _ hf
    obtain rfl := Option.some.inj (hf'.symm.trans hpos)
    exact .inr (.inr ⟨file, hf, hready, hready, hx.trans (if_pos rfl).symm⟩)
  | release file hf hready hs =>
    obtain rfl := Option.some.inj he
    rcases releaseVar_files h.chnl hs with hn | hc
    · cases hf'.symm.trans hn
    · obtain rfl := Option.some.inj (hf'.symm.trans hc)
      exact .inl rfl
  | releaseWoken file hf hclosing hs =>
    obtain rfl := Option.some.inj he
    cases hf'.symm.trans (releaseVarWoken_files hs)
  | llCount file hf hphase hs =>
    obtain rfl := Option.some.inj he
    exact (hload file hf (by rw [hphase]; nofun) (by rw [hphase]; nofun)).elim
  | llCounted file hf hphase hs =>
    obtain rfl := Option.some.inj he
    exact (hload file hf (by rw [hphase]; nofun) (by rw [hphase]; nofun)).elim
  | llQuery file i n hf hphase hs =>
    obtain rfl := Option.some.inj he
    exact (hload file hf (by rw [hphase]; nofun) (by rw [hphase]; nofun)).elim
  | llNamed file i n hf hphase hs =>
    obtain rfl := Option.some.inj he
    exact (hload file hf (by rw [hphase]; nofun) (by rw [hphase]; nofun)).elim

/-- **An open variable file in a step**: it has been opened by it, or was open before, and its struct has
changed as `after` says. -/
theorem ready_step (hs : step kstrtol k e = some k') (hf' : k'.files f = some file')
    (hi : file'.inode = .var info) (hr : file'.phase = .ready) :
    (k.files f = none ∧ Opened file' (k'.transOf file')) ∨
      ∃ file, k.files f = some file ∧ file.phase = .ready ∧ SameFile file file' ∧
        k'.transOf file' = after k f file e := by
  cases he : caller e with
  | none =>
    cases e with
    | reply data =>
      obtain rfl := Option.some.inj hs
      exact .inr ⟨file', hf', hr, ⟨file'.pos, file'.phase, rfl⟩, after_reply data⟩
    | _ => cases he
  | some g =>
    have hframe := call_frame h.chnl he hs
    by_cases hg : f = g
    · subst hg
      rcases own_step h hs he hf' hi with hc | ⟨hf, -, ho⟩ | ⟨file, hf, hready, -, hx⟩
      · cases hr.symm.trans hc
      · exact .inl ⟨hf, ho⟩
      · exact .inr ⟨file, hf, hready, hframe.own file file' hf hf', hx⟩
    · have hf : k.files f = some file' := (hframe.files f hg).symm.trans hf'
      refine .inr ⟨file', hf, hr, ⟨file'.pos, file'.phase, rfl⟩, ?_⟩
      rw [after_of_caller he hg]
      exact hframe.trans _ (h.not_mine hf hg)

theorem steady_step (hs : step kstrtol k e = some k') : Steady k' := by
  have hpool : (pool k').idle.Sound := (h.structs.idle_step ?_).1
  · cases he : caller e with
    | none =>
      cases e with
      | reply data =>
        obtain rfl := Option.some.inj hs
        exact ⟨(reply_hands k data).1.chnl.trans h.chnl, hpool, h.phases⟩
      | _ => cases he
    | some g =>
      have hframe := call_frame h.chnl he hs
      refine ⟨hframe.chnl.trans h.chnl, hpool, fun f file' info hf' hi => ?_⟩
      by_cases hg : f = g
      · subst hg
        rcases own_step h hs he hf' hi with hc | ⟨-, hr, -⟩ | ⟨-, -, -, hr, -⟩
        · exact .inr hc
        · exact .inl hr
        · exact .inl hr
      · exact h.phases f file' info ((hframe.files f hg).symm.trans hf') hi
  · have hands := (step_hands h.chnl hs).1
    split at hands
    · exact .inr hands
    · exact .inl hands

end Steps

lemma steady_probed : Steady .probed := by
  refine ⟨rfl, ?_, fun f file info hf => absurd hf Driver.not_files_probed⟩
  exact (inv_probed : Inv True .probed).sane.sound.idle

end CfgMgmt.Kernel.OpenFiles
