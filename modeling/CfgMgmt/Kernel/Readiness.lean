import CfgMgmt.Kernel.Completion
import CfgMgmt.Kernel.Kstrtol
import CfgMgmt.Kernel.OpenFiles

/-!
# What `poll` reports

`debugfs_poll` tells from the flags `valid` and `rnw` of the struct what can be done with a variable file
at once; a read decides by `valid` alone, and a write never waits.  The two agree for a file that is
open in one direction, and never for a file that is open in both (`agree_iff`).
-/

namespace CfgMgmt.Kernel.Readiness

open CfgMgmt.Lib.Bytes CfgMgmt.Lib.Machine CfgMgmt.Msg CfgMgmt.Kernel.Linux
open CfgMgmt.Kernel.RpmsgLink CfgMgmt.Kernel.Files CfgMgmt.Kernel.Completion
open CfgMgmt.Kernel.OpenFiles

/-! ### Two views of a file -/

def pollin : UInt32 := 0x001
def pollout : UInt32 := 0x004
def pollrdnorm : UInt32 := 0x040
def pollwrnorm : UInt32 := 0x100

def debugfsPoll (k : Driver) (file : File) : UInt32 :=
  let mask := 0
  if (k.transOf file).valid then
    if (k.transOf file).rnw then
      mask ||| (pollin ||| pollrdnorm)
    else
      mask ||| (pollout ||| pollwrnorm)
  else
    mask

/-- What `debugfs_read_var` returns for the file with `O_NONBLOCK`. -/
def nonblockingRead (k : Driver) (f : FileId) (file : File) (len : ℕ) (own : Option ℤ) (uncopied : ℕ) :
    Option Result :=
  (k.debugfsReadVar f { file with nonblock := true } len own false uncopied).bind fun k' =>
    k'.log.getLast?.map Prod.snd

/-- `debugfs_poll` says what a read and a write of the file would do. -/
structure Agree (k : Driver) (f : FileId) (file : File) : Prop where
  input : debugfsPoll k file &&& pollin ≠ 0 ↔ file.fModeRead = true ∧ ∀ len own uncopied,
    nonblockingRead k f file len own uncopied ≠ some (.read (.error (-eagain)))
  output : debugfsPoll k file &&& pollout ≠ 0 ↔ file.fModeWrite = true

variable {kstrtol : List UInt8 → Int32 × Int32} {k : Driver} {f : FileId} {file : File}
  {x : Transaction}

lemma poll_in : debugfsPoll k file &&& pollin ≠ 0 ↔
    (k.transOf file).valid = true ∧ (k.transOf file).rnw = true := by
  unfold debugfsPoll
  cases (k.transOf file).valid <;> cases (k.transOf file).rnw <;> decide

lemma poll_out : debugfsPoll k file &&& pollout ≠ 0 ↔
    (k.transOf file).valid = true ∧ (k.transOf file).rnw = false := by
  unfold debugfsPoll
  cases (k.transOf file).valid <;> cases (k.transOf file).rnw <;> decide

/-! ### The flags of an open file -/

/-- What the open mode says about the struct of a file. -/
structure Flags (file : File) (x : Transaction) : Prop where
  err : x.err ≠ eagain ∧ x.err ≠ -eagain
  reads : file.fModeRead = true → file.fModeWrite = false → x.rnw = true
  noReads : file.fModeRead = false → x.rnw = false
  writes : file.fModeRead = false → file.fModeWrite = true → x.valid = true
  both : x.rnw = false → file.fModeRead = true → x.valid = true

/-- The flags are those of a struct with the same error that is valid if `x` is. -/
lemma Flags.congr {y : Transaction} (h : Flags file x) (he : y.err ≠ eagain ∧ y.err ≠ -eagain)
    (hr : y.rnw = x.rnw) (hv : x.valid = true → y.valid = true) : Flags file y := by
  refine ⟨he, ?_, ?_, ?_, ?_⟩
  · rw [hr]
    exact h.reads
  · rw [hr]
    exact h.noReads
  · intro hread hwrite
    exact hv (h.writes hread hwrite)
  · intro hrnw hread
    exact hv (h.both (hr ▸ hrnw) hread)

lemma flags_of_opened (h : Opened file x) : Flags file x := by
  have herr : x.err ≠ eagain ∧ x.err ≠ -eagain := by
    rw [h.err]
    decide
  rcases h.kind with ⟨hr, hv⟩ | ⟨hread, hwrite, hr, hv⟩
  · refine ⟨herr, fun hread _ => hr.trans hread, hr.trans, fun hread hwrite => ?_, fun hrnw hread => ?_⟩
    · rw [hv, hread, hwrite]
      rfl
    · cases hread.symm.trans (hr.symm.trans hrnw)
  · refine ⟨herr, fun _ hw => ?_, fun _ => hr, fun _ _ => hv, fun _ _ => hv⟩
    cases hwrite.symm.trans hw

/-- The error of a reply is none of the error numbers that stand for "later". -/
lemma replyErr_ne (response : CfgMsg) :
    replyErr response ≠ eagain ∧ replyErr response ≠ -eagain := by
  unfold replyErr
  split
  · decide
  split
  · split <;> decide
  split
  · rename_i h
    rcases h with h | h <;> rw [h] <;> decide
  · decide

lemma complete_err (response : CfgMsg) (h : x.err ≠ eagain ∧ x.err ≠ -eagain) :
    (Link.complete response x).err ≠ eagain ∧ (Link.complete response x).err ≠ -eagain := by
  by_cases h0 : response.type = resOk
  · simp only [Link.complete, h0, if_true]
    decide
  by_cases h1 : response.type = resNVars
  · have herr : (Link.complete response x).err = x.err := by
      simp [Link.complete, h1, resNVars, resOk]
    rw [herr]
    exact h
  · rw [complete_eq h0 h1]
    exact replyErr_ne response

lemma Flags.complete (response : CfgMsg) (h : Flags file x) :
    Flags file (Link.complete response x) :=
  h.congr (complete_err response h.err) (Link.complete_rnw response x)
    fun _ => Link.complete_valid response x

/-- Whatever happens next, the flags of an open file stay as the open mode says. -/
lemma Flags.after (h : Flags file (k.transOf file)) (e : Event) :
    Flags file (OpenFiles.after k f file e) := by
  cases e with
  | read g =>
    simp only [OpenFiles.after]
    split
    · refine h.congr ⟨fun e => h.err.2 ?_, fun e => h.err.1 ?_⟩ rfl id
      · exact Int32.neg_neg.symm.trans (congrArg (-·) e)
      · exact Int32.neg_inj.1 e
    · exact h
  | write g =>
    simp only [OpenFiles.after]
    split
    · exact h.congr h.err rfl id
    · exact h
  | reply data =>
    simp only [OpenFiles.after]
    split
    · split
      · exact h.complete _
      · exact h
    · exact h
  | _ => exact h

/-- The flags of all open variable files are those of their open modes. -/
structure Inv (k : Driver) : Prop where
  steady : Steady k
  flags : ∀ f file info, k.files f = some file → file.inode = .var info → file.phase = .ready →
    Flags file (k.transOf file)

theorem inv_step (k : Driver) (e : Event) (k' : Driver) (h : Inv k)
    (hs : step kstrtol k e = some k') : Inv k' := by
  refine ⟨steady_step h.steady hs, fun f file' info hf' hi hr => ?_⟩
  rcases ready_step h.steady hs hf' hi hr with ⟨-, ho⟩ | ⟨file, hf, hready, ⟨pos, phase, rfl⟩, hx⟩
  · exact flags_of_opened ho
  · have hflags := (h.flags f file info hf hi hready).after (f := f) e
    rw [hx]
    exact ⟨hflags.err, hflags.reads, hflags.noReads, hflags.writes, hflags.both⟩

lemma inv_probed : Inv .probed := ⟨steady_probed, fun _ _ _ hf => absurd hf Driver.not_files_probed⟩

/-! ### Where the two views meet -/

lemma simpleReadFromBuffer_ne_again (count : ℕ) (ppos : ℤ) (src : List UInt8) (available uncopied : ℕ) :
    (simpleReadFromBuffer count ppos src available uncopied).1 ≠ .error (-eagain) := by
  unfold simpleReadFromBuffer
  dsimp only
  split_ifs
  all_goals
    intro h
    cases h

/-- A read with `O_NONBLOCK` is to come later exactly while the struct is not valid. -/
lemma again_iff (h : Flags file (k.transOf file)) (len : ℕ) (own : Option ℤ) (uncopied : ℕ) :
    nonblockingRead k f file len own uncopied = some (.read (.error (-eagain))) ↔
      (k.transOf file).valid = false := by
  have hx : k.transOf { file with nonblock := true } = k.transOf file := rfl
  unfold nonblockingRead Driver.debugfsReadVar
  simp only [hx]
  cases hv : (k.transOf file).valid with
  | false => simp [Driver.returns]
  | true =>
    by_cases he : (k.transOf file).err = 0
    · have hne := simpleReadFromBuffer_ne_again len (own.getD file.pos) (k.transOf file).buf.bytes
        (k.transOf file).len.toUInt32.toNat uncopied
      simpa [hv, he, Driver.returns] using hne
    · -- the error is that of the struct, made negative
      obtain ⟨h₁, h₂⟩ := h.err
      by_cases hpos : (k.transOf file).err > 0
      · simpa [hv, he, hpos, Driver.returns] using h₁
      · simpa [hv, he, hpos, Driver.returns] using h₂

/-- The two views by the flags: the file is readable when the struct is valid, and always writable. -/
lemma agree_iff_flags (h : Flags file (k.transOf file)) : Agree k f file ↔
    ((k.transOf file).valid = true ∧ (k.transOf file).rnw = true ↔
      file.fModeRead = true ∧ (k.transOf file).valid = true) ∧
    ((k.transOf file).valid = true ∧ (k.transOf file).rnw = false ↔ file.fModeWrite = true) := by
  have hread : (∀ len own uncopied,
      nonblockingRead k f file len own uncopied ≠ some (.read (.error (-eagain)))) ↔
      (k.transOf file).valid = true := by
    simp only [ne_eq, again_iff h, forall_const, Bool.not_eq_false]
  rw [← poll_in, ← poll_out, ← hread]
  exact ⟨fun h => ⟨h.input, h.output⟩, fun h => ⟨h.1, h.2⟩⟩

lemma flags_of_run {es : List Event} {info : VarAccessInfo}
    (hr : run (step kstrtol) .probed es = some k) (hf : k.files f = some file)
    (hi : file.inode = .var info) (hready : file.phase = .ready) : Flags file (k.transOf file) :=
  (run_invariant inv_step inv_probed hr).flags f file info hf hi hready

/-- **`poll` agrees with `read` and `write` if and only if** the file is open in one direction, or in none
and nothing has made its struct valid. -/
theorem agree_iff (kstrtol : List UInt8 → Int32 × Int32) (es : List Event) {info : VarAccessInfo}
    (hr : run (step kstrtol) .probed es = some k) (hf : k.files f = some file)
    (hi : file.inode = .var info) (hready : file.phase = .ready) :
    Agree k f file ↔ ¬ (file.fModeRead = true ∧ file.fModeWrite = true) ∧
      (file.fModeRead = true ∨ file.fModeWrite = true ∨ (k.transOf file).valid = false) := by
  have h := flags_of_run hr hf hi hready
  rw [agree_iff_flags h]
  cases hread : file.fModeRead with
  | false =>
    have hrnw := h.noReads hread
    cases hwrite : file.fModeWrite with
    | false => simp [hrnw]
    | true => simp [hrnw, h.writes hread hwrite]
  | true =>
    cases hwrite : file.fModeWrite with
    | false => simp [h.reads hread hwrite]
    | true =>
      -- the query was sent, and the file is never writable, or it was not, and it is never readable
      cases hrnw : (k.transOf file).rnw with
      | false => simp [h.both hrnw hread]
      | true => simp

/-- Open the file of a variable. -/
def opening (fModeRead fModeWrite : Bool) : List Event :=
  [.openVar 0 ⟨0, .val⟩ fModeRead fModeWrite true true 0]

/-- The file is open for reading, and its value has not come yet. -/
theorem agree_reading : ∃ k file, run (step Kstrtol.kstrtol) .probed (opening true false) = some k ∧
    k.files 0 = some file ∧ Agree k 0 file :=
  ⟨_, _, rfl, rfl, (agree_iff Kstrtol.kstrtol (opening true false) rfl rfl rfl rfl).2
    ⟨fun h => (nomatch h.2), .inl rfl⟩⟩

/-- A file that is open for reading and writing is not reported as writable. -/
theorem both_not_agree :
    ∃ k file, run (step Kstrtol.kstrtol) .probed (opening true true) = some k ∧
      k.files 0 = some file ∧ file.inode = .var ⟨0, .val⟩ ∧ file.phase = .ready ∧
      ¬ Agree k 0 file := by
  refine ⟨_, _, rfl, rfl, rfl, rfl, fun h => ?_⟩
  exact Bool.false_ne_true (poll_out.1 (h.output.2 rfl)).1

end CfgMgmt.Kernel.Readiness
