import CfgMgmt.Kernel.Completion
import CfgMgmt.Kernel.Kstrtol
import CfgMgmt.Kernel.OpenFiles
import CfgMgmt.Lib.Machine

/-!
# The end of the text that is parsed on close

`debugfs_write_var` lets a client write to all of the `IO_BUF_SIZE` bytes of the buffer, the last one
included.  On close the text in the buffer is parsed; it ends inside of the buffer exactly if there is a
position that was not written since the file was opened, or was given a 0 last (`endsInside_iff`).
-/

namespace CfgMgmt.Kernel.Terminated

open CfgMgmt.Lib.Bytes CfgMgmt.Lib.Machine CfgMgmt.Msg CfgMgmt.Kernel.Linux
open CfgMgmt.Kernel.RpmsgLink CfgMgmt.Kernel.Files CfgMgmt.Kernel.Completion
open CfgMgmt.Kernel.OpenFiles

/-! ### The record of the stores -/

/-- What an event stores in the buffer of the open variable file `f`: the bytes of a write, or the text
of a reply with its 0. -/
def storesOf (k : Driver) (f : FileId) (file : File) : Event → List Store
  | .write g data own uncopied =>
    if g = f ∧ 0 ≤ own.getD file.pos then
      [⟨(own.getD file.pos).toNat,
        copyFromUser (data.take (ioBufSize - (own.getD file.pos).toNat)) uncopied⟩]
    else []
  | .reply data =>
    match replied k.link data with
    | some (response, t) =>
      if t = file.privateData ∧ response.type ≠ resOk ∧ response.type ≠ resNVars then
        [⟨0, replyText response ++ [0]⟩]
      else []
    | none => []
  | _ => []

/-- The module, and what was stored in the buffer of each file since it was opened. -/
structure Watched where
  k : Driver
  stores : FileId → List Store

def Watched.start : Watched := ⟨.probed, fun _ => []⟩

section

variable (kstrtol : List UInt8 → Int32 × Int32)

def watch (s : Watched) (e : Event) : Option Watched :=
  (step kstrtol s.k e).map fun k => ⟨k, fun f =>
    match s.k.files f with
    | some file => s.stores f ++ storesOf s.k f file e
    | none => []⟩

/-- What a run has stored in the buffer of the file `f` since the file was opened. -/
def stored (es : List Event) (f : FileId) : List Store :=
  match run (watch kstrtol) .start es with
  | some s => s.stores f
  | none => []

/-- The struct as `debugfs_release_var` hands it to `access_var`. -/
def handed (k : Driver) (file : File) : Transaction :=
  { k.transOf file with wq := true, valid := false }

/-- The text that is parsed on close ends inside of the buffer. -/
structure EndsInside (k : Driver) (file : File) : Prop where
  zero : 0 ∈ (handed k file).buf.bytes
  text : Link.text (handed k file) = cstr (handed k file).buf.bytes

lemma endsInside_of_mem {k : Driver} {file : File} (h : 0 ∈ (k.transOf file).buf.bytes) :
    EndsInside k file :=
  ⟨h, cstr_append_of_mem h _⟩

/-! ### One step -/

variable {kstrtol} {k : Driver} {f : FileId} {file : File} {stores : List Store}

lemma holds_write (h : (k.transOf file).buf.Holds stores) (data : List UInt8) (own : Option ℤ)
    (uncopied : ℕ) :
    (simpleWriteToBuffer (k.transOf file).buf (own.getD file.pos) data uncopied).2.2.Holds
      (stores ++ storesOf k f file (.write f data own uncopied)) := by
  simp only [storesOf, true_and]
  generalize own.getD file.pos = pos
  unfold simpleWriteToBuffer
  by_cases hneg : pos < 0
  · rw [if_pos hneg, if_neg (by omega), List.append_nil]
    exact h
  · rw [if_neg hneg, if_pos (by omega)]
    split
    · -- the bytes are stored, whether they could be read or not
      rename_i hin
      have hfit : pos.toNat + (copyFromUser (data.take (ioBufSize - pos.toNat)) uncopied).length ≤
          ioBufSize := by
        rw [length_copyFromUser, List.length_take]
        omega
      dsimp only
      split
      · exact h.write hfit
      · exact h.write hfit
    · rename_i hout
      have hnone : copyFromUser (data.take (ioBufSize - pos.toNat)) uncopied = [] := by
        rw [← List.length_eq_zero_iff, length_copyFromUser, List.length_take]
        omega
      rw [hnone]
      exact h.nothing _

lemma holds_reply (h : (k.transOf file).buf.Holds stores) (data : List UInt8) :
    (after k f file (.reply data)).buf.Holds (stores ++ storesOf k f file (.reply data)) := by
  cases hr : replied k.link data with
  | none => simpa only [after, storesOf, hr, List.append_nil] using h
  | some r =>
    obtain ⟨response, t⟩ := r
    simp only [after, storesOf, hr]
    by_cases ht : t = file.privateData
    · rw [if_pos ht]
      by_cases hok : response.type = resOk
      · have hbuf : (Link.complete response (k.transOf file)).buf = (k.transOf file).buf := by
          simp [Link.complete, hok]
        rw [if_neg fun h => h.2.1 hok, hbuf, List.append_nil]
        exact h
      by_cases hn : response.type = resNVars
      · have hbuf : (Link.complete response (k.transOf file)).buf = (k.transOf file).buf := by
          simp [Link.complete, hn, resNVars, resOk]
        rw [if_neg fun h => h.2.2 hn, hbuf, List.append_nil]
        exact h
      rw [if_pos ⟨ht, hok, hn⟩, complete_eq hok hn]
      exact h.write (replyText_fits response)
    · rw [if_neg ht, if_neg fun h => ht h.1, List.append_nil]
      exact h

lemma holds_after (h : (k.transOf file).buf.Holds stores) (e : Event) :
    (after k f file e).buf.Holds (stores ++ storesOf k f file e) := by
  cases e with
  | write g data own uncopied =>
    by_cases hg : g = f
    · subst hg
      simp only [after, if_true]
      exact holds_write h data own uncopied
    · simpa only [after, storesOf, hg, false_and, if_false, List.append_nil] using h
  | read =>
    simp only [after, storesOf, List.append_nil]
    split <;> exact h
  | reply data => exact holds_reply h data
  | _ => simpa only [after, storesOf, List.append_nil] using h

end

/-! ### Every run -/

/-- The buffers of all open variable files hold what was stored in them. -/
structure Inv (s : Watched) : Prop where
  steady : Steady s.k
  holds : ∀ f file info, s.k.files f = some file → file.inode = .var info → file.phase = .ready →
    (s.k.transOf file).buf.Holds (s.stores f)

variable {kstrtol : List UInt8 → Int32 × Int32}

theorem inv_watch (s : Watched) (e : Event) (s' : Watched) (h : Inv s)
    (hs : watch kstrtol s e = some s') : Inv s' := by
  obtain ⟨k', hk, rfl⟩ := Option.map_eq_some_iff.1 hs
  refine ⟨steady_step h.steady hk, fun f file' info hf' hi hr => ?_⟩
  rcases ready_step h.steady hk hf' hi hr with ⟨hf, ho⟩ | ⟨file, hf, hready, ⟨pos, phase, rfl⟩, hx⟩
  · simp only [hf, ho.buf]
    exact Buf.holds_zero
  · simp only [hf, hx]
    exact holds_after (h.holds f file info hf hi hready) e

lemma inv_start : Inv .start := ⟨steady_probed, fun _ _ _ hf => absurd hf Driver.not_files_probed⟩

lemma run_watch {es : List Event} {k : Driver} (hr : run (step kstrtol) .probed es = some k) :
    ∃ s, run (watch kstrtol) .start es = some s ∧ s.k = k := by
  induction es using List.reverseRecOn generalizing k with
  | nil =>
    obtain rfl := Option.some.inj hr
    exact ⟨_, rfl, rfl⟩
  | append_singleton es e ih =>
    obtain ⟨k₁, hk₁, hs⟩ := run_concat_eq_some.1 hr
    obtain ⟨s, hrun, rfl⟩ := ih hk₁
    obtain ⟨s', hs', hk'⟩ : ∃ s', watch kstrtol s e = some s' ∧ s'.k = k := by
      unfold watch
      rw [hs]
      exact ⟨_, rfl, rfl⟩
    exact ⟨s', run_concat_eq_some.2 ⟨s, hrun, hs'⟩, hk'⟩

lemma holds_stored {es : List Event} {k : Driver} {f : FileId} {file : File} {info : VarAccessInfo}
    (hr : run (step kstrtol) .probed es = some k) (hf : k.files f = some file)
    (hi : file.inode = .var info) (hready : file.phase = .ready) :
    (k.transOf file).buf.Holds (stored kstrtol es f) := by
  obtain ⟨s, hs, rfl⟩ := run_watch hr
  have h := (run_invariant inv_watch inv_start hs).holds f file info hf hi hready
  unfold stored
  rw [hs]
  exact h

/-- **The text that is parsed on close ends inside of the buffer if and only if** a position of the buffer
was not stored to since the file was opened, or the last byte stored there was a 0. -/
theorem endsInside_iff (kstrtol : List UInt8 → Int32 × Int32) {es : List Event} {k : Driver}
    {f : FileId} {file : File} {index : Int32} (hr : run (step kstrtol) .probed es = some k)
    (hf : k.files f = some file) (hi : file.inode = .var ⟨index, .val⟩) (hready : file.phase = .ready) :
    EndsInside k file ↔ ∃ i < ioBufSize, lastByte i (stored kstrtol es f) = 0 := by
  have hmem := (holds_stored hr hf hi hready).zero_mem
  constructor
  · intro h
    exact hmem.1 h.zero
  · intro h
    exact endsInside_of_mem (hmem.2 h)

/-- Open the file of a variable for writing, and write to it. -/
def session (data : List UInt8) : List Event :=
  [.openVar 0 ⟨0, .val⟩ false true false true 0, .write 0 data none 0]

/-- After a short text the rest of the buffer is still clear. -/
theorem endsInside_short : ∃ k file, run (step Kstrtol.kstrtol) .probed (session [53, 10]) = some k ∧
    k.files 0 = some file ∧ EndsInside k file := by
  refine ⟨_, _, rfl, rfl, ?_⟩
  have hclear : lastByte 2 (stored Kstrtol.kstrtol (session [53, 10]) 0) = 0 := rfl
  exact (endsInside_iff Kstrtol.kstrtol rfl rfl rfl rfl).2 ⟨2, by decide, hclear⟩

lemma simpleWriteToBuffer_all {n : ℕ} (b : Buf n) {data : List UInt8} (hl : data.length = n) (h0 : 0 < n) :
    (simpleWriteToBuffer b 0 data 0).2.2.bytes = data := by
  have hz : (0 : ℤ).toNat = 0 := rfl
  unfold simpleWriteToBuffer
  rw [if_neg (lt_irrefl 0), dif_pos ⟨h0, hl ▸ h0⟩]
  have hbytes : (b.bytes.take 0 ++ data ++ b.bytes.drop (0 + data.length)) = data := by
    rw [List.take_zero, List.nil_append, Nat.zero_add, hl, List.drop_of_length_le b.size.le,
      List.append_nil]
  dsimp only
  rw [if_neg (by rw [List.length_take, hz]; omega)]
  simp only [Buf.write, copyFromUser_zero, hz, Nat.sub_zero, List.take_of_length_le hl.le]
  exact hbytes

/-- As many characters `1` as the buffer has bytes leave no 0 in it. -/
theorem full_not_endsInside :
    ∃ k file, run (step Kstrtol.kstrtol) .probed (session (List.replicate ioBufSize 49)) = some k ∧
      k.files 0 = some file ∧ file.inode = .var ⟨0, .val⟩ ∧ file.phase = .ready ∧
      file.fModeWrite = true ∧ ¬ EndsInside k file := by
  generalize hdata : List.replicate ioBufSize (49 : UInt8) = data
  refine ⟨_, _, rfl, rfl, rfl, rfl, rfl, fun h => ?_⟩
  have hmem : 0 ∈ (simpleWriteToBuffer (.zero ioBufSize) 0 data 0).2.2.bytes := h.zero
  rw [simpleWriteToBuffer_all _ (by rw [← hdata, List.length_replicate]) (by decide), ← hdata] at hmem
  exact absurd (List.eq_of_mem_replicate hmem) (by decide)

end CfgMgmt.Kernel.Terminated
