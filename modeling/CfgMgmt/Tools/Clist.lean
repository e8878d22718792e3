import Mathlib.Data.PNat.Notation
import CfgMgmt.Lib.Bytes

/-!
# The files that `clist` reads (`clist.c`)

`read_fd` reads a file to its end, or until the buffer is full, however `read` splits its content, and
removes a newline at the end of what it has read.  It looks for the newline in front of the buffer when
it has read nothing (`correct_iff`).
-/

namespace CfgMgmt.Tools.Clist

open CfgMgmt.Lib.Bytes

/-! ### Buffers and files -/

section Buffers

variable {n : ℕ}

/-- The byte of a buffer at an index, `none` outside of it. -/
def loadChecked (b : Buf n) (i : ℤ) : Option UInt8 := if 0 ≤ i then b.bytes[i.toNat]? else none

/-- Store bytes in a buffer from an index on, `none` outside of it. -/
def storeChecked (b : Buf n) (i : ℤ) (src : List UInt8) : Option (Buf n) :=
  if h : 0 ≤ i ∧ i.toNat + src.length ≤ n then some (b.write i.toNat src h.2) else none

end Buffers

/-- An open file with a content.  In a round, at a position, `read` fails or returns the bytes that are
next, as many as it likes, but none only when none are wanted or none are left. -/
structure OpenFile (content : List UInt8) where
  read : ℕ → ℕ → ℕ → Option (List UInt8)
  isPrefix : ∀ {round pos count data}, read round pos count = some data →
    data <+: (content.drop pos).take count
  ends : ∀ {round pos count}, read round pos count = some [] → count = 0 ∨ content.length ≤ pos

variable {content : List UInt8} {n size round bytes : ℕ}

lemma OpenFile.length_le (file : OpenFile content) {pos count : ℕ} {data : List UInt8}
    (h : file.read round pos count = some data) : data.length ≤ count :=
  (file.isPrefix h).length_le.trans (List.length_take_le ..)

lemma ends_whole {pos count : ℕ} (h : some ((content.drop pos).take count) = some []) :
    count = 0 ∨ content.length ≤ pos := by
  rcases List.take_eq_nil_iff.1 (Option.some.inj h) with h | h
  · exact .inl h
  · exact .inr (List.drop_eq_nil_iff.1 h)

lemma isPrefix_whole {pos count : ℕ} {data : List UInt8}
    (h : some ((content.drop pos).take count) = some data) : data <+: (content.drop pos).take count :=
  Option.some.inj h ▸ List.prefix_refl _

/-- A file of which every call of `read` returns as much as it can. -/
def OpenFile.whole (content : List UInt8) : OpenFile content where
  read _ pos count := some ((content.drop pos).take count)
  isPrefix := isPrefix_whole
  ends := ends_whole

/-! ### The functions -/

abbrev maxNumericLen : ℕ := 12

abbrev maxDescLen : ℕ := 200

/-- The loop of `read_fd`, which has room for `size` bytes: how many it has read when it is through, or
`none` when `read` fails. -/
def readLoop (file : OpenFile content) (size round bytes : ℕ) (buf : Buf n) :
    Option (Option ℕ × Buf n) :=
  match _hread : file.read round bytes (size - bytes) with
  | none => some (none, buf)
  | some data =>
    if _hne : data = [] then
      some (some bytes, buf)
    else
      match storeChecked buf bytes data with
      | none => none
      | some buf => readLoop file size (round + 1) (bytes + data.length) buf
termination_by size - bytes
decreasing_by
  have hle := file.length_le _hread
  have hpos := List.length_pos_iff.2 _hne
  omega

/-- The end of `read_fd`: a newline at the end is removed, and the text terminated. -/
def terminate (buf : Buf n) (bytes : ℕ) : Option (Buf n) := do
  let last ← loadChecked buf (bytes - 1)
  let buf ← if last = 10 then storeChecked buf (bytes - 1) [0] else some buf
  storeChecked buf bytes [0]

def readFd (file : OpenFile content) (buf : Buf n) : Option (ℤ × Buf n) := do
  let (bytes, buf) ← readLoop file (n - 1) 0 0 buf
  match bytes with
  | none => some (-1, buf)
  | some bytes =>
    let buf ← terminate buf bytes
    some (bytes, buf)

/-- `load_file`, which opens the file itself, or fails with an `errno`. -/
def loadFile (opened : Except ℕ+ (OpenFile content)) (buf : Buf n) : Option (ℤ × Buf n) :=
  match opened with
  | .error errno => some (-errno, buf)
  | .ok file => readFd file buf

def withoutNewline (s : List UInt8) : List UInt8 := if s.getLast? = some 10 then s.dropLast else s

/-- The function has returned, and has left the start of the content in the buffer, unless a call of
`read` has failed. -/
structure Loaded (file : OpenFile content) (run : Option (ℤ × Buf n)) : Prop where
  returns : ∃ ret buf, run = some (ret, buf)
  fails : ∀ ret buf, run = some (ret, buf) → ret < 0 → ∃ round pos, file.read round pos (n - 1 - pos) = none
  text : ∀ ret buf, run = some (ret, buf) → 0 ≤ ret →
    withoutNewline (content.take (n - 1)) ++ [0] <+: buf.bytes

/-! ### The loop -/

section Loop

variable {file : OpenFile content} {buf : Buf n}

lemma storeChecked_of_le {src : List UInt8} {i : ℕ} (h : i + src.length ≤ n) :
    storeChecked buf i src = some (buf.write i src h) :=
  dif_pos ⟨Int.natCast_nonneg i, h⟩

lemma read_write_append {data : List UInt8} (hbuf : buf.read bytes = content.take bytes)
    (hb : bytes ≤ n) (hdata : data <+: content.drop bytes) (hfit : bytes + data.length ≤ n) :
    (buf.write bytes data hfit).read (bytes + data.length) = content.take (bytes + data.length) := by
  have htake : (buf.bytes.take bytes).length = bytes := by
    rw [List.length_take, buf.size]
    omega
  obtain ⟨rest, hrest⟩ := hdata
  have hdata : data = (content.drop bytes).take data.length := by
    rw [← hrest, List.take_left']
    rfl
  have hread : (buf.write bytes data hfit).read (bytes + data.length) = buf.read bytes ++ data := by
    unfold Buf.read Buf.write
    rw [List.take_append_of_le_length (by rw [List.length_append, htake]), List.take_of_length_le]
    rw [List.length_append, htake]
  rw [hread, hbuf, List.take_add, ← hdata]

/-- **The loop** ends with the first bytes of the content in the buffer, unless a call of `read` fails. -/
theorem readLoop_spec (hb : bytes ≤ size) (hs : size ≤ n) (hl : bytes ≤ content.length)
    (hbuf : buf.read bytes = content.take bytes) :
    ∃ r buf', readLoop file size round bytes buf = some (r, buf') ∧
      (r = none → ∃ round pos, file.read round pos (size - pos) = none) ∧
      ∀ b, r = some b → b = min content.length size ∧ buf'.read b = content.take b := by
  induction hm : size - bytes using Nat.strong_induction_on generalizing round bytes buf with
  | _ m ih =>
    rw [readLoop]
    split
    · rename_i hread
      exact ⟨none, buf, rfl, fun _ => ⟨round, bytes, hread⟩, nofun⟩
    · rename_i data hread
      have hle := file.length_le hread
      split
      · -- the end of the file, or the buffer is full
        rename_i hd
        subst hd
        refine ⟨some bytes, buf, rfl, nofun, ?_⟩
        rintro b ⟨⟩
        refine ⟨?_, hbuf⟩
        rcases file.ends hread with h | h <;> omega
      · rename_i hd
        have hpos := List.length_pos_iff.2 hd
        have hdata := (file.isPrefix hread).trans (List.take_prefix _ _)
        have hlen := hdata.length_le
        rw [List.length_drop] at hlen
        rw [storeChecked_of_le (by omega)]
        exact ih (size - (bytes + data.length)) (by omega) (by omega) (by omega)
          (read_write_append hbuf (by omega) hdata (by omega)) rfl

end Loop

/-! ### The end of the text -/

section Terminate

variable {buf : Buf n} {pre suf : List UInt8} {c : UInt8}

lemma loadChecked_of_append (h : buf.bytes = pre ++ c :: suf) :
    loadChecked buf pre.length = some c := by
  unfold loadChecked
  rw [if_pos (Int.natCast_nonneg _), h, Int.toNat_natCast, List.getElem?_append_right (Nat.le_refl _),
    Nat.sub_self]
  rfl

lemma storeChecked_of_append (h : buf.bytes = pre ++ c :: suf) (x : UInt8) :
    ∃ buf', storeChecked buf pre.length [x] = some buf' ∧ buf'.bytes = pre ++ x :: suf := by
  have hlen : pre.length + [x].length ≤ n := by
    have hsize := buf.size
    rw [h, List.length_append, List.length_cons] at hsize
    rw [List.length_singleton]
    omega
  refine ⟨_, storeChecked_of_le hlen, ?_⟩
  show buf.bytes.take pre.length ++ [x] ++ buf.bytes.drop (pre.length + 1) = _
  rw [h, List.take_left' rfl, List.drop_append, List.drop_of_length_le (Nat.le_succ _), Nat.add_sub_cancel_left]
  simp

/-- **A text that is not empty** loses its newline, and is terminated. -/
theorem terminate_spec {s : List UInt8} (hs : buf.read s.length = s) (h0 : s ≠ []) (hn : s.length < n) :
    ∃ buf', terminate buf s.length = some buf' ∧ withoutNewline s ++ [0] <+: buf'.bytes := by
  obtain ⟨x, rest, hrest⟩ : ∃ x rest, buf.bytes.drop s.length = x :: rest := by
    apply List.exists_cons_of_length_pos
    rw [List.length_drop, buf.size]
    omega
  obtain ⟨t, c, rfl⟩ : ∃ t c, s = t ++ [c] := ⟨_, _, (List.dropLast_concat_getLast h0).symm⟩
  have hlen : (t ++ [c]).length = t.length + 1 := List.length_append
  have hbytes : buf.bytes = t ++ c :: x :: rest := by
    have happ := (List.take_append_drop (t ++ [c]).length buf.bytes).symm
    rw [hrest] at happ
    unfold Buf.read at hs
    rw [hs] at happ
    simpa using happ
  have hlast : withoutNewline (t ++ [c]) = if c = 10 then t else t ++ [c] := by
    simp [withoutNewline]
  have hpred : ((t ++ [c]).length : ℤ) - 1 = t.length := by
    rw [hlen]
    omega
  unfold terminate
  rw [hpred, loadChecked_of_append hbytes, Option.bind_eq_bind, Option.bind_some, hlast]
  by_cases hc : c = 10
  · obtain ⟨buf₁, hstore, hbuf₁⟩ := storeChecked_of_append hbytes 0
    have hbytes₁ : buf₁.bytes = (t ++ [0]) ++ x :: rest := by simpa using hbuf₁
    obtain ⟨buf₂, hstore₂, hbuf₂⟩ := storeChecked_of_append hbytes₁ 0
    have hlen' : (t ++ [c]).length = (t ++ [0]).length := by simp
    rw [if_pos hc, if_pos hc, hstore, Option.bind_eq_bind, Option.bind_some, hlen']
    refine ⟨buf₂, hstore₂, ?_⟩
    rw [hbuf₂, List.append_assoc]
    exact List.prefix_append_right_inj _ |>.2 (List.prefix_append ..)
  · have hbytes₁ : buf.bytes = (t ++ [c]) ++ x :: rest := by simpa using hbytes
    obtain ⟨buf₂, hstore₂, hbuf₂⟩ := storeChecked_of_append hbytes₁ 0
    rw [if_neg hc, if_neg hc, Option.bind_eq_bind, Option.bind_some]
    refine ⟨buf₂, hstore₂, ?_⟩
    rw [hbuf₂]
    exact List.prefix_append_right_inj _ |>.2 (List.prefix_append ..)

end Terminate

/-! ### Both functions -/

section Functions

variable {file : OpenFile content} {buf : Buf n}

/-- Nothing was read: the byte in front of the buffer is looked at. -/
lemma readFd_of_nil (h : file.read 0 0 (n - 1) = some []) : readFd file buf = none := by
  have hloop : readLoop file (n - 1) 0 0 buf = some (some 0, buf) := by
    rw [readLoop]
    split
    · rename_i hread
      cases h.symm.trans hread
    · rename_i data hread
      obtain rfl := Option.some.inj (h.symm.trans hread)
      rfl
  unfold readFd
  rw [hloop]
  rfl

lemma readFd_of_none (h : file.read 0 0 (n - 1) = none) : readFd file buf = some (-1, buf) := by
  have hloop : readLoop file (n - 1) 0 0 buf = some (none, buf) := by
    rw [readLoop]
    split
    · rfl
    · rename_i data hread
      cases h.symm.trans hread
  unfold readFd
  rw [hloop]
  rfl

/-- The first call of `read` fails, or there is something to read and room for it. -/
def Readable (file : OpenFile content) (n : ℕ) : Prop :=
  file.read 0 0 (n - 1) = none ∨ content ≠ [] ∧ 1 < n

lemma loaded_of_failed (h : ∃ round pos, file.read round pos (n - 1 - pos) = none) :
    Loaded file (some (-1, buf)) := by
  refine ⟨⟨-1, buf, rfl⟩, ?_, ?_⟩
  · rintro _ _ ⟨⟩ -
    exact h
  · rintro _ _ ⟨⟩ h0
    omega

lemma loaded_of_room (hne : content ≠ []) (h1 : 1 < n) : Loaded file (readFd file buf) := by
  obtain ⟨r, buf', hloop, hfail, hdone⟩ :
      ∃ r buf', readLoop file (n - 1) 0 0 buf = some (r, buf') ∧ _ :=
    readLoop_spec (Nat.zero_le _) (Nat.sub_le _ _) (Nat.zero_le _) rfl
  cases r with
  | none =>
    have hrun : readFd file buf = some (-1, buf') := by
      unfold readFd
      rw [hloop]
      rfl
    rw [hrun]
    exact loaded_of_failed (hfail rfl)
  | some b =>
    obtain ⟨hb, hread⟩ := hdone b rfl
    have hlen : (content.take (n - 1)).length = b := by
      rw [List.length_take, hb, min_comm]
    have htake : buf'.read (content.take (n - 1)).length = content.take (n - 1) := by
      rw [hlen, hread, List.take_eq_take_iff]
      omega
    have hne' : content.take (n - 1) ≠ [] := by
      rw [ne_eq, List.take_eq_nil_iff, not_or]
      exact ⟨by omega, hne⟩
    obtain ⟨buf₂, hterm, hprefix⟩ := terminate_spec htake hne' (by omega)
    have hrun : readFd file buf = some ((b : ℤ), buf₂) := by
      unfold readFd
      rw [hloop]
      show (terminate buf' b >>= fun buf => some ((b : ℤ), buf)) = _
      rw [← hlen, hterm]
      rfl
    rw [hrun]
    refine ⟨⟨b, buf₂, rfl⟩, ?_, ?_⟩
    · rintro _ _ ⟨⟩ hneg
      omega
    · rintro _ _ ⟨⟩ -
      exact hprefix

theorem readFd_loaded_iff (hn : 0 < n) : Loaded file (readFd file buf) ↔ Readable file n := by
  constructor
  · intro h
    by_contra hcon
    rw [Readable, not_or, not_and_or, not_ne_iff] at hcon
    obtain ⟨hread, hnil⟩ := hcon
    obtain ⟨data, hdata⟩ := Option.ne_none_iff_exists'.1 hread
    have hlen := (file.isPrefix hdata).length_le
    have hempty : data = [] := by
      rw [← List.length_eq_zero_iff]
      rw [List.length_take, List.drop_zero] at hlen
      rcases hnil with rfl | h1
      · exact Nat.le_zero.1 (hlen.trans (min_le_right _ _))
      · omega
    subst hempty
    obtain ⟨ret, buf', hrun⟩ := h.returns
    cases (readFd_of_nil hdata).symm.trans hrun
  · rintro (hnone | ⟨hne, h1⟩)
    · rw [readFd_of_none hnone]
      exact loaded_of_failed ⟨0, 0, hnone⟩
    · exact loaded_of_room hne h1

/-- **`read_fd` and `load_file` are correct if and only if** the first call of `read` fails, or the file is
not empty and the buffer has room for a byte and its end. -/
theorem correct_iff (hn : 0 < n) (file : OpenFile content) (buf : Buf n) (errno : ℕ+) :
    (Loaded file (readFd file buf) ↔ Readable file n) ∧
    (Loaded file (loadFile (.ok file) buf) ↔ Readable file n) ∧
    ∃ ret < 0, @loadFile content n (.error errno) buf = some (ret, buf) :=
  ⟨readFd_loaded_iff hn, readFd_loaded_iff hn, -errno, by simp, rfl⟩

/-- A value is loaded. -/
theorem correct_value : Loaded (.whole [53, 10]) (readFd (.whole [53, 10]) (Buf.zero maxNumericLen)) :=
  (correct_iff (by decide) (.whole [53, 10]) (Buf.zero maxNumericLen) 1).1.2 (.inr (by decide))

/-- An empty description is not loaded, nor is anything into a buffer of one byte. -/
theorem empty_not_correct :
    ¬ Loaded (.whole []) (readFd (.whole []) (Buf.zero maxDescLen)) ∧
    ¬ Loaded (.whole []) (loadFile (.ok (.whole [])) (Buf.zero maxDescLen)) ∧
    ¬ Loaded (.whole [53, 10]) (readFd (.whole [53, 10]) (Buf.zero 1)) := by
  refine ⟨fun h => ?_, fun h => ?_, fun h => ?_⟩
  all_goals
    obtain ⟨ret, buf, hrun⟩ := h.returns
    cases (readFd_of_nil rfl).symm.trans hrun

end Functions

end CfgMgmt.Tools.Clist
