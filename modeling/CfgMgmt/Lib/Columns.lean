import Mathlib.Data.List.DropRight
import Mathlib.Data.List.Basic
import Mathlib.Tactic.Common

/-!
# Tables in columns

A line of a table is made of cells, each padded to the width of its column, and of a last cell that is
not padded.  The widths can be read off a line of words, and a line can be cut into its cells again
(`widthsOf_line`, `cut_line`), so a table of lines is read back from its text (`read_table`).
-/

namespace CfgMgmt.Lib.Columns

variable {α : Type*}

/-- A cell padded with `c` to a width; a longer one is left as it is. -/
def padTo (c : α) (w : ℕ) (s : List α) : List α := s ++ List.replicate (w - s.length) c

/-- A line: the cells in columns of the given widths, and the last cell. -/
def line (c : α) : List ℕ → List (List α) → List α → List α
  | w :: ws, s :: cells, last => padTo c w s ++ line c ws cells last
  | _, _, last => last

/-- The lines, each with a newline behind it. -/
def text (nl : α) (lines : List (List α)) : List α := lines.flatMap fun l => l ++ [nl]

section Reading

variable [DecidableEq α]

/-- Cut a line at the widths of its columns, without the padding. -/
def cut (c : α) : List ℕ → List α → List (List α) × List α
  | [], s => ([], s)
  | w :: ws, s =>
    let (cells, last) := cut c ws (s.drop w)
    ((s.take w).rdropWhile (· = c) :: cells, last)

/-- The widths of the first `k` columns of a line whose cells are words: a word and the padding behind it
are a column. -/
def widthsOf (c : α) : ℕ → List α → List ℕ
  | 0, _ => []
  | k + 1, s =>
    let rest := s.dropWhile (· ≠ c)
    ((s.takeWhile (· ≠ c)).length + (rest.takeWhile (· = c)).length) ::
      widthsOf c k (rest.dropWhile (· = c))

def linesOf (nl : α) (s : List α) : List (List α) := (s.splitOn nl).dropLast

/-- Read a table of `k` padded columns, whose first line is made of words. -/
def read (c nl : α) (k : ℕ) (s : List α) : List (List (List α) × List α) :=
  match linesOf nl s with
  | [] => []
  | header :: rows => rows.map (cut c (widthsOf c k header))

end Reading

variable {c nl : α} {w : ℕ} {s last : List α} {ws : List ℕ} {cells : List (List α)}

/-! ### Cutting a line -/

lemma length_padTo (h : s.length ≤ w) : (padTo c w s).length = w := by
  unfold padTo
  rw [List.length_append, List.length_replicate]
  omega

lemma mem_padTo {x : α} (h : x ∈ padTo c w s) : x ∈ s ∨ x = c :=
  (List.mem_append.1 h).imp_right List.eq_of_mem_replicate

/-- What is in a line is in one of its cells, or padding. -/
lemma mem_line {x : α} (h : x ∈ line c ws cells last) : (∃ s ∈ cells, x ∈ s) ∨ x = c ∨ x ∈ last := by
  induction ws generalizing cells with
  | nil => exact .inr (.inr h)
  | cons w ws ih =>
    cases cells with
    | nil => exact .inr (.inr h)
    | cons s cells =>
      rcases List.mem_append.1 h with h | h
      · exact (mem_padTo h).imp (fun h => ⟨s, List.mem_cons_self, h⟩) .inl
      · exact (ih h).imp_left fun ⟨t, ht, hx⟩ => ⟨t, List.mem_cons_of_mem _ ht, hx⟩

/-- A word in a line of words: it is not empty, and has no padding in it. -/
def IsWord (c : α) (s : List α) : Prop := s ≠ [] ∧ c ∉ s

/-- A line of words starts with no padding. -/
lemma head_line (hfit : List.Forall₂ (fun w s => s.length < w) ws cells)
    (hword : ∀ s ∈ last :: cells, IsWord c s) :
    ∃ x rest, line c ws cells last = x :: rest ∧ x ≠ c := by
  have hcons : ∀ s, IsWord c s → ∀ t, ∃ x rest, s ++ t = x :: rest ∧ x ≠ c := by
    rintro s ⟨hne, hc⟩ t
    cases s with
    | nil => exact absurd rfl hne
    | cons x s => exact ⟨x, s ++ t, rfl, fun h => hc (h ▸ List.mem_cons_self)⟩
  cases hfit with
  | nil =>
    have h := hcons last (hword last List.mem_cons_self) []
    rwa [List.append_nil] at h
  | @cons w s ws cells =>
    have hs := hword s (List.mem_cons_of_mem _ List.mem_cons_self)
    rw [line, padTo, List.append_assoc]
    exact hcons s hs _

section Cut

variable [DecidableEq α]

/-- The padding is dropped, unless the cell ends with it. -/
lemma rdropWhile_padTo (h : s.getLast? ≠ some c) : (padTo c w s).rdropWhile (· = c) = s := by
  have hself : s.rdropWhile (· = c) = s := by
    rw [List.rdropWhile_eq_self_iff]
    intro hne hc
    rw [List.getLast?_eq_getLast_of_ne_nil hne] at h
    exact h (congrArg some (of_decide_eq_true hc))
  unfold padTo
  induction w - s.length with
  | zero => rw [List.replicate_zero, List.append_nil, hself]
  | succ k ih =>
    rw [List.replicate_succ', ← List.append_assoc, List.rdropWhile_concat_pos _ _ _ (by simp), ih]

/-- **A line is cut into its cells**, if every cell fits into its column and none ends with padding. -/
theorem cut_line (hfit : List.Forall₂ (fun w s => s.length ≤ w) ws cells)
    (hend : ∀ s ∈ cells, s.getLast? ≠ some c) : cut c ws (line c ws cells last) = (cells, last) := by
  induction hfit with
  | nil => rfl
  | @cons w s ws cells hw _ ih =>
    have hlen := length_padTo (c := c) hw
    have htake : (padTo c w s ++ line c ws cells last).take w = padTo c w s := List.take_left' hlen
    have hdrop : (padTo c w s ++ line c ws cells last).drop w = line c ws cells last :=
      List.drop_left' hlen
    have hrest := ih fun t ht => hend t (List.mem_cons_of_mem _ ht)
    simp only [cut, line, htake, hdrop, hrest, rdropWhile_padTo (hend s List.mem_cons_self)]

/-! ### The widths of the columns -/

/-- **The widths of the columns are read off a line of words**, if every word is shorter than its
column. -/
theorem widthsOf_line (hfit : List.Forall₂ (fun w s => s.length < w) ws cells)
    (hword : ∀ s ∈ last :: cells, IsWord c s) : widthsOf c ws.length (line c ws cells last) = ws := by
  induction hfit with
  | nil => rfl
  | @cons w s ws cells hw hfit ih =>
    have hrest : ∀ t ∈ last :: cells, IsWord c t := fun t ht =>
      hword t ((List.mem_cons.1 ht).elim (fun h => h ▸ List.mem_cons_self) fun h =>
        List.mem_cons_of_mem _ (List.mem_cons_of_mem _ h))
    have hs : ∀ x ∈ s, decide (x ≠ c) = true := fun x hx =>
      decide_eq_true fun h => (hword s (List.mem_cons_of_mem _ List.mem_cons_self)).2 (h ▸ hx)
    obtain ⟨x, rest, hline, hx⟩ := head_line hfit hrest
    obtain ⟨k, hk⟩ : ∃ k, w - s.length = k + 1 := ⟨w - s.length - 1, by omega⟩
    have hpad : ∀ y ∈ List.replicate (k + 1) c, decide (y = c) = true := fun y hy =>
      decide_eq_true (List.eq_of_mem_replicate hy)
    have hall : line c (w :: ws) (s :: cells) last =
        s ++ (List.replicate (k + 1) c ++ line c ws cells last) := by
      rw [line, padTo, hk, List.append_assoc]
    have hgap : List.replicate (k + 1) c ++ line c ws cells last =
        c :: (List.replicate k c ++ line c ws cells last) := rfl
    have hword' : (line c (w :: ws) (s :: cells) last).takeWhile (· ≠ c) = s := by
      rw [hall, List.takeWhile_append_of_pos hs, hgap, List.takeWhile_cons_of_neg (by simp),
        List.append_nil]
    have hafter : (line c (w :: ws) (s :: cells) last).dropWhile (· ≠ c) =
        List.replicate (k + 1) c ++ line c ws cells last := by
      rw [hall, List.dropWhile_append_of_pos hs, hgap, List.dropWhile_cons_of_neg (by simp)]
    have hnone : (line c ws cells last).takeWhile (· = c) = [] ∧
        (line c ws cells last).dropWhile (· = c) = line c ws cells last := by
      rw [hline, List.takeWhile_cons_of_neg (by simpa using hx),
        List.dropWhile_cons_of_neg (by simpa using hx)]
      exact ⟨rfl, rfl⟩
    rw [List.length_cons, widthsOf, hword', hafter, List.takeWhile_append_of_pos hpad,
      List.dropWhile_append_of_pos hpad, hnone.1, hnone.2, List.append_nil, List.length_replicate,
      ih hrest]
    congr 1
    omega

/-! ### The lines -/

/-- **A text is read back into its lines**, if no line contains a newline. -/
theorem linesOf_text {lines : List (List α)} (h : ∀ l ∈ lines, nl ∉ l) :
    linesOf nl (text nl lines) = lines := by
  have hsplit : (text nl lines).splitOn nl = lines ++ [[]] := by
    induction lines with
    | nil => simp [text]
    | cons l lines ih =>
      have hcons : text nl (l :: lines) = l ++ nl :: text nl lines := by
        simp [text]
      rw [hcons, List.splitOn_append_cons_self_of_not_mem (h l List.mem_cons_self),
        ih fun t ht => h t (List.mem_cons_of_mem _ ht)]
      rfl
  unfold linesOf
  rw [hsplit, List.dropLast_concat]

end Cut

/-! ### Tables -/

/-- The table has a header of words, its columns are wide enough, and each of its cells can be told from
the padding and from a newline. -/
structure Readable (c nl : α) (ws : List ℕ) (header : List (List α) × List α)
    (rows : List (List (List α) × List α)) : Prop where
  header_fits : List.Forall₂ (fun w s => s.length < w) ws header.1
  header_words : ∀ s ∈ header.2 :: header.1, IsWord c s
  fits : ∀ row ∈ rows, List.Forall₂ (fun w s => s.length ≤ w) ws row.1
  ends : ∀ row ∈ rows, ∀ s ∈ row.1, s.getLast? ≠ some c
  newline : ∀ row ∈ header :: rows, ∀ s ∈ row.2 :: row.1, nl ∉ s
  ne : nl ≠ c

def table (c nl : α) (ws : List ℕ) (header : List (List α) × List α)
    (rows : List (List (List α) × List α)) : List α :=
  text nl ((header :: rows).map fun row => line c ws row.1 row.2)

/-- **A table is read back from its text.** -/
theorem read_table [DecidableEq α] {header : List (List α) × List α}
    {rows : List (List (List α) × List α)} (h : Readable c nl ws header rows) :
    read c nl ws.length (table c nl ws header rows) = rows := by
  have hlines : linesOf nl (table c nl ws header rows) =
      (header :: rows).map fun row => line c ws row.1 row.2 := by
    refine linesOf_text fun l hl hnl => ?_
    obtain ⟨row, hrow, rfl⟩ := List.mem_map.1 hl
    rcases mem_line hnl with ⟨s, hs, hx⟩ | hx | hx
    · exact h.newline row hrow s (List.mem_cons_of_mem _ hs) hx
    · exact h.ne hx
    · exact h.newline row hrow row.2 List.mem_cons_self hx
  unfold read
  rw [hlines, List.map_cons]
  dsimp only
  rw [widthsOf_line h.header_fits h.header_words, List.map_map]
  refine (List.map_congr_left fun row hrow => ?_).trans (List.map_id rows)
  exact cut_line (h.fits row hrow) (h.ends row hrow)

end CfgMgmt.Lib.Columns
