import CfgMgmt.Kernel.Linux
import CfgMgmt.Lib.Columns
import CfgMgmt.Lib.Process
import CfgMgmt.Tools.Clist

/-!
# The table of `clist` (`clist.c`)

`clist` lists the directory of the values, loads four files for each name in it, and prints a table whose
columns are as wide as their longest cell.  Its functions are programs that call the C library and the
system.  What `show` prints can be read back (`table_read_back`).
-/

namespace CfgMgmt.Tools.Show

open CfgMgmt.Lib.Bytes CfgMgmt.Lib.Columns CfgMgmt.Lib.Process CfgMgmt.Kernel.Linux
open CfgMgmt.Tools.Clist

/-! ### Calls -/

/-- What `clist` asks of the system.  `entries` is what `scandir` reads from a directory; memory is never
short. -/
inductive Call
  | entries (path : List UInt8)
  | openFile (path : List UInt8)
  | read (fd count : ℕ)
  | close (fd : ℕ)
  | write (fd : ℕ) (text : List UInt8)
  | malloc (size : ℕ)
  | exit (code : ℤ)
  /-- an access outside of a buffer, after which anything may happen -/
  | fault

/-- What a call returns: a result or an `errno`; `none` is a `read` that fails. -/
def Reply : Call → Type
  | .entries _ => Except ℕ+ (List (List UInt8))
  | .openFile _ => Except ℕ+ ℕ
  | .read _ count => Option { data : List UInt8 // data.length ≤ count }
  | .close _ => Unit
  | .write _ _ => Unit
  | .malloc size => Buf size
  | .exit _ => Empty
  | .fault => Empty

abbrev Cli (α : Type) : Type := Prog Call Reply α

section Functions

variable {α : Type} {n : ℕ}

/-- `STDOUT_FILENO` and `STDERR_FILENO`. -/
def stdout : ℕ := 1
def stderr : ℕ := 2

/-- `fputs`, `printf` and `fprintf`, of a text that is formatted already. -/
def fputs (fd : ℕ) (text : List UInt8) : Cli Unit := .call (.write fd text) .ret

def puts (text : List UInt8) : Cli Unit := fputs stdout (text ++ [10])

def malloc (size : ℕ) : Cli (Buf size) := .call (.malloc size) .ret

def close (fd : ℕ) : Cli Unit := .call (.close fd) .ret

def exit (code : ℤ) : Cli α := .call (.exit code) Empty.elim

/-- Go on unless a buffer was left. -/
def orFault : Option α → Cli α
  | some a => .ret a
  | none => .call .fault Empty.elim

/-- `snprintf` into a buffer of `size` characters. -/
def snprintf (size : ℕ) (text : List UInt8) : List UInt8 := text.take (size - 1)

/-! ### Loading the files -/

/-- The loop of `read_fd`, with its calls. -/
def readLoop (fd size bytes : ℕ) (buf : Buf n) : Cli (Option ℕ × Buf n) :=
  .call (.read fd (size - bytes)) fun reply : Option { data : List UInt8 // data.length ≤ size - bytes } =>
    match reply with
    | none => .ret (none, buf)
    | some data =>
      if _hne : data.1 = [] then
        .ret (some bytes, buf)
      else
        match storeChecked buf bytes data.1 with
        | none => .call .fault Empty.elim
        | some buf => readLoop fd size (bytes + data.1.length) buf
termination_by size - bytes
decreasing_by
  have hpos := List.length_pos_iff.2 _hne
  have hle := hpos.trans_le data.2
  omega

/-- `read_fd`, with its calls. -/
def readFd (fd : ℕ) (buf : Buf n) : Cli (ℤ × Buf n) := do
  let r ← readLoop fd (n - 1) 0 buf
  match r.1 with
  | none => .ret (-1, r.2)
  | some bytes =>
    let buf ← orFault (terminate r.2 bytes)
    .ret (bytes, buf)

/-- The size of the buffers for file names. -/
def fnBufLen : ℕ := 256

/-- What is printed into the buffer for the file of a variable. -/
def fileName (path : List UInt8) (dir : String) (name : List UInt8) : List UInt8 :=
  snprintf fnBufLen (path ++ ascii "/" ++ ascii dir ++ ascii "/" ++ name)

def openFile (path : List UInt8) (dir : String) (name : List UInt8) : Cli (Except ℕ+ ℕ) :=
  .call (.openFile (fileName path dir name)) fun reply : Except ℕ+ ℕ =>
    match reply with
    | .ok fd => .ret (.ok fd)
    | .error errno => do
      fputs stdout (ascii "load: can't open file: -1\n")
      .ret (.error errno)

/-- `load` reads a file; `what` is how the message calls it. -/
def readFile (fd : ℕ) (buf : Buf n) (what : String) : Cli (Buf n) := do
  let r ← readFd fd buf
  if r.1 < 0 then
    fputs stderr (ascii "load: can't read " ++ ascii what ++ decimal r.1 ++ [10])
    exit (-1)
  else
    .ret r.2

/-- The strings of a variable. -/
structure Row where
  name : List UInt8
  value : List UInt8
  min : List UInt8
  max : List UInt8
  desc : List UInt8
  deriving DecidableEq

/-- The part of `load` that reads the four files, and closes them. -/
def loadFiles (name : List UInt8) (fd₀ fd₁ fd₂ fd₃ : ℕ) (value minimum maximum : Buf maxNumericLen)
    (desc : Buf maxDescLen) : Cli Row := do
  let value ← readFile fd₀ value "val file "
  let minimum ← readFile fd₁ minimum "min file: "
  let maximum ← readFile fd₂ maximum "max file: "
  let desc ← readFile fd₃ desc "desc file: "
  close fd₀
  close fd₁
  close fd₂
  close fd₃
  .ret ⟨name, cstr value.bytes, cstr minimum.bytes, cstr maximum.bytes, cstr desc.bytes⟩

/-- `load`, for the names that are left: 0 and the strings, or a negative `errno`. -/
def load (path : List UInt8) : List (List UInt8) → Cli (Except ℕ+ (List Row))
  | [] => .ret (.ok [])
  | name :: rest => do
    let value ← malloc maxNumericLen
    let minimum ← malloc maxNumericLen
    let maximum ← malloc maxNumericLen
    let desc ← malloc maxDescLen
    match ← openFile path "val" name with
    | .error errno => .ret (.error errno)
    | .ok fd₀ =>
      match ← openFile path "min" name with
      | .error errno => .ret (.error errno)
      | .ok fd₁ =>
        match ← openFile path "max" name with
        | .error errno => .ret (.error errno)
        | .ok fd₂ =>
          match ← openFile path "desc" name with
          | .error errno => .ret (.error errno)
          | .ok fd₃ =>
            let row ← loadFiles name fd₀ fd₁ fd₂ fd₃ value minimum maximum desc
            match ← load path rest with
            | .error errno => .ret (.error errno)
            | .ok rows => .ret (.ok (row :: rows))

/-! ### The table -/

def putsPad (str : List UInt8) (len : ℕ) : Cli Unit := do
  fputs stdout str
  fputs stdout (List.replicate (len - str.length) 32)

/-- The longest string of a column, which is at least `start` characters long. -/
def longest (start : ℕ) (column : Row → List UInt8) (rows : List Row) : ℕ :=
  rows.foldl (fun n row => if (column row).length > n then (column row).length else n) start

/-- `nName`, `nVal`, `nMin` and `nMax`, with two spaces behind the longest string. -/
def nName (rows : List Row) : ℕ := longest 4 Row.name rows + 2
def nVal (rows : List Row) : ℕ := longest 5 Row.value rows + 2
def nMin (rows : List Row) : ℕ := longest 7 Row.min rows + 2
def nMax (rows : List Row) : ℕ := longest 7 Row.max rows + 2

/-- One line of the table. -/
def putsRow (wName wVal wMin wMax : ℕ) (row : Row) : Cli Unit := do
  putsPad row.name wName
  putsPad row.value wVal
  putsPad row.min wMin
  putsPad row.max wMax
  puts row.desc

/-- The loop that shows all variables. -/
def putsRows (wName wVal wMin wMax : ℕ) : List Row → Cli Unit
  | [] => .ret ()
  | row :: rows => do
    putsRow wName wVal wMin wMax row
    putsRows wName wVal wMin wMax rows

def header : Row :=
  ⟨ascii "Name", ascii "Value", ascii "Minimum", ascii "Maximum", ascii "Description"⟩

/-- The part of `show` that prints the table. -/
def putsTable (rows : List Row) : Cli Unit :=
  putsRows (nName rows) (nVal rows) (nMin rows) (nMax rows) (header :: rows)

def noDotFilter (name : List UInt8) : Bool := name.head? ≠ some 46

/-- `alphasort`: the order of `strcmp`. -/
def alphasort (a b : List UInt8) : Bool := a ≤ b

def scandir (path : List UInt8) : Cli (Except ℕ+ (List (List UInt8))) :=
  .call (.entries path) fun reply : Except ℕ+ (List (List UInt8)) =>
    match reply with
    | .ok names => .ret (.ok ((names.filter noDotFilter).mergeSort alphasort))
    | .error errno => .ret (.error errno)

/-- `show`, with its name in the source shadowed by a keyword here. -/
def showTable (path : List UInt8) : Cli ℤ := do
  match ← scandir (snprintf fnBufLen (path ++ ascii "/val")) with
  | .error errno =>
    fputs stdout (ascii "scandir error: " ++ decimal errno ++ [10])
    .ret (-errno)
  | .ok names =>
    if names = [] then
      fputs stdout (ascii "no variables found\n")
      .ret 0
    else
      match ← load path names with
      | .error errno =>
        fputs stdout (ascii "load returned " ++ decimal (-errno) ++ [10])
        .ret (-errno)
      | .ok rows =>
        putsTable rows
        .ret 0

/-! ### The command line -/

def dfltPath : List UInt8 := ascii "/debug/cfg_mgmt"

/-- What `getopt` returns for the option string `hd:`. -/
inductive Opt
  | d (optarg : List UInt8)
  | h
  /-- a question mark, and the character in `optopt` -/
  | unknown (optopt : UInt8)

def help : Cli Unit :=
  fputs stdout (ascii "cfg_mgmt tools - clist\n" ++
    ascii " Lists all variables, current values, limits and descriptions\n" ++ ascii " Options:\n" ++
    ascii "  -d <path>   Specify path to cfg_mgmt folder exported by the kernel module\n" ++
    ascii "              Default location: " ++ dfltPath ++ [10])

/-- The case of the question mark. -/
def badOption (optopt : UInt8) : Cli ℤ := do
  if optopt = 100 then
    fputs stderr (ascii "Option -" ++ [optopt] ++ ascii " requires an argument.\n")
  else if 32 ≤ optopt ∧ optopt ≤ 126 then
    fputs stderr (ascii "Unknown option `-" ++ [optopt] ++ ascii "'.\n")
  else
    fputs stderr (ascii "Unknown option character `\\x" ++
      (Nat.toDigits 16 optopt.toNat).map (fun c => UInt8.ofNat c.toNat) ++ ascii "'.\n")
  .ret 1

/-- The loop of `main` over the options, and `main` behind it.  The case of the letter h goes on with that
of the question mark. -/
def mainLoop (optopt : UInt8) : List Opt → List UInt8 → Cli ℤ
  | [], path => do
    let ret ← showTable path
    if ret ≠ 0 then
      fputs stdout (ascii "show returned " ++ decimal ret ++ [10])
    .ret 0
  | .d optarg :: rest, _ => mainLoop optopt rest optarg
  | .h :: _, _ => do
    help
    badOption optopt
  | .unknown c :: _, _ => badOption c

/-- `main`, where `optopt` is what the C library has in this variable before it meets a bad option. -/
def main (optopt : UInt8) (opts : List Opt) : Cli ℤ := mainLoop optopt opts dfltPath

end Functions

/-! ### What is printed -/

def Row.cells (row : Row) : List (List UInt8) × List UInt8 :=
  ([row.name, row.value, row.min, row.max], row.desc)

def widths (rows : List Row) : List ℕ := [nName rows, nVal rows, nMin rows, nMax rows]

def tableText (rows : List Row) : List UInt8 :=
  table 32 10 (widths rows) header.cells (rows.map Row.cells)

section Printing

variable {σ : Type} {env : Env σ Call Reply} {I : σ → Prop} {P : List UInt8 → σ → Prop}
  {out : List UInt8} {s : σ}

/-- `P` says what was printed to the standard output so far. -/
structure Prints (env : Env σ Call Reply) (I : σ → Prop) (P : List UInt8 → σ → Prop) : Prop where
  stable : ∀ out, Stable env (P out)
  invariant : ∀ out s, P out s → I s
  write : ∀ out s text r s', P out s → env.perform s (.write stdout text) r s' → P (out ++ text) s'

lemma Prints.fputs (h : Prints env I P) (hs : P out s) (text : List UInt8) :
    Ensures env I (fun _ => P (out ++ text)) (fputs stdout text) s := by
  refine .call (h.stable out) (h.invariant out) (fun s r s' hs hp => ?_) hs
  exact .ret (h.stable _) (h.invariant _) (fun _ hs => hs) (h.write out s text r s' hs hp)

lemma Prints.putsPad (h : Prints env I P) (hs : P out s) (str : List UInt8) (len : ℕ) :
    Ensures env I (fun _ => P (out ++ padTo 32 len str)) (putsPad str len) s := by
  refine (h.fputs hs str).bind fun _ s hs => ?_
  rw [padTo, ← List.append_assoc]
  exact h.fputs hs _

lemma Prints.putsRow (h : Prints env I P) (hs : P out s) (wName wVal wMin wMax : ℕ) (row : Row) :
    Ensures env I (fun _ => P (out ++ (line 32 [wName, wVal, wMin, wMax] row.cells.1 row.cells.2 ++ [10])))
      (putsRow wName wVal wMin wMax row) s := by
  refine (h.putsPad hs _ _).bind fun _ s hs => ?_
  refine (h.putsPad hs _ _).bind fun _ s hs => ?_
  refine (h.putsPad hs _ _).bind fun _ s hs => ?_
  refine (h.putsPad hs _ _).bind fun _ s hs => ?_
  have hline := h.fputs hs (row.desc ++ [10])
  simp only [List.append_assoc] at hline
  simp only [Row.cells, line, List.append_assoc]
  exact hline

lemma Prints.putsRows (h : Prints env I P) (hs : P out s) (wName wVal wMin wMax : ℕ) (rows : List Row) :
    Ensures env I (fun _ => P (out ++ text 10
        (rows.map fun row => line 32 [wName, wVal, wMin, wMax] row.cells.1 row.cells.2)))
      (putsRows wName wVal wMin wMax rows) s := by
  induction rows generalizing out s with
  | nil => exact .ret (h.stable out) (h.invariant out) (fun _ hs => by simpa [text] using hs) hs
  | cons row rows ih =>
    refine (h.putsRow hs _ _ _ _ row).bind fun _ s hs => ?_
    have hrest := ih hs
    rw [List.append_assoc] at hrest
    exact hrest

theorem Prints.putsTable (h : Prints env I P) (hs : P out s) (rows : List Row) :
    Ensures env I (fun _ => P (out ++ tableText rows)) (putsTable rows) s := by
  have htable := h.putsRows hs (nName rows) (nVal rows) (nMin rows) (nMax rows) (header :: rows)
  unfold tableText table
  rw [List.map_cons, List.map_map]
  exact htable

end Printing

/-! ### Reading the table -/

section Table

variable {rows : List Row} {row : Row} {column : Row → List UInt8}

lemma le_longest (start : ℕ) (column : Row → List UInt8) (rows : List Row) :
    start ≤ longest start column rows := by
  unfold longest
  induction rows generalizing start with
  | nil => exact le_rfl
  | cons row rows ih =>
    refine le_trans ?_ (ih _)
    dsimp only
    split <;> omega

lemma length_le_longest (start : ℕ) (h : row ∈ rows) : (column row).length ≤ longest start column rows := by
  unfold longest
  induction rows generalizing start with
  | nil => cases h
  | cons row' rows ih =>
    rcases List.mem_cons.1 h with rfl | h
    · refine le_trans ?_ (le_longest _ column rows)
      dsimp only
      split <;> omega
    · exact ih _ h

/-- The strings of a row can be told from the layout of the table: none contains a newline, and none but
the description ends with a space. -/
structure Row.Plain (row : Row) : Prop where
  newline : ∀ s ∈ row.cells.2 :: row.cells.1, 10 ∉ s
  ends : ∀ s ∈ row.cells.1, s.getLast? ≠ some 32

instance (row : Row) : Decidable row.Plain :=
  decidable_of_iff ((∀ s ∈ row.cells.2 :: row.cells.1, 10 ∉ s) ∧
    ∀ s ∈ row.cells.1, s.getLast? ≠ some 32) ⟨fun h => ⟨h.1, h.2⟩, fun h => ⟨h.1, h.2⟩⟩

lemma header_words : ∀ s ∈ header.cells.2 :: header.cells.1, IsWord 32 s ∧ 10 ∉ s := by
  unfold IsWord
  decide

lemma readable_table (h : ∀ row ∈ rows, row.Plain) :
    Readable 32 10 (widths rows) header.cells (rows.map Row.cells) where
  header_fits := by
    have h₀ := le_longest 4 Row.name rows
    have h₁ := le_longest 5 Row.value rows
    have h₂ := le_longest 7 Row.min rows
    have h₃ := le_longest 7 Row.max rows
    refine .cons ?_ (.cons ?_ (.cons ?_ (.cons ?_ .nil)))
    · exact Nat.lt_succ_of_le (Nat.le_succ_of_le h₀)
    · exact Nat.lt_succ_of_le (Nat.le_succ_of_le h₁)
    · exact Nat.lt_succ_of_le (Nat.le_succ_of_le h₂)
    · exact Nat.lt_succ_of_le (Nat.le_succ_of_le h₃)
  header_words s hs := (header_words s hs).1
  fits := by
    intro cells hcells
    obtain ⟨row, hrow, rfl⟩ := List.mem_map.1 hcells
    have hle : ∀ start (column : Row → List UInt8),
        (column row).length ≤ longest start column rows + 2 :=
      fun start column => (length_le_longest start hrow).trans (Nat.le_add_right _ _)
    exact .cons (hle 4 Row.name) (.cons (hle 5 Row.value) (.cons (hle 7 Row.min)
      (.cons (hle 7 Row.max) .nil)))
  ends := by
    intro cells hcells
    obtain ⟨row, hrow, rfl⟩ := List.mem_map.1 hcells
    exact (h row hrow).ends
  newline := by
    intro cells hcells
    rcases List.mem_cons.1 hcells with rfl | hcells
    · exact fun s hs => (header_words s hs).2
    · obtain ⟨row, hrow, rfl⟩ := List.mem_map.1 hcells
      exact (h row hrow).newline
  ne := by decide

/-- A terminal on which nothing else is printed, as what was printed to it so far. -/
def console : Env (List UInt8) Call Reply where
  perform out c _ out' := match c with
    | .write fd text => fd = stdout ∧ out' = out ++ text
    | _ => False
  others _ _ := False

lemma prints_console : Prints console (fun _ => True) fun out s => s = out where
  stable _ _ _ _ h := h.elim
  invariant _ _ _ := trivial
  write _ _ _ _ _ hs h := hs ▸ h.2

/-! #### The program on this terminal -/

section Run

variable {α : Type} {out : List UInt8}

lemma console_write (text : List UInt8) :
    console.perform out (Call.write stdout text) () (out ++ text) :=
  ⟨rfl, rfl⟩

lemma runs_fputs (text : List UInt8) : Runs console (out, fputs stdout text) (out ++ text, .ret ()) :=
  Runs.call .ret (console_write text)

lemma runs_seq {p : Cli Unit} {f : Unit → Cli α} {q : Cli α} {mid out' : List UInt8}
    (hp : Runs console (out, p) (mid, .ret ())) (hf : Runs console (mid, f ()) (out', q)) :
    Runs console (out, p >>= f) (out', q) :=
  (hp.bind f).trans hf

lemma runs_putsPad (str : List UInt8) (len : ℕ) :
    Runs console (out, putsPad str len) (out ++ padTo 32 len str, .ret ()) := by
  rw [padTo, ← List.append_assoc]
  exact runs_seq (runs_fputs _) (runs_fputs _)

lemma runs_putsRows (wName wVal wMin wMax : ℕ) (rows : List Row) :
    ∃ out', Runs console (out, putsRows wName wVal wMin wMax rows) (out', .ret ()) := by
  induction rows generalizing out with
  | nil => exact ⟨out, .refl⟩
  | cons row rows ih =>
    obtain ⟨out', h⟩ := @ih (out ++ padTo 32 wName row.name ++ padTo 32 wVal row.value ++
      padTo 32 wMin row.min ++ padTo 32 wMax row.max ++ (row.desc ++ [10]))
    refine ⟨out', runs_seq ?_ h⟩
    refine runs_seq (runs_putsPad _ _) ?_
    refine runs_seq (runs_putsPad _ _) ?_
    refine runs_seq (runs_putsPad _ _) ?_
    exact runs_seq (runs_putsPad _ _) (runs_fputs _)

end Run

/-- **The table can be read back**: whatever the rows are, `show` prints one text, in which the columns are
found by means of the header, and each line is cut into the strings of its variable. -/
theorem table_read_back (h : ∀ row ∈ rows, row.Plain) : ∃ out,
    (∀ out' u, Runs console ([], putsTable rows) (out', .ret u) ↔ out' = out) ∧
    Lib.Columns.read 32 10 4 out = rows.map Row.cells := by
  have hout : ∀ out' u, Runs console ([], putsTable rows) (out', .ret u) → out' = tableText rows :=
    fun _ _ hr => (prints_console.putsTable rfl rows).result hr
  refine ⟨tableText rows, fun out' u => ⟨hout out' u, ?_⟩, read_table (readable_table h)⟩
  rintro rfl
  obtain ⟨out', hr⟩ := runs_putsRows (nName rows) (nVal rows) (nMin rows) (nMax rows) (header :: rows)
  obtain rfl := hout out' () hr
  exact hr

/-- Two variables, with a name and a description that contain spaces. -/
def twoRows : List Row :=
  [⟨ascii "gain", ascii "-5", ascii "-10", ascii "10", ascii "the gain"⟩,
    ⟨ascii "max speed", ascii "2147483647", ascii "0", ascii "2147483647", []⟩]

theorem twoRows_read_back : ∃ out,
    (∀ out' u, Runs console ([], putsTable twoRows) (out', .ret u) ↔ out' = out) ∧
    Lib.Columns.read 32 10 4 out = twoRows.map Row.cells :=
  table_read_back (by decide)

end Table

end CfgMgmt.Tools.Show
