import CfgMgmt.Kernel.LoadList
import CfgMgmt.System.Consistency
import CfgMgmt.Tools.Numbers
import CfgMgmt.Tools.Show

/-!
# The tool on the running system

`clist` runs as one more client of the kernel module.  Between any two of its calls the other clients
open, read, write and close files of their own, the firmware serves requests, and replies arrive.
Whatever they do, the table that `clist` prints shows every variable, with its limits and its
description, and with the value that it had at one moment while `clist` ran; these moments follow each
other in the order of the lines (`clist_shows`).
-/

namespace CfgMgmt.System.Clist

open CfgMgmt.Lib CfgMgmt.Lib.Bytes CfgMgmt.Lib.Machine CfgMgmt.Lib.Process CfgMgmt.Lib.Replay
open CfgMgmt.Msg CfgMgmt.Firmware.Config CfgMgmt.Kernel.Linux CfgMgmt.Kernel.RpmsgLink
open CfgMgmt.Kernel.Files CfgMgmt.Kernel.Calls CfgMgmt.Kernel.Sessions CfgMgmt.System.Consistency
open CfgMgmt.Tools.Clist (withoutNewline terminate terminate_spec storeChecked_of_le read_write_append)
open CfgMgmt.Tools.Clist (maxNumericLen maxDescLen)
open CfgMgmt.Tools.Numbers CfgMgmt.Tools.Show
open CfgMgmt.Kernel.LoadList (Names Complete)
open CfgMgmt.Kernel.Kstrtol (kstrtol)

/-! ### The system as `clist` sees it -/

/-- The path of a file of a variable in the folder of the kernel module. -/
def pathOf (mount : List UInt8) (kind : Kind) (name : List UInt8) : List UInt8 :=
  mount ++ ascii "/" ++ ascii kind.dirName ++ ascii "/" ++ name

/-- The record of the file at a path. -/
def lookup (mount : List UInt8) (k : Driver) (path : List UInt8) : Option VarAccessInfo :=
  (k.debugfs.find? fun x => x.parent.any fun kind => pathOf mount kind x.name = path).map fun x =>
    k.records x.data.1 x.data.2

/-- What `scandir` reads from the directory of the values. -/
def valEntries (k : Driver) : List (List UInt8) :=
  ascii "." :: ascii ".." :: (k.debugfs.filter fun x => x.parent = some .val).map (·.name)

/-- The system, and what `clist` has printed. -/
structure Shell (n : VarCount) (κ δ ε ω : Type) where
  sys : Sys n κ δ ε ω
  out : List UInt8

section Environment

variable {n : VarCount} {κ δ ε ω : Type} (sem : CbSem n κ δ ε ω)

/-- A step of the system, by clients that keep to the rules. -/
def Moves (s s' : Sys n κ δ ε ω) (e : Event) : Prop :=
  Orderly s e ∧ step kstrtol sem s e = some s'

/-- What `read` returns to the program. -/
def dataOf : Except Int32 (List UInt8) → Option (List UInt8)
  | .ok data => some data
  | .error _ => none

/-- The files `mine` are those of `clist`, which are opened by it alone; a file is named by its
descriptor. -/
def shell (mount : List UInt8) (mine : Set FileId) : Env (Shell n κ δ ε ω) Call Reply where
  perform s c r s' :=
    match c with
    | .entries path => s' = s ∧ ∀ names, r = Except.ok names →
      path = mount ++ ascii "/val" ∧ names.Perm (valEntries s.sys.k)
    | .openFile path =>
      (∃ errno, r = Except.error errno ∧ s' = s) ∨
        ∃ fd info, r = Except.ok fd ∧ fd ∈ mine ∧ lookup mount s.sys.k path = some info ∧
          s'.out = s.out ∧ Moves sem s.sys s'.sys (.client (.openVar fd info true false false true 0))
    | .read fd count => ∃ uncopied result, s'.out = s.out ∧
      Moves sem s.sys s'.sys (.client (.read fd count none false uncopied)) ∧
        s'.sys.k.log.getLast? = some (fd, .read result) ∧ r.map Subtype.val = dataOf result
    | .close fd => s'.out = s.out ∧ Moves sem s.sys s'.sys (.client (.release fd 0))
    | .write fd text => s' = { s with out := if fd = stdout then s.out ++ text else s.out }
    | .malloc _ => s' = s
    | .exit _ => False
    | .fault => False
  others s s' := ∃ e, (∀ e', e = .client e' → ∀ fd ∈ mine, fileOf e' ≠ some fd) ∧ s'.out = s.out ∧
    Moves sem s.sys s'.sys e

end Environment

/-! ### The calls of the clients -/

/-- The files in debugfs stay as they are. -/
def SameFiles (k k' : Driver) : Prop :=
  k'.debugfs = k.debugfs ∧ k'.records = k.records ∧ k'.arrays = k.arrays

section Calls

variable {k k' : Driver} {f : FileId} {file : File} {info : VarAccessInfo} {send : Int32}

lemma SameFiles.refl (k : Driver) : SameFiles k k := ⟨rfl, rfl, rfl⟩

lemma SameFiles.trans' {k₀ : Driver} (h₀ : SameFiles k₀ k) (h : SameFiles k k') : SameFiles k₀ k' :=
  ⟨h.1.trans h₀.1, h.2.1.trans h₀.2.1, h.2.2.trans h₀.2.2⟩

lemma sameFiles_openedForWriting : SameFiles k (k.openedForWriting f file) := by
  unfold Driver.openedForWriting
  split <;> exact .refl k

lemma sameFiles_openVar {fModeRead fModeWrite nonblock mem : Bool}
    (hs : k.debugfsOpenVar kstrtol f info fModeRead fModeWrite nonblock mem send = some k') :
    SameFiles k k' := by
  obtain ⟨⟨t, link⟩, -, hs⟩ := Option.bind_eq_some_iff.1 hs
  dsimp only at hs
  split at hs
  · split at hs
    · obtain rfl := Option.some.inj hs
      exact .refl k
    · obtain rfl := Option.some.inj hs
      exact sameFiles_openedForWriting
  · obtain rfl := Option.some.inj hs
    exact sameFiles_openedForWriting

lemma sameFiles_seek (own : Option ℤ) (pos : ℤ) : SameFiles k (k.seek f file own pos) := by
  cases own <;> exact .refl k

lemma sameFiles_read {len uncopied : ℕ} {own : Option ℤ} {intr : Bool}
    (hs : k.debugfsReadVar f file len own intr uncopied = some k') : SameFiles k k' := by
  unfold Driver.debugfsReadVar at hs
  dsimp only at hs
  split at hs
  · split at hs
    · obtain rfl := Option.some.inj hs
      exact .refl k
    · split at hs
      · obtain rfl := Option.some.inj hs
        exact .refl k
      · cases hs
  · split at hs
    · obtain rfl := Option.some.inj hs
      exact .refl k
    · obtain rfl := Option.some.inj hs
      exact sameFiles_seek own _

lemma sameFiles_write (data : List UInt8) (own : Option ℤ) (uncopied : ℕ) :
    SameFiles k (k.debugfsWriteVar f file data own uncopied) :=
  sameFiles_seek own _

lemma sameFiles_release (hs : k.debugfsReleaseVar kstrtol f file send = some k') : SameFiles k k' := by
  unfold Driver.debugfsReleaseVar at hs
  split at hs
  · split at hs
    · cases hs
    · dsimp only at hs
      split at hs
      · obtain rfl := Option.some.inj hs
        exact .refl k
      · split at hs
        · obtain rfl := Option.some.inj hs
          exact .refl k
        · obtain rfl := Option.some.inj hs
          exact .refl k
  · obtain rfl := Option.some.inj hs
    exact .refl k

lemma sameFiles_releaseWoken {intr : Bool} (hs : k.debugfsReleaseVarWoken f file intr = some k') :
    SameFiles k k' := by
  unfold Driver.debugfsReleaseVarWoken at hs
  split at hs
  · split at hs
    · obtain rfl := Option.some.inj hs
      exact .refl k
    · cases hs
  · split at hs
    · obtain rfl := Option.some.inj hs
      exact .refl k
    · obtain rfl := Option.some.inj hs
      exact .refl k

end Calls

/-! ### What `clist` knows -/

section Live

variable {n : VarCount} {κ δ ε ω : Type}

/-- What a file shows that has sent its request behind `reqs`. -/
def content (vars : Table n κ δ) (reqs : List CfgMsg) (info : VarAccessInfo) : List UInt8 :=
  match entry? n info.index with
  | some k => shown (tableAfter vars reqs k) info.type
  | none => []

/-- The file is open for reading, is at the position `pos`, and shows the text `text`. -/
def Reads (vars : Table n κ δ) (fd : FileId) (text : List UInt8) (pos : ℕ) (s : Sys n κ δ ε ω) : Prop :=
  ∃ file, s.k.files fd = some file ∧ file.fModeRead = true ∧ file.pos = pos ∧
    (s.hist.record fd).request ≤ s.k.link.wire.length ∧
    content vars (s.k.link.wire.take (s.hist.record fd).request) (infoOf file) = text

/-- `t'` comes after `t`: there are the same files, and more requests. -/
structure Later (t t' : Sys n κ δ ε ω) : Prop where
  files : SameFiles t.k t'.k
  wire : t.k.link.wire <+: t'.k.link.wire

/-- The system is consistent. -/
def Sound (sem : CbSem n κ δ ε ω) (first : ℕ) (vars : Table n κ δ) (s : Sys n κ δ ε ω) : Prop :=
  ∃ a, Consistency.Inv kstrtol sem first vars a s

/-- What `clist` knows since the state `σ`: it has printed `out`, and the files `files` are at their
start and show these texts. -/
structure Live (sem : CbSem n κ δ ε ω) (first : ℕ) (vars : Table n κ δ) (mine : Set FileId)
    (σ : Sys n κ δ ε ω) (out : List UInt8) (files : List (FileId × List UInt8)) (s : Shell n κ δ ε ω) :
    Prop where
  sound : Sound sem first vars s.sys
  later : Later σ s.sys
  out : s.out = out
  nodup : (files.map Prod.fst).Nodup
  files : ∀ x ∈ files, x.1 ∈ mine ∧ Reads vars x.1 x.2 0 s.sys

variable {sem : CbSem n κ δ ε ω} {first : ℕ} {vars : Table n κ δ} {mount : List UInt8}
  {mine : Set FileId} {σ σ' t t' : Sys n κ δ ε ω} {s s' : Shell n κ δ ε ω} {out text : List UInt8}
  {files : List (FileId × List UInt8)} {e : Event} {fd : FileId} {pos : ℕ}

lemma Later.refl (t : Sys n κ δ ε ω) : Later t t := ⟨.refl _, List.prefix_refl _⟩

lemma Later.trans' (h : Later σ t) (h' : Later t t') : Later σ t' :=
  ⟨h.files.trans' h'.files, h.wire.trans h'.wire⟩

lemma Sound.moves (h : Sound sem first vars t) (hm : Moves sem t t' e) : Sound sem first vars t' := by
  obtain ⟨a, h⟩ := h
  exact ⟨_, inv_step (fun _ => Kernel.Kstrtol.kstrtol_refuses) h hm.1 hm.2⟩

lemma sameFiles_of_moves (h : Sound sem first vars t) (hm : Moves sem t t' e) :
    SameFiles t.k t'.k := by
  obtain ⟨a, h⟩ := h
  obtain ⟨hord, hs⟩ := hm
  cases e with
  | serve =>
    rw [(serve_keeps hs).1]
    exact .refl _
  | deliver =>
    obtain ⟨rep, -, _, -, -, rfl⟩ := deliver_spec h.flow hord.1.1 hs
    exact .refl _
  | client e =>
    obtain ⟨k', hk, rfl⟩ := step_client hs
    cases leads_of_step hk with
    | openVar hf hcall => exact sameFiles_openVar hcall
    | read file hf hready hread hcall => exact sameFiles_read hcall
    | write file hf hready hwrite hcall =>
      subst hcall
      exact sameFiles_write _ _ _
    | release file hf hready hcall => exact sameFiles_release hcall
    | releaseWoken file hf hclosing hcall => exact sameFiles_releaseWoken hcall
    | _ => exact hord.1.2.elim

lemma file_of_moves (h : Sound sem first vars t) (hm : Moves sem t t' e)
    (ho : ∀ e', e = .client e' → fileOf e' ≠ some fd) :
    t'.k.files fd = t.k.files fd ∧ t'.hist.record fd = t.hist.record fd := by
  obtain ⟨a, h⟩ := h
  obtain ⟨hord, hs⟩ := hm
  cases e with
  | serve =>
    obtain ⟨hk, -, -, hhist⟩ := serve_keeps hs
    rw [hk, hhist]
    exact ⟨rfl, rfl⟩
  | deliver =>
    obtain ⟨rep, -, _, -, -, rfl⟩ := deliver_spec h.flow hord.1.1 hs
    exact ⟨rfl, rfl⟩
  | client e =>
    obtain ⟨k', hk, rfl⟩ := step_client hs
    obtain ⟨g, hg, hacts⟩ := acts_client h.flow hord.1 hk
    have hne : fd ≠ g := by
      rintro rfl
      exact ho e rfl hg
    exact ⟨hacts.files fd hne, (recorded_observe hg).record fd hne⟩

lemma later_of_moves (h : Sound sem first vars t) (hm : Moves sem t t' e) : Later t t' := by
  refine ⟨sameFiles_of_moves h hm, ?_⟩
  obtain ⟨a, h⟩ := h
  exact wire_step h.flow hm.1.1 hm.2

lemma Reads.moves (hr : Reads vars fd text pos t) (h : Sound sem first vars t) (hm : Moves sem t t' e)
    (ho : ∀ e', e = .client e' → fileOf e' ≠ some fd) : Reads vars fd text pos t' := by
  obtain ⟨file, hf, hread, hpos, hle, htext⟩ := hr
  obtain ⟨hfiles, hrec⟩ := file_of_moves h hm ho
  have hwire := (later_of_moves h hm).wire
  refine ⟨file, hfiles.trans hf, hread, hpos, ?_, ?_⟩
  · rw [hrec]
    exact hle.trans hwire.length_le
  · obtain ⟨l, hl⟩ := hwire
    rw [hrec, ← hl, List.take_append_of_le_length hle]
    exact htext

lemma Live.moves (h : Live sem first vars mine σ out files s) (hm : Moves sem s.sys s'.sys e)
    (hout : s'.out = s.out) (ho : ∀ x ∈ files, ∀ e', e = .client e' → fileOf e' ≠ some x.1) :
    Live sem first vars mine σ out files s' where
  sound := h.sound.moves hm
  later := h.later.trans' (later_of_moves h.sound hm)
  out := hout.trans h.out
  nodup := h.nodup
  files x hx := ⟨(h.files x hx).1, (h.files x hx).2.moves h.sound hm (ho x hx)⟩

lemma live_stable : Stable (shell sem mount mine) (Live sem first vars mine σ out files) := by
  rintro s s' h ⟨e, ho, hout, hm⟩
  exact h.moves hm hout fun x hx e' he => ho e' he x.1 (h.files x hx).1

lemma Live.since (h : Live sem first vars mine σ' out files s) (hl : Later σ σ') :
    Live sem first vars mine σ out files s :=
  { h with later := hl.trans' h.later }

lemma Live.now (h : Live sem first vars mine σ out files s) :
    Live sem first vars mine s.sys out files s :=
  { h with later := .refl _ }

lemma Live.forget (h : Live sem first vars mine σ out files s) {files' : List (FileId × List UInt8)}
    (hs : files'.Sublist files) : Live sem first vars mine σ out files' s :=
  { h with nodup := h.nodup.sublist (hs.map _), files := fun x hx => h.files x (hs.subset hx) }

/-- **A file is opened**, and shows what the requests in front of its own have left. -/
lemma Live.opens {info : VarAccessInfo} (h : Live sem first vars mine σ out files s) (hfd : fd ∈ mine)
    (hout : s'.out = s.out)
    (hm : Moves sem s.sys s'.sys (.client (.openVar fd info true false false true 0))) :
    Live sem first vars mine σ out (files ++ [(fd, content vars s.sys.k.link.wire info)]) s' ∧
      s.sys.k.link.wire.length < s'.sys.k.link.wire.length := by
  obtain ⟨a, hinv⟩ := h.sound
  obtain ⟨k', hk, hs'⟩ := step_client hm.2
  cases leads_of_step hk with
  | openVar hf hcall =>
    have hne : ∀ x ∈ files, x.1 ≠ fd := by
      rintro x hx rfl
      obtain ⟨file, hfile, -⟩ := (h.files x hx).2
      cases hf.symm.trans hfile
    have hlive := h.moves hm hout fun x hx e' he => by
      obtain rfl := Event.client.inj he
      exact fun hfd => hne x hx (Option.some.inj hfd).symm
    obtain ⟨p, x, m, hfile, hreq, -⟩ := openVar_reads hinv.flow.sane hm.1.1.2.2.1.2.2 hcall
    have hwire : s'.sys.k.link.wire = s.sys.k.link.wire ++ [m] := by
      rw [hs']
      exact hreq.wire
    have hlen : s'.sys.k.link.wire.length = s.sys.k.link.wire.length + 1 := by
      rw [hwire, List.length_append, List.length_singleton]
    refine ⟨{ hlive with nodup := ?_, files := fun y hy => ?_ }, by omega⟩
    · rw [List.map_append, List.nodup_append]
      refine ⟨h.nodup, List.nodup_singleton _, fun y hy z hz => ?_⟩
      obtain ⟨x, hx, rfl⟩ := List.mem_map.1 hy
      obtain rfl := List.mem_singleton.1 hz
      exact hne x hx
    · rcases List.mem_append.1 hy with hy | hy
      · exact hlive.files y hy
      · obtain rfl := List.mem_singleton.1 hy
        have hrec : (s'.sys.hist.record fd).request = s.sys.k.link.wire.length := by
          rw [hs']
          simp [observe]
        refine ⟨hfd, ⟨.var info, true, false, false, 0, p, .ready⟩, ?_, rfl, rfl, ?_, ?_⟩
        · rw [hs']
          exact hfile
        · rw [hrec, hlen]
          exact Nat.le_succ _
        · rw [hrec, hwire, List.take_left' rfl]
          rfl

/-! ### A call of `read` -/

/-- What a call of `read` may return for a text, at a position. -/
structure Reading (text : List UInt8) (pos count : ℕ) (data : List UInt8) : Prop where
  isPrefix : data <+: (text.drop pos).take count
  ends : data = [] → count = 0 ∨ text.length ≤ pos

/-- The struct of a file whose reply has arrived holds what the file shows. -/
lemma holds_content {a : Account} {file : File} (h : Consistency.Inv kstrtol sem first vars a t)
    (hf : t.k.files fd = some file) (hread : file.fModeRead = true)
    (hans : Answered t file (t.hist.record fd).request) :
    file.phase = .ready ∧ HoldsText (t.k.transOf file)
      (content vars (t.k.link.wire.take (t.hist.record fd).request) (infoOf file)) := by
  have hok := h.flow.files fd file hf
  have hheld := h.files fd file hf
  have hro : file.fModeWrite = false := by rw [hheld.mode, hread]; rfl
  have hready : file.phase = .ready := hok.phase.resolve_right fun hw =>
    Bool.false_ne_true (hro.symm.trans hw.2)
  obtain ⟨rep, x, hrep, hx⟩ := hans.content hro
  obtain ⟨m, w, hm, hw, -, hcarries⟩ := h.flow.reply _ _ hrep
  obtain ⟨m', hm', hind, hasks⟩ := hok.asked (.inl hread)
  obtain rfl := Option.some.inj (hm.symm.trans hm')
  rw [hready, hread] at hasks
  have htype : m.type = readType (infoOf file).type := hasks
  obtain ⟨⟨k, hk'⟩, hname, hunknown⟩ := hok.isVar
  have hvars := h.found _ w hw
  have hbare : Bare (w.vars k) := by
    rw [hvars]
    exact bare_tableAfter.2 (hheld.bare k hk')
  rw [query_of_readType (hind.symm ▸ hk') htype] at hcarries
  obtain ⟨hlen, htake⟩ := complete_shown hbare hname hunknown hcarries x
  have hcontent : content vars (t.k.link.wire.take (t.hist.record fd).request) (infoOf file) =
      shown (w.vars k) (infoOf file).type := by
    unfold content
    rw [hk', hvars]
  have hx' : t.k.transOf file = Link.complete rep x := hx
  rw [hcontent, hx']
  exact ⟨hready, hlen, htake⟩

lemma simpleRead_pos {src data : List UInt8} {count uncopied : ℕ}
    (hsrc : src.take text.length = text)
    (h : (simpleReadFromBuffer count pos src text.length uncopied).1 = .ok data) :
    (simpleReadFromBuffer count pos src text.length uncopied).2 = (pos + data.length : ℕ) := by
  rw [simpleReadFromBuffer_take hsrc] at h ⊢
  unfold simpleReadFromBuffer at h ⊢
  rw [if_neg (Int.not_lt.2 (Int.natCast_nonneg pos)), Int.toNat_natCast] at h ⊢
  dsimp only at h ⊢
  split at h
  · rename_i hend
    obtain rfl := Except.ok.inj h
    rw [if_pos hend]
    rfl
  · rename_i hend
    rw [if_neg hend]
    split at h
    · cases h
    · rename_i hcopied
      obtain rfl := Except.ok.inj h
      rw [if_neg hcopied, List.length_take, List.length_drop]
      push_cast
      omega

/-- **A call of `read`** returns what is next, and moves the position behind it. -/
lemma Reads.read {count uncopied : ℕ} {result : Except Int32 (List UInt8)} {data : List UInt8}
    (hr : Reads vars fd text pos t) (h : Sound sem first vars t)
    (hm : Moves sem t t' (.client (.read fd count none false uncopied)))
    (hlog : t'.k.log.getLast? = some (fd, .read result)) (hdata : result = .ok data) :
    Reading text pos count data ∧ Reads vars fd text (pos + data.length) t' := by
  obtain ⟨file, hf, hmode, hpos, hle, htext⟩ := hr
  obtain ⟨a, h⟩ := h
  obtain ⟨hord, hs⟩ := hm
  obtain ⟨k', hk, rfl⟩ := step_client hs
  obtain ⟨file', hf', -, -, hans, -⟩ := read_spec h.flow hord.1 hk
  obtain rfl := Option.some.inj (hf.symm.trans hf')
  obtain ⟨-, hholds⟩ := holds_content h hf hmode hans
  rw [htext] at hholds
  have hv : (t.k.transOf file).valid = true := hans.valid
  have he : (t.k.transOf file).err = 0 := hans.err
  have hcall : t.k.debugfsReadVar fd file count none false uncopied = some k' := by
    cases leads_of_step hk with
    | read file' hf' _ _ hcall =>
      obtain rfl := Option.some.inj (hf.symm.trans hf')
      exact hcall
  unfold Driver.debugfsReadVar at hcall
  simp only [hv, he, Bool.not_true, Bool.false_eq_true, if_false, ne_eq, not_true_eq_false] at hcall
  obtain rfl := Option.some.inj hcall
  simp only [Driver.returns, List.getLast?_concat, Option.some.injEq, Prod.mk.injEq, true_and,
    Result.read.injEq] at hlog
  rw [hdata, Option.getD_none, hpos, hholds.len] at hlog
  refine ⟨⟨isPrefix_simpleRead hholds.buf hlog, ?_⟩, ?_⟩
  · rintro rfl
    exact ends_simpleRead hholds.buf hlog
  · have hrec : ∀ k' : Driver, (observe kstrtol t.k k' t.hist (.read fd count none false uncopied)).record =
        t.hist.record := by
      intro k'
      simp only [observe]
      split <;> rfl
    refine ⟨_, setFile_files_self _, hmode, ?_, ?_, ?_⟩
    · rw [hpos, hholds.len]
      exact simpleRead_pos hholds.buf hlog
    · dsimp only
      rw [hrec]
      exact hle
    · dsimp only
      rw [hrec]
      exact htext

end Live

/-! ### The functions of `clist` -/

section Functions

variable {n : VarCount} {κ δ ε ω : Type} {sem : CbSem n κ δ ε ω} {first : ℕ} {vars : Table n κ δ}
  {mount : List UInt8} {mine : Set FileId} {σ : Sys n κ δ ε ω} {s : Shell n κ δ ε ω}
  {out text : List UInt8} {files : List (FileId × List UInt8)} {α : Type} {fd : FileId} {size : ℕ}

/-- The program returns with `Q`, whatever others do meanwhile. -/
abbrev Does (sem : CbSem n κ δ ε ω) (mount : List UInt8) (mine : Set FileId)
    (Q : α → Shell n κ δ ε ω → Prop) (p : Cli α) (s : Shell n κ δ ε ω) : Prop :=
  Ensures (shell sem mount mine) (fun _ => True) Q p s

lemma does_ret {Q : α → Shell n κ δ ε ω → Prop} {a : α} (h : Live sem first vars mine σ out files s)
    (hQ : ∀ t, Live sem first vars mine σ out files t → Q a t) : Does sem mount mine Q (.ret a) s :=
  .ret live_stable (fun _ _ => trivial) hQ h

lemma does_exit {Q : α → Shell n κ δ ε ω → Prop} (code : ℤ) : Does sem mount mine Q (exit code) s :=
  fun _ _ => ⟨trivial, fun r => Empty.elim r⟩

lemma does_fault {Q : α → Shell n κ δ ε ω → Prop} {next : Empty → Cli α} :
    Does sem mount mine Q (.call .fault next) s :=
  fun _ _ => ⟨trivial, fun r => Empty.elim r⟩

lemma does_malloc (h : Live sem first vars mine σ out files s) (size : ℕ) :
    Does sem mount mine (fun _ => Live sem first vars mine σ out files) (malloc size) s := by
  refine .call live_stable (fun _ _ => trivial) (fun s r s' hs hp => ?_) h
  obtain rfl : s' = s := hp
  exact does_ret hs fun _ ht => ht

lemma prints_live : Prints (shell sem mount mine) (fun _ => True)
    (fun out => Live sem first vars mine σ out files) where
  stable _ := live_stable
  invariant _ _ _ := trivial
  write out s text r s' h hp := by
    obtain rfl : s' = { s with out := if stdout = stdout then s.out ++ text else s.out } := hp
    exact { h with out := by rw [if_pos rfl, h.out] }

lemma does_fputs_stderr (h : Live sem first vars mine σ out files s) (text : List UInt8) :
    Does sem mount mine (fun _ => Live sem first vars mine σ out files) (fputs stderr text) s := by
  refine .call live_stable (fun _ _ => trivial) (fun s r s' hs hp => ?_) h
  obtain rfl : s' = { s with out := if stderr = stdout then s.out ++ text else s.out } := hp
  exact does_ret { hs with out := by rw [if_neg (by decide), hs.out] } fun _ ht => ht

/-! #### Reading -/

/-- The file that is being read, and the others. -/
structure Busy (sem : CbSem n κ δ ε ω) (first : ℕ) (vars : Table n κ δ) (mine : Set FileId)
    (σ : Sys n κ δ ε ω) (out : List UInt8) (files : List (FileId × List UInt8)) (fd : FileId)
    (text : List UInt8) (pos : ℕ) (s : Shell n κ δ ε ω) : Prop where
  live : Live sem first vars mine σ out files s
  reads : Reads vars fd text pos s.sys
  other : ∀ x ∈ files, x.1 ≠ fd
  mine : fd ∈ mine

lemma Live.busy (h : Live sem first vars mine σ out ((fd, text) :: files) s) :
    Busy sem first vars mine σ out files fd text 0 s := by
  obtain ⟨hfd, hreads⟩ := h.files (fd, text) List.mem_cons_self
  refine ⟨h.forget (List.sublist_cons_self ..), hreads, fun x hx => ?_, hfd⟩
  rintro rfl
  exact (List.nodup_cons.1 h.nodup).1 (List.mem_map.2 ⟨x, hx, rfl⟩)

lemma busy_stable {pos : ℕ} :
    Stable (shell sem mount mine) (Busy sem first vars mine σ out files fd text pos) := by
  rintro s s' h ⟨e, ho, hout, hm⟩
  have hlive : Live sem first vars mine σ out files s' :=
    h.live.moves hm hout fun x hx e' he => ho e' he x.1 (h.live.files x hx).1
  refine ⟨hlive, ?_, h.other, h.mine⟩
  exact h.reads.moves h.live.sound hm fun e' he => ho e' he fd h.mine

/-- **The loop of `read_fd`** ends with the first bytes of the text in the buffer. -/
theorem does_readLoop {m bytes : ℕ} {buf : Buf m} (hb : bytes ≤ size) (hs : size ≤ m)
    (hl : bytes ≤ text.length) (hbuf : buf.read bytes = text.take bytes)
    (h : Busy sem first vars mine σ out files fd text bytes s) :
    Does sem mount mine (fun r t => Live sem first vars mine σ out files t ∧
      ∀ b, r.1 = some b → b = min text.length size ∧ r.2.read b = text.take b)
      (readLoop fd size bytes buf) s := by
  fun_induction readLoop fd size bytes buf generalizing s with
  | case1 bytes buf ih =>
    refine .call busy_stable (fun _ _ => trivial) (fun s r s' hs hp => ?_) h
    obtain ⟨uncopied, result, hout, hm, hlog, hr⟩ := hp
    have hlive : Live sem first vars mine σ out files s' := hs.live.moves hm hout fun x hx e' he => by
      obtain rfl := Event.client.inj he
      exact fun hfd => hs.other x hx (Option.some.inj hfd).symm
    split
    · exact does_ret hlive fun t ht => ⟨ht, fun b hb => absurd hb (Option.some_ne_none b).symm⟩
    · rename_i data
      obtain rfl : result = .ok data.1 := by
        cases result with
        | ok _ => exact congrArg Except.ok (Option.some.inj hr).symm
        | error _ => cases hr
      obtain ⟨hread, hreads⟩ := hs.reads.read hs.live.sound hm hlog rfl
      have hpre := hread.isPrefix.trans (List.take_prefix _ _)
      have hlen := hpre.length_le
      rw [List.length_drop] at hlen
      split
      · -- the end of the file, or the buffer is full
        rename_i hnil
        refine does_ret hlive fun t ht => ⟨ht, ?_⟩
        rintro b ⟨⟩
        refine ⟨?_, hbuf⟩
        rcases hread.ends hnil with h | h <;> omega
      · rename_i hne
        have hle := data.2
        rw [storeChecked_of_le (by omega)]
        exact ih data hne _ (by omega) (by omega) (read_write_append hbuf (by omega) hpre (by omega))
          ⟨hlive, hreads, hs.other, hs.mine⟩

lemma does_orFault {o : Option α} (h : Live sem first vars mine σ out files s) :
    Does sem mount mine (fun a t => o = some a ∧ Live sem first vars mine σ out files t) (orFault o) s := by
  cases o with
  | none => exact does_fault
  | some a => exact does_ret h fun _ ht => ⟨rfl, ht⟩

/-- **`read_fd`** leaves the text in the buffer, as much of it as fits and without a newline at its end. -/
theorem does_readFd {m : ℕ} {buf : Buf m} (hm : 0 < m)
    (h : Busy sem first vars mine σ out files fd text 0 s) :
    Does sem mount mine (fun r t => Live sem first vars mine σ out files t ∧
      (0 ≤ r.1 → withoutNewline (text.take (m - 1)) ++ [0] <+: r.2.bytes)) (readFd fd buf) s := by
  have hbuf : buf.read 0 = text.take 0 := rfl
  refine (does_readLoop (Nat.zero_le _) (Nat.sub_le _ _) (Nat.zero_le _) hbuf h).bind fun r t ht => ?_
  obtain ⟨hlive, hloop⟩ := ht
  obtain ⟨bytes, buf'⟩ := r
  cases bytes with
  | none => exact does_ret hlive fun t ht => ⟨ht, fun h0 => absurd (show (0 : ℤ) ≤ -1 from h0) (by decide)⟩
  | some b =>
    obtain ⟨hb, hread⟩ := hloop b rfl
    refine (does_orFault hlive).bind fun buf₂ t ht => ?_
    obtain ⟨hterm, hlive⟩ := ht
    refine does_ret hlive fun t ht => ⟨ht, fun _ => ?_⟩
    have hlen : (text.take (m - 1)).length = b := by
      rw [List.length_take, hb, min_comm]
    rcases eq_or_ne (text.take (m - 1)) [] with hnil | hne
    · -- the byte in front of the buffer
      obtain rfl : b = 0 := by rw [← hlen, hnil, List.length_nil]
      cases hterm
    · have htake : buf'.read (text.take (m - 1)).length = text.take (m - 1) := by
        rw [hlen, hread, List.take_eq_take_iff]
        omega
      obtain ⟨buf₃, hbuf₃, hprefix⟩ := terminate_spec htake hne (by omega)
      rw [hlen] at hbuf₃
      obtain rfl := Option.some.inj (hbuf₃.symm.trans hterm)
      exact hprefix

/-- **`load` reads a file**, or ends the process. -/
theorem does_readFile {m : ℕ} {buf : Buf m} (hm : 0 < m) (what : String)
    (h : Live sem first vars mine σ out ((fd, text) :: files) s) :
    Does sem mount mine (fun b t => Live sem first vars mine σ out files t ∧
      withoutNewline (text.take (m - 1)) ++ [0] <+: b.bytes) (readFile fd buf what) s := by
  refine (does_readFd hm h.busy).bind fun r t ht => ?_
  obtain ⟨hlive, hshown⟩ := ht
  split
  · exact (does_fputs_stderr hlive _).bind fun _ _ _ => does_exit _
  · rename_i h0
    exact does_ret hlive fun t ht => ⟨ht, hshown (Int.not_lt.1 h0)⟩

lemma does_close (h : Live sem first vars mine σ out [] s) (fd : FileId) :
    Does sem mount mine (fun _ => Live sem first vars mine σ out []) (close fd) s := by
  refine .call live_stable (fun _ _ => trivial) (fun s r s' hs hp => ?_) h
  exact does_ret (hs.moves hp.2 hp.1 (by simp)) fun _ ht => ht

end Functions

/-! ### The folder of the kernel module -/

section Folder

variable {mount name : List UInt8} {names : Names} {k k' : Driver} {kind : Kind} {info : VarAccessInfo}

/-- The names that `clist` shows, in this order. -/
def listed (names : Names) : List (List UInt8) := (names.list.filter noDotFilter).mergeSort alphasort

/-- The paths of all files fit into the buffer of `load`. -/
def Fits (mount : List UInt8) (names : Names) : Prop :=
  ∀ name ∈ names.list, ∀ kind, (pathOf mount kind name).length < fnBufLen

lemma sort_eq_of_perm {l l' : List (List UInt8)} (h : l.Perm l') :
    l.mergeSort alphasort = l'.mergeSort alphasort := by
  have hsorted : ∀ l : List (List UInt8), (l.mergeSort alphasort).Pairwise (· ≤ ·) := by
    intro l
    refine (List.pairwise_mergeSort (fun a b c hab hbc => ?_) (fun a b => ?_) l).imp of_decide_eq_true
    · exact decide_eq_true (Std.le_trans (of_decide_eq_true hab) (of_decide_eq_true hbc))
    · rw [Bool.or_eq_true]
      exact Std.le_total.imp decide_eq_true decide_eq_true
  refine List.Perm.eq_of_pairwise (fun a b _ _ => Std.le_antisymm) (hsorted l) (hsorted l') ?_
  exact (List.mergeSort_perm l _).trans (h.trans (List.mergeSort_perm l' _).symm)

lemma sort_entries (h : Complete names k) {l : List (List UInt8)} (hl : l.Perm (valEntries k)) :
    (l.filter noDotFilter).mergeSort alphasort = listed names := by
  have hfst := congrArg (List.map Prod.fst) (h.files .val)
  have hnames : (k.debugfs.filter fun x => x.parent = some .val).reverse.map (·.name) = names.list := by
    refine Eq.trans ?_ (hfst.trans ?_)
    · rw [List.map_map]
      rfl
    · refine List.ext_getElem? fun i => ?_
      simp [Function.comp_def]
  have hperm : (valEntries k).filter noDotFilter = 
      ((k.debugfs.filter fun x => x.parent = some .val).map (·.name)).filter noDotFilter := by
    rfl
  refine sort_eq_of_perm ((hl.filter _).trans ?_)
  rw [hperm, ← hnames, List.map_reverse]
  exact (List.reverse_perm _).symm.filter _

lemma lookup_same {k k' : Driver} (h : SameFiles k k') (path : List UInt8) :
    lookup mount k' path = lookup mount k path := by
  unfold lookup
  rw [h.1, h.2.1]

lemma complete_same (h : SameFiles k k') (hc : Complete names k) : Complete names k' where
  files kind := by
    rw [h.1, h.2.1]
    exact hc.files kind
  live x hx := by
    rw [h.2.2]
    exact hc.live x (h.1 ▸ hx)
  inside x hx := hc.inside x (h.1 ▸ hx)

lemma pathOf_inj {kind' : Kind} {name' : List UInt8} (h : pathOf mount kind name = pathOf mount kind' name') :
    kind = kind' ∧ name = name' := by
  simp only [pathOf, List.append_assoc] at h
  have h := List.append_cancel_left (List.append_cancel_left h)
  cases kind <;> cases kind' <;> first | exact ⟨rfl, List.append_cancel_left (List.append_cancel_left h)⟩ | cases h

lemma lookup_complete (h : Complete names k) (hl : lookup mount k (pathOf mount kind name) = some info) :
    ∃ i, names.list[i]? = some name ∧ info = ⟨Int32.ofNat i, kind.access⟩ := by
  obtain ⟨x, hx, rfl⟩ := Option.map_eq_some_iff.1 hl
  have hfound := List.find?_some hx
  obtain ⟨kind', hparent, hpath⟩ := (Option.any_eq_true ..).1 hfound
  obtain ⟨rfl, rfl⟩ := pathOf_inj (of_decide_eq_true hpath)
  have hmem : (x.name, k.records x.data.1 x.data.2) ∈
      ((k.debugfs.filter fun x => x.parent = some kind').reverse.map fun x =>
        (x.name, k.records x.data.1 x.data.2)) := by
    refine List.mem_map_of_mem (List.mem_reverse.2 (List.mem_filter.2 ⟨List.mem_of_find?_eq_some hx, ?_⟩))
    exact decide_eq_true hparent
  rw [h.files kind'] at hmem
  obtain ⟨i, hi, he⟩ := List.mem_mapIdx.1 hmem
  obtain ⟨hname, hrec⟩ := Prod.mk.inj he
  exact ⟨i, hname ▸ List.getElem?_eq_getElem hi, hrec.symm⟩

end Folder

section Loading

variable {n : VarCount} {κ δ ε ω : Type} {sem : CbSem n κ δ ε ω} {first : ℕ} {vars : Table n κ δ}
  {mount : List UInt8} {mine : Set FileId} {σ : Sys n κ δ ε ω} {s : Shell n κ δ ε ω}
  {out text : List UInt8} {files : List (FileId × List UInt8)}

/-! #### Loading the files -/

/-- What `load` prints when a file cannot be opened. -/
def cantOpen : List UInt8 := ascii "load: can't open file: -1\n"

/-- **`load` opens a file**: it shows what the first `q` requests have left, of which the last ones were
sent after `σ`. -/
theorem does_openFile (h : Live sem first vars mine σ out files s) (dir : String) (name : List UInt8) :
    Does sem mount mine (fun r t => (∃ errno, r = .error errno ∧
        Live sem first vars mine σ (out ++ cantOpen) files t) ∨
      ∃ fd σ' q info, r = .ok fd ∧ Later σ σ' ∧
        lookup mount σ.k (fileName mount dir name) = some info ∧
        σ.k.link.wire.length ≤ q ∧ q < σ'.k.link.wire.length ∧
        Live sem first vars mine σ' out (files ++ [(fd, content vars (σ'.k.link.wire.take q) info)]) t)
      (openFile mount dir name) s := by
  refine .call live_stable (fun _ _ => trivial) (fun s r s' hs hp => ?_) h
  rcases hp with ⟨errno, rfl, rfl⟩ | ⟨fd, info, rfl, hfd, hlookup, hout, hm⟩
  · refine (prints_live.fputs hs cantOpen).bind fun _ t ht => ?_
    exact does_ret ht fun t ht => .inl ⟨errno, rfl, ht⟩
  · obtain ⟨hlive, hlt⟩ := hs.opens hfd hout hm
    have hlater := later_of_moves hs.sound hm
    have htake : s'.sys.k.link.wire.take s.sys.k.link.wire.length = s.sys.k.link.wire :=
      (List.prefix_iff_eq_take.1 hlater.wire).symm
    refine does_ret hlive.now fun t ht => .inr ⟨fd, s'.sys, s.sys.k.link.wire.length, info, rfl,
      hs.later.trans' hlater, ?_, hs.later.wire.length_le, hlt, ?_⟩
    · rw [← lookup_same hs.later.files]
      exact hlookup
    · rw [htake]
      exact ht

/-- What `clist` keeps of a text in a buffer of `m` characters. -/
def kept (m : ℕ) (text : List UInt8) : List UInt8 := withoutNewline (text.take (m - 1))

lemma zero_notMem_kept {m : ℕ} (h : 0 ∉ text) : 0 ∉ kept m text := by
  intro hm
  refine h (List.mem_of_mem_take (i := m - 1) ?_)
  unfold kept withoutNewline at hm
  split at hm
  · exact List.mem_of_mem_dropLast hm
  · exact hm

lemma cstr_of_kept {m : ℕ} {b : Buf m} (h : 0 ∉ text) (hb : kept m text ++ [0] <+: b.bytes) :
    cstr b.bytes = kept m text := by
  obtain ⟨rest, hrest⟩ := hb
  rw [← hrest, List.append_assoc]
  exact cstr_append_zero (zero_notMem_kept h) rest

/-- **The four files of a variable** are read, and closed. -/
theorem does_loadFiles {fd₀ fd₁ fd₂ fd₃ : FileId} {t₀ t₁ t₂ t₃ : List UInt8} (name : List UInt8)
    (value minimum maximum : Buf maxNumericLen) (desc : Buf maxDescLen)
    (h0 : 0 ∉ t₀ ∧ 0 ∉ t₁ ∧ 0 ∉ t₂ ∧ 0 ∉ t₃)
    (h : Live sem first vars mine σ out [(fd₀, t₀), (fd₁, t₁), (fd₂, t₂), (fd₃, t₃)] s) :
    Does sem mount mine (fun row t => Live sem first vars mine σ out [] t ∧ row =
        ⟨name, kept maxNumericLen t₀, kept maxNumericLen t₁, kept maxNumericLen t₂, kept maxDescLen t₃⟩)
      (loadFiles name fd₀ fd₁ fd₂ fd₃ value minimum maximum desc) s := by
  obtain ⟨h₀, h₁, h₂, h₃⟩ := h0
  refine (does_readFile (by decide) _ h).bind fun value s hs => ?_
  obtain ⟨h, hvalue⟩ := hs
  refine (does_readFile (by decide) _ h).bind fun minimum s hs => ?_
  obtain ⟨h, hmin⟩ := hs
  refine (does_readFile (by decide) _ h).bind fun maximum s hs => ?_
  obtain ⟨h, hmax⟩ := hs
  refine (does_readFile (by decide) _ h).bind fun desc s hs => ?_
  obtain ⟨h, hdesc⟩ := hs
  refine (does_close h fd₀).bind fun _ s h => ?_
  refine (does_close h fd₁).bind fun _ s h => ?_
  refine (does_close h fd₂).bind fun _ s h => ?_
  refine (does_close h fd₃).bind fun _ s h => ?_
  refine does_ret h fun t ht => ⟨ht, ?_⟩
  rw [cstr_of_kept h₀ hvalue, cstr_of_kept h₁ hmin, cstr_of_kept h₂ hmax, cstr_of_kept h₃ hdesc]

/-! #### The lines of the table -/

lemma zero_notMem_shown (v : CfgVar κ δ) (acc : Access) : 0 ∉ shown v acc := by
  have hnumber : ∀ x : Int32, 0 ∉ decimal x.toInt ++ [10] := fun x h =>
    (List.mem_append.1 h).elim (Kernel.Kstrtol.zero_notMem_decimal _) (by simp)
  cases acc with
  | val => exact hnumber _
  | min => exact hnumber _
  | max => exact hnumber _
  | desc => exact fun h => v.desc.noNul (List.mem_of_mem_take h)
  | _ => exact List.not_mem_nil

lemma kept_desc (v : CfgVar κ δ) :
    kept maxDescLen (shown v .desc) = withoutNewline (v.desc.bytes.take (textLen v.desc)) := by
  have hlen : (shown v .desc).length ≤ maxDescLen - 1 := by
    unfold shown
    rw [length_take_textLen, textLen_eq]
    exact (min_le_right _ _).trans (by decide)
  unfold kept
  rw [List.take_of_length_le hlen]
  rfl

/-- The line of a variable, with the value that the requests `reqs` have left. -/
def lineOf (vars : Table n κ δ) (reqs : List CfgMsg) (k : Fin n.1) (name : List UInt8) : Row where
  name
  value := decimal (tableAfter vars reqs k).val.toInt
  min := decimal (vars k).min.toInt
  max := decimal (vars k).max.toInt
  desc := withoutNewline ((vars k).desc.bytes.take (textLen (vars k).desc))

/-- The lines of the variables `names` show values of later and later times: each of them what the first
`q` requests have left, where `from` is the first `q` that is possible. -/
inductive Lines (vars : Table n κ δ) (names : Names) (wire : List CfgMsg) :
    ℕ → List (List UInt8) → List Row → Prop
  | nil (start : ℕ) : Lines vars names wire start [] []
  | cons {start q : ℕ} {name : List UInt8} {rest : List (List UInt8)} {rows : List Row} {k : Fin n.1}
    (hk : names.list[k.1]? = some name) (hle : start ≤ q) (hlt : q < wire.length)
    (hrest : Lines vars names wire (q + 1) rest rows) :
    Lines vars names wire start (name :: rest) (lineOf vars (wire.take q) k name :: rows)

lemma Lines.le {names : Names} {wire : List CfgMsg} {start start' : ℕ} {rest : List (List UInt8)} {rows : List Row}
    (h : Lines vars names wire start rest rows) (hle : start' ≤ start) :
    Lines vars names wire start' rest rows := by
  cases h with
  | nil => exact .nil start'
  | cons hk hle' hlt hrest => exact .cons hk (hle.trans hle') hlt hrest

lemma take_of_prefix {wire wire' : List CfgMsg} {q : ℕ} (hp : wire <+: wire') (hq : q ≤ wire.length) :
    wire'.take q = wire.take q := by
  obtain ⟨l, rfl⟩ := hp
  exact List.take_append_of_le_length hq

lemma Lines.mono {names : Names} {wire wire' : List CfgMsg} {start : ℕ} {rest : List (List UInt8)}
    {rows : List Row} (h : Lines vars names wire start rest rows) (hp : wire <+: wire') :
    Lines vars names wire' start rest rows := by
  induction h with
  | nil start => exact .nil start
  | cons hk hle hlt hrest ih =>
    rw [← take_of_prefix hp hlt.le]
    exact .cons hk hle (hlt.trans_le hp.length_le) ih

/-- What `clist` keeps of the four files of a variable is its line. -/
lemma kept_line (vars : Table n κ δ) (r₀ r₁ r₂ r₃ : List CfgMsg) (k : Fin n.1) (name : List UInt8) :
    (⟨name, kept maxNumericLen (shown (tableAfter vars r₀ k) .val),
      kept maxNumericLen (shown (tableAfter vars r₁ k) .min),
      kept maxNumericLen (shown (tableAfter vars r₂ k) .max),
      kept maxDescLen (shown (tableAfter vars r₃ k) .desc)⟩ : Row) = lineOf vars r₀ k name := by
  have hnumber : ∀ x : Int32, kept maxNumericLen (decimal x.toInt ++ [10]) = decimal x.toInt :=
    withoutNewline_number
  have hval : kept maxNumericLen (shown (tableAfter vars r₀ k) .val) =
      decimal (tableAfter vars r₀ k).val.toInt := hnumber _
  have hmin : kept maxNumericLen (shown (tableAfter vars r₁ k) .min) = decimal (vars k).min.toInt := by
    obtain ⟨_, h⟩ := tableAfter_eq vars r₁ k
    rw [h]
    exact hnumber _
  have hmax : kept maxNumericLen (shown (tableAfter vars r₂ k) .max) = decimal (vars k).max.toInt := by
    obtain ⟨_, h⟩ := tableAfter_eq vars r₂ k
    rw [h]
    exact hnumber _
  have hdesc : kept maxDescLen (shown (tableAfter vars r₃ k) .desc) =
      withoutNewline ((vars k).desc.bytes.take (textLen (vars k).desc)) := by
    obtain ⟨_, h⟩ := tableAfter_eq vars r₃ k
    rw [kept_desc, h]
  rw [hval, hmin, hmax, hdesc]
  rfl

lemma entry_of_listed {names : Names} (hn : names.list.length = n.1) {i : ℕ} {name : List UInt8}
    (hi : names.list[i]? = some name) :
    ∃ k : Fin n.1, k.1 = i ∧ entry? n (Int32.ofNat i) = some k := by
  have hlt : i < n.1 := hn ▸ (List.getElem?_eq_some_iff.1 hi).1
  refine ⟨⟨i, hlt⟩, rfl, entry?_eq_some.2 ?_⟩
  exact Int32.toInt_ofNat_of_lt (hlt.trans n.2)

lemma does_openKind {names : Names} {k : Fin n.1} {name : List UInt8} (hc : Complete names σ.k)
    (hn : names.list.length = n.1) (hfit : Fits mount names) (hk : names.list[k.1]? = some name)
    (h : Live sem first vars mine σ out files s) (kind : Kind) :
    Does sem mount mine (fun r t => (∃ errno, r = .error errno ∧
        Live sem first vars mine σ (out ++ cantOpen) [] t) ∨
      ∃ fd σ' q, r = .ok fd ∧ Later σ σ' ∧ σ.k.link.wire.length ≤ q ∧ q < σ'.k.link.wire.length ∧
        Live sem first vars mine σ' out
          (files ++ [(fd, shown (tableAfter vars (σ'.k.link.wire.take q) k) kind.access)]) t)
      (openFile mount kind.dirName name) s := by
  refine (does_openFile h kind.dirName name).mono fun r t ht => ?_
  rcases ht with ⟨errno, rfl, ht⟩ | ⟨fd, σ', q, info, rfl, hl, hlookup, hle, hlt, ht⟩
  · exact .inl ⟨errno, rfl, ht.forget (List.nil_sublist _)⟩
  · refine .inr ⟨fd, σ', q, rfl, hl, hle, hlt, ?_⟩
    have hpath : fileName mount kind.dirName name = pathOf mount kind name :=
      List.take_of_length_le (Nat.le_sub_one_of_lt (hfit name (List.mem_of_getElem? hk) kind))
    rw [hpath] at hlookup
    obtain ⟨i, hi, rfl⟩ := lookup_complete hc hlookup
    obtain ⟨k', rfl, hentry⟩ := entry_of_listed hn hi
    obtain rfl : k' = k := by
      refine Fin.ext ((List.getElem?_inj (hn.symm ▸ k'.2) names.distinct).1 ?_)
      rw [hi, hk]
    have hcontent : content vars (σ'.k.link.wire.take q) ⟨Int32.ofNat k', kind.access⟩ =
        shown (tableAfter vars (σ'.k.link.wire.take q) k') kind.access := by
      unfold content
      rw [hentry]
    rw [← hcontent]
    exact ht

/-- **`load`** returns the lines of the variables. -/
theorem does_load {names : Names} {rest : List (List UInt8)} (hc : Complete names σ.k)
    (hn : names.list.length = n.1) (hfit : Fits mount names) (hrest : ∀ name ∈ rest, name ∈ names.list)
    (h : Live sem first vars mine σ out [] s) :
    Does sem mount mine (fun r t => match r with
        | .ok rows => Live sem first vars mine σ out [] t ∧
          Lines vars names t.sys.k.link.wire σ.k.link.wire.length rest rows
        | .error _ => Live sem first vars mine σ (out ++ cantOpen) [] t) (load mount rest) s := by
  induction rest generalizing σ s with
  | nil => exact does_ret h fun t ht => ⟨ht, .nil _⟩
  | cons name rest ih =>
    obtain ⟨i, hi⟩ := List.mem_iff_getElem?.1 (hrest name List.mem_cons_self)
    obtain ⟨k, rfl, -⟩ := entry_of_listed hn hi
    refine (does_malloc h _).bind fun value s h => ?_
    refine (does_malloc h _).bind fun minimum s h => ?_
    refine (does_malloc h _).bind fun maximum s h => ?_
    refine (does_malloc h _).bind fun desc s h => ?_
    refine (does_openKind hc hn hfit hi h .val).bind fun r s hs => ?_
    rcases hs with ⟨errno, rfl, hs⟩ | ⟨fd₀, σ₀, q₀, rfl, hl₀, hle₀, hlt₀, hs⟩
    · exact does_ret hs fun t ht => ht
    have hc₀ := complete_same hl₀.files hc
    refine (does_openKind hc₀ hn hfit hi hs .min).bind fun r s hs => ?_
    rcases hs with ⟨errno, rfl, hs⟩ | ⟨fd₁, σ₁, q₁, rfl, hl₁, -, -, hs⟩
    · exact does_ret (hs.since hl₀) fun t ht => ht
    have hc₁ := complete_same hl₁.files hc₀
    refine (does_openKind hc₁ hn hfit hi hs .max).bind fun r s hs => ?_
    rcases hs with ⟨errno, rfl, hs⟩ | ⟨fd₂, σ₂, q₂, rfl, hl₂, -, -, hs⟩
    · exact does_ret (hs.since (hl₀.trans' hl₁)) fun t ht => ht
    have hc₂ := complete_same hl₂.files hc₁
    refine (does_openKind hc₂ hn hfit hi hs .desc).bind fun r s hs => ?_
    rcases hs with ⟨errno, rfl, hs⟩ | ⟨fd₃, σ₃, q₃, rfl, hl₃, -, -, hs⟩
    · exact does_ret (hs.since ((hl₀.trans' hl₁).trans' hl₂)) fun t ht => ht
    have hshown : ∀ (reqs : List CfgMsg) (acc : Access), 0 ∉ shown (tableAfter vars reqs k) acc :=
      fun _ _ => zero_notMem_shown _ _
    refine (does_loadFiles name value minimum maximum desc
      ⟨hshown _ _, hshown _ _, hshown _ _, hshown _ _⟩ hs).bind fun row s hs => ?_
    obtain ⟨hs, hrow⟩ := hs
    have hrow := hrow.trans (kept_line vars _ _ _ _ k name)
    have hl := ((hl₀.trans' hl₁).trans' hl₂).trans' hl₃
    have hwire : σ₀.k.link.wire <+: s.sys.k.link.wire :=
      (hl₁.wire.trans hl₂.wire).trans (hl₃.wire.trans hs.later.wire)
    have hrest' := fun name hname => hrest name (List.mem_cons_of_mem _ hname)
    have hcs := complete_same hs.later.files (complete_same hl₃.files hc₂)
    refine (ih hcs hrest' hs.now).bind fun r t ht => ?_
    cases r with
    | error errno => exact does_ret ((ht.since hs.later).since hl) fun t ht => ht
    | ok rows =>
      obtain ⟨ht, hlines⟩ := ht
      refine does_ret ht.now fun t' ht' => ⟨((ht'.since ht.later).since hs.later).since hl, ?_⟩
      have hlt : q₀ < s.sys.k.link.wire.length := hlt₀.trans_le hwire.length_le
      have hprefix := ht.later.wire.trans ht'.later.wire
      rw [hrow, ← take_of_prefix (hwire.trans hprefix) hlt₀.le]
      exact .cons hi hle₀ (hlt.trans_le hprefix.length_le) ((hlines.mono ht'.later.wire).le hlt)

/-! ### The table -/

/-- What `clist` prints, and what it returns. -/
inductive Printed (vars : Table n κ δ) (names : Names) (wire : List CfgMsg) (start : ℕ) :
    ℤ → List UInt8 → Prop
  | table {rows : List Row} (hne : listed names ≠ [])
      (hlines : Lines vars names wire start (listed names) rows) :
      Printed vars names wire start 0 (tableText rows)
  | nothing (h : listed names = []) : Printed vars names wire start 0 (ascii "no variables found\n")
  | noFolder (errno : ℕ+) :
      Printed vars names wire start (-errno) (ascii "scandir error: " ++ decimal errno ++ [10])
  | noFile (errno : ℕ+) : Printed vars names wire start (-errno)
      (cantOpen ++ (ascii "load returned " ++ decimal (-errno) ++ [10]))

lemma does_scandir {names : Names} (hc : Complete names σ.k) (path : List UInt8)
    (h : Live sem first vars mine σ out [] s) :
    Does sem mount mine (fun r t => Live sem first vars mine σ out [] t ∧ ∀ l, r = .ok l → l = listed names)
      (scandir path) s := by
  refine .call live_stable (fun _ _ => trivial) (fun s r s' hs hp => ?_) h
  obtain ⟨rfl, hnames⟩ := hp
  cases r with
  | error errno => exact does_ret hs fun t ht => ⟨ht, nofun⟩
  | ok l =>
    refine does_ret hs fun t ht => ⟨ht, ?_⟩
    rintro l' ⟨⟩
    exact sort_entries (complete_same hs.later.files hc) (hnames l rfl).2

lemma does_message {Q : ℤ → Shell n κ δ ε ω → Prop} (text : List UInt8) (r : ℤ)
    (h : Live sem first vars mine σ out [] s)
    (hQ : ∀ t, Live sem first vars mine σ (out ++ text) [] t → Q r t) :
    Does sem mount mine Q (fputs stdout text >>= fun _ => .ret r) s :=
  (prints_live.fputs h text).bind fun _ _ ht => does_ret ht hQ

/-- **`show`**, on a system that has listed its variables. -/
theorem does_showTable {names : Names} (hc : Complete names σ.k) (hn : names.list.length = n.1)
    (hfit : Fits mount names) (h : Live sem first vars mine σ [] [] s) :
    Does sem mount mine
      (fun r t => Printed vars names t.sys.k.link.wire σ.k.link.wire.length r t.out) (showTable mount) s := by
  refine (does_scandir hc _ h).bind fun r s hs => ?_
  obtain ⟨hs, hr⟩ := hs
  cases r with
  | error errno =>
    refine does_message _ _ hs fun t ht => ?_
    rw [ht.out]
    exact .noFolder errno
  | ok l =>
    obtain rfl := hr l rfl
    dsimp only
    split
    · rename_i hnil
      refine does_message _ _ hs fun t ht => ?_
      rw [ht.out]
      exact .nothing hnil
    · rename_i hne
      have hmem : ∀ name ∈ listed names, name ∈ names.list := fun name hname =>
        (List.mem_filter.1 ((List.mergeSort_perm _ _).mem_iff.1 hname)).1
      refine (does_load hc hn hfit hmem hs).bind fun r s hs => ?_
      cases r with
      | error errno =>
        refine does_message _ _ hs fun t ht => ?_
        rw [ht.out]
        exact .noFile errno
      | ok rows =>
        obtain ⟨hs, hlines⟩ := hs
        refine (prints_live.putsTable hs.now rows).bind fun _ t ht => ?_
        refine does_ret ht fun t ht => ?_
        rw [ht.out]
        exact .table hne (hlines.mono ht.later.wire)

end Loading

end CfgMgmt.System.Clist
