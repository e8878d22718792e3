import CfgMgmt.System.Clist
import CfgMgmt.System.Texts

/-!
# The display of the table

However the other clients interfere, what `clist` prints is the table of the variables, or a message
(`clist_shows`).  When they leave the system alone it can always finish, and prints the table of the
firmware (`clist_finishes`).
-/

namespace CfgMgmt.System.Display

open CfgMgmt.Lib CfgMgmt.Lib.Bytes CfgMgmt.Lib.Machine CfgMgmt.Lib.Process CfgMgmt.Lib.Replay
open CfgMgmt.Msg CfgMgmt.Firmware.Config CfgMgmt.Kernel.Linux CfgMgmt.Kernel.RpmsgLink
open CfgMgmt.Kernel.Files CfgMgmt.Kernel.Calls CfgMgmt.Kernel.Sessions CfgMgmt.System.Consistency
open CfgMgmt.System.Clist CfgMgmt.System.RoundTrip CfgMgmt.Tools.Numbers CfgMgmt.Tools.Show
open CfgMgmt.Tools.Clist (withoutNewline terminate terminate_spec storeChecked_of_le read_write_append)
open CfgMgmt.Tools.Clist (maxNumericLen maxDescLen)
open CfgMgmt.Kernel.LoadList (Names Complete)
open CfgMgmt.Kernel.Kstrtol (kstrtol)
open Relation (ReflTransGen)

/-! ### A system that is left alone -/

section Calm

variable {n : VarCount} {κ δ ε ω : Type} {sem : CbSem n κ δ ε ω} {first : ℕ} {vars : Table n κ δ}
  {σ t t' : Sys n κ δ ε ω} {fd : FileId} {info : VarAccessInfo} {text : List UInt8} {pos : ℕ}

/-- Every request was answered, and since `σ` nothing was written. -/
structure Calm (σ t : Sys n κ δ ε ω) : Prop where
  quiet : Quiet t
  reads : ∃ ms, t.k.link.wire = σ.k.link.wire ++ ms ∧ ∀ m ∈ ms, write? m = none

lemma Calm.of_wire (h : Calm σ t) (hq : Quiet t') (hw : t'.k.link.wire = t.k.link.wire) : Calm σ t' := by
  refine ⟨hq, ?_⟩
  rw [hw]
  exact h.reads

/-- **A file is opened, and the reply to its request arrives.** -/
theorem open_goes (h : Sound sem first vars t) (hc : Calm σ t) (hf : t.k.files fd = none)
    (hvar : IsVar n info) (hb : ∀ k, entry? n info.index = some k → Bare (t.fw.w.vars k)) :
    ∃ t₁ t₂ t₃, Moves sem t t₁ (.client (.openVar fd info true false false true 0)) ∧
      Moves sem t₁ t₂ .serve ∧ Moves sem t₂ t₃ .deliver ∧ Calm σ t₃ ∧
      (∃ file, t₃.k.files fd = some file ∧ file.fModeRead = true) ∧
      ∀ g ≠ fd, t₃.k.files g = t.k.files g := by
  obtain ⟨a, h⟩ := h
  have hq := hc.quiet
  obtain ⟨t₁, hs₁, hflow₁, -, -, hothers, ⟨p, hf₁⟩, m, hsent, -⟩ :
      ∃ t₁, step kstrtol sem t (.client (.openVar fd info true false false true 0)) = some t₁ ∧ _ :=
    open_reading h.flow hq hf hvar
  have hord : Orderly t (.client (.openVar fd info true false false true 0)) :=
    ⟨⟨hq.young h.flow, rfl, hvar, nofun, .inl rfl⟩, rfl, hb⟩
  have hyoung : Kernel.Matching.Young t₁.k := by
    refine young_of_few hflow₁ ?_
    rw [hsent.length, hsent.delivered]
  obtain ⟨t₃, hrun, -, hq₃, hfiles, -⟩ : ∃ t₃, run (step kstrtol sem) t₁ [.serve, .deliver] = some t₃ ∧ _ :=
    exchange hflow₁ hsent hf₁ (.inl rfl)
  obtain ⟨t₂, hs₂, hrun⟩ := run_cons_eq_some.1 hrun
  obtain ⟨t₃', hs₃, hrun⟩ := run_cons_eq_some.1 hrun
  obtain rfl := Option.some.inj hrun
  obtain ⟨hk₂, -⟩ := serve_keeps hs₂
  have hwire₃ : t₃'.k.link.wire = t₁.k.link.wire := by
    rw [(deliver_keeps hs₃).2.2.1, hk₂]
  refine ⟨t₁, t₂, t₃', ⟨hord, hs₁⟩, ⟨⟨⟨hyoung, trivial⟩, trivial⟩, hs₂⟩,
    ⟨⟨⟨hk₂ ▸ hyoung, trivial⟩, trivial⟩, hs₃⟩, ⟨hq₃, ?_⟩, ?_, fun g hg => ?_⟩
  · obtain ⟨ms, hms, hnone⟩ := hc.reads
    rw [hwire₃]
    rcases (open_step h hord hs₁).2 with hw | ⟨m, file, hw, -, -, hm⟩
    · rw [hw]
      exact ⟨ms, hms, hnone⟩
    · refine ⟨ms ++ [m], by rw [hw, hms, List.append_assoc], fun m' hm' => ?_⟩
      rcases List.mem_append.1 hm' with hm' | hm'
      · exact hnone m' hm'
      · rw [List.mem_singleton.1 hm']
        exact hm
  · rw [hfiles]
    exact ⟨_, hf₁, rfl⟩
  · rw [hfiles]
    exact hothers g hg

/-- A call that can copy everything returns as much as it was asked for. -/
lemma simpleRead_calm {src : List UInt8} (count : ℕ) (hsrc : src.take text.length = text) :
    (simpleReadFromBuffer count pos src text.length 0).1 = .ok ((text.drop pos).take count) := by
  rw [simpleReadFromBuffer_take hsrc]
  unfold simpleReadFromBuffer
  rw [if_neg (Int.not_lt.2 (Int.natCast_nonneg pos)), Int.toNat_natCast]
  dsimp only
  split
  · rename_i hend
    rcases hend with hend | rfl
    · rw [List.drop_eq_nil_of_le hend, List.take_nil]
    · rw [List.take_zero]
  · rename_i hend
    have htake : (text.drop pos).take (min count (text.length - pos)) = (text.drop pos).take count := by
      rw [List.take_eq_take_iff, List.length_drop]
      omega
    rw [if_neg (by omega), Nat.sub_zero, htake]

lemma answered_of_open {a : Account} {file : File} (h : Consistency.Inv kstrtol sem first vars a t)
    (hq : Quiet t) (hf : t.k.files fd = some file) (hread : file.fModeRead = true) :
    file.fModeWrite = false ∧ file.phase = .ready ∧ Answered t file (t.hist.record fd).request := by
  have hans := hq.answered h.flow hf (.inl hread)
  refine ⟨?_, (holds_content h hf hread hans).1, hans⟩
  rw [(h.files fd file hf).mode, hread]
  rfl

theorem read_goes (h : Sound sem first vars t) (hc : Calm σ t) (hr : Reads vars fd text pos t)
    (count : ℕ) :
    ∃ t', Moves sem t t' (.client (.read fd count none false 0)) ∧
      t'.k.log.getLast? = some (fd, .read (.ok ((text.drop pos).take count))) ∧ Calm σ t' ∧
      (∃ file, t'.k.files fd = some file ∧ file.fModeRead = true) ∧
      ∀ g ≠ fd, t'.k.files g = t.k.files g := by
  obtain ⟨a, h⟩ := h
  have hq := hc.quiet
  obtain ⟨file, hf, hread, hpos, -, htext⟩ := hr
  obtain ⟨-, hready, hans⟩ := answered_of_open h hq hf hread
  obtain ⟨-, hholds⟩ := holds_content h hf hread hans
  rw [htext] at hholds
  have hshown : (simpleReadFromBuffer count file.pos (t.k.transOf file).buf.bytes
      (t.k.transOf file).len.toUInt32.toNat 0).1 = .ok ((text.drop pos).take count) := by
    rw [hpos, hholds.len]
    exact simpleRead_calm count hholds.buf
  obtain ⟨t', hs, -, hq', -, hlog, hlink, ⟨pos', hf'⟩, hothers⟩ :=
    read_reading h.flow hq hf hready hread hans.valid hans.err hshown
  have hord : Orderly t (.client (.read fd count none false 0)) := by
    refine ⟨⟨hq.young h.flow, rfl, fun file' hf' => ?_⟩, trivial⟩
    obtain rfl := Option.some.inj (hf.symm.trans hf')
    exact hans.valid
  refine ⟨t', ⟨hord, hs⟩, ?_, hc.of_wire hq' (congrArg Link.wire hlink), ⟨_, hf', hread⟩, hothers⟩
  rw [hlog, List.getLast?_concat]

theorem close_goes (h : Sound sem first vars t) (hc : Calm σ t)
    (hf : ∃ file, t.k.files fd = some file ∧ file.fModeRead = true) :
    ∃ t', Moves sem t t' (.client (.release fd 0)) ∧ Calm σ t' ∧ t'.k.files fd = none ∧
      ∀ g ≠ fd, t'.k.files g = t.k.files g := by
  obtain ⟨a, h⟩ := h
  have hq := hc.quiet
  obtain ⟨file, hf, hread⟩ := hf
  obtain ⟨hro, hready, hans⟩ := answered_of_open h hq hf hread
  obtain ⟨t', hs, -, hq', -, -, hnone, hothers⟩ := close_reading h.flow hq hf hready hro hans.valid
  have hord : Orderly t (.client (.release fd 0)) := by
    refine ⟨⟨hq.young h.flow, rfl, fun file' hf' _ => ?_⟩, trivial⟩
    obtain rfl := Option.some.inj (hf.symm.trans hf')
    exact hans.valid
  refine ⟨t', ⟨hord, hs⟩, hc.of_wire hq' ?_, hnone, hothers⟩
  obtain ⟨file', hf', -, -, ⟨-, hwire, -⟩ | ⟨hacc, -⟩⟩ := release_step h hord hs
  · exact hwire
  · obtain rfl := Option.some.inj (hf.symm.trans hf')
    exact absurd (hro.symm.trans hacc.1) Bool.false_ne_true

end Calm

/-! ### `clist` can go on -/

section Goes

variable {n : VarCount} {κ δ ε ω : Type} {sem : CbSem n κ δ ε ω} {first : ℕ} {vars : Table n κ δ}
  {mount : List UInt8} {mine : Set FileId} {σ σ' : Sys n κ δ ε ω} {s : Shell n κ δ ε ω}
  {out text : List UInt8} {files : List (FileId × List UInt8)} {fds opened : List FileId} {fd : FileId}
  {info : VarAccessInfo}

/-- The system is calm; of the files `fds` those in `opened` are open for reading, and the others are not
open. -/
structure Still (σ : Sys n κ δ ε ω) (fds opened : List FileId) (t : Sys n κ δ ε ω) : Prop where
  calm : Calm σ t
  isOpen : ∀ fd ∈ opened, ∃ file, t.k.files fd = some file ∧ file.fModeRead = true
  shut : ∀ fd ∈ fds, fd ∉ opened → t.k.files fd = none

/-- The program may return with `Q`. -/
abbrev May {α : Type} (sem : CbSem n κ δ ε ω) (mount : List UInt8) (mine : Set FileId)
    (Q : α → Shell n κ δ ε ω → Prop) (p : Cli α) (s : Shell n κ δ ε ω) : Prop :=
  Reaches (shell sem mount mine) Q p s

lemma may_malloc (hs : Still σ fds opened s.sys) (h : Live sem first vars mine σ' out files s) (size : ℕ) :
    May sem mount mine (fun _ t => Still σ fds opened t.sys ∧ Live sem first vars mine σ' out files t)
      (malloc size) s := by
  have hp : (shell sem mount mine).perform s (.malloc size) (Buf.zero size) s := rfl
  exact .call hp (.ret ⟨hs, h⟩)

lemma may_fputs (hs : Still σ fds opened s.sys) (text : List UInt8) :
    May sem mount mine (fun _ t => Still σ fds opened t.sys) (fputs stdout text) s := by
  have hp : (shell sem mount mine).perform s (.write stdout text) ()
    { s with out := if stdout = stdout then s.out ++ text else s.out } := rfl
  exact .call hp (.ret hs)

lemma others_of_moves {t : Sys n κ δ ε ω} {e : Event} (he : e = .serve ∨ e = .deliver)
    (hm : Moves sem s.sys t e) : (shell sem mount mine).others s { s with sys := t } := by
  refine ⟨e, fun e' h => ?_, rfl, hm⟩
  subst h
  rcases he with he | he <;> cases he

theorem may_openFile (hs : Still σ fds opened s.sys) (h : Live sem first vars mine σ' out files s)
    (hfd : fd ∈ mine) (hfds : fd ∈ fds) (hnew : fd ∉ opened) {dir : String} {name : List UInt8}
    (hlookup : lookup mount s.sys.k (fileName mount dir name) = some info) (hvar : IsVar n info)
    (hb : ∀ k, entry? n info.index = some k → Bare (s.sys.fw.w.vars k)) :
    May sem mount mine (fun r t => r = .ok fd ∧ Still σ fds (opened ++ [fd]) t.sys)
      (openFile mount dir name) s := by
  obtain ⟨t₁, t₂, t₃, h₁, h₂, h₃, hcalm, hopen, hothers⟩ :=
    open_goes h.sound hs.calm (hs.shut fd hfds hnew) hvar hb
  have hp : (shell sem mount mine).perform s (.openFile (fileName mount dir name))
      (Except.ok fd : Except ℕ+ ℕ) { s with sys := t₁ } :=
    .inr ⟨fd, info, rfl, hfd, hlookup, rfl, h₁⟩
  have ho₂ : (shell sem mount mine).others { s with sys := t₁ } { s with sys := t₂ } :=
    others_of_moves (.inl rfl) h₂
  have ho₃ : (shell sem mount mine).others { s with sys := t₂ } { s with sys := t₃ } :=
    others_of_moves (.inr rfl) h₃
  refine .call hp (.others (.tail (.single ho₂) ho₃) (.ret ⟨rfl, hcalm, fun g hg => ?_, fun g hg hn => ?_⟩))
  · by_cases hgf : g = fd
    · exact hgf ▸ hopen
    · rw [hothers g hgf]
      exact hs.isOpen g ((List.mem_append.1 hg).resolve_right (by simpa using hgf))
  · rw [List.mem_append, not_or, List.mem_singleton] at hn
    rw [hothers g hn.2]
    exact hs.shut g hg hn.1

lemma Still.of_open {t : Sys n κ δ ε ω} (hs : Still σ fds opened s.sys) (hfd : fd ∈ opened)
    (hcalm : Calm σ t) (hopen : ∃ file, t.k.files fd = some file ∧ file.fModeRead = true)
    (hothers : ∀ g ≠ fd, t.k.files g = s.sys.k.files g) : Still σ fds opened t := by
  refine ⟨hcalm, fun g hg => ?_, fun g hg hn => ?_⟩
  · by_cases hgf : g = fd
    · exact hgf ▸ hopen
    · rw [hothers g hgf]
      exact hs.isOpen g hg
  · rw [hothers g fun hgf => hn (hgf ▸ hfd)]
    exact hs.shut g hg hn

/-- **The loop of `read_fd` can go on** to the end of the file, or until the buffer is full. -/
theorem may_readLoop {m size bytes : ℕ} {buf : Buf m} (hb : bytes ≤ size) (hsize : size ≤ m)
    (hl : bytes ≤ text.length) (hs : Still σ fds opened s.sys) (hfd : fd ∈ opened)
    (h : Busy sem first vars mine σ' out files fd text bytes s) :
    May sem mount mine (fun r t => (∃ b, r.1 = some b) ∧ Still σ fds opened t.sys)
      (readLoop fd size bytes buf) s := by
  fun_induction readLoop fd size bytes buf generalizing s with
  | case1 bytes buf ih =>
    obtain ⟨t, hm, hlog, hcalm, hopen, hothers⟩ := read_goes h.live.sound hs.calm h.reads (size - bytes)
    have hp : (shell sem mount mine).perform s (.read fd (size - bytes))
        (some ⟨(text.drop bytes).take (size - bytes), List.length_take_le _ _⟩ :
          Option { data : List UInt8 // data.length ≤ size - bytes }) { s with sys := t } :=
      ⟨0, _, rfl, hm, hlog, rfl⟩
    have hstill : Still σ fds opened t := hs.of_open hfd hcalm hopen hothers
    have hlive : Live sem first vars mine σ' out files { s with sys := t } :=
      h.live.moves hm rfl fun x hx e' he => by
        obtain rfl := Event.client.inj he
        exact fun hfd => h.other x hx (Option.some.inj hfd).symm
    have hreads := (h.reads.read h.live.sound hm hlog rfl).2
    refine .call hp ?_
    have hle := List.length_take_le (size - bytes) (text.drop bytes)
    have hlen : ((text.drop bytes).take (size - bytes)).length ≤ text.length - bytes := by
      rw [← List.length_drop]
      exact List.length_take_le' ..
    have hb' : bytes + ((text.drop bytes).take (size - bytes)).length ≤ size := by omega
    have hl' : bytes + ((text.drop bytes).take (size - bytes)).length ≤ text.length := by omega
    dsimp only
    rw [storeChecked_of_le (hb'.trans hsize)]
    split
    · exact .ret ⟨⟨bytes, rfl⟩, hstill⟩
    · rename_i hne
      exact ih ⟨_, hle⟩ hne _ hb' hl' hstill ⟨hlive, hreads, h.other, h.mine⟩

/-- **`read_fd` can return**, unless the file is empty. -/
theorem may_readFd {m : ℕ} {buf : Buf m} (hne : text.take (m - 1) ≠ []) (hs : Still σ fds opened s.sys)
    (hfd : fd ∈ opened) (h : Busy sem first vars mine σ' out files fd text 0 s) :
    May sem mount mine (fun r t => 0 ≤ r.1 ∧ Still σ fds opened t.sys) (readFd fd buf) s := by
  have hbuf : buf.read 0 = text.take 0 := rfl
  have hloop : May sem mount mine (fun r t => (∃ b, r.1 = some b) ∧ Still σ fds opened t.sys)
      (readLoop fd (m - 1) 0 buf) s :=
    may_readLoop (Nat.zero_le _) (Nat.sub_le m 1) (Nat.zero_le _) hs hfd h
  refine (hloop.ensures (does_readLoop (Nat.zero_le _) (Nat.sub_le _ _) (Nat.zero_le _) hbuf h)).bind
    fun r t ht => ?_
  obtain ⟨⟨⟨b, hb⟩, hs⟩, -, hread⟩ := ht
  obtain ⟨bytes, buf'⟩ := r
  obtain rfl : bytes = some b := hb
  obtain ⟨hmin, hread⟩ := hread b rfl
  have hlen : (text.take (m - 1)).length = b := by
    rw [List.length_take, hmin, min_comm]
  have htake : buf'.read (text.take (m - 1)).length = text.take (m - 1) := by
    rw [hlen, hread, List.take_eq_take_iff]
    omega
  have hpos := List.length_pos_iff.2 hne
  obtain ⟨buf₂, hterm, -⟩ := terminate_spec htake hne (by omega)
  rw [hlen] at hterm
  dsimp only
  rw [hterm]
  exact .ret ⟨Int.natCast_nonneg b, hs⟩

/-- **`load` can read a file**, unless it is empty. -/
theorem may_readFile {m : ℕ} {buf : Buf m} (what : String) (hne : text.take (m - 1) ≠ [])
    (hs : Still σ fds opened s.sys) (hfd : fd ∈ opened)
    (h : Live sem first vars mine σ' out ((fd, text) :: files) s) :
    May sem mount mine
      (fun _ t => Still σ fds opened t.sys ∧ Live sem first vars mine σ' out files t)
      (readFile fd buf what) s := by
  have hm : 0 < m := by
    have hpos := List.length_pos_iff.2 hne
    rw [List.length_take] at hpos
    omega
  have hread : May sem mount mine (fun _ t => Still σ fds opened t.sys) (readFile fd buf what) s := by
    refine (may_readFd hne hs hfd h.busy).bind fun r t ht => ?_
    rw [if_neg (Int.not_lt.2 ht.1)]
    exact .ret ht.2
  exact (hread.ensures (does_readFile hm what h)).mono fun _ t ht => ⟨ht.1, ht.2.1⟩

lemma may_close (hs : Still σ fds (fd :: opened) s.sys) (hnew : fd ∉ opened)
    (h : Live sem first vars mine σ' out [] s) :
    May sem mount mine (fun _ t => Still σ fds opened t.sys ∧ Live sem first vars mine σ' out [] t)
      (close fd) s := by
  obtain ⟨t, hm, hcalm, hnone, hothers⟩ := close_goes h.sound hs.calm (hs.isOpen fd List.mem_cons_self)
  have hp : (shell sem mount mine).perform s (.close fd) () { s with sys := t } := ⟨rfl, hm⟩
  have hlive : Live sem first vars mine σ' out [] { s with sys := t } := h.moves hm rfl (by simp)
  refine .call hp (.ret ⟨⟨hcalm, fun g hg => ?_, fun g hg hn => ?_⟩, hlive⟩)
  · have hgf : g ≠ fd := fun e => hnew (e ▸ hg)
    rw [hothers g hgf]
    exact hs.isOpen g (List.mem_cons_of_mem _ hg)
  · by_cases hgf : g = fd
    · rw [hgf]
      exact hnone
    · rw [hothers g hgf]
      exact hs.shut g hg (by simp [hgf, hn])

/-- **`load` can read the files of a variable, and close them.** -/
theorem may_loadFiles {fd₀ fd₁ fd₂ fd₃ : FileId} {t₀ t₁ t₂ t₃ : List UInt8} (name : List UInt8)
    (value minimum maximum : Buf maxNumericLen) (desc : Buf maxDescLen)
    (hne : t₀ ≠ [] ∧ t₁ ≠ [] ∧ t₂ ≠ [] ∧ t₃ ≠ []) (hnd : [fd₀, fd₁, fd₂, fd₃].Nodup)
    (hs : Still σ fds [fd₀, fd₁, fd₂, fd₃] s.sys)
    (h : Live sem first vars mine σ' out [(fd₀, t₀), (fd₁, t₁), (fd₂, t₂), (fd₃, t₃)] s) :
    May sem mount mine (fun _ t => Still σ fds [] t.sys)
      (loadFiles name fd₀ fd₁ fd₂ fd₃ value minimum maximum desc) s := by
  obtain ⟨h₀, h₁, h₂, h₃⟩ := hne
  have htake : ∀ {m : ℕ} {t : List UInt8}, t ≠ [] → 1 < m → t.take (m - 1) ≠ [] := by
    intro m t ht hm hnil
    rcases List.take_eq_nil_iff.1 hnil with h0 | h0
    · omega
    · exact ht h0
  refine (may_readFile _ (htake h₀ (by decide)) hs (by simp) h).bind fun value s hs => ?_
  obtain ⟨hs, h⟩ := hs
  refine (may_readFile _ (htake h₁ (by decide)) hs (by simp) h).bind fun minimum s hs => ?_
  obtain ⟨hs, h⟩ := hs
  refine (may_readFile _ (htake h₂ (by decide)) hs (by simp) h).bind fun maximum s hs => ?_
  obtain ⟨hs, h⟩ := hs
  refine (may_readFile _ (htake h₃ (by decide)) hs (by simp) h).bind fun desc s hs => ?_
  obtain ⟨hs, h⟩ := hs
  obtain ⟨n₀, hnd⟩ := List.nodup_cons.1 hnd
  obtain ⟨n₁, hnd⟩ := List.nodup_cons.1 hnd
  obtain ⟨n₂, hnd⟩ := List.nodup_cons.1 hnd
  refine (may_close hs n₀ h).bind fun _ s hs => ?_
  obtain ⟨hs, h⟩ := hs
  refine (may_close hs n₁ h).bind fun _ s hs => ?_
  obtain ⟨hs, h⟩ := hs
  refine (may_close hs n₂ h).bind fun _ s hs => ?_
  obtain ⟨hs, h⟩ := hs
  refine (may_close hs List.not_mem_nil h).bind fun _ s hs => ?_
  obtain ⟨hs, h⟩ := hs
  exact .ret hs

/-! #### The variables -/

variable {names : Names} {name : List UInt8} {k : Fin n.1}

lemma lookup_listed (mount : List UInt8) {d : Driver} (hc : Complete names d) {i : ℕ} (hi : names.list[i]? = some name)
    (kind : Kind) : lookup mount d (pathOf mount kind name) = some ⟨Int32.ofNat i, kind.access⟩ := by
  obtain ⟨hlt, hget⟩ := List.getElem?_eq_some_iff.1 hi
  have hmem : (name, (⟨Int32.ofNat i, kind.access⟩ : VarAccessInfo)) ∈
      names.list.mapIdx fun i name => (name, (⟨Int32.ofNat i, kind.access⟩ : VarAccessInfo)) :=
    List.mem_mapIdx.2 ⟨i, hlt, by rw [hget]⟩
  rw [← hc.files kind] at hmem
  obtain ⟨x, hx, he⟩ := List.mem_map.1 hmem
  obtain ⟨hxd, hparent⟩ := List.mem_filter.1 (List.mem_reverse.1 hx)
  obtain ⟨rfl, -⟩ := Prod.mk.inj he
  have hsome : (lookup mount d (pathOf mount kind x.name)).isSome = true := by
    unfold lookup
    rw [Option.isSome_map, List.find?_isSome]
    refine ⟨x, hxd, ?_⟩
    rw [of_decide_eq_true hparent]
    simp
  obtain ⟨info, hinfo⟩ := Option.isSome_iff_exists.1 hsome
  obtain ⟨i', hi', rfl⟩ := lookup_complete hc hinfo
  obtain rfl : i' = i := (List.getElem?_inj (List.getElem?_eq_some_iff.1 hi').1 names.distinct).1
    (hi'.trans hi.symm)
  exact hinfo

/-- **`load` can open a file of a variable.** -/
theorem may_openKind (hc : Complete names σ'.k) (hn : names.list.length = n.1) (hfit : Fits mount names)
    (hk : names.list[k.1]? = some name) (hb : ∀ k, Bare (vars k)) (hs : Still σ fds opened s.sys)
    (h : Live sem first vars mine σ' out files s) (hfd : fd ∈ mine) (hfds : fd ∈ fds)
    (hnew : fd ∉ opened) (kind : Kind) :
    May sem mount mine (fun r t => r = .ok fd ∧ Still σ fds (opened ++ [fd]) t.sys ∧
      ∃ σ'' q, Later σ' σ'' ∧ Live sem first vars mine σ'' out
        (files ++ [(fd, shown (tableAfter vars (σ''.k.link.wire.take q) k) kind.access)]) t)
      (openFile mount kind.dirName name) s := by
  have hpath : fileName mount kind.dirName name = pathOf mount kind name :=
    List.take_of_length_le (Nat.le_sub_one_of_lt (hfit name (List.mem_of_getElem? hk) kind))
  have hlookup := lookup_listed mount (complete_same h.later.files hc) hk kind
  obtain ⟨k', hk', hentry⟩ := entry_of_listed hn hk
  have hvar : IsVar n ⟨Int32.ofNat k, kind.access⟩ := by
    refine ⟨⟨k', hentry⟩, ?_, ?_⟩ <;> cases kind <;> exact Access.noConfusion
  have hbare : ∀ j, entry? n (Int32.ofNat k) = some j → Bare (s.sys.fw.w.vars j) := by
    intro j _
    obtain ⟨a, hinv⟩ := h.sound
    rw [hinv.applied]
    exact bare_tableAfter.2 (hb j)
  have hopen := may_openFile hs h hfd hfds hnew (hpath ▸ hlookup) hvar hbare
  refine (hopen.ensures (does_openKind hc hn hfit hk h kind)).mono fun r t ht => ?_
  obtain ⟨⟨rfl, hs⟩, ⟨errno, he, -⟩ | ⟨fd', σ'', q, he, hl, -, -, ht⟩⟩ := ht
  · cases he
  · obtain rfl := Except.ok.inj he
    exact ⟨rfl, hs, σ'', q, hl, ht⟩

lemma shown_ne_nil {v : CfgVar κ δ} (hd : v.desc.bytes ≠ []) (kind : Kind) : shown v kind.access ≠ [] := by
  have hnumber : ∀ x : Int32, decimal x.toInt ++ [10] ≠ [] := fun x => by simp
  cases kind with
  | val => exact hnumber _
  | min => exact hnumber _
  | max => exact hnumber _
  | desc =>
    intro hnil
    rcases List.take_eq_nil_iff.1 hnil with h0 | h0
    · have hpos := List.length_pos_iff.2 hd
      rw [textLen_eq, CStr.strlen] at h0
      have h76 : cfgBufLen - sizeofCfgMsg = 76 := rfl
      omega
    · exact hd h0

theorem may_load {rest : List (List UInt8)} {fd₀ fd₁ fd₂ fd₃ : FileId} (hc : Complete names σ'.k)
    (hn : names.list.length = n.1) (hfit : Fits mount names) (hrest : ∀ name ∈ rest, name ∈ names.list)
    (hb : ∀ k, Bare (vars k)) (hd : ∀ k, (vars k).desc.bytes ≠ []) (hnd : [fd₀, fd₁, fd₂, fd₃].Nodup)
    (hmine : ∀ fd ∈ [fd₀, fd₁, fd₂, fd₃], fd ∈ mine) (hs : Still σ [fd₀, fd₁, fd₂, fd₃] [] s.sys)
    (h : Live sem first vars mine σ' out [] s) :
    May sem mount mine (fun r t => (∃ rows, r = .ok rows) ∧ Still σ [fd₀, fd₁, fd₂, fd₃] [] t.sys)
      (load mount rest) s := by
  induction rest generalizing σ' s with
  | nil => exact .ret ⟨⟨[], rfl⟩, hs⟩
  | cons name rest ih =>
    obtain ⟨i, hi⟩ := List.mem_iff_getElem?.1 (hrest name List.mem_cons_self)
    obtain ⟨k, rfl, -⟩ := entry_of_listed hn hi
    have hnd' := hnd
    simp only [List.nodup_cons, List.mem_cons, List.not_mem_nil, or_false, not_or] at hnd'
    obtain ⟨⟨h01, h02, h03⟩, ⟨h12, h13⟩, h23, -, -⟩ := hnd'
    refine (may_malloc hs h _).bind fun value s hs => ?_
    refine (may_malloc hs.1 hs.2 _).bind fun minimum s hs => ?_
    refine (may_malloc hs.1 hs.2 _).bind fun maximum s hs => ?_
    refine (may_malloc hs.1 hs.2 _).bind fun desc s hs => ?_
    obtain ⟨hs, h⟩ := hs
    refine (may_openKind hc hn hfit hi hb hs h (hmine fd₀ (by simp)) (by simp) (by simp) .val).bind
      fun r s hr => ?_
    obtain ⟨rfl, hs, σ₀, q₀, hl₀, h⟩ := hr
    have hc₀ := complete_same hl₀.files hc
    refine (may_openKind hc₀ hn hfit hi hb hs h (hmine fd₁ (by simp)) (by simp)
      (by simp [Ne.symm h01]) .min).bind fun r s hr => ?_
    obtain ⟨rfl, hs, σ₁, q₁, hl₁, h⟩ := hr
    have hc₁ := complete_same hl₁.files hc₀
    refine (may_openKind hc₁ hn hfit hi hb hs h (hmine fd₂ (by simp)) (by simp)
      (by simp [Ne.symm h02, Ne.symm h12]) .max).bind fun r s hr => ?_
    obtain ⟨rfl, hs, σ₂, q₂, hl₂, h⟩ := hr
    have hc₂ := complete_same hl₂.files hc₁
    refine (may_openKind hc₂ hn hfit hi hb hs h (hmine fd₃ (by simp)) (by simp)
      (by simp [Ne.symm h03, Ne.symm h13, Ne.symm h23]) .desc).bind fun r s hr => ?_
    obtain ⟨rfl, hs, σ₃, q₃, hl₃, h⟩ := hr
    have hc₃ := complete_same hl₃.files hc₂
    have hne : ∀ (reqs : List CfgMsg) (kind : Kind), shown (tableAfter vars reqs k) kind.access ≠ [] := by
      intro reqs kind
      obtain ⟨_, he⟩ := tableAfter_eq vars reqs k
      refine shown_ne_nil ?_ kind
      rw [he]
      exact hd k
    have hzero : ∀ (reqs : List CfgMsg) (kind : Kind), 0 ∉ shown (tableAfter vars reqs k) kind.access :=
      fun _ _ => zero_notMem_shown _ _
    refine ((may_loadFiles name value minimum maximum desc
      ⟨hne _ .val, hne _ .min, hne _ .max, hne _ .desc⟩ hnd hs h).ensures
      (does_loadFiles name value minimum maximum desc
        ⟨hzero _ .val, hzero _ .min, hzero _ .max, hzero _ .desc⟩ h)).bind fun row s hr => ?_
    obtain ⟨hs, h, -⟩ := hr
    have hrest' := fun name hname => hrest name (List.mem_cons_of_mem _ hname)
    refine (ih hc₃ hrest' hs h).bind fun r t ht => ?_
    obtain ⟨⟨rows, rfl⟩, ht⟩ := ht
    exact .ret ⟨⟨row :: rows, rfl⟩, ht⟩

lemma may_putsPad (hs : Still σ fds opened s.sys) (str : List UInt8) (len : ℕ) :
    May sem mount mine (fun _ t => Still σ fds opened t.sys) (putsPad str len) s :=
  (may_fputs hs str).bind fun _ _ hs => may_fputs hs _

lemma may_putsRows (hs : Still σ fds opened s.sys) (wName wVal wMin wMax : ℕ) (rows : List Row) :
    May sem mount mine (fun _ t => Still σ fds opened t.sys) (putsRows wName wVal wMin wMax rows) s := by
  induction rows generalizing s with
  | nil => exact .ret hs
  | cons row rows ih =>
    refine Reaches.bind ?_ fun _ s hs => ih hs
    refine (may_putsPad hs _ _).bind fun _ s hs => ?_
    refine (may_putsPad hs _ _).bind fun _ s hs => ?_
    refine (may_putsPad hs _ _).bind fun _ s hs => ?_
    refine (may_putsPad hs _ _).bind fun _ s hs => ?_
    exact may_fputs hs _

theorem may_showTable {fd₀ fd₁ fd₂ fd₃ : FileId} (hc : Complete names σ'.k) (hn : names.list.length = n.1)
    (hfit : Fits mount names) (hval : (mount ++ ascii "/val").length < fnBufLen)
    (hb : ∀ k, Bare (vars k)) (hd : ∀ k, (vars k).desc.bytes ≠ []) (hnd : [fd₀, fd₁, fd₂, fd₃].Nodup)
    (hmine : ∀ fd ∈ [fd₀, fd₁, fd₂, fd₃], fd ∈ mine) (hs : Still σ [fd₀, fd₁, fd₂, fd₃] [] s.sys)
    (h : Live sem first vars mine σ' [] [] s) :
    May sem mount mine (fun r t => r = 0 ∧ Still σ [fd₀, fd₁, fd₂, fd₃] [] t.sys) (showTable mount) s := by
  have hpath : snprintf fnBufLen (mount ++ ascii "/val") = mount ++ ascii "/val" :=
    List.take_of_length_le (Nat.le_sub_one_of_lt hval)
  have hp : (shell sem mount mine).perform s (.entries (snprintf fnBufLen (mount ++ ascii "/val")))
      (Except.ok (valEntries s.sys.k) : Except ℕ+ (List (List UInt8))) s := by
    refine ⟨rfl, ?_⟩
    rintro _ ⟨⟩
    exact ⟨hpath, List.Perm.refl _⟩
  refine .call hp ?_
  dsimp only
  rw [sort_entries (complete_same h.later.files hc) (List.Perm.refl _)]
  show May sem mount mine _ (if listed names = [] then _ else _) s
  split
  · exact (may_fputs hs _).bind fun _ _ hs => .ret ⟨rfl, hs⟩
  · have hmem : ∀ name ∈ listed names, name ∈ names.list := fun name hname =>
      (List.mem_filter.1 ((List.mergeSort_perm _ _).mem_iff.1 hname)).1
    refine (may_load hc hn hfit hmem hb hd hnd hmine hs h).bind fun r s hr => ?_
    obtain ⟨⟨rows, rfl⟩, hs⟩ := hr
    exact (may_putsRows hs _ _ _ _ _).bind fun _ _ hs => .ret ⟨rfl, hs⟩

end Goes

/-! ### The table -/

section Table

variable {n : VarCount} {κ δ ε ω : Type} {sem : CbSem n κ δ ε ω} {idle : Idle} {fw : Cfg n κ δ ε ω}
  {es : List Event} {s₀ : Sys n κ δ ε ω} {names : Names} {mount : List UInt8} {mine : Set FileId}

/-- The row shows the variable with this name as it is in the table of the firmware. -/
def RowOf (vars : Table n κ δ) (names : Names) (name : List UInt8) (row : Row) : Prop :=
  ∃ k : Fin n.1, names.list[k.1]? = some name ∧ row = lineOf vars [] k name

lemma tableAfter_reads (vars : Table n κ δ) (reqs : List CfgMsg) {ms : List CfgMsg}
    (h : ∀ m ∈ ms, write? m = none) : tableAfter vars (reqs ++ ms) = tableAfter vars reqs := by
  unfold tableAfter replay
  rw [List.filterMap_append, List.filterMap_eq_nil_iff.2 h, List.append_nil]

/-- While nothing is written, every moment shows the same table. -/
lemma rows_of_lines {vars vars₀ : Table n κ δ} {wire reqs ms : List CfgMsg} {start : ℕ}
    {rest : List (List UInt8)} {rows : List Row} (h : Lines vars names wire start rest rows)
    (hstart : reqs.length ≤ start) (hwire : wire = reqs ++ ms) (hms : ∀ m ∈ ms, write? m = none)
    (hvars : vars₀ = tableAfter vars reqs) : List.Forall₂ (RowOf vars₀ names) rest rows := by
  induction h with
  | nil start => exact .nil
  | @cons start q name rest rows k hk hle hlt hrest ih =>
    refine .cons ⟨k, hk, ?_⟩ (ih (by omega))
    have htake : wire.take q = reqs ++ ms.take (q - reqs.length) := by
      rw [hwire, List.take_append, List.take_of_length_le (by omega)]
    have htable : tableAfter vars (wire.take q) = vars₀ := by
      rw [htake, hvars]
      exact tableAfter_reads vars reqs fun m hm => hms m (List.mem_of_mem_take hm)
    obtain ⟨val, hval⟩ := tableAfter_eq vars (wire.take q) k
    rw [htable] at hval
    unfold lineOf
    rw [htable, show tableAfter vars₀ [] = vars₀ from rfl, hval]

lemma sound_run (hp : Steps (step kstrtol sem) Orderly (start idle fw) es)
    (hr : run (step kstrtol sem) (start idle fw) es = some s₀) :
    Sound sem idle.k.link.drawn fw.w.vars s₀ :=
  run_invariant_of_events (P := fun _ => Sound sem idle.k.link.drawn fw.w.vars)
    (fun _ _ _ _ h ho hs => h.moves ⟨ho, hs⟩) ⟨_, inv_start idle fw⟩ hp hr

lemma live_start (hp : Steps (step kstrtol sem) Orderly (start idle fw) es)
    (hr : run (step kstrtol sem) (start idle fw) es = some s₀) :
    Live sem idle.k.link.drawn fw.w.vars mine s₀ [] [] ⟨s₀, []⟩ :=
  ⟨sound_run hp hr, .refl s₀, rfl, List.nodup_nil, nofun⟩

/-- Some run of `clist` returns 0, and nothing is written in it. -/
lemma finishing_run {fd₀ fd₁ fd₂ fd₃ : FileId} (hp : Steps (step kstrtol sem) Orderly (start idle fw) es)
    (hr : run (step kstrtol sem) (start idle fw) es = some s₀) (hq : Quiet s₀)
    (hc : Complete names s₀.k) (hn : names.list.length = n.1) (hfit : Fits mount names)
    (hval : (mount ++ ascii "/val").length < fnBufLen) (hb : ∀ k, Bare (fw.w.vars k))
    (hd : ∀ k, (fw.w.vars k).desc.bytes ≠ []) (hnd : [fd₀, fd₁, fd₂, fd₃].Nodup)
    (hfree : ∀ fd ∈ [fd₀, fd₁, fd₂, fd₃], fd ∈ mine ∧ s₀.k.files fd = none) :
    ∃ s, Runs (shell sem mount mine) (⟨s₀, []⟩, showTable mount) (s, .ret 0) ∧
      Printed fw.w.vars names s.sys.k.link.wire s₀.k.link.wire.length 0 s.out ∧ Calm s₀ s.sys := by
  have hlive : Live sem idle.k.link.drawn fw.w.vars mine s₀ [] [] ⟨s₀, []⟩ := live_start hp hr
  have hstill : Still s₀ [fd₀, fd₁, fd₂, fd₃] [] s₀ := by
    refine ⟨⟨hq, [], by simp, nofun⟩, nofun, fun fd hfd _ => (hfree fd hfd).2⟩
  obtain ⟨r, s, hrun, ⟨rfl, hs⟩, hprinted⟩ :=
    (may_showTable hc hn hfit hval hb hd hnd (fun fd hfd => (hfree fd hfd).1) hstill hlive).ensures
      (does_showTable hc hn hfit hlive)
  exact ⟨s, hrun, hprinted, hs.calm⟩

/-- A variable with a description, and a value inside of its limits. -/
def gainVar : CfgVar Empty Unit := { speed with desc := Texts.gain, val := 5 }

/-- The firmware with this variable. -/
def gainFw : Cfg ⟨1, one_lt_limit⟩ Empty Unit Unit Empty := ⟨⟨fun _ => gainVar, (), []⟩, CfgMsg.zero⟩

/-- The module after it has listed one variable, whose name is `A`. -/
def listedA : Driver := { Driver.probed with
  accessArray := fun kind => some (Kernel.Listing.pos kind)
  records := fun a _ => ⟨0, (Kind.all.getD a .val).access⟩
  arrays := 4
  dirP := some
  dirs := Kind.all
  debugfs := Kind.all.map fun kind => ⟨[65], some kind, (Kernel.Listing.pos kind, 0)⟩ }

lemma sane_listedA : Kernel.Structs.Sane listedA := by
  have h := (inv_probed : Kernel.Calls.Inv True .probed).sane
  exact ⟨h.chnl, h.sound, h.numbered⟩

def idleA : Idle := ⟨listedA, sane_listedA, fun _ => rfl, rfl, rfl⟩

lemma complete_listedA : Complete Kernel.LoadList.nameA listedA where
  files kind := by cases kind <;> rfl
  live := by decide
  inside := by decide

lemma listed_nameA : listed Kernel.LoadList.nameA = [[65]] :=
  (congrArg (fun l => List.mergeSort l alphasort) rfl).trans (List.mergeSort_singleton _)

lemma fits_nameA : Fits dfltPath Kernel.LoadList.nameA := by
  intro name hname kind
  obtain rfl := List.mem_singleton.1 hname
  cases kind <;> decide

lemma quiet_gain : Quiet (start idleA gainFw) := ⟨rfl, rfl⟩

lemma gain_bare : ∀ k, Bare (gainFw.w.vars k) := fun _ => ⟨rfl, rfl⟩

lemma gain_desc : ∀ k, (gainFw.w.vars k).desc.bytes ≠ [] := fun _ => List.cons_ne_nil _ _

lemma gain_nodup : [3, 4, 5, 6].Nodup := by decide

lemma gain_free : ∀ fd ∈ [3, 4, 5, 6], fd ∈ ({3, 4, 5, 6} : Set FileId) ∧
    (start idleA gainFw).k.files fd = none :=
  fun _ hfd => ⟨by simpa using hfd, rfl⟩

lemma gain_run : ∃ s, Runs (shell noCbs dfltPath {3, 4, 5, 6}) (⟨start idleA gainFw, []⟩, showTable dfltPath)
      (s, .ret 0) := by
  have hp : Steps (step kstrtol noCbs) Orderly (start idleA gainFw) [] := trivial
  obtain ⟨s, hrun, -⟩ := finishing_run hp rfl quiet_gain complete_listedA rfl fits_nameA (by decide)
    gain_bare gain_desc gain_nodup gain_free
  exact ⟨s, hrun⟩

/-- **What `clist` shows of a running system.**  Whatever other clients, the firmware and the two channels
do while it runs, the table has one line for every variable, with its limits, its description and the
value that it had at one moment during the run; these moments follow each other in the order of the
lines.  If a directory or a file cannot be opened, a message is printed and no table. -/
theorem clist_shows {s : Shell n κ δ ε ω} {r : ℤ}
    (hp : Steps (step kstrtol sem) Orderly (start idle fw) es)
    (hr : run (step kstrtol sem) (start idle fw) es = some s₀)
    (hc : Complete names s₀.k) (hn : names.list.length = n.1) (hfit : Fits mount names)
    (hrun : Runs (shell sem mount mine) (⟨s₀, []⟩, showTable mount) (s, .ret r)) :
    Printed fw.w.vars names s.sys.k.link.wire s₀.k.link.wire.length r s.out :=
  (does_showTable hc hn hfit (live_start hp hr)).result hrun

/-- The table of one variable is shown. -/
theorem gain_shows : ∃ s, Runs (shell noCbs dfltPath {3, 4, 5, 6})
      (⟨start idleA gainFw, []⟩, showTable dfltPath) (s, .ret 0) ∧
    Printed gainFw.w.vars Kernel.LoadList.nameA s.sys.k.link.wire 0 0 s.out := by
  have hp : Steps (step kstrtol noCbs) Orderly (start idleA gainFw) [] := trivial
  obtain ⟨s, hrun⟩ := gain_run
  exact ⟨s, hrun, clist_shows hp rfl complete_listedA rfl fits_nameA hrun⟩

/-- **`clist` can finish**: when the system is left alone and every reply has arrived, every variable has a
description and no callbacks, and four files can be opened, then `clist` may return, and has printed the
table of the firmware. -/
theorem clist_finishes {fd₀ fd₁ fd₂ fd₃ : FileId}
    (hp : Steps (step kstrtol sem) Orderly (start idle fw) es)
    (hr : run (step kstrtol sem) (start idle fw) es = some s₀) (hq : Quiet s₀)
    (hc : Complete names s₀.k) (hn : names.list.length = n.1) (hfit : Fits mount names)
    (hval : (mount ++ ascii "/val").length < fnBufLen) (hb : ∀ k, Bare (fw.w.vars k))
    (hd : ∀ k, (fw.w.vars k).desc.bytes ≠ []) (hnd : [fd₀, fd₁, fd₂, fd₃].Nodup)
    (hfree : ∀ fd ∈ [fd₀, fd₁, fd₂, fd₃], fd ∈ mine ∧ s₀.k.files fd = none) (hne : listed names ≠ []) :
    ∃ s rows, Runs (shell sem mount mine) (⟨s₀, []⟩, showTable mount) (s, .ret 0) ∧
      s.out = tableText rows ∧ List.Forall₂ (RowOf s₀.fw.w.vars names) (listed names) rows := by
  obtain ⟨s, hrun, hprinted, hcalm⟩ :=
    finishing_run hp hr hq hc hn hfit hval hb hd hnd hfree
  obtain ⟨ms, hwire, hms⟩ := hcalm.reads
  obtain ⟨a, hinv⟩ := sound_run hp hr
  have hvars : s₀.fw.w.vars = tableAfter fw.w.vars s₀.k.link.wire := by
    refine hinv.applied.trans ?_
    rw [hq.served, List.take_length]
  generalize hout : s.out = out at hprinted
  generalize hzero : (0 : ℤ) = r at hprinted
  cases hprinted with
  | @table rows _ hlines =>
    exact ⟨s, rows, hrun, hout, rows_of_lines hlines (Nat.le_refl _) hwire hms hvars⟩
  | nothing h => exact absurd h hne
  | noFolder errno =>
    have hpos := errno.pos
    omega
  | noFile errno =>
    have hpos := errno.pos
    omega

/-- The table with this variable is printed. -/
theorem gain_finishes : ∃ s rows, Runs (shell noCbs dfltPath {3, 4, 5, 6})
      (⟨start idleA gainFw, []⟩, showTable dfltPath) (s, .ret 0) ∧
    s.out = tableText rows ∧
    List.Forall₂ (RowOf gainFw.w.vars Kernel.LoadList.nameA) (listed Kernel.LoadList.nameA) rows := by
  have hp : Steps (step kstrtol noCbs) Orderly (start idleA gainFw) [] := trivial
  exact clist_finishes hp rfl quiet_gain complete_listedA rfl fits_nameA (by decide) gain_bare gain_desc
    gain_nodup gain_free (by rw [listed_nameA]; exact List.cons_ne_nil _ _)

end Table

end CfgMgmt.System.Display
