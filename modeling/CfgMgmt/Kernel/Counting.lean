import CfgMgmt.Kernel.Leaks
import CfgMgmt.Kernel.Removal

/-!
# The number that `get_n_vars` returns

`get_n_vars` waits until the global variable `n_vars` is not negative, whoever has set it, and returns
it.  Nothing makes it negative again: a later call, also one over another channel, does not wait for
its own reply.  The number returned is the answer to the call's own request if each call starts while
`n_vars` is negative, and every reply that sets `n_vars` is the one that all waiting calls wait for
(`counted_of_fresh`).
-/

namespace CfgMgmt.Kernel.Counting

open CfgMgmt.Lib CfgMgmt.Lib.Machine CfgMgmt.Msg CfgMgmt.Kernel.Linux CfgMgmt.Kernel.RpmsgLink
open CfgMgmt.Kernel.Files CfgMgmt.Kernel.Calls CfgMgmt.Kernel.Hands CfgMgmt.Kernel.Leaks
open CfgMgmt.Kernel.Removal

/-! ### What is observed -/

/-- The module, with the answers to the requests of `get_n_vars`. -/
structure Observed where
  module : Module
  /-- the number of the request that `get_n_vars` has sent for a file -/
  asked : FileId → UInt32
  /-- the `val` of the first `RES_N_VARS` with this number since then -/
  answer : FileId → Option Int32
  /-- what `get_n_vars` has returned, and the answers to its own requests -/
  counts : List (Int32 × Option Int32)

def start : Observed := ⟨.loaded, fun _ => 0, fun _ => none, []⟩

/-- What `get_n_vars` returns after its wait. -/
def waited (l : Link) : Int32 := if l.nVars < 0 then -erestartsys else l.nVars

/-- A `RES_N_VARS` message answers the requests with its number that have no answer yet. -/
def answered (data : List UInt8) (s : Observed) : FileId → Option Int32 :=
  match CfgMsg.received data with
  | some response =>
    if response.type = resNVars then
      fun f => if s.asked f = response.seq then (s.answer f).or (some response.val) else s.answer f
    else s.answer
  | none => s.answer

/-- One step, and what is observed of it. -/
def watch (kstrtol : List UInt8 → Int32 × Int32) (s : Observed) (e : Removal.Event) :
    Option Observed := do
  let m ← Removal.step kstrtol s.module e
  let s' := { s with module := m }
  match e with
  | .call (.llCount f mem send) => do
    let (ret, link) ← s.module.driver.link.getNVars mem send
    if ret ≠ 0 then
      some { s' with counts := s.counts ++ [(ret, none)] }
    else
      some { s' with
        asked := Function.update s.asked f link.nVarsReq.seq
        answer := Function.update s.answer f none }
  | .call (.llCounted f _ _ _) =>
    some { s' with counts := s.counts ++ [(waited s.module.driver.link, s.answer f)] }
  | .call (.reply data) => some { s' with answer := answered data s }
  | _ => some s'

/-- Every number returned was the answer to the call's own request. -/
def Counted (s : Observed) : Prop := ∀ v a, (v, a) ∈ s.counts → 0 ≤ v → a = some v

/-- The message sets `n_vars`. -/
def Sets (l : Link) (response : CfgMsg) : Prop :=
  response.type = resNVars ∧ ∃ t ∈ l.pendingList, (l.trans t).msgSeqNr = response.seq

/-- `get_n_vars` is called while `n_vars` is negative; and a message that sets `n_vars` arrives when all
calls that wait for the number wait for this message.  (An error of `rpmsg_send` is negative.) -/
def Fresh (s : Observed) : Removal.Event → Prop
  | .call (.llCount _ _ send) =>
    send ≤ 0 ∧ (s.module.driver.link.chnl = true → s.module.driver.link.nVars < 0)
  | .call (.reply data) => ∀ response, CfgMsg.received data = some response →
    Sets s.module.driver.link response → ∀ f file, s.module.driver.files f = some file →
      file.phase = .count → s.asked f = response.seq ∧ s.answer f = none
  | _ => True

/-! ### What a call leaves alone -/

variable {kstrtol : List UInt8 → Int32 × Int32} {k₀ k k' : Driver} {f : FileId} {file : File}

/-- A step of a call on the file `f` leaves `n_vars` and the other files alone. -/
structure Beside (f : FileId) (k k' : Driver) : Prop where
  nVars : k'.link.nVars = k.link.nVars
  files : ∀ g ≠ f, k'.files g = k.files g

lemma Beside.refl (k : Driver) : Beside f k k := ⟨rfl, fun _ _ => rfl⟩

lemma Beside.congr (h : Beside f k₀ k) (hl : k'.link.nVars = k.link.nVars) (hf : k'.files = k.files) :
    Beside f k₀ k' :=
  ⟨hl.trans h.nVars, fun g hg => (congrFun hf g).trans (h.files g hg)⟩

lemma Beside.modifyTrans (h : Beside f k₀ k) (file : File) (m : Transaction → Transaction) :
    Beside f k₀ (k.modifyTrans file m) := ⟨h.nVars, h.files⟩

lemma Beside.returnTrans (h : Beside f k₀ k) (file : File) : Beside f k₀ (k.returnTrans file) :=
  ⟨h.nVars, h.files⟩

lemma Beside.returns (h : Beside f k₀ k) (r : Result) : Beside f k₀ (k.returns f r) :=
  ⟨h.nVars, h.files⟩

lemma Beside.setFile (h : Beside f k₀ k) (file : Option File) : Beside f k₀ (k.setFile f file) :=
  ⟨h.nVars, fun g hg => (Function.update_of_ne hg ..).trans (h.files g hg)⟩

lemma Beside.openedWith (h : Beside f k₀ k) (file : File) (s : List UInt8) :
    Beside f k₀ (k.openedWith f file s) :=
  ((h.modifyTrans file _).setFile _).returns _

lemma Beside.closed (h : Beside f k₀ k) (ret : Int32) : Beside f k₀ (k.closed f ret) :=
  (h.setFile none).returns _

lemma Beside.seek (h : Beside f k₀ k) (file : File) (own : Option ℤ) (pos : ℤ) :
    Beside f k₀ (k.seek f file own pos) := by
  cases own with
  | none => exact h.setFile _
  | some _ => exact h

lemma accessVar_nVars (kstrtol : List UInt8 → Int32 × Int32) (file : File) (info : VarAccessInfo)
    (send : Int32) (k : Driver) :
    (k.accessVar kstrtol file info send).2.link.nVars = k.link.nVars := by
  cases hc : k.link.chnl with
  | false => rw [accessVar_gone kstrtol file info send hc]
  | true =>
    unfold Driver.accessVar
    by_cases hr : (k.link.prepare kstrtol info.index info.type file.privateData).1 = 0
    · rw [Link.accessVar_of_eq hc hr, Link.rpmsgSend_eq]
      rfl
    · rw [Link.accessVar_of_ne hc hr]

lemma Beside.accessVar (h : Beside f k₀ k) (kstrtol : List UInt8 → Int32 × Int32) (file : File)
    (info : VarAccessInfo) (send : Int32) :
    Beside f k₀ (k.accessVar kstrtol file info send).2 :=
  h.congr (accessVar_nVars kstrtol file info send k) rfl

lemma Beside.openedForWriting (h : Beside f k₀ k) (file : File) :
    Beside f k₀ (k.openedForWriting f file) := by
  refine h.congr ?_ openedForWriting_files
  unfold Driver.openedForWriting
  split <;> rfl

/-- The call is not, or no longer, in `get_n_vars`. -/
def NotCounting (f : FileId) (k : Driver) : Prop := ∀ file, k.files f = some file → file.phase ≠ .count

lemma notCounting_of (hf : k.files f = some file) (hp : file.phase ≠ .count) : NotCounting f k := by
  intro file' hf'
  obtain rfl := Option.some.inj (hf.symm.trans hf')
  exact hp

lemma notCounting_of_none (hf : k.files f = none) : NotCounting f k := by
  intro file hf'
  rw [hf] at hf'
  cases hf'

section Calls

variable {send : Int32}

theorem openVar_beside {info : VarAccessInfo} {fModeRead fModeWrite nonblock mem : Bool}
    (hs : k.debugfsOpenVar kstrtol f info fModeRead fModeWrite nonblock mem send = some k') :
    Beside f k k' ∧ NotCounting f k' := by
  unfold Driver.debugfsOpenVar at hs
  obtain ⟨⟨t, l⟩, ha, hs⟩ := Option.bind_eq_some_iff.1 hs
  dsimp only at hs
  generalize hfile : (⟨.var info, fModeRead, fModeWrite, nonblock, 0, t, .ready⟩ : File) = file at hs
  have halloc : Beside f k { k with link := l } :=
    ⟨(Link.allocTrans_spec ha).nVars, fun _ _ => rfl⟩
  have hopen := halloc.setFile (some file)
  have hready : ∀ k₁ : Driver, k₁.files f = some file → NotCounting f k₁ := by
    intro k₁ hf
    rw [← hfile] at hf
    exact notCounting_of hf nofun
  have hf : ({ k with link := l }.setFile f (some file)).files f = some file := setFile_files_self _
  split at hs
  · have hacc := (hopen.modifyTrans file fun x => { x with rnw := true, wq := true }).accessVar kstrtol file
      info send
    split at hs
    · obtain rfl := Option.some.inj hs
      exact ⟨hacc.returns _, hready _ hf⟩
    · obtain rfl := Option.some.inj hs
      exact ⟨hacc.openedForWriting file, hready _ ((congrFun openedForWriting_files f).trans hf)⟩
  · obtain rfl := Option.some.inj hs
    exact ⟨hopen.openedForWriting file, hready _ ((congrFun openedForWriting_files f).trans hf)⟩

theorem readVar_beside {len uncopied : ℕ} {own : Option ℤ} {intr : Bool} (hf : k.files f = some file)
    (hready : file.phase = .ready)
    (hs : k.debugfsReadVar f file len own intr uncopied = some k') :
    Beside f k k' ∧ NotCounting f k' := by
  have hnot : ∀ k₁ : Driver, k₁.files = k.files → NotCounting f k₁ := by
    intro k₁ e file' hf'
    obtain rfl := Option.some.inj ((e ▸ hf).symm.trans hf')
    rw [hready]
    exact nofun
  unfold Driver.debugfsReadVar at hs
  dsimp only at hs
  split at hs
  · split at hs
    · obtain rfl := Option.some.inj hs
      exact ⟨(Beside.refl k).returns _, hnot _ rfl⟩
    · obtain ⟨-, hs⟩ := Option.ite_none_right_eq_some.1 hs
      obtain rfl := Option.some.inj hs
      exact ⟨(Beside.refl k).returns _, hnot _ rfl⟩
  · split at hs
    · obtain rfl := Option.some.inj hs
      exact ⟨((Beside.refl k).modifyTrans file _).returns _, hnot _ rfl⟩
    · obtain rfl := Option.some.inj hs
      refine ⟨((Beside.refl k).seek file own _).returns _, ?_⟩
      obtain ⟨pos, hf'⟩ := seek_files hf own (simpleReadFromBuffer len (own.getD file.pos)
        (k.transOf file).buf.bytes (k.transOf file).len.toUInt32.toNat uncopied).2
      have hnot : Phase.ready ≠ .count := nofun
      rw [← hready] at hnot
      exact notCounting_of hf' hnot

theorem writeVar_beside (data : List UInt8) (own : Option ℤ) (uncopied : ℕ)
    (hf : k.files f = some file) (hready : file.phase = .ready) :
    Beside f k (k.debugfsWriteVar f file data own uncopied) ∧
      NotCounting f (k.debugfsWriteVar f file data own uncopied) := by
  constructor
  · apply Beside.returns
    exact (((Beside.refl k).modifyTrans file _).modifyTrans file _).seek file own _
  · obtain ⟨-, ⟨pos, hf'⟩, -⟩ := Sessions.writeVar_link data own uncopied hf
    apply notCounting_of hf'
    exact hready ▸ nofun

theorem releaseVar_beside (hs : k.debugfsReleaseVar kstrtol f file send = some k') :
    Beside f k k' ∧ NotCounting f k' := by
  have hclosed : ∀ (k₁ : Driver) (ret : Int32), Beside f k k₁ →
      Beside f k ((k₁.returnTrans file).closed f ret) ∧
        NotCounting f ((k₁.returnTrans file).closed f ret) := fun k₁ ret h =>
    ⟨(h.returnTrans file).closed ret, notCounting_of_none (closed_files_self ret)⟩
  unfold Driver.debugfsReleaseVar at hs
  split at hs
  · split at hs
    · cases hs
    · split at hs
      · obtain rfl := Option.some.inj hs
        exact hclosed k _ (Beside.refl k)
      · rename_i info _ _
        have hacc := ((Beside.refl (f := f) k).modifyTrans file
          fun x => { x with wq := true, valid := false }).accessVar kstrtol file info send
        dsimp only at hs
        split at hs
        · obtain rfl := Option.some.inj hs
          exact hclosed _ _ hacc
        · obtain rfl := Option.some.inj hs
          exact ⟨hacc.setFile _, notCounting_of (setPhase_files_self _) nofun⟩
  · obtain rfl := Option.some.inj hs
    exact hclosed k _ (Beside.refl k)

theorem releaseVarWoken_beside {intr : Bool}
    (hs : k.debugfsReleaseVarWoken f file intr = some k') : Beside f k k' ∧ NotCounting f k' := by
  unfold Driver.debugfsReleaseVarWoken at hs
  split at hs
  · obtain ⟨-, hs⟩ := Option.ite_none_right_eq_some.1 hs
    obtain rfl := Option.some.inj hs
    exact ⟨(Beside.refl k).closed _, notCounting_of_none (closed_files_self _)⟩
  · split at hs
    · obtain rfl := Option.some.inj hs
      exact ⟨(Beside.refl k).closed _, notCounting_of_none (closed_files_self _)⟩
    · obtain rfl := Option.some.inj hs
      exact ⟨((Beside.refl k).returnTrans file).closed _, notCounting_of_none (closed_files_self _)⟩

theorem openLl_beside {fModeRead fModeWrite nonblock mem : Bool}
    (hs : k.debugfsOpenLl f fModeRead fModeWrite nonblock mem = some k') :
    Beside f k k' ∧ NotCounting f k' := by
  unfold Driver.debugfsOpenLl at hs
  obtain ⟨⟨t, l⟩, ha, hs⟩ := Option.bind_eq_some_iff.1 hs
  have hopen : Beside f k { k with link := l } :=
    ⟨(Link.allocTrans_spec ha).nVars, fun _ _ => rfl⟩
  dsimp only at hs
  split at hs
  · obtain rfl := Option.some.inj hs
    exact ⟨(hopen.setFile _).openedWith _ _, notCounting_of (openedWith_files_self _) nofun⟩
  · obtain rfl := Option.some.inj hs
    exact ⟨hopen.setFile _, notCounting_of (setFile_files_self _) nofun⟩

theorem openLlCounted_beside {intr : Bool} {mem dirMem : Kind → Bool}
    (hs : k.debugfsOpenLlCounted f file intr mem dirMem = some k') :
    Beside f k k' ∧ NotCounting f k' := by
  obtain ⟨hl₁, hf₁⟩ := allocMem_keeps mem Kind.all k
  obtain ⟨hl₂, hf₂⟩ := createDirs_keeps dirMem Kind.all (k.allocMem mem Kind.all).2
  have h₁ : Beside f k (k.allocMem mem Kind.all).2 :=
    (Beside.refl k).congr (congrArg Link.nVars hl₁) hf₁
  have h₂ := h₁.congr (congrArg Link.nVars hl₂) hf₂
  have hopened : ∀ (k₁ : Driver) (s : List UInt8), Beside f k k₁ →
      Beside f k (k₁.openedWith f file s) ∧ NotCounting f (k₁.openedWith f file s) := fun k₁ s h =>
    ⟨h.openedWith file s, notCounting_of (openedWith_files_self _) nofun⟩
  unfold Driver.debugfsOpenLlCounted at hs
  split at hs
  · obtain ⟨-, hs⟩ := Option.ite_none_right_eq_some.1 hs
    obtain rfl := Option.some.inj hs
    exact hopened k _ (Beside.refl k)
  · dsimp only at hs
    split at hs
    · obtain rfl := Option.some.inj hs
      exact hopened k _ (Beside.refl k)
    · split at hs
      · obtain rfl := Option.some.inj hs
        exact hopened _ _ h₁
      · split at hs
        · obtain rfl := Option.some.inj hs
          exact hopened _ _ h₂
        · obtain rfl := Option.some.inj hs
          exact ⟨h₂.setFile _, notCounting_of (setPhase_files_self _) nofun⟩

theorem openLlQuery_beside {i n : ℕ}
    (hs : k.debugfsOpenLlQuery kstrtol f file i n send = some k') :
    Beside f k k' ∧ NotCounting f k' := by
  unfold Driver.debugfsOpenLlQuery at hs
  split at hs
  · obtain ⟨k₁, hk₁, hs⟩ := Option.bind_eq_some_iff.1 hs
    obtain ⟨hl, hfs⟩ := foldlM_keeps (setRecord_keeps i) hk₁
    have hrec : Beside f k k₁ := (Beside.refl k).congr (congrArg Link.nVars hl) hfs
    have hacc := (hrec.modifyTrans file forName).accessVar kstrtol file ⟨Int32.ofNat i, .name⟩ send
    dsimp only at hs
    split at hs
    · obtain rfl := Option.some.inj hs
      exact ⟨hacc.setFile _, notCounting_of (setPhase_files_self _) nofun⟩
    · obtain rfl := Option.some.inj hs
      exact ⟨hacc.setFile _, notCounting_of (setPhase_files_self _) nofun⟩
  · obtain rfl := Option.some.inj hs
    exact ⟨(Beside.refl k).openedWith _ _, notCounting_of (openedWith_files_self _) nofun⟩

theorem openLlNamed_beside {i n : ℕ} {intr : Bool} {mem : Kind → Bool}
    (hs : k.debugfsOpenLlNamed f file i n intr mem = some k') : Beside f k k' ∧ NotCounting f k' := by
  unfold Driver.debugfsOpenLlNamed at hs
  split at hs
  · obtain ⟨-, hs⟩ := Option.ite_none_right_eq_some.1 hs
    obtain rfl := Option.some.inj hs
    exact ⟨(Beside.refl k).openedWith _ _, notCounting_of (openedWith_files_self _) nofun⟩
  · obtain ⟨k₁, hk₁, hs⟩ := Option.bind_eq_some_iff.1 hs
    obtain ⟨hl, hfs⟩ := foldlM_keeps (createFile_keeps _ i mem) hk₁
    obtain rfl := Option.some.inj hs
    exact ⟨((Beside.refl k).congr (congrArg Link.nVars hl) hfs).setFile _,
      notCounting_of (setPhase_files_self _) nofun⟩

/-- **One step of a call** other than `get_n_vars` leaves `n_vars` and the other files alone. -/
theorem call_beside {e : Files.Event} (hs : Files.step kstrtol k e = some k')
    (hreply : ∀ data, e ≠ .reply data) (hcount : ∀ f mem send, e ≠ .llCount f mem send) :
    ∃ f, Beside f k k' ∧ NotCounting f k' := by
  replace hs := leads_of_step hs
  cases hs with
  | openVar hf hs => exact ⟨_, openVar_beside hs⟩
  | openLl hf hs => exact ⟨_, openLl_beside hs⟩
  | @reply data hs => exact absurd rfl (hreply data)
  | read file hf hready hread hs => exact ⟨_, readVar_beside hf hready hs⟩
  | write file hf hready hwrite hs =>
    subst hs
    exact ⟨_, writeVar_beside _ _ _ hf hready⟩
  | release file hf hready hs => exact ⟨_, releaseVar_beside hs⟩
  | releaseWoken file hf hclosing hs => exact ⟨_, releaseVarWoken_beside hs⟩
  | @llCount f mem send file hf hload hs => exact absurd rfl (hcount f mem send)
  | llCounted file hf hcounts hs => exact ⟨_, openLlCounted_beside hs⟩
  | llQuery file i n hf hquery hs => exact ⟨_, openLlQuery_beside hs⟩
  | llNamed file i n hf hname hs => exact ⟨_, openLlNamed_beside hs⟩

end Calls

/-! ### Every step -/

/-- **The invariant**: when a call that waits would return, the number is the answer to its request. -/
structure Fits (s : Observed) : Prop where
  counted : Counted s
  waiting : ∀ f file, s.module.driver.files f = some file → file.phase = .count →
    0 ≤ s.module.driver.link.nVars → s.answer f = some s.module.driver.link.nVars

variable {s s' : Observed} {m : Module}

/-- A call that is not in `get_n_vars` changes nothing for those that are. -/
lemma Fits.beside (h : Fits s) (hb : Beside f s.module.driver k) (hn : NotCounting f k) (g : FileId)
    (file : File) (hg : k.files g = some file) (hphase : file.phase = .count) (hle : 0 ≤ k.link.nVars) :
    s.answer g = some k.link.nVars := by
  have hne : g ≠ f := by
    rintro rfl
    exact hn file hg hphase
  rw [hb.files g hne] at hg
  rw [hb.nVars] at hle ⊢
  exact h.waiting g file hg hphase hle

lemma Counted.concat (h : Counted s) {v : Int32} {a : Option Int32} (hv : 0 ≤ v → a = some v) :
    ∀ v' a', (v', a') ∈ s.counts ++ [(v, a)] → 0 ≤ v' → a' = some v' := by
  intro v' a' hm
  rcases List.mem_append.1 hm with hm | hm
  · exact h v' a' hm
  · obtain ⟨rfl, rfl⟩ := Prod.mk.inj (List.mem_singleton.1 hm)
    exact hv

/-- `get_n_vars` leaves `n_vars` alone before its wait, which it reaches over a channel only. -/
lemma getNVars_cases {mem : Bool} {send ret : Int32} {l l' : Link}
    (hs : l.getNVars mem send = some (ret, l')) :
    l'.nVars = l.nVars ∧ (l.chnl = true ∧ ret = send ∨ ret = -einval) := by
  cases hc : l.chnl with
  | true =>
    obtain ⟨hret, t, l₁, -, -, -, -, -, hn, -⟩ := Link.getNVars_spec hc hs
    exact ⟨hn, .inl ⟨rfl, hret⟩⟩
  | false =>
    unfold Link.getNVars at hs
    rw [hc] at hs
    obtain ⟨hret, rfl⟩ := Prod.mk.inj (Option.some.inj hs)
    exact ⟨rfl, .inr hret.symm⟩

/-- A call of `get_n_vars` returns an error, or waits while `n_vars` is negative. -/
lemma fits_count {mem : Bool} {send : Int32} (h : Fits s) (hf : Fresh s (.call (.llCount f mem send)))
    (hs : watch kstrtol s (.call (.llCount f mem send)) = some s') : Fits s' := by
  obtain ⟨m, hm, hs⟩ := Option.bind_eq_some_iff.1 hs
  obtain ⟨k, hk, hm⟩ := Option.bind_eq_some_iff.1 hm
  obtain rfl := Option.some.inj hm
  obtain ⟨⟨ret, link⟩, hn, hs⟩ := Option.bind_eq_some_iff.1 hs
  obtain ⟨file, hfile, hk⟩ := Option.bind_eq_some_iff.1 hk
  obtain ⟨hsend, hneg⟩ := hf
  obtain ⟨hnVars, hret⟩ := getNVars_cases hn
  split at hk
  · unfold Driver.debugfsOpenLlCount at hk
    rw [hn] at hk
    dsimp only [Option.bind_eq_bind, Option.bind_some] at hk hs
    by_cases hzero : ret = 0
    · rw [if_neg (not_not.2 hzero)] at hk hs
      obtain rfl := Option.some.inj hk
      obtain rfl := Option.some.inj hs
      have hlt : link.nVars < 0 := by
        rw [hnVars]
        rcases hret with ⟨hc, -⟩ | rfl
        · exact hneg hc
        · exact absurd hzero einval_ne_zero
      exact ⟨h.counted, fun g file' _ _ hle => absurd hle (Int32.not_le.2 hlt)⟩
    · rw [if_pos hzero] at hk hs
      obtain rfl := Option.some.inj hk
      obtain rfl := Option.some.inj hs
      have hlt : ret < 0 := by
        rcases hret with ⟨-, rfl⟩ | rfl
        · exact Int32.lt_of_le_of_ne hsend hzero
        · exact einval_neg
      have hlink : Beside f s.module.driver { s.module.driver with link } := ⟨hnVars, fun _ _ => rfl⟩
      refine ⟨h.counted.concat fun hle => absurd hle (Int32.not_le.2 hlt), ?_⟩
      exact h.beside (hlink.openedWith file _) (notCounting_of (openedWith_files_self _) nofun)
  · cases hk

/-- A call of `get_n_vars` that has waited returns the answer to its request. -/
lemma fits_counted {intr : Bool} {mem dirMem : Kind → Bool} (h : Fits s)
    (hs : watch kstrtol s (.call (.llCounted f intr mem dirMem)) = some s') : Fits s' := by
  obtain ⟨m, hm, hs⟩ := Option.bind_eq_some_iff.1 hs
  obtain ⟨k, hk, hm⟩ := Option.bind_eq_some_iff.1 hm
  obtain rfl := Option.some.inj hm
  obtain rfl := Option.some.inj hs
  replace hk := leads_of_step hk
  cases hk with
  | llCounted file hfile hphase hk =>
    obtain ⟨hb, hn⟩ := openLlCounted_beside hk
    refine ⟨h.counted.concat fun hle => ?_, h.beside hb hn⟩
    unfold waited at hle ⊢
    split
    · rw [if_pos ‹_›] at hle
      exact absurd hle (by decide)
    · rename_i hlt
      exact h.waiting f file hfile hphase (Int32.not_lt.1 hlt)

lemma answered_of_some {data : List UInt8} {v : Int32} (h : s.answer f = some v) :
    answered data s f = some v := by
  unfold answered
  cases CfgMsg.received data with
  | none => exact h
  | some response =>
    dsimp only
    by_cases ht : response.type = resNVars
    · rw [if_pos ht, h]
      exact ite_self _
    · rw [if_neg ht]
      exact h

lemma answered_of_none {data : List UInt8} {response : CfgMsg}
    (hr : CfgMsg.received data = some response) (ht : response.type = resNVars)
    (hasked : s.asked f = response.seq) (hnone : s.answer f = none) :
    answered data s f = some response.val := by
  unfold answered
  rw [hr]
  dsimp only
  rw [if_pos ht, if_pos hasked, hnone]
  rfl

/-- A message that sets `n_vars` answers the requests of all calls that wait. -/
lemma fits_reply {data : List UInt8} (h : Fits s) (hf : Fresh s (.call (.reply data)))
    (hs : watch kstrtol s (.call (.reply data)) = some s') : Fits s' := by
  obtain rfl : { s with
      module := { s.module with driver :=
        { s.module.driver with link := s.module.driver.link.rpmsgCb data } }
      answer := answered data s } = s' := Option.some.inj hs
  refine ⟨h.counted, fun f file hfile hphase hle => ?_⟩
  have hkeep : (s.module.driver.link.rpmsgCb data).nVars = s.module.driver.link.nVars →
      answered data s f = some (s.module.driver.link.rpmsgCb data).nVars := by
    intro e
    rw [e]
    exact answered_of_some (h.waiting f file hfile hphase (e ▸ hle))
  rcases s.module.driver.link.rpmsgCb_cases data with ⟨response, hr, t, ht, hseq, e⟩ | ⟨-, e⟩
  · by_cases htype : response.type = resNVars
    · obtain ⟨hasked, hnone⟩ := hf response hr ⟨htype, t, ht, hseq⟩ f file hfile hphase
      have hval : (s.module.driver.link.rpmsgCb data).nVars = response.val := by
        rw [e]
        exact if_pos htype
      show answered data s f = some (s.module.driver.link.rpmsgCb data).nVars
      rw [hval]
      exact answered_of_none hr htype hasked hnone
    · apply hkeep
      rw [e]
      exact if_neg htype
  · exact hkeep (congrArg Link.nVars e)

/-- **Every fresh step keeps the invariant.** -/
theorem fits_step {e : Removal.Event} (h : Fits s) (hf : Fresh s e)
    (hs : watch kstrtol s e = some s') : Fits s' := by
  cases e with
  | probe =>
    obtain ⟨m, hm, hs⟩ := Option.bind_eq_some_iff.1 hs
    obtain ⟨-, hm⟩ := Option.ite_none_right_eq_some.1 hm
    obtain rfl := Option.some.inj hm
    obtain rfl := Option.some.inj hs
    exact ⟨h.counted, h.waiting⟩
  | exit =>
    obtain ⟨m, hm, hs⟩ := Option.bind_eq_some_iff.1 hs
    obtain ⟨-, hm⟩ := Option.ite_none_right_eq_some.1 hm
    obtain rfl := Option.some.inj hm
    obtain rfl := Option.some.inj hs
    exact ⟨h.counted, h.waiting⟩
  | freeMem =>
    obtain ⟨m, hm, hs⟩ := Option.bind_eq_some_iff.1 hs
    obtain ⟨-, hm⟩ := Option.ite_none_right_eq_some.1 hm
    obtain rfl := Option.some.inj hm
    obtain rfl := Option.some.inj hs
    exact ⟨h.counted, h.waiting⟩
  | call e =>
    cases e with
    | llCount => exact fits_count h hf hs
    | llCounted => exact fits_counted h hs
    | reply => exact fits_reply h hf hs
    | _ =>
      obtain ⟨m, hm, hs⟩ := Option.bind_eq_some_iff.1 hs
      obtain ⟨k, hk, hm⟩ := Option.bind_eq_some_iff.1 hm
      obtain rfl := Option.some.inj hm
      obtain rfl := Option.some.inj hs
      obtain ⟨f, hb, hn⟩ := call_beside hk nofun nofun
      exact ⟨h.counted, h.beside hb hn⟩

/-! ### Every run -/

lemma fits_start : Fits start :=
  ⟨fun _ _ h => absurd h List.not_mem_nil, fun _ file hf => absurd hf (Option.some_ne_none file).symm⟩

/-- **Every number returned is the answer to the call's own request** in every state of a run over any
number of channels, if all its steps are fresh. -/
theorem counted_of_fresh {es : List Removal.Event} (h : Steps (watch kstrtol) Fresh start es) :
    States (watch kstrtol) Counted start es := by
  intro pre hp s hr
  exact (states_of_steps (fun _ _ _ => fits_step) fits_start h pre hp s hr).counted

/-! ### Two runs -/

/-- A client opens `load_list`, and waits for the number of variables. -/
def asks : List Removal.Event :=
  [.probe, .call (.openLl 0 true false false true), .call (.llCount 0 true 0)]

/-- The firmware says that there is one variable, and the client goes on. -/
def counts : List Removal.Event :=
  [.call (.reply oneVar.encode), .call (.llCounted 0 false (fun _ => true) fun _ => true)]

lemma asks_files (f : FileId) : ((run (watch noStrtol) start asks).any fun s =>
    decide (f = 0) || (s.module.driver.files f).isNone) = true := by
  cases f with
  | zero => decide +kernel
  | succ f => exact rfl

lemma asks_waits : ((run (watch noStrtol) start asks).any fun s =>
    decide (s.asked 0 = 0 ∧ s.answer 0 = none)) = true := by
  decide +kernel

lemma asks_fresh : Steps (watch noStrtol) Fresh start asks := by
  refine (steps_cons rfl).2 ⟨trivial, (steps_cons rfl).2 ⟨trivial, (steps_cons rfl).2 ⟨⟨?_, fun _ => ?_⟩,
    trivial⟩⟩⟩
  · decide
  · decide

/-- A client that is alone gets the answer to its request. -/
theorem counts_answer : ∃ s, run (watch noStrtol) start (asks ++ counts) = some s ∧
    s.counts = [(1, some 1)] ∧ Counted s := by
  have hrun : ((run (watch noStrtol) start (asks ++ counts)).any fun s : Observed =>
      decide (s.counts = [(1, some 1)])) = true := by decide +kernel
  obtain ⟨s, hr, hcounts⟩ := (Option.any_eq_true ..).1 hrun
  refine ⟨s, hr, of_decide_eq_true hcounts, ?_⟩
  refine counted_of_fresh (steps_append.2 ⟨asks_fresh, fun s₁ hr₁ => ?_⟩) _ (List.prefix_refl _) s hr
  refine ⟨fun response hreceived _ f file hfile _ => ?_, fun _ _ => ⟨trivial, fun _ _ => trivial⟩⟩
  have hfiles := asks_files f
  have hwaits := asks_waits
  rw [hr₁, Option.any_some] at hfiles hwaits
  obtain rfl : oneVar = response := Option.some.inj ((CfgMsg.received_encode _).symm.trans hreceived)
  obtain rfl : f = 0 := by
    rw [hfile, Option.isNone_some, Bool.or_false] at hfiles
    exact of_decide_eq_true hfiles
  exact of_decide_eq_true hwaits

/-- A client loads the list over a first channel, on which there is one variable, and another client
opens `load_list` after the next probe. -/
def asksAgain : List Removal.Event :=
  [.probe] ++ loadsList.map .call ++ [.exit, .freeMem, .probe,
    .call (.openLl 1 true false false true), .call (.llCount 1 true 0),
    .call (.llCounted 1 false (fun _ => true) fun _ => true),
    .call (.reply { CfgMsg.zero with seq := 2, type := resNVars, val := 2 }.encode)]

/-- **The number of an earlier channel is returned**, before the reply arrives that says 2. -/
theorem asksAgain_stale : ∃ s, run (watch noStrtol) start asksAgain = some s ∧ ¬ Counted s ∧
    (1, none) ∈ s.counts ∧ s.answer 1 = some 2 := by
  have hrun : ((run (watch noStrtol) start asksAgain).any fun s : Observed =>
      decide ((1, none) ∈ s.counts ∧ s.answer 1 = some 2)) = true := by decide +kernel
  obtain ⟨s, hr, hs⟩ := (Option.any_eq_true ..).1 hrun
  obtain ⟨hmem, hanswer⟩ := of_decide_eq_true hs
  refine ⟨s, hr, fun hcounted => ?_, hmem, hanswer⟩
  cases hcounted 1 none hmem (by decide)

end CfgMgmt.Kernel.Counting
