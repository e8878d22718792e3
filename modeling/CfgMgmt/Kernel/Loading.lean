import CfgMgmt.Kernel.Completion
import CfgMgmt.Kernel.Kstrtol
import CfgMgmt.Kernel.LoadList

/-!
# One call of `debugfs_open_ll`

The call from its begin to its return, whatever goes wrong in it.  The loop does not look at the error of
a reply, and so creates files for the variables whose query has failed (`right_iff`).  A call that stops
leaves `val_access` set, and so cannot be repeated, unless it stops before that.  Since `n_vars` is never
reset, it must not hold a wrong number by then either (`retry_iff`).
-/

namespace CfgMgmt.Kernel.Loading

open CfgMgmt.Lib.Bytes CfgMgmt.Lib.Machine CfgMgmt.Msg CfgMgmt.Kernel.Linux CfgMgmt.Kernel.RpmsgLink
open CfgMgmt.Kernel.Files CfgMgmt.Kernel.Calls CfgMgmt.Kernel.Listing CfgMgmt.Kernel.Completion
open CfgMgmt.Kernel.Counting (openLlCounted_beside)
open CfgMgmt.Kernel.LoadList (SameList kinds_nodup mem_kinds)

/-! ### A call and its surroundings -/

/-- When the reply with the number of variables arrives: before the call goes on, right after that, or
after the call.  A call that knows no number waits for it. -/
inductive Arrival
  | before | during | after
  deriving DecidableEq

/-- What the rest of the kernel and the firmware do in a call. -/
structure Plan where
  /-- the results of `rpmsg_send`: for the number of variables, and for each name -/
  send : Int32
  sendName : ℕ → Int32
  /-- the waits that a signal interrupts -/
  intrCount : Bool
  intrName : ℕ → Bool
  /-- the allocations that succeed, and the directories and the files that debugfs does not refuse -/
  mem : Kind → Bool
  dirMem : Kind → Bool
  fileMem : ℕ → Kind → Bool
  /-- the number of variables, and the replies to the queries of their names, less their numbers -/
  count : ℕ
  arrival : Arrival
  reply : ℕ → CfgMsg
  count_lt : count < 2 ^ 31
  send_le : send ≤ 0 ∧ ∀ i, sendName i ≤ 0

/-- The number of the last request. -/
def lastSeq (k : Driver) : UInt32 := UInt32.ofNat (k.link.drawn - 1)

namespace Plan

variable (p : Plan)

def countReply (seq : UInt32) : CfgMsg :=
  { CfgMsg.zero with seq, type := resNVars, val := Int32.ofNat p.count }

/-- The reply to the query of the name of the variable `i`, in a call that begins when `drawn` numbers
were drawn. -/
def sent (drawn i : ℕ) : CfgMsg := { p.reply i with seq := UInt32.ofNat (drawn + 1 + i) }

/-- The call goes on before the reply: `get_n_vars` does not wait when it knows a number. -/
def Hurries (k : Driver) : Prop := p.arrival ≠ .before ∧ ¬ k.link.nVars < 0

instance (k : Driver) : Decidable (p.Hurries k) := inferInstanceAs (Decidable (_ ∧ _))

/-- What `get_n_vars` returns. -/
def told (k : Driver) : Int32 := if p.Hurries k then k.link.nVars else Int32.ofNat p.count

/-- The number of variables that the call works with. -/
def number (k : Driver) : ℕ := (p.told k).toInt.toNat

/-- What happens until the call on the file `f` has gone on, and waits again or has returned. -/
def events (f : FileId) (k : Driver) : Phase → List Event
  | .load => [.llCount f true p.send]
  | .count =>
    if p.intrCount ∧ k.link.nVars < 0 then [.llCounted f true p.mem p.dirMem]
    else if p.Hurries k then
      .llCounted f false p.mem p.dirMem ::
        if p.arrival = .during then [.reply (p.countReply (lastSeq k)).encode] else []
    else [.reply (p.countReply (lastSeq k)).encode, .llCounted f false p.mem p.dirMem]
  | .query i _ => [.llQuery f (p.sendName i)]
  | .name i _ =>
    if p.intrName i then [.llNamed f true (p.fileMem i)]
    else [.reply { p.reply i with seq := lastSeq k }.encode, .llNamed f false (p.fileMem i)]
  | .ready => []
  | .closing => []

variable {p} in
lemma told_nonneg (k : Driver) : 0 ≤ (p.told k).toInt := by
  unfold told
  split
  · rename_i h
    exact Int.not_lt.1 fun hlt => h.2 (Int32.lt_iff_toInt_lt.2 hlt)
  · rw [Int32.toInt_ofNat_of_lt p.count_lt]
    exact Int.natCast_nonneg _

lemma number_toInt (k : Driver) : (p.number k : ℤ) = (p.told k).toInt := Int.toNat_of_nonneg (told_nonneg k)

lemma number_lt (k : Driver) : p.number k < 2 ^ 31 := by
  have h := Int32.toInt_lt (p.told k)
  rw [← p.number_toInt] at h
  exact_mod_cast h

end Plan

section Call

variable (kstrtol : List UInt8 → Int32 × Int32) (p : Plan) (f : FileId)

/-- The call that is in progress on the file `f` returns in the state `k'`. -/
inductive Returns : Driver → Driver → Prop
  | ready {k : Driver} {file : File} (hf : k.files f = some file) (hp : file.phase = .ready) : Returns k k
  | move {k k₁ k' : Driver} {file : File} (hf : k.files f = some file) (hp : file.phase ≠ .ready)
      (hm : run (step kstrtol) k (p.events f k file.phase) = some k₁) (hr : Returns k₁ k') : Returns k k'

/-- A call of `debugfs_open_ll` from `k` returns in the state `k'`. -/
def Loads (k k' : Driver) : Prop :=
  ∃ k₀, step kstrtol k (.openLl f true false false true) = some k₀ ∧ Returns kstrtol p f k₀ k'

end Call

/-- A read of the file returns the text. -/
def Reports (f : FileId) (s : List UInt8) (k : Driver) : Prop :=
  ∃ file, k.files f = some file ∧ file.phase = .ready ∧ (k.transOf file).valid = true ∧
    (k.transOf file).err = 0 ∧
    (k.transOf file).buf.read (k.transOf file).len.toUInt32.toNat = s

variable (kstrtol : List UInt8 → Int32 × Int32) {p : Plan} {f : FileId} {k k' k₁ : Driver} {file : File}
  {a : Kind → ℕ} {i n : ℕ}

/-! ### The steps of the call -/

lemma step_openLl (hf : k.files f = none) : step kstrtol k (.openLl f true false false true) =
    k.debugfsOpenLl f true false false true := by
  simp [step, hf]

lemma step_llCount (hf : k.files f = some file) (hp : file.phase = .load) (send : Int32) :
    step kstrtol k (.llCount f true send) = k.debugfsOpenLlCount f file true send := by
  simp [step, hf, hp]

lemma step_llCounted (hf : k.files f = some file) (hp : file.phase = .count) (intr : Bool)
    (mem dirMem : Kind → Bool) : step kstrtol k (.llCounted f intr mem dirMem) =
      k.debugfsOpenLlCounted f file intr mem dirMem := by
  simp [step, hf, hp]

lemma step_llQuery (hf : k.files f = some file) (hp : file.phase = .query i n) (send : Int32) :
    step kstrtol k (.llQuery f send) = k.debugfsOpenLlQuery kstrtol f file i n send := by
  simp [step, hf, hp]

lemma step_llNamed (hf : k.files f = some file) (hp : file.phase = .name i n) (intr : Bool)
    (mem : Kind → Bool) : step kstrtol k (.llNamed f intr mem) =
      k.debugfsOpenLlNamed f file i n intr mem := by
  simp [step, hf, hp]

/-! ### Until the loop -/

/-- Nothing was loaded. -/
structure Fresh (k : Driver) : Prop where
  chnl : k.link.chnl = true
  access : k.accessArray .val = none
  dirs : k.dirs = []
  debugfs : k.debugfs = []

def InPhase (f : FileId) (phase : Phase) (k : Driver) : Prop :=
  k.link.chnl = true ∧ ∃ file, k.files f = some file ∧ file.phase = phase

/-- The last request is pending, for the struct `t`. -/
def Awaits (t : Ptr) (k : Driver) : Prop :=
  (∃ rest, k.link.pendingList = t :: rest) ∧ (k.link.trans t).msgSeqNr = lastSeq k

lemma step_reply {t : Ptr} (h : Awaits t k) (response : CfgMsg) (hseq : response.seq = lastSeq k) :
    step kstrtol k (.reply response.encode) = some { k with link := k.link.settle response t } := by
  obtain ⟨⟨rest, hp⟩, hs⟩ := h
  have hfind : (k.link.pendingList.find? fun t => (k.link.trans t).msgSeqNr = response.seq) = some t := by
    rw [hp]
    exact List.find?_cons_of_pos (by rw [hs, hseq]; exact decide_eq_true rfl)
  exact congrArg (fun l => some { k with link := l }) (k.link.rpmsgCb_of_find hfind)

lemma openedWith_trans (s : List UInt8) : (k.openedWith f file s).transOf { file with phase := .ready } =
    { Link.printText ioBufSize Link.ioBufSize_fits s (k.transOf file) with valid := true, rnw := true } :=
  Function.update_self ..

lemma inPhase_openedWith (hc : k.link.chnl = true) (s : List UInt8) :
    InPhase f .ready (k.openedWith f file s) :=
  ⟨hc, _, openedWith_files_self s, rfl⟩

lemma inPhase_setPhase (hc : k.link.chnl = true) (phase : Phase) :
    InPhase f phase (k.setPhase f file phase) :=
  ⟨hc, _, setPhase_files_self phase, rfl⟩

variable {kstrtol} in
lemma returns_of_inPhase (h : InPhase f .ready k) : Returns kstrtol p f k k := by
  obtain ⟨-, file, hf, hp⟩ := h
  exact .ready hf hp

variable {kstrtol} in
/-- A call that is in no phase but the one at its return goes on. -/
lemma returns_move {phase : Phase} (h : InPhase f phase k) (hp : phase ≠ .ready)
    (hm : run (step kstrtol) k (p.events f k phase) = some k₁) (hr : Returns kstrtol p f k₁ k') :
    Returns kstrtol p f k k' := by
  obtain ⟨-, file, hf, rfl⟩ := h
  exact .move hf hp hm hr

lemma text_openedWith {s : List UInt8} (h : s.length ≤ ioBufSize - 1) :
    ((k.openedWith f file s).transOf { file with phase := .ready }).buf.read
      ((k.openedWith f file s).transOf { file with phase := .ready }).len.toUInt32.toNat = s := by
  have htake : s.take (ioBufSize - 1) = s := List.take_of_length_le h
  have hle : (s.take (ioBufSize - 1)).length ≤ ioBufSize - 1 := htake.symm ▸ h
  rw [openedWith_trans]
  unfold Link.printText scnprintf
  dsimp only
  rw [toNat_ofNat hle]
  unfold Buf.read
  rw [bytes_write_zero, List.append_assoc, List.take_left' rfl]
  exact htake

lemma eq_of_reports {s text : List UInt8} (h : text.length ≤ ioBufSize - 1)
    (hr : Reports f s (k.openedWith f file text)) : s = text := by
  obtain ⟨file', hf', -, -, -, hs⟩ := hr
  obtain rfl := Option.some.inj ((openedWith_files_self text).symm.trans hf')
  exact hs.symm.trans (text_openedWith h)

lemma err_of_reports {s text : List UInt8} (hr : Reports f s (k.openedWith f file text)) :
    (k.transOf file).err = 0 := by
  obtain ⟨file', hf', -, -, he, -⟩ := hr
  obtain rfl := Option.some.inj ((openedWith_files_self text).symm.trans hf')
  rw [openedWith_trans] at he
  exact he

lemma reports_openedWith {s : List UInt8} (h : s.length ≤ ioBufSize - 1) (he : (k.transOf file).err = 0) :
    Reports f s (k.openedWith f file s) := by
  refine ⟨_, openedWith_files_self s, rfl, ?_, ?_, text_openedWith h⟩
  · rw [openedWith_trans]
  · rw [openedWith_trans]
    exact he

/-- The text for a list that was loaded already. -/
def alreadyLoaded : List UInt8 := ascii "Variables list was already loaded, can't reload (unimplemented)\n"

lemma open_loaded (hf : k.files f = none) (hacc : (k.accessArray .val).isSome = true) :
    ∃ k₀, step kstrtol k (.openLl f true false false true) = some k₀ ∧
      Reports f alreadyLoaded k₀ := by
  obtain ⟨t, l, ha⟩ := Link.allocTrans_true k.link
  have hal := Link.allocTrans_spec ha
  generalize hfile : (⟨.loadList, true, false, false, 0, t, .load⟩ : File) = file
  refine ⟨({ k with link := l }.setFile f (some file)).openedWith f file alreadyLoaded, ?_, ?_⟩
  · rw [step_openLl kstrtol hf]
    unfold Driver.debugfsOpenLl
    rw [ha, Option.bind_eq_bind, Option.bind_some]
    dsimp only
    rw [hfile]
    exact if_pos hacc
  · refine reports_openedWith (by decide) ?_
    show (l.trans file.privateData).err = 0
    rw [← hfile, hal.trans_self]
    rfl

lemma open_fresh (hc : k.link.chnl = true) (hf : k.files f = none) (hacc : k.accessArray .val = none) :
    ∃ k₀, step kstrtol k (.openLl f true false false true) = some k₀ ∧ InPhase f .load k₀ ∧
      SameList k k₀ ∧ k₀.link.drawn = k.link.drawn ∧ k₀.link.nVars = k.link.nVars := by
  obtain ⟨t, l, ha⟩ := Link.allocTrans_true k.link
  have hal := Link.allocTrans_spec ha
  generalize hfile : (⟨.loadList, true, false, false, 0, t, .load⟩ : File) = file
  refine ⟨{ k with link := l }.setFile f (some file), ?_, ?_, ⟨rfl, rfl, rfl, rfl, rfl, rfl⟩, hal.drawn,
    hal.nVars⟩
  · rw [step_openLl kstrtol hf]
    unfold Driver.debugfsOpenLl
    rw [ha, Option.bind_eq_bind, Option.bind_some]
    dsimp only
    rw [hfile]
    refine if_neg ?_
    show ¬ (k.accessArray .val).isSome = true
    rw [hacc]
    exact nofun
  · exact ⟨hal.chnl.trans hc, file, setFile_files_self _, hfile ▸ rfl⟩

lemma load_move (h : InPhase f .load k) :
    ∃ k₁, run (step kstrtol) k (p.events f k .load) = some k₁ ∧ SameList k k₁ ∧
      k₁.link.nVars = k.link.nVars ∧ (p.send ≠ 0 ∧ InPhase f .ready k₁ ∨
        p.send = 0 ∧ InPhase f .count k₁ ∧ (∃ t, Awaits t k₁) ∧ k₁.link.drawn = k.link.drawn + 1) := by
  obtain ⟨hc, file, hf, hp⟩ := h
  obtain ⟨t, l, ha⟩ := Link.allocTrans_true k.link
  have hal := Link.allocTrans_spec ha
  obtain ⟨⟨r, l'⟩, hn⟩ : ∃ x, k.link.getNVars true p.send = some x := by
    rw [Link.getNVars_eq hc, ha]
    exact ⟨_, rfl⟩
  obtain ⟨hr, t, s₁, -, hpend, -, -, hchnl, hnv, hdrawn, -, htrans, -⟩ := Link.getNVars_spec hc hn
  have hstep : step kstrtol k (.llCount f true p.send) =
      if r ≠ 0 then some (Driver.openedWith f file (Driver.noVarsText r) { k with link := l' })
      else some (Driver.setPhase f file .count { k with link := l' }) := by
    rw [step_llCount kstrtol hf hp]
    unfold Driver.debugfsOpenLlCount
    rw [hn]
    rfl
  subst hr
  have hc' : ({ k with link := l' } : Driver).link.chnl = true := hchnl.trans hc
  by_cases h0 : p.send = 0
  · rw [if_neg (not_not.2 h0)] at hstep
    refine ⟨_, run_cons_eq_some.2 ⟨_, hstep, rfl⟩, ⟨rfl, rfl, rfl, rfl, rfl, rfl⟩, hnv,
      .inr ⟨h0, inPhase_setPhase hc' _, ⟨t, ⟨_, hpend⟩, ?_⟩, hdrawn⟩⟩
    show (l'.trans t).msgSeqNr = UInt32.ofNat (l'.drawn - 1)
    rw [htrans, hdrawn]
    rfl
  · rw [if_pos h0] at hstep
    exact ⟨_, run_cons_eq_some.2 ⟨_, hstep, rfl⟩, ⟨rfl, rfl, rfl, rfl, rfl, rfl⟩, hnv,
      .inl ⟨h0, inPhase_openedWith hc' _⟩⟩

/-! ### After the number of variables -/

section Counted

variable {mem dirMem : Kind → Bool}

lemma allocMem_none (hm : mem .val = false) : k.allocMem mem Kind.all =
    (-enomem, { k with accessArray := Function.update k.accessArray .val none }) := by
  unfold Kind.all Driver.allocMem
  rw [hm]
  rfl

/-- Once `val_access` was allocated it is set, whether the other allocations succeed or not. -/
lemma allocMem_access (kinds : List Kind) (hk : Kind.val ∉ kinds) (k : Driver) :
    (k.allocMem mem kinds).2.accessArray .val = k.accessArray .val := by
  induction kinds generalizing k with
  | nil => rfl
  | cons kind kinds ih =>
    obtain ⟨hne, hnot⟩ := List.ne_and_not_mem_of_not_mem_cons hk
    unfold Driver.allocMem
    split
    · rw [ih hnot]
      exact Function.update_of_ne hne ..
    · exact Function.update_of_ne hne ..

lemma allocMem_isSome (hm : mem .val = true) :
    ((k.allocMem mem Kind.all).2.accessArray .val).isSome = true := by
  unfold Kind.all Driver.allocMem
  rw [if_pos hm, allocMem_access _ (by decide)]
  show (Function.update k.accessArray .val _ .val).isSome = true
  rw [Function.update_self]
  rfl

lemma allocMem_eq_zero (kinds : List Kind) (k : Driver) (h : (k.allocMem mem kinds).1 = 0) :
    ∀ kind ∈ kinds, mem kind = true := by
  induction kinds generalizing k with
  | nil => exact nofun
  | cons kind kinds ih =>
    unfold Driver.allocMem at h
    split at h
    · rename_i hm
      exact List.forall_mem_cons.2 ⟨hm, ih _ h⟩
    · have hne : -enomem ≠ 0 := by decide
      exact absurd h hne

lemma createDirs_access (kinds : List Kind) (k : Driver) :
    (k.createDirs dirMem kinds).2.accessArray = k.accessArray := by
  induction kinds generalizing k with
  | nil => rfl
  | cons kind kinds ih =>
    unfold Driver.createDirs
    split
    · exact ih _
    · rfl

lemma createDirs_none (kinds : List Kind) (k : Driver) (h : (k.createDirs dirMem kinds).1 = none) :
    ∀ kind ∈ kinds, dirMem kind = true := by
  induction kinds generalizing k with
  | nil => exact nofun
  | cons kind kinds ih =>
    unfold Driver.createDirs at h
    split at h
    · rename_i hm
      exact List.forall_mem_cons.2 ⟨hm.1, ih _ h⟩
    · cases h

end Counted

lemma count_interrupted (h : InPhase f .count k) (hi : p.intrCount = true ∧ k.link.nVars < 0) :
    ∃ k₁, run (step kstrtol) k (p.events f k .count) = some k₁ ∧ SameList k k₁ ∧
      k₁.link.nVars = k.link.nVars ∧ InPhase f .ready k₁ := by
  obtain ⟨hc, file, hf, hp⟩ := h
  have hstep : step kstrtol k (.llCounted f true p.mem p.dirMem) =
      some (k.openedWith f file (Driver.noVarsText (-erestartsys))) := by
    rw [step_llCounted kstrtol hf hp]
    unfold Driver.debugfsOpenLlCounted
    rw [if_pos hi.2]
    rfl
  refine ⟨k.openedWith f file (Driver.noVarsText (-erestartsys)), ?_, ⟨rfl, rfl, rfl, rfl, rfl, rfl⟩, rfl,
    inPhase_openedWith hc _⟩
  unfold Plan.events
  rw [if_pos hi]
  exact run_cons_eq_some.2 ⟨_, hstep, rfl⟩

lemma settle_nVars {t : Ptr} {response : CfgMsg} (s : Link) (h : response.type = resNVars) :
    (s.settle response t).nVars = response.val := if_pos h

/-- The arrays and the directories are there, and the loop can begin. -/
structure Begun (k k' : Driver) : Prop where
  access : ∀ kind, k'.accessArray kind = some (k.arrays + pos kind)
  dirP : ∀ kind, k'.dirP kind = some kind
  debugfs : k'.debugfs = k.debugfs
  drawn : k'.link.drawn = k.link.drawn

/-- Where the call stops once it knows the number, or begins its loop. -/
inductive Goes (p : Plan) (f : FileId) (n : ℕ) (k k' : Driver) : Prop
  | empty (hn : n = 0) (hp : InPhase f .ready k') (hl : SameList k k')
  | early (hm : p.mem .val = false) (hp : InPhase f .ready k') (hacc : k'.accessArray .val = none)
      (hdirs : k'.dirs = k.dirs) (hfiles : k'.debugfs = k.debugfs)
  | late (hn : n ≠ 0) (hm : p.mem .val = true) (hp : InPhase f .ready k')
      (hacc : (k'.accessArray .val).isSome = true)
      (hfail : ¬ ((∀ kind, p.mem kind = true) ∧ ∀ kind, p.dirMem kind = true))
  | loop (hn : n ≠ 0) (hm : p.mem .val = true) (hp : InPhase f (.query 0 n) k') (hb : Begun k k')

/-- An allocation or a directory fails when `val_access` is set already. -/
lemma goes_late {k₁ k₂ : Driver} {file : File} {text : List UInt8} (h0 : n ≠ 0)
    (hm : p.mem .val = true) (hc : k₂.link.chnl = true)
    (hacc : k₂.accessArray = (k₁.allocMem p.mem Kind.all).2.accessArray)
    (hfail : ¬ ((∀ kind, p.mem kind = true) ∧ ∀ kind, p.dirMem kind = true)) :
    Goes p f n k (k₂.openedWith f file text) := by
  refine .late h0 hm (inPhase_openedWith hc text) ?_ hfail
  show (k₂.accessArray .val).isSome = true
  rw [hacc]
  exact allocMem_isSome hm

/-- With variables to load the call allocates the arrays and creates the directories. -/
lemma alloc_move {k₁ : Driver} {file : File} (hl : SameList k k₁) (hc : k₁.link.chnl = true)
    (hdrawn : k₁.link.drawn = k.link.drawn) (hd : k.dirs = []) (h0 : n ≠ 0)
    (hn : k₁.link.nVars.toInt = n) :
    ∃ k₂, k₁.debugfsOpenLlCounted f file false p.mem p.dirMem = some k₂ ∧ Goes p f n k k₂ := by
  have hneg : ¬ k₁.link.nVars < 0 := by
    rw [Int32.lt_iff_toInt_lt, hn]
    exact Int.not_lt.2 (Int.natCast_nonneg _)
  have hle : ¬ k₁.link.nVars ≤ 0 := by
    rw [Int32.le_iff_toInt_le, hn]
    have hpos : (0 : Int32).toInt = 0 := rfl
    omega
  unfold Driver.debugfsOpenLlCounted
  rw [if_neg hneg]
  dsimp only
  rw [if_neg hle]
  cases hm : p.mem .val with
  | false =>
    have hne : -enomem ≠ 0 := by decide
    rw [allocMem_none hm]
    dsimp only
    rw [if_pos hne]
    refine ⟨_, rfl, .early hm (inPhase_openedWith hc _) ?_ hl.dirs hl.debugfs⟩
    exact Function.update_self Kind.val none k₁.accessArray
  | true =>
    have hlink := (allocMem_keeps p.mem Kind.all k₁).1
    have hlink' := (createDirs_keeps p.dirMem Kind.all (k₁.allocMem p.mem Kind.all).2).1
    by_cases hall : ∀ kind, p.mem kind = true
    · have hret : (k₁.allocMem p.mem Kind.all).1 = 0 := by rw [allocMem_all hall]
      rw [if_neg (not_not.2 hret)]
      by_cases hdirs : ∀ kind, p.dirMem kind = true
      · have hd₁ : (allocated k₁).dirs = [] := hl.dirs.trans hd
        rw [allocMem_all hall, createDirs_empty hdirs hd₁]
        have hloop : k₁.link.nVars.toInt.toNat = n := by rw [hn, Int.toNat_natCast]
        dsimp only
        rw [hloop]
        refine ⟨_, rfl, .loop h0 hm (inPhase_setPhase hc _)
          ⟨fun kind => ?_, fun _ => rfl, hl.debugfs, hdrawn⟩⟩
        show some (k₁.arrays + pos kind) = _
        rw [hl.arrays]
      · -- the first directory that cannot be created
        cases hdir : ((k₁.allocMem p.mem Kind.all).2.createDirs p.dirMem Kind.all).1 with
        | some kind =>
          refine ⟨_, rfl, goes_late h0 hm ?_ (createDirs_access _ _) fun h => hdirs h.2⟩
          rw [hlink', hlink]
          exact hc
        | none =>
          exact absurd (fun kind => createDirs_none _ _ hdir kind (mem_kinds kind)) hdirs
    · have hret : (k₁.allocMem p.mem Kind.all).1 ≠ 0 :=
        fun h => hall fun kind => allocMem_eq_zero _ _ h kind (mem_kinds kind)
      rw [if_pos hret]
      refine ⟨_, rfl, goes_late h0 hm ?_ rfl fun h => hall h.1⟩
      rw [hlink]
      exact hc

lemma counted {k₁ : Driver} {file : File} (hl : SameList k k₁) (hc : k₁.link.chnl = true)
    (hdrawn : k₁.link.drawn = k.link.drawn) (hd : k.dirs = []) (hn : k₁.link.nVars.toInt = n) :
    ∃ k₂, k₁.debugfsOpenLlCounted f file false p.mem p.dirMem = some k₂ ∧ Goes p f n k k₂ := by
  by_cases h0 : n = 0
  · have hzero : k₁.link.nVars = 0 := by
      apply Int32.toInt.inj
      rw [hn, h0]
      rfl
    unfold Driver.debugfsOpenLlCounted
    rw [hzero, if_neg (by decide), if_pos (by decide)]
    refine ⟨_, rfl, .empty h0 (inPhase_openedWith hc _) ?_⟩
    exact ⟨hl.accessArray, hl.records, hl.arrays, hl.dirP, hl.dirs, hl.debugfs⟩
  · exact alloc_move hl hc hdrawn hd h0 hn

lemma Goes.settle (h : Goes p f n k k₁) (response : CfgMsg) (t : Ptr) :
    Goes p f n k { k₁ with link := k₁.link.settle response t } := by
  cases h with
  | empty hn hp hl => exact .empty hn hp ⟨hl.accessArray, hl.records, hl.arrays, hl.dirP, hl.dirs, hl.debugfs⟩
  | early hm hp hacc hdirs hfiles => exact .early hm hp hacc hdirs hfiles
  | late hn hm hp hacc hfail => exact .late hn hm hp hacc hfail
  | loop hn hm hp hb => exact .loop hn hm hp ⟨hb.access, hb.dirP, hb.debugfs, hb.drawn⟩

/-- The call touches no list of structs: it writes its text, or enters its loop. -/
lemma openLlCounted_cases {intr : Bool} {mem dirMem : Kind → Bool}
    (hs : k.debugfsOpenLlCounted f file intr mem dirMem = some k₁) : ∃ k₀ : Driver, k₀.link = k.link ∧
      ((∃ s, k₁ = k₀.openedWith f file s) ∨ ∃ phase, k₁ = k₀.setPhase f file phase) := by
  have hlink := (allocMem_keeps mem Kind.all k).1
  have hlink' := (createDirs_keeps dirMem Kind.all (k.allocMem mem Kind.all).2).1
  unfold Driver.debugfsOpenLlCounted at hs
  split at hs
  · obtain ⟨-, hs⟩ := Option.ite_none_right_eq_some.1 hs
    exact ⟨k, rfl, .inl ⟨_, (Option.some.inj hs).symm⟩⟩
  · dsimp only at hs
    split at hs
    · exact ⟨k, rfl, .inl ⟨_, (Option.some.inj hs).symm⟩⟩
    · split at hs
      · exact ⟨_, hlink, .inl ⟨_, (Option.some.inj hs).symm⟩⟩
      · split at hs
        · exact ⟨_, hlink'.trans hlink, .inl ⟨_, (Option.some.inj hs).symm⟩⟩
        · exact ⟨_, hlink'.trans hlink, .inr ⟨_, (Option.some.inj hs).symm⟩⟩

lemma openedWith_msgSeqNr (s : List UInt8) (t : Ptr) :
    ((k.openedWith f file s).link.trans t).msgSeqNr = (k.link.trans t).msgSeqNr := by
  by_cases ht : t = file.privateData
  · subst ht
    have h : (k.openedWith f file s).transOf { file with phase := .ready } = _ := openedWith_trans s
    have hseq := congrArg Transaction.msgSeqNr h
    exact hseq
  · exact congrArg Transaction.msgSeqNr (Function.update_of_ne ht ..)

/-- The request is still pending when the call has gone on without its reply. -/
lemma Awaits.counted {t : Ptr} {intr : Bool} {mem dirMem : Kind → Bool} (h : Awaits t k)
    (hs : k.debugfsOpenLlCounted f file intr mem dirMem = some k₁) :
    Awaits t k₁ ∧ lastSeq k₁ = lastSeq k ∧ k₁.link.nVars = k.link.nVars := by
  obtain ⟨k₀, hl, hk⟩ := openLlCounted_cases hs
  have h₀ : Awaits t k₀ := by
    unfold Awaits lastSeq
    rw [hl]
    exact h
  have hseq : lastSeq k₀ = lastSeq k := by
    unfold lastSeq
    rw [hl]
  have hnv : k₀.link.nVars = k.link.nVars := congrArg Link.nVars hl
  rcases hk with ⟨s, rfl⟩ | ⟨phase, rfl⟩
  · exact ⟨⟨h₀.1, (openedWith_msgSeqNr s t).trans h₀.2⟩, hseq, hnv⟩
  · exact ⟨h₀, hseq, hnv⟩

/-- `n_vars` after a call that has known the number. -/
def Plan.left (p : Plan) (k : Driver) : Int32 := if p.arrival = .after then p.told k else Int32.ofNat p.count

section Congr

variable (h : k₁.link.nVars = k.link.nVars)

include h

lemma Plan.told_congr : p.told k₁ = p.told k := by
  have hh : p.Hurries k₁ = p.Hurries k := by
    unfold Hurries
    rw [h]
  unfold told
  simp only [hh, h]

lemma Plan.number_congr : p.number k₁ = p.number k := congrArg (fun x => x.toInt.toNat) (told_congr h)

lemma Plan.left_congr : p.left k₁ = p.left k := by
  unfold left
  rw [told_congr h]

end Congr

/-- **The call goes on**, after the wait for the number or without it. -/
lemma count_move {t : Ptr} (h : InPhase f .count k) (ht : Awaits t k)
    (hi : ¬ (p.intrCount = true ∧ k.link.nVars < 0)) (hd : k.dirs = []) :
    ∃ k₁, run (step kstrtol) k (p.events f k .count) = some k₁ ∧ Goes p f (p.number k) k k₁ ∧
      k₁.link.nVars = p.left k := by
  obtain ⟨hc, file, hf, hp⟩ := h
  have htold := (p.number_toInt k).symm
  unfold Plan.events Plan.left
  rw [if_neg hi]
  unfold Plan.told at htold ⊢
  by_cases hh : p.Hurries k
  · rw [if_pos hh] at htold
    have hmove : ∃ k₁, k.debugfsOpenLlCounted f file false p.mem p.dirMem = some k₁ ∧
        Goes p f (p.number k) k k₁ := counted (SameList.refl k) hc rfl hd htold
    obtain ⟨k₁, hs, hgoes⟩ := hmove
    have hstep : step kstrtol k (.llCounted f false p.mem p.dirMem) = some k₁ :=
      (step_llCounted kstrtol hf hp ..).trans hs
    obtain ⟨ht₁, hseq, hn⟩ := ht.counted hs
    rw [if_pos hh, if_pos hh]
    cases ha : p.arrival with
    | before => exact absurd ha hh.1
    | after => exact ⟨k₁, run_cons_eq_some.2 ⟨_, hstep, rfl⟩, hgoes, hn⟩
    | during =>
      have hreply := step_reply kstrtol ht₁ (p.countReply (lastSeq k)) hseq.symm
      exact ⟨_, run_cons_eq_some.2 ⟨_, hstep, run_cons_eq_some.2 ⟨_, hreply, rfl⟩⟩, hgoes.settle _ _,
        settle_nVars _ rfl⟩
  · rw [if_neg hh] at htold
    have hreply := step_reply kstrtol ht (p.countReply (lastSeq k)) rfl
    have hn : (k.link.settle (p.countReply (lastSeq k)) t).nVars = Int32.ofNat p.count := settle_nVars _ rfl
    have hsame : SameList k { k with link := k.link.settle (p.countReply (lastSeq k)) t } :=
      ⟨rfl, rfl, rfl, rfl, rfl, rfl⟩
    obtain ⟨k₁, hs, hgoes⟩ := counted hsame hc rfl hd (hn ▸ htold)
    have hf' : ({ k with link := k.link.settle (p.countReply (lastSeq k)) t } : Driver).files f = some file := hf
    have hstep := (step_llCounted kstrtol hf' hp false p.mem p.dirMem).trans hs
    rw [if_neg hh, if_neg hh, ite_self]
    exact ⟨k₁, run_cons_eq_some.2 ⟨_, hreply, run_cons_eq_some.2 ⟨_, hstep, rfl⟩⟩, hgoes,
      (openLlCounted_beside hs).1.nVars.trans hn⟩

/-- With no variables the call stops, and does not report success. -/
lemma count_zero (h : InPhase f .count k) (hn : k.link.nVars = 0) (ha : p.arrival = .after) :
    ∃ k₁, run (step kstrtol) k (p.events f k .count) = some k₁ ∧ InPhase f .ready k₁ ∧
      ¬ Reports f (ascii "ok\n") k₁ := by
  obtain ⟨hc, file, hf, hp⟩ := h
  have hneg : ¬ k.link.nVars < 0 := by
    rw [hn]
    decide
  have hstep : step kstrtol k (.llCounted f false p.mem p.dirMem) =
      some (k.openedWith f file (Driver.noVarsText 0)) := by
    rw [step_llCounted kstrtol hf hp]
    unfold Driver.debugfsOpenLlCounted
    rw [hn, if_neg (by decide)]
    exact if_pos (Int32.le_refl 0)
  have hhurries : p.Hurries k := ⟨by rw [ha]; exact nofun, hneg⟩
  refine ⟨k.openedWith f file (Driver.noVarsText 0), ?_, inPhase_openedWith hc _, fun hr => ?_⟩
  · unfold Plan.events
    dsimp only
    rw [if_neg fun h => hneg h.2, if_pos hhurries, ha]
    exact run_cons_eq_some.2 ⟨_, hstep, rfl⟩
  · exact absurd (eq_of_reports (by decide) hr) (by decide)

/-! ### One round of the loop -/

/-- The call is at the head of its loop, with arrays of all kinds. -/
structure Looping (f : FileId) (n : ℕ) (a : Kind → ℕ) (i : ℕ) (k : Driver) : Prop where
  phase : InPhase f (.query i n) k
  access : ∀ kind, k.accessArray kind = some (a kind)
  injective : Function.Injective a

/-- The call waits for the name of the variable `i`. -/
def Waiting (f : FileId) (n i : ℕ) (k : Driver) : Prop :=
  k.link.chnl = true ∧ ∃ file, k.files f = some file ∧ file.phase = .name i n ∧
    Awaits file.privateData k ∧ (k.transOf file).valid = false

/-- From `k` to `k'` the records of the variable `i` are set, and its name is queried. -/
structure Queried (a : Kind → ℕ) (i : ℕ) (k k' : Driver) : Prop where
  accessArray : k'.accessArray = k.accessArray
  dirP : k'.dirP = k.dirP
  debugfs : k'.debugfs = k.debugfs
  drawn : k'.link.drawn = k.link.drawn + 1
  record : ∀ kind, k'.records (a kind) i = ⟨Int32.ofNat i, kind.access⟩
  records : ∀ b, ∀ j ≠ i, k'.records b j = k.records b j

lemma queryName_awaits (i : ℕ) (send : Int32) (file : File)
    (hc : k.link.chnl = true) :
    ((k.modifyTrans file forName).accessVar kstrtol file ⟨Int32.ofNat i, .name⟩ send).1 = send ∧
      (queryName kstrtol i send file k).link.chnl = true ∧
      (queryName kstrtol i send file k).link.drawn = k.link.drawn + 1 ∧
      Awaits file.privateData (queryName kstrtol i send file k) ∧
      ((queryName kstrtol i send file k).transOf file).valid = false := by
  have h0 : ((k.modifyTrans file forName).link.prepare kstrtol (Int32.ofNat i) .name
    file.privateData).1 = 0 := rfl
  have hc' : (k.modifyTrans file forName).link.chnl = true := hc
  have hacc := Link.accessVar_of_eq hc' h0 send
  rw [Link.rpmsgSend_eq] at hacc
  have hlink : (queryName kstrtol i send file k).link = _ := congrArg Prod.snd hacc
  have htrans : (queryName kstrtol i send file k).link.trans file.privateData =
      { (k.modifyTrans file forName).link.trans file.privateData with
        msgSeqNr := UInt32.ofNat k.link.drawn } := by
    rw [hlink]
    exact Function.update_self ..
  have hdrawn : (queryName kstrtol i send file k).link.drawn = k.link.drawn + 1 := by
    rw [hlink]
    rfl
  refine ⟨congrArg Prod.fst hacc, ?_, hdrawn, ⟨⟨k.link.pendingList, ?_⟩, ?_⟩, ?_⟩
  · rw [hlink]
    exact hc
  · rw [hlink]
    rfl
  · unfold lastSeq
    rw [htrans, hdrawn]
    rfl
  · unfold Driver.transOf
    rw [htrans, modifyTrans_trans_self]
    rfl

/-- **The query of a name**: the call waits, or goes on when `rpmsg_send` fails. -/
lemma query_move (h : Looping f n a i k) (hi : i < n) :
    ∃ k₁, run (step kstrtol) k (p.events f k (.query i n)) = some k₁ ∧ Queried a i k k₁ ∧
      (p.sendName i ≠ 0 ∧ Looping f n a (i + 1) k₁ ∨ p.sendName i = 0 ∧ Waiting f n i k₁) := by
  obtain ⟨⟨hc, file, hf, hp⟩, hacc, hinj⟩ := h
  obtain ⟨r, hr, hself, -, hrest⟩ := foldlM_setRecord hinj i hacc kinds_nodup
  obtain ⟨hret, hchnl, hdrawn, hawaits, hvalid⟩ :=
    queryName_awaits kstrtol (k := { k with records := r }) i (p.sendName i) file hc
  have hstep : step kstrtol k (.llQuery f (p.sendName i)) =
      some ((queryName kstrtol i (p.sendName i) file { k with records := r }).setPhase f file
        (if p.sendName i < 0 then .query (i + 1) n else .name i n)) := by
    rw [step_llQuery kstrtol hf hp]
    unfold Driver.debugfsOpenLlQuery
    rw [if_pos hi, hr]
    dsimp only [Option.bind_eq_bind, Option.bind_some]
    unfold forName at hret
    rw [hret]
    split
    · rfl
    · rfl
  refine ⟨_, run_cons_eq_some.2 ⟨_, hstep, rfl⟩,
    ⟨rfl, rfl, rfl, hdrawn, fun kind => hself kind (mem_kinds kind), hrest⟩, ?_⟩
  by_cases h0 : p.sendName i = 0
  · have hneg : ¬ p.sendName i < 0 := by rw [h0]; decide
    rw [if_neg hneg]
    exact .inr ⟨h0, hchnl, _, setPhase_files_self _, rfl, hawaits, hvalid⟩
  · rw [if_pos (Int32.lt_of_le_of_ne (p.send_le.2 i) h0)]
    exact .inl ⟨h0, inPhase_setPhase hchnl _, hacc, hinj⟩

/-- The name of the file that a reply leads to. -/
def fileName (response : CfgMsg) : List UInt8 := cstr (replyText response)

/-- From `k` to `k'` the reply to the query of the variable `i` has arrived, and its files are created
as far as this is possible. -/
structure Created (p : Plan) (f : FileId) (i : ℕ) (response : CfgMsg) (k k' : Driver) : Prop where
  accessArray : k'.accessArray = k.accessArray
  dirP : k'.dirP = k.dirP
  records : k'.records = k.records
  drawn : k'.link.drawn = k.link.drawn
  files : ∃ name l, (response.type ≠ resOk → response.type ≠ resNVars → name = fileName response) ∧
    Kind.all.foldlM (Driver.createFile name i (p.fileMem i)) { k with link := l } =
      some { k with link := l, debugfs := k'.debugfs }
  err : response.type ≠ resOk → response.type ≠ resNVars →
    ∃ file, k'.files f = some file ∧ (k'.transOf file).err = replyErr response

lemma foldlM_createFile_some (name : List UInt8) (i : ℕ) (mem : Kind → Bool) (kinds : List Kind)
    (k : Driver) (hacc : ∀ kind, k.accessArray kind = some (a kind)) :
    ∃ l, kinds.foldlM (Driver.createFile name i mem) k = some { k with debugfs := l } := by
  induction kinds generalizing k with
  | nil => exact ⟨k.debugfs, rfl⟩
  | cons kind kinds ih =>
    have hcreate : ∃ l, k.createFile name i mem kind = some { k with debugfs := l } := by
      unfold Driver.createFile
      rw [hacc kind, Option.bind_eq_bind, Option.bind_some]
      split
      · exact ⟨_, rfl⟩
      · exact ⟨k.debugfs, rfl⟩
    obtain ⟨l, hl⟩ := hcreate
    obtain ⟨l', hl'⟩ := ih { k with debugfs := l } hacc
    exact ⟨l', by rw [List.foldlM_cons, hl]; exact hl'⟩

lemma cstr_complete {response : CfgMsg} (h0 : response.type ≠ resOk) (h1 : response.type ≠ resNVars)
    (x : Transaction) : cstr (Link.complete response x).buf.bytes = fileName response := by
  rw [complete_eq h0 h1]
  show cstr (x.buf.write 0 _ (replyText_fits response)).bytes = _
  rw [bytes_write_zero, List.append_assoc]
  exact cstr_append _ _

/-- **The reply to a query**: files are created under the name that is in the buffer. -/
lemma name_move (h : Waiting f n i k) (hacc : ∀ kind, k.accessArray kind = some (a kind))
    (hinj : Function.Injective a) (hi : p.intrName i = false) :
    ∃ k₁, run (step kstrtol) k (p.events f k (.name i n)) = some k₁ ∧ Looping f n a (i + 1) k₁ ∧
      Created p f i { p.reply i with seq := lastSeq k } k k₁ := by
  obtain ⟨hc, file, hf, hp, hawaits, -⟩ := h
  generalize hr : ({ p.reply i with seq := lastSeq k } : CfgMsg) = response
  have hreply := step_reply kstrtol hawaits response (by rw [← hr])
  generalize hl : k.link.settle response file.privateData = l at hreply
  have htrans : Driver.transOf file { k with link := l } = Link.complete response (k.transOf file) := by
    unfold Driver.transOf
    rw [← hl]
    exact Function.update_self ..
  have hvalid : (Driver.transOf file { k with link := l }).valid = true := by
    rw [htrans]
    exact Link.complete_valid _ _
  obtain ⟨fs, hfs⟩ := foldlM_createFile_some (cstr (Driver.transOf file { k with link := l }).buf.bytes) i
    (p.fileMem i) Kind.all { k with link := l } hacc
  have hstep : step kstrtol { k with link := l } (.llNamed f false (p.fileMem i)) =
      some (Driver.setPhase f file (.query (i + 1) n) { k with link := l, debugfs := fs }) := by
    rw [step_llNamed kstrtol (k := { k with link := l }) hf hp]
    unfold Driver.debugfsOpenLlNamed
    rw [hvalid, hfs]
    rfl
  refine ⟨Driver.setPhase f file (.query (i + 1) n) { k with link := l, debugfs := fs }, ?_,
    ⟨inPhase_setPhase ?_ _, hacc, hinj⟩, rfl, rfl, rfl, ?_, ⟨_, l, fun h0 h1 => ?_, hfs⟩,
    fun h0 h1 => ⟨_, setPhase_files_self _, ?_⟩⟩
  · unfold Plan.events
    dsimp only
    rw [hi, hr]
    exact run_cons_eq_some.2 ⟨_, hreply, run_cons_eq_some.2 ⟨_, hstep, rfl⟩⟩
  · show l.chnl = true
    rw [← hl]
    exact hc
  · show l.drawn = k.link.drawn
    rw [← hl]
    rfl
  · rw [htrans]
    exact cstr_complete h0 h1 _
  · show (Driver.transOf file { k with link := l }).err = _
    rw [htrans, complete_eq h0 h1]
    rfl

lemma name_interrupted (h : Waiting f n i k) (hi : p.intrName i = true) :
    ∃ k₁, run (step kstrtol) k (p.events f k (.name i n)) = some k₁ ∧ InPhase f .ready k₁ ∧
      k₁.accessArray = k.accessArray := by
  obtain ⟨hc, file, hf, hp, -, hv⟩ := h
  have hstep : step kstrtol k (.llNamed f true (p.fileMem i)) =
      some (k.openedWith f file (ascii "debugfs_open_ll: interrupted\n")) := by
    rw [step_llNamed kstrtol hf hp]
    unfold Driver.debugfsOpenLlNamed
    rw [hv]
    rfl
  refine ⟨k.openedWith f file (ascii "debugfs_open_ll: interrupted\n"), ?_, inPhase_openedWith hc _, rfl⟩
  unfold Plan.events
  dsimp only
  rw [hi]
  exact run_cons_eq_some.2 ⟨_, hstep, rfl⟩

lemma last_move (h : InPhase f (.query n n) k) :
    ∃ k₁ file, k.files f = some file ∧ k₁ = k.openedWith f file (ascii "ok\n") ∧
      run (step kstrtol) k (p.events f k (.query n n)) = some k₁ ∧ InPhase f .ready k₁ := by
  obtain ⟨hc, file, hf, hp⟩ := h
  refine ⟨_, file, hf, rfl, run_cons_eq_some.2 ⟨_, ?_, rfl⟩, inPhase_openedWith hc _⟩
  rw [step_llQuery kstrtol hf hp]
  unfold Driver.debugfsOpenLlQuery
  rw [if_neg (lt_irrefl _)]

/-! ### Every call returns -/

/-- The call stops before it has set `val_access`. -/
def Stops (p : Plan) (k : Driver) : Prop :=
  p.send ≠ 0 ∨ (p.intrCount = true ∧ k.link.nVars < 0) ∨ p.number k = 0 ∨ p.mem .val = false

lemma looping_returns (h : Looping f n a i k) (hi : i ≤ n) :
    ∃ k', Returns kstrtol p f k k' ∧ k'.accessArray = k.accessArray := by
  obtain ⟨m, hm⟩ := Nat.exists_eq_add_of_le hi
  induction m generalizing i k with
  | zero =>
    obtain rfl : n = i := hm
    obtain ⟨k₁, file, -, rfl, hrun, hready⟩ := last_move kstrtol h.phase
    exact ⟨_, returns_move h.phase nofun hrun (returns_of_inPhase hready), rfl⟩
  | succ m ih =>
    have hlt : i < n := by omega
    obtain ⟨k₁, hrun, hq, hcase⟩ := query_move kstrtol h hlt
    suffices hnext : ∃ k', Returns kstrtol p f k₁ k' ∧ k'.accessArray = k₁.accessArray by
      obtain ⟨k', hr, hacc⟩ := hnext
      exact ⟨k', returns_move h.phase nofun hrun hr, hacc.trans hq.accessArray⟩
    rcases hcase with ⟨-, hl⟩ | ⟨-, hw⟩
    · exact ih hl hlt (by omega)
    · have hphase : InPhase f (.name i n) k₁ := by
        obtain ⟨hc, file, hf, hp, -⟩ := hw
        exact ⟨hc, file, hf, hp⟩
      cases hintr : p.intrName i with
      | true =>
        obtain ⟨k₂, hrun₂, hready, hacc⟩ := name_interrupted kstrtol hw hintr
        exact ⟨k₂, returns_move hphase nofun hrun₂ (returns_of_inPhase hready), hacc⟩
      | false =>
        have hacc₁ : ∀ kind, k₁.accessArray kind = some (a kind) := hq.accessArray ▸ h.access
        obtain ⟨k₂, hrun₂, hl, hcr⟩ := name_move kstrtol hw hacc₁ h.injective hintr
        obtain ⟨k', hr, hacc⟩ := ih hl hlt (by omega)
        exact ⟨k', returns_move hphase nofun hrun₂ hr, hacc.trans hcr.accessArray⟩

lemma begun_injective (k : Driver) : Function.Injective fun kind => k.arrays + pos kind :=
  fun _ _ h => pos_injective (Nat.add_left_cancel h)

/-- The number that is known after the call, if it stops before it has set `val_access`. -/
def Plan.known (p : Plan) (k : Driver) : Int32 :=
  if p.send ≠ 0 ∨ p.intrCount = true ∧ k.link.nVars < 0 then k.link.nVars else p.left k

/-- **A call returns**, and has set `val_access` unless it stops before. -/
theorem loads_of_fresh (p : Plan) (hk : Fresh k) (hf : k.files f = none) : ∃ k', Loads kstrtol p f k k' ∧
      (Stops p k ∧ (k'.accessArray .val = none ∧ k'.dirs = [] ∧ k'.debugfs = []) ∧
          k'.link.nVars = p.known k ∨
        ¬ Stops p k ∧ (k'.accessArray .val).isSome = true) := by
  obtain ⟨k₀, hopen, hload, hl₀, -, hnv₀⟩ := open_fresh kstrtol hk.chnl hf hk.access
  obtain ⟨k₁, hrun₁, hl₁, hnv₁, hcase₁⟩ := load_move kstrtol (p := p) hload
  have hsame : k₁.accessArray .val = none ∧ k₁.dirs = [] ∧ k₁.debugfs = [] := by
    rw [hl₁.accessArray, hl₁.dirs, hl₁.debugfs, hl₀.accessArray, hl₀.dirs, hl₀.debugfs]
    exact ⟨hk.access, hk.dirs, hk.debugfs⟩
  have hnv : k₁.link.nVars = k.link.nVars := hnv₁.trans hnv₀
  have hstart : ∀ {k'}, Returns kstrtol p f k₁ k' → Loads kstrtol p f k k' := fun hr =>
    ⟨k₀, hopen, returns_move hload nofun hrun₁ hr⟩
  rcases hcase₁ with ⟨hsend, hready⟩ | ⟨hsend, hcount, ⟨t, ht⟩, -⟩
  · refine ⟨k₁, hstart (returns_of_inPhase hready), .inl ⟨.inl hsend, hsame, ?_⟩⟩
    exact hnv.trans (if_pos (.inl hsend)).symm
  by_cases hi : p.intrCount = true ∧ k₁.link.nVars < 0
  · obtain ⟨k₂, hrun₂, hl₂, hnv₂, hready⟩ := count_interrupted kstrtol hcount hi
    rw [hnv] at hi
    refine ⟨k₂, hstart (returns_move hcount nofun hrun₂ (returns_of_inPhase hready)),
      .inl ⟨.inr (.inl hi), ?_, (hnv₂.trans hnv).trans (if_pos (.inr hi)).symm⟩⟩
    rw [hl₂.accessArray, hl₂.dirs, hl₂.debugfs]
    exact hsame
  obtain ⟨k₂, hrun₂, hgoes, hnv₂⟩ := count_move kstrtol hcount ht hi hsame.2.1
  have hreturn : ∀ {k'}, Returns kstrtol p f k₂ k' → Loads kstrtol p f k k' := fun hr =>
    hstart (returns_move hcount nofun hrun₂ hr)
  rw [Plan.number_congr hnv] at hgoes
  rw [hnv] at hi
  have hknown : k₂.link.nVars = p.known k := by
    rw [hnv₂, Plan.left_congr hnv]
    exact (if_neg fun h => h.elim (fun h => h hsend) hi).symm
  have hnot : p.number k ≠ 0 → p.mem .val = true → ¬ Stops p k := by
    rintro hn hm (h | h | h | h)
    · exact h hsend
    · exact hi h
    · exact hn h
    · rw [hm] at h
      cases h
  cases hgoes with
  | empty hn hready hl =>
    refine ⟨k₂, hreturn (returns_of_inPhase hready), .inl ⟨.inr (.inr (.inl hn)), ?_, hknown⟩⟩
    rw [hl.accessArray, hl.dirs, hl.debugfs]
    exact hsame
  | early hm hready hacc hdirs hfiles =>
    exact ⟨k₂, hreturn (returns_of_inPhase hready),
      .inl ⟨.inr (.inr (.inr hm)), ⟨hacc, hdirs.trans hsame.2.1, hfiles.trans hsame.2.2⟩, hknown⟩⟩
  | late hn hm hready hacc =>
    exact ⟨k₂, hreturn (returns_of_inPhase hready), .inr ⟨hnot hn hm, hacc⟩⟩
  | loop hn hm hquery hb =>
    obtain ⟨k', hr, hacc⟩ :=
      looping_returns kstrtol ⟨hquery, hb.access, begun_injective k₁⟩ (Nat.zero_le _)
    refine ⟨k', hreturn hr, .inr ⟨hnot hn hm, ?_⟩⟩
    rw [hacc, hb.access]
    rfl

/-! ### The files of a call in which nothing fails -/

section Made

variable {names : ℕ → List UInt8} {x : DebugfsFile} {s : List UInt8}

/-- The name was used for a variable before. -/
def Used (names : ℕ → List UInt8) (i : ℕ) : Prop := ∃ j < i, names j = names i

instance (names : ℕ → List UInt8) : DecidablePred (Used names) := fun i =>
  inferInstanceAs (Decidable (∃ j < i, _))

/-- The files after the names of the first `i` variables, the last one first: there is none for a name
that was used before. -/
def made (names : ℕ → List UInt8) (a : Kind → ℕ) : ℕ → List DebugfsFile
  | 0 => []
  | i + 1 =>
    if Used names i then made names a i
    else (Kind.all.map (fileOf (names i) a i)).reverse ++ made names a i

lemma mem_made : x ∈ made names a i ↔ ∃ j < i, ¬ Used names j ∧ ∃ kind, x = fileOf (names j) a j kind := by
  induction i with
  | zero => simp [made]
  | succ i ih =>
    have hsucc : ∀ {P : ℕ → Prop}, (∃ j < i + 1, P j) ↔ P i ∨ ∃ j < i, P j := by
      intro P
      simp only [Nat.lt_succ_iff_lt_or_eq, or_and_right, exists_or, exists_eq_left]
      exact or_comm
    rw [made, hsucc]
    split
    · rename_i hu
      rw [ih]
      exact ⟨.inr, fun h => h.resolve_left fun h => h.1 hu⟩
    · rename_i hu
      rw [List.mem_append, List.mem_reverse, List.mem_map, ih]
      refine or_congr_left ⟨?_, ?_⟩
      · rintro ⟨kind, -, rfl⟩
        exact ⟨hu, kind, rfl⟩
      · rintro ⟨-, kind, rfl⟩
        exact ⟨kind, mem_kinds kind, rfl⟩

lemma exists_made (kind : Kind) :
    (∃ x ∈ made names a i, x.name = s ∧ x.parent = some kind) ↔ ∃ j < i, names j = s := by
  constructor
  · rintro ⟨x, hx, rfl, -⟩
    obtain ⟨j, hj, -, kind', rfl⟩ := mem_made.1 hx
    exact ⟨j, hj, rfl⟩
  · intro h
    obtain ⟨hlt, hname⟩ := Nat.find_spec h
    refine ⟨fileOf s a (Nat.find h) kind, mem_made.2 ⟨Nat.find h, hlt, ?_, kind, by rw [hname]⟩, rfl, rfl⟩
    rintro ⟨j, hj, e⟩
    exact Nat.find_min h hj ⟨hj.trans hlt, e.trans hname⟩

/-- In the directory of a kind there is one file for each name. -/
lemma filter_made (names : ℕ → List UInt8) (a : Kind → ℕ) (kind : Kind) (i : ℕ) :
    ((made names a i).filter fun x => x.parent = some kind).reverse =
      ((List.range i).filter fun j => ¬ Used names j).map fun j => fileOf (names j) a j kind := by
  induction i with
  | zero => rfl
  | succ i ih =>
    rw [made, List.range_succ, List.filter_append, List.map_append, ← ih]
    split
    · rename_i hu
      simp [hu]
    · rename_i hu
      rw [List.filter_append, List.reverse_append]
      congr 1
      rw [List.filter_singleton, decide_eq_true hu]
      cases kind <;> rfl

lemma foldlM_createFile_used {mem : Kind → Bool} {name : List UInt8} (i : ℕ) (kinds : List Kind)
    (k : Driver) (hacc : ∀ kind, k.accessArray kind = some (a kind)) (hdir : ∀ kind, k.dirP kind = some kind)
    (hold : ∀ kind, ∃ x ∈ k.debugfs, x.name = name ∧ x.parent = some kind) :
    kinds.foldlM (Driver.createFile name i mem) k = some k := by
  induction kinds with
  | nil => rfl
  | cons kind kinds ih =>
    have hcreate : k.createFile name i mem kind = some k := by
      unfold Driver.createFile
      rw [hacc kind, hdir kind, Option.bind_eq_bind, Option.bind_some]
      obtain ⟨x, hx, h⟩ := hold kind
      exact if_neg fun hn => hn.2 x hx h
    rw [List.foldlM_cons, hcreate]
    exact ih

lemma foldlM_createFile_made (names : ℕ → List UInt8) {mem : Kind → Bool} (hm : ∀ kind, mem kind = true)
    (hacc : ∀ kind, k.accessArray kind = some (a kind)) (hdir : ∀ kind, k.dirP kind = some kind)
    (hfiles : k.debugfs = made names a i) :
    Kind.all.foldlM (Driver.createFile (names i) i mem) k =
      some { k with debugfs := made names a (i + 1) } := by
  rw [made]
  split
  · rename_i hu
    rw [foldlM_createFile_used i Kind.all k hacc hdir, ← hfiles]
    intro kind
    rw [hfiles]
    exact (exists_made kind).2 hu
  · rename_i hu
    rw [foldlM_createFile i hm hacc hdir kinds_nodup, hfiles]
    intro kind _ x hx h
    rw [hfiles] at hx
    exact hu ((exists_made kind).1 ⟨x, hx, h⟩)

end Made

/-- Nothing fails in the call. -/
structure Faultless (p : Plan) : Prop where
  send : p.send = 0
  sendName : ∀ i, p.sendName i = 0
  intrCount : p.intrCount = false
  intrName : ∀ i, p.intrName i = false
  mem : ∀ kind, p.mem kind = true
  dirMem : ∀ kind, p.dirMem kind = true
  fileMem : ∀ i kind, p.fileMem i kind = true

def nameOf (response : CfgMsg) : List UInt8 := cstr (response.data.read response.len.toNat)

def Named (response : CfgMsg) : Prop :=
  response.type = resName ∧ ¬ response.len.toNat > ioBufSize - 1 ∧ nameOf response ≠ []

instance : DecidablePred Named := fun response =>
  inferInstanceAs (Decidable (response.type = resName ∧ _ ∧ _))

def Failed (response : CfgMsg) : Prop :=
  response.type ∉ [resOk, resNVars, resRdVal, resRdMin, resRdMax, resName, resDesc] ∨
    response.type = resName ∧ response.len.toNat > ioBufSize - 1

/-- The replies to the queries of the names: each carries a name, and no two the same, or reports an
error. -/
structure Answers (p : Plan) (n : ℕ) : Prop where
  each : ∀ i < n, Named (p.reply i) ∨ Failed (p.reply i)
  distinct : ∀ i < n, ∀ j < i, Named (p.reply i) → Named (p.reply j) →
    nameOf (p.reply j) ≠ nameOf (p.reply i)

lemma not_named_of_failed {response : CfgMsg} (h : Failed response) : ¬ Named response := by
  rintro ⟨ht, hl, -⟩
  rcases h with hf | ⟨-, hlong⟩
  · rw [ht] at hf
    exact hf (by decide)
  · exact hl hlong

lemma Answers.type (h : Answers p n) (d : ℕ) (hi : i < n) :
    (p.sent d i).type ≠ resOk ∧ (p.sent d i).type ≠ resNVars := by
  show (p.reply i).type ≠ resOk ∧ (p.reply i).type ≠ resNVars
  rcases h.each i hi with hn | hf | ⟨ht, -⟩
  · rw [hn.1]
    decide
  · constructor
    · rintro e
      rw [e] at hf
      exact hf (by decide)
    · rintro e
      rw [e] at hf
      exact hf (by decide)
  · rw [ht]
    decide

lemma fileName_of_named {response : CfgMsg} (h : Named response) : fileName response = nameOf response := by
  obtain ⟨ht, hl, -⟩ := h
  have h2 : ¬ (response.type = resRdVal ∨ response.type = resRdMin ∨ response.type = resRdMax) := by
    rw [ht]
    decide
  unfold fileName replyText
  rw [if_neg h2, if_pos (.inl ht), if_neg hl]
  rfl

lemma replyErr_of_named {response : CfgMsg} (h : Named response) : replyErr response = 0 := by
  obtain ⟨ht, hl, -⟩ := h
  have h2 : ¬ (response.type = resOk ∨ response.type = resRdVal ∨ response.type = resRdMin ∨
      response.type = resRdMax) := by
    rw [ht]
    decide
  unfold replyErr
  rw [if_neg h2, if_pos (.inl ht), if_neg hl]

lemma replyErr_of_failed {response : CfgMsg} (h : Failed response) : replyErr response ≠ 0 := by
  unfold replyErr
  rcases h with hf | ⟨ht, hlong⟩
  · simp only [List.mem_cons, List.not_mem_nil, or_false, not_or] at hf
    obtain ⟨hok, -, hval, hmin, hmax, hname, hdesc⟩ := hf
    rw [if_neg (by simp [hok, hval, hmin, hmax]), if_neg (by simp [hname, hdesc])]
    split
    · rename_i herr
      rcases herr with e | e
      · rw [e]
        decide
      · rw [e]
        decide
    · decide
  · rw [ht, if_neg (by decide), if_pos (by decide), if_pos hlong]
    decide

/-- The call has the files of the first `i` variables. -/
structure Listed (p : Plan) (f : FileId) (n d : ℕ) (a : Kind → ℕ) (i : ℕ) (k : Driver) : Prop where
  looping : Looping f n a i k
  dirP : ∀ kind, k.dirP kind = some kind
  drawn : k.link.drawn = d + 1 + i
  records : ∀ j < i, ∀ kind, k.records (a kind) j = ⟨Int32.ofNat j, kind.access⟩
  debugfs : k.debugfs = made (fun j => fileName (p.sent d j)) a i
  err : 0 < i → ∃ file, k.files f = some file ∧ (k.transOf file).err = replyErr (p.sent d (i - 1))

lemma listed_round {d : ℕ} (hp : Faultless p) (ha : Answers p n)
    (h : Listed p f n d a i k) (hi : i < n) :
    ∃ k', Listed p f n d a (i + 1) k' ∧ ∀ k'', Returns kstrtol p f k' k'' → Returns kstrtol p f k k'' := by
  obtain ⟨k₁, hrun₁, hq, hcase⟩ := query_move kstrtol h.looping hi
  have hw := (hcase.resolve_left fun hs => hs.1 (hp.sendName i)).2
  have hacc₁ : ∀ kind, k₁.accessArray kind = some (a kind) := hq.accessArray ▸ h.looping.access
  have hphase : InPhase f (.name i n) k₁ := by
    obtain ⟨hc, file, hf, hn, -⟩ := hw
    exact ⟨hc, file, hf, hn⟩
  obtain ⟨k₂, hrun₂, hl, hcr⟩ :=
    name_move kstrtol hw hacc₁ h.looping.injective (hp.intrName i)
  -- the number of the request is the one that the reply carries
  have hseq : ({ p.reply i with seq := lastSeq k₁ } : CfgMsg) = p.sent d i := by
    unfold lastSeq Plan.sent
    rw [hq.drawn, h.drawn]
    rfl
  rw [hseq] at hcr
  obtain ⟨h0, h1⟩ := ha.type d hi
  have hdir₁ : ∀ kind, k₁.dirP kind = some kind := hq.dirP ▸ h.dirP
  refine ⟨k₂, ⟨hl, hcr.dirP ▸ hdir₁, ?_, ?_, ?_, fun _ => hcr.err h0 h1⟩, fun k'' hr =>
    returns_move h.looping.phase nofun hrun₁ (returns_move hphase nofun hrun₂ hr)⟩
  · rw [hcr.drawn, hq.drawn, h.drawn]
    rfl
  · intro j hj kind
    rw [hcr.records]
    rcases Nat.lt_succ_iff_lt_or_eq.1 hj with hlt | rfl
    · rw [hq.records _ j hlt.ne]
      exact h.records j hlt kind
    · exact hq.record kind
  · obtain ⟨name, l, hname, hfold⟩ := hcr.files
    obtain rfl := hname h0 h1
    have hmade := foldlM_createFile_made (fun j => fileName (p.sent d j))
      (k := { k₁ with link := l }) (hp.fileMem i) hacc₁ hdir₁ (hq.debugfs.trans h.debugfs)
    have e := Option.some.inj (hfold.symm.trans hmade)
    exact congrArg Driver.debugfs e

/-- The call has ended its loop. -/
structure Loaded (p : Plan) (f : FileId) (n d : ℕ) (a : Kind → ℕ) (k : Driver) : Prop where
  records : ∀ j < n, ∀ kind, k.records (a kind) j = ⟨Int32.ofNat j, kind.access⟩
  debugfs : k.debugfs = made (fun j => fileName (p.sent d j)) a n
  reports : Reports f (ascii "ok\n") k ↔ replyErr (p.sent d (n - 1)) = 0

lemma listed_returns {d : ℕ} (hp : Faultless p) (ha : Answers p n) (hn : n ≠ 0)
    (h : Listed p f n d a i k) (hi : i ≤ n) : ∃ k', Returns kstrtol p f k k' ∧ Loaded p f n d a k' := by
  obtain ⟨m, hm⟩ := Nat.exists_eq_add_of_le hi
  induction m generalizing i k with
  | zero =>
    obtain rfl : n = i := hm
    obtain ⟨k₁, file, hf, rfl, hrun, hready⟩ := last_move kstrtol h.looping.phase
    obtain ⟨file', hf', herr⟩ := h.err (Nat.pos_of_ne_zero hn)
    obtain rfl := Option.some.inj (hf.symm.trans hf')
    refine ⟨_, returns_move h.looping.phase nofun hrun (returns_of_inPhase hready), h.records, h.debugfs,
      fun hr => herr.symm.trans ?_, fun he => reports_openedWith (by decide) (herr.trans he)⟩
    exact err_of_reports hr
  | succ m ih =>
    have hlt : i < n := by omega
    obtain ⟨k₁, hl, hback⟩ := listed_round kstrtol hp ha h hlt
    obtain ⟨k', hr, hloaded⟩ := ih hl hlt (by omega)
    exact ⟨k', hback k' hr, hloaded⟩

/-- **A call in which nothing fails** creates the files of all names that are new. -/
theorem loads_of_faultless (hk : Fresh k) (hf : k.files f = none) (hp : Faultless p) (hn : p.number k ≠ 0)
    (ha : Answers p (p.number k)) :
    ∃ k' a, Loads kstrtol p f k k' ∧ Loaded p f (p.number k) k.link.drawn a k' := by
  obtain ⟨k₀, hopen, hload, hl₀, hd₀, hnv₀⟩ := open_fresh kstrtol hk.chnl hf hk.access
  obtain ⟨k₁, hrun₁, hl₁, hnv₁, hcase₁⟩ := load_move (p := p) kstrtol hload
  obtain ⟨-, hcount, ⟨t, ht⟩, hd₁⟩ := hcase₁.resolve_left fun h => h.1 hp.send
  have hdirs : k₁.dirs = [] := by
    rw [hl₁.dirs, hl₀.dirs]
    exact hk.dirs
  have hintr : ¬ (p.intrCount = true ∧ k₁.link.nVars < 0) := by
    rw [hp.intrCount]
    exact fun h => nomatch h.1
  obtain ⟨k₂, hrun₂, hgoes, -⟩ := count_move kstrtol hcount ht hintr hdirs
  rw [Plan.number_congr (hnv₁.trans hnv₀)] at hgoes
  cases hgoes with
  | empty h0 => exact absurd h0 hn
  | early hm =>
    rw [hp.mem] at hm
    cases hm
  | late _ _ _ _ hfail => exact absurd ⟨hp.mem, hp.dirMem⟩ hfail
  | loop _ _ hquery hb =>
    have hlisted : Listed p f (p.number k) k.link.drawn (fun kind => k₁.arrays + pos kind) 0 k₂ := by
      refine ⟨⟨hquery, hb.access, begun_injective k₁⟩, hb.dirP, ?_, nofun, ?_, nofun⟩
      · rw [hb.drawn, hd₁, hd₀]
      · rw [hb.debugfs, hl₁.debugfs, hl₀.debugfs]
        exact hk.debugfs
    obtain ⟨k', hr, hloaded⟩ := listed_returns kstrtol hp ha hn hlisted (Nat.zero_le _)
    exact ⟨k', _, ⟨k₀, hopen, returns_move hload nofun hrun₁ (returns_move hcount nofun hrun₂ hr)⟩, hloaded⟩

/-! ### The right files -/

/-- The files in the directory of a kind, the first one first, each with its record. -/
def filesOf (k : Driver) (kind : Kind) : List (List UInt8 × VarAccessInfo) :=
  (k.debugfs.filter fun x => x.parent = some kind).reverse.map fun x =>
    (x.name, k.records x.data.1 x.data.2)

/-- **The right files** for `n` variables: in the directory of every kind one for each variable whose query
succeeded, with its name and its record, and no others. -/
structure Right (p : Plan) (n : ℕ) (k : Driver) : Prop where
  files : ∀ kind, filesOf k kind =
    ((List.range n).filter fun i => Named (p.reply i)).map fun i =>
      (nameOf (p.reply i), ⟨Int32.ofNat i, kind.access⟩)
  inside : ∀ x ∈ k.debugfs, x.parent ≠ none

section Right

variable {d : ℕ}

lemma Loaded.filesOf (h : Loaded p f n d a k) (kind : Kind) : filesOf k kind =
    ((List.range n).filter fun i => ¬ Used (fun j => fileName (p.sent d j)) i).map fun i =>
      (fileName (p.sent d i), ⟨Int32.ofNat i, kind.access⟩) := by
  unfold Loading.filesOf
  rw [h.debugfs, filter_made, List.map_map]
  refine List.map_congr_left fun i hi => ?_
  have hlt : i < n := List.mem_range.1 (List.mem_filter.1 hi).1
  exact congrArg (Prod.mk _) (h.records i hlt kind)

/-- The first variable with the name of the variable `i` has got the file. -/
lemma not_used_of_named (ha : Answers p n) (hi : i < n) (hn : Named (p.reply i))
    (hused : ∀ j < n, ¬ Named (p.reply j) → Used (fun j => fileName (p.sent d j)) j) :
    ¬ Used (fun j => fileName (p.sent d j)) i := by
  intro hu
  have hex : ∃ j, j < i ∧ fileName (p.sent d j) = fileName (p.sent d i) := hu
  obtain ⟨hlt, hname⟩ := Nat.find_spec hex
  have hfirst : ¬ Used (fun j => fileName (p.sent d j)) (Nat.find hex) := by
    rintro ⟨j, hj, e⟩
    exact Nat.find_min hex hj ⟨hj.trans hlt, e.trans hname⟩
  have hn' : Named (p.sent d (Nat.find hex)) := by
    by_contra hnot
    exact hfirst (hused _ (hlt.trans hi) hnot)
  have hn₀ : Named (p.sent d i) := hn
  have e : nameOf (p.sent d (Nat.find hex)) = nameOf (p.sent d i) := by
    rw [← fileName_of_named hn', ← fileName_of_named hn₀]
    exact hname
  exact ha.distinct i hi _ hlt hn hn' e

lemma ofNat_inj {i j : ℕ} (hi : i < 2 ^ 31) (hj : j < 2 ^ 31) (h : Int32.ofNat i = Int32.ofNat j) : i = j := by
  have e := congrArg Int32.toInt h
  rw [Int32.toInt_ofNat_of_lt hi, Int32.toInt_ofNat_of_lt hj] at e
  exact Int.ofNat_inj.1 e

lemma Loaded.right_iff_used (h : Loaded p f n d a k) (hn : n < 2 ^ 31)
    (ha : Answers p n) : Right p n k ↔
      ∀ i < n, ¬ Named (p.reply i) → Used (fun j => fileName (p.sent d j)) i := by
  constructor
  · intro hr i hi hnot
    by_contra hu
    -- the text of the error has become the name of a file
    have hmem : (fileName (p.sent d i), (⟨Int32.ofNat i, Kind.val.access⟩ : VarAccessInfo)) ∈
        Loading.filesOf k .val := by
      rw [h.filesOf]
      exact List.mem_map.2 ⟨i, List.mem_filter.2 ⟨List.mem_range.2 hi, by simpa using hu⟩, rfl⟩
    rw [hr.files] at hmem
    obtain ⟨j, hj, e⟩ := List.mem_map.1 hmem
    obtain ⟨hjlt, hjn⟩ := List.mem_filter.1 hj
    have hjlt := List.mem_range.1 hjlt
    have hind := congrArg VarAccessInfo.index (Prod.mk.inj e).2
    obtain rfl : j = i := ofNat_inj (hjlt.trans hn) (hi.trans hn) hind
    exact hnot (of_decide_eq_true hjn)
  · intro hused
    refine ⟨fun kind => ?_, fun x hx => ?_⟩
    · rw [h.filesOf]
      have hfilter : ((List.range n).filter fun i => ¬ Used (fun j => fileName (p.sent d j)) i) =
          (List.range n).filter fun i => Named (p.reply i) := by
        refine List.filter_congr fun i hi => decide_eq_decide.2 ?_
        have hlt := List.mem_range.1 hi
        exact ⟨fun hu => not_not.1 fun hn => hu (hused i hlt hn), fun hn => not_used_of_named ha hlt hn hused⟩
      rw [hfilter]
      refine List.map_congr_left fun i hi => ?_
      have hn : Named (p.sent d i) := of_decide_eq_true (List.mem_filter.1 hi).2
      rw [fileName_of_named hn]
      rfl
    · rw [h.debugfs] at hx
      obtain ⟨j, -, -, kind, rfl⟩ := mem_made.1 hx
      exact nofun

end Right

/-- **The call creates the right files exactly when no query fails**, up to one whose text is the name of
an earlier variable already. -/
theorem right_iff (hk : Fresh k) (hf : k.files f = none) (hp : Faultless p) (hn : p.number k ≠ 0)
    (ha : Answers p (p.number k)) :
    ∃ k', Loads kstrtol p f k k' ∧ (Right p (p.number k) k' ↔ ∀ i < p.number k, ¬ Named (p.reply i) →
      ∃ j < i, fileName (p.sent k.link.drawn j) = fileName (p.sent k.link.drawn i)) := by
  obtain ⟨k', a, hl, h⟩ := loads_of_faultless kstrtol hk hf hp hn ha
  exact ⟨k', hl, h.right_iff_used (p.number_lt k) ha⟩

/-! ### Calls in which nothing fails -/

lemma zero_send : (0 : Int32) ≤ 0 ∧ ∀ _ : ℕ, (0 : Int32) ≤ 0 :=
  ⟨Int32.le_refl 0, fun _ => Int32.le_refl 0⟩

def calm (count : ℕ) (count_lt : count < 2 ^ 31) (arrival : Arrival) (reply : ℕ → CfgMsg) : Plan where
  send := 0
  sendName _ := 0
  intrCount := false
  intrName _ := false
  mem _ := true
  dirMem _ := true
  fileMem _ _ := true
  count := count
  arrival := arrival
  reply := reply
  count_lt := count_lt
  send_le := zero_send

lemma faultless_calm {count : ℕ} {count_lt : count < 2 ^ 31} {arrival : Arrival} {reply : ℕ → CfgMsg} :
    Faultless (calm count count_lt arrival reply) :=
  ⟨rfl, fun _ => rfl, rfl, fun _ => rfl, fun _ => rfl, fun _ => rfl, fun _ _ => rfl⟩

/-- A call for one variable, in which nothing fails. -/
def calmOne (response : CfgMsg) : Plan := calm 1 one_lt_limit .before fun _ => response

lemma answers_calmOne {response : CfgMsg} (h : Named response ∨ Failed response) :
    Answers (calmOne response) 1 := by
  refine ⟨fun _ _ => h, fun i hi j hj => ?_⟩
  have hi1 : i < 1 := hi
  omega

/-- The reply to a query of a variable that does not exist. -/
def noSuchId : CfgMsg := { CfgMsg.zero with type := resIdErr }

lemma fresh_probed : Fresh .probed := ⟨rfl, rfl, rfl, rfl⟩

lemma named_nameA : Named Leaks.nameA := by decide

/-- The variable `A` has its files. -/
theorem nameA_right : ∃ k', Loads Kstrtol.kstrtol (calmOne Leaks.nameA) 0 .probed k' ∧
    Right (calmOne Leaks.nameA) 1 k' := by
  obtain ⟨k', hl, h⟩ := right_iff (p := calmOne Leaks.nameA) (f := 0) Kstrtol.kstrtol fresh_probed rfl
    faultless_calm Nat.one_ne_zero (answers_calmOne (.inl named_nameA))
  exact ⟨k', hl, h.2 fun _ _ hn => absurd named_nameA hn⟩

/-- **The text of an error becomes the name of four files.** -/
theorem noSuchId_files : ∃ k', Loads Kstrtol.kstrtol (calmOne noSuchId) 0 .probed k' ∧
    ¬ Right (calmOne noSuchId) 1 k' := by
  have ha : Answers (calmOne noSuchId) 1 := answers_calmOne (.inr (.inl (by decide)))
  obtain ⟨k', a, hl, h⟩ := loads_of_faultless (p := calmOne noSuchId) (f := 0) Kstrtol.kstrtol fresh_probed
    rfl faultless_calm Nat.one_ne_zero ha
  refine ⟨k', hl, fun hr => ?_⟩
  obtain ⟨j, hj, -⟩ := (h.right_iff_used one_lt_limit ha).1 hr 0 Nat.one_pos (by decide)
  exact absurd hj (Nat.not_lt_zero j)

/-! ### A firmware with names for its variables -/

/-- The firmware has `n` variables: it answers the query of each with its name, no two the same, and every
other one with an error. -/
structure Serves (q : Plan) (n : ℕ) : Prop where
  count : q.count = n
  named : ∀ i < n, Named (q.reply i)
  distinct : ∀ i < n, ∀ j < i, nameOf (q.reply j) ≠ nameOf (q.reply i)
  failed : ∀ i, n ≤ i → Failed (q.reply i)

lemma Serves.answers {q : Plan} (h : Serves q n) (m : ℕ) : Answers q m := by
  refine ⟨fun i _ => ?_, fun i _ j hj hi _ => ?_⟩
  · rcases Nat.lt_or_ge i n with hi | hi
    · exact .inl (h.named i hi)
    · exact .inr (h.failed i hi)
  · refine h.distinct i (Nat.lt_of_not_le fun hle => ?_) j hj
    exact not_named_of_failed (h.failed i hle) hi

/-- The name `v` with the number of the variable. -/
def numbered (i : ℕ) : List UInt8 := 118 :: decimal (Int32.ofNat i).toInt

lemma length_numbered (i : ℕ) : (numbered i).length ≤ 12 :=
  Nat.succ_le_succ (Kstrtol.length_decimal _)

lemma zero_notMem_numbered (i : ℕ) : 0 ∉ numbered i :=
  List.not_mem_cons_of_ne_of_not_mem (by decide) (Kstrtol.zero_notMem_decimal _)

lemma numbered_fits (i : ℕ) : 0 + (numbered i).length ≤ msgDataSize := by
  have h := length_numbered i
  show 0 + (numbered i).length ≤ 400
  omega

/-- The reply with the name of the variable. -/
def numberedReply (i : ℕ) : CfgMsg :=
  { CfgMsg.zero with
    type := resName
    len := UInt32.ofNat (numbered i).length
    data := CfgMsg.zero.data.write 0 (numbered i) (numbered_fits i) }

lemma numberedReply_len (i : ℕ) : (numberedReply i).len.toNat = (numbered i).length :=
  UInt32.toNat_ofNat_of_lt' ((length_numbered i).trans_lt (by decide))

lemma nameOf_numberedReply (i : ℕ) : nameOf (numberedReply i) = numbered i := by
  unfold nameOf
  rw [numberedReply_len]
  show cstr ((CfgMsg.zero.data.write 0 (numbered i) (numbered_fits i)).read (numbered i).length) = _
  rw [Buf.read_write_zero _ _ _ rfl]
  exact List.takeWhile_eq_self_iff.2 fun b hb => by
    simpa using fun h0 : b = 0 => zero_notMem_numbered i (h0 ▸ hb)

lemma named_numberedReply (i : ℕ) : Named (numberedReply i) := by
  refine ⟨rfl, ?_, ?_⟩
  · rw [numberedReply_len]
    exact Nat.not_lt.2 ((length_numbered i).trans (by decide))
  · rw [nameOf_numberedReply]
    exact List.cons_ne_nil _ _

lemma numbered_injective {i j : ℕ} (hi : i < 2 ^ 31) (hj : j < 2 ^ 31) (h : numbered i = numbered j) : i = j :=
  ofNat_inj hi hj (Kstrtol.decimal_injective (List.cons.inj h).2)

/-- A call in which nothing fails, for `n` variables whose names are their numbers. -/
def calmFor (n : ℕ) (hn : n < 2 ^ 31) (arrival : Arrival) : Plan :=
  calm n hn arrival fun i => if i < n then numberedReply i else noSuchId

lemma serves_calmFor (hn : n < 2 ^ 31) (arrival : Arrival) : Serves (calmFor n hn arrival) n := by
  have hreply : ∀ i < n, (calmFor n hn arrival).reply i = numberedReply i := fun i hi => if_pos hi
  refine ⟨rfl, fun i hi => ?_, fun i hi j hj => ?_, fun i hi => ?_⟩
  · rw [hreply i hi]
    exact named_numberedReply i
  · rw [hreply i hi, hreply j (hj.trans hi), nameOf_numberedReply, nameOf_numberedReply]
    exact fun e => hj.ne (numbered_injective (hj.trans (hi.trans hn)) (hi.trans hn) e)
  · have herr : (calmFor n hn arrival).reply i = noSuchId := if_neg (Nat.not_lt.2 hi)
    rw [herr]
    exact .inl (by decide)

/-! ### A call after one that has stopped -/

section Retry

variable {q : Plan} {g : FileId} {k₂ : Driver}

/-- **After the call that has left `k` the list of `n` variables can still be loaded**: however long it
takes until the next call, and whether the reply to an older request has changed `n_vars` by then or not, if
nothing fails in the call then it reports success, and creates the right files. -/
def Retryable (kstrtol : List UInt8 → Int32 × Int32) (n : ℕ) (k : Driver) : Prop :=
  ∀ g k₂ q, SameList k k₂ → k₂.link.chnl = true →
    k₂.link.nVars = k.link.nVars ∨ k₂.link.nVars = Int32.ofNat n → k₂.files g = none →
    Faultless q → Serves q n →
    ∃ k', Loads kstrtol q g k₂ k' ∧ Reports g (ascii "ok\n") k' ∧ Right q n k'

/-- The call stops before it has set `val_access`, and leaves no wrong number of variables behind. -/
def Early (p : Plan) (k : Driver) : Prop :=
  p.count ≠ 0 ∧
  (p.send ≠ 0 ∨ p.intrCount = true ∧ k.link.nVars < 0 ∨ p.Hurries k ∧ k.link.nVars = 0 ∨
    p.mem .val = false) ∧
  (k.link.nVars < 0 ∨ k.link.nVars = Int32.ofNat p.count ∨ p.send = 0 ∧ p.arrival ≠ .after)

/-- The number that the call works with is that of the firmware. -/
lemma number_eq (h : k.link.nVars < 0 ∨ k.link.nVars = Int32.ofNat p.count) : p.number k = p.count := by
  have htold : p.told k = Int32.ofNat p.count := by
    unfold Plan.told
    split
    · rename_i hh
      exact h.resolve_left hh.2
    · rfl
  have hint : (p.number k : ℤ) = p.count := by
    rw [p.number_toInt, htold]
    exact Int32.toInt_ofNat_of_lt p.count_lt
  exact_mod_cast hint

/-- A call that has not set `val_access` can be repeated, if it has left no wrong number behind. -/
lemma retryable_of_early (hacc : k.accessArray .val = none) (hdirs : k.dirs = []) (hfiles : k.debugfs = [])
    (h0 : n ≠ 0) (hn : k.link.nVars < 0 ∨ k.link.nVars = Int32.ofNat n) : Retryable kstrtol n k := by
  intro g k₂ q hsame hc hnv hg hq hserves
  have hfresh : Fresh k₂ := by
    refine ⟨hc, ?_, hsame.dirs.trans hdirs, hsame.debugfs.trans hfiles⟩
    rw [hsame.accessArray]
    exact hacc
  have hnumber : q.number k₂ = n := by
    rw [number_eq, hserves.count]
    rw [hserves.count]
    rcases hnv with e | e
    · rw [e]
      exact hn
    · exact .inr e
  obtain ⟨k', a, hl, h⟩ := loads_of_faultless kstrtol hfresh hg hq (hnumber ▸ h0) (hserves.answers _)
  rw [hnumber] at h
  have hlast : Named (q.sent k₂.link.drawn (n - 1)) := hserves.named _ (Nat.sub_one_lt h0)
  refine ⟨k', hl, h.reports.2 (replyErr_of_named hlast), ?_⟩
  refine (h.right_iff_used ?_ (hserves.answers n)).2 fun i hi hnot => absurd (hserves.named i hi) hnot
  exact hserves.count ▸ q.count_lt

variable {kstrtol} in
lemma Returns.unique (h : Returns kstrtol q g k k₁) (h' : Returns kstrtol q g k k₂) : k₁ = k₂ := by
  induction h with
  | ready hf hp =>
    cases h' with
    | ready => rfl
    | move hf' hp' =>
      obtain rfl := Option.some.inj (hf.symm.trans hf')
      exact absurd hp hp'
  | move hf hp hm _ ih =>
    cases h' with
    | ready hf' hp' =>
      obtain rfl := Option.some.inj (hf.symm.trans hf')
      exact absurd hp' hp
    | move hf' _ hm' hr' =>
      obtain rfl := Option.some.inj (hf.symm.trans hf')
      obtain rfl := Option.some.inj (hm.symm.trans hm')
      exact ih hr'

variable {kstrtol} in
lemma Loads.unique (h : Loads kstrtol q g k k₁) (h' : Loads kstrtol q g k k₂) : k₁ = k₂ := by
  obtain ⟨k₀, hopen, hr⟩ := h
  obtain ⟨k₀', hopen', hr'⟩ := h'
  obtain rfl := Option.some.inj (hopen.symm.trans hopen')
  exact hr.unique hr'

lemma Reports.unique {s s' : List UInt8} (h : Reports f s k) (h' : Reports f s' k) : s = s' := by
  obtain ⟨file, hf, -, -, -, hs⟩ := h
  obtain ⟨file', hf', -, -, -, hs'⟩ := h'
  obtain rfl := Option.some.inj (hf.symm.trans hf')
  exact hs.symm.trans hs'

/-- The state in which a client calls again, with `n_vars` set by a reply that was late or not. -/
def later (k : Driver) (nVars : Int32) : Driver :=
  { k with link := { Link.rpmsgLinkInit with nVars }, files := fun _ => none }

/-- A call that can be repeated can be so before the reply to its request. -/
lemma Retryable.calls (h : Retryable kstrtol n k) (hn : n < 2 ^ 31) (arrival : Arrival) {nVars : Int32}
    (hnv : nVars = k.link.nVars ∨ nVars = Int32.ofNat n) :
    ∃ k', Loads kstrtol (calmFor n hn arrival) 0 (later k nVars) k' ∧
      Reports 0 (ascii "ok\n") k' ∧ Right (calmFor n hn arrival) n k' :=
  h 0 (later k nVars) (calmFor n hn arrival) ⟨rfl, rfl, rfl, rfl, rfl, rfl⟩ rfl hnv rfl faultless_calm
    (serves_calmFor hn arrival)

/-- **Once `val_access` is set the list is never loaded.** -/
lemma not_retryable (hacc : (k.accessArray .val).isSome = true) (hn : n < 2 ^ 31) :
    ¬ Retryable kstrtol n k := by
  intro h
  obtain ⟨k', hl, hok, -⟩ := h.calls kstrtol hn .before (.inr rfl)
  obtain ⟨k₀, hopen, hrep⟩ := open_loaded kstrtol (k := later k (Int32.ofNat n)) (f := 0) rfl hacc
  have hready : Returns kstrtol (calmFor n hn .before) 0 k₀ k₀ := by
    obtain ⟨file, hf, hp, -⟩ := hrep
    exact .ready hf hp
  obtain rfl := hl.unique ⟨k₀, hopen, hready⟩
  exact absurd (hok.unique hrep) (by decide)

/-- Without a variable the call reports that it cannot query their number. -/
lemma not_retryable_zero (hacc : k.accessArray .val = none) : ¬ Retryable kstrtol 0 k := by
  intro h
  obtain ⟨k', hl, hok, -⟩ := h.calls kstrtol zero_lt_limit .after (.inr rfl)
  obtain ⟨k₀, hopen, hload, -, -, hnv₀⟩ := open_fresh kstrtol (k := later k 0) (f := 0) rfl rfl hacc
  obtain ⟨k₁, hrun₁, -, hnv₁, hcase⟩ := load_move (p := calmFor 0 zero_lt_limit .after) kstrtol hload
  obtain ⟨-, hcount, -⟩ := hcase.resolve_left fun h => h.1 rfl
  have hzero : k₁.link.nVars = 0 := hnv₁.trans hnv₀
  obtain ⟨k₂, hrun₂, hready, hnot⟩ := count_zero (p := calmFor 0 zero_lt_limit .after) kstrtol hcount hzero rfl
  obtain rfl := hl.unique ⟨k₀, hopen, returns_move hload nofun hrun₁
    (returns_move hcount nofun hrun₂ (returns_of_inPhase hready))⟩
  exact hnot hok

lemma Right.last (h : Right q n k) (hn : n ≠ 0) (hserves : Serves q n) :
    ∃ name, (name, (⟨Int32.ofNat (n - 1), Kind.val.access⟩ : VarAccessInfo)) ∈ filesOf k .val := by
  have hlt : n - 1 < n := Nat.sub_one_lt hn
  refine ⟨nameOf (q.reply (n - 1)), ?_⟩
  rw [h.files]
  exact List.mem_map.2 ⟨n - 1, List.mem_filter.2 ⟨List.mem_range.2 hlt,
    decide_eq_true (hserves.named _ hlt)⟩, rfl⟩

/-- A call that works with too small a number leaves out the last variable. -/
lemma Loaded.not_right {m d : ℕ} (h : Loaded q g m d a k) (hserves : Serves q n) (hless : m < n) :
    ¬ Right q n k := by
  intro hr
  have hn : n < 2 ^ 31 := hserves.count ▸ q.count_lt
  obtain ⟨name, hlast⟩ := hr.last (Nat.ne_zero_of_lt hless) hserves
  rw [h.filesOf] at hlast
  obtain ⟨j, hj, e⟩ := List.mem_map.1 hlast
  have hjm : j < m := List.mem_range.1 (List.mem_filter.1 hj).1
  have hj1 : j = n - 1 := ofNat_inj (hjm.trans (hless.trans hn)) ((Nat.sub_le _ _).trans_lt hn)
    (congrArg VarAccessInfo.index (Prod.mk.inj e).2)
  omega

/-- In a call that works with too large a number the last query fails. -/
lemma Loaded.not_ok {m d : ℕ} (h : Loaded q g m d a k) (hserves : Serves q n) (hmore : n < m) :
    ¬ Reports g (ascii "ok\n") k := by
  intro hok
  have hlast : Failed (q.sent d (m - 1)) := hserves.failed _ (Nat.le_sub_one_of_lt hmore)
  exact replyErr_of_failed hlast (h.reports.1 hok)

/-- A wrong number is used before it is corrected. -/
lemma not_retryable_of_stale (hacc : k.accessArray .val = none) (hdirs : k.dirs = [])
    (hfiles : k.debugfs = []) (hn : n < 2 ^ 31) (h0 : n ≠ 0) (hneg : ¬ k.link.nVars < 0)
    (hne : k.link.nVars ≠ Int32.ofNat n) : ¬ Retryable kstrtol n k := by
  intro h
  obtain ⟨k', hl, hok, hright⟩ := h.calls kstrtol hn .after (.inl rfl)
  have hfresh : Fresh (later k k.link.nVars) := ⟨rfl, hacc, hdirs, hfiles⟩
  have hserves : Serves (calmFor n hn .after) n := serves_calmFor hn .after
  have htold : (calmFor n hn .after).told (later k k.link.nVars) = k.link.nVars := if_pos ⟨nofun, hneg⟩
  have hint := (calmFor n hn .after).number_toInt (later k k.link.nVars)
  rw [htold] at hint
  by_cases hm : (calmFor n hn .after).number (later k k.link.nVars) = 0
  · -- nothing is created
    obtain ⟨k₁, hl₁, hcase⟩ := loads_of_fresh kstrtol (calmFor n hn .after) hfresh (f := 0) rfl
    obtain rfl := hl.unique hl₁
    obtain ⟨-, ⟨-, -, hnone⟩, -⟩ := hcase.resolve_right fun hs => hs.1 (.inr (.inr (.inl hm)))
    obtain ⟨name, hlast⟩ := hright.last h0 hserves
    unfold filesOf at hlast
    rw [hnone] at hlast
    cases hlast
  · obtain ⟨k₁, a, hl₁, hloaded⟩ :=
      loads_of_faultless kstrtol hfresh (f := 0) rfl faultless_calm hm (hserves.answers _)
    obtain rfl := hl.unique hl₁
    have hmn : (calmFor n hn .after).number (later k k.link.nVars) ≠ n := by
      intro e
      refine hne (Int32.toInt.inj ?_)
      rw [← hint, e, Int32.toInt_ofNat_of_lt hn]
    rcases Nat.lt_or_gt_of_ne hmn with hless | hmore
    · exact hloaded.not_right hserves hless hright
    · exact hloaded.not_ok hserves hmore hok

lemma number_eq_zero (h0 : p.count ≠ 0) : p.number k = 0 ↔ p.Hurries k ∧ k.link.nVars = 0 := by
  have hint := p.number_toInt k
  constructor
  · intro hn
    have hzero : p.told k = 0 := by
      apply Int32.toInt.inj
      rw [← hint, hn]
      rfl
    unfold Plan.told at hzero
    split at hzero
    · rename_i hh
      exact ⟨hh, hzero⟩
    · exact absurd (ofNat_inj p.count_lt zero_lt_limit hzero) h0
  · rintro ⟨hh, hzero⟩
    have htold : p.told k = 0 := (if_pos hh).trans hzero
    rw [htold] at hint
    exact Int.ofNat_eq_zero.1 hint

/-- The number that is known after the call is wrong when it was wrong before, and no reply has come. -/
lemma known_iff (h : p.send = 0) (hi : ¬ (p.intrCount = true ∧ k.link.nVars < 0)) :
    (p.known k < 0 ∨ p.known k = Int32.ofNat p.count) ↔
      k.link.nVars < 0 ∨ k.link.nVars = Int32.ofNat p.count ∨ p.send = 0 ∧ p.arrival ≠ .after := by
  have hknown : p.known k = p.left k := if_neg fun hor => hor.elim (fun hs => hs h) hi
  rw [hknown]
  unfold Plan.left
  by_cases ha : p.arrival = .after
  · rw [if_pos ha]
    unfold Plan.told
    by_cases hneg : k.link.nVars < 0
    · rw [if_neg fun hh : p.Hurries k => hh.2 hneg]
      exact iff_of_true (.inr rfl) (.inl hneg)
    · rw [if_pos (show p.Hurries k from ⟨by rw [ha]; exact nofun, hneg⟩)]
      exact or_congr_right ⟨.inl, fun hor => hor.resolve_right fun hs => hs.2 ha⟩
  · rw [if_neg ha]
    exact iff_of_true (.inr rfl) (.inr (.inr ⟨h, ha⟩))

lemma early_iff : Early p k ↔
    p.count ≠ 0 ∧ Stops p k ∧ (p.known k < 0 ∨ p.known k = Int32.ofNat p.count) := by
  refine and_congr_right fun h0 => ?_
  unfold Stops
  rw [number_eq_zero h0]
  refine and_congr_right fun _ => ?_
  by_cases h : p.send ≠ 0 ∨ p.intrCount = true ∧ k.link.nVars < 0
  · have hknown : p.known k = k.link.nVars := if_pos h
    rw [hknown]
    refine or_congr_right' fun hneg => ⟨fun hor => hor.resolve_right fun hs => ?_, .inl⟩
    exact h.elim (fun hsend => hsend hs.1) fun hi => hneg hi.2
  · obtain ⟨hsend, hi⟩ := not_or.1 h
    exact (known_iff (not_not.1 hsend) hi).symm

/-- **The list can be loaded after a call that has stopped exactly when the call has stopped before it set
`val_access`, and has left no wrong number of variables.** -/
theorem retry_iff (hk : Fresh k) (hf : k.files f = none) :
    ∃ k', Loads kstrtol p f k k' ∧ (Retryable kstrtol p.count k' ↔ Early p k) := by
  obtain ⟨k', hl, h⟩ := loads_of_fresh kstrtol p hk hf
  refine ⟨k', hl, ?_⟩
  rw [early_iff]
  rcases h with ⟨hstops, ⟨hacc, hdirs, hfiles⟩, hknown⟩ | ⟨hgoes, hacc⟩
  · rw [← hknown]
    constructor
    · intro hr
      have h0 : p.count ≠ 0 := fun h0 => not_retryable_zero kstrtol hacc (h0 ▸ hr)
      refine ⟨h0, hstops, ?_⟩
      by_contra hstale
      obtain ⟨hneg, hne⟩ := not_or.1 hstale
      exact not_retryable_of_stale kstrtol hacc hdirs hfiles p.count_lt h0 hneg hne hr
    · rintro ⟨h0, -, hn⟩
      exact retryable_of_early kstrtol hacc hdirs hfiles h0 hn
  · exact iff_of_false (not_retryable kstrtol hacc p.count_lt) fun h => hgoes h.2.1

/-- There is no memory for `val_access`: the call can be repeated. -/
theorem noMemory_retryable : ∃ k',
    Loads Kstrtol.kstrtol { calmOne Leaks.nameA with mem := fun _ => false } 0 .probed k' ∧
      Retryable Kstrtol.kstrtol 1 k' := by
  obtain ⟨k', hl, h⟩ := retry_iff (p := { calmOne Leaks.nameA with mem := fun _ => false }) (f := 0)
    Kstrtol.kstrtol fresh_probed rfl
  exact ⟨k', hl, h.2 ⟨Nat.one_ne_zero, .inr (.inr (.inr rfl)), .inl (by decide)⟩⟩

/-- **The directory `min` cannot be created**: the list is never loaded. -/
theorem noMinDir_stuck : ∃ k',
    Loads Kstrtol.kstrtol { calmOne Leaks.nameA with dirMem := fun kind => decide (kind ≠ .min) } 0
        .probed k' ∧
      ¬ Retryable Kstrtol.kstrtol 1 k' := by
  obtain ⟨k', hl, h⟩ := loads_of_fresh (f := 0) Kstrtol.kstrtol
    { calmOne Leaks.nameA with dirMem := fun kind => decide (kind ≠ .min) } fresh_probed rfl
  refine ⟨k', hl, not_retryable _ (h.resolve_left ?_).2 one_lt_limit⟩
  rintro ⟨hstops, -⟩
  rcases hstops with h | h | h | h
  · exact h rfl
  · exact nomatch h.1
  · exact nomatch h
  · exact nomatch h

end Retry

end CfgMgmt.Kernel.Loading
