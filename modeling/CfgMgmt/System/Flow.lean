import CfgMgmt.Firmware.ConfigRefinement
import CfgMgmt.System.Machine

/-!
# The flow of requests and replies

The requests that are on their way, in either direction, are those of the pending structs, and the
reply that reaches the kernel module next is the one to the oldest of them.  `Flow` says this for every
state of a run of polite clients, whatever the callbacks of the firmware do.
-/

namespace CfgMgmt.System

open CfgMgmt.Lib CfgMgmt.Lib.Bytes CfgMgmt.Lib.Machine CfgMgmt.Msg CfgMgmt.Firmware.Config
open CfgMgmt.Firmware.RegisterMap CfgMgmt.Firmware.ConfigRefinement
open CfgMgmt.Kernel.Linux CfgMgmt.Kernel.RpmsgLink CfgMgmt.Kernel.Files CfgMgmt.Kernel.Structs
open CfgMgmt.Kernel.Calls CfgMgmt.Kernel.Sessions
open CfgMgmt.Kernel.Matching (Young distinct_of_numbered rpmsgCb_of_received)

/-! ### Requests and their replies -/

/-- The query that reads what a file shows. -/
def readQuery {n : VarCount} (k : Fin n.1) : Access → Query (Fin n.1) ℤ
  | .name => .name k
  | .val => .read k
  | .min => .min k
  | .max => .max k
  | .desc => .desc k
  | .unknown => .nop

/-- A request that the clients send: for an entry of the table, to read something or to write. -/
def Proper (n : VarCount) (m : CfgMsg) : Prop :=
  (∃ k, entry? n m.ind = some k) ∧ ((∃ acc, m.type = readType acc ∧ acc ≠ .unknown) ∨ m.type = reqWr)

/-- An answer that is no error, and not the number of variables. -/
def Answer.Proper : Answer ℤ (List UInt8) → Prop
  | .count _ => False
  | .noReg => False
  | .unknown => False
  | _ => True

section Replies

variable {n : VarCount} {κ δ ε ω : Type} {sem : CbSem n κ δ ε ω} {m rep : CfgMsg} {k : Fin n.1}

lemma query_of_readType {acc : Access} (hk : entry? n m.ind = some k) (ht : m.type = readType acc) :
    query n m = readQuery k acc := by
  unfold query
  rw [ht, hk]
  cases acc <;> rfl

lemma serve_proper (hm : Proper n m) (w : World n κ δ ε ω) :
    Answer.Proper ((regMap sem).serve w (query n m)).2 := by
  obtain ⟨⟨k, hk⟩, ⟨acc, ht, ha⟩ | ht⟩ := hm
  · rw [query_of_readType hk ht]
    cases acc with
    | unknown => exact absurd rfl ha
    | _ => trivial
  · rw [query_of_write ht hk]
    trivial

/-- A proper answer makes the transaction valid, without an error. -/
lemma complete_err {a : Answer ℤ (List UInt8)} (h : Carries rep a) (ha : Answer.Proper a)
    (x : Transaction) : (Link.complete rep x).err = 0 := by
  have htext : ∀ {t}, CarriesText t rep → ¬ rep.len.toNat > ioBufSize - 1 := by
    intro t ht hlt
    have h1 := ht.1
    have h2 : min t.length (cfgBufLen - sizeofCfgMsg) ≤ 76 := Nat.min_le_right _ _
    have h3 : 399 < rep.len.toNat := hlt
    omega
  cases a with
  | count _ => exact ha.elim
  | noReg => exact ha.elim
  | unknown => exact ha.elim
  | ok =>
    unfold Link.complete
    rw [if_pos h.1]
  | val _ => rw [Link.complete_number x (.inl h.1)]
  | min _ => rw [Link.complete_number x (.inr (.inl h.1))]
  | max _ => rw [Link.complete_number x (.inr (.inr h.1))]
  | name _ => rw [Link.complete_text x (.inl h.1) (htext h.2)]
  | desc _ => rw [Link.complete_text x (.inr h.1) (htext h.2)]

end Replies

/-! ### The invariant -/

section Flow

variable {n : VarCount} {κ δ ε ω : Type}

/-- The last request of a file: a read request from its open, or the request from its close. -/
def Asks (kstrtol : List UInt8 → Int32 × Int32) (file : File) (r : FileRecord) (m : CfgMsg) : Prop :=
  m.ind = (infoOf file).index ∧
    match file.phase, file.fModeRead with
    | .closing, true => m.type = reqRd
    | .closing, false => m.type = reqWr ∧ m.val = (kstrtol r.text).2
    | _, _ => m.type = readType (infoOf file).type

/-- The struct `t` waits for the reply to the request `j`. -/
structure Waiting (first : ℕ) (s : Sys n κ δ ε ω) (t : Ptr) (j : ℕ) : Prop where
  pending : t ∈ s.k.link.pendingList
  valid : (s.k.link.trans t).valid = false
  number : s.k.link.number t = first + j

/-- The reply to the request `j` has arrived; a file that is only read still shows it. -/
structure Answered (s : Sys n κ δ ε ω) (file : File) (j : ℕ) : Prop where
  not_pending : file.privateData ∉ s.k.link.pendingList
  valid : (s.k.link.trans file.privateData).valid = true
  err : (s.k.link.trans file.privateData).err = 0
  lt : j < s.delivered
  content : file.fModeWrite = false → ∃ rep x, s.replies[j]? = some rep ∧
    s.k.link.trans file.privateData = Link.complete rep x

/-- An open file of a polite client. -/
structure FileOk (kstrtol : List UInt8 → Int32 × Int32) (first : ℕ) (s : Sys n κ δ ε ω) (f : FileId)
    (file : File) : Prop where
  inode : file.inode = .var (infoOf file)
  isVar : IsVar n (infoOf file)
  write : file.fModeWrite = true → (infoOf file).type = .val
  phase : file.phase = .ready ∨ file.phase = .closing ∧ file.fModeWrite = true
  rnw : (s.k.link.trans file.privateData).rnw = file.fModeRead
  idle : file.fModeRead = false → file.phase = .ready →
    file.privateData ∉ s.k.link.pendingList ∧ (s.k.link.trans file.privateData).err = 0
  asked : file.fModeRead = true ∨ file.phase = .closing →
    ∃ m, s.k.link.wire[(s.hist.record f).request]? = some m ∧ Asks kstrtol file (s.hist.record f) m
  exchange : file.fModeRead = true ∨ file.phase = .closing →
    Waiting first s file.privateData (s.hist.record f).request ∨
      Answered s file (s.hist.record f).request

/-- **The flow of requests and replies**, where `first` is the number of the first request. -/
structure Flow (kstrtol : List UInt8 → Int32 × Int32) (sem : CbSem n κ δ ε ω) (first : ℕ)
    (s : Sys n κ δ ε ω) : Prop where
  sane : Sane s.k
  drawn : s.k.link.drawn = first + s.k.link.wire.length
  delivered_le : s.delivered ≤ s.served
  served_le : s.served ≤ s.k.link.wire.length
  replies_length : s.replies.length = s.served
  found_length : s.hist.found.length = s.served
  request : ∀ j m, s.k.link.wire[j]? = some m → m.seq = UInt32.ofNat (first + j) ∧ Proper n m
  reply : ∀ (j : ℕ) rep, s.replies[j]? = some rep → ∃ m w, s.k.link.wire[j]? = some m ∧
    s.hist.found[j]? = some w ∧ rep.seq = m.seq ∧ Carries rep ((regMap sem).serve w (query n m)).2
  pending_ge : ∀ t ∈ s.k.link.pendingList, first + s.delivered ≤ s.k.link.number t
  pending_all : ∀ j, s.delivered ≤ j → j < s.k.link.wire.length →
    ∃ t ∈ s.k.link.pendingList, s.k.link.number t = first + j
  files : ∀ f file, s.k.files f = some file → FileOk kstrtol first s f file

variable {kstrtol : List UInt8 → Int32 × Int32} {sem : CbSem n κ δ ε ω} {first : ℕ}
  {s s' : Sys n κ δ ε ω} {f : FileId} {file : File}

lemma Asks.closing {r : FileRecord} {m : CfgMsg} (hi : m.ind = (infoOf file).index)
    (hm : if file.fModeRead then m.type = reqRd
      else m.type = reqWr ∧ m.val = (kstrtol r.text).2) :
    Asks kstrtol { file with phase := .closing } r m := by
  refine ⟨hi, ?_⟩
  dsimp only
  cases hr : file.fModeRead <;> rw [hr] at hm <;> exact hm

lemma FileOk.mono (h : FileOk kstrtol first s f file)
    (ht : s'.k.link.trans file.privateData = s.k.link.trans file.privateData)
    (hp : file.privateData ∈ s'.k.link.pendingList ↔ file.privateData ∈ s.k.link.pendingList)
    (hn : s'.k.link.number file.privateData = s.k.link.number file.privateData)
    (hr : s'.hist.record f = s.hist.record f) (hw : s.k.link.wire <+: s'.k.link.wire)
    (hreps : s.replies <+: s'.replies) (hd : s.delivered ≤ s'.delivered) :
    FileOk kstrtol first s' f file where
  inode := h.inode
  isVar := h.isVar
  write := h.write
  phase := h.phase
  rnw := by rw [ht, h.rnw]
  idle hread hready := by
    rw [hp, ht]
    exact h.idle hread hready
  asked hask := by
    obtain ⟨m, hm, ha⟩ := h.asked hask
    rw [hr]
    exact ⟨m, getElem?_of_isPrefix hw hm, ha⟩
  exchange hask := by
    rw [hr]
    rcases h.exchange hask with hwait | hans
    · exact .inl ⟨hp.2 hwait.pending, ht ▸ hwait.valid, hn.trans hwait.number⟩
    · refine .inr ⟨fun hm => hans.not_pending (hp.1 hm), ht ▸ hans.valid, ht ▸ hans.err,
        hans.lt.trans_le hd, fun hm => ?_⟩
      obtain ⟨rep, x, hrep, hx⟩ := hans.content hm
      exact ⟨rep, x, getElem?_of_isPrefix hreps hrep, ht.trans hx⟩

/-! ### Calls -/

/-- The file that a call is about. -/
def fileOf : Kernel.Files.Event → Option FileId
  | .openVar f .. => some f
  | .read f .. => some f
  | .write f .. => some f
  | .release f _ => some f
  | .releaseWoken f _ => some f
  | .openLl f .. => some f
  | .llCount f .. => some f
  | .llCounted f .. => some f
  | .llQuery f _ => some f
  | .llNamed f .. => some f
  | .reply _ => none

/-- The history knows of a call only what concerns its file. -/
structure Recorded (f : FileId) (h h' : History n κ δ ε ω) : Prop where
  found : h'.found = h.found
  record : ∀ g ≠ f, h'.record g = h.record g

lemma recorded_observe {k k' : Driver} {h : History n κ δ ε ω} {e : Kernel.Files.Event}
    (he : fileOf e = some f) : Recorded f h (observe kstrtol k k' h e) := by
  cases e with
  | openVar g =>
    obtain rfl := Option.some.inj he
    exact ⟨rfl, fun g hg => Function.update_of_ne hg ..⟩
  | release g =>
    obtain rfl := Option.some.inj he
    simp only [observe]
    split
    · exact ⟨rfl, fun g hg => Function.update_of_ne hg ..⟩
    · exact ⟨rfl, fun _ _ => rfl⟩
  | read =>
    simp only [observe]
    split <;> exact ⟨rfl, fun _ _ => rfl⟩
  | releaseWoken =>
    simp only [observe]
    split
    · split <;> exact ⟨rfl, fun _ _ => rfl⟩
    · exact ⟨rfl, fun _ _ => rfl⟩
  | _ => exact ⟨rfl, fun _ _ => rfl⟩

lemma step_client {e : Kernel.Files.Event} (hs : step kstrtol sem s (.client e) = some s') :
    ∃ k', Kernel.Files.step kstrtol s.k e = some k' ∧
      s' = { s with k := k', hist := observe kstrtol s.k k' s.hist e } := by
  cases e with
  | reply => cases hs
  | _ =>
    obtain ⟨k', hk, hs⟩ := Option.bind_eq_some_iff.1 hs
    exact ⟨k', hk, (Option.some.inj hs).symm⟩

/-- A polite client does not close a file whose struct is pending. -/
lemma FileOk.not_pending (h : FileOk kstrtol first s f file) (hready : file.phase = .ready)
    (hv : file.fModeRead = true → (s.k.transOf file).valid = true) :
    file.privateData ∉ s.k.link.pendingList := by
  cases hread : file.fModeRead with
  | false => exact (h.idle hread hready).1
  | true =>
    refine ((h.exchange (.inl hread)).resolve_left fun hw => ?_).not_pending
    exact Bool.false_ne_true (hw.valid.symm.trans (hv hread))

lemma FileOk.answered (h : FileOk kstrtol first s f file)
    (hask : file.fModeRead = true ∨ file.phase = .closing) (hv : (s.k.transOf file).valid = true) :
    Answered s file (s.hist.record f).request :=
  (h.exchange hask).resolve_left fun hw => Bool.false_ne_true (hw.valid.symm.trans hv)

/-- **A read of a polite client** finds the reply to the request of its file. -/
lemma read_spec {len uncopied : ℕ} {own : Option ℤ} {intr : Bool} {k' : Driver}
    (h : Flow kstrtol sem first s) (hp : Polite s (.client (.read f len own intr uncopied)))
    (hk : Kernel.Files.step kstrtol s.k (.read f len own intr uncopied) = some k') :
    ∃ file, s.k.files f = some file ∧ file.phase = .ready ∧ file.fModeRead = true ∧
      Answered s file (s.hist.record f).request ∧ k'.link = s.k.link ∧
      (∃ pos, k'.files f = some { file with pos }) ∧
      k'.log = s.k.log ++ [(f, .read (simpleReadFromBuffer len (own.getD file.pos)
        (s.k.transOf file).buf.bytes (s.k.transOf file).len.toUInt32.toNat uncopied).1)] := by
  replace hk := leads_of_step hk
  cases hk with
  | read file hf hready hread hk =>
    have hv := hp.2.2 file hf
    have hans := (h.files f file hf).answered (.inl hread) hv
    obtain ⟨hl, hpos, hlog⟩ := readVar_valid hf hv hans.err hk
    exact ⟨file, hf, hready, hread, hans, hl, hpos, hlog⟩

/-- **A close that returns from its wait**, and is not interrupted, has its reply, and returns its
struct. -/
lemma woken_spec {k' : Driver} (h : Flow kstrtol sem first s)
    (hk : Kernel.Files.step kstrtol s.k (.releaseWoken f false) = some k') :
    ∃ file, s.k.files f = some file ∧ file.phase = .closing ∧
      Answered s file (s.hist.record f).request ∧ k' = (s.k.returnTrans file).closed f 0 := by
  replace hk := leads_of_step hk
  cases hk with
  | releaseWoken file hf hclosing hk =>
    have hv := releaseVarWoken_waits hk
    have hans := (h.files f file hf).answered (.inr hclosing) hv
    exact ⟨file, hf, hclosing, hans, releaseVarWoken_valid hv hans.err hk⟩

/-- **A call of a polite client** is within its file. -/
theorem acts_client {e : Kernel.Files.Event} {k' : Driver} (h : Flow kstrtol sem first s)
    (hp : Polite s (.client e)) (hk : Kernel.Files.step kstrtol s.k e = some k') :
    ∃ f, fileOf e = some f ∧ Acts f s.k k' := by
  cases leads_of_step hk with
  | openVar hf hcall => exact ⟨_, rfl, (acts_openVar h.sane hcall).1⟩
  | read file hf hready hread hcall => exact ⟨_, rfl, (acts_read h.sane hf hready hcall).1⟩
  | write file hf hready hwrite hcall =>
    subst hcall
    exact ⟨_, rfl, (acts_write h.sane hf hready).1⟩
  | @release f _ file hf hready hcall =>
    have hnp := (h.files f file hf).not_pending hready (hp.2.2 file hf)
    exact ⟨f, rfl, acts_release h.sane hf hnp (fun _ => hp.2.1) hcall⟩
  | releaseWoken =>
    obtain ⟨-, rfl⟩ := hp
    obtain ⟨file, hf, -, hans, rfl⟩ := woken_spec h hk
    exact ⟨_, rfl, (Acts.refl h.sane).returnTrans_closed hf hans.not_pending 0⟩
  | _ => exact hp.2.elim

/-- **A call of a polite client** sends nothing, or one request. -/
theorem sends_client {e : Kernel.Files.Event} {k' : Driver} (h : Flow kstrtol sem first s)
    (hp : Polite s (.client e)) (hk : Kernel.Files.step kstrtol s.k e = some k') :
    Unsent s.k.link k'.link ∨ ∃ t x m, Requested t x m s.k.link k'.link := by
  cases leads_of_step hk with
  | @openVar f info fModeRead _ _ _ _ hf hcall =>
    obtain ⟨-, rfl, hvar, -, hmode⟩ := hp
    cases fModeRead with
    | true =>
      obtain ⟨t, x, m, -, hreq, -⟩ := openVar_reads h.sane hvar.2.2 hcall
      exact .inr ⟨t, x, m, hreq⟩
    | false =>
      obtain rfl := hmode.resolve_left Bool.false_ne_true
      obtain ⟨t, -, hu, -⟩ := openVar_writes h.sane hcall
      exact .inl hu
  | read =>
    obtain ⟨file, -, -, -, -, hl, -⟩ := read_spec h hp hk
    exact .inl (hl ▸ Unsent.refl _)
  | write file hf hready hwrite hcall =>
    subst hcall
    exact .inl (writeVar_link _ _ _ hf).1
  | release file hf hready hcall =>
    obtain ⟨-, rfl, -⟩ := hp
    rcases releaseVar_sends h.sane hcall with ⟨-, hu, -⟩ | ⟨-, -, i, m, -, -, hreq, -⟩
    · exact .inl hu
    · exact .inr ⟨_, _, m, hreq⟩
  | releaseWoken =>
    obtain ⟨-, rfl⟩ := hp
    obtain ⟨file, -, -, -, rfl⟩ := woken_spec h hk
    exact .inl ⟨rfl, rfl, rfl, rfl⟩
  | _ => exact hp.2.elim

lemma Flow.files_of_acts {k' : Driver} {hist' : History n κ δ ε ω} (h : Flow kstrtol sem first s)
    (ha : Acts f s.k k') (hh : Recorded f s.hist hist') (hw : s.k.link.wire <+: k'.link.wire)
    (hf : ∀ file, k'.files f = some file →
      FileOk kstrtol first { s with k := k', hist := hist' } f file) :
    ∀ g file, k'.files g = some file →
      FileOk kstrtol first { s with k := k', hist := hist' } g file := by
  intro g file hg
  by_cases hgf : g = f
  · subst hgf
    exact hf file hg
  · rw [ha.files g hgf] at hg
    exact (h.files g file hg).mono (ha.trans g hgf file hg) (ha.pending g hgf file hg)
      (ha.number g hgf file hg) (hh.record g hgf) hw (List.prefix_refl _) le_rfl

lemma Flow.of_unsent {k' : Driver} {hist' : History n κ δ ε ω} (h : Flow kstrtol sem first s)
    (ha : Acts f s.k k') (hh : Recorded f s.hist hist') (hu : Unsent s.k.link k'.link)
    (hf : ∀ file, k'.files f = some file →
      FileOk kstrtol first { s with k := k', hist := hist' } f file) :
    Flow kstrtol sem first { s with k := k', hist := hist' } where
  sane := ha.sane
  drawn := by
    show k'.link.drawn = first + k'.link.wire.length
    rw [hu.drawn, hu.wire, h.drawn]
  delivered_le := h.delivered_le
  served_le := by
    show s.served ≤ k'.link.wire.length
    rw [hu.wire]
    exact h.served_le
  replies_length := h.replies_length
  found_length := (congrArg List.length hh.found).trans h.found_length
  request j m hm := h.request j m (hu.wire ▸ hm)
  reply j rep hrep := by
    obtain ⟨m, w, hm, hw, hc⟩ := h.reply j rep hrep
    exact ⟨m, w, (congrArg (·[j]?) hu.wire).trans hm, (congrArg (·[j]?) hh.found).trans hw, hc⟩
  pending_ge t ht := by
    show first + s.delivered ≤ k'.link.number t
    rw [hu.number]
    exact h.pending_ge t (hu.pendingList ▸ ht)
  pending_all j hj hlt := by
    obtain ⟨t, ht, hn⟩ := h.pending_all j hj (hu.wire ▸ hlt)
    exact ⟨t, hu.pendingList ▸ ht, (congrFun hu.number t).trans hn⟩
  files := h.files_of_acts ha hh (hu.wire ▸ List.prefix_refl _) hf

lemma Flow.of_requested {k' : Driver} {hist' : History n κ δ ε ω} {t : Ptr} {x : Transaction}
    {m : CfgMsg} (h : Flow kstrtol sem first s) (ha : Acts f s.k k') (hh : Recorded f s.hist hist')
    (hu : Requested t x m s.k.link k'.link) (hm : Proper n m)
    (hf : ∀ file, k'.files f = some file →
      FileOk kstrtol first { s with k := k', hist := hist' } f file) :
    Flow kstrtol sem first { s with k := k', hist := hist' } := by
  have hpre : s.k.link.wire <+: k'.link.wire := hu.wire ▸ List.prefix_append ..
  have hlen : k'.link.wire.length = s.k.link.wire.length + 1 := by rw [hu.wire]; simp
  have hdr := h.drawn
  have ht : t ∉ s.k.link.pendingList := by
    have hnodup := ha.sane.sound.pending_nodup
    rw [show (pool k').pending = k'.link.pendingList from rfl, hu.pendingList] at hnodup
    exact (List.nodup_cons.1 hnodup).1
  have hnum : ∀ u ∈ s.k.link.pendingList, k'.link.number u = s.k.link.number u := by
    intro u hu'
    have hne : u ≠ t := by
      rintro rfl
      exact ht hu'
    rw [hu.number, Function.update_of_ne hne]
  have hnt : k'.link.number t = first + s.k.link.wire.length := by
    rw [hu.number, Function.update_self, hdr]
  refine ⟨ha.sane, ?_, h.delivered_le, ?_, h.replies_length,
    (congrArg List.length hh.found).trans h.found_length, fun j m' hm' => ?_, fun j rep hrep => ?_,
    fun u hu' => ?_, fun j hj hlt => ?_, h.files_of_acts ha hh hpre hf⟩
  · show k'.link.drawn = first + k'.link.wire.length
    rw [hu.drawn, hlen, hdr, Nat.add_assoc]
  · show s.served ≤ k'.link.wire.length
    have := h.served_le
    omega
  · have hm' : (s.k.link.wire ++ [m])[j]? = some m' := hu.wire ▸ hm'
    rcases getElem?_concat_cases hm' with hm' | ⟨rfl, rfl⟩
    · exact h.request j m' hm'
    · exact ⟨hu.seq.trans (congrArg _ hdr), hm⟩
  · obtain ⟨m', w, hm', hw, hc⟩ := h.reply j rep hrep
    exact ⟨m', w, getElem?_of_isPrefix hpre hm', (congrArg (·[j]?) hh.found).trans hw, hc⟩
  · show first + s.delivered ≤ k'.link.number u
    have hd := h.delivered_le
    have hs := h.served_le
    rcases List.mem_cons.1 (hu.pendingList ▸ hu') with rfl | hu'
    · omega
    · rw [hnum u hu']
      exact h.pending_ge u hu'
  · show ∃ u ∈ k'.link.pendingList, k'.link.number u = first + j
    have hlt : j < s.k.link.wire.length + 1 := hlen ▸ hlt
    rw [hu.pendingList]
    rcases Nat.lt_succ_iff_lt_or_eq.1 hlt with hlt | rfl
    · obtain ⟨u, hu', hn⟩ := h.pending_all j hj hlt
      exact ⟨u, List.mem_cons_of_mem _ hu', (hnum u hu').trans hn⟩
    · exact ⟨t, List.mem_cons_self, hnt⟩

lemma FileOk.of_requested {k' : Driver} {hist' : History n κ δ ε ω} {x : Transaction} {m : CfgMsg}
    (h : Flow kstrtol sem first s) (hreq : Requested file.privateData x m s.k.link k'.link)
    (hr : (hist'.record f).request = s.k.link.wire.length) (hrnw : x.rnw = file.fModeRead)
    (hvalid : x.valid = false) (hm : Asks kstrtol file (hist'.record f) m)
    (hinode : file.inode = .var (infoOf file)) (hvar : IsVar n (infoOf file))
    (hwrite : file.fModeWrite = true → (infoOf file).type = .val)
    (hphase : file.phase = .ready ∧ file.fModeRead = true ∨
      file.phase = .closing ∧ file.fModeWrite = true) :
    FileOk kstrtol first { s with k := k', hist := hist' } f file where
  inode := hinode
  isVar := hvar
  write := hwrite
  phase := hphase.imp_left And.left
  rnw := (congrArg Transaction.rnw hreq.trans).trans hrnw
  idle hread hready := by
    rcases hphase with ⟨-, hread'⟩ | ⟨hclosing, -⟩
    · exact absurd (hread.symm.trans hread') Bool.false_ne_true
    · exact absurd (hready.symm.trans hclosing) Phase.noConfusion
  asked _ := ⟨m, (congrArg (k'.link.wire[·]?) hr).trans hreq.wire_last, hm⟩
  exchange _ := by
    refine .inl ⟨hreq.pendingList.symm ▸ List.mem_cons_self, ?_, ?_⟩
    · exact (congrArg Transaction.valid hreq.trans).trans hvalid
    · show k'.link.number file.privateData = first + (hist'.record f).request
      rw [hreq.number, Function.update_self, hr, h.drawn]

theorem flow_openVar {info : VarAccessInfo} {fModeRead fModeWrite nonblock mem : Bool} {send : Int32}
    (h : Flow kstrtol sem first s)
    (hp : Polite s (.client (.openVar f info fModeRead fModeWrite nonblock mem send)))
    (hs : step kstrtol sem s (.client (.openVar f info fModeRead fModeWrite nonblock mem send)) =
      some s') : Flow kstrtol sem first s' := by
  obtain ⟨k', hk, rfl⟩ := step_client hs
  obtain ⟨_, ⟨⟩, hacts⟩ := acts_client h hp hk
  obtain ⟨-, rfl, hvar, hw, hmode⟩ := hp
  obtain ⟨-, hk⟩ := Option.ite_none_left_eq_some.1 hk
  have hrequest : ((observe kstrtol s.k k' s.hist
      (.openVar f info fModeRead fModeWrite nonblock mem 0)).record f).request =
        s.k.link.wire.length := by simp [observe]
  cases fModeRead with
  | true =>
    obtain ⟨t, x, m, hf, hreq, hrnw, hvalid, hind, htype⟩ := openVar_reads h.sane hvar.2.2 hk
    have hm : Proper n m := ⟨hind ▸ hvar.1, .inl ⟨info.type, htype, hvar.2.2⟩⟩
    refine h.of_requested hacts (recorded_observe rfl) hreq hm fun file hfile => ?_
    obtain rfl := Option.some.inj (hf.symm.trans hfile)
    exact FileOk.of_requested h hreq hrequest hrnw hvalid ⟨hind, htype⟩ rfl hvar hw (.inl ⟨rfl, rfl⟩)
  | false =>
    obtain rfl : fModeWrite = true := hmode.resolve_left Bool.false_ne_true
    obtain ⟨t, hf, hu, hnp, htrans⟩ := openVar_writes h.sane hk
    refine h.of_unsent hacts (recorded_observe rfl) hu fun file hfile => ?_
    obtain rfl := Option.some.inj (hf.symm.trans hfile)
    have hno : ¬ (false = true ∨ Phase.ready = Phase.closing) := by decide
    exact {
      inode := rfl
      isVar := hvar
      write := hw
      phase := .inl rfl
      rnw := by
        show (k'.link.trans t).rnw = false
        rw [htrans]
      idle := fun _ _ => ⟨hnp, congrArg Transaction.err htrans⟩
      asked := fun hask => absurd hask hno
      exchange := fun hask => absurd hask hno }

/-- A file whose struct keeps what matters to its requests stays in order. -/
lemma FileOk.of_unsent {k' : Driver} {hist' : History n κ δ ε ω} {pos : ℤ}
    (h : FileOk kstrtol first s f file) (hu : Unsent s.k.link k'.link)
    (hr : hist'.record f = s.hist.record f)
    (ht : ∃ buf dirty, k'.link.trans file.privateData =
      { s.k.link.trans file.privateData with dirty, buf })
    (hc : file.fModeWrite = false → k'.link.trans file.privateData = s.k.link.trans file.privateData) :
    FileOk kstrtol first { s with k := k', hist := hist' } f { file with pos } := by
  obtain ⟨buf, dirty, ht⟩ := ht
  refine ⟨h.inode, h.isVar, h.write, h.phase, ?_, fun hread hready => ?_, fun hask => ?_,
    fun hask => ?_⟩
  · exact (congrArg Transaction.rnw ht).trans h.rnw
  · obtain ⟨hnp, he⟩ := h.idle hread hready
    exact ⟨fun hm => hnp (hu.pendingList ▸ hm), (congrArg Transaction.err ht).trans he⟩
  · obtain ⟨m, hm, ha⟩ := h.asked hask
    refine ⟨m, ?_, ?_⟩
    · exact (congrArg₂ (fun w r => w[FileRecord.request r]?) hu.wire hr).trans hm
    · exact hr.symm ▸ ha
  · rcases h.exchange hask with hwait | hans
    · refine .inl ⟨hu.pendingList.symm ▸ hwait.pending, ?_, ?_⟩
      · exact (congrArg Transaction.valid ht).trans hwait.valid
      · exact (congrFun hu.number _).trans (hwait.number.trans (by rw [hr]))
    · refine .inr ⟨fun hm => hans.not_pending (hu.pendingList ▸ hm), ?_, ?_, hr.symm ▸ hans.lt, ?_⟩
      · exact (congrArg Transaction.valid ht).trans hans.valid
      · exact (congrArg Transaction.err ht).trans hans.err
      · intro hm
        obtain ⟨rep, x, hrep, hx⟩ := hans.content hm
        exact ⟨rep, x, hr.symm ▸ hrep, (hc hm).trans hx⟩

theorem flow_read {len uncopied : ℕ} {own : Option ℤ} {intr : Bool} (h : Flow kstrtol sem first s)
    (hp : Polite s (.client (.read f len own intr uncopied)))
    (hs : step kstrtol sem s (.client (.read f len own intr uncopied)) = some s') :
    Flow kstrtol sem first s' := by
  obtain ⟨k', hk, rfl⟩ := step_client hs
  obtain ⟨_, ⟨⟩, hacts⟩ := acts_client h hp hk
  obtain ⟨file, hf, -, -, -, hl, ⟨pos, hf'⟩, hlog⟩ := read_spec h hp hk
  refine h.of_unsent hacts (recorded_observe rfl) (hl ▸ Unsent.refl _) fun file' hfile' => ?_
  obtain rfl := Option.some.inj (hf'.symm.trans hfile')
  refine (h.files f file hf).of_unsent (hl ▸ Unsent.refl _) ?_
    ⟨_, _, congrArg (·.trans file.privateData) hl⟩ fun _ => congrArg (·.trans file.privateData) hl
  rw [observe_read hf hlog]

theorem flow_write {data : List UInt8} {uncopied : ℕ} {own : Option ℤ} (h : Flow kstrtol sem first s)
    (hp : Polite s (.client (.write f data own uncopied)))
    (hs : step kstrtol sem s (.client (.write f data own uncopied)) = some s') :
    Flow kstrtol sem first s' := by
  obtain ⟨k', hk, rfl⟩ := step_client hs
  obtain ⟨_, ⟨⟩, hacts⟩ := acts_client h hp hk
  replace hk := leads_of_step hk
  cases hk with
  | write file hf hready hwrite hk =>
    subst hk
    obtain ⟨hu, ⟨pos, hf'⟩, ht⟩ := writeVar_link data own uncopied hf
    refine h.of_unsent hacts (recorded_observe rfl) hu fun file' hfile' => ?_
    obtain rfl := Option.some.inj (hf'.symm.trans hfile')
    refine (h.files f file hf).of_unsent hu rfl ⟨_, _, ht⟩ fun hro => ?_
    exact absurd (hwrite.symm.trans hro) Bool.noConfusion

theorem flow_release {send : Int32} (h : Flow kstrtol sem first s)
    (hp : Polite s (.client (.release f send)))
    (hs : step kstrtol sem s (.client (.release f send)) = some s') : Flow kstrtol sem first s' := by
  obtain ⟨k', hk, rfl⟩ := step_client hs
  obtain ⟨_, ⟨⟩, hacts⟩ := acts_client h hp hk
  obtain ⟨-, rfl, -⟩ := hp
  replace hk := leads_of_step hk
  cases hk with
  | release file hf hready hk =>
    have ho := h.files f file hf
    rcases releaseVar_sends h.sane hk with ⟨-, hu, hclosed, -⟩ | ⟨hw, -, i, m, hi, hf', hreq, hind, hm⟩
    · refine h.of_unsent hacts (recorded_observe rfl) hu fun file' hfile' => ?_
      exact absurd (hclosed.symm.trans hfile') (Option.some_ne_none _).symm
    · have hinfo : infoOf file = ⟨i, .val⟩ := by
        unfold infoOf
        rw [hi]
      have hrnw : (s.k.transOf file).rnw = file.fModeRead := ho.rnw
      have hproper : Proper n m := by
        have hk := ho.isVar.1
        rw [hinfo] at hk
        refine ⟨hind ▸ hk, ?_⟩
        cases hr : (s.k.transOf file).rnw with
        | true => exact .inl ⟨.val, by rw [hr] at hm; exact hm, nofun⟩
        | false =>
          rw [hr] at hm
          exact .inr hm.1
      refine h.of_requested hacts (recorded_observe rfl) hreq hproper fun file' hfile' => ?_
      obtain rfl := Option.some.inj (hf'.symm.trans hfile')
      have hself : (observe kstrtol s.k k' s.hist (.release f 0)).record f =
          ⟨s.k.link.wire.length, (s.hist.record f).earlier, closingText s.k file⟩ := by
        rw [observe_release hf]
        exact Function.update_self ..
      refine FileOk.of_requested h hreq ?_ ho.rnw rfl (.closing ?_ ?_) ho.inode ho.isVar ho.write
        (.inr ⟨rfl, hw.1⟩)
      · rw [hself]
      · rw [hinfo, hind]
      · rw [hself, ← hrnw]
        exact hm

theorem flow_releaseWoken {intr : Bool} (h : Flow kstrtol sem first s)
    (hp : Polite s (.client (.releaseWoken f intr)))
    (hs : step kstrtol sem s (.client (.releaseWoken f intr)) = some s') :
    Flow kstrtol sem first s' := by
  obtain ⟨k', hk, rfl⟩ := step_client hs
  obtain ⟨_, ⟨⟩, hacts⟩ := acts_client h hp hk
  obtain ⟨-, rfl⟩ := hp
  obtain ⟨file, -, -, -, rfl⟩ := woken_spec h hk
  refine h.of_unsent hacts (recorded_observe rfl) ⟨rfl, rfl, rfl, rfl⟩ fun file' hfile' => ?_
  exact absurd ((closed_files_self 0).symm.trans hfile') (Option.some_ne_none _).symm

/-! ### The firmware and the channels -/

lemma serve_out (sem : CbSem n κ δ ε ω) (w : World n κ δ ε ω) (q : Query (Fin n.1) ℤ) :
    ∃ prints : List ω, ((regMap sem).serve w q).1.out = w.out ++ prints.map Sum.inl := by
  have hcb : ∀ (cb : Option κ) k isread data (w : World n κ δ ε ω),
      ∃ prints : List ω, (callCb sem cb k isread data w).out = w.out ++ prints.map Sum.inl := by
    intro cb k isread data w
    cases cb with
    | none => exact ⟨[], by simp [callCb]⟩
    | some c => exact ⟨_, rfl⟩
  cases q with
  | write k v => exact hcb ..
  | read k => exact hcb ..
  | _ => exact ⟨[], (List.append_nil _).symm⟩

/-- **Serving a request** hands one reply to the transport. -/
theorem serve_spec {m : CfgMsg} (hm : s.k.link.wire[s.served]? = some m)
    (hs : step kstrtol sem s .serve = some s') :
    ∃ rep, rep.seq = m.seq ∧ Carries rep ((regMap sem).serve s.fw.w (query n m)).2 ∧
      s'.fw.w.vars = ((regMap sem).serve s.fw.w (query n m)).1.vars ∧
      s' = { s with
        fw := s'.fw, served := s.served + 1, replies := s.replies ++ [rep]
        hist := { s.hist with found := s.hist.found ++ [s.fw.w] } } := by
  obtain ⟨m', hm', hs⟩ := Option.bind_eq_some_iff.1 hs
  obtain rfl := Option.some.inj (hm.symm.trans hm')
  obtain ⟨fw, hfw, hs⟩ := Option.bind_eq_some_iff.1 hs
  obtain ⟨rep, hrep, hseq, -, hc⟩ := configMsgHandler_serves sem m s.fw
  obtain rfl := Option.some.inj (hrep.symm.trans hfw)
  obtain ⟨prints, hout⟩ := serve_out sem s.fw.w (query n m)
  obtain rfl := Option.some.inj hs
  refine ⟨rep, hseq, hc, rfl, ?_⟩
  simp [newReplies, send, hout, List.filterMap_append]

/-- The kernel module does not see that a request is served. -/
lemma serve_keeps (hs : step kstrtol sem s .serve = some s') :
    s'.k = s.k ∧ s'.served = s.served + 1 ∧ s'.delivered = s.delivered ∧
      s'.hist = { s.hist with found := s.hist.found ++ [s.fw.w] } := by
  obtain ⟨m, hm, -⟩ := Option.bind_eq_some_iff.1 hs
  obtain ⟨rep, -, -, -, e⟩ := serve_spec hm hs
  rw [e]
  exact ⟨rfl, rfl, rfl, rfl⟩

theorem flow_serve (h : Flow kstrtol sem first s) (hs : step kstrtol sem s .serve = some s') :
    Flow kstrtol sem first s' := by
  obtain ⟨m, hm, -⟩ := Option.bind_eq_some_iff.1 hs
  obtain ⟨rep, hseq, hc, -, e⟩ := serve_spec hm hs
  have hlt : s.served < s.k.link.wire.length := (List.getElem?_eq_some_iff.1 hm).1
  have hl := h.replies_length
  have hfl := h.found_length
  have hd := h.delivered_le
  rw [e]
  refine ⟨h.sane, h.drawn, hd.trans (Nat.le_succ _), hlt, ?_, ?_, h.request, fun j rep' hj => ?_,
    h.pending_ge, h.pending_all, fun f file hf => ?_⟩
  · simp [hl]
  · simp [hfl]
  · rcases getElem?_concat_cases hj with hj | ⟨rfl, rfl⟩
    · obtain ⟨m', w, hm', hw, hc'⟩ := h.reply j rep' hj
      exact ⟨m', w, hm', getElem?_of_isPrefix (List.prefix_append ..) hw, hc'⟩
    · rw [hl]
      exact ⟨m, s.fw.w, hm, by rw [← hfl, List.getElem?_concat_length], hseq, hc⟩
  · exact (h.files f file hf).mono rfl Iff.rfl rfl rfl (List.prefix_refl _)
      (List.prefix_append ..) le_rfl

/-- **A delivered reply** settles the oldest pending request, which is the one it replies to. -/
theorem deliver_spec (h : Flow kstrtol sem first s) (hy : Young s.k)
    (hs : step kstrtol sem s .deliver = some s') :
    ∃ rep, s.replies[s.delivered]? = some rep ∧ ∃ t ∈ s.k.link.pendingList,
      s.k.link.number t = first + s.delivered ∧
      s' = { s with
        k := { s.k with link := s.k.link.settle rep t }, delivered := s.delivered + 1 } := by
  obtain ⟨rep, hrep, hs⟩ := Option.bind_eq_some_iff.1 hs
  obtain rfl := Option.some.inj hs
  obtain ⟨m, w, hm, -, hseq, -⟩ := h.reply _ _ hrep
  have hlt := (List.getElem?_eq_some_iff.1 hm).1
  obtain ⟨t, ht, hn⟩ := h.pending_all _ le_rfl hlt
  have hmsg : (s.k.link.trans t).msgSeqNr = rep.seq := by
    rw [h.sane.numbered.seq t ht, hn, hseq, (h.request _ _ hm).1]
  have hd := distinct_of_numbered h.sane.numbered hy
  refine ⟨rep, hrep, t, ht, hn, ?_⟩
  rw [rpmsgCb_of_received hd ht rep.received_encode hmsg]

lemma FileOk.of_settled {rep : CfgMsg} {k' : Driver} (h : FileOk kstrtol first s f file)
    (hk : k' = { s.k with link := s.k.link.settle rep file.privateData })
    (hrep : s.replies[s.delivered]? = some rep) (hpend : file.privateData ∈ s.k.link.pendingList)
    (hnum : s.k.link.number file.privateData = first + s.delivered)
    (hnp : file.privateData ∉ k'.link.pendingList)
    (herr : ∀ x, (Link.complete rep x).err = 0) :
    FileOk kstrtol first { s with k := k', delivered := s.delivered + 1 } f file := by
  have ht : k'.link.trans file.privateData =
      Link.complete rep (s.k.link.trans file.privateData) := by
    rw [hk]
    exact Function.update_self ..
  have hask : file.fModeRead = true ∨ file.phase = .closing := by
    rcases h.phase with hready | ⟨hclosing, -⟩
    · refine .inl ?_
      by_contra hread
      exact (h.idle (Bool.not_eq_true _ ▸ hread) hready).1 hpend
    · exact .inr hclosing
  have hwait := (h.exchange hask).resolve_right fun hans => hans.not_pending hpend
  have hj : (s.hist.record f).request = s.delivered := by
    have := hwait.number
    omega
  exact {
    inode := h.inode
    isVar := h.isVar
    write := h.write
    phase := h.phase
    rnw := by
      show (k'.link.trans file.privateData).rnw = file.fModeRead
      rw [ht, Link.complete_rnw, ← h.rnw]
    idle := fun hread hready => absurd hpend (h.idle hread hready).1
    asked := fun _ => by
      obtain ⟨m, hm, ha⟩ := h.asked hask
      refine ⟨m, ?_, ha⟩
      rw [hk]
      exact hm
    exchange := fun _ => by
      refine .inr ⟨hnp, ?_, ?_, ?_, fun _ => ⟨rep, _, hj ▸ hrep, ht⟩⟩
      · show (k'.link.trans file.privateData).valid = true
        rw [ht, Link.complete_valid]
      · show (k'.link.trans file.privateData).err = 0
        rw [ht, herr]
      · show (s.hist.record f).request < s.delivered + 1
        omega }

theorem flow_deliver (h : Flow kstrtol sem first s) (hy : Young s.k)
    (hs : step kstrtol sem s .deliver = some s') : Flow kstrtol sem first s' := by
  obtain ⟨rep, hrep, t, ht, hn, rfl⟩ := deliver_spec h hy hs
  obtain ⟨m, w, hm, -, -, hc⟩ := h.reply _ _ hrep
  have hlt : s.delivered < s.served := h.replies_length ▸ (List.getElem?_eq_some_iff.1 hrep).1
  have hnodup := h.sane.sound.pending_nodup
  have hne : ∀ u ∈ s.k.link.pendingList.erase t, u ≠ t := fun u hu e =>
    ((List.Nodup.mem_erase_iff hnodup).1 (e ▸ hu)).1 rfl
  have hnum : ∀ u ∈ s.k.link.pendingList, u ≠ t → s.k.link.number u ≠ first + s.delivered := by
    intro u hu hut he
    refine hut (List.inj_on_of_nodup_map (distinct_of_numbered h.sane.numbered hy) hu ht ?_)
    rw [h.sane.numbered.seq u hu, h.sane.numbered.seq t ht, he, hn]
  refine ⟨?_, h.drawn, hlt, h.served_le, h.replies_length, h.found_length, h.request, h.reply,
    fun u hu => ?_, fun j hj hjlt => ?_, fun f file hf => ?_⟩
  · exact h.sane.settle rep
  · have hge := h.pending_ge u (List.mem_of_mem_erase hu)
    have := hnum u (List.mem_of_mem_erase hu) (hne u hu)
    show first + (s.delivered + 1) ≤ s.k.link.number u
    omega
  · obtain ⟨u, hu, hnu⟩ := h.pending_all j (Nat.le_of_succ_le hj) hjlt
    refine ⟨u, (List.mem_erase_of_ne fun e => ?_).2 hu, hnu⟩
    rw [e, hn] at hnu
    have : s.delivered + 1 ≤ j := hj
    omega
  · by_cases hft : file.privateData = t
    · subst hft
      refine (h.files f file hf).of_settled rfl hrep ht hn (fun hm => hne _ hm rfl) fun x => ?_
      exact complete_err hc (serve_proper (h.request _ _ hm).2 w) x
    · exact (h.files f file hf).mono (Function.update_of_ne hft ..) (List.mem_erase_of_ne hft) rfl rfl
        (List.prefix_refl _) (List.prefix_refl _) (Nat.le_succ _)

/-! ### Every run -/

lemma flow_start (idle : Idle) (fw : Cfg n κ δ ε ω) :
    Flow kstrtol sem idle.k.link.drawn (start idle fw) where
  sane := idle.sane
  drawn := by
    show idle.k.link.drawn = idle.k.link.drawn + idle.k.link.wire.length
    rw [idle.wire, List.length_nil, Nat.add_zero]
  delivered_le := le_rfl
  served_le := Nat.zero_le _
  replies_length := rfl
  found_length := rfl
  request j m hm := absurd hm (by simp [start, idle.wire])
  reply j rep hrep := absurd hrep (by simp [start])
  pending_ge t ht := absurd ht (by simp [start, idle.pendingList])
  pending_all j _ hj := absurd hj (by simp [start, idle.wire])
  files f file hf := absurd hf (by simp [start, idle.files])

/-- **Every step of polite clients keeps the flow.** -/
theorem flow_step {e : Event} (h : Flow kstrtol sem first s) (hp : Polite s e)
    (hs : step kstrtol sem s e = some s') : Flow kstrtol sem first s' := by
  cases e with
  | serve => exact flow_serve h hs
  | deliver => exact flow_deliver h hp.1 hs
  | client e =>
    cases e with
    | openVar => exact flow_openVar h hp hs
    | read => exact flow_read h hp hs
    | write => exact flow_write h hp hs
    | release => exact flow_release h hp hs
    | releaseWoken => exact flow_releaseWoken h hp hs
    | _ => exact hp.2.elim

lemma firmware_step {e : Event} (hs : step kstrtol sem s e = some s') :
    (e = .serve ∧ s'.k = s.k ∧ s'.served = s.served + 1 ∧ s'.delivered = s.delivered) ∨
      (s'.served = s.served ∧ s'.fw = s.fw) := by
  cases e with
  | serve =>
    obtain ⟨hk, hserved, hdelivered, -⟩ := serve_keeps hs
    exact .inl ⟨rfl, hk, hserved, hdelivered⟩
  | deliver =>
    obtain ⟨rep, -, hs⟩ := Option.bind_eq_some_iff.1 hs
    obtain ⟨k, -, hs⟩ := Option.bind_eq_some_iff.1 hs
    obtain rfl := Option.some.inj hs
    exact .inr ⟨rfl, rfl⟩
  | client e =>
    obtain ⟨k', -, rfl⟩ := step_client hs
    exact .inr ⟨rfl, rfl⟩

lemma wire_step {e : Event} (h : Flow kstrtol sem first s) (hp : Polite s e)
    (hs : step kstrtol sem s e = some s') : s.k.link.wire <+: s'.k.link.wire := by
  cases e with
  | serve => exact (serve_keeps hs).1.symm ▸ List.prefix_refl _
  | deliver =>
    obtain ⟨rep, -, t, -, -, rfl⟩ := deliver_spec h hp.1 hs
    exact List.prefix_refl _
  | client e =>
    obtain ⟨k', hk, rfl⟩ := step_client hs
    rcases sends_client h hp hk with hu | ⟨t, x, m, hreq⟩
    · exact hu.wire ▸ List.prefix_refl _
    · exact hreq.wire ▸ List.prefix_append ..

theorem flow_run {idle : Idle} {fw : Cfg n κ δ ε ω} {es : List Event}
    (hp : Steps (step kstrtol sem) Polite (start idle fw) es)
    (hr : run (step kstrtol sem) (start idle fw) es = some s) :
    Flow kstrtol sem idle.k.link.drawn s :=
  run_invariant_of_steps (fun _ _ _ h hp hs => flow_step h hp hs) (flow_start idle fw) hp hr

end Flow

end CfgMgmt.System
