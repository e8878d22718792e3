import CfgMgmt.Kernel.Kstrtol
import CfgMgmt.System.Writing

/-!
# Reading a value and writing it back

A client reads the file of a value, and writes the text it was shown to the file of the same value: the
close returns 0, and the table is what it was (`write_back`).  The text of a limit sets the value to
this limit.
-/

namespace CfgMgmt.System.RoundTrip

open CfgMgmt.Lib CfgMgmt.Lib.Bytes CfgMgmt.Lib.Machine CfgMgmt.Msg CfgMgmt.Firmware.Config
open CfgMgmt.Firmware.RegisterMap CfgMgmt.Firmware.ConfigRefinement
open CfgMgmt.Kernel.Linux CfgMgmt.Kernel.RpmsgLink CfgMgmt.Kernel.Files CfgMgmt.Kernel.Structs
open CfgMgmt.Kernel.Calls CfgMgmt.Kernel.Sessions CfgMgmt.Kernel.Kstrtol
open CfgMgmt.Kernel.Matching (Young)

/-! ### Calls that go through -/

section Calls

variable {kstrtol : List UInt8 → Int32 × Int32} {k : Driver} {f : FileId} {file : File}
  {info : VarAccessInfo}

lemma openVar_returns {fModeRead fModeWrite nonblock : Bool} {send : Int32} :
    ∃ k', k.debugfsOpenVar kstrtol f info fModeRead fModeWrite nonblock true send = some k' ∧
      k'.log = k.log ++ [(f, .opened 0)] := by
  obtain ⟨t, l, ha⟩ := Link.allocTrans_true k.link
  unfold Driver.debugfsOpenVar
  rw [ha]
  dsimp only [Option.bind_eq_bind, Option.bind_some]
  split
  · split
    · rename_i h0
      rw [h0]
      exact ⟨_, rfl, rfl⟩
    · exact ⟨_, rfl, openedForWriting_log⟩
  · exact ⟨_, rfl, openedForWriting_log⟩

/-- Closing a file of a variable does not fail to return or to wait. -/
lemma releaseVar_goes {send : Int32} (hi : file.inode = .var info) :
    ∃ k', k.debugfsReleaseVar kstrtol f file send = some k' := by
  unfold Driver.debugfsReleaseVar
  rw [hi]
  dsimp only
  split
  · split
    · exact ⟨_, rfl⟩
    · split <;> exact ⟨_, rfl⟩
  · exact ⟨_, rfl⟩

end Calls

section Steps

variable {n : VarCount} {κ δ ε ω : Type} {kstrtol : List UInt8 → Int32 × Int32}
  {sem : CbSem n κ δ ε ω} {first : ℕ} {s s' : Sys n κ δ ε ω} {f : FileId} {file : File}
  {info : VarAccessInfo} {m : CfgMsg}

lemma client_step {e : Kernel.Files.Event} {k' : Driver}
    (hk : Kernel.Files.step kstrtol s.k e = some k') (he : fileOf e = some f) :
    step kstrtol sem s (.client e) =
      some { s with k := k', hist := observe kstrtol s.k k' s.hist e } := by
  cases e with
  | reply => cases he
  | _ => simp only [step, hk, Option.bind_eq_bind, Option.bind_some]

/-- No request is older than `2 ^ 32` further ones when few are pending. -/
lemma young_of_few (h : Flow kstrtol sem first s)
    (hlt : s.k.link.wire.length ≤ s.delivered + 1) : Young s.k := by
  intro t ht
  have hge := h.pending_ge t ht
  have hdr := h.drawn
  omega

/-! ### One request and its reply -/

/-- Every request was served, and its reply was delivered. -/
structure Quiet (s : Sys n κ δ ε ω) : Prop where
  served : s.served = s.k.link.wire.length
  delivered : s.delivered = s.k.link.wire.length

/-- The last request of the file `f` is `m`, and no other request is on its way. -/
structure Sent (f : FileId) (m : CfgMsg) (s : Sys n κ δ ε ω) : Prop where
  request : (s.hist.record f).request = s.served
  wire : s.k.link.wire[s.served]? = some m
  length : s.k.link.wire.length = s.served + 1
  delivered : s.delivered = s.served

lemma Quiet.young (h : Quiet s) (hf : Flow kstrtol sem first s) : Young s.k := by
  apply young_of_few hf
  rw [h.delivered]
  exact Nat.le_succ _

/-- When every reply was delivered, a file that has asked has its reply. -/
lemma Quiet.answered (h : Quiet s) (hflow : Flow kstrtol sem first s)
    (hf : s.k.files f = some file) (hask : file.fModeRead = true ∨ file.phase = .closing) :
    Answered s file (s.hist.record f).request := by
  have ho := hflow.files f file hf
  refine (ho.exchange hask).resolve_left fun hw => ?_
  obtain ⟨m, hm, -⟩ := ho.asked hask
  have hlt := (List.getElem?_eq_some_iff.1 hm).1
  have hge := hflow.pending_ge _ hw.pending
  have hnum := hw.number
  have hd := h.delivered
  omega

lemma serve_goes (hm : s.k.link.wire[s.served]? = some m) :
    ∃ s', step kstrtol sem s .serve = some s' := by
  obtain ⟨rep, hfw, -⟩ := configMsgHandler_serves sem m s.fw
  simp [step, hm, hfw]

lemma deliver_goes {rep : CfgMsg} (hrep : s.replies[s.delivered]? = some rep) :
    ∃ s', step kstrtol sem s .deliver = some s' := by
  simp [step, hrep, Kernel.Files.step]

lemma deliver_keeps (hs : step kstrtol sem s .deliver = some s') :
    s'.k.files = s.k.files ∧ s'.k.log = s.k.log ∧ s'.k.link.wire = s.k.link.wire ∧
      s'.served = s.served ∧ s'.delivered = s.delivered + 1 ∧ s'.replies = s.replies ∧
      s'.fw = s.fw ∧ s'.hist = s.hist := by
  obtain ⟨rep, -, hs⟩ := Option.bind_eq_some_iff.1 hs
  obtain rfl := Option.some.inj hs
  exact ⟨rfl, rfl, (s.k.link.rpmsgCb_keeps rep.encode).2.2, rfl, rfl, rfl, rfl, rfl⟩

/-- **The firmware serves a request, and its reply is delivered.** -/
theorem exchange (h : Flow kstrtol sem first s) (hs : Sent f m s) (hf : s.k.files f = some file)
    (hask : file.fModeRead = true ∨ file.phase = .closing) :
    ∃ s', run (step kstrtol sem) s [.serve, .deliver] = some s' ∧ Flow kstrtol sem first s' ∧
      Quiet s' ∧ s'.k.files = s.k.files ∧ s'.k.log = s.k.log ∧
      s'.fw.w.vars = ((regMap sem).serve s.fw.w (query n m)).1.vars ∧
      (s'.k.transOf file).valid = true ∧ (s'.k.transOf file).err = 0 ∧
      (file.fModeWrite = false → ∃ rep x,
        Carries rep ((regMap sem).serve s.fw.w (query n m)).2 ∧
        s'.k.transOf file = Link.complete rep x) := by
  obtain ⟨s₁, hs₁⟩ : ∃ s₁, step kstrtol sem s .serve = some s₁ := serve_goes hs.wire
  have hflow₁ := flow_serve h hs₁
  obtain ⟨rep, -, hcarries, hvars, e⟩ := serve_spec hs.wire hs₁
  have hk₁ : s₁.k = s.k := (congrArg Sys.k e :)
  have hserved₁ : s₁.served = s.served + 1 := (congrArg Sys.served e :)
  have hdel₁ : s₁.delivered = s.served := (congrArg Sys.delivered e).trans hs.delivered
  have hreps₁ : s₁.replies = s.replies ++ [rep] := (congrArg Sys.replies e :)
  have hrec₁ : s₁.hist.record = s.hist.record := (congrArg (fun t => t.hist.record) e :)
  have hreply : s₁.replies[s.served]? = some rep := by
    rw [hreps₁, ← h.replies_length, List.getElem?_concat_length]
  obtain ⟨s₂, hs₂⟩ : ∃ s₂, step kstrtol sem s₁ .deliver = some s₂ :=
    deliver_goes (hdel₁.symm ▸ hreply)
  have hyoung : Young s₁.k := by
    apply young_of_few hflow₁
    rw [hk₁, hdel₁, hs.length]
  have hflow₂ := flow_deliver hflow₁ hyoung hs₂
  obtain ⟨hfiles, hlog, hwire, hserved, hdel, hreps, hfw, hhist⟩ := deliver_keeps hs₂
  have hquiet : Quiet s₂ := by
    constructor
    · rw [hserved, hwire, hserved₁, hk₁, hs.length]
    · rw [hdel, hwire, hdel₁, hk₁, hs.length]
  rw [hk₁] at hfiles hlog
  have hans := hquiet.answered hflow₂ ((congrFun hfiles f).trans hf) hask
  refine ⟨s₂, ?_, hflow₂, hquiet, hfiles, hlog, ?_, hans.valid, hans.err, fun hro => ?_⟩
  · exact run_cons_eq_some.2 ⟨s₁, hs₁, run_cons_eq_some.2 ⟨s₂, hs₂, rfl⟩⟩
  · rw [hfw, hvars]
  · obtain ⟨rep', x, hrep', hx⟩ := hans.content hro
    rw [hhist, hrec₁, hs.request, hreps, hreply] at hrep'
    obtain rfl := Option.some.inj hrep'
    exact ⟨rep, x, hcarries, hx⟩

/-! ### Reading -/

def field {κ δ : Type} (v : CfgVar κ δ) : Access → Option Int32
  | .val => some v.val
  | .min => some v.min
  | .max => some v.max
  | _ => none

/-- A client opens a file for reading, waits for the reply, reads and closes the file. -/
def reading (f : FileId) (info : VarAccessInfo) (nonblock : Bool) (len : ℕ) : List Event :=
  [.client (.openVar f info true false nonblock true 0), .serve, .deliver,
    .client (.read f len none false 0), .client (.release f 0)]

/-- Reading a number without a callback changes nothing, and the reply prints the number. -/
lemma serve_field {w : World n κ δ ε ω} {k : Fin n.1} {acc : Access} {v : Int32}
    (hv : field (w.vars k) acc = some v) (hcb : (w.vars k).rdCb = none) :
    ((regMap sem).serve w (readQuery k acc)).1 = w ∧
      ∀ rep x, Carries rep ((regMap sem).serve w (readQuery k acc)).2 →
        Link.complete rep x =
          { Link.printText ioBufSize Link.ioBufSize_fits (decimal v.toInt ++ [10]) x with
            err := 0, valid := true } := by
  have hread : callCb sem (w.vars k).rdCb k true (w.vars k).rdCbData w = w := by rw [hcb]; rfl
  cases acc with
  | val =>
    obtain rfl := Option.some.inj hv
    refine ⟨hread, fun rep x hc => ?_⟩
    obtain ⟨ht, hval, -⟩ : rep.type = resRdVal ∧ rep.val.toInt =
      ((callCb sem (w.vars k).rdCb k true (w.vars k).rdCbData w).vars k).val.toInt ∧ _ := hc
    rw [Link.complete_number x (.inl ht), hval, hread]
  | min =>
    obtain rfl := Option.some.inj hv
    refine ⟨rfl, fun rep x hc => ?_⟩
    obtain ⟨ht, hval, -⟩ : rep.type = resRdMin ∧ rep.val.toInt = (w.vars k).min.toInt ∧ _ := hc
    rw [Link.complete_number x (.inr (.inl ht)), hval]
  | max =>
    obtain rfl := Option.some.inj hv
    refine ⟨rfl, fun rep x hc => ?_⟩
    obtain ⟨ht, hval, -⟩ : rep.type = resRdMax ∧ rep.val.toInt = (w.vars k).max.toInt ∧ _ := hc
    rw [Link.complete_number x (.inr (.inr ht)), hval]
  | _ => cases hv

/-- A text that was printed into the buffer is read in one piece. -/
lemma read_printText {len : ℕ} {text : List UInt8} (x : Transaction) (hlen : ioBufSize ≤ len)
    (ht : text.length < ioBufSize) :
    (simpleReadFromBuffer len 0 (Link.printText ioBufSize Link.ioBufSize_fits text x).buf.bytes
      (Link.printText ioBufSize Link.ioBufSize_fits text x).len.toUInt32.toNat 0).1 = .ok text := by
  obtain ⟨hl, hb⟩ := Link.holds_printText x ht
  rw [hl, simpleReadFromBuffer_take hb]
  exact simpleReadFromBuffer_all (ht.le.trans hlen)

lemma open_reading {nonblock : Bool} (h : Flow kstrtol sem first s) (hq : Quiet s)
    (hf : s.k.files f = none) (hvar : IsVar n info) :
    ∃ s', step kstrtol sem s (.client (.openVar f info true false nonblock true 0)) = some s' ∧
      Flow kstrtol sem first s' ∧ s'.fw = s.fw ∧ s'.k.log = s.k.log ++ [(f, .opened 0)] ∧
      (∀ g ≠ f, s'.k.files g = s.k.files g) ∧
      (∃ t, s'.k.files f = some ⟨.var info, true, false, nonblock, 0, t, .ready⟩) ∧
      ∃ m, Sent f m s' ∧ m.ind = info.index ∧ m.type = readType info.type := by
  obtain ⟨k', hk, hlog⟩ : ∃ k', s.k.debugfsOpenVar kstrtol f info true false nonblock true 0 = some k' ∧
    k'.log = s.k.log ++ [(f, .opened 0)] := openVar_returns
  have hstep : Kernel.Files.step kstrtol s.k (.openVar f info true false nonblock true 0) =
      some k' := by
    simp [Kernel.Files.step, hf, hk]
  have hs : step kstrtol sem s (.client (.openVar f info true false nonblock true 0)) = some
      { s with
        k := k'
        hist := observe kstrtol s.k k' s.hist (.openVar f info true false nonblock true 0) } :=
    client_step hstep rfl
  have hpolite : Polite s (.client (.openVar f info true false nonblock true 0)) :=
    ⟨hq.young h, rfl, hvar, nofun, .inl rfl⟩
  obtain ⟨t, x, m, hfile, hreq, -, -, hind, htype⟩ := openVar_reads h.sane hvar.2.2 hk
  refine ⟨_, hs, flow_openVar h hpolite hs, rfl, hlog, (acts_openVar h.sane hk).1.files, ⟨t, hfile⟩, m,
    ⟨?_, ?_, ?_, ?_⟩, hind, htype⟩
  · show ((observe kstrtol s.k k' s.hist
      (.openVar f info true false nonblock true 0)).record f).request = s.served
    rw [hq.served]
    simp [observe]
  · show k'.link.wire[s.served]? = some m
    rw [hq.served]
    exact hreq.wire_last
  · show k'.link.wire.length = s.served + 1
    rw [hq.served, hreq.wire, List.length_append, List.length_singleton]
  · exact hq.delivered.trans hq.served.symm

lemma read_reading {len : ℕ} {text : List UInt8} (h : Flow kstrtol sem first s) (hq : Quiet s)
    (hf : s.k.files f = some file) (hready : file.phase = .ready) (hread : file.fModeRead = true)
    (hv : (s.k.transOf file).valid = true) (he : (s.k.transOf file).err = 0)
    (hshown : (simpleReadFromBuffer len file.pos (s.k.transOf file).buf.bytes
      (s.k.transOf file).len.toUInt32.toNat 0).1 = .ok text) :
    ∃ s', step kstrtol sem s (.client (.read f len none false 0)) = some s' ∧
      Flow kstrtol sem first s' ∧ Quiet s' ∧ s'.fw = s.fw ∧
      s'.k.log = s.k.log ++ [(f, .read (.ok text))] ∧ s'.k.link = s.k.link ∧
      (∃ pos, s'.k.files f = some { file with pos }) ∧ ∀ g ≠ f, s'.k.files g = s.k.files g := by
  obtain ⟨k', hk⟩ : ∃ k', s.k.debugfsReadVar f file len none false 0 = some k' := by
    simp [Driver.debugfsReadVar, hv, he]
  obtain ⟨hl, hpos, hlog⟩ := readVar_valid hf hv he hk
  have hstep : Kernel.Files.step kstrtol s.k (.read f len none false 0) = some k' := by
    simp [Kernel.Files.step, hf, hready, hread, hk]
  have hs : step kstrtol sem s (.client (.read f len none false 0)) = some
      { s with k := k', hist := observe kstrtol s.k k' s.hist (.read f len none false 0) } :=
    client_step hstep rfl
  have hpolite : Polite s (.client (.read f len none false 0)) := by
    refine ⟨hq.young h, rfl, fun file' hf' => ?_⟩
    obtain rfl := Option.some.inj (hf.symm.trans hf')
    exact hv
  refine ⟨_, hs, flow_read h hpolite hs, ⟨?_, ?_⟩, rfl, ?_, hl, hpos,
    (acts_read h.sane hf hready hk).1.files⟩
  · exact hq.served.trans (congrArg (fun l => l.wire.length) hl.symm)
  · exact hq.delivered.trans (congrArg (fun l => l.wire.length) hl.symm)
  · rw [hlog, Option.getD_none, hshown]

lemma close_reading (h : Flow kstrtol sem first s) (hq : Quiet s) (hf : s.k.files f = some file)
    (hready : file.phase = .ready) (hro : file.fModeWrite = false)
    (hv : (s.k.transOf file).valid = true) :
    ∃ s', step kstrtol sem s (.client (.release f 0)) = some s' ∧ Flow kstrtol sem first s' ∧ Quiet s' ∧
      s'.fw = s.fw ∧ s'.k.log = s.k.log ++ [(f, .released 0)] ∧ s'.k.files f = none ∧
      ∀ g ≠ f, s'.k.files g = s.k.files g := by
  have hk : s.k.debugfsReleaseVar kstrtol f file 0 = some ((s.k.returnTrans file).closed f 0) := by
    simp [Driver.debugfsReleaseVar, hro]
  have hstep : Kernel.Files.step kstrtol s.k (.release f 0) =
      some ((s.k.returnTrans file).closed f 0) := by
    simp [Kernel.Files.step, hf, hready, hk]
  have hs : step kstrtol sem s (.client (.release f 0)) = some
      { s with
        k := (s.k.returnTrans file).closed f 0
        hist := observe kstrtol s.k ((s.k.returnTrans file).closed f 0) s.hist (.release f 0) } :=
    client_step hstep rfl
  have hpolite : Polite s (.client (.release f 0)) := by
    refine ⟨hq.young h, rfl, fun file' hf' _ => ?_⟩
    obtain rfl := Option.some.inj (hf.symm.trans hf')
    exact hv
  refine ⟨_, hs, flow_release h hpolite hs, ⟨hq.served, hq.delivered⟩, rfl, rfl,
    closed_files_self 0, ?_⟩
  exact fun g hg => Function.update_of_ne hg ..

/-- **A client that reads a number is shown its decimal text**, and the table stays as it is. -/
theorem reading_shows {nonblock : Bool} {len : ℕ} {i : Int32} {acc : Access} {k : Fin n.1} {v : Int32}
    (h : Flow kstrtol sem first s) (hq : Quiet s) (hf : s.k.files f = none)
    (hk : entry? n i = some k) (hv : field (s.fw.w.vars k) acc = some v)
    (hcb : (s.fw.w.vars k).rdCb = none) (hlen : ioBufSize ≤ len) :
    ∃ s', run (step kstrtol sem) s (reading f ⟨i, acc⟩ nonblock len) = some s' ∧
      Flow kstrtol sem first s' ∧ Quiet s' ∧ s'.fw.w.vars = s.fw.w.vars ∧
      s'.k.log = s.k.log ++
        [(f, .opened 0), (f, .read (.ok (decimal v.toInt ++ [10]))), (f, .released 0)] ∧
      s'.k.files f = none ∧ ∀ g ≠ f, s'.k.files g = s.k.files g := by
  have hvar : IsVar n ⟨i, acc⟩ := by
    refine ⟨⟨k, hk⟩, ?_, ?_⟩
    · rintro rfl
      cases hv
    · rintro rfl
      cases hv
  obtain ⟨s₁, hs₁, hflow₁, hfw₁, hlog₁, hothers₁, ⟨t, hf₁⟩, m, hsent, hind, htype⟩ :
      ∃ s₁, step kstrtol sem s (.client (.openVar f ⟨i, acc⟩ true false nonblock true 0)) =
        some s₁ ∧ _ :=
    open_reading h hq hf hvar
  generalize hfile : (⟨.var ⟨i, acc⟩, true, false, nonblock, 0, t, .ready⟩ : File) = file at hf₁
  have hread : file.fModeRead = true := hfile ▸ rfl
  have hro : file.fModeWrite = false := hfile ▸ rfl
  have hready : file.phase = .ready := hfile ▸ rfl
  have hpos : file.pos = 0 := hfile ▸ rfl
  obtain ⟨s₂, hs₂, hflow₂, hq₂, hfiles₂, hlog₂, hvars₂, hvalid, herr, hcontent⟩ :=
    exchange hflow₁ hsent hf₁ (.inl hread)
  have hf₂ : s₂.k.files f = some file := (congrFun hfiles₂ f).trans hf₁
  have hquery : query n m = readQuery k acc := query_of_readType (hind ▸ hk) htype
  obtain ⟨hserve, hshow⟩ : ((regMap sem).serve s.fw.w (readQuery k acc)).1 = s.fw.w ∧ _ :=
    serve_field hv hcb
  rw [hfw₁, hquery] at hvars₂ hcontent
  obtain ⟨rep, x, hrep, hx⟩ := hcontent hro
  have hshown : (simpleReadFromBuffer len file.pos (s₂.k.transOf file).buf.bytes
      (s₂.k.transOf file).len.toUInt32.toNat 0).1 = .ok (decimal v.toInt ++ [10]) := by
    rw [hpos, hx, hshow rep x hrep]
    apply read_printText x hlen
    rw [List.length_append, List.length_singleton]
    exact (Nat.add_le_add_right (length_decimal v) 1).trans_lt (by decide)
  obtain ⟨s₃, hs₃, hflow₃, hq₃, hfw₃, hlog₃, hlink₃, ⟨pos, hf₃⟩, hothers₃⟩ :=
    read_reading hflow₂ hq₂ hf₂ hready hread hvalid herr hshown
  have hvalid₃ : (s₃.k.link.trans file.privateData).valid = true := by
    rw [hlink₃]
    exact hvalid
  obtain ⟨s₄, hs₄, hflow₄, hq₄, hfw₄, hlog₄, hf₄, hothers₄⟩ :=
    close_reading hflow₃ hq₃ hf₃ hready hro hvalid₃
  refine ⟨s₄, ?_, hflow₄, hq₄, ?_, ?_, hf₄, fun g hg => ?_⟩
  · apply run_cons_eq_some.2 ⟨s₁, hs₁, ?_⟩
    apply run_append_eq_some.2 ⟨s₂, hs₂, ?_⟩
    exact run_cons_eq_some.2 ⟨s₃, hs₃, run_cons_eq_some.2 ⟨s₄, hs₄, rfl⟩⟩
  · rw [hfw₄, hfw₃, hvars₂, hserve]
  · rw [hlog₄, hlog₃, hlog₂, hlog₁]
    simp
  · rw [hothers₄ g hg, hothers₃ g hg, hfiles₂, hothers₁ g hg]

/-! ### Writing -/

/-- A client opens the file of a value for writing, writes a text and closes the file. -/
def writing (f : FileId) (i : Int32) (nonblock : Bool) (data : List UInt8) : List Event :=
  [.client (.openVar f ⟨i, .val⟩ false true nonblock true 0), .client (.write f data none 0),
    .client (.release f 0), .serve, .deliver, .client (.releaseWoken f false)]

lemma simpleWriteToBuffer_fits {size : ℕ} (buf : Buf size) {data : List UInt8}
    (hlt : data.length < size) : (simpleWriteToBuffer buf 0 data 0).1 = .ok data.length := by
  unfold simpleWriteToBuffer
  rw [if_neg (lt_irrefl 0)]
  split
  · rename_i h0
    have hz : (0 : ℤ).toNat = 0 := rfl
    have htake : (data.take (size - (0 : ℤ).toNat)).length = data.length := by
      rw [List.take_of_length_le (by omega)]
    have hpos : ¬ (data.take (size - (0 : ℤ).toNat)).length ≤ 0 := by omega
    dsimp only
    rw [if_neg hpos, htake, Nat.sub_zero]
  · rename_i h0
    have hz : (0 : ℤ).toNat = 0 := rfl
    have hlen : data.length = 0 := by omega
    rw [hlen]

lemma open_writing {nonblock : Bool} {i : Int32} (h : Flow kstrtol sem first s) (hq : Quiet s)
    (hf : s.k.files f = none) (hvar : IsVar n ⟨i, .val⟩) :
    ∃ s', step kstrtol sem s (.client (.openVar f ⟨i, .val⟩ false true nonblock true 0)) = some s' ∧
      Flow kstrtol sem first s' ∧ Quiet s' ∧ s'.fw = s.fw ∧ s'.k.log = s.k.log ++ [(f, .opened 0)] ∧
      ∃ file, Opened f i false 0 blank s' file := by
  obtain ⟨k', hk, hlog⟩ : ∃ k',
      s.k.debugfsOpenVar kstrtol f ⟨i, .val⟩ false true nonblock true 0 = some k' ∧
      k'.log = s.k.log ++ [(f, .opened 0)] := openVar_returns
  have hstep : Kernel.Files.step kstrtol s.k (.openVar f ⟨i, .val⟩ false true nonblock true 0) =
      some k' := by
    simp [Kernel.Files.step, hf, hk]
  have hs : step kstrtol sem s (.client (.openVar f ⟨i, .val⟩ false true nonblock true 0)) = some
      { s with
        k := k'
        hist := observe kstrtol s.k k' s.hist
          (.openVar f ⟨i, .val⟩ false true nonblock true 0) } :=
    client_step hstep rfl
  have hpolite : Polite s (.client (.openVar f ⟨i, .val⟩ false true nonblock true 0)) :=
    ⟨hq.young h, rfl, hvar, fun _ => rfl, .inr rfl⟩
  obtain ⟨t, -, hu, -⟩ := openVar_writes h.sane hk
  refine ⟨_, hs, flow_openVar h hpolite hs, ⟨?_, ?_⟩, rfl, hlog, opened_openVar h hs⟩
  · exact hq.served.trans (congrArg List.length hu.wire.symm)
  · exact hq.delivered.trans (congrArg List.length hu.wire.symm)

lemma write_writing {i : Int32} {data : List UInt8} (h : Flow kstrtol sem first s) (hq : Quiet s)
    (ho : ∃ file, Opened f i false 0 blank s file) (hlt : data.length < ioBufSize) :
    ∃ s', step kstrtol sem s (.client (.write f data none 0)) = some s' ∧
      Flow kstrtol sem first s' ∧ Quiet s' ∧ s'.fw = s.fw ∧
      s'.k.log = s.k.log ++ [(f, .wrote (.ok data.length))] ∧
      ∃ pos file, Opened f i false pos (written data) s' file := by
  obtain ⟨file, hfile⟩ := ho
  have hstep : Kernel.Files.step kstrtol s.k (.write f data none 0) =
      some (s.k.debugfsWriteVar f file data none 0) := by
    simp [Kernel.Files.step, hfile.files, hfile.phase, hfile.inode, hfile.write]
  have hs : step kstrtol sem s (.client (.write f data none 0)) = some
      { s with
        k := s.k.debugfsWriteVar f file data none 0
        hist := observe kstrtol s.k (s.k.debugfsWriteVar f file data none 0) s.hist
          (.write f data none 0) } := client_step hstep rfl
  obtain ⟨hu, -⟩ := writeVar_link data none 0 hfile.files
  refine ⟨_, hs, flow_write h ⟨hq.young h, trivial⟩ hs, ⟨?_, ?_⟩, rfl, ?_,
    opened_write ⟨file, hfile⟩ hs⟩
  · exact hq.served.trans (congrArg List.length hu.wire.symm)
  · exact hq.delivered.trans (congrArg List.length hu.wire.symm)
  · show s.k.log ++ [(f, .wrote (simpleWriteToBuffer _ file.pos data 0).1)] = _
    rw [(hfile.content rfl).1, simpleWriteToBuffer_fits _ hlt]

lemma close_writing {i v : Int32} {pos : ℤ} {data : List UInt8} (h : Flow kstrtol sem first s)
    (hq : Quiet s) (ho : Opened f i false pos (written data) s file) (h0 : 0 ∉ data)
    (hlt : data.length < ioBufSize) (hv : kstrtol data = (0, v)) :
    ∃ s', step kstrtol sem s (.client (.release f 0)) = some s' ∧ Flow kstrtol sem first s' ∧
      s'.fw = s.fw ∧ s'.k.log = s.k.log ∧ s'.k.files f = some { file with phase := .closing } ∧
      ∃ m, Sent f m s' ∧ m.ind = i ∧ m.type = reqWr ∧ m.val = v := by
  obtain ⟨k', hk⟩ : ∃ k', s.k.debugfsReleaseVar kstrtol f file 0 = some k' := releaseVar_goes ho.inode
  have hstep : Kernel.Files.step kstrtol s.k (.release f 0) = some k' := by
    simp [Kernel.Files.step, ho.files, ho.phase, hk]
  have hs : step kstrtol sem s (.client (.release f 0)) = some
      { s with k := k', hist := observe kstrtol s.k k' s.hist (.release f 0) } := client_step hstep rfl
  have hpolite : Polite s (.client (.release f 0)) := by
    refine ⟨hq.young h, rfl, fun file' hf' hread => ?_⟩
    obtain rfl := Option.some.inj (ho.files.symm.trans hf')
    exact absurd (ho.read.symm.trans hread) Bool.false_ne_true
  have hx := (ho.content rfl).2
  have htext : closingText s.k file = data := by
    unfold closingText
    rw [hx]
    exact text_written_of_lt h0 hlt
  have hwrites : WritesBack kstrtol s.k file := by
    refine ⟨ho.write, by rw [hx]; rfl, i, ho.inode, .inr ?_⟩
    show (kstrtol (closingText s.k file)).1 = 0
    rw [htext, hv]
  rcases releaseVar_sends h.sane hk with ⟨hn, -⟩ | ⟨-, hlog, i', m, hi, hf, hreq, hind, hm⟩
  · exact absurd hwrites hn
  obtain rfl : i = i' := by
    have e := ho.inode.symm.trans hi
    simpa using e
  rw [hx, htext, hv] at hm
  obtain ⟨htype, hval⟩ : m.type = reqWr ∧ m.val = v := hm
  refine ⟨_, hs, flow_release h hpolite hs, rfl, hlog, hf, m, ⟨?_, ?_, ?_, ?_⟩, hind, htype, hval⟩
  · show ((observe kstrtol s.k k' s.hist (.release f 0)).record f).request = s.served
    rw [observe_release ho.files, hq.served]
    simp
  · show k'.link.wire[s.served]? = some m
    rw [hq.served]
    exact hreq.wire_last
  · show k'.link.wire.length = s.served + 1
    rw [hq.served, hreq.wire, List.length_append, List.length_singleton]
  · exact hq.delivered.trans hq.served.symm

lemma woken_writing (hf : s.k.files f = some file) (hclosing : file.phase = .closing)
    (hv : (s.k.transOf file).valid = true) (he : (s.k.transOf file).err = 0) :
    ∃ s', step kstrtol sem s (.client (.releaseWoken f false)) = some s' ∧ s'.fw = s.fw ∧
      s'.k.log = s.k.log ++ [(f, .released 0)] := by
  have hk : s.k.debugfsReleaseVarWoken f file false = some ((s.k.returnTrans file).closed f 0) := by
    simp [Driver.debugfsReleaseVarWoken, hv, he]
  have hstep : Kernel.Files.step kstrtol s.k (.releaseWoken f false) =
      some ((s.k.returnTrans file).closed f 0) := by
    simp [Kernel.Files.step, hf, hclosing, hk]
  exact ⟨_, client_step hstep rfl, rfl, rfl⟩

/-- **A client that writes the text of a number** has it stored, within the limits of the variable. -/
theorem writing_stores {nonblock : Bool} {i v : Int32} {data : List UInt8} {k : Fin n.1}
    (h : Flow kstrtol sem first s) (hq : Quiet s) (hf : s.k.files f = none)
    (hk : entry? n i = some k) (h0 : 0 ∉ data) (hlt : data.length < ioBufSize)
    (hv : kstrtol data = (0, v)) :
    ∃ s', run (step kstrtol sem) s (writing f i nonblock data) = some s' ∧
      s'.k.log = s.k.log ++ [(f, .opened 0), (f, .wrote (.ok data.length)), (f, .released 0)] ∧
      s'.fw.w.vars = (callCb sem (s.fw.w.vars k).wrCb k false (s.fw.w.vars k).wrCbData
        (setVal k (limit (s.fw.w.vars k) v) s.fw.w)).vars := by
  obtain ⟨s₁, hs₁, hflow₁, hq₁, hfw₁, hlog₁, ho₁⟩ : ∃ s₁,
      step kstrtol sem s (.client (.openVar f ⟨i, .val⟩ false true nonblock true 0)) = some s₁ ∧ _ :=
    open_writing h hq hf ⟨⟨k, hk⟩, nofun, nofun⟩
  obtain ⟨s₂, hs₂, hflow₂, hq₂, hfw₂, hlog₂, pos, file, ho₂⟩ := write_writing hflow₁ hq₁ ho₁ hlt
  obtain ⟨s₃, hs₃, hflow₃, hfw₃, hlog₃, hf₃, m, hsent, hind, htype, hval⟩ :=
    close_writing hflow₂ hq₂ ho₂ h0 hlt hv
  obtain ⟨s₄, hs₄, -, -, hfiles₄, hlog₄, hvars₄, hvalid, herr, -⟩ :=
    exchange hflow₃ hsent hf₃ (.inr rfl)
  have hf₄ := (congrFun hfiles₄ f).trans hf₃
  obtain ⟨s₅, hs₅, hfw₅, hlog₅⟩ :
      ∃ s₅, step kstrtol sem s₄ (.client (.releaseWoken f false)) = some s₅ ∧ _ :=
    woken_writing hf₄ rfl hvalid herr
  refine ⟨s₅, ?_, ?_, ?_⟩
  · apply run_cons_eq_some.2 ⟨s₁, hs₁, ?_⟩
    apply run_cons_eq_some.2 ⟨s₂, hs₂, ?_⟩
    apply run_cons_eq_some.2 ⟨s₃, hs₃, ?_⟩
    apply run_append_eq_some.2 ⟨s₄, hs₄, ?_⟩
    exact run_cons_eq_some.2 ⟨s₅, hs₅, rfl⟩
  · rw [hlog₅, hlog₄, hlog₃, hlog₂, hlog₁]
    simp
  · rw [hfw₅, hvars₄, query_of_write htype (hind ▸ hk), serve_write, hval, hfw₃, hfw₂, hfw₁]

end Steps

/-! ### There and back -/

/-- Every value is within its limits, and no variable has a callback. -/
def Plain {n : VarCount} {κ δ : Type} (vars : Table n κ δ) : Prop :=
  ∀ k, (vars k).min ≤ (vars k).val ∧ (vars k).val ≤ (vars k).max ∧
    (vars k).rdCb = none ∧ (vars k).wrCb = none

lemma limit_of_mem {κ δ : Type} {v : CfgVar κ δ} {val : Int32} (h1 : v.min ≤ val) (h2 : val ≤ v.max) :
    limit v val = val := by
  rw [limit_eq_limitTo, limitTo_of_mem, Int32.ofInt_toInt]
  · exact Int32.le_iff_toInt_le.1 h1
  · exact Int32.le_iff_toInt_le.1 h2

lemma limit_field {κ δ : Type} {var : CfgVar κ δ} {acc : Access} {v : Int32}
    (h1 : var.min ≤ var.val) (h2 : var.val ≤ var.max) (hv : field var acc = some v) :
    limit var v = v := by
  have h3 : var.min ≤ var.max := Int32.le_trans h1 h2
  cases acc with
  | val =>
    obtain rfl := Option.some.inj hv
    exact limit_of_mem h1 h2
  | min =>
    obtain rfl := Option.some.inj hv
    exact limit_of_mem (Int32.le_refl _) h3
  | max =>
    obtain rfl := Option.some.inj hv
    exact limit_of_mem h3 (Int32.le_refl _)
  | _ => cases hv

/-- **Reading a number and writing it back**, for every table, every variable and every file that shows
a number: all calls succeed, and afterwards the value is the number that was read, so that writing back
the value itself changes nothing. -/
theorem write_back {n : VarCount} {κ δ ε ω : Type} {sem : CbSem n κ δ ε ω} {idle : Idle}
    {fw : Cfg n κ δ ε ω} {f g : FileId} {nonblock nonblock' : Bool} {len : ℕ} {i v : Int32}
    {acc : Access} {k : Fin n.1} (hplain : Plain fw.w.vars) (hk : entry? n i = some k)
    (hv : field (fw.w.vars k) acc = some v) (hlen : ioBufSize ≤ len) :
    ∃ text s₁ s₂,
      run (step kstrtol sem) (start idle fw) (reading f ⟨i, acc⟩ nonblock len) = some s₁ ∧
      s₁.k.log = idle.k.log ++ [(f, .opened 0), (f, .read (.ok text)), (f, .released 0)] ∧
      s₁.fw.w.vars = fw.w.vars ∧
      run (step kstrtol sem) s₁ (writing g i nonblock' text) = some s₂ ∧
      s₂.k.log = s₁.k.log ++ [(g, .opened 0), (g, .wrote (.ok text.length)), (g, .released 0)] ∧
      s₂.fw.w.vars = Function.update fw.w.vars k { fw.w.vars k with val := v } ∧
      (acc = .val → s₂.fw.w.vars = fw.w.vars) := by
  obtain ⟨hmin, hmax, hrd, hwr⟩ := hplain k
  have hquiet : Quiet (start idle fw) := by
    constructor
    · exact (congrArg List.length idle.wire).symm
    · exact (congrArg List.length idle.wire).symm
  have hflow : Flow kstrtol sem idle.k.link.drawn (start idle fw) := flow_start idle fw
  obtain ⟨s₁, hr₁, hflow₁, hq₁, hvars₁, hlog₁, hf₁, hothers₁⟩ : ∃ s₁,
      run (step kstrtol sem) (start idle fw) (reading f ⟨i, acc⟩ nonblock len) = some s₁ ∧ _ :=
    reading_shows hflow hquiet (idle.files f) hk hv hrd hlen
  have hsame : s₁.fw.w.vars = fw.w.vars := hvars₁
  have hg : s₁.k.files g = none := by
    by_cases hgf : g = f
    · exact hgf ▸ hf₁
    · exact (hothers₁ g hgf).trans (idle.files g)
  have h0 : 0 ∉ decimal v.toInt ++ [10] := by
    rw [List.mem_append, not_or]
    exact ⟨zero_notMem_decimal _, by decide⟩
  have hlt : (decimal v.toInt ++ [10]).length < ioBufSize := by
    rw [List.length_append, List.length_singleton]
    exact (Nat.add_le_add_right (length_decimal v) 1).trans_lt (by decide)
  obtain ⟨s₂, hr₂, hlog₂, hvars₂⟩ : ∃ s₂,
      run (step kstrtol sem) s₁ (writing g i nonblock' (decimal v.toInt ++ [10])) = some s₂ ∧ _ :=
    writing_stores hflow₁ hq₁ hg hk h0 hlt (kstrtol_decimal v)
  have hstored : s₂.fw.w.vars = Function.update fw.w.vars k { fw.w.vars k with val := v } := by
    rw [hvars₂, hsame, limit_field hmin hmax hv, hwr]
    show Function.update s₁.fw.w.vars k { s₁.fw.w.vars k with val := v } = _
    rw [hsame]
  refine ⟨_, s₁, s₂, hr₁, hlog₁, hvars₁, hr₂, hlog₂, hstored, ?_⟩
  rintro rfl
  obtain rfl := Option.some.inj hv
  rw [hstored, Function.update_eq_self]

/-- The upper limit 1000 of the variable `speed` becomes its value. -/
theorem speed_to_max : ∃ text s₁ s₂,
    run (step kstrtol noCbs) (start .probed speedFw) (reading 0 ⟨0, .max⟩ false 4096) = some s₁ ∧
    s₁.k.log = [(0, .opened 0), (0, .read (.ok text)), (0, .released 0)] ∧
    run (step kstrtol noCbs) s₁ (writing 0 0 false text) = some s₂ ∧
    (s₂.fw.w.vars 0).val = 1000 := by
  have hplain : Plain speedFw.w.vars := by
    intro k
    have hle : speed.val ≤ speed.max := by decide
    exact ⟨Int32.le_refl _, hle, rfl, rfl⟩
  have hentry : entry? ⟨1, one_lt_limit⟩ 0 = some 0 := rfl
  have hmax : field (speedFw.w.vars 0) .max = some 1000 := rfl
  have h : ∃ text s₁ s₂,
      run (step kstrtol noCbs) (start .probed speedFw) (reading 0 ⟨0, .max⟩ false 4096) = some s₁ ∧
      _ ∧ _ ∧ run (step kstrtol noCbs) s₁ (writing 0 0 false text) = some s₂ ∧ _ :=
    write_back hplain hentry hmax (by decide)
  obtain ⟨text, s₁, s₂, hr₁, hlog₁, -, hr₂, -, hvars, -⟩ := h
  refine ⟨text, s₁, s₂, hr₁, hlog₁, hr₂, ?_⟩
  rw [hvars, Function.update_self]

end CfgMgmt.System.RoundTrip
