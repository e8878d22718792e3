import CfgMgmt.System.Flow

/-!
# Writing a variable

A client opens the file of a value for writing, or for reading and writing, writes a text and closes the
file.  When the close returns 0, the value was written if and only if the file was not opened for reading
(`close_writes_iff`).
-/

namespace CfgMgmt.System

open CfgMgmt.Lib CfgMgmt.Lib.Bytes CfgMgmt.Lib.Machine CfgMgmt.Msg CfgMgmt.Firmware.Config
open CfgMgmt.Firmware.RegisterMap CfgMgmt.Firmware.ConfigRefinement
open CfgMgmt.Kernel.Linux CfgMgmt.Kernel.RpmsgLink CfgMgmt.Kernel.Files CfgMgmt.Kernel.Structs
open CfgMgmt.Kernel.Calls CfgMgmt.Kernel.Sessions

variable {n : VarCount} {κ δ ε ω : Type} {kstrtol : List UInt8 → Int32 × Int32}
  {sem : CbSem n κ δ ε ω} {first : ℕ} {s s' : Sys n κ δ ε ω} {f : FileId} {file : File} {e : Event}

/-! ### What others do to a file -/

/-- The event is no call on the file, but for a call of `read`. -/
def Apart (f : FileId) : Event → Prop
  | .client (.read ..) => True
  | .client e => fileOf e ≠ some f
  | _ => True

/-- An event apart from a file leaves it open, and leaves its struct alone unless it is pending. -/
lemma step_apart (h : Flow kstrtol sem first s) (hp : Polite s e) (ha : Apart f e)
    (hs : step kstrtol sem s e = some s') (hf : s.k.files f = some file) :
    ∃ pos, s'.k.files f = some { file with pos } ∧ (file.fModeRead = false → pos = file.pos) ∧
      s'.hist.record f = s.hist.record f ∧
      (file.privateData ∉ s.k.link.pendingList →
        s'.k.link.trans file.privateData = s.k.link.trans file.privateData) := by
  cases e with
  | serve =>
    obtain ⟨hk, -, -, hhist⟩ := serve_keeps hs
    rw [hk, hhist]
    exact ⟨file.pos, hf, fun _ => rfl, rfl, fun _ => rfl⟩
  | deliver =>
    obtain ⟨rep, -, t, ht, -, rfl⟩ := deliver_spec h hp.1 hs
    refine ⟨file.pos, hf, fun _ => rfl, rfl, fun hnp => Function.update_of_ne ?_ ..⟩
    rintro rfl
    exact hnp ht
  | client e =>
    obtain ⟨k', hk, rfl⟩ := step_client hs
    obtain ⟨g, hg, hacts⟩ := acts_client h hp hk
    by_cases hgf : f = g
    · subst hgf
      cases e with
      | read f =>
        obtain rfl := Option.some.inj hg
        obtain ⟨file', hf', -, hread, -, hl, ⟨pos, hpos⟩, hlog⟩ := read_spec h hp hk
        obtain rfl := Option.some.inj (hf.symm.trans hf')
        refine ⟨pos, hpos, fun hr => absurd (hr.symm.trans hread) Bool.false_ne_true, ?_, fun _ => ?_⟩
        · rw [observe_read hf hlog]
        · exact congrArg (·.trans file.privateData) hl
      | _ => exact absurd hg ha
    · exact ⟨file.pos, (hacts.files f hgf).trans hf, fun _ => rfl,
        (recorded_observe hg).record f hgf, fun _ => hacts.trans f hgf file hf⟩

lemma step_apart_closed (h : Flow kstrtol sem first s) (hp : Polite s e) (ha : Apart f e)
    (hs : step kstrtol sem s e = some s') (hf : s.k.files f = none) : s'.k.files f = none := by
  cases e with
  | serve =>
    rw [(serve_keeps hs).1]
    exact hf
  | deliver =>
    obtain ⟨rep, -, t, ht, -, rfl⟩ := deliver_spec h hp.1 hs
    exact hf
  | client e =>
    obtain ⟨k', hk, rfl⟩ := step_client hs
    obtain ⟨g, hg, hacts⟩ := acts_client h hp hk
    by_cases hgf : f = g
    · subst hgf
      cases e with
      | read f =>
        obtain rfl := Option.some.inj hg
        obtain ⟨file, hf', -⟩ := read_spec h hp hk
        exact absurd (hf.symm.trans hf') (Option.some_ne_none _).symm
      | _ => exact absurd hg ha
    · exact (hacts.files f hgf).trans hf

/-! ### The text -/

/-- The file of the value of `i` is open for writing.  If it is not open for reading, then it is at the
position `pos` and its struct holds `x`. -/
structure Opened (f : FileId) (i : Int32) (fModeRead : Bool) (pos : ℤ) (x : Transaction)
    (s : Sys n κ δ ε ω) (file : File) : Prop where
  files : s.k.files f = some file
  inode : file.inode = .var ⟨i, .val⟩
  read : file.fModeRead = fModeRead
  write : file.fModeWrite = true
  phase : file.phase = .ready
  content : fModeRead = false → file.pos = pos ∧ s.k.transOf file = x

section Text

variable {i : Int32} {fModeRead : Bool} {pos : ℤ} {x : Transaction}

lemma opened_step (h : Flow kstrtol sem first s) (hp : Polite s e) (ha : Apart f e)
    (hs : step kstrtol sem s e = some s') (ho : ∃ file, Opened f i fModeRead pos x s file) :
    ∃ file, Opened f i fModeRead pos x s' file := by
  obtain ⟨file, ho⟩ := ho
  obtain ⟨pos', hf, hpos, -, hx⟩ := step_apart h hp ha hs ho.files
  refine ⟨_, hf, ho.inode, ho.read, ho.write, ho.phase, fun hr => ?_⟩
  have hread := ho.read.trans hr
  obtain ⟨hpos', hx'⟩ := ho.content hr
  refine ⟨(hpos hread).trans hpos', ?_⟩
  exact (hx ((h.files f file ho.files).idle hread ho.phase).1).trans hx'

lemma opened_run {es : List Event} (h : Flow kstrtol sem first s)
    (hp : Steps (step kstrtol sem) Polite s es) (ha : ∀ e ∈ es, Apart f e)
    (hr : run (step kstrtol sem) s es = some s') (ho : ∃ file, Opened f i fModeRead pos x s file) :
    Flow kstrtol sem first s' ∧ ∃ file, Opened f i fModeRead pos x s' file := by
  refine run_invariant_of_steps
    (P := fun s => Flow kstrtol sem first s ∧ ∃ file, Opened f i fModeRead pos x s file)
    (fun s e s' hs hok hstep => ?_) ⟨h, ho⟩ (hp.and_forall ha) hr
  obtain ⟨h, ho⟩ := hs
  obtain ⟨hpe, hae⟩ := hok
  exact ⟨flow_step h hpe hstep, opened_step h hpe hae hstep ho⟩

/-- The struct of a file that was opened for writing only. -/
def blank : Transaction := { Transaction.zero with rnw := false, valid := true }

/-- The struct after the text `data` was written to the file. -/
def written (data : List UInt8) : Transaction :=
  { blank with dirty := true, buf := (simpleWriteToBuffer blank.buf 0 data 0).2.2 }

lemma opened_openVar {nonblock mem : Bool} (h : Flow kstrtol sem first s)
    (hs : step kstrtol sem s (.client (.openVar f ⟨i, .val⟩ fModeRead true nonblock mem 0)) = some s') :
    ∃ file, Opened f i fModeRead 0 blank s' file := by
  obtain ⟨k', hk, rfl⟩ := step_client hs
  obtain ⟨-, hk⟩ := Option.ite_none_left_eq_some.1 hk
  cases fModeRead with
  | true =>
    obtain ⟨t, x, m, hf, -⟩ := openVar_reads h.sane (fun he => Access.noConfusion he) hk
    exact ⟨_, hf, rfl, rfl, rfl, rfl, fun hr => absurd hr.symm Bool.false_ne_true⟩
  | false =>
    obtain ⟨t, hf, -, -, hx⟩ := openVar_writes h.sane hk
    exact ⟨_, hf, rfl, rfl, rfl, rfl, fun _ => ⟨rfl, hx⟩⟩

lemma opened_write {data : List UInt8} (ho : ∃ file, Opened f i fModeRead 0 blank s file)
    (hs : step kstrtol sem s (.client (.write f data none 0)) = some s') :
    ∃ pos file, Opened f i fModeRead pos (written data) s' file := by
  obtain ⟨file, ho⟩ := ho
  obtain ⟨k', hk, rfl⟩ := step_client hs
  replace hk := leads_of_step hk
  cases hk with
  | write file' hf' hready hwrite hk =>
    subst hk
    obtain rfl := Option.some.inj (ho.files.symm.trans hf')
    obtain ⟨-, ⟨pos, hf⟩, hx⟩ := writeVar_link data none 0 ho.files
    refine ⟨pos, _, hf, ho.inode, ho.read, ho.write, ho.phase, fun hr => ⟨rfl, ?_⟩⟩
    obtain ⟨hpos, hb⟩ := ho.content hr
    have hb' : s.k.link.trans file.privateData = blank := hb
    refine hx.trans ?_
    rw [hb', hb, Option.getD_none, hpos]
    rfl

lemma bytes_written (data : List UInt8) : (written data).buf.bytes =
    data.take ioBufSize ++ List.replicate (ioBufSize - data.length) 0 := by
  unfold written simpleWriteToBuffer
  rw [if_neg (lt_irrefl 0)]
  split
  · rename_i hd
    have hlen : ioBufSize - min ioBufSize data.length = ioBufSize - data.length := by omega
    dsimp only
    split <;> simp [Buf.write, blank, Transaction.zero, Buf.zero, hlen]
  · rename_i hd
    obtain rfl : data = [] := by simpa using hd
    rfl

/-- A text that leaves room for the terminating 0 is handed to `kstrtol` unchanged. -/
lemma text_written_of_lt {data : List UInt8} (h0 : 0 ∉ data) (hlt : data.length < ioBufSize) :
    Link.text { written data with valid := false } = data := by
  have htext : Link.text { written data with valid := false } =
      cstr ((written data).buf.bytes ++ [1, 0, 0]) := rfl
  obtain ⟨m, hm⟩ := Nat.exists_eq_succ_of_ne_zero (Nat.sub_ne_zero_of_lt hlt)
  rw [htext, bytes_written, List.take_of_length_le hlt.le, hm, List.replicate_succ, List.append_assoc,
    List.cons_append]
  exact cstr_append_zero h0 _

/-- A text that fills the buffer goes on behind it, with a byte that no number has. -/
lemma one_mem_text_written {data : List UInt8} (h0 : 0 ∉ data.take ioBufSize)
    (hge : ioBufSize ≤ data.length) : 1 ∈ Link.text { written data with valid := false } := by
  have htext : Link.text { written data with valid := false } =
      cstr ((written data).buf.bytes ++ [1, 0, 0]) := rfl
  have h0' : 0 ∉ data.take ioBufSize ++ [1] := by
    simpa using h0
  rw [htext, bytes_written, Nat.sub_eq_zero_of_le hge, List.replicate_zero, List.append_nil,
    List.append_cons, cstr_append_zero h0']
  exact List.mem_append_right _ List.mem_cons_self

/-- **The text that closing the file hands to `kstrtol`** is the text that was written, or it has a byte
that no number has. -/
lemma text_written {data : List UInt8} (h0 : 0 ∉ data) :
    Link.text { written data with valid := false } = data ∨
      1 ∈ Link.text { written data with valid := false } := by
  rcases Nat.lt_or_ge data.length ioBufSize with hlt | hge
  · exact .inl (text_written_of_lt h0 hlt)
  · exact .inr (one_mem_text_written (fun hm => h0 (List.mem_of_mem_take hm)) hge)

/-- Of bytes with a 0 among them the string in front of it is handed to `kstrtol`, if it fits. -/
lemma text_written_cstr (data : List UInt8) :
    ((cstr data).length < ioBufSize ∧ Link.text { written data with valid := false } = cstr data) ∨
      (ioBufSize ≤ (cstr data).length ∧ 1 ∈ Link.text { written data with valid := false }) := by
  have h0 := zero_notMem_cstr data
  rcases eq_cstr_append data with h | ⟨rest, h⟩
  · rcases Nat.lt_or_ge (cstr data).length ioBufSize with hlt | hge
    · refine .inl ⟨hlt, ?_⟩
      rw [← h] at h0 hlt ⊢
      exact text_written_of_lt h0 hlt
    · refine .inr ⟨hge, ?_⟩
      rw [← h] at h0 hge
      exact one_mem_text_written (fun hm => h0 (List.mem_of_mem_take hm)) hge
  · rcases Nat.lt_or_ge (cstr data).length ioBufSize with hlt | hge
    · refine .inl ⟨hlt, ?_⟩
      have htext : Link.text { written data with valid := false } =
          cstr ((written data).buf.bytes ++ [1, 0, 0]) := rfl
      obtain ⟨m, hm⟩ := Nat.exists_eq_succ_of_ne_zero (Nat.sub_ne_zero_of_lt hlt)
      have htake : data.take ioBufSize = cstr data ++ 0 :: rest.take m := by
        rw [congrArg (List.take ioBufSize) h, List.take_append, List.take_of_length_le hlt.le, hm,
          List.take_succ_cons]
      rw [htext, bytes_written, htake, List.append_assoc, List.append_assoc, List.cons_append]
      exact cstr_append_zero h0 _
    · have htake : data.take ioBufSize = (cstr data).take ioBufSize := by
        rw [congrArg (List.take ioBufSize) h, List.take_append_of_le_length hge]
      have hlen : (cstr data).length ≤ data.length := (List.takeWhile_prefix _).length_le
      refine .inr ⟨hge, one_mem_text_written ?_ (hge.trans hlen)⟩
      rw [htake]
      exact fun hm => h0 (List.mem_of_mem_take hm)

end Text

/-! ### The value -/

/-- The value and the limits of an entry. -/
def cell (w : World n κ δ ε ω) (j : Fin n.1) : Int32 × Int32 × Int32 :=
  ((w.vars j).val, (w.vars j).min, (w.vars j).max)

lemma limit_eq_of_cell {w w' : World n κ δ ε ω} {j : Fin n.1} (h : cell w' j = cell w j)
    (val : Int32) : limit (w'.vars j) val = limit (w.vars j) val := by
  obtain ⟨-, hmin, hmax⟩ : _ ∧ _ ∧ _ := by simpa [cell] using h
  unfold limit
  rw [hmin, hmax]

lemma limit_setVal (w : World n κ δ ε ω) (k : Fin n.1) (val x : Int32) :
    limit ((setVal k val w).vars k) x = limit (w.vars k) x := by
  rw [setVal_vars_self]
  rfl

/-- The requests from `q` on that are served leave the value and the limits of the variable `i` as they
are, but for a write request at `q`: nothing else is written to `i`, and no callback changes `i`. -/
def Undisturbed (sem : CbSem n κ δ ε ω) (i : Int32) (q : ℕ) (s : Sys n κ δ ε ω) : Event → Prop
  | .serve => q ≤ s.served → ∀ m j, s.k.link.wire[s.served]? = some m → entry? n i = some j →
    match query n m with
    | .write k _ => (k = j → s.served = q) ∧
      let w := setVal k (limit (s.fw.w.vars k) m.val) s.fw.w
      cell (callCb sem (s.fw.w.vars k).wrCb k false (s.fw.w.vars k).wrCbData w) j = cell w j
    | .read k =>
      cell (callCb sem (s.fw.w.vars k).rdCb k true (s.fw.w.vars k).rdCbData s.fw.w) j = cell s.fw.w j
    | _ => True
  | _ => True

/-- A request for the index `i` to write `v` was sent after the first `q` requests, and was answered,
and the table holds the limited `v` at the index `i`. -/
def Written (q : ℕ) (i v : Int32) (s : Sys n κ δ ε ω) : Prop :=
  (∃ j m, q ≤ j ∧ s.k.link.wire[j]? = some m ∧ m.type = reqWr ∧ m.ind = i ∧ m.val = v ∧
    j < s.delivered) ∧
  ∃ k, entry? n i = some k ∧ (s.fw.w.vars k).val = limit (s.fw.w.vars k) v

section Value

variable {i : Int32} {q : ℕ} {m : CfgMsg} {j : Fin n.1}

lemma cell_serve (hq : q ≤ s.served) (hi : entry? n i = some j)
    (hu : Undisturbed sem i q s .serve) (hm : s.k.link.wire[s.served]? = some m)
    (hs : step kstrtol sem s .serve = some s') :
    if m.type = reqWr ∧ m.ind = i then
      s.served = q ∧ cell s'.fw.w j = cell (setVal j (limit (s.fw.w.vars j) m.val) s.fw.w) j
    else cell s'.fw.w j = cell s.fw.w j := by
  obtain ⟨rep, -, -, hvars, -⟩ := serve_spec hm hs
  have hcell : cell s'.fw.w j = cell ((regMap sem).serve s.fw.w (query n m)).1 j := by
    unfold cell
    rw [hvars]
  have hu := hu hq m j hm hi
  rw [hcell]
  split
  · rename_i hw
    have hqw := query_of_write hw.1 (hw.2.symm ▸ hi)
    rw [hqw] at hu ⊢
    rw [serve_write]
    exact ⟨hu.1 rfl, hu.2⟩
  · rename_i hw
    cases hqm : query n m with
    | write k v =>
      obtain ⟨ht, hk, rfl⟩ := query_eq_write hqm
      rw [hqm] at hu
      have hkj : j ≠ k := by
        rintro rfl
        refine hw ⟨ht, Int32.toInt_inj.1 ?_⟩
        rw [entry?_eq_some.1 hk, entry?_eq_some.1 hi]
      rw [serve_write]
      refine hu.2.trans ?_
      unfold cell
      rw [setVal_vars_of_ne hkj]
    | read k =>
      rw [hqm] at hu
      exact hu
    | _ => rfl

/-- The close of `f` waits for the reply to its request `m`, which is the request `q`. -/
structure Closing (kstrtol : List UInt8 → Int32 × Int32) (sem : CbSem n κ δ ε ω) (first : ℕ)
    (f : FileId) (i : Int32) (q : ℕ) (m : CfgMsg) (s : Sys n κ δ ε ω) : Prop where
  flow : Flow kstrtol sem first s
  file : ∃ file, s.k.files f = some file ∧ file.phase = .closing
  request : (s.hist.record f).request = q
  wire : s.k.link.wire[q]? = some m
  only : ∀ p m', q ≤ p → p < s.served → s.k.link.wire[p]? = some m' → m'.type = reqWr → m'.ind = i →
    p = q
  held : m.type = reqWr → m.ind = i → q < s.served → ∀ j, entry? n i = some j →
    (s.fw.w.vars j).val = limit (s.fw.w.vars j) m.val

lemma closing_step (h : Closing kstrtol sem first f i q m s) (hp : Polite s e)
    (hu : Undisturbed sem i q s e) (ha : Apart f e) (hs : step kstrtol sem s e = some s') :
    Closing kstrtol sem first f i q m s' := by
  obtain ⟨file, hf, hphase⟩ := h.file
  obtain ⟨pos, hf', -, hrec, -⟩ := step_apart h.flow hp ha hs hf
  have hwire := wire_step h.flow hp hs
  have hserved := h.flow.served_le
  have hsame : ∀ p < s.served, s'.k.link.wire[p]? = s.k.link.wire[p]? := by
    intro p hp
    obtain ⟨l, hl⟩ := hwire
    rw [← hl, List.getElem?_append_left (hp.trans_le hserved)]
  refine ⟨flow_step h.flow hp hs, ⟨_, hf', hphase⟩, hrec ▸ h.request,
    getElem?_of_isPrefix hwire h.wire, fun p m' hqp hlt hm' ht hi => ?_, fun ht hi hq j hj => ?_⟩
  · obtain ⟨rfl, hk, hs', -⟩ | ⟨hs', -⟩ := firmware_step hs
    · rw [hs'] at hlt
      rw [hk] at hm'
      rcases Nat.lt_succ_iff_lt_or_eq.1 hlt with hlt | rfl
      · exact h.only p m' hqp hlt hm' ht hi
      · obtain ⟨j, hj⟩ := ((h.flow.request _ _ hm').2).1
        have hc := cell_serve hqp (hi ▸ hj) hu hm' hs
        rw [if_pos ⟨ht, hi⟩] at hc
        exact hc.1
    · rw [hs'] at hlt
      exact h.only p m' hqp hlt (hsame p hlt ▸ hm') ht hi
  · obtain ⟨rfl, hk, hs', -⟩ | ⟨hs', hfw⟩ := firmware_step hs
    · obtain ⟨m₁, hm₁, -⟩ := Option.bind_eq_some_iff.1 hs
      rw [hs'] at hq
      have hc := cell_serve (Nat.lt_succ_iff.1 hq) hj hu hm₁ hs
      rcases Nat.lt_succ_iff_lt_or_eq.1 hq with hq | rfl
      · split at hc
        · exact absurd hc.1 hq.ne'
        · have hval : (s'.fw.w.vars j).val = (s.fw.w.vars j).val := congrArg Prod.fst hc
          rw [hval, limit_eq_of_cell hc]
          exact h.held ht hi hq j hj
      · obtain rfl := Option.some.inj (h.wire.symm.trans hm₁)
        rw [if_pos ⟨ht, hi⟩] at hc
        have hval := congrArg Prod.fst hc.2
        rw [limit_eq_of_cell hc.2, limit_setVal]
        refine hval.trans ?_
        show ((setVal _ _ _).vars j).val = _
        rw [setVal_vars_self]
    · rw [hs'] at hq
      rw [hfw]
      exact h.held ht hi hq j hj

lemma closing_run {es : List Event} (h : Closing kstrtol sem first f i q m s)
    (hp : Steps (step kstrtol sem) (fun s e => Polite s e ∧ Undisturbed sem i q s e) s es)
    (ha : ∀ e ∈ es, Apart f e) (hr : run (step kstrtol sem) s es = some s') :
    Closing kstrtol sem first f i q m s' := by
  refine run_invariant_of_steps (fun s e s' hc hok hstep => ?_) h (hp.and_forall ha) hr
  obtain ⟨⟨hpe, hue⟩, hae⟩ := hok
  exact closing_step hc hpe hue hae hstep

end Value

/-! ### The close -/

/-- A client opens the file of the value of `i` for writing, or for reading and writing, and writes the
text `data` to it, while other things happen. -/
def session (f : FileId) (i : Int32) (fModeRead nonblock mem : Bool) (data : List UInt8)
    (es₁ es₂ : List Event) : List Event :=
  .client (.openVar f ⟨i, .val⟩ fModeRead true nonblock mem 0) ::
    (es₁ ++ .client (.write f data none 0) :: es₂)

/-- `debugfs_release_var` is called for the file `f` in the state `s`, and the events `es` follow before
the step in which it returns 0: it returns at once, or after a wait. -/
def ReturnsZero (kstrtol : List UInt8 → Int32 × Int32) (sem : CbSem n κ δ ε ω) (f : FileId)
    (s : Sys n κ δ ε ω) (es : List Event) (s' : Sys n κ δ ε ω) : Prop :=
  ∃ t last, run (step kstrtol sem) s es = some t ∧ step kstrtol sem t last = some s' ∧
    s'.k.log = t.k.log ++ [(f, .released 0)] ∧
    (es = [] ∧ last = .client (.release f 0) ∨
      ∃ es', es = .client (.release f 0) :: es' ∧ last = .client (.releaseWoken f false) ∧
        ∀ e ∈ es', Apart f e)

section Close

variable {i v : Int32} {fModeRead nonblock mem : Bool} {data : List UInt8} {es es₀ es₁ es₂ : List Event}

lemma session_spec (h : Flow kstrtol sem first s)
    (hp : Steps (step kstrtol sem) Polite s (session f i fModeRead nonblock mem data es₁ es₂))
    (hr : run (step kstrtol sem) s (session f i fModeRead nonblock mem data es₁ es₂) = some s')
    (h₁ : ∀ e ∈ es₁, Apart f e) (h₂ : ∀ e ∈ es₂, Apart f e) :
    Flow kstrtol sem first s' ∧ ∃ pos file, Opened f i fModeRead pos (written data) s' file := by
  obtain ⟨a, ha, hr⟩ := run_cons_eq_some.1 hr
  obtain ⟨hpa, hp⟩ := (steps_cons ha).1 hp
  obtain ⟨b, hb, hr⟩ := run_append_eq_some.1 hr
  obtain ⟨hpb, hp⟩ := steps_append.1 hp
  obtain ⟨c, hc, hr⟩ := run_cons_eq_some.1 hr
  obtain ⟨hpc, hp⟩ := (steps_cons hc).1 (hp b hb)
  obtain ⟨hfb, hob⟩ := opened_run (flow_step h hpa ha) hpb h₁ hb (opened_openVar h ha)
  obtain ⟨pos, hoc⟩ := opened_write hob hc
  obtain ⟨hf, ho⟩ := opened_run (flow_step hfb hpc hc) hp h₂ hr hoc
  exact ⟨hf, pos, ho⟩

/-- A call of `debugfs_release_var` for a file with a new text does not return 0 at once, unless the file
is open for reading; and then nothing is written. -/
lemma not_written_at_once {pos : ℤ} (h : Flow kstrtol sem first s)
    (ho : Opened f i fModeRead pos (written data) s file)
    (hs : step kstrtol sem s (.client (.release f 0)) = some s')
    (hlog : s'.k.log = s.k.log ++ [(f, .released 0)]) :
    fModeRead = true ∧ ¬ Written s.k.link.wire.length i v s' := by
  obtain ⟨k', hk, rfl⟩ := step_client hs
  obtain ⟨file', hf', hk⟩ := Option.bind_eq_some_iff.1 hk
  obtain rfl := Option.some.inj (ho.files.symm.trans hf')
  rw [ho.phase] at hk
  rcases releaseVar_sends h.sane hk with ⟨-, hu, -, ret, hlog', hret⟩ | ⟨-, hlog', -⟩
  · constructor
    · by_contra hread
      have hx := (ho.content (by simpa using hread)).2
      refine hret ho.write (by rw [hx]; rfl) ?_
      have he := hlog'.symm.trans hlog
      simpa using he
    · rintro ⟨⟨j, m, hq, hm, -⟩, -⟩
      have hlt := (List.getElem?_eq_some_iff.1 hm).1
      have hlt' : j < s.k.link.wire.length := hu.wire ▸ hlt
      omega
  · rw [hlog'] at hlog
    simp at hlog

/-- After the call of `debugfs_release_var` the close waits for the reply to its request, or the file is
closed. -/
lemma closing_release {pos : ℤ} (h : Flow kstrtol sem first s) (hp : Polite s (.client (.release f 0)))
    (ho : Opened f i fModeRead pos (written data) s file)
    (hs : step kstrtol sem s (.client (.release f 0)) = some s') :
    s'.k.files f = none ∨ ∃ m, Closing kstrtol sem first f i s.k.link.wire.length m s' ∧
      if fModeRead then m.type = reqRd
      else m.type = reqWr ∧ m.ind = i ∧
        (kstrtol (Link.text { written data with valid := false })).1 = 0 ∧
        m.val = (kstrtol (Link.text { written data with valid := false })).2 := by
  have hflow := flow_step h hp hs
  obtain ⟨k', hk, rfl⟩ := step_client hs
  obtain ⟨file', hf', hk⟩ := Option.bind_eq_some_iff.1 hk
  obtain rfl := Option.some.inj (ho.files.symm.trans hf')
  rw [ho.phase] at hk
  rcases releaseVar_sends h.sane hk with ⟨-, -, hnone, -⟩ | ⟨hw, -, i', m, hi, hf, hreq, hind, hm⟩
  · exact .inl hnone
  · right
    obtain rfl : i = i' := by
      have e := ho.inode.symm.trans hi
      simpa using e
    have hserved := h.served_le
    refine ⟨m, ⟨hflow, ⟨_, hf, rfl⟩, ?_, hreq.wire_last, fun p m' hqp hlt => ?_, fun _ _ hlt => ?_⟩, ?_⟩
    · show ((observe kstrtol s.k k' s.hist (.release f 0)).record f).request = _
      rw [observe_release ho.files]
      simp
    · exact absurd (hlt.trans_le hserved) (not_lt.2 hqp)
    · exact absurd (hlt.trans_le hserved) (lt_irrefl _)
    · have hrnw : (s.k.transOf file).rnw = fModeRead := (h.files f file ho.files).rnw.trans ho.read
      rw [hrnw] at hm
      cases fModeRead with
      | true => exact hm
      | false =>
        have hx := (ho.content rfl).2
        unfold closingText at hm
        obtain ⟨-, -, _, -, hk0⟩ := hw
        rw [hx] at hk0 hm
        exact ⟨hm.1, hind, hk0.resolve_left Bool.false_ne_true, hm.2⟩

lemma closed_run (h : Flow kstrtol sem first s) (hp : Steps (step kstrtol sem) Polite s es)
    (ha : ∀ e ∈ es, Apart f e) (hr : run (step kstrtol sem) s es = some s')
    (hf : s.k.files f = none) : s'.k.files f = none := by
  refine (run_invariant_of_steps (P := fun s => Flow kstrtol sem first s ∧ s.k.files f = none)
    (fun s e s' hs hok hstep => ?_) ⟨h, hf⟩ (hp.and_forall ha) hr).2
  obtain ⟨h, hf⟩ := hs
  obtain ⟨hpe, hae⟩ := hok
  exact ⟨flow_step h hpe hstep, step_apart_closed h hpe hae hstep hf⟩

/-- **Closing a file after writing to it**, while nothing else changes the variable: the close that
returns 0 has written the value if and only if the file is not open for reading.  In the other case
the close has read the variable once more.  `kstrtol` refuses a text with a byte 1. -/
theorem close_writes_iff {idle : Idle} {fw : Cfg n κ δ ε ω}
    (hk : ∀ text, 1 ∈ text → (kstrtol text).1 ≠ 0)
    (hp₀ : Steps (step kstrtol sem) Polite (start idle fw)
      (es₀ ++ session f i fModeRead nonblock mem data es₁ es₂))
    (hr₀ : run (step kstrtol sem) (start idle fw)
      (es₀ ++ session f i fModeRead nonblock mem data es₁ es₂) = some s)
    (h₁ : ∀ e ∈ es₁, Apart f e) (h₂ : ∀ e ∈ es₂, Apart f e)
    (hdata : 0 ∉ data) (hv : kstrtol data = (0, v))
    (hp : Steps (step kstrtol sem) (fun t e => Polite t e ∧
      Undisturbed sem i s.k.link.wire.length t e) s es)
    (hr : ReturnsZero kstrtol sem f s es s') :
    Written s.k.link.wire.length i v s' ↔ fModeRead = false := by
  obtain ⟨a, ha, hra⟩ := run_append_eq_some.1 hr₀
  obtain ⟨hpa, hpb⟩ := steps_append.1 hp₀
  obtain ⟨h, pos, file, ho⟩ := session_spec (flow_run hpa ha) (hpb a ha) hra h₁ h₂
  obtain ⟨t, last, ht, hlast, hlog, ⟨rfl, rfl⟩ | ⟨es', rfl, rfl, ha'⟩⟩ := hr
  · obtain rfl := Option.some.inj ht
    obtain ⟨rfl, hnw⟩ := not_written_at_once (v := v) h ho hlast hlog
    simp [hnw]
  obtain ⟨b, hb, ht⟩ := run_cons_eq_some.1 ht
  obtain ⟨⟨hpol, -⟩, hp⟩ := (steps_cons hb).1 hp
  obtain ⟨k', hk', rfl⟩ := step_client hlast
  rcases closing_release h hpol ho hb with hnone | ⟨m, hc, hm⟩
  · have hnone' := closed_run (flow_step h hpol hb) (hp.mono fun _ _ h => h.1) ha' ht hnone
    cases leads_of_step hk' with
    | releaseWoken file' hf' => cases hnone'.symm.trans hf'
  have hc' := closing_run hc hp ha' ht
  obtain ⟨file', -, -, hans, rfl⟩ := woken_spec hc'.flow hk'
  have hdel := hans.lt
  rw [hc'.request] at hdel
  have hserved := hdel.trans_le hc'.flow.delivered_le
  cases fModeRead with
  | true =>
    refine iff_of_false ?_ Bool.noConfusion
    rintro ⟨⟨p, m', hqp, hm', htype, hind, -, hlt⟩, -⟩
    have hm' : t.k.link.wire[p]? = some m' := hm'
    obtain rfl := hc'.only p m' hqp (hlt.trans_le hc'.flow.delivered_le) hm' htype hind
    obtain rfl := Option.some.inj (hc'.wire.symm.trans hm')
    exact absurd (htype.symm.trans hm) (by decide)
  | false =>
    obtain ⟨htype, hind, hk0, hval⟩ := hm
    have hvm : m.val = v := by
      rcases text_written hdata with htext | hone
      · rw [hval, htext, hv]
      · exact absurd hk0 (hk _ hone)
    obtain ⟨j, hj⟩ := (hc'.flow.request _ _ hc'.wire).2.1
    rw [hind] at hj
    refine iff_of_true ⟨⟨_, m, le_rfl, hc'.wire, htype, hind, hvm, hdel⟩, j, hj, ?_⟩ rfl
    rw [← hvm]
    exact hc'.held htype hind hserved j hj

end Close

/-! ### One variable -/

lemma s_noNul : (0 : UInt8) ∉ [115] := by decide

/-- A variable limited to `[0, 1000]`, whose value is 0. -/
def speed : CfgVar Empty Unit where
  id := 1
  name := ⟨[115], s_noNul⟩
  desc := .empty
  val := 0
  min := 0
  max := 1000
  rdCb := none
  rdCbData := ()
  wrCb := none
  wrCbData := ()

/-- The firmware with this variable. -/
def speedFw : Cfg ⟨1, one_lt_limit⟩ Empty Unit Unit Empty := ⟨⟨fun _ => speed, (), []⟩, CfgMsg.zero⟩

def noCbs : CbSem ⟨1, one_lt_limit⟩ Empty Unit Unit Empty := fun c => c.elim

/-- `kstrtol` for the texts `5` and `5\n`. -/
def strtolFive (text : List UInt8) : Int32 × Int32 :=
  if text = [53] ∨ text = [53, 10] then (0, 5) else (-22, 0)

/-- A client has written the text `5` to the file of the variable.  If the file is open for reading, then
the reply to the read has arrived before. -/
def writesFive (fModeRead : Bool) : List Event :=
  session 0 0 fModeRead false true [53] (if fModeRead then [.serve, .deliver] else []) []

/-- The close, whose request is served and answered. -/
def closesFive : List Event := [.client (.release 0 0), .serve, .deliver]

lemma closesFive_returns (fModeRead : Bool) : ∃ s s',
    run (step strtolFive noCbs) (start .probed speedFw) (writesFive fModeRead) = some s ∧
    Steps (step strtolFive noCbs) Polite (start .probed speedFw) (writesFive fModeRead) ∧
    Steps (step strtolFive noCbs) Polite s closesFive ∧
    ReturnsZero strtolFive noCbs 0 s closesFive s' ∧ s.served = s.k.link.wire.length ∧
    (fModeRead = true → ∀ m ∈ s'.k.link.wire, m.type ≠ reqWr) := by
  have h : ((run (step strtolFive noCbs) (start .probed speedFw) (writesFive fModeRead)).any fun s =>
      (run (step strtolFive noCbs) s closesFive).any fun t =>
        (step strtolFive noCbs t (.client (.releaseWoken 0 false))).any fun s' =>
          Steps (step strtolFive noCbs) Polite (start .probed speedFw) (writesFive fModeRead) ∧
          Steps (step strtolFive noCbs) Polite s closesFive ∧
          s'.k.log = t.k.log ++ [(0, .released 0)] ∧ s.served = s.k.link.wire.length ∧
          (fModeRead = true → ∀ m ∈ s'.k.link.wire, m.type ≠ reqWr)) = true := by
    cases fModeRead <;> decide +kernel
  simp only [Option.any_eq_true, decide_eq_true_eq] at h
  obtain ⟨s, hs, t, ht, s', hs', hp, hp', hlog, hserved, hwire⟩ := h
  exact ⟨s, s', hs, hp, hp', ⟨t, _, ht, hs', hlog, .inr ⟨_, rfl, rfl, by simp [Apart]⟩⟩, hserved, hwire⟩

lemma strtolFive_refuses (text : List UInt8) (h : 1 ∈ text) : (strtolFive text).1 ≠ 0 := by
  unfold strtolFive
  rw [if_neg]
  · decide
  · rintro (rfl | rfl)
    · exact absurd h (by decide)
    · exact absurd h (by decide)

lemma undisturbed_noCbs {s : Sys ⟨1, one_lt_limit⟩ Empty Unit Unit Empty} {i : Int32} {q : ℕ}
    (hq : s.served = q) : Undisturbed noCbs i q s .serve := by
  have hcb : ∀ (cb : Option Empty) k isread (w : World ⟨1, one_lt_limit⟩ Empty Unit Unit Empty),
      ∀ data, callCb noCbs cb k isread data w = w := by
    intro cb k isread w data
    cases cb with
    | none => rfl
    | some c => exact c.elim
  intro _ m j _ _
  split
  · exact ⟨fun _ => hq, congrArg (cell · j) (hcb ..)⟩
  · exact congrArg (cell · j) (hcb ..)
  · trivial

/-- The value 5 is written to a file that is open for writing only. -/
theorem five_written : ∃ s s',
    run (step strtolFive noCbs) (start .probed speedFw) (writesFive false) = some s ∧
    ReturnsZero strtolFive noCbs 0 s closesFive s' ∧ Written s.k.link.wire.length 0 5 s' := by
  obtain ⟨s, s', hs, hp, hp', hr, hserved, -⟩ := closesFive_returns false
  have hnone : ∀ e ∈ ([] : List Event), Apart 0 e := fun e he => absurd he List.not_mem_nil
  have hp₀ : Steps (step strtolFive noCbs) Polite (start .probed speedFw)
      ([] ++ session 0 0 false false true [53] [] []) := hp
  refine ⟨s, s', hs, hr, (close_writes_iff strtolFive_refuses hp₀ hs hnone hnone ?_ rfl
    (hp'.and ?_) hr).2 rfl⟩
  · decide
  · refine ⟨trivial, fun t ht => ⟨?_, fun _ _ => ⟨trivial, fun _ _ => trivial⟩⟩⟩
    obtain ⟨hserve, -⟩ | ⟨hst, -⟩ := firmware_step ht
    · cases hserve
    · exact undisturbed_noCbs (hst.trans hserved)

/-- **The value 5 is lost** when the file is open for reading as well, and the close returns 0. -/
theorem five_lost : ∃ s s',
    run (step strtolFive noCbs) (start .probed speedFw) (writesFive true) = some s ∧
    Steps (step strtolFive noCbs) Polite (start .probed speedFw) (writesFive true) ∧
    ReturnsZero strtolFive noCbs 0 s closesFive s' ∧ strtolFive [53] = (0, 5) ∧
    ¬ Written s.k.link.wire.length 0 5 s' := by
  obtain ⟨s, s', hs, hp, -, hr, -, hwire⟩ := closesFive_returns true
  refine ⟨s, s', hs, hp, hr, rfl, ?_⟩
  rintro ⟨⟨j, m, -, hm, htype, -⟩, -⟩
  exact hwire rfl m (List.mem_of_getElem? hm) htype

end CfgMgmt.System
