import CfgMgmt.Kernel.Kstrtol
import CfgMgmt.Lib.Replay
import CfgMgmt.System.RoundTrip

/-!
# Many clients at once

Any number of clients read variables and write values, each of them through files of its own that are
open for reading only or for writing only.  However their calls, the firmware and the two channels
interleave, the table is that of the accepted writes, each applied once and in one order; every read
shows its variable as its own request found it, and finds every write that was closed before the file
was opened (`consistent_run`).
-/

namespace CfgMgmt.System.Consistency

open CfgMgmt.Lib CfgMgmt.Lib.Bytes CfgMgmt.Lib.Machine CfgMgmt.Lib.Replay CfgMgmt.Msg
open CfgMgmt.Firmware.Config CfgMgmt.Firmware.RegisterMap CfgMgmt.Firmware.ConfigRefinement
open CfgMgmt.Kernel.Linux CfgMgmt.Kernel.RpmsgLink CfgMgmt.Kernel.Files CfgMgmt.Kernel.Structs
open CfgMgmt.Kernel.Calls CfgMgmt.Kernel.Sessions

/-! ### The table -/

section Table

variable {n : VarCount} {κ δ : Type}

/-- The index and the value of a write request. -/
def write? (m : CfgMsg) : Option (Int32 × Int32) :=
  if m.type = reqWr then some (m.ind, m.val) else none

/-- The table after a value was written to the entry of an index. -/
def store (vars : Table n κ δ) (w : Int32 × Int32) : Table n κ δ :=
  match entry? n w.1 with
  | some k => Function.update vars k { vars k with val := limit (vars k) w.2 }
  | none => vars

/-- The table after the write requests among `reqs`. -/
def tableAfter (vars : Table n κ δ) (reqs : List CfgMsg) : Table n κ δ :=
  replay store write? vars reqs

/-- The text that a file shows: a number, or as much of the description as fits into a reply. -/
def shown (v : CfgVar κ δ) : Access → List UInt8
  | .val => decimal v.val.toInt ++ [10]
  | .min => decimal v.min.toInt ++ [10]
  | .max => decimal v.max.toInt ++ [10]
  | .desc => v.desc.bytes.take (textLen v.desc)
  | _ => []

def Bare (v : CfgVar κ δ) : Prop := v.rdCb = none ∧ v.wrCb = none

instance (v : CfgVar κ δ) : Decidable (Bare v) := inferInstanceAs (Decidable (_ ∧ _))

variable {vars : Table n κ δ} {k : Fin n.1} {w : Int32 × Int32}

lemma store_of_entry (h : entry? n w.1 = some k) :
    store vars w = Function.update vars k { vars k with val := limit (vars k) w.2 } := by
  simp only [store, h]

lemma store_of_none (h : entry? n w.1 = none) : store vars w = vars := by
  simp only [store, h]

lemma store_of_ne {i : Int32} (hi : entry? n i = some k) (h : w.1 ≠ i) : store vars w k = vars k := by
  cases hj : entry? n w.1 with
  | none => rw [store_of_none hj]
  | some j =>
    have hkj : k ≠ j := by
      rintro rfl
      refine h (Int32.toInt_inj.1 ?_)
      rw [entry?_eq_some.1 hj, entry?_eq_some.1 hi]
    rw [store_of_entry hj, Function.update_of_ne hkj]

lemma tableAfter_eq (vars : Table n κ δ) (reqs : List CfgMsg) (k : Fin n.1) :
    ∃ val, tableAfter vars reqs k = { vars k with val } := by
  refine replay_induction (P := fun t : Table n κ δ => ∃ val, t k = { vars k with val })
    ⟨(vars k).val, rfl⟩ fun t w ht => ?_
  cases hj : entry? n w.1 with
  | none =>
    rw [store_of_none hj]
    exact ht
  | some j =>
    obtain ⟨val, ht⟩ := ht
    rw [store_of_entry hj]
    by_cases hkj : k = j
    · subst hkj
      exact ⟨limit (t k) w.2, by rw [Function.update_self, ht]⟩
    · exact ⟨val, by rw [Function.update_of_ne hkj, ht]⟩

lemma bare_tableAfter {reqs : List CfgMsg} : Bare (tableAfter vars reqs k) ↔ Bare (vars k) := by
  obtain ⟨val, h⟩ := tableAfter_eq vars reqs k
  rw [h]
  rfl

lemma limit_val (v : CfgVar κ δ) (val x : Int32) : limit { v with val } x = limit v x := rfl

/-- **The value of an entry is that of the last write to its index.** -/
lemma val_tableAfter (vars : Table n κ δ) {wire : List CfgMsg} {p q : ℕ} {m : CfgMsg} (hk : entry? n w.1 = some k)
    (hm : wire[p]? = some m) (hw : write? m = some w) (hpq : p < q) (hq : q ≤ wire.length) :
    ∃ j v, p ≤ j ∧ j < q ∧ wire[j]?.bind write? = some (w.1, v) ∧
      (tableAfter vars (wire.take q) k).val = limit (vars k) v ∧
      ∀ i v', j < i → i < q → wire[i]?.bind write? ≠ some (w.1, v') := by
  have hset : ∀ (t : Table n κ δ) (b : Int32 × Int32), b.1 = w.1 →
      (store t b k).val = limit (store t b k) b.2 := by
    intro t b hb
    rw [store_of_entry (hb.symm ▸ hk), Function.update_self]
    exact (limit_val (t k) _ b.2).symm
  have hkeep : ∀ (t : Table n κ δ) (a b : Int32 × Int32), ¬ a.1 = w.1 →
      (t k).val = limit (t k) b.2 → (store t a k).val = limit (store t a k) b.2 := by
    intro t a b ha hb
    rw [store_of_ne hk ha]
    exact hb
  obtain ⟨j, b, hpj, hjq, hb, hi, hshow, hlast⟩ := exists_last vars (T := fun b => b.1 = w.1)
    (P := fun b (t : Table n κ δ) => (t k).val = limit (t k) b.2) hset hkeep hm hw rfl hpq hq
  obtain ⟨val, hval⟩ := tableAfter_eq vars (wire.take q) k
  refine ⟨j, b.2, hpj, hjq, hi ▸ hb, ?_, fun i v' h1 h2 hc => hlast i _ h1 h2 hc rfl⟩
  refine Eq.trans hshow ?_
  show limit (tableAfter vars (wire.take q) k) b.2 = _
  rw [hval]
  exact limit_val (vars k) val b.2

end Table

/-! ### One request -/

section Serve

variable {n : VarCount} {κ δ ε ω : Type} {sem : CbSem n κ δ ε ω} {w : World n κ δ ε ω} {m rep : CfgMsg}
  {k : Fin n.1} {acc : Access}

lemma write?_of_read (h : m.type = readType acc) : write? m = none := by
  have hne : readType acc ≠ reqWr := by
    cases acc <;> decide
  unfold write?
  rw [if_neg (h ▸ hne)]

lemma write?_of_write (h : m.type = reqWr) : write? m = some (m.ind, m.val) := by
  unfold write?
  rw [if_pos h]

/-- **Serving a request for a variable without callbacks** does what it asks for, and nothing else. -/
lemma serve_bare (hm : Proper n m) (hb : ∀ k, entry? n m.ind = some k → Bare (w.vars k)) :
    ((regMap sem).serve w (query n m)).1.vars = (write? m).elim w.vars (store w.vars) := by
  obtain ⟨⟨k, hk⟩, ⟨acc, ht, -⟩ | ht⟩ := hm
  · rw [query_of_readType hk ht, write?_of_read ht]
    cases acc with
    | val =>
      show (callCb sem (w.vars k).rdCb k true (w.vars k).rdCbData w).vars = w.vars
      rw [(hb k hk).1]
      rfl
    | _ => rfl
  · rw [query_of_write ht hk, serve_write, (hb k hk).2, write?_of_write ht]
    exact (store_of_entry (w := (m.ind, m.val)) hk).symm

/-- **The reply to a read request** leaves in the struct what the file shows. -/
lemma complete_shown (hb : Bare (w.vars k)) (h₁ : acc ≠ .name) (h₂ : acc ≠ .unknown)
    (hc : Carries rep ((regMap sem).serve w (readQuery k acc)).2) (x : Transaction) :
    (Link.complete rep x).len.toUInt32.toNat = (shown (w.vars k) acc).length ∧
      (Link.complete rep x).buf.bytes.take (shown (w.vars k) acc).length = shown (w.vars k) acc := by
  have hnumber : ∀ v, RoundTrip.field (w.vars k) acc = some v →
      (Link.complete rep x).len.toUInt32.toNat = (decimal v.toInt ++ [10]).length ∧
      (Link.complete rep x).buf.bytes.take (decimal v.toInt ++ [10]).length = decimal v.toInt ++ [10] := by
    intro v hv
    rw [(RoundTrip.serve_field hv hb.1).2 rep x hc]
    refine Link.holds_printText x ?_
    rw [List.length_append, List.length_singleton]
    exact (Nat.add_le_add_right (Kernel.Kstrtol.length_decimal v) 1).trans_lt (by decide)
  cases acc with
  | name => exact absurd rfl h₁
  | unknown => exact absurd rfl h₂
  | val => exact hnumber _ rfl
  | min => exact hnumber _ rfl
  | max => exact hnumber _ rfl
  | desc =>
    obtain ⟨ht, hlen, hdata⟩ : rep.type = resDesc ∧ CarriesText (w.vars k).desc.bytes rep := hc
    have hl : rep.len.toNat = textLen (w.vars k).desc := hlen.trans (textLen_eq _).symm
    have hle : ¬ rep.len.toNat > ioBufSize - 1 := by
      have h76 : min (w.vars k).desc.bytes.length (cfgBufLen - sizeofCfgMsg) ≤ 76 := Nat.min_le_right _ _
      have h399 : ioBufSize - 1 = 399 := rfl
      omega
    rw [Link.complete_text x (.inr ht) hle]
    have hshown : (shown (w.vars k) .desc).length = rep.len.toNat := by
      rw [hl]
      exact length_take_textLen _
    rw [hshown]
    constructor
    · exact congrArg UInt32.toNat (UInt32.toUInt32_toInt32 rep.len)
    · show (x.buf.write 0 (rep.data.read rep.len.toNat ++ [0]) (Link.data_fits hle)).bytes.take
        rep.len.toNat = (w.vars k).desc.bytes.take (textLen (w.vars k).desc)
      have hread : (rep.data.read rep.len.toNat).length = rep.len.toNat := by
        rw [hdata, hl]
        exact length_take_textLen _
      rw [← hl, ← hdata]
      simp only [Buf.write, List.take_zero, List.nil_append, List.append_assoc]
      exact List.take_left' hread

end Serve

/-! ### What the clients ask for -/

/-- What the clients have asked for, as their calls alone tell. -/
structure Account where
  /-- the index that a file was opened for, and what was written to the file since -/
  files : FileId → Int32 × Option (List UInt8)
  /-- the index and the number of every accepted text, in the order in which the files were closed -/
  writes : List (Int32 × Int32)

section Clients

variable (kstrtol : List UInt8 → Int32 × Int32)

/-- The bytes are a text that fits into the buffer of a struct and that `kstrtol` accepts. -/
def Accepted (data : List UInt8) : Prop :=
  (cstr data).length < ioBufSize ∧ (kstrtol (cstr data)).1 = 0

instance (data : List UInt8) : Decidable (Accepted kstrtol data) := inferInstanceAs (Decidable (_ ∧ _))

/-- The account after an event. -/
def Account.after (a : Account) : Event → Account
  | .client (.openVar f info ..) => { a with files := Function.update a.files f (info.index, none) }
  | .client (.write f data ..) =>
    { a with files := Function.update a.files f ((a.files f).1, some data) }
  | .client (.release f _) =>
    match (a.files f).2 with
    | some data =>
      if Accepted kstrtol data then
        { a with writes := a.writes ++ [((a.files f).1, (kstrtol (cstr data)).2)] }
      else a
    | none => a
  | _ => a

/-- The account of a run. -/
def account (es : List Event) : Account := es.foldl (Account.after kstrtol) ⟨fun _ => (0, none), []⟩

/-- What the clients do: they open a file either for reading or for writing, of a variable without
callbacks; they write once, and with one call; and they wait for the replies (`Polite`). -/
def Orderly {n : VarCount} {κ δ ε ω : Type} (s : Sys n κ δ ε ω) (e : Event) : Prop :=
  Polite s e ∧ match e with
    | .client (.openVar _ info fModeRead fModeWrite ..) =>
      fModeWrite = !fModeRead ∧ ∀ k, entry? n info.index = some k → Bare (s.fw.w.vars k)
    | .client (.write f _ own uncopied) =>
      own = none ∧ uncopied = 0 ∧ ∀ file, s.k.files f = some file → (s.k.transOf file).dirty = false
    | _ => True

instance {n : VarCount} {κ δ ε ω : Type} (s : Sys n κ δ ε ω) : (e : Event) → Decidable (Orderly s e)
  | .client (.openVar _ info ..) =>
    inferInstanceAs (Decidable (_ ∧ _ ∧ ∀ k ∈ entry? n info.index, Bare (s.fw.w.vars k)))
  | .client (.write f ..) => inferInstanceAs (Decidable (_ ∧ _ ∧ _ ∧ ∀ file ∈ s.k.files f, _))
  | .client (.read ..) => inferInstanceAs (Decidable (_ ∧ True))
  | .client (.release ..) => inferInstanceAs (Decidable (_ ∧ True))
  | .client (.releaseWoken ..) => inferInstanceAs (Decidable (_ ∧ True))
  | .client (.openLl ..) => inferInstanceAs (Decidable (_ ∧ True))
  | .client (.llCount ..) => inferInstanceAs (Decidable (_ ∧ True))
  | .client (.llCounted ..) => inferInstanceAs (Decidable (_ ∧ True))
  | .client (.llQuery ..) => inferInstanceAs (Decidable (_ ∧ True))
  | .client (.llNamed ..) => inferInstanceAs (Decidable (_ ∧ True))
  | .client (.reply ..) => inferInstanceAs (Decidable (_ ∧ True))
  | .serve => inferInstanceAs (Decidable (_ ∧ True))
  | .deliver => inferInstanceAs (Decidable (_ ∧ True))

/-! ### What they get -/

variable {n : VarCount} {κ δ ε ω : Type}

/-- The close has sent a write request for the text in its struct, which was answered. -/
structure Closed (s : Sys n κ δ ε ω) (c : Close) : Prop where
  request : s.k.link.wire[c.request]?.bind write? = some (c.info.index, (kstrtol c.text).2)
  answered : c.request < s.delivered

/-- The read shows the variable as the request of its own file has found it, which was after the write
requests in front of it. -/
def Shows (vars : Table n κ δ) (s : Sys n κ δ ε ω) (r : Read) : Prop :=
  ∃ m w k, s.k.link.wire[r.request]? = some m ∧ m.ind = r.info.index ∧
    m.type = readType r.info.type ∧ s.hist.found[r.request]? = some w ∧
    w.vars = tableAfter vars (s.k.link.wire.take r.request) ∧ entry? n r.info.index = some k ∧
    r.result = (simpleReadFromBuffer r.len r.pos (shown (w.vars k) r.info.type)
      (shown (w.vars k) r.info.type).length r.uncopied).1

/-- The request of the read has found the value of the write request of the close, or of a later one. -/
def Finds (vars : Table n κ δ) (s : Sys n κ δ ε ω) (r : Read) (c : Close) : Prop :=
  ∃ j v w k, c.request ≤ j ∧ j < r.request ∧
    s.k.link.wire[j]?.bind write? = some (r.info.index, v) ∧ s.hist.found[r.request]? = some w ∧
    entry? n r.info.index = some k ∧ (w.vars k).val = limit (vars k) v

/-- **Consistency**, for the table `vars` at the start and the account `a`. -/
structure Consistent (vars : Table n κ δ) (a : Account) (s : Sys n κ δ ε ω) : Prop where
  /-- the module has accepted what the clients have asked for -/
  accepted : s.hist.writes = a.writes
  /-- every accepted write has sent one request -/
  sent : s.k.link.wire.filterMap write? = a.writes
  /-- every request that was served is applied, once -/
  applied : s.fw.w.vars = tableAfter vars (s.k.link.wire.take s.served)
  closed : ∀ c ∈ s.hist.closes, Closed kstrtol s c
  shows : ∀ r ∈ s.hist.reads, Shows vars s r
  finds : ∀ r ∈ s.hist.reads, ∀ c ∈ r.earlier, c.info.index = r.info.index → Finds vars s r c

end Clients

/-! ### The invariant -/

section Invariant

variable {n : VarCount} {κ δ ε ω : Type}

/-- An open file of an orderly client.  Until it is closed, the struct of a file that is open for writing
holds what the account says. -/
structure Held (kstrtol : List UInt8 → Int32 × Int32) (vars : Table n κ δ) (a : Account)
    (s : Sys n κ δ ε ω) (f : FileId) (file : File) : Prop where
  mode : file.fModeWrite = !file.fModeRead
  bare : ∀ k, entry? n (infoOf file).index = some k → Bare (vars k)
  index : (a.files f).1 = (infoOf file).index
  reading : file.fModeRead = true → (a.files f).2 = none
  unwritten : file.fModeRead = false → file.phase = .ready → (a.files f).2 = none →
    file.pos = 0 ∧ s.k.transOf file = blank
  written : file.fModeRead = false → file.phase = .ready → ∀ data, (a.files f).2 = some data →
    s.k.transOf file = written data
  earlier : ∀ c ∈ (s.hist.record f).earlier, Closed kstrtol s c ∧
    (file.fModeRead = true → c.request < (s.hist.record f).request)

/-- **The invariant**, where `first` is the number of the first request. -/
structure Inv (kstrtol : List UInt8 → Int32 × Int32) (sem : CbSem n κ δ ε ω) (first : ℕ)
    (vars : Table n κ δ) (a : Account) (s : Sys n κ δ ε ω) : Prop where
  flow : Flow kstrtol sem first s
  accepted : s.hist.writes = a.writes
  sent : s.k.link.wire.filterMap write? = a.writes
  bare : ∀ m ∈ s.k.link.wire, ∀ k, entry? n m.ind = some k → Bare (vars k)
  applied : s.fw.w.vars = tableAfter vars (s.k.link.wire.take s.served)
  found : ∀ j w, s.hist.found[j]? = some w → w.vars = tableAfter vars (s.k.link.wire.take j)
  files : ∀ f file, s.k.files f = some file → Held kstrtol vars a s f file
  closed : ∀ c ∈ s.hist.closes, Closed kstrtol s c
  shows : ∀ r ∈ s.hist.reads, Shows vars s r
  earlier : ∀ r ∈ s.hist.reads, ∀ c ∈ r.earlier, Closed kstrtol s c ∧ c.request < r.request

variable {kstrtol : List UInt8 → Int32 × Int32} {sem : CbSem n κ δ ε ω} {first : ℕ}
  {vars : Table n κ δ} {a : Account} {s s' : Sys n κ δ ε ω} {f : FileId} {file : File} {e : Event}

/-- What happened stays so. -/
structure Grows (s s' : Sys n κ δ ε ω) : Prop where
  wire : s.k.link.wire <+: s'.k.link.wire
  found : s.hist.found <+: s'.hist.found
  delivered : s.delivered ≤ s'.delivered

lemma grows_step (h : Flow kstrtol sem first s) (hp : Polite s e)
    (hs : step kstrtol sem s e = some s') : Grows s s' := by
  have hwire := wire_step h hp hs
  cases e with
  | serve =>
    obtain ⟨-, -, hdelivered, hhist⟩ := serve_keeps hs
    refine ⟨hwire, ?_, hdelivered.ge⟩
    rw [hhist]
    exact List.prefix_append ..
  | deliver =>
    obtain ⟨rep, -, t, -, -, rfl⟩ := deliver_spec h hp.1 hs
    exact ⟨hwire, List.prefix_refl _, Nat.le_succ _⟩
  | client e =>
    obtain ⟨k', hk, rfl⟩ := step_client hs
    obtain ⟨f, he, -⟩ := acts_client h hp hk
    exact ⟨hwire, (recorded_observe he).found ▸ List.prefix_refl _, le_rfl⟩

lemma Closed.mono {c : Close} (h : Closed kstrtol s c) (hg : Grows s s') : Closed kstrtol s' c := by
  obtain ⟨m, hm, hw⟩ := Option.bind_eq_some_iff.1 h.request
  refine ⟨?_, h.answered.trans_le hg.delivered⟩
  rw [getElem?_of_isPrefix hg.wire hm]
  exact hw

lemma Grows.take (hg : Grows s s') {j : ℕ} (hj : j ≤ s.k.link.wire.length) :
    s'.k.link.wire.take j = s.k.link.wire.take j := by
  obtain ⟨l, hl⟩ := hg.wire
  rw [← hl, List.take_append_of_le_length hj]

lemma Shows.mono {r : Read} (h : Shows vars s r) (hg : Grows s s') : Shows vars s' r := by
  obtain ⟨m, w, k, hm, hi, ht, hw, hvars, hk, hr⟩ := h
  refine ⟨m, w, k, getElem?_of_isPrefix hg.wire hm, hi, ht, getElem?_of_isPrefix hg.found hw, ?_, hk, hr⟩
  rw [hg.take (List.getElem?_eq_some_iff.1 hm).1.le]
  exact hvars

lemma account_apart (ha : Apart f e) : (a.after kstrtol e).files f = a.files f := by
  cases e with
  | serve => rfl
  | deliver => rfl
  | client e =>
    cases e with
    | openVar g => exact Function.update_of_ne (fun h => ha (congrArg some h.symm)) ..
    | write g => exact Function.update_of_ne (fun h => ha (congrArg some h.symm)) ..
    | release g =>
      unfold Account.after
      dsimp only
      split
      · split <;> rfl
      · rfl
    | _ => rfl

lemma Held.not_reading (h : Held kstrtol vars a s f file) (hw : file.fModeWrite = true) :
    file.fModeRead = false := by
  have hmode := h.mode
  rw [hw] at hmode
  simpa using hmode.symm

lemma Held.apart (h : Held kstrtol vars a s f file) (hflow : Flow kstrtol sem first s)
    (hp : Polite s e) (ha : Apart f e) (hs : step kstrtol sem s e = some s')
    (hf : s.k.files f = some file) :
    ∀ file', s'.k.files f = some file' → Held kstrtol vars (a.after kstrtol e) s' f file' := by
  intro file' hf'
  have hg := grows_step hflow hp hs
  obtain ⟨pos, hpos, hkeep, hrec, htrans⟩ := step_apart hflow hp ha hs hf
  obtain rfl := Option.some.inj (hpos.symm.trans hf')
  have haccount : (a.after kstrtol e).files f = a.files f := account_apart ha
  have hsame : file.fModeRead = false → file.phase = .ready →
      s'.k.transOf file = s.k.transOf file := by
    intro hread hready
    exact htrans ((hflow.files f file hf).idle hread hready).1
  refine ⟨h.mode, h.bare, ?_, ?_, fun hread hready hn => ?_, fun hread hready data hd => ?_,
    fun c hc => ?_⟩
  · rw [haccount]
    exact h.index
  · rw [haccount]
    exact h.reading
  · rw [haccount] at hn
    obtain ⟨h1, h2⟩ := h.unwritten hread hready hn
    exact ⟨(hkeep hread).trans h1, (hsame hread hready).trans h2⟩
  · rw [haccount] at hd
    exact (hsame hread hready).trans (h.written hread hready data hd)
  · rw [hrec] at hc ⊢
    obtain ⟨h1, h2⟩ := h.earlier c hc
    exact ⟨h1.mono hg, h2⟩

/-! ### The calls on a file -/

/-- The variable of a file that is opened has no callbacks, as at the start. -/
lemma Inv.bare_start (h : Inv kstrtol sem first vars a s) {i : Int32}
    (hb : ∀ k, entry? n i = some k → Bare (s.fw.w.vars k)) :
    ∀ k, entry? n i = some k → Bare (vars k) := by
  intro k hk
  have hk := hb k hk
  rw [h.applied] at hk
  exact bare_tableAfter.1 hk

/-- The closes that have returned 0 so far have sent their requests before any request that follows. -/
lemma Inv.closed_before (h : Inv kstrtol sem first vars a s) {c : Close} (hc : c ∈ s.hist.closes) :
    c.request < s.k.link.wire.length :=
  (h.closed c hc).answered.trans_le (h.flow.delivered_le.trans h.flow.served_le)

/-- **A file is opened**: it asks for what it shows, or it is open for writing and asks for nothing. -/
lemma open_step {info : VarAccessInfo} {fModeRead fModeWrite nonblock mem : Bool} {send : Int32}
    (h : Inv kstrtol sem first vars a s)
    (ho : Orderly s (.client (.openVar f info fModeRead fModeWrite nonblock mem send)))
    (hs : step kstrtol sem s (.client (.openVar f info fModeRead fModeWrite nonblock mem send)) =
      some s') :
    (∀ file, s'.k.files f = some file → Held kstrtol vars
      (a.after kstrtol (.client (.openVar f info fModeRead fModeWrite nonblock mem send))) s' f file) ∧
    (s'.k.link.wire = s.k.link.wire ∨
      ∃ m file, s'.k.link.wire = s.k.link.wire ++ [m] ∧ s'.k.files f = some file ∧
        m.ind = (infoOf file).index ∧ write? m = none) := by
  have hg := grows_step h.flow ho.1 hs
  obtain ⟨⟨-, rfl, hvar, -, -⟩, rfl, hb⟩ := ho
  obtain ⟨k', hk, rfl⟩ := step_client hs
  obtain ⟨-, hk⟩ := Option.ite_none_left_eq_some.1 hk
  have haccount : (a.after kstrtol (.client (.openVar f info fModeRead (!fModeRead) nonblock mem 0))).files f =
      (info.index, none) := Function.update_self ..
  have hrecord : (observe kstrtol s.k k' s.hist (.openVar f info fModeRead (!fModeRead) nonblock mem 0)).record f =
      ⟨s.k.link.wire.length, s.hist.closes, []⟩ := Function.update_self ..
  have hheld : ∀ t, (fModeRead = false → k'.link.trans t = blank) → Held kstrtol vars
      (a.after kstrtol (.client (.openVar f info fModeRead (!fModeRead) nonblock mem 0)))
      { s with
        k := k'
        hist := observe kstrtol s.k k' s.hist (.openVar f info fModeRead (!fModeRead) nonblock mem 0) }
      f ⟨.var info, fModeRead, !fModeRead, nonblock, 0, t, .ready⟩ := by
    intro t ht
    refine ⟨rfl, h.bare_start hb, by rw [haccount]; rfl, fun _ => by rw [haccount],
      fun hread _ _ => ⟨rfl, ht hread⟩, fun _ _ data hd => ?_, fun c hc => ?_⟩
    · rw [haccount] at hd
      cases hd
    · rw [hrecord] at hc ⊢
      exact ⟨(h.closed c hc).mono hg, fun _ => h.closed_before hc⟩
  cases fModeRead with
  | true =>
    obtain ⟨t, x, m, hf, hreq, -, -, hind, htype⟩ := openVar_reads h.flow.sane hvar.2.2 hk
    refine ⟨fun file hfile => ?_, .inr ⟨m, _, hreq.wire, hf, hind, write?_of_read htype⟩⟩
    obtain rfl := Option.some.inj (hf.symm.trans hfile)
    exact hheld t fun hr => Bool.noConfusion hr
  | false =>
    obtain ⟨t, hf, hu, -, htrans⟩ := openVar_writes h.flow.sane hk
    refine ⟨fun file hfile => ?_, .inl hu.wire⟩
    obtain rfl := Option.some.inj (hf.symm.trans hfile)
    exact hheld t fun _ => htrans

lemma write_step {data : List UInt8} {own : Option ℤ} {uncopied : ℕ}
    (h : Inv kstrtol sem first vars a s)
    (ho : Orderly s (.client (.write f data own uncopied)))
    (hs : step kstrtol sem s (.client (.write f data own uncopied)) = some s') :
    ∀ file, s'.k.files f = some file →
      Held kstrtol vars (a.after kstrtol (.client (.write f data own uncopied))) s' f file := by
  have hg := grows_step h.flow ho.1 hs
  obtain ⟨hp, rfl, rfl, hclean⟩ := ho
  obtain ⟨k', hk, rfl⟩ := step_client hs
  replace hk := leads_of_step hk
  cases hk with
  | write file hf hready hwrite hk =>
    subst hk
    have hheld := h.files f file hf
    have hread := hheld.not_reading hwrite
    -- the file has not been written to before
    have hnone : (a.files f).2 = none := by
      by_contra hne
      obtain ⟨data', hd⟩ := Option.ne_none_iff_exists'.1 hne
      have hdirty := hclean file hf
      rw [hheld.written hread hready data' hd] at hdirty
      exact Bool.noConfusion hdirty
    obtain ⟨hpos, hblank⟩ := hheld.unwritten hread hready hnone
    have haccount : (a.after kstrtol (.client (.write f data none 0))).files f =
        ((a.files f).1, some data) := Function.update_self ..
    obtain ⟨hu, ⟨pos, hf'⟩, ht⟩ := writeVar_link data none 0 hf
    intro file' hfile'
    obtain rfl := Option.some.inj (hf'.symm.trans hfile')
    refine ⟨hheld.mode, hheld.bare, by rw [haccount]; exact hheld.index,
      fun hr => absurd (hread.symm.trans hr) Bool.false_ne_true, fun _ _ hn => ?_, fun _ _ data' hd => ?_,
      fun c hc => ?_⟩
    · rw [haccount] at hn
      cases hn
    · rw [haccount] at hd
      obtain rfl := Option.some.inj hd
      have hb : s.k.link.trans file.privateData = blank := hblank
      refine ht.trans ?_
      rw [hb, hblank, Option.getD_none, hpos]
      rfl
    · obtain ⟨h1, h2⟩ := hheld.earlier c hc
      exact ⟨h1.mono hg, h2⟩

/-- The text that was written is accepted when the file is closed, or it is none that `kstrtol` accepts or
that fits. -/
lemma accepted_written (hk : ∀ text, 1 ∈ text → (kstrtol text).1 ≠ 0) {data : List UInt8}
    (hx : s.k.transOf file = written data) :
    ((kstrtol (closingText s.k file)).1 = 0 ↔ Accepted kstrtol data) ∧
      (Accepted kstrtol data → closingText s.k file = cstr data) := by
  unfold closingText
  rw [hx]
  rcases text_written_cstr data with ⟨hlt, htext⟩ | ⟨hge, hone⟩
  · rw [htext]
    exact ⟨⟨fun h0 => ⟨hlt, h0⟩, And.right⟩, fun _ => rfl⟩
  · have hno : ¬ Accepted kstrtol data := fun hacc => absurd hacc.1 (not_lt.2 hge)
    exact ⟨iff_of_false (hk _ hone) hno, fun hacc => absurd hacc hno⟩

/-- **What the clients ask for is what the module accepts.** -/
lemma Held.account_release (hk : ∀ text, 1 ∈ text → (kstrtol text).1 ≠ 0)
    (h : Held kstrtol vars a s f file) (hflow : FileOk kstrtol first s f file)
    (hready : file.phase = .ready) (send : Int32) :
    (a.after kstrtol (.client (.release f send))).writes =
      if AcceptedWrite kstrtol s.k file then
        a.writes ++ [((infoOf file).index, (kstrtol (closingText s.k file)).2)]
      else a.writes := by
  unfold Account.after
  dsimp only
  cases hread : file.fModeRead with
  | true =>
    -- a file that is open for reading
    have hno : ¬ AcceptedWrite kstrtol s.k file := fun hacc =>
      absurd ((h.not_reading hacc.1).symm.trans hread) Bool.false_ne_true
    rw [h.reading hread, if_neg hno]
  | false =>
    cases hd : (a.files f).2 with
    | none =>
      -- nothing was written
      have hno : ¬ AcceptedWrite kstrtol s.k file := by
        intro hacc
        have hdirty := hacc.2.1
        rw [(h.unwritten hread hready hd).2] at hdirty
        exact Bool.noConfusion hdirty
      rw [if_neg hno]
    | some data =>
      have hx := h.written hread hready data hd
      obtain ⟨hiff, htext⟩ := accepted_written hk hx
      have hwrite : file.fModeWrite = true := by rw [h.mode, hread]; rfl
      have hacc : AcceptedWrite kstrtol s.k file ↔ Accepted kstrtol data := by
        refine ⟨fun hacc => hiff.1 hacc.2.2.2, fun hacc => ⟨hwrite, ?_, hflow.write hwrite, hiff.2 hacc⟩⟩
        rw [hx]
        rfl
      dsimp only
      by_cases hdata : Accepted kstrtol data
      · rw [if_pos hdata, if_pos (hacc.2 hdata), htext hdata, h.index]
      · rw [if_neg hdata, if_neg (fun h' => hdata (hacc.1 h'))]

/-- **A file is closed**: an accepted text is sent, and nothing else. -/
lemma release_step {send : Int32} (h : Inv kstrtol sem first vars a s)
    (ho : Orderly s (.client (.release f send)))
    (hs : step kstrtol sem s (.client (.release f send)) = some s') :
    ∃ file, s.k.files f = some file ∧ file.phase = .ready ∧
      s'.hist = observe kstrtol s.k s'.k s.hist (.release f send) ∧
      ((¬ AcceptedWrite kstrtol s.k file ∧ s'.k.link.wire = s.k.link.wire ∧ s'.k.files f = none) ∨
        (AcceptedWrite kstrtol s.k file ∧ s'.k.files f = some { file with phase := .closing } ∧
          ∃ m, s'.k.link.wire = s.k.link.wire ++ [m] ∧ m.ind = (infoOf file).index ∧
            write? m = some ((infoOf file).index, (kstrtol (closingText s.k file)).2))) := by
  obtain ⟨⟨-, rfl, -⟩, -⟩ := ho
  obtain ⟨k', hk, rfl⟩ := step_client hs
  replace hk := leads_of_step hk
  cases hk with
  | release file hf hready hk =>
    have hheld := h.files f file hf
    have hok := h.flow.files f file hf
    refine ⟨file, hf, hready, rfl, ?_⟩
    rcases releaseVar_sends h.flow.sane hk with ⟨hno, hu, hnone, -⟩ | ⟨hw, -, i, m, hi, hf', hreq, hind, hm⟩
    · refine .inl ⟨fun hacc => hno ⟨hacc.1, hacc.2.1, (infoOf file).index, ?_, .inr hacc.2.2.2⟩, hu.wire,
        hnone⟩
      rw [hok.inode, ← hacc.2.2.1]
    · have hinfo : infoOf file = ⟨i, .val⟩ := by
        unfold infoOf
        rw [hi]
      have hrnw : (s.k.transOf file).rnw = false := hok.rnw.trans (hheld.not_reading hw.1)
      rw [hrnw] at hm
      obtain ⟨htype, hval⟩ : m.type = reqWr ∧ m.val = (kstrtol (closingText s.k file)).2 := hm
      obtain ⟨hwrite, hdirty, _, -, hnumber⟩ := hw
      refine .inr ⟨⟨hwrite, hdirty, by rw [hinfo], ?_⟩, hf', m, hreq.wire, by rw [hinfo, hind], ?_⟩
      · exact hnumber.resolve_left fun hr => Bool.false_ne_true (hrnw.symm.trans hr)
      · rw [write?_of_write htype, hind, hval, hinfo]

lemma held_release {send : Int32} (h : Inv kstrtol sem first vars a s)
    (ho : Orderly s (.client (.release f send)))
    (hs : step kstrtol sem s (.client (.release f send)) = some s') :
    ∀ file, s'.k.files f = some file →
      Held kstrtol vars (a.after kstrtol (.client (.release f send))) s' f file := by
  have hg := grows_step h.flow ho.1 hs
  obtain ⟨file, hf, hready, hhist, ⟨-, -, hnone⟩ | ⟨hacc, hf', -⟩⟩ := release_step h ho hs
  · intro file' hfile'
    cases hnone.symm.trans hfile'
  · intro file' hfile'
    obtain rfl := Option.some.inj (hf'.symm.trans hfile')
    have hheld := h.files f file hf
    have haccount : (a.after kstrtol (.client (.release f send))).files = a.files := by
      unfold Account.after
      dsimp only
      split
      · split <;> rfl
      · rfl
    have hrecord : (s'.hist.record f).earlier = (s.hist.record f).earlier := by
      rw [hhist, observe_release hf]
      dsimp only
      rw [Function.update_self]
    have hread := hheld.not_reading hacc.1
    refine ⟨hheld.mode, hheld.bare, ?_, ?_, fun _ hp => Phase.noConfusion hp,
      fun _ hp => Phase.noConfusion hp, fun c hc => ?_⟩
    · rw [haccount]
      exact hheld.index
    · rw [haccount]
      exact hheld.reading
    · rw [hrecord] at hc
      exact ⟨(hheld.earlier c hc).1.mono hg, fun hr => absurd (hread.symm.trans hr) Bool.false_ne_true⟩

/-! ### Every step -/

theorem held_step (h : Inv kstrtol sem first vars a s) (ho : Orderly s e)
    (hs : step kstrtol sem s e = some s') :
    ∀ f file, s'.k.files f = some file → Held kstrtol vars (a.after kstrtol e) s' f file := by
  intro f
  by_cases ha : Apart f e
  · intro file' hfile'
    cases hf : s.k.files f with
    | none => cases (step_apart_closed h.flow ho.1 ha hs hf).symm.trans hfile'
    | some file => exact (h.files f file hf).apart h.flow ho.1 ha hs hf file' hfile'
  · -- the calls on the file itself
    cases e with
    | serve => exact absurd trivial ha
    | deliver => exact absurd trivial ha
    | client e =>
      cases e with
      | read => exact absurd trivial ha
      | openVar g =>
        obtain rfl : g = f := Option.some.inj (not_not.1 ha)
        exact (open_step h ho hs).1
      | write g =>
        obtain rfl : g = f := Option.some.inj (not_not.1 ha)
        exact write_step h ho hs
      | release g =>
        obtain rfl : g = f := Option.some.inj (not_not.1 ha)
        exact held_release h ho hs
      | releaseWoken g =>
        obtain rfl : g = f := Option.some.inj (not_not.1 ha)
        obtain ⟨k', hk, rfl⟩ := step_client hs
        obtain ⟨-, rfl⟩ := ho.1
        obtain ⟨file, -, -, -, rfl⟩ := woken_spec h.flow hk
        intro file' hfile'
        cases (closed_files_self 0).symm.trans hfile'
      | _ => exact ho.1.2.elim

/-- The call opens or closes a file. -/
def Asking : Kernel.Files.Event → Prop
  | .openVar .. => True
  | .release .. => True
  | _ => False

lemma wire_silent {e : Kernel.Files.Event} (h : Flow kstrtol sem first s) (hp : Polite s (.client e))
    (hs : step kstrtol sem s (.client e) = some s') (he : ¬ Asking e) :
    s'.k.link.wire = s.k.link.wire := by
  obtain ⟨k', hk, rfl⟩ := step_client hs
  cases leads_of_step hk with
  | openVar => exact absurd trivial he
  | release => exact absurd trivial he
  | read =>
    obtain ⟨file, -, -, -, -, hl, -⟩ := read_spec h hp hk
    exact congrArg (fun l => l.wire) hl
  | write file hf hready hwrite hcall =>
    subst hcall
    exact (writeVar_link _ _ _ hf).1.wire
  | releaseWoken =>
    obtain ⟨-, rfl⟩ := hp
    obtain ⟨file, -, -, -, rfl⟩ := woken_spec h hk
    rfl
  | _ => exact hp.2.elim

lemma observe_writes {k k' : Driver} {hist : History n κ δ ε ω} {e : Kernel.Files.Event}
    (he : ¬ Asking e) : (observe kstrtol k k' hist e).writes = hist.writes := by
  cases e with
  | release => exact absurd trivial he
  | read =>
    simp only [observe]
    split <;> rfl
  | releaseWoken =>
    simp only [observe]
    split
    · split <;> rfl
    · rfl
  | _ => rfl

/-- **What a step puts on the wire**: requests of open files, and the writes among them are those that
are accepted. -/
theorem sends_step (hk : ∀ text, 1 ∈ text → (kstrtol text).1 ≠ 0)
    (h : Inv kstrtol sem first vars a s) (ho : Orderly s e) (hs : step kstrtol sem s e = some s') :
    ∃ ms, s'.k.link.wire = s.k.link.wire ++ ms ∧
      (∀ m ∈ ms, ∃ f file, s'.k.files f = some file ∧ m.ind = (infoOf file).index) ∧
      (a.after kstrtol e).writes = a.writes ++ ms.filterMap write? ∧
      s'.hist.writes = s.hist.writes ++ ms.filterMap write? := by
  have hnothing : s'.k.link.wire = s.k.link.wire → (a.after kstrtol e).writes = a.writes →
      s'.hist.writes = s.hist.writes → ∃ ms, s'.k.link.wire = s.k.link.wire ++ ms ∧
        (∀ m ∈ ms, ∃ f file, s'.k.files f = some file ∧ m.ind = (infoOf file).index) ∧
        (a.after kstrtol e).writes = a.writes ++ ms.filterMap write? ∧
        s'.hist.writes = s.hist.writes ++ ms.filterMap write? := by
    intro h1 h2 h3
    exact ⟨[], by simpa using h1, fun m hm => absurd hm List.not_mem_nil, by simpa using h2,
      by simpa using h3⟩
  cases e with
  | serve =>
    obtain ⟨hk', -, -, hhist⟩ := serve_keeps hs
    exact hnothing (by rw [hk']) rfl (by rw [hhist])
  | deliver =>
    obtain ⟨rep, -, t, -, -, rfl⟩ := deliver_spec h.flow ho.1.1 hs
    exact hnothing rfl rfl rfl
  | client e =>
    cases e with
    | openVar f =>
      have hwrites : s'.hist.writes = s.hist.writes := by
        obtain ⟨k', -, rfl⟩ := step_client hs
        rfl
      rcases (open_step h ho hs).2 with hwire | ⟨m, file, hwire, hf, hind, hm⟩
      · exact hnothing hwire rfl hwrites
      · refine ⟨[m], hwire, fun m' hm' => ?_, ?_, ?_⟩
        · obtain rfl := List.mem_singleton.1 hm'
          exact ⟨f, file, hf, hind⟩
        · rw [List.filterMap_cons_none hm, List.filterMap_nil, List.append_nil]
          rfl
        · rw [List.filterMap_cons_none hm, List.filterMap_nil, List.append_nil, hwrites]
    | release f =>
      obtain ⟨file, hf, hready, hhist, hcases⟩ := release_step h ho hs
      have haccount := (h.files f file hf).account_release hk (h.flow.files f file hf) hready
      have hwrites : s'.hist.writes = if AcceptedWrite kstrtol s.k file then
          s.hist.writes ++ [((infoOf file).index, (kstrtol (closingText s.k file)).2)]
          else s.hist.writes := by
        rw [hhist, observe_release hf]
      rcases hcases with ⟨hno, hwire, -⟩ | ⟨hacc, hf', m, hwire, hind, hm⟩
      · refine hnothing hwire ?_ ?_
        · rw [haccount, if_neg hno]
        · rw [hwrites, if_neg hno]
      · refine ⟨[m], hwire, fun m' hm' => ?_, ?_, ?_⟩
        · obtain rfl := List.mem_singleton.1 hm'
          exact ⟨f, _, hf', hind⟩
        · rw [haccount, if_pos hacc, List.filterMap_cons_some hm, List.filterMap_nil]
        · rw [hwrites, if_pos hacc, List.filterMap_cons_some hm, List.filterMap_nil]
    | read =>
      refine hnothing (wire_silent h.flow ho.1 hs not_false) rfl ?_
      obtain ⟨k', -, rfl⟩ := step_client hs
      exact observe_writes not_false
    | write =>
      refine hnothing (wire_silent h.flow ho.1 hs not_false) rfl ?_
      obtain ⟨k', -, rfl⟩ := step_client hs
      rfl
    | releaseWoken =>
      refine hnothing (wire_silent h.flow ho.1 hs not_false) rfl ?_
      obtain ⟨k', -, rfl⟩ := step_client hs
      exact observe_writes not_false
    | _ => exact ho.1.2.elim

/-- **The firmware applies the request that it serves**, and every other step leaves the table alone. -/
theorem applied_step (h : Inv kstrtol sem first vars a s) (ho : Orderly s e)
    (hs : step kstrtol sem s e = some s') :
    s'.fw.w.vars = tableAfter vars (s'.k.link.wire.take s'.served) ∧
      ∀ j w, s'.hist.found[j]? = some w → w.vars = tableAfter vars (s'.k.link.wire.take j) := by
  have hg := grows_step h.flow ho.1 hs
  have hlen := h.flow.found_length
  have hle := h.flow.served_le
  have hfound : ∀ j w, s.hist.found[j]? = some w →
      w.vars = tableAfter vars (s'.k.link.wire.take j) := by
    intro j w hw
    have hj := (List.getElem?_eq_some_iff.1 hw).1
    rw [hg.take (by omega)]
    exact h.found j w hw
  rcases firmware_step hs with ⟨rfl, hk, hserved, -⟩ | ⟨hserved, hfw⟩
  · obtain ⟨m, hm, -⟩ := Option.bind_eq_some_iff.1 hs
    obtain ⟨-, -, -, hvars, -⟩ := serve_spec hm hs
    have hbare : ∀ k, entry? n m.ind = some k → Bare (s.fw.w.vars k) := by
      intro k hk
      rw [h.applied]
      exact bare_tableAfter.2 (h.bare m (List.mem_of_getElem? hm) k hk)
    constructor
    · rw [hvars, serve_bare (h.flow.request _ _ hm).2 hbare, h.applied, hk, hserved]
      exact (replay_take_succ hm).symm
    · intro j w hw
      rw [(serve_keeps hs).2.2.2] at hw
      rcases getElem?_concat_cases hw with hw | ⟨rfl, rfl⟩
      · exact hfound j w hw
      · rw [hlen, hk]
        exact h.applied
  · have hsame : s'.hist.found = s.hist.found := by
      refine (hg.found.eq_of_length ?_).symm
      rw [hlen, (flow_step h.flow ho.1 hs).found_length, hserved]
    rw [hsame]
    refine ⟨?_, hfound⟩
    rw [hfw, hserved, hg.take hle]
    exact h.applied

lemma closes_step (h : Flow kstrtol sem first s) (hp : Polite s e)
    (hs : step kstrtol sem s e = some s') (he : ¬ ∃ f intr, e = .client (.releaseWoken f intr)) :
    s'.hist.closes = s.hist.closes := by
  cases e with
  | serve => rw [(serve_keeps hs).2.2.2]
  | deliver =>
    obtain ⟨rep, -, t, -, -, rfl⟩ := deliver_spec h hp.1 hs
    rfl
  | client e =>
    obtain ⟨k', -, rfl⟩ := step_client hs
    cases e with
    | releaseWoken f intr => exact absurd ⟨f, intr, rfl⟩ he
    | read =>
      simp only [observe]
      split <;> rfl
    | release =>
      simp only [observe]
      split <;> rfl
    | _ => rfl

lemma reads_step (h : Flow kstrtol sem first s) (hp : Polite s e) (hs : step kstrtol sem s e = some s')
    (he : ¬ ∃ f len own intr uncopied, e = .client (.read f len own intr uncopied)) :
    s'.hist.reads = s.hist.reads := by
  cases e with
  | serve => rw [(serve_keeps hs).2.2.2]
  | deliver =>
    obtain ⟨rep, -, t, -, -, rfl⟩ := deliver_spec h hp.1 hs
    rfl
  | client e =>
    obtain ⟨k', -, rfl⟩ := step_client hs
    cases e with
    | read f len own intr uncopied => exact absurd ⟨f, len, own, intr, uncopied, rfl⟩ he
    | releaseWoken =>
      simp only [observe]
      split
      · split <;> rfl
      · rfl
    | release =>
      simp only [observe]
      split <;> rfl
    | _ => rfl

/-- **A close that returns 0** has its reply. -/
theorem closed_step (h : Inv kstrtol sem first vars a s) (ho : Orderly s e)
    (hs : step kstrtol sem s e = some s') : ∀ c ∈ s'.hist.closes, Closed kstrtol s' c := by
  have hg := grows_step h.flow ho.1 hs
  have hold : ∀ c ∈ s.hist.closes, Closed kstrtol s' c := fun c hc => (h.closed c hc).mono hg
  by_cases he : ∃ f intr, e = .client (.releaseWoken f intr)
  · obtain ⟨f, intr, rfl⟩ := he
    obtain ⟨k', hk, rfl⟩ := step_client hs
    obtain ⟨-, rfl⟩ := ho.1
    obtain ⟨file, hf, hclosing, hans, rfl⟩ := woken_spec h.flow hk
    have hok := h.flow.files f file hf
    have hwrite : file.fModeWrite = true :=
      (hok.phase.resolve_left fun hr => Phase.noConfusion (hclosing.symm.trans hr)).2
    -- the request of the close is the last one of the file
    obtain ⟨m, hm, hind, hasks⟩ := hok.asked (.inr hclosing)
    rw [hclosing, (h.files f file hf).not_reading hwrite] at hasks
    obtain ⟨htype, hval⟩ : m.type = reqWr ∧ m.val = (kstrtol (s.hist.record f).text).2 := hasks
    intro c hc
    rw [observe_releaseWoken hf rfl] at hc
    rcases List.mem_append.1 hc with hc | hc
    · exact hold c hc
    · obtain rfl := List.mem_singleton.1 hc
      refine Closed.mono ⟨?_, hans.lt⟩ hg
      show s.k.link.wire[(s.hist.record f).request]?.bind write? = _
      rw [hm, ← hind, ← hval]
      exact write?_of_write htype
  · rw [closes_step h.flow ho.1 hs he]
    exact hold

/-- **A read shows its variable as its own request has found it.** -/
theorem shows_step (h : Inv kstrtol sem first vars a s) (ho : Orderly s e)
    (hs : step kstrtol sem s e = some s') : ∀ r ∈ s'.hist.reads, Shows vars s' r ∧
      ∀ c ∈ r.earlier, Closed kstrtol s' c ∧ c.request < r.request := by
  have hg := grows_step h.flow ho.1 hs
  have hold : ∀ r ∈ s.hist.reads, Shows vars s' r ∧
      ∀ c ∈ r.earlier, Closed kstrtol s' c ∧ c.request < r.request := by
    intro r hr
    refine ⟨(h.shows r hr).mono hg, fun c hc => ?_⟩
    obtain ⟨h1, h2⟩ := h.earlier r hr c hc
    exact ⟨h1.mono hg, h2⟩
  by_cases he : ∃ f len own intr uncopied, e = .client (.read f len own intr uncopied)
  · obtain ⟨f, len, own, intr, uncopied, rfl⟩ := he
    obtain ⟨k', hk, rfl⟩ := step_client hs
    obtain ⟨file, hf, hready, hread, hans, -, -, hlog⟩ := read_spec h.flow ho.1 hk
    have hok := h.flow.files f file hf
    have hheld := h.files f file hf
    have hro : file.fModeWrite = false := by rw [hheld.mode, hread]; rfl
    -- the struct holds the reply to the request of the file
    obtain ⟨rep, x, hrep, hx⟩ := hans.content hro
    obtain ⟨m, w, hm, hw, -, hcarries⟩ := h.flow.reply _ _ hrep
    obtain ⟨m', hm', hind, hasks⟩ := hok.asked (.inl hread)
    obtain rfl := Option.some.inj (hm.symm.trans hm')
    rw [hready, hread] at hasks
    have htype : m.type = readType (infoOf file).type := hasks
    obtain ⟨⟨k, hk⟩, hname, hunknown⟩ := hok.isVar
    have hvars := h.found _ w hw
    have hbare : Bare (w.vars k) := by
      rw [hvars]
      exact bare_tableAfter.2 (hheld.bare k hk)
    rw [query_of_readType (hind.symm ▸ hk) htype] at hcarries
    obtain ⟨hlen, htake⟩ := complete_shown hbare hname hunknown hcarries x
    intro r hr
    rw [observe_read hf hlog] at hr
    rcases List.mem_append.1 hr with hr | hr
    · exact hold r hr
    · obtain rfl := List.mem_singleton.1 hr
      refine ⟨Shows.mono ⟨m, w, k, hm, hind, htype, hw, hvars, hk, ?_⟩ hg, fun c hc => ?_⟩
      · have hx' : s.k.transOf file = Link.complete rep x := hx
        rw [hx', hlen, simpleReadFromBuffer_take htake]
      · obtain ⟨h1, h2⟩ := hheld.earlier c hc
        exact ⟨h1.mono hg, h2 hread⟩
  · rw [reads_step h.flow ho.1 hs he]
    exact hold

/-! ### Every run -/

theorem inv_step (hk : ∀ text, 1 ∈ text → (kstrtol text).1 ≠ 0) (h : Inv kstrtol sem first vars a s)
    (ho : Orderly s e) (hs : step kstrtol sem s e = some s') :
    Inv kstrtol sem first vars (a.after kstrtol e) s' := by
  have hfiles := held_step h ho hs
  obtain ⟨ms, hwire, hms, haccount, hwrites⟩ := sends_step hk h ho hs
  obtain ⟨happlied, hfound⟩ := applied_step h ho hs
  have hshows := shows_step h ho hs
  refine ⟨flow_step h.flow ho.1 hs, ?_, ?_, fun m hm k hk => ?_, happlied, hfound, hfiles,
    closed_step h ho hs, fun r hr => (hshows r hr).1, fun r hr => (hshows r hr).2⟩
  · rw [hwrites, haccount, h.accepted]
  · rw [hwire, haccount, List.filterMap_append, h.sent]
  · rw [hwire] at hm
    rcases List.mem_append.1 hm with hm | hm
    · exact h.bare m hm k hk
    · obtain ⟨f, file, hf, hind⟩ := hms m hm
      exact (hfiles f file hf).bare k (hind ▸ hk)

lemma inv_start (idle : Idle) (fw : Cfg n κ δ ε ω) :
    Inv kstrtol sem idle.k.link.drawn fw.w.vars (account kstrtol []) (start idle fw) where
  flow := flow_start idle fw
  accepted := rfl
  sent := by
    show idle.k.link.wire.filterMap write? = []
    rw [idle.wire]
    rfl
  bare m hm := absurd hm (by simp [start, idle.wire])
  applied := rfl
  found j w hw := absurd hw (by simp [start])
  files f file hf := absurd hf (by simp [start, idle.files])
  closed c hc := absurd hc List.not_mem_nil
  shows r hr := absurd hr List.not_mem_nil
  earlier r hr := absurd hr List.not_mem_nil

/-- A request finds the writes that were closed before its file was opened. -/
lemma Inv.finds (h : Inv kstrtol sem first vars a s) {r : Read} (hr : r ∈ s.hist.reads) {c : Close}
    (hc : c ∈ r.earlier) (hi : c.info.index = r.info.index) : Finds vars s r c := by
  obtain ⟨m, w, k, hm, -, -, hw, hvars, hk, -⟩ := h.shows r hr
  obtain ⟨hclosed, hlt⟩ := h.earlier r hr c hc
  obtain ⟨m', hm', hwrite⟩ := Option.bind_eq_some_iff.1 hclosed.request
  obtain ⟨j, v, hcj, hjr, hj, hval, -⟩ :=
    val_tableAfter vars (hi.symm ▸ hk) hm' hwrite hlt (List.getElem?_eq_some_iff.1 hm).1.le
  exact ⟨j, v, w, k, hcj, hjr, hi ▸ hj, hw, hk, by rw [hvars, hval]⟩

lemma Inv.consistent (h : Inv kstrtol sem first vars a s) : Consistent kstrtol vars a s where
  accepted := h.accepted
  sent := h.sent
  applied := h.applied
  closed := h.closed
  shows := h.shows
  finds _ hr _ hc hi := h.finds hr hc hi

end Invariant

/-- **Consistency**, for every table and every run of orderly clients, however their calls, the firmware
and the two channels interleave. -/
theorem consistent_run {n : VarCount} {κ δ ε ω : Type} {sem : CbSem n κ δ ε ω} {idle : Idle}
    {fw : Cfg n κ δ ε ω} {es : List Event} {s : Sys n κ δ ε ω}
    (hp : Steps (step Kernel.Kstrtol.kstrtol sem) Orderly (start idle fw) es)
    (hr : run (step Kernel.Kstrtol.kstrtol sem) (start idle fw) es = some s) :
    Consistent Kernel.Kstrtol.kstrtol fw.w.vars (account Kernel.Kstrtol.kstrtol es) s := by
  have hinv : Inv Kernel.Kstrtol.kstrtol sem idle.k.link.drawn fw.w.vars
      (account Kernel.Kstrtol.kstrtol es) s := by
    refine run_invariant_of_events (P := fun es => Inv Kernel.Kstrtol.kstrtol sem idle.k.link.drawn
      fw.w.vars (account Kernel.Kstrtol.kstrtol es)) (fun es t e t' h ho hs => ?_) (inv_start idle fw)
      hp hr
    have hafter : account Kernel.Kstrtol.kstrtol (es ++ [e]) =
        (account Kernel.Kstrtol.kstrtol es).after Kernel.Kstrtol.kstrtol e := List.foldl_concat ..
    rw [hafter]
    exact inv_step (fun _ => Kernel.Kstrtol.kstrtol_refuses) h ho hs
  exact hinv.consistent

/-- One client writes 5 while another one reads the value 0; a third one opens its file after the close. -/
def threeClients : List Event :=
  [.client (.openVar 0 ⟨0, .val⟩ false true false true 0),
    .client (.openVar 1 ⟨0, .val⟩ true false false true 0), .client (.write 0 [53] none 0),
    .client (.release 0 0), .serve, .serve, .deliver, .deliver, .client (.releaseWoken 0 false),
    .client (.openVar 2 ⟨0, .val⟩ true false false true 0), .serve, .deliver,
    .client (.read 2 4096 none false 0), .client (.read 1 4096 none false 0),
    .client (.release 1 0), .client (.release 2 0)]

/-- The second client reads 0, and the third one reads 5. -/
theorem threeClients_consistent : ∃ s,
    run (step Kernel.Kstrtol.kstrtol noCbs) (start .probed speedFw) threeClients = some s ∧
    Consistent Kernel.Kstrtol.kstrtol speedFw.w.vars (account Kernel.Kstrtol.kstrtol threeClients) s ∧
    (account Kernel.Kstrtol.kstrtol threeClients).writes = [(0, 5)] ∧
    s.hist.reads.map (·.result) = [.ok [53, 10], .ok [48, 10]] := by
  have h : ((run (step Kernel.Kstrtol.kstrtol noCbs) (start .probed speedFw) threeClients).any
      fun s => decide (s.hist.reads.map (·.result) = [.ok [53, 10], .ok [48, 10]])) = true := by
    decide +kernel
  have hp : Steps (step Kernel.Kstrtol.kstrtol noCbs) Orderly (start .probed speedFw) threeClients := by
    decide +kernel
  obtain ⟨s, hs, hreads⟩ := (Option.any_eq_true ..).1 h
  exact ⟨s, hs, consistent_run hp hs, by decide +kernel, of_decide_eq_true hreads⟩

end CfgMgmt.System.Consistency
