import CfgMgmt.Firmware.Main
import CfgMgmt.Lib.Machine

/-!
# The trace buffer

What the firmware prints goes to the trace buffer of the kernel as well.  `outbyte` collects characters
in lines; `_write` copies a chunk to the end of the trace when it is shorter than the space that is left.
A chunk that is not is dropped as a whole, and a shorter one may still follow.  `run_trace` says that
neither buffer is ever left, and what the trace holds.
-/

namespace CfgMgmt.Firmware.Trace

open CfgMgmt.Lib.Bytes CfgMgmt.Lib.Machine CfgMgmt.Msg CfgMgmt.Firmware.Main

/-! ### The functions -/

/-- The members of `struct fw_rsc_trace` that `_write` loads. -/
structure FwRscTrace where
  da : UInt32
  len : UInt32

/-- Data with its length, a `size_t`. -/
structure Data where
  bytes : List UInt8
  short : bytes.length < 2 ^ 32

def Data.len (data : Data) : UInt32 := UInt32.ofNat data.bytes.length

/-- The descriptors that `_write` knows. -/
inductive Fd
  | stdout
  | stderr
  | three
  deriving DecidableEq

/-- The static variables of `outbyte` and of `_write`, and the trace buffer.  The last three fields are
the history. -/
structure State (rsc : FwRscTrace) where
  buf : Buf dataLenMax
  ind : ℕ
  /-- `NULL` is `0` -/
  traceBuf : UInt32
  traceInd : Int32
  traceSize : Int32
  /-- the memory at `rsc.da` -/
  mem : Buf rsc.len.toNat
  /-- what was sent on the channel of the standard output -/
  sent : List (List UInt8)
  /-- what `outbyte` has handed to `_write` -/
  handed : List (List UInt8)
  /-- what `_write` was called with -/
  written : List (List UInt8)

variable {rsc : FwRscTrace}

lemma memcpy_fits {dest : ℤ} {len : ℕ} (h : (rsc.da.toNat : ℤ) ≤ dest ∧
    dest + len ≤ rsc.da.toNat + rsc.len.toNat) : (dest - rsc.da.toNat).toNat + len ≤ rsc.len.toNat := by
  omega

/-- `memcpy` to the trace buffer, `none` when it copies outside. -/
def memcpy (dest : ℤ) (src : List UInt8) (mem : Buf rsc.len.toNat) : Option (Buf rsc.len.toNat) :=
  if h : (rsc.da.toNat : ℤ) ≤ dest ∧ dest + src.length ≤ rsc.da.toNat + rsc.len.toNat then
    some (mem.write (dest - rsc.da.toNat).toNat src (memcpy_fits h))
  else none

/-- The settings of the trace buffer, loaded by the first call of `_write`. -/
def load (s : State rsc) : State rsc :=
  if s.traceBuf = 0 then
    { s with traceBuf := rsc.da, traceSize := rsc.len.toInt32, traceInd := 0 }
  else s

/-- `_write` to the trace buffer. -/
def append (data : Data) (s : State rsc) : Option (State rsc) :=
  -- the comparison is unsigned, and so is the sum
  if data.len < (s.traceSize - s.traceInd).toUInt32 then do
    let mem ← memcpy (s.traceBuf.toNat + s.traceInd.toInt) data.bytes s.mem
    some { s with mem, traceInd := (s.traceInd.toUInt32 + data.len).toInt32 }
  else some s

/-- `_write` to the channel of the standard output, when it is `up`. -/
def transmit (fd : Fd) (data : Data) (up : Bool) (s : State rsc) : UInt32 × State rsc :=
  match fd with
  | .stdout => if up then (data.len, { s with sent := s.sent ++ chunks data.bytes }) else (0, s)
  | .stderr | .three => (0, s)

/-- `_write`: what it returns, and the state afterwards. -/
def write (fd : Fd) (data : Data) (up : Bool) (s : State rsc) : Option (UInt32 × State rsc) :=
  let s := load { s with written := s.written ++ [data.bytes] }
  let (done, s) := transmit fd data up s
  if s.traceBuf ≠ 0 then do
    let s ← append data s
    some (data.len, s)
  else some (done, s)

lemma short_read {n : ℕ} (b : Buf dataLenMax) : (b.read n).length < 2 ^ 32 := by
  have h : dataLenMax < 2 ^ 32 := by decide
  rw [Buf.length_read]
  omega

/-- The first `ind` characters in the buffer of `outbyte`. -/
def State.line (s : State rsc) : Data := ⟨s.buf.read s.ind, short_read s.buf⟩

/-- `outbyte` hands its characters to `_write`. -/
def handOver (up : Bool) (s : State rsc) : Option (State rsc) := do
  let (_, s) ← write .stderr s.line up { s with handed := s.handed ++ [s.line.bytes] }
  some { s with ind := 0 }

/-- `outbyte`, `none` when it writes outside of its buffer. -/
def outbyte (ch : UInt8) (up : Bool) (s : State rsc) : Option (State rsc) :=
  if h : s.ind + [ch].length ≤ dataLenMax then
    let s := { s with buf := s.buf.write s.ind [ch] h, ind := s.ind + 1 }
    if ch = 10 ∨ s.ind = dataLenMax - 2 then handOver up s else some s
  else none

inductive Event
  | outbyte (ch : UInt8) (up : Bool)
  | write (fd : Fd) (data : Data) (up : Bool)

def step (s : State rsc) : Event → Option (State rsc)
  | .outbyte ch up => outbyte ch up s
  | .write fd data up => (write fd data up s).map Prod.snd

def start (mem : Buf rsc.len.toNat) : State rsc where
  buf := .zero _
  ind := 0
  traceBuf := 0
  traceInd := 0
  traceSize := 0
  mem
  sent := []
  handed := []
  written := []

/-! ### What the trace is for -/

/-- The trace of the chunks, in a buffer of `size` bytes: a chunk is kept when it is shorter than the space
that is left. -/
def kept (size : ℕ) (chunks : List (List UInt8)) : List UInt8 :=
  chunks.foldl (fun text c => if c.length < size - text.length then text ++ c else text) []

lemma kept_concat (size : ℕ) (chunks : List (List UInt8)) (c : List UInt8) :
    kept size (chunks ++ [c]) =
      if c.length < size - (kept size chunks).length then kept size chunks ++ c
      else kept size chunks := by
  unfold kept
  rw [List.foldl_concat]

lemma length_kept_le (size : ℕ) (chunks : List (List UInt8)) : (kept size chunks).length ≤ size := by
  induction chunks using List.reverseRecOn with
  | nil => exact Nat.zero_le _
  | append_singleton chunks c ih =>
    rw [kept_concat]
    split
    · rw [List.length_append]
      omega
    · exact ih

example : kept 4 [[1, 2, 3, 4], [97, 10], [98], [99]] = [97, 10, 98] := by decide

def Event.chars : Event → List UInt8
  | .outbyte ch _ => [ch]
  | .write .. => []

/-! ### `_write` -/

/-- The settings that `_write` relies on. -/
structure Usable (rsc : FwRscTrace) : Prop where
  da : rsc.da ≠ 0
  len : rsc.len.toNat < 2 ^ 31

/-- The settings are loaded, or nothing is traced yet. -/
def Settings (s : State rsc) : Prop :=
  s.traceBuf = rsc.da ∧ s.traceSize = rsc.len.toInt32 ∨
    s.traceBuf = 0 ∧ s.traceSize = 0 ∧ s.traceInd = 0

/-- The trace buffer holds `text`. -/
structure Holds (text : List UInt8) (s : State rsc) : Prop where
  ind : s.traceInd.toInt = text.length
  read : s.mem.read text.length = text

/-- The trace is that of the chunks `_write` was called with. -/
structure Traced (s : State rsc) : Prop where
  settings : Settings s
  holds : Holds (kept rsc.len.toNat s.written) s

lemma load_eq (hr : Usable rsc) {s : State rsc} (h : Settings s) :
    load s = { s with traceBuf := rsc.da, traceSize := rsc.len.toInt32 } := by
  unfold load
  obtain ⟨hbuf, hsize⟩ | ⟨hbuf, -, hind⟩ := h
  · have hne : s.traceBuf ≠ 0 := by
      rw [hbuf]
      exact hr.da
    rw [if_neg hne, ← hbuf, ← hsize]
  · rw [if_pos hbuf, ← hind]

lemma toNat_space {ind : Int32} {size : UInt32} {n : ℕ} (hsize : size.toNat < 2 ^ 31)
    (hind : ind.toInt = n) (hle : n ≤ size.toNat) :
    (size.toInt32 - ind).toUInt32.toNat = size.toNat - n := by
  have hint := toInt_toInt32 hsize
  have hnonneg : 0 ≤ ind := Int32.le_iff_toInt_le.2 (by rw [hind]; exact Int.natCast_nonneg n)
  have hind_le : ind ≤ size.toInt32 := Int32.le_iff_toInt_le.2 (by rw [hind, hint]; omega)
  rw [Int32.toNat_toUInt32_of_le (Int32.sub_nonneg_of_le hnonneg hind_le)]
  show (size.toInt32 - ind).toInt.toNat = _
  rw [Int32.toInt_sub_of_le _ _ hnonneg hind_le, hint, hind]
  omega

lemma toInt_behind {ind : Int32} {len : UInt32} {n : ℕ} (hind : ind.toInt = n)
    (hlt : n + len.toNat < 2 ^ 31) : (ind.toUInt32 + len).toInt32.toInt = n + len.toNat := by
  have hnonneg : 0 ≤ ind := Int32.le_iff_toInt_le.2 (by rw [hind]; exact Int.natCast_nonneg n)
  have hnat : ind.toUInt32.toNat = n := by
    rw [Int32.toNat_toUInt32_of_le hnonneg]
    show ind.toInt.toNat = n
    omega
  have hadd : (ind.toUInt32 + len).toNat = n + len.toNat := by
    rw [UInt32.toNat_add, hnat]
    omega
  rw [toInt_toInt32 (by omega), hadd, Nat.cast_add]

lemma Data.toNat_len (data : Data) : data.len.toNat = data.bytes.length :=
  UInt32.toNat_ofNat_of_lt' data.short

lemma memcpy_eq {n : ℕ} {src : List UInt8} {mem : Buf rsc.len.toNat} (h : n + src.length ≤ rsc.len.toNat) :
    memcpy (rsc.da.toNat + n) src mem = some (mem.write n src h) := by
  have hin : (rsc.da.toNat : ℤ) ≤ rsc.da.toNat + n ∧
      (rsc.da.toNat : ℤ) + n + src.length ≤ rsc.da.toNat + rsc.len.toNat := by omega
  unfold memcpy
  rw [dif_pos hin]
  congr 2
  omega

lemma append_spec (hr : Usable rsc) {s : State rsc} {text : List UInt8} (hbuf : s.traceBuf = rsc.da)
    (hsize : s.traceSize = rsc.len.toInt32) (hs : Holds text s) (hle : text.length ≤ rsc.len.toNat)
    (data : Data) : ∃ mem traceInd, append data s = some { s with mem, traceInd } ∧
      Holds (if data.bytes.length < rsc.len.toNat - text.length then text ++ data.bytes else text)
        { s with mem, traceInd } := by
  have hlen := hr.len
  have hfits : data.len < (s.traceSize - s.traceInd).toUInt32 ↔
      data.bytes.length < rsc.len.toNat - text.length := by
    rw [UInt32.lt_iff_toNat_lt, data.toNat_len, hsize, toNat_space hlen hs.ind hle]
  unfold append
  by_cases hlt : data.bytes.length < rsc.len.toNat - text.length
  · have hfit : text.length + data.bytes.length ≤ rsc.len.toNat := by omega
    have hsum : text.length + data.len.toNat < 2 ^ 31 := by
      rw [data.toNat_len]
      omega
    rw [if_pos (hfits.2 hlt), if_pos hlt, hbuf, hs.ind, memcpy_eq hfit]
    refine ⟨_, _, rfl, ?_, ?_⟩
    · rw [toInt_behind hs.ind hsum, data.toNat_len, List.length_append, Nat.cast_add]
    · rw [List.length_append, Buf.read_write, hs.read]
  · rw [if_neg (hfits.not.2 hlt), if_neg hlt]
    exact ⟨s.mem, s.traceInd, rfl, hs⟩

lemma transmit_eq (fd : Fd) (data : Data) (up : Bool) (s : State rsc) :
    ∃ sent, (transmit fd data up s).2 = { s with sent } := by
  cases fd with
  | stdout =>
    cases up with
    | true => exact ⟨_, rfl⟩
    | false => exact ⟨s.sent, rfl⟩
  | stderr => exact ⟨s.sent, rfl⟩
  | three => exact ⟨s.sent, rfl⟩

lemma sent_transmit {n : Config.VarCount} {κ δ ε : Type} (m : Mem n κ δ ε) (data : Data) (s : State rsc) :
    (transmit .stdout data (m.rpmsgStdio.isSome && m.stdioInit) s).2.sent =
      s.sent ++ (Main.write m data.bytes).map Prod.snd := by
  unfold transmit Main.write
  by_cases hup : m.rpmsgStdio.isSome ∧ m.stdioInit
  · rw [if_pos hup, if_pos (Bool.and_eq_true_iff.2 hup), List.map_map]
    exact congrArg (s.sent ++ ·) (List.map_id _).symm
  · rw [if_neg hup, if_neg fun h => hup (Bool.and_eq_true_iff.1 h)]
    exact (List.append_nil _).symm

/-- **A call of `_write`** does not touch the variables of `outbyte`. -/
theorem write_spec (hr : Usable rsc) {s : State rsc} (h : Traced s) (fd : Fd) (data : Data) (up : Bool) :
    ∃ s', write fd data up s = some (data.len, s') ∧ Traced s' ∧ s'.buf = s.buf ∧ s'.ind = s.ind ∧
      s'.handed = s.handed ∧ s'.written = s.written ++ [data.bytes] := by
  have hload := load_eq hr (s := { s with written := s.written ++ [data.bytes] }) h.settings
  obtain ⟨sent, hsent⟩ := transmit_eq fd data up
    (load { s with written := s.written ++ [data.bytes] })
  rw [hload] at hsent
  unfold write
  dsimp only
  rw [hload, hsent, if_pos hr.da]
  obtain ⟨mem, traceInd, happ, hholds⟩ := append_spec hr
    (s := { s with
      written := s.written ++ [data.bytes], traceBuf := rsc.da, traceSize := rsc.len.toInt32, sent })
    rfl rfl ⟨h.holds.ind, h.holds.read⟩ (length_kept_le ..) data
  rw [happ]
  refine ⟨_, rfl, ⟨.inl ⟨rfl, rfl⟩, ?_⟩, rfl, rfl, rfl, rfl⟩
  rw [kept_concat]
  exact ⟨hholds.ind, hholds.read⟩

/-! ### `outbyte` -/

/-- The characters that `outbyte` was called with are the chunks it has handed to `_write`, and what is in
its buffer. -/
structure Buffered (chars : List UInt8) (s : State rsc) : Prop where
  ind : s.ind < dataLenMax - 2
  chars : s.handed.flatten ++ s.buf.read s.ind = chars

lemma handOver_spec (hr : Usable rsc) {s : State rsc} (h : Traced s) (up : Bool) :
    ∃ s', handOver up s = some s' ∧ Traced s' ∧ s'.ind = 0 ∧
      s'.handed = s.handed ++ [s.buf.read s.ind] := by
  obtain ⟨s', hw, htraced, -, -, hhanded, -⟩ :=
    write_spec hr (s := { s with handed := s.handed ++ [s.line.bytes] })
      ⟨h.settings, h.holds.ind, h.holds.read⟩ .stderr s.line up
  refine ⟨{ s' with ind := 0 }, ?_, ⟨htraced.settings, htraced.holds.ind, htraced.holds.read⟩, rfl, hhanded⟩
  unfold handOver
  rw [hw]
  rfl

theorem outbyte_spec (hr : Usable rsc) {s : State rsc} {chars : List UInt8} (h : Traced s)
    (hs : Buffered chars s) (ch : UInt8) (up : Bool) :
    ∃ s', outbyte ch up s = some s' ∧ Traced s' ∧ Buffered (chars ++ [ch]) s' := by
  have hmax : dataLenMax = 496 := rfl
  have hind := hs.ind
  have hfit : s.ind + [ch].length ≤ dataLenMax := by
    rw [List.length_singleton]
    omega
  have hread : (s.buf.write s.ind [ch] hfit).read (s.ind + 1) = s.buf.read s.ind ++ [ch] :=
    Buf.read_write s.buf hfit
  unfold outbyte
  rw [dif_pos hfit]
  dsimp only
  split
  · obtain ⟨s', hover, htraced, hzero, hhanded⟩ := handOver_spec hr
      (s := { s with buf := s.buf.write s.ind [ch] hfit, ind := s.ind + 1 })
      ⟨h.settings, h.holds.ind, h.holds.read⟩ up
    refine ⟨s', hover, htraced, ?_, ?_⟩
    · rw [hzero]
      decide
    · -- the buffer is empty again
      rw [hzero, hhanded, List.flatten_concat]
      show s.handed.flatten ++ Buf.read _ (s.ind + 1) ++ [] = _
      rw [hread, List.append_nil, ← hs.chars, List.append_assoc]
  · rename_i hnot
    refine ⟨_, rfl, ⟨h.settings, h.holds.ind, h.holds.read⟩, ?_, ?_⟩
    · show s.ind + 1 < dataLenMax - 2
      omega
    · show s.handed.flatten ++ Buf.read _ (s.ind + 1) = _
      rw [hread, ← hs.chars, List.append_assoc]

/-! ### Every run -/

lemma step_spec (hr : Usable rsc) {s : State rsc} {chars : List UInt8} (h : Traced s)
    (hs : Buffered chars s) (e : Event) :
    ∃ s', step s e = some s' ∧ Traced s' ∧ Buffered (chars ++ e.chars) s' := by
  cases e with
  | outbyte ch up => exact outbyte_spec hr h hs ch up
  | write fd data up =>
    obtain ⟨s', hw, htraced, hbuf, hind, hhanded, -⟩ := write_spec hr h fd data up
    refine ⟨s', ?_, htraced, hind ▸ hs.ind, ?_⟩
    · show (write fd data up s).map Prod.snd = _
      rw [hw]
      rfl
    · show s'.handed.flatten ++ s'.buf.read s'.ind = chars ++ []
      rw [hhanded, hbuf, hind, hs.chars, List.append_nil]

lemma run_spec (hr : Usable rsc) (mem : Buf rsc.len.toNat) (es : List Event) :
    ∃ s, run step (start mem) es = some s ∧ Traced s ∧ Buffered (es.flatMap Event.chars) s := by
  induction es using List.reverseRecOn with
  | nil =>
    refine ⟨start mem, rfl, ⟨.inr ⟨rfl, rfl, rfl⟩, rfl, rfl⟩, ?_, rfl⟩
    show 0 < dataLenMax - 2
    decide
  | append_singleton es e ih =>
    obtain ⟨s, hs, htraced, hbuf⟩ := ih
    obtain ⟨s', hstep, htraced', hbuf'⟩ := step_spec hr htraced hbuf e
    refine ⟨s', run_concat_eq_some.2 ⟨s, hs, hstep⟩, htraced', ?_⟩
    rw [List.flatMap_append, List.flatMap_singleton]
    exact hbuf'

lemma Traced.traceInd_le (hr : Usable rsc) {s : State rsc} (h : Traced s) :
    s.traceInd.toInt ≤ s.traceSize.toInt := by
  obtain ⟨-, hsize⟩ | ⟨-, hsize, hind⟩ := h.settings
  · have hle := length_kept_le rsc.len.toNat s.written
    rw [hsize, toInt_toInt32 hr.len, h.holds.ind]
    omega
  · rw [hsize, hind]

/-- **The trace is line-buffered without corruption**, for every order of the calls: `outbyte` stays in its
buffer and loses no character, `_write` copies nothing outside of the trace buffer, and the trace is that
of the chunks which were shorter than the space that was left. -/
theorem run_trace (rsc : FwRscTrace) (hr : Usable rsc) (mem : Buf rsc.len.toNat) (es : List Event) :
    ∃ s, run step (start mem) es = some s ∧ s.ind < dataLenMax ∧
      s.handed.flatten ++ s.buf.read s.ind = es.flatMap Event.chars ∧
      0 ≤ s.traceInd.toInt ∧ s.traceInd.toInt ≤ s.traceSize.toInt ∧
      s.mem.read s.traceInd.toInt.toNat = kept rsc.len.toNat s.written := by
  obtain ⟨s, hrun, htraced, hbuf⟩ := run_spec hr mem es
  have hind := htraced.holds.ind
  refine ⟨s, hrun, hbuf.ind.trans_le (Nat.sub_le ..), hbuf.chars, ?_, htraced.traceInd_le hr, ?_⟩
  · rw [hind]
    exact Int.natCast_nonneg _
  · rw [hind]
    exact htraced.holds.read

/-- Four calls, and a trace of four bytes. -/
theorem small_trace : Usable ⟨0x8000, 4⟩ ∧
    ∃ s, run step (start (.zero 4) : State ⟨0x8000, 4⟩) [.outbyte 97 true,
        .write .three ⟨[1, 2, 3, 4], by decide⟩ true, .outbyte 10 true,
        .write .stdout ⟨[98], by decide⟩ true] = some s ∧ s.ind < dataLenMax ∧
      s.handed.flatten ++ s.buf.read s.ind = [97, 10] ∧
      0 ≤ s.traceInd.toInt ∧ s.traceInd.toInt ≤ s.traceSize.toInt ∧
      s.mem.read s.traceInd.toInt.toNat = kept 4 s.written :=
  ⟨⟨by decide, by decide⟩, run_trace ⟨0x8000, 4⟩ ⟨by decide, by decide⟩ (.zero 4) _⟩

end CfgMgmt.Firmware.Trace
