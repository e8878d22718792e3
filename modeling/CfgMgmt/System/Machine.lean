import CfgMgmt.Firmware.Config
import CfgMgmt.Kernel.Matching
import CfgMgmt.Kernel.Sessions

/-!
# The kernel module and the firmware together

Clients call the kernel module; its requests and the replies of the firmware travel through two FIFO
channels.  `wire` and `replies` hold everything that was ever put into a channel, and a counter tells
how much of it has been taken out.  The history records what the clients did and saw; no step depends
on it.
-/

namespace CfgMgmt.System

open CfgMgmt.Lib CfgMgmt.Lib.Bytes CfgMgmt.Lib.Machine CfgMgmt.Msg CfgMgmt.Firmware.Config
open CfgMgmt.Kernel.Linux CfgMgmt.Kernel.RpmsgLink CfgMgmt.Kernel.Files CfgMgmt.Kernel.Structs
open CfgMgmt.Kernel.Calls CfgMgmt.Kernel.Sessions
open CfgMgmt.Kernel.Matching (Young)

/-! ### The history -/

/-- A close that has sent a request and returned 0. -/
structure Close where
  info : VarAccessInfo
  fModeRead : Bool
  /-- the text in the struct when the file was closed -/
  text : List UInt8
  /-- the position of the request on the wire -/
  request : ℕ

/-- A call of `read`, with the last request of its file, and the closes that had returned 0 when the
file was opened. -/
structure Read where
  info : VarAccessInfo
  request : ℕ
  earlier : List Close
  len : ℕ
  pos : ℤ
  uncopied : ℕ
  result : Except Int32 (List UInt8)

/-- What the history knows of an open file. -/
structure FileRecord where
  request : ℕ
  earlier : List Close
  text : List UInt8

structure History (n : VarCount) (κ δ ε ω : Type) where
  /-- the memory of the firmware that each request found -/
  found : List (World n κ δ ε ω)
  record : FileId → FileRecord
  /-- the index and the value of every accepted write -/
  writes : List (Int32 × Int32)
  reads : List Read
  closes : List Close

/-- The record a file was opened with. -/
def infoOf (file : File) : VarAccessInfo :=
  match file.inode with
  | .var info => info
  | .loadList => ⟨0, .unknown⟩

/-- The file is closed after a text was written to it that `kstrtol` accepts. -/
def AcceptedWrite (kstrtol : List UInt8 → Int32 × Int32) (k : Driver) (file : File) : Prop :=
  file.fModeWrite = true ∧ (k.transOf file).dirty = true ∧ (infoOf file).type = .val ∧
    (kstrtol (closingText k file)).1 = 0

instance (kstrtol : List UInt8 → Int32 × Int32) (k : Driver) (file : File) :
    Decidable (AcceptedWrite kstrtol k file) := by
  unfold AcceptedWrite
  infer_instance

section Observe

variable {n : VarCount} {κ δ ε ω : Type} (kstrtol : List UInt8 → Int32 × Int32)

/-- The history after a call that leads from `k` to `k'`. -/
def observe (k k' : Driver) (h : History n κ δ ε ω) : Kernel.Files.Event → History n κ δ ε ω
  | .openVar f .. =>
    { h with record := Function.update h.record f ⟨k.link.wire.length, h.closes, []⟩ }
  | .read f len own _ uncopied =>
    match k.files f, k'.log.getLast? with
    | some file, some (_, .read result) =>
      { h with reads := h.reads ++ [⟨infoOf file, (h.record f).request, (h.record f).earlier, len,
          own.getD file.pos, uncopied, result⟩] }
    | _, _ => h
  | .release f _ =>
    match k.files f with
    | some file =>
      { h with
        record := Function.update h.record f
          ⟨k.link.wire.length, (h.record f).earlier, closingText k file⟩
        writes := if AcceptedWrite kstrtol k file then
            h.writes ++ [((infoOf file).index, (kstrtol (closingText k file)).2)]
          else h.writes }
    | none => h
  | .releaseWoken f _ =>
    match k.files f, k'.log.getLast? with
    | some file, some (_, .released ret) =>
      if ret = 0 then
        { h with closes := h.closes ++
            [⟨infoOf file, file.fModeRead, (h.record f).text, (h.record f).request⟩] }
      else h
    | _, _ => h
  | _ => h

variable {kstrtol} {k k' : Driver} {h : History n κ δ ε ω} {f : FileId} {file : File}

lemma observe_read {len uncopied : ℕ} {own : Option ℤ} {intr : Bool}
    {result : Except Int32 (List UInt8)} (hf : k.files f = some file)
    (hl : k'.log = k.log ++ [(f, .read result)]) :
    observe kstrtol k k' h (.read f len own intr uncopied) =
      { h with reads := h.reads ++ [⟨infoOf file, (h.record f).request, (h.record f).earlier, len,
          own.getD file.pos, uncopied, result⟩] } := by
  simp [observe, hf, hl]

lemma observe_release {send : Int32} (hf : k.files f = some file) :
    observe kstrtol k k' h (.release f send) =
      { h with
        record := Function.update h.record f
          ⟨k.link.wire.length, (h.record f).earlier, closingText k file⟩
        writes := if AcceptedWrite kstrtol k file then
            h.writes ++ [((infoOf file).index, (kstrtol (closingText k file)).2)]
          else h.writes } := by
  simp only [observe, hf]

lemma observe_releaseWoken {intr : Bool} (hf : k.files f = some file)
    (hl : k'.log = k.log ++ [(f, .released 0)]) :
    observe kstrtol k k' h (.releaseWoken f intr) =
      { h with closes := h.closes ++
          [⟨infoOf file, file.fModeRead, (h.record f).text, (h.record f).request⟩] } := by
  simp [observe, hf, hl]

end Observe

/-! ### The machine -/

structure Sys (n : VarCount) (κ δ ε ω : Type) where
  k : Driver
  fw : Cfg n κ δ ε ω
  /-- how many requests the firmware has taken from the wire -/
  served : ℕ
  /-- the messages the firmware has handed to the transport -/
  replies : List CfgMsg
  /-- how many of them were delivered to the kernel module -/
  delivered : ℕ
  hist : History n κ δ ε ω

inductive Event
  /-- a call of a client, or its return from a wait -/
  | client (e : Kernel.Files.Event)
  /-- the firmware serves the next request -/
  | serve
  /-- the next reply reaches the kernel module -/
  | deliver

section Step

variable {n : VarCount} {κ δ ε ω : Type} (kstrtol : List UInt8 → Int32 × Int32)
  (sem : CbSem n κ δ ε ω)

/-- The replies that a call of the handler has added. -/
def newReplies (fw fw' : Cfg n κ δ ε ω) : List CfgMsg :=
  (fw'.w.out.drop fw.w.out.length).filterMap Sum.getRight?

def step (s : Sys n κ δ ε ω) : Event → Option (Sys n κ δ ε ω)
  | .client (.reply _) => none
  | .client e => do
    let k ← Kernel.Files.step kstrtol s.k e
    some { s with k, hist := observe kstrtol s.k k s.hist e }
  | .serve => do
    let req ← s.k.link.wire[s.served]?
    let fw ← configMsgHandler sem req s.fw
    some { s with
      fw, served := s.served + 1, replies := s.replies ++ newReplies s.fw fw
      hist := { s.hist with found := s.hist.found ++ [s.fw.w] } }
  | .deliver => do
    let rep ← s.replies[s.delivered]?
    let k ← Kernel.Files.step kstrtol s.k (.reply rep.encode)
    some { s with k, delivered := s.delivered + 1 }

/-- The state of the module when no file is open and no request is pending. -/
structure Idle where
  k : Driver
  sane : Sane k
  files : ∀ f, k.files f = none
  pendingList : k.link.pendingList = []
  wire : k.link.wire = []

def Idle.probed : Idle where
  k := .probed
  sane := (inv_probed : Inv True .probed).sane
  files _ := rfl
  pendingList := rfl
  wire := rfl

/-- The system before the clients come. -/
def start (idle : Idle) (fw : Cfg n κ δ ε ω) : Sys n κ δ ε ω where
  k := idle.k
  fw
  served := 0
  replies := []
  delivered := 0
  hist := ⟨[], fun _ => ⟨0, [], []⟩, [], [], []⟩

end Step

/-! ### The clients -/

/-- A file of a variable: its record has an index of the table, and reads a value, a limit or the
description. -/
def IsVar (n : VarCount) (info : VarAccessInfo) : Prop :=
  (∃ k, entry? n info.index = some k) ∧ info.type ≠ .name ∧ info.type ≠ .unknown

/-- What the clients do: they open files of variables, for reading or, if it is a file of a value, for
writing; whoever has opened a file for reading waits for the reply.  The transport accepts every
request, no wait is interrupted, and no request stays pending for more than `2 ^ 32` further ones. -/
def Polite {n : VarCount} {κ δ ε ω : Type} (s : Sys n κ δ ε ω) (e : Event) : Prop :=
  Young s.k ∧ match e with
    | .client (.openVar _ info fModeRead fModeWrite _ _ send) =>
      send = 0 ∧ IsVar n info ∧ (fModeWrite = true → info.type = .val) ∧
        (fModeRead = true ∨ fModeWrite = true)
    | .client (.read f _ _ intr _) =>
      intr = false ∧ ∀ file, s.k.files f = some file → (s.k.transOf file).valid = true
    | .client (.write ..) => True
    | .client (.release f send) => send = 0 ∧ ∀ file, s.k.files f = some file →
      file.fModeRead = true → (s.k.transOf file).valid = true
    | .client (.releaseWoken _ intr) => intr = false
    | .client _ => False
    | .serve => True
    | .deliver => True

instance (n : VarCount) (info : VarAccessInfo) : Decidable (IsVar n info) :=
  inferInstanceAs (Decidable (_ ∧ _ ∧ _))

instance {n : VarCount} {κ δ ε ω : Type} (s : Sys n κ δ ε ω) : (e : Event) → Decidable (Polite s e)
  | .client (.openVar ..) => inferInstanceAs (Decidable (_ ∧ _ ∧ _ ∧ _ ∧ _))
  | .client (.read f ..) => inferInstanceAs (Decidable (_ ∧ _ ∧ ∀ file ∈ s.k.files f, _))
  | .client (.write ..) => inferInstanceAs (Decidable (_ ∧ True))
  | .client (.release f _) => inferInstanceAs (Decidable (_ ∧ _ ∧ ∀ file ∈ s.k.files f, _))
  | .client (.releaseWoken ..) => inferInstanceAs (Decidable (_ ∧ _))
  | .client (.openLl ..) => inferInstanceAs (Decidable (_ ∧ False))
  | .client (.llCount ..) => inferInstanceAs (Decidable (_ ∧ False))
  | .client (.llCounted ..) => inferInstanceAs (Decidable (_ ∧ False))
  | .client (.llQuery ..) => inferInstanceAs (Decidable (_ ∧ False))
  | .client (.llNamed ..) => inferInstanceAs (Decidable (_ ∧ False))
  | .client (.reply ..) => inferInstanceAs (Decidable (_ ∧ False))
  | .serve => inferInstanceAs (Decidable (_ ∧ True))
  | .deliver => inferInstanceAs (Decidable (_ ∧ True))

end CfgMgmt.System
