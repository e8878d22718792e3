import CfgMgmt.Firmware.Config
import CfgMgmt.Firmware.Remoteproc

/-!
# The firmware (`main.c`)

The firmware announces a channel for its standard output, waits for the kernel's first message on it,
announces the channel of the configuration variables and then polls the transport for ever.  The
callbacks of the variables may print.
-/

namespace CfgMgmt.Firmware.Main

open CfgMgmt.Lib.Bytes CfgMgmt.Msg CfgMgmt.Firmware.Config CfgMgmt.Firmware.Remoteproc

/-- The functions that are registered as callbacks of channels. -/
inductive Handler
  | stdioMsgHandler
  | configMsgHandler
  deriving DecidableEq

/-- The memory of the application: the variables, the memory `ext` of their callbacks, and the global
variables of `config.c` and `main.c`. -/
structure Mem (n : VarCount) (κ δ ε : Type) where
  vars : Table n κ δ
  ext : ε
  cfgMsgTxBuf : CfgMsg
  rpmsgConfig : Option (Fin maxRpmsgCh)
  rpmsgStdio : Option (Fin maxRpmsgCh)
  stdioInit : Bool

/-- The calls of `rpmsg_send` a function makes. -/
abbrev Sends : Type := List (Option (Fin maxRpmsgCh) × List UInt8)

section Functions

variable {n : VarCount} {κ δ ε : Type} (sem : CbSem n κ δ ε (List UInt8)) (env : Env)

/-! ### Output -/

/-- The loop of `_write`: chunks as big as possible. -/
def chunks (text : List UInt8) : List (List UInt8) :=
  if 0 < text.length then
    text.take (dataLenMax - 1) :: chunks (text.drop (dataLenMax - 1))
  else []
termination_by text.length
decreasing_by
  have : 0 < dataLenMax - 1 := by decide
  rw [List.length_drop]
  omega

/-- `_write(STDOUT_FILENO, …)`. -/
def write (m : Mem n κ δ ε) (text : List UInt8) : Sends :=
  if m.rpmsgStdio.isSome ∧ m.stdioInit then
    (chunks text).map fun chunk => (m.rpmsgStdio, chunk)
  else []

/-- What the functions of `config.c` print and send. -/
def outSends (m : Mem n κ δ ε) (out : List (List UInt8 ⊕ CfgMsg)) : Sends :=
  out.flatMap fun
    | .inl text => write m text
    | .inr rep => [(m.rpmsgConfig, rep.encode)]

/-! ### The callbacks of the channels -/

/-- The message in the data area of a packet. -/
def cfgMsg (data : Buf dataLenMax) : CfgMsg := .decode data.bytes (by rw [data.size]; decide)

def stdioMsgHandler (len : UInt16) (m : Mem n κ δ ε) : CbResult (Mem n κ δ ε) :=
  if !m.stdioInit then
    ⟨{ m with stdioInit := true }, [], none⟩
  else
    ⟨m, [], some len.toNat⟩

/-- `config_msg_handler` on the memory of the application. -/
def configMsgHandler (data : Buf dataLenMax) (m : Mem n κ δ ε) : Option (CbResult (Mem n κ δ ε)) :=
  do
  let c ← Config.configMsgHandler sem (cfgMsg data) ⟨⟨m.vars, m.ext, []⟩, m.cfgMsgTxBuf⟩
  some ⟨{ m with vars := c.w.vars, ext := c.w.ext, cfgMsgTxBuf := c.txBuf }, outSends m c.w.out, none⟩

def handlers : App Handler (Mem n κ δ ε)
  | .stdioMsgHandler, _, _, len, m => some (stdioMsgHandler len m)
  | .configMsgHandler, _, data, _, m => configMsgHandler sem data m

/-! ### Initialisation -/

/-- The memory of the firmware. -/
abbrev State (n : VarCount) (κ δ ε : Type) : Type := Fw Handler (Mem n κ δ ε)

/-- The global variables as they are loaded. -/
def Mem.loaded (vars : Table n κ δ) (ext : ε) : Mem n κ δ ε := ⟨vars, ext, .zero, none, none, false⟩

/-- The memory when `main` begins: the global variables are as they are loaded.  What is in the rings and in
the buffers is the kernel's. -/
structure Loaded (vars : Table n κ δ) (ext : ε) (s : State n κ δ ε) : Prop where
  app : s.app = .loaded vars ext
  nextRpmsgAddr : s.nextRpmsgAddr = appAddrStart
  log : s.log = []

lemma loaded_prepared (vars : Table n κ δ) (ext : ε) : Loaded vars ext (Fw.prepared (Mem.loaded vars ext)) :=
  ⟨rfl, rfl, rfl⟩

def bmStdio : CStr := ⟨[98, 109, 95, 115, 116, 100, 105, 111], by decide⟩

def cfgMgmt : CStr := ⟨[99, 102, 103, 95, 109, 103, 109, 116], by decide⟩

def cfgInit (s : State n κ δ ε) : Except Stop (State n κ δ ε) := do
  let (rpmsgConfig, s) ← rpmsgCreateCh env cfgMgmt (some .configMsgHandler) s
  .ok { s with app := { s.app with rpmsgConfig } }

/-- The loop of `main` that waits for the first message of the kernel, for the given numbers of rounds
of its calls of `rpmsg_poll`. -/
def waitStdio : List ℕ → State n κ δ ε → Except Stop (State n κ δ ε)
  | [], s => if s.app.stdioInit then .ok s else .error .waiting
  | rounds :: rest, s =>
    if s.app.stdioInit then
      .ok s
    else do
      let (_, s) ← rpmsgPoll (handlers sem) env rounds s
      waitStdio rest s

/-- `main` up to the return of `cfgInit`. -/
def boot (s : State n κ δ ε) (polls : List ℕ) : Except Stop (State n κ δ ε) := do
  let s := remoteprocInit s
  let (rpmsgStdio, s) ← rpmsgCreateCh env bmStdio (some .stdioMsgHandler) s
  let s ← waitStdio sem env polls { s with app := { s.app with rpmsgStdio } }
  let s ← cfgInit env s
  .ok { s with log := [] }

/-! ### The firmware at work -/

/-- What the firmware does after `cfgInit`. -/
inductive Act (κ δ ε : Type)
  /-- the main loop calls `rpmsg_poll` -/
  | poll (rounds : ℕ)
  | print (text : List UInt8)
  | setCallback (id : Int32) (cb : Option κ) (read : Bool) (data : δ)
  | setId (id val : Int32) (trigCb : Bool)
  /-- the rest of the firmware changes its own memory -/
  | setExt (ext : ε)

/-- What one of them does. -/
def act (s : State n κ δ ε) : Act κ δ ε → Except Stop (State n κ δ ε)
  | .poll rounds => do
    let (_, s) ← rpmsgPoll (handlers sem) env rounds s
    .ok s
  | .print text => rpmsgSends env (write s.app text) s
  | .setCallback id cb read data =>
    .ok { s with app := { s.app with vars := (cfgSetCallback id cb read data s.app.vars).2 } }
  | .setId id val trigCb =>
    match cfgSetId sem id val trigCb ⟨s.app.vars, s.app.ext, []⟩ with
    | none => .error .fault
    | some (_, w) =>
      rpmsgSends env (outSends s.app w.out)
        { s with app := { s.app with vars := w.vars, ext := w.ext } }
  | .setExt ext => .ok { s with app := { s.app with ext } }

/-- One of them, when it returns. -/
def step (s : State n κ δ ε) (a : Act κ δ ε) : Option (State n κ δ ε) := (act sem env s a).toOption

end Functions

end CfgMgmt.Firmware.Main
