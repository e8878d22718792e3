import CfgMgmt.Kernel.RpmsgLink

/-!
# The files of the kernel module (`cfg_mgmt_main.c`)

Clients open, read, write and close the files of the variables and the file `load_list`.  A call that
sleeps is split at its wait: the phase of its file tells where it continues.  `step` interleaves the
calls of all clients with the replies of the firmware; it is `none` for what cannot happen in a state,
and for the access through a null pointer.
-/

namespace CfgMgmt.Kernel.Files

open CfgMgmt.Lib.Bytes CfgMgmt.Kernel.Linux CfgMgmt.Kernel.RpmsgLink

/-! ### Data -/

/-- `struct var_access_info`. -/
structure VarAccessInfo where
  index : Int32
  type : Access
  deriving DecidableEq

/-- The four kinds of files of a variable, each with its directory and its array of access records. -/
inductive Kind
  | val
  | min
  | max
  | desc
  deriving DecidableEq

namespace Kind

def all : List Kind := [val, min, max, desc]

def access : Kind → Access
  | val => .val
  | min => .min
  | max => .max
  | desc => .desc

def dirName : Kind → String
  | val => "val"
  | min => "min"
  | max => "max"
  | desc => "desc"

end Kind

/-- A file of a variable, with the record its `i_private` points to, or `load_list`, which has none. -/
inductive Inode
  | var (info : VarAccessInfo)
  | loadList

/-- Where the call on a file that is in progress continues. -/
inductive Phase
  /-- no call that changes the file is in progress -/
  | ready
  /-- `debugfs_open_ll` is before `get_n_vars` -/
  | load
  /-- `debugfs_open_ll` waits in `get_n_vars` -/
  | count
  /-- `debugfs_open_ll` is at the head of its loop over the `n` variables -/
  | query (i n : ℕ)
  /-- `debugfs_open_ll` waits for the name of the variable `i` -/
  | name (i n : ℕ)
  /-- `debugfs_release_var` waits for the reply to its write request -/
  | closing
  deriving DecidableEq

/-- `struct file`. -/
structure File where
  inode : Inode
  fModeRead : Bool
  fModeWrite : Bool
  nonblock : Bool
  pos : ℤ
  privateData : Ptr
  phase : Phase

/-- A file in debugfs.  Without a directory it is in the root of debugfs; `data` is its record, by array
and index. -/
structure DebugfsFile where
  name : List UInt8
  parent : Option Kind
  data : ℕ × ℕ
  deriving DecidableEq

/-- What a system call returned. -/
inductive Result
  | opened (ret : Int32)
  | read (ret : Except Int32 (List UInt8))
  | wrote (ret : Except Int32 ℕ)
  | released (ret : Int32)
  deriving DecidableEq

/-- The name of an open file. -/
abbrev FileId : Type := ℕ

/-- The state of the module and of its files. -/
structure Driver where
  link : Link
  /-- `val_access`, `min_access`, `max_access` and `desc_access` -/
  accessArray : Kind → Option ℕ
  /-- the arrays that were allocated -/
  records : ℕ → ℕ → VarAccessInfo
  arrays : ℕ
  /-- `val_dir_p`, `min_dir_p`, `max_dir_p` and `desc_dir_p` -/
  dirP : Kind → Option Kind
  /-- the directories and files that exist -/
  dirs : List Kind
  debugfs : List DebugfsFile
  files : FileId → Option File
  /-- what the calls have returned -/
  log : List (FileId × Result)

namespace Driver

def setFile (f : FileId) (file : Option File) (k : Driver) : Driver :=
  { k with files := Function.update k.files f file }

def setPhase (f : FileId) (file : File) (phase : Phase) (k : Driver) : Driver :=
  k.setFile f (some { file with phase })

def modifyTrans (file : File) (g : Transaction → Transaction) (k : Driver) : Driver :=
  { k with link := k.link.modify file.privateData g }

def transOf (file : File) (k : Driver) : Transaction := k.link.trans file.privateData

def returns (f : FileId) (r : Result) (k : Driver) : Driver := { k with log := k.log ++ [(f, r)] }

/-- A call of `debugfs_release_var` returns: the file is closed. -/
def closed (f : FileId) (ret : Int32) (k : Driver) : Driver :=
  (k.setFile f none).returns f (.released ret)

/-- `rpmsg_link_return_trans` for the struct of a file. -/
def returnTrans (file : File) (k : Driver) : Driver :=
  { k with link := k.link.returnTrans file.privateData }

/-! ### Variable files -/

section Calls

variable (kstrtol : List UInt8 → Int32 × Int32)

/-- `access_var` for the struct of a file, where `send` is the result of `rpmsg_send`. -/
def accessVar (file : File) (info : VarAccessInfo) (send : Int32) (k : Driver) : Int32 × Driver :=
  let (ret, link) := k.link.accessVar kstrtol info.index info.type (some file.privateData) send
  (ret, { k with link })

/-- The end of `debugfs_open_var`, which prepares the struct for writing. -/
def openedForWriting (f : FileId) (file : File) (k : Driver) : Driver :=
  let k :=
    if file.fModeWrite then
      k.modifyTrans file fun x => { x with rnw := false, valid := true }
    else k
  k.returns f (.opened 0)

def debugfsOpenVar (f : FileId) (info : VarAccessInfo) (fModeRead fModeWrite nonblock mem : Bool)
    (send : Int32) (k : Driver) : Option Driver := do
  let (t, link) ← k.link.allocTrans mem
  let file : File := ⟨.var info, fModeRead, fModeWrite, nonblock, 0, t, .ready⟩
  let k := { k with link }.setFile f (some file)
  if fModeRead then
    let k := k.modifyTrans file fun x => { x with rnw := true, wq := true }
    let (ret, k) := k.accessVar kstrtol file info send
    if ret = 0 then some (k.returns f (.opened ret)) else some (k.openedForWriting f file)
  else
    some (k.openedForWriting f file)

/-- Move the position of a file, unless the call came with a position of its own. -/
def seek (f : FileId) (file : File) (own : Option ℤ) (pos : ℤ) (k : Driver) : Driver :=
  match own with
  | none => k.setFile f (some { file with pos })
  | some _ => k

/-- `debugfs_read_var`.  A blocking call gets here when it does not sleep any more, which is
before the struct is valid only if a signal has interrupted it (`intr`). -/
def debugfsReadVar (f : FileId) (file : File) (len : ℕ) (own : Option ℤ) (intr : Bool)
    (uncopied : ℕ) (k : Driver) : Option Driver :=
  let t := k.transOf file
  if !t.valid then
    if file.nonblock then
      some (k.returns f (.read (.error (-eagain))))
    else if intr then
      some (k.returns f (.read (.error (-erestartsys))))
    else none
  else if t.err ≠ 0 then
    let err := if t.err > 0 then -t.err else t.err
    some ((k.modifyTrans file fun x => { x with err }).returns f (.read (.error err)))
  else
    let (r, pos) := simpleReadFromBuffer len (own.getD file.pos) t.buf.bytes t.len.toUInt32.toNat
      uncopied
    some ((k.seek f file own pos).returns f (.read r))

def debugfsWriteVar (f : FileId) (file : File) (data : List UInt8) (own : Option ℤ) (uncopied : ℕ)
    (k : Driver) : Driver :=
  let k := k.modifyTrans file fun x => { x with dirty := true }
  let (r, pos, buf) := simpleWriteToBuffer (k.transOf file).buf (own.getD file.pos) data uncopied
  ((k.modifyTrans file fun x => { x with buf }).seek f file own pos).returns f (.wrote r)

/-- `debugfs_release_var` up to its wait. -/
def debugfsReleaseVar (f : FileId) (file : File) (send : Int32) (k : Driver) : Option Driver :=
  if file.fModeWrite ∧ (k.transOf file).dirty then
    match file.inode with
    | .loadList => none
    | .var info =>
      if info.type ≠ .val then
        some ((k.returnTrans file).closed f (-einval))
      else
        let k := k.modifyTrans file fun x => { x with wq := true, valid := false }
        let (ret, k) := k.accessVar kstrtol file info send
        if ret ≠ 0 then
          some ((k.returnTrans file).closed f ret)
        else
          some (k.setPhase f file .closing)
  else
    some ((k.returnTrans file).closed f 0)

/-- `debugfs_release_var` after its wait. -/
def debugfsReleaseVarWoken (f : FileId) (file : File) (intr : Bool) (k : Driver) : Option Driver :=
  if !(k.transOf file).valid then
    if intr then some (k.closed f (-erestartsys)) else none
  else if (k.transOf file).err ≠ 0 then
    some (k.closed f (-efault))
  else
    some ((k.returnTrans file).closed f 0)

/-! ### `load_list` -/

/-- `debugfs_open_ll` returns with a text in the buffer. -/
def openedWith (f : FileId) (file : File) (s : List UInt8) (k : Driver) : Driver :=
  ((k.modifyTrans file fun x =>
      { Link.printText ioBufSize Link.ioBufSize_fits s x with valid := true, rnw := true }).setPhase f file
    .ready).returns f (.opened 0)

/-- What `debugfs_open_ll` prints when the number of variables is not positive. -/
def noVarsText (nVars : Int32) : List UInt8 :=
  ascii "Can't query the number of configuration variables from BM firmware: " ++
    decimal nVars.toInt ++ [10]

/-- `debugfs_open_ll` up to `get_n_vars`. -/
def debugfsOpenLl (f : FileId) (fModeRead fModeWrite nonblock mem : Bool) (k : Driver) :
    Option Driver := do
  let (t, link) ← k.link.allocTrans mem
  let file : File := ⟨.loadList, fModeRead, fModeWrite, nonblock, 0, t, .load⟩
  let k := { k with link }.setFile f (some file)
  if (k.accessArray .val).isSome then
    some (k.openedWith f file
      (ascii "Variables list was already loaded, can't reload (unimplemented)\n"))
  else
    some k

/-- `get_n_vars` in `debugfs_open_ll`, up to its wait. -/
def debugfsOpenLlCount (f : FileId) (file : File) (mem : Bool) (send : Int32) (k : Driver) :
    Option Driver := do
  let (ret, link) ← k.link.getNVars mem send
  let k := { k with link }
  if ret ≠ 0 then some (k.openedWith f file (noVarsText ret)) else some (k.setPhase f file .count)

/-- `alloc_mem`, for the kinds that are left; `mem` tells which allocations find memory. -/
def allocMem (mem : Kind → Bool) : List Kind → Driver → Int32 × Driver
  | [], k => (0, k)
  | kind :: rest, k =>
    if mem kind then
      allocMem mem rest { k with
        accessArray := Function.update k.accessArray kind (some k.arrays), arrays := k.arrays + 1 }
    else
      (-enomem, { k with accessArray := Function.update k.accessArray kind none })

/-- Create the directories that are left: the kind that fails, if one does.  `debugfs_create_dir` fails
for a name that exists already, and when there is no memory. -/
def createDirs (mem : Kind → Bool) : List Kind → Driver → Option Kind × Driver
  | [], k => (none, k)
  | kind :: rest, k =>
    if mem kind ∧ kind ∉ k.dirs then
      createDirs mem rest { k with
        dirP := Function.update k.dirP kind (some kind), dirs := kind :: k.dirs }
    else
      (some kind, { k with dirP := Function.update k.dirP kind none })

/-- `debugfs_open_ll` after the wait in `get_n_vars`, up to the loop. -/
def debugfsOpenLlCounted (f : FileId) (file : File) (intr : Bool) (mem dirMem : Kind → Bool)
    (k : Driver) : Option Driver :=
  if k.link.nVars < 0 then
    if intr then some (k.openedWith f file (noVarsText (-erestartsys))) else none
  else
    let nVars := k.link.nVars
    if nVars ≤ 0 then
      some (k.openedWith f file (noVarsText nVars))
    else
      let (ret, k) := k.allocMem mem Kind.all
      if ret ≠ 0 then
        some (k.openedWith f file (ascii "Memory allocation failed: " ++ decimal ret.toInt ++ [10]))
      else
        let (failed, k) := k.createDirs dirMem Kind.all
        match failed with
        | some kind =>
          some (k.openedWith f file (ascii "Can't create debugfs dir '" ++ ascii kind.dirName ++
            ascii "' " ++ decimal ret.toInt ++ [10]))
        | none => some (k.setPhase f file (.query 0 nVars.toInt.toNat))

/-- The record of the variable `i` in the array of a kind. -/
def setRecord (i : ℕ) (k : Driver) (kind : Kind) : Option Driver := do
  let a ← k.accessArray kind
  some { k with
    records := Function.update k.records a
      (Function.update (k.records a) i ⟨Int32.ofNat i, kind.access⟩) }

/-- The head of the loop of `debugfs_open_ll`: query the next name, or end. -/
def debugfsOpenLlQuery (f : FileId) (file : File) (i n : ℕ) (send : Int32) (k : Driver) :
    Option Driver :=
  if i < n then do
    let k ← Kind.all.foldlM (setRecord i) k
    let k := k.modifyTrans file fun x =>
      { x with dirty := false, rnw := true, valid := false, len := 0, wq := true }
    let (ret, k) := k.accessVar kstrtol file ⟨Int32.ofNat i, .name⟩ send
    if ret < 0 then
      some (k.setPhase f file (.query (i + 1) n))
    else
      some (k.setPhase f file (.name i n))
  else
    some (k.openedWith f file (ascii "ok\n"))

/-- `debugfs_create_file` for the variable `i` in the directory of a kind.  It fails for a name that
exists already, and where `mem` says so: without memory, and for a name that it refuses (the empty one, `.`
and `..`, one with a `/`, one of more than 255 bytes). -/
def createFile (name : List UInt8) (i : ℕ) (mem : Kind → Bool) (k : Driver) (kind : Kind) :
    Option Driver := do
  let a ← k.accessArray kind
  if mem kind ∧ ∀ x ∈ k.debugfs, ¬ (x.name = name ∧ x.parent = k.dirP kind) then
    some { k with debugfs := ⟨name, k.dirP kind, (a, i)⟩ :: k.debugfs }
  else
    some k

/-- The loop of `debugfs_open_ll` after the wait for a name. -/
def debugfsOpenLlNamed (f : FileId) (file : File) (i n : ℕ) (intr : Bool) (mem : Kind → Bool)
    (k : Driver) : Option Driver :=
  if !(k.transOf file).valid then
    if intr then
      some (k.openedWith f file (ascii "debugfs_open_ll: interrupted\n"))
    else none
  else do
    let k ← Kind.all.foldlM (createFile (cstr (k.transOf file).buf.bytes) i mem) k
    some (k.setPhase f file (.query (i + 1) n))

end Calls

end Driver

/-! ### The machine -/

/-- What can happen next.  The last arguments of a call are what the rest of the kernel does in it. -/
inductive Event
  | openVar (f : FileId) (info : VarAccessInfo) (fModeRead fModeWrite nonblock : Bool)
      (mem : Bool) (send : Int32)
  | read (f : FileId) (len : ℕ) (own : Option ℤ) (intr : Bool) (uncopied : ℕ)
  | write (f : FileId) (data : List UInt8) (own : Option ℤ) (uncopied : ℕ)
  | release (f : FileId) (send : Int32)
  | releaseWoken (f : FileId) (intr : Bool)
  | openLl (f : FileId) (fModeRead fModeWrite nonblock : Bool) (mem : Bool)
  | llCount (f : FileId) (mem : Bool) (send : Int32)
  | llCounted (f : FileId) (intr : Bool) (mem dirMem : Kind → Bool)
  | llQuery (f : FileId) (send : Int32)
  | llNamed (f : FileId) (intr : Bool) (mem : Kind → Bool)
  /-- a message from the firmware is passed to `cfg_mgmt_rpmsg_cb` -/
  | reply (data : List UInt8)

/-- The module after `cm_init` and `cfg_mgmt_probe`. -/
def Driver.probed : Driver where
  link := Link.rpmsgLinkInit
  accessArray _ := none
  records _ _ := ⟨0, .unknown⟩
  arrays := 0
  dirP _ := none
  dirs := []
  debugfs := []
  files _ := none
  log := []

lemma Driver.not_files_probed {f : FileId} {file : File} : Driver.probed.files f ≠ some file :=
  (Option.some_ne_none file).symm

section Machine

variable (kstrtol : List UInt8 → Int32 × Int32)

def step (k : Driver) : Event → Option Driver
  | .openVar f info fModeRead fModeWrite nonblock mem send =>
    if (k.files f).isSome then none
    else k.debugfsOpenVar kstrtol f info fModeRead fModeWrite nonblock mem send
  | .openLl f fModeRead fModeWrite nonblock mem =>
    if (k.files f).isSome then none
    else k.debugfsOpenLl f fModeRead fModeWrite nonblock mem
  | .reply data => some { k with link := k.link.rpmsgCb data }
  | .read f len own intr uncopied => do
    let file ← k.files f
    match file.phase, file.fModeRead with
    | .ready, true => k.debugfsReadVar f file len own intr uncopied
    | _, _ => none
  | .write f data own uncopied => do
    let file ← k.files f
    match file.phase, file.inode, file.fModeWrite with
    | .ready, .var _, true => some (k.debugfsWriteVar f file data own uncopied)
    | _, _, _ => none
  | .release f send => do
    let file ← k.files f
    match file.phase with
    | .ready => k.debugfsReleaseVar kstrtol f file send
    | _ => none
  | .releaseWoken f intr => do
    let file ← k.files f
    match file.phase with
    | .closing => k.debugfsReleaseVarWoken f file intr
    | _ => none
  | .llCount f mem send => do
    let file ← k.files f
    match file.phase with
    | .load => k.debugfsOpenLlCount f file mem send
    | _ => none
  | .llCounted f intr mem dirMem => do
    let file ← k.files f
    match file.phase with
    | .count => k.debugfsOpenLlCounted f file intr mem dirMem
    | _ => none
  | .llQuery f send => do
    let file ← k.files f
    match file.phase with
    | .query i n => k.debugfsOpenLlQuery kstrtol f file i n send
    | _ => none
  | .llNamed f intr mem => do
    let file ← k.files f
    match file.phase with
    | .name i n => k.debugfsOpenLlNamed f file i n intr mem
    | _ => none

end Machine

end CfgMgmt.Kernel.Files
