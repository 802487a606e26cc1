import Mathlib.Data.List.TakeWhile
import PeridotSw.Client.Paths
import PeridotSw.Client.ResultRooms

/-!
# A session of the file service

Without worker threads the methods of `peridot_client_fs.c` run one after another, on the table
of descriptors and on the operating system.  A request is read first, down to the call it asks
for; what is answered is what the handler answers when the system answers as it does at that
time.
-/

namespace PeridotSw.Client.Session

open PeridotSw.Machine.Memory
open PeridotSw.Machine.Word
open PeridotSw.Machine.Noted
open PeridotSw.Bson.Read
open PeridotSw.Bson.Write
open PeridotSw.Bson.Pointers
open PeridotSw.Client.Handlers
open PeridotSw.Client.Paths
open PeridotSw.Client.ResultRooms (hashFile measureResponse value_hash)
open PeridotSw.Rpc.Reply (jsonrpcErrInvalidRequest offsetAt)

/-! ## The operating system -/

/-- The arguments of `open`. -/
structure OpenCall where
  path : CString
  flags : Int
  mode : Int

/-- What is done with a descriptor. -/
inductive FileCall where
  | close
  | read (len : Int)
  | write (data : List UInt8)
  | lseek (offset whence : Int)
  | ioctl (req : Int) (arg : Option (List UInt8))

inductive OsCall where
  | opens (call : OpenCall)
  | file (fd : Int) (call : FileCall)

/-- What the system answers in each of its states: a value, or what it sets `errno` to. -/
structure System (ω : Type) where
  openFile : ω → OpenCall → Except Int32 Nat × ω
  close : ω → Int → Option Int32 × ω
  read : ω → Int → Int → Except Int32 (List UInt8) × ω
  write : ω → Int → List UInt8 → Except Int32 Int32 × ω
  lseek : ω → Int → Int → Int → Except Int32 Int32 × ω
  ioctl : ω → Int → Int → Option (List UInt8) → Except Int32 (Int32 × List UInt8) × ω

/-! ## The table of descriptors -/

def vfdFree : Int := -1
def vfdAlloc : Int := -2
def vfdCanceled : Int := -3

/-- The settings of the package and the paths that may be opened. -/
structure Config where
  maxFds : Nat
  hashMd5 : Bool
  hashCrc32 : Bool
  entries : List PathEntry

/-- The table, the system, and the calls made of it. -/
structure State (ω : Type) where
  vfdList : List Int
  os : ω
  calls : List OsCall

def initial {ω : Type} (config : Config) (os : ω) : State ω where
  vfdList := List.replicate config.maxFds vfdFree
  os := os
  calls := []

variable {ω : Type}

def State.setVfd (state : State ω) (vfd : Nat) (value : Int) : State ω :=
  { state with vfdList := state.vfdList.set vfd value }

/-- Behind a call. -/
def State.asked (state : State ω) (call : OsCall) (os : ω) : State ω :=
  { state with os := os, calls := state.calls ++ [call] }

/-- The slot `peridot_client_fs_alloc_vfd` finds. -/
def allocVfd (vfdList : List Int) : Option Nat := vfdList.findIdx? (· = vfdFree)

/-! ## Requests -/

inductive Method where
  | fsOpen
  | fsClose
  | fsRead
  | fsHash
  | fsWrite
  | fsLseek
  | fsIoctl
  | fsCleanup
  deriving DecidableEq

/-- A request: its parameters in memory, what the variables of its handler hold, and what `malloc`
answers. -/
structure Request where
  method : Method
  memories : Memories
  stale : Fin 3 → Int
  params : Option Nat
  malloc : Nat → Int → Bool

def stringAt (memory : Mem) (place : Nat) : CString where
  bytes := (slice memory place ((strnlen place (2 ^ 32)).eval memory)).takeWhile (· ≠ 0)
  nulFree byte listed := by simpa using List.mem_takeWhile_imp listed

variable (config : Config) (system : System ω) (request : Request) (state : State ω)

def openCall (path : Nat) (flags mode : Int) : OpenCall :=
  ⟨stringAt request.memories.input path, flags, mode⟩

/-- What is outside of a handler at this time. -/
def outside : Outside where
  hashMd5 := config.hashMd5
  hashCrc32 := config.hashCrc32
  vfdList := state.vfdList
  validatePath path flags :=
    peridotClientFsValidatePath config.entries (stringAt request.memories.input path)
      (unsigned flags) ≠ 0
  malloc := request.malloc
  allocVfd := allocVfd state.vfdList
  openFile path flags mode := (system.openFile state.os (openCall request path flags mode)).1
  canceled := false
  close fd := (system.close state.os fd).1
  read fd len := (system.read state.os fd len).1
  write fd data := (system.write state.os fd data).1
  lseek fd offset whence := (system.lseek state.os fd offset whence).1
  ioctl fd req arg := (system.ioctl state.os fd req arg).1

/-- What a request asks for when it has been read; a slot comes with its descriptor. -/
inductive Command where
  | openPath (path : Nat) (flags mode : Int)
  | closeFd (found : Int × Int)
  | readFile (found : Int × Int) (len : Int)
  | hashFile (found : Int × Int) (len : Int) (method : Option Nat)
  | writeFile (found : Int × Int) (data : List UInt8)
  | seekFile (found : Int × Int) (offset whence : Int)
  | controlFile (found : Int × Int) (req : Int) (arg : Option (List UInt8))
  | cleanup

/-- The properties a handler reads. -/
def Request.keys : List Param :=
  match request.method with
  | .fsOpen =>
      [⟨keyPath, request.stale 0⟩, ⟨keyFlags, request.stale 1⟩, ⟨keyMode, request.stale 2⟩]
  | .fsClose => [⟨keyFd, request.stale 0⟩]
  | .fsRead => [⟨keyFd, request.stale 0⟩, ⟨keyLength, request.stale 1⟩]
  | .fsHash =>
      [⟨keyFd, request.stale 0⟩, ⟨keyLength, request.stale 1⟩, ⟨keyMethod, request.stale 2⟩]
  | .fsWrite => [⟨keyFd, request.stale 0⟩, ⟨keyData, request.stale 1⟩]
  | .fsLseek =>
      [⟨keyFd, request.stale 0⟩, ⟨keyOffset, request.stale 1⟩, ⟨keyWhence, request.stale 2⟩]
  | .fsIoctl =>
      [⟨keyFd, request.stale 0⟩, ⟨keyReq, request.stale 1⟩, ⟨keyArg, request.stale 2⟩]
  | .fsCleanup => []

/-- The properties, and the descriptor under the first of them. -/
def readFd (rest : List Param → Int × Int → Through (Except Int32 Command)) :
    Through (Except Int32 Command) := do
  let props ← getProps request.memories request.params request.keys
  if props.1 < 0 then
    pure (.error jsonrpcErrInvalidRequest)
  else
    match ← peridotClientFsGetFd (outside config system request state) request.memories
      request.params (offsetAt props.2 0) with
    | .error errno => pure (.error errno)
    | .ok found => rest props.2 found

/-- A request is read down to the call it asks for, or refused. -/
def command : Through (Except Int32 Command) :=
  let memories := request.memories
  let params := request.params
  match request.method with
  | .fsOpen => do
      let props ← getProps memories params request.keys
      if props.1 < 0 then
        pure (.error jsonrpcErrInvalidRequest)
      else
        match ← getString memories params (offsetAt props.2 0) with
        | none => pure (.error jsonrpcErrInvalidParams)
        | some path => do
            let flags ← getInt32 memories params (offsetAt props.2 1) (-1)
            if flags = -1 then
              pure (.error jsonrpcErrInvalidParams)
            else if offsetAt props.2 2 < 0 then
              pure (.ok (.openPath path flags 0o777))
            else do
              let mode ← getInt32 memories params (offsetAt props.2 2) (-1)
              if mode = -1 then
                pure (.error jsonrpcErrInvalidParams)
              else
                pure (.ok (.openPath path flags mode))
  | .fsClose =>
      readFd config system request state fun _ found => pure (.ok (.closeFd found))
  | .fsRead =>
      readFd config system request state fun props found => do
        let len ← getInt32 memories params (offsetAt props 1) (-1)
        if len < 0 then
          pure (.error jsonrpcErrInvalidParams)
        else
          pure (.ok (.readFile found len))
  | .fsHash =>
      readFd config system request state fun props found => do
        let len ← getInt32 memories params (offsetAt props 1) (-1)
        if len < 0 then
          pure (.error jsonrpcErrInvalidParams)
        else do
          let method ← getString memories params (offsetAt props 2)
          pure (.ok (.hashFile found len method))
  | .fsWrite =>
      readFd config system request state fun props found => do
        match ← getBinary memories params (offsetAt props 1) with
        | none => pure (.error jsonrpcErrInvalidParams)
        | some (buf, binlen) =>
            pure (.ok (.writeFile found (slice memories.input buf binlen.toNat)))
  | .fsLseek =>
      readFd config system request state fun props found => do
        let offset ← getInt32 memories params (offsetAt props 1) 0
        let whence ← getInt32 memories params (offsetAt props 2) (-1)
        if whence < 0 ∨ 2 < whence then
          pure (.error jsonrpcErrInvalidParams)
        else
          pure (.ok (.seekFile found offset whence))
  | .fsIoctl =>
      readFd config system request state fun props found => do
        let req ← getInt32 memories params (offsetAt props 1) (-1)
        let arg ← getBinary memories params (offsetAt props 2)
        if req < 0 then
          pure (.error jsonrpcErrInvalidParams)
        else
          pure (.ok (.controlFile found req
            (arg.map fun binary => slice memories.input binary.1 binary.2.toNat)))
  | .fsCleanup => pure (.ok .cleanup)

/-! ## What a request leaves behind -/

/-- The state behind `peridot_client_fs_open`, `vfd` being allocated. -/
def afterOpenVfd (call : OpenCall) (vfd : Nat) : State ω :=
  let opening := state.setVfd vfd vfdAlloc
  let result := system.openFile opening.os call
  let opened := opening.asked (.opens call) result.2
  match result.1 with
  | .error _ => opened.setVfd vfd vfdFree
  | .ok fd =>
      if opened.vfdList[vfd]? = some vfdAlloc then
        opened.setVfd vfd fd
      else
        let revoking := opened.setVfd vfd vfdFree
        revoking.asked (.file fd .close) (system.close revoking.os fd).2

/-- The same, its parameters being read. -/
def afterOpen (path : Nat) (flags mode : Int) : State ω :=
  let call := openCall request path flags mode
  if peridotClientFsValidatePath config.entries call.path (unsigned flags) = 0 then state
  else if request.malloc 0 (wrap (bsonEmptySize + measureInt32 keyFd)) = false then state
  else
    match allocVfd state.vfdList with
    | none => state
    | some vfd => afterOpenVfd system state call vfd

/-- `peridot_client_fs_close`, behind `peridot_client_fs_get_fd`. -/
def afterClose (found : Int × Int) : State ω :=
  let closing := state.setVfd found.1.toNat vfdAlloc
  let result := system.close closing.os found.2
  let closed := closing.asked (.file found.2 .close) result.2
  closed.setVfd found.1.toNat (if result.1.isSome then found.2 else vfdFree)

/-- A call for a descriptor, made if there is room for its result. -/
def afterCall (fd size : Int) (call : FileCall) (os : ω) : State ω :=
  if request.malloc 0 size = false then state else state.asked (.file fd call) os

/-- A turn of the loop of `peridot_client_fs_cleanup`. -/
def sweep (state : State ω) (vfd : Nat) : State ω :=
  match state.vfdList[vfd]? with
  | none => state
  | some fd =>
      let marked := if fd = vfdAlloc then state.setVfd vfd vfdCanceled else state
      if 0 ≤ fd then
        let freed := marked.setVfd vfd vfdFree
        freed.asked (.file fd .close) (system.close freed.os fd).2
      else
        marked

/-- What is answered, and the state behind it. -/
def execute (command : Command) : Outcome × State ω :=
  let outside := outside config system request state
  match command with
  | .openPath path flags mode =>
      (openPath outside path flags mode, afterOpen config system request state path flags mode)
  | .closeFd found => ((none, (outside.close found.2).getD 0), afterClose system state found)
  | .readFile found len =>
      (readFile outside found.2 len,
        afterCall request state found.2
          (wrap (bsonEmptySize + measureBinary keyData len + measureInt32 keyLength)) (.read len)
          (system.read state.os found.2 len).2)
  | .hashFile found len method =>
      (hashFile outside request.memories found.2 len method,
        afterCall request state found.2 len (.read len) (system.read state.os found.2 len).2)
  | .writeFile found data =>
      (writeFile outside found.2 data,
        afterCall request state found.2 (wrap (bsonEmptySize + measureInt32 keyLength))
          (.write data) (system.write state.os found.2 data).2)
  | .seekFile found offset whence =>
      (seekFile outside found.2 offset whence,
        afterCall request state found.2 (wrap (bsonEmptySize + measureInt32 keyOffset))
          (.lseek offset whence) (system.lseek state.os found.2 offset whence).2)
  | .controlFile found req arg =>
      (controlFile outside found.2 req arg,
        afterCall request state found.2
          (wrap (bsonEmptySize + measureInt32 keyResult + measureResponse arg)) (.ioctl req arg)
          (system.ioctl state.os found.2 req arg).2)
  | .cleanup => ((none, 0), (List.range config.maxFds).foldl (sweep system) state)

/-- A request that has been read is refused, or what it asks for is done. -/
def settle : Except Int32 Command → Outcome × State ω
  | .error errno => (failed errno, state)
  | .ok command => execute config system request state command

def serve : Outcome × State ω :=
  settle config system request state (command config system request state).value

def serveAll : State ω → List Request → List (Request × Outcome) × State ω
  | state, [] => ([], state)
  | state, request :: rest =>
      let first := serve config system request state
      let later := serveAll first.2 rest
      ((request, first.1) :: later.1, later.2)

/-! ## The handlers answer the same -/

def handler (outside : Outside) : Through Outcome :=
  match request.method with
  | .fsOpen => peridotClientFsOpen outside request.memories request.stale request.params
  | .fsClose => peridotClientFsClose outside request.memories request.stale request.params
  | .fsRead => peridotClientFsRead outside request.memories request.stale request.params
  | .fsHash => peridotClientFsHash outside request.memories request.stale request.params
  | .fsWrite => peridotClientFsWrite outside request.memories request.stale request.params
  | .fsLseek => peridotClientFsLseek outside request.memories request.stale request.params
  | .fsIoctl => peridotClientFsIoctl outside request.memories request.stale request.params
  | .fsCleanup => peridotClientFsCleanup request.params

variable {config system request state}

theorem settle_readFd {rest : List Param → Int × Int → Through (Except Int32 Command)}
    {handled : Int × List Param → Int × Int → Through Outcome}
    (later : ∀ props found, (settle config system request state (rest props.2 found).value).1 =
      (handled props found).value) :
    (settle config system request state (readFd config system request state rest).value).1 =
      (do
        let props ← getProps request.memories request.params request.keys
        if props.1 < 0 then
          fails jsonrpcErrInvalidRequest
        else
          match ← peridotClientFsGetFd (outside config system request state) request.memories
            request.params (offsetAt props.2 0) with
          | .error errno => fails errno
          | .ok found => handled props found : Through Outcome).value := by
  simp only [readFd, Noting.value_bind, Noting.value_ite]
  generalize (getProps request.memories request.params request.keys).value = props
  split
  · rfl
  · cases (peridotClientFsGetFd (outside config system request state) request.memories
      request.params (offsetAt props.2 0)).value with
    | error errno => rfl
    | ok found => exact later props found

/-- What is answered is what the handler returns. -/
theorem serve_handler (config : Config) (system : System ω) (request : Request) (state : State ω) :
    (serve config system request state).1 =
      (handler request (outside config system request state)).value := by
  obtain ⟨method, memories, stale, params, malloc⟩ := request
  unfold serve handler command
  cases method with
  | fsOpen =>
      simp only [peridotClientFsOpen, Noting.value_bind, Noting.value_ite, Request.keys]
      generalize (getProps memories params _).value = props
      split
      · rfl
      · cases (getString memories params (offsetAt props.2 0)).value with
        | none => rfl
        | some path =>
            simp only [Noting.value_bind, Noting.value_ite]
            split
            · rfl
            · split
              · rfl
              · split <;> rfl
  | fsClose => exact settle_readFd fun props found => rfl
  | fsRead =>
      refine settle_readFd fun props found => ?_
      simp only [Noting.value_bind, Noting.value_ite]
      split <;> rfl
  | fsHash =>
      refine settle_readFd fun props found => ?_
      simp only [Noting.value_bind, Noting.value_ite]
      split
      · rfl
      · rw [← Noting.value_ite]
        exact (value_hash found.2 _ (offsetAt props.2 2)).symm
  | fsWrite =>
      refine settle_readFd fun props found => ?_
      simp only [Noting.value_bind]
      cases (getBinary memories params (offsetAt props.2 1)).value <;> rfl
  | fsLseek =>
      refine settle_readFd fun props found => ?_
      simp only [Noting.value_bind, Noting.value_ite]
      split <;> rfl
  | fsIoctl =>
      refine settle_readFd fun props found => ?_
      simp only [Noting.value_bind, Noting.value_ite]
      split <;> rfl
  | fsCleanup => rfl

end PeridotSw.Client.Session
