import PeridotSw.Bson.Document
import PeridotSw.Bson.Pointers
import PeridotSw.Digests.Crc32
import PeridotSw.Digests.Md5
import PeridotSw.Rpc.Reply

/-!
# The methods of the file client

What the handlers of `peridot_client_fs.c` read of their parameters and what they answer.
Everything else they call is outside and answers as it likes; what they return is given as
the elements of the document, with `errno`.
-/

namespace PeridotSw.Client.Handlers

open PeridotSw.Machine.Memory
open PeridotSw.Machine.Word
open PeridotSw.Bson.Read
open PeridotSw.Bson.Write
open PeridotSw.Bson.Document
open PeridotSw.Bson.Pointers
open PeridotSw.Machine.Noted
open PeridotSw.Rpc.Reply (jsonrpcErrInvalidRequest offsetAt)
open PeridotSw.Digests.Crc32 (digestCrc32Calc crc32Table)
open PeridotSw.Digests.Md5 (digestMd5Calc)

/-! ## Constants -/

def jsonrpcErrInvalidParams : Int32 := -32602

def ebadf : Int32 := 9
def enomem : Int32 := 12
def eacces : Int32 := 13
def emfile : Int32 := 24

def keyPath : CString := .of [0x70, 0x61, 0x74, 0x68] rfl

def keyFlags : CString := .of [0x66, 0x6c, 0x61, 0x67, 0x73] rfl

def keyMode : CString := .of [0x6d, 0x6f, 0x64, 0x65] rfl

def keyFd : CString := .of [0x66, 0x64] rfl

def keyLength : CString := .of [0x6c, 0x65, 0x6e, 0x67, 0x74, 0x68] rfl

def keyData : CString := .of [0x64, 0x61, 0x74, 0x61] rfl

def keyMethod : CString := .of [0x6d, 0x65, 0x74, 0x68, 0x6f, 0x64] (Eq.refl true)

def keyHash : CString := .of [0x68, 0x61, 0x73, 0x68] rfl

def keyOffset : CString := .of [0x6f, 0x66, 0x66, 0x73, 0x65, 0x74] rfl

def keyWhence : CString := .of [0x77, 0x68, 0x65, 0x6e, 0x63, 0x65] rfl

def keyReq : CString := .of [0x72, 0x65, 0x71] rfl

def keyArg : CString := .of [0x61, 0x72, 0x67] rfl

def keyResult : CString := .of [0x72, 0x65, 0x73, 0x75, 0x6c, 0x74] (Eq.refl true)

def keyResponse : CString := .of [0x72, 0x65, 0x73, 0x70, 0x6f, 0x6e, 0x73, 0x65] rfl

def nameMd5 : CString := .of [0x6d, 0x64, 0x35] rfl

def nameCrc32 : CString := .of [0x63, 0x72, 0x63, 0x33, 0x32] rfl

/-! ## What is outside -/

/-- The settings of the package, and what the functions called besides the readers of
documents answer: a value, or what they set `errno` to.  `malloc` has the number of the
allocation within the call. -/
structure Outside where
  hashMd5 : Bool
  hashCrc32 : Bool
  vfdList : List Int
  validatePath : Nat → Int → Bool
  malloc : Nat → Int → Bool
  allocVfd : Option Nat
  openFile : Nat → Int → Int → Except Int32 Nat
  canceled : Bool
  close : Int → Option Int32
  read : Int → Int → Except Int32 (List UInt8)
  write : Int → List UInt8 → Except Int32 Int32
  lseek : Int → Int → Int → Except Int32 Int32
  ioctl : Int → Int → Option (List UInt8) → Except Int32 (Int32 × List UInt8)

/-- What a handler returns, and `errno` behind it. -/
abbrev Outcome : Type := Option Elements × Int32

def failed (errno : Int32) : Outcome := (none, errno)

/-- `NULL` is returned with this number. -/
def fails (errno : Int32) : Through Outcome := pure (failed errno)

def measureInt32 (key : CString) : Int := (bsonSetInt32 none key 0).2

def measureBinary (key : CString) (binlen : Int) : Int :=
  (bsonSetBinaryGeneric none key binlen).2.1

def measureNull (key : CString) : Int := (bsonSetNull none key).2

def int32Result (key : CString) (value : Int32) : Elements := .append .empty key (.int32 value)

variable (outside : Outside) (memories : Memories)

/-! ## The handlers -/

/-- `peridot_client_fs_open`, `vfd` being allocated. -/
def openVfd (path : Nat) (flags mode : Int) (vfd : Nat) : Outcome :=
  match outside.openFile path flags mode with
  | .error errno => failed errno
  | .ok _ =>
      if outside.canceled then failed ebadf
      else (some (int32Result keyFd (Int32.ofNat vfd)), 0)

/-- `peridot_client_fs_open`, its parameters being read. -/
def openPath (path : Nat) (flags mode : Int) : Outcome :=
  if outside.validatePath path flags = false then
    failed eacces
  else if outside.malloc 0 (wrap (bsonEmptySize + measureInt32 keyFd)) = false then
    failed enomem
  else
    match outside.allocVfd with
    | none => failed emfile
    | some vfd => openVfd outside path flags mode vfd

/-- `peridot_client_fs_open`; here as in all handlers the variables of the keys hold
anything. -/
def peridotClientFsOpen (stale : Fin 3 → Int) (params : Option Nat) : Through Outcome := do
  let props ← getProps memories params
    [⟨keyPath, stale 0⟩, ⟨keyFlags, stale 1⟩, ⟨keyMode, stale 2⟩]
  if props.1 < 0 then
    fails jsonrpcErrInvalidRequest
  else
    match ← getString memories params (offsetAt props.2 0) with
    | none => fails jsonrpcErrInvalidParams
    | some path => do
        let flags ← getInt32 memories params (offsetAt props.2 1) (-1)
        if flags = -1 then
          fails jsonrpcErrInvalidParams
        else if offsetAt props.2 2 < 0 then
          pure (openPath outside path flags 0o777)
        else do
          let mode ← getInt32 memories params (offsetAt props.2 2) (-1)
          if mode = -1 then
            fails jsonrpcErrInvalidParams
          else
            pure (openPath outside path flags mode)

/-- `peridot_client_fs_get_fd`: `vfd` and the descriptor, or `errno`. -/
def peridotClientFsGetFd (params : Option Nat) (offVfd : Int) :
    Through (Except Int32 (Int × Int)) := do
  if offVfd < 0 then
    pure (.error jsonrpcErrInvalidParams)
  else
    let vfd ← getInt32 memories params offVfd (-1)
    match outside.vfdList[vfd.toNat]? with
    | none => pure (.error ebadf)
    | some fd =>
        if vfd < 0 ∨ fd < 0 then pure (.error ebadf) else pure (.ok (vfd, fd))

def peridotClientFsClose (stale : Fin 3 → Int) (params : Option Nat) : Through Outcome := do
  let props ← getProps memories params [⟨keyFd, stale 0⟩]
  if props.1 < 0 then
    fails jsonrpcErrInvalidRequest
  else
    match ← peridotClientFsGetFd outside memories params (offsetAt props.2 0) with
    | .error errno => fails errno
    | .ok found => pure (none, (outside.close found.2).getD 0)

/-- `peridot_client_fs_read`, its parameters being read; `bson_shrink_binary` leaves what was
read of the binary. -/
def readFile (fd len : Int) : Outcome :=
  if outside.malloc 0
      (wrap (bsonEmptySize + measureBinary keyData len + measureInt32 keyLength)) = false then
    failed enomem
  else
    match outside.read fd len with
    | .error errno => failed errno
    | .ok data =>
        (some (.append (.append .empty keyData (.binary 0 data)) keyLength
          (.int32 (Int32.ofNat data.length))), 0)

def peridotClientFsRead (stale : Fin 3 → Int) (params : Option Nat) : Through Outcome := do
  let props ← getProps memories params [⟨keyFd, stale 0⟩, ⟨keyLength, stale 1⟩]
  if props.1 < 0 then
    fails jsonrpcErrInvalidRequest
  else
    match ← peridotClientFsGetFd outside memories params (offsetAt props.2 0) with
    | .error errno => fails errno
    | .ok found => do
        let len ← getInt32 memories params (offsetAt props.2 1) (-1)
        if len < 0 then
          fails jsonrpcErrInvalidParams
        else
          pure (readFile outside found.2 len)

def digest (method : Option Nat) (data : List UInt8) : Option (List UInt8) :=
  if outside.hashMd5 ∧ stringIs memories method nameMd5 then
    some ((digestMd5Calc data).toList.flatMap fun word => bytes32 word.toNat)
  else if outside.hashCrc32 ∧ stringIs memories method nameCrc32 then
    some (bytes32 (digestCrc32Calc crc32Table data).toNat)
  else
    none

def peridotClientFsHash (stale : Fin 3 → Int) (params : Option Nat) : Through Outcome := do
  let props ← getProps memories params
    [⟨keyFd, stale 0⟩, ⟨keyLength, stale 1⟩, ⟨keyMethod, stale 2⟩]
  if props.1 < 0 then
    fails jsonrpcErrInvalidRequest
  else
    match ← peridotClientFsGetFd outside memories params (offsetAt props.2 0) with
    | .error errno => fails errno
    | .ok found => do
        let len ← getInt32 memories params (offsetAt props.2 1) (-1)
        if len < 0 then
          fails jsonrpcErrInvalidParams
        else if outside.malloc 0 len = false then
          fails enomem
        else
          match outside.read found.2 len with
          | .error errno => fails errno
          | .ok data =>
              if outside.malloc 1
                  (wrap (bsonEmptySize + measureInt32 keyLength + measureBinary keyHash 32 + len)) =
                  false then
                fails enomem
              else do
                let method ← getString memories params (offsetAt props.2 2)
                match digest outside memories method data with
                | none => fails jsonrpcErrInvalidParams
                | some hash =>
                    pure (some (.append (int32Result keyLength (Int32.ofNat data.length)) keyHash
                      (.binary 0 hash)), 0)

/-- `peridot_client_fs_write`, its parameters being read. -/
def writeFile (fd : Int) (data : List UInt8) : Outcome :=
  if outside.malloc 0 (wrap (bsonEmptySize + measureInt32 keyLength)) = false then
    failed enomem
  else
    match outside.write fd data with
    | .error errno => failed errno
    | .ok written => (some (int32Result keyLength written), 0)

def peridotClientFsWrite (stale : Fin 3 → Int) (params : Option Nat) : Through Outcome := do
  let props ← getProps memories params [⟨keyFd, stale 0⟩, ⟨keyData, stale 1⟩]
  if props.1 < 0 then
    fails jsonrpcErrInvalidRequest
  else
    match ← peridotClientFsGetFd outside memories params (offsetAt props.2 0) with
    | .error errno => fails errno
    | .ok found => do
        match ← getBinary memories params (offsetAt props.2 1) with
        | none => fails jsonrpcErrInvalidParams
        | some (buf, binlen) =>
            pure (writeFile outside found.2 (slice memories.input buf binlen.toNat))

/-- `peridot_client_fs_lseek`, its parameters being read. -/
def seekFile (fd offset whence : Int) : Outcome :=
  if outside.malloc 0 (wrap (bsonEmptySize + measureInt32 keyOffset)) = false then
    failed enomem
  else
    match outside.lseek fd offset whence with
    | .error errno => failed errno
    | .ok after => (some (int32Result keyOffset after), 0)

def peridotClientFsLseek (stale : Fin 3 → Int) (params : Option Nat) : Through Outcome := do
  let props ← getProps memories params
    [⟨keyFd, stale 0⟩, ⟨keyOffset, stale 1⟩, ⟨keyWhence, stale 2⟩]
  if props.1 < 0 then
    fails jsonrpcErrInvalidRequest
  else
    match ← peridotClientFsGetFd outside memories params (offsetAt props.2 0) with
    | .error errno => fails errno
    | .ok found => do
        let offset ← getInt32 memories params (offsetAt props.2 1) 0
        let whence ← getInt32 memories params (offsetAt props.2 2) (-1)
        if whence < 0 ∨ 2 < whence then
          fails jsonrpcErrInvalidParams
        else
          pure (seekFile outside found.2 offset whence)

/-- `peridot_client_fs_ioctl`, its parameters being read; the argument is modified in the
response. -/
def controlFile (fd req : Int) (arg : Option (List UInt8)) : Outcome :=
  let response := match arg with
    | some input => measureBinary keyResponse input.length
    | none => measureNull keyResponse
  if outside.malloc 0 (wrap (bsonEmptySize + measureInt32 keyResult + response)) = false then
    failed enomem
  else
    match outside.ioctl fd req arg with
    | .error errno => failed errno
    | .ok (value, output) =>
        let modified := match arg with
          | some _ => Value.binary 0 output
          | none => .null
        (some (.append (.append .empty keyResponse modified) keyResult (.int32 value)), 0)

def peridotClientFsIoctl (stale : Fin 3 → Int) (params : Option Nat) : Through Outcome := do
  let props ← getProps memories params
    [⟨keyFd, stale 0⟩, ⟨keyReq, stale 1⟩, ⟨keyArg, stale 2⟩]
  if props.1 < 0 then
    fails jsonrpcErrInvalidRequest
  else
    match ← peridotClientFsGetFd outside memories params (offsetAt props.2 0) with
    | .error errno => fails errno
    | .ok found => do
        let req ← getInt32 memories params (offsetAt props.2 1) (-1)
        let arg ← getBinary memories params (offsetAt props.2 2)
        if req < 0 then
          fails jsonrpcErrInvalidParams
        else
          pure (controlFile outside found.2 req
            (arg.map fun binary => slice memories.input binary.1 binary.2.toNat))

/-- `peridot_client_fs_cleanup`, which does not use its parameters. -/
def peridotClientFsCleanup (_params : Option Nat) : Through Outcome := pure (none, 0)

/-! ## What they read through -/

variable {outside memories}

theorem all_fails (errno : Int32) : (fails errno).All NotNull := Noting.all_pure _

section

variable {params : Option Nat} (notNull : NotNull params) (stale : Fin 3 → Int)

theorem all_getFd (offVfd : Int) :
    (peridotClientFsGetFd outside memories params offVfd).All NotNull := by
  unfold peridotClientFsGetFd
  refine .ite (Noting.all_pure _) (.bind (all_getInt32 _ _) fun vfd => ?_)
  cases outside.vfdList[vfd.toNat]? with
  | none => exact Noting.all_pure _
  | some fd => exact .ite (Noting.all_pure _) (Noting.all_pure _)

include notNull

/-- A handler that begins with its properties and the descriptor. -/
theorem all_withFd {list : List Param} {rest : Int × List Param → Int × Int → Through Outcome}
    (later : ∀ props found, (rest props found).All NotNull) :
    (do
      let props ← getProps memories params list
      if props.1 < 0 then
        fails jsonrpcErrInvalidRequest
      else
        match ← peridotClientFsGetFd outside memories params (offsetAt props.2 0) with
        | .error errno => fails errno
        | .ok found => rest props found : Through Outcome).All NotNull := by
  refine .bind (all_getProps notNull list) fun props => ?_
  refine .ite (all_fails _) (.bind (all_getFd _) fun found => ?_)
  cases found with
  | error errno => exact all_fails errno
  | ok found => exact later props found

theorem all_open : (peridotClientFsOpen outside memories stale params).All NotNull := by
  refine .bind (all_getProps notNull _) fun props => .ite (all_fails _) ?_
  refine .bind (all_getString _) fun path => ?_
  cases path with
  | none => exact all_fails _
  | some path =>
      refine .bind (all_getInt32 _ _) fun flags => ?_
      refine .ite (all_fails _) (.ite (Noting.all_pure _) ?_)
      exact .bind (all_getInt32 _ _) fun mode => .ite (all_fails _) (Noting.all_pure _)

theorem all_close : (peridotClientFsClose outside memories stale params).All NotNull :=
  all_withFd notNull fun _ _ => Noting.all_pure _

theorem all_read : (peridotClientFsRead outside memories stale params).All NotNull :=
  all_withFd notNull fun _ _ =>
    .bind (all_getInt32 _ _) fun _ => .ite (all_fails _) (Noting.all_pure _)

theorem all_hash : (peridotClientFsHash outside memories stale params).All NotNull := by
  refine all_withFd notNull fun props found => .bind (all_getInt32 _ _) fun len => ?_
  refine .ite (all_fails _) (.ite (all_fails _) ?_)
  cases outside.read found.2 len with
  | error errno => exact all_fails errno
  | ok data =>
      refine .ite (all_fails _) (.bind (all_getString _) fun method => ?_)
      cases digest outside memories method data with
      | none => exact all_fails _
      | some hash => exact Noting.all_pure _

theorem all_write : (peridotClientFsWrite outside memories stale params).All NotNull := by
  refine all_withFd notNull fun props found => .bind (all_getBinary _) fun data => ?_
  cases data with
  | none => exact all_fails _
  | some data => exact Noting.all_pure _

theorem all_lseek : (peridotClientFsLseek outside memories stale params).All NotNull :=
  all_withFd notNull fun _ _ => .bind (all_getInt32 _ _) fun _ => .bind (all_getInt32 _ _) fun _ =>
    .ite (all_fails _) (Noting.all_pure _)

theorem all_ioctl : (peridotClientFsIoctl outside memories stale params).All NotNull :=
  all_withFd notNull fun _ _ => .bind (all_getInt32 _ _) fun _ => .bind (all_getBinary _) fun _ =>
    .ite (all_fails _) (Noting.all_pure _)

end

end PeridotSw.Client.Handlers
