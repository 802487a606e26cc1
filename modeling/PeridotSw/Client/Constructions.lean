import PeridotSw.Bson.Shrink
import PeridotSw.Client.Handlers

/-!
# The results of the file client in memory

What a handler returns is measured and allocated before anything is known about the
outcome, and built behind the calls it depends on.  Here the handlers that return a
document are given with the block they allocate and the document in it after every call
of a writer.
-/

namespace PeridotSw.Client.Constructions

open PeridotSw.Machine.Memory
open PeridotSw.Machine.Word
open PeridotSw.Machine.Noted
open PeridotSw.Bson.Read
open PeridotSw.Bson.Write
open PeridotSw.Bson.Document
open PeridotSw.Bson.Pointers
open PeridotSw.Client.Handlers
open PeridotSw.Rpc.Reply (into jsonrpcErrInvalidRequest offsetAt)
open PeridotSw.Rpc.Sink (Allocator)

/-- A block allocated for a result, and what it holds from call to call; the last document
is returned, if the handler does not fail before it is complete. -/
structure Construction where
  size : Nat
  block : Mem
  stages : List Mem

/-- `malloc`, and what is done in the block. -/
def allocated (heap : Allocator) (attempt : Nat) (size : Int) (stages : Mem → List Mem) :
    Option Construction :=
  (heap attempt (unsigned size)).map fun block => ⟨unsigned size, block, stages block⟩

/-- A document with one number. -/
def numberStages (key : CString) (value : Int32) (block : Mem) : List Mem :=
  let empty := bsonCreateEmptyDocument block
  [empty, into empty (bsonSetInt32 (some empty) key value)]

variable (outside : Outside) (heap : Allocator) (memories : Memories)

/-! ## Behind the parameters -/

/-- What `peridot_client_fs_open` allocates and stores, its parameters being read. -/
def openConstruction (path : Nat) (flags mode : Int) : Option Construction :=
  if outside.validatePath path flags = false then none
  else
    allocated heap 0 (wrap (bsonEmptySize + measureInt32 keyFd)) fun block =>
      match outside.allocVfd with
      | none => []
      | some vfd =>
          match outside.openFile path flags mode with
          | .error _ => []
          | .ok _ =>
              if outside.canceled then [] else numberStages keyFd (Int32.ofNat vfd) block

/-- The document of `peridot_client_fs_read`: an empty binary, filled by `read`, shrunk to what
was read, and the number of bytes behind it. -/
def readStages (len : Int) (outcome : Except Int32 (List UInt8)) (block : Mem) : List Mem :=
  let empty := bsonCreateEmptyDocument block
  let binary := bsonSetBinaryGeneric (some empty) keyData len
  let made := binary.1.getD empty
  let buf := binary.2.2.getD 0
  match outcome with
  | .error _ => [empty, made]
  | .ok data =>
      let filled := write made buf data
      let shrunk := (bsonShrinkBinary filled buf data.length).1
      [empty, made, filled, shrunk,
        into shrunk (bsonSetInt32 (some shrunk) keyLength (Int32.ofNat data.length))]

/-- `peridot_client_fs_read`, its parameters being read. -/
def readConstruction (fd len : Int) : Option Construction :=
  allocated heap 0 (wrap (bsonEmptySize + measureBinary keyData len + measureInt32 keyLength))
    (readStages len (outside.read fd len))

/-- The document of `peridot_client_fs_hash`, `hash` being the bytes of the digest. -/
def hashStages (readLen : Int32) (hash : Option (List UInt8)) (block : Mem) : List Mem :=
  let empty := bsonCreateEmptyDocument block
  let counted := into empty (bsonSetInt32 (some empty) keyLength readLen)
  match hash with
  | none => [empty, counted]
  | some hash =>
      let binary := bsonSetBinaryGeneric (some counted) keyHash hash.length
      let made := binary.1.getD counted
      [empty, counted, made, write made (binary.2.2.getD 0) hash]

/-- `peridot_client_fs_hash`, its parameters being read; the second of its allocations is for
the result. -/
def hashConstruction (fd len : Int) (method : Option Nat) : Option Construction :=
  (heap 0 (unsigned len)).bind fun _ =>
    match outside.read fd len with
    | .error _ => none
    | .ok data =>
        allocated heap 1
          (wrap (bsonEmptySize + measureInt32 keyLength + measureBinary keyHash 32 + len))
          (hashStages (Int32.ofNat data.length) (digest outside memories method data))

def writeConstruction (fd : Int) (data : List UInt8) : Option Construction :=
  allocated heap 0 (wrap (bsonEmptySize + measureInt32 keyLength)) fun block =>
    match outside.write fd data with
    | .error _ => []
    | .ok written => numberStages keyLength written block

def lseekConstruction (fd offset whence : Int) : Option Construction :=
  allocated heap 0 (wrap (bsonEmptySize + measureInt32 keyOffset)) fun block =>
    match outside.lseek fd offset whence with
    | .error _ => []
    | .ok after => numberStages keyOffset after block

/-- The document `peridot_client_fs_ioctl` calls `ioctl` with, and those before it. -/
def controlStages (arg : Option (List UInt8)) (block : Mem) : List Mem × Mem :=
  let empty := bsonCreateEmptyDocument block
  match arg with
  | some input =>
      let binary := bsonSetBinaryGeneric (some empty) keyResponse input.length
      let made := binary.1.getD empty
      ([empty, made], write made (binary.2.2.getD 0) input)
  | none => ([empty], into empty (bsonSetNull (some empty) keyResponse))

/-- The document after `ioctl` has modified its argument. -/
def modified (arg : Option (List UInt8)) (output : List UInt8) (block : Mem) : Mem :=
  let before := (controlStages arg block).2
  match arg with
  | some input =>
      let binary := bsonSetBinaryGeneric (some (bsonCreateEmptyDocument block)) keyResponse
        input.length
      write before (binary.2.2.getD 0) output
  | none => before

/-- `peridot_client_fs_ioctl`, its parameters being read. -/
def controlConstruction (fd req : Int) (arg : Option (List UInt8)) : Option Construction :=
  let response := match arg with
    | some input => measureBinary keyResponse input.length
    | none => measureNull keyResponse
  allocated heap 0 (wrap (bsonEmptySize + measureInt32 keyResult + response)) fun block =>
    let before := controlStages arg block
    match outside.ioctl fd req arg with
    | .error _ => before.1 ++ [before.2]
    | .ok (value, output) =>
        let after := modified arg output block
        before.1 ++ [before.2, after, into after (bsonSetInt32 (some after) keyResult value)]

/-! ## The handlers -/

/-- What the handlers for open files begin with. -/
def withFd (params : Option Nat) (list : List Param)
    (rest : Int × List Param → Int × Int → Through (Option Construction)) :
    Through (Option Construction) := do
  let props ← getProps memories params list
  if props.1 < 0 then
    pure none
  else
    match ← peridotClientFsGetFd outside memories params (offsetAt props.2 0) with
    | .error _ => pure none
    | .ok found => rest props found

/-- The handlers that return a document. -/
inductive Builder where
  | fsOpen
  | fsRead
  | fsHash
  | fsWrite
  | fsLseek
  | fsIoctl

/-- The block a handler allocates for its result, if it comes to that. -/
def Builder.run (stale : Fin 3 → Int) (params : Option Nat) :
    Builder → Through (Option Construction)
  | .fsOpen => do
      let props ← getProps memories params
        [⟨keyPath, stale 0⟩, ⟨keyFlags, stale 1⟩, ⟨keyMode, stale 2⟩]
      if props.1 < 0 then pure none
      else
        match ← getString memories params (offsetAt props.2 0) with
        | none => pure none
        | some path => do
            let flags ← getInt32 memories params (offsetAt props.2 1) (-1)
            if flags = -1 then pure none
            else if offsetAt props.2 2 < 0 then
              pure (openConstruction outside heap path flags 0o777)
            else do
              let mode ← getInt32 memories params (offsetAt props.2 2) (-1)
              if mode = -1 then pure none
              else pure (openConstruction outside heap path flags mode)
  | .fsRead =>
      withFd outside memories params [⟨keyFd, stale 0⟩, ⟨keyLength, stale 1⟩] fun props found => do
        let len ← getInt32 memories params (offsetAt props.2 1) (-1)
        if len < 0 then pure none else pure (readConstruction outside heap found.2 len)
  | .fsHash =>
      withFd outside memories params
        [⟨keyFd, stale 0⟩, ⟨keyLength, stale 1⟩, ⟨keyMethod, stale 2⟩] fun props found => do
          let len ← getInt32 memories params (offsetAt props.2 1) (-1)
          if len < 0 then pure none
          else do
            let method ← getString memories params (offsetAt props.2 2)
            pure (hashConstruction outside heap memories found.2 len method)
  | .fsWrite =>
      withFd outside memories params [⟨keyFd, stale 0⟩, ⟨keyData, stale 1⟩] fun props found => do
        match ← getBinary memories params (offsetAt props.2 1) with
        | none => pure none
        | some (buf, binlen) =>
            pure (writeConstruction outside heap found.2 (slice memories.input buf binlen.toNat))
  | .fsLseek =>
      withFd outside memories params
        [⟨keyFd, stale 0⟩, ⟨keyOffset, stale 1⟩, ⟨keyWhence, stale 2⟩] fun props found => do
          let offset ← getInt32 memories params (offsetAt props.2 1) 0
          let whence ← getInt32 memories params (offsetAt props.2 2) (-1)
          if whence < 0 ∨ 2 < whence then pure none
          else pure (lseekConstruction outside heap found.2 offset whence)
  | .fsIoctl =>
      withFd outside memories params
        [⟨keyFd, stale 0⟩, ⟨keyReq, stale 1⟩, ⟨keyArg, stale 2⟩] fun props found => do
          let req ← getInt32 memories params (offsetAt props.2 1) (-1)
          let arg ← getBinary memories params (offsetAt props.2 2)
          if req < 0 then pure none
          else
            pure (controlConstruction outside heap found.2 req
              (arg.map fun binary => slice memories.input binary.1 binary.2.toNat))

end PeridotSw.Client.Constructions
