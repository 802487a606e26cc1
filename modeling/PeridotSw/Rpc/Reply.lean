import PeridotSw.Bson.Write
import PeridotSw.Rpc.Sink

/-!
# The service of the RPC server and its replies

`peridot_rpc_server_service` looks the request up, calls the method and sends the
reply.  `send_reply` measures the reply in one pass, allocates it, and builds it in
another; when the allocation fails it starts again with an error in place of the
result.  A call is described by the list of what it does: its allocations, its reads
of the job and of the method's document, what it frees, and what it gives to
`peridot_sw_hostbridge_gen2_source`.
-/

namespace PeridotSw.Rpc.Reply

open PeridotSw.Machine.Memory
open PeridotSw.Machine.Word
open PeridotSw.Bson.Read
open PeridotSw.Bson.Write
open PeridotSw.Rpc.Sink (Allocator)

/-! ## Constants of the protocol -/

def jsonrpcErrParseError : Int32 := -32700
def jsonrpcErrInvalidRequest : Int32 := -32600
def jsonrpcErrMethodNotFound : Int32 := -32601
def jsonrpcErrInternalError : Int32 := -32603

def keyJsonrpc : CString := .of [0x6a, 0x73, 0x6f, 0x6e, 0x72, 0x70, 0x63] rfl

def keyMethod : CString := .of [0x6d, 0x65, 0x74, 0x68, 0x6f, 0x64] rfl

def keyParams : CString := .of [0x70, 0x61, 0x72, 0x61, 0x6d, 0x73] rfl

def keyId : CString := .of [0x69, 0x64] rfl

def keyResult : CString := .of [0x72, 0x65, 0x73, 0x75, 0x6c, 0x74] rfl

def keyError : CString := .of [0x65, 0x72, 0x72, 0x6f, 0x72] rfl

def keyCode : CString := .of [0x63, 0x6f, 0x64, 0x65] rfl

/-- `PERIDOT_RPCSRV_JSONRPC_VER`. -/
def jsonrpcVer : CString := .of [0x32, 0x2e, 0x30] rfl

/-! ## Sending a reply -/

/-- The blocks a reply is about: the job with the request, the document of the method
and the reply itself. -/
inductive Block where
  | job
  | result
  | output
  deriving DecidableEq

/-- What a call does besides computing. -/
inductive Effect where
  | malloc (size : Nat) (granted : Bool)
  | read (block : Block)
  | free (block : Block)
  | source (output : Mem) (length : Int)

def into (doc : Mem) (call : Option Mem × Int) : Mem := call.1.getD doc

/-- An effect on the method's document, if there is one. -/
def onResult (result : Option Mem) (effect : Block → Effect) : List Effect :=
  match result with
  | some _ => [effect .result]
  | none => []

/-- `error_doc`: the document given, or one with the number, in a local buffer that
holds anything before. -/
def errorDocument (buffer : Mem) (result : Option Mem) (errno : Int32) : Mem :=
  match result with
  | some error => error
  | none =>
      let document := bsonCreateEmptyDocument buffer
      into document (bsonSetInt32 (some document) keyCode errno)

/-- The members every reply begins with, in the first pass of `send_reply`. -/
def measureHead (input : Mem) (offId : Int) : Int :=
  let version := wrap (bsonEmptySize + (bsonSetString none keyJsonrpc jsonrpcVer).2)
  wrap (version + (bsonSetElement none keyId input (some 0) offId).2)

/-- The first pass of `send_reply`: `reply_len`. -/
def measureReply (buffer input : Mem) (offId : Int) (result : Option Mem) (errno : Int32) : Int :=
  let head := measureHead input offId
  if errno = 0 then
    match result with
    | some document => wrap (head + (bsonSetSubdocument none keyResult document).2)
    | none => wrap (head + (bsonSetNull none keyResult).2)
  else
    wrap (head + (bsonSetSubdocument none keyError (errorDocument buffer result errno)).2)

/-- The members every reply begins with, in the second pass of `send_reply`. -/
def buildHead (block input : Mem) (offId : Int) : Mem :=
  let empty := bsonCreateEmptyDocument block
  let version := into empty (bsonSetString (some empty) keyJsonrpc jsonrpcVer)
  into version (bsonSetElement (some version) keyId input (some 0) offId)

/-- The second pass of `send_reply`: the output. -/
def buildReply (block buffer input : Mem) (offId : Int) (result : Option Mem) (errno : Int32) :
    Mem :=
  let head := buildHead block input offId
  if errno = 0 then
    match result with
    | some document => into head (bsonSetSubdocument (some head) keyResult document)
    | none => into head (bsonSetNull (some head) keyResult)
  else
    into head (bsonSetSubdocument (some head) keyError (errorDocument buffer result errno))

/-- `send_reply` from the label `reply` on, with the `attempt`-th allocation; `failed` is
what happens when it fails. -/
def replyPass (malloc : Allocator) (attempt : Nat) (buffer input : Mem) (offId : Int)
    (result : Option Mem) (errno : Int32) (failed : List Effect) : List Effect :=
  let replyLen := measureReply buffer input offId result errno
  let size := unsigned replyLen
  .read .job :: onResult result .read ++
    match malloc attempt size with
    | none => .malloc size false :: failed
    | some block =>
        .malloc size true :: .read .job :: .free .job ::
          (onResult result .read ++ onResult result .free ++
            [.source (buildReply block buffer input offId result errno) replyLen,
              .free .output])

def sendReply (malloc : Allocator) (buffer input : Mem) (offId : Int) (result : Option Mem)
    (errno : Int32) : List Effect :=
  replyPass malloc 0 buffer input offId result errno
    (if errno ≠ 0 then
      onResult result .free ++ [.free .job]
    else
      onResult result .free ++
        replyPass malloc 1 buffer input offId none jsonrpcErrInternalError [.free .job])

/-! ## Serving a request -/

/-- A registered function.  It is given the memory of the request and `params`, and
returns its document and `errno`; an asynchronous one returns its error number. -/
inductive Handler where
  | sync (function : Mem → Option Nat → Option Mem × Int32)
  | async (function : Mem → Option Nat → Int32)

/-- `peridot_rpc_server_method_entry`. -/
structure MethodEntry where
  name : CString
  handler : Handler

/-- `peridot_rpc_server_find_method`: the entries in the order they were registered. -/
def findMethod (name : Nat) : List MethodEntry → Access (Option MethodEntry)
  | [] => pure none
  | entry :: rest => do
      if ← strcmpEq entry.name.bytes name then
        pure (some entry)
      else
        findMethod name rest

/-- The variable of one of the keys. -/
def offsetAt (params : List Param) (index : Nat) : Int :=
  (params[index]?.map Param.offset).getD 0

/-- `strcmp(bson_get_string(input, off_jsonrpc, ""), PERIDOT_RPCSRV_JSONRPC_VER) == 0`. -/
def versionMatches (offJsonrpc : Int) : Access Bool := do
  match ← bsonGetString (some 0) offJsonrpc with
  | none => pure false
  | some version => strcmpEq jsonrpcVer.bytes version

/-- How a request goes on after it has been read: a reply with the document and the
error number given, no reply, or a function that replies later. -/
inductive Verdict where
  | reply (result : Option Mem) (errno : Int32)
  | notification (result : Option Mem)
  | queued

/-- The part of `peridot_rpc_server_service` from the call of `find_method` on. -/
def dispatch (methods : List MethodEntry) (input : Mem) (method : Nat) (offParams offId : Int) :
    Verdict :=
  let finish (result : Option Mem) (errno : Int32) : Verdict :=
    if offId < 0 then .notification result
    else .reply result (if result.isSome then 0 else errno)
  match (findMethod method methods).eval input with
  | none => finish none jsonrpcErrMethodNotFound
  | some entry =>
      let params := (bsonGetSubdocument (some 0) offParams).eval input
      match entry.handler with
      | .sync function => finish (function input params).1 (function input params).2
      | .async function =>
          let errno := function input params
          if errno = 0 then .queued else finish none errno

/-- The keys `peridot_rpc_server_service` asks for, their variables holding anything. -/
def requestParams (stale : Fin 4 → Int) : List Param :=
  [⟨keyJsonrpc, stale 0⟩, ⟨keyMethod, stale 1⟩, ⟨keyParams, stale 2⟩, ⟨keyId, stale 3⟩]

/-- The reading of a request: the verdict and `off_id`. -/
def judge (methods : List MethodEntry) (stale : Fin 4 → Int) (input : Mem) : Verdict × Int :=
  let props := (bsonGetProps 0 (requestParams stale)).eval input
  let offId := offsetAt props.2 3
  if props.1 ≤ 0 then
    (.reply none jsonrpcErrParseError, offId)
  else if (versionMatches (offsetAt props.2 0)).eval input = false then
    (.reply none jsonrpcErrInvalidRequest, offId)
  else
    match (bsonGetString (some 0) (offsetAt props.2 1)).eval input with
    | none => (.reply none jsonrpcErrInvalidRequest, offId)
    | some method => (dispatch methods input method (offsetAt props.2 2) offId, offId)

/-- `peridot_rpc_server_service`, with the job it took from `pending_job`. -/
def peridotRpcServerService (malloc : Allocator) (methods : List MethodEntry) (buffer : Mem)
    (stale : Fin 4 → Int) (job : Option Mem) : List Effect :=
  match job with
  | none => []
  | some input =>
      match judge methods stale input with
      | (.reply result errno, offId) => sendReply malloc buffer input offId result errno
      | (.notification result, _) => onResult result .free ++ [.free .job]
      | (.queued, _) => []

/-! ## Replies of asynchronous methods -/

/-- `async_reply`; the variable of the key holds anything. -/
def asyncReply (malloc : Allocator) (buffer : Mem) (stale : Int) (input : Mem)
    (resultOrError : Option Mem) (errno : Int32) : List Effect :=
  let props := (bsonGetProps 0 [⟨keyId, stale⟩]).eval input
  if props.1 = 1 then
    sendReply malloc buffer input (offsetAt props.2 0) resultOrError errno
  else
    onResult resultOrError .free ++ [.free .job]

def peridotRpcServerAsyncCallback (malloc : Allocator) (buffer : Mem) (stale : Int) (input : Mem)
    (result : Option Mem) (errno : Int32) : List Effect :=
  asyncReply malloc buffer stale input (if errno = 0 then result else none) errno

def peridotRpcServerAsyncCallbackError (malloc : Allocator) (buffer : Mem) (stale : Int)
    (input : Mem) (error : Option Mem) : List Effect :=
  asyncReply malloc buffer stale input error jsonrpcErrInternalError

end PeridotSw.Rpc.Reply
