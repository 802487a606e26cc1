import PeridotSw.Machine.Memory
import PeridotSw.Stream.Ast

/-!
# The stream sink of the RPC server

`peridot_rpc_server_sink` assembles one request at a time from the bytes of its
channel.  The first four payload bytes of a packet are the length of the whole
request; when the fourth arrives a job is allocated, and when the byte marked by
the end-of-packet prefix completes the declared length the job is published in
`pending_job`, where `peridot_rpc_server_service` takes it.

Every step returns the new state together with the list of its effects, so that
allocations, stores, releases and publications of a whole run can be inspected.
`size_t` and `int` are 32 bits wide.
-/

namespace PeridotSw.Rpc.Sink

open PeridotSw.Machine.Memory
open PeridotSw.Machine.Word
open PeridotSw.Stream.Ast

/-- The setting of `system.h` the sink reads, an `int` constant. -/
structure Config where
  maxRequestLength : Nat
  maxRequestLength_lt : maxRequestLength < 2 ^ 31

/-- The defaults of `peridot_rpc_server_sw.tcl`. -/
def defaultConfig : Config where
  maxRequestLength := 8192
  maxRequestLength_lt := by decide

/-- What the allocator answers to its `n`-th request for a number of bytes:
`NULL`, or a block with whatever bytes it happens to hold. -/
abbrev Allocator := Nat → Nat → Option Mem

/-- `sizeof(rpcsrv_job)`: the context pointer and `next`; the union is empty. -/
def sizeofRpcsrvJob : Nat := 8

/-- An allocated `rpcsrv_job`.  `id` numbers the allocation, `size` is the number
of bytes requested for it and `data` the union behind the header. -/
structure RpcsrvJob where
  id : Nat
  size : Nat
  data : Mem

/-- `data.words[0]`. -/
def RpcsrvJob.lengthWord (job : RpcsrvJob) : Nat := word job.data 0

/-- The fields of `peridot_rpc_server_state_s` that the sink uses, the count of
`sem`, and the number of allocations made so far. -/
structure State where
  escapePrefix : Bool
  eopPrefix : Bool
  insidePacket : Bool
  offset : Nat
  length : Fin 4 → UInt8
  incomingJob : Option RpcsrvJob
  pendingJob : Option RpcsrvJob
  sem : Nat
  mallocs : Nat

/-- The state is zero-initialised and `sem_init` sets the count to zero. -/
def initial : State where
  escapePrefix := false
  eopPrefix := false
  insidePacket := false
  offset := 0
  length := fun _ => 0
  incomingJob := none
  pendingJob := none
  sem := 0
  mallocs := 0

/-- The union `length` read as an unsigned word; `signed` of it is `length.value`. -/
def State.lengthWord (state : State) : Nat :=
  le32 (state.length 0) (state.length 1) (state.length 2) (state.length 3)

/-- What one step does besides changing the state.  A store names the size of the
job it goes to and its position and width in bytes from the start of that job. -/
inductive Effect where
  | consume (byte : UInt8)
  | malloc (size : Nat) (job : Option Nat)
  | store (size position width : Nat)
  | free (job : Option Nat)
  | publish (job : Option RpcsrvJob)

abbrev Outcome := State × List Effect

def Outcome.andThen (outcome : Outcome) (rest : State → Outcome) : Outcome :=
  ((rest outcome.1).1, outcome.2 ++ (rest outcome.1).2)

/-- The label `next_packet`. -/
def nextPacket (state : State) : State :=
  { state with
    incomingJob := none
    offset := 0
    eopPrefix := false
    insidePacket := false }

/-- The label `drop_packet`. -/
def dropPacket (state : State) : Outcome :=
  (nextPacket state, [.free (state.incomingJob.map RpcsrvJob.id)])

/-- The tail of the loop body: nothing until the marked byte, then either drop
the packet or publish the job. -/
def finishByte (state : State) : Outcome :=
  if state.eopPrefix = false then
    (state, [])
  else if state.offset ≠ state.lengthWord then
    dropPacket state
  else
    (nextPacket
      { state with
        pendingJob := state.incomingJob
        incomingJob := none
        sem := state.sem + 1 },
      [.publish state.incomingJob])

/-- The declared length is complete: allocate the job unless the length is above
the maximum, in which case `incoming_job` is left as it is. -/
def allocateJob (cfg : Config) (malloc : Allocator) (state : State) : Outcome :=
  if signed state.lengthWord ≤ cfg.maxRequestLength then
    let size := unsigned (sizeofRpcsrvJob + signed state.lengthWord)
    match malloc state.mallocs size with
    | none =>
        ({ state with incomingJob := none, mallocs := state.mallocs + 1 },
          [.malloc size none])
    | some block =>
        ({ state with
            incomingJob := some
              { id := state.mallocs
                size := size
                data := write block 0 (bytes32 state.lengthWord) }
            mallocs := state.mallocs + 1 },
          [.malloc size (some state.mallocs), .store size 4 4,
            .store size sizeofRpcsrvJob 4])
  else
    (state, [])

/-- `state.length.bytes[state.offset++] = byte`. -/
def storeLengthByte (state : State) (byte : UInt8) : State :=
  { state with
    length := fun index => if index = state.offset then byte else state.length index
    offset := state.offset + 1 }

/-- `incoming_job->data.bytes[offset++] = byte`. -/
def storeDataByte (state : State) (job : RpcsrvJob) (byte : UInt8) : Outcome :=
  ({ state with
      incomingJob := some { job with data := write job.data state.offset [byte] }
      offset := state.offset + 1 },
    [.store job.size (sizeofRpcsrvJob + state.offset) 1])

/-- One payload byte inside a packet.  `offset` is compared with the length as an
unsigned number. -/
def payloadByte (cfg : Config) (malloc : Allocator) (state : State) (byte : UInt8) :
    Outcome :=
  if state.offset < 4 then
    let stored := storeLengthByte state byte
    if stored.offset = 4 then
      (allocateJob cfg malloc stored).andThen finishByte
    else
      finishByte stored
  else if state.lengthWord ≤ state.offset then
    dropPacket state
  else
    match state.incomingJob with
    | some job => (storeDataByte state job byte).andThen finishByte
    | none => finishByte state

/-- The loop body of `peridot_rpc_server_sink`, for one byte of the buffer. -/
def sinkByte (cfg : Config) (malloc : Allocator) (state : State) (raw : UInt8) :
    Outcome :=
  if raw = astSop then
    ({ state with offset := 0, insidePacket := true, eopPrefix := false }, [])
  else if raw = astEopPrefix then
    ({ state with eopPrefix := true }, [])
  else if raw = astEscapePrefix then
    ({ state with escapePrefix := true }, [])
  else if state.insidePacket = false then
    ({ state with escapePrefix := false }, [])
  else
    payloadByte cfg malloc { state with escapePrefix := false }
      (unescape state.escapePrefix raw)

/-- `peridot_rpc_server_sink`: the state afterwards, the effects and the number of
bytes taken from the buffer. -/
def peridotRpcServerSink (cfg : Config) (malloc : Allocator) :
    State → List UInt8 → Outcome × Nat
  | state, [] => ((state, []), 0)
  | state, byte :: rest =>
      match state.pendingJob with
      | some _ => ((state, []), 0)
      | none =>
          let body := sinkByte cfg malloc state byte
          let tail := peridotRpcServerSink cfg malloc body.1 rest
          ((tail.1.1, .consume byte :: (body.2 ++ tail.1.2)), tail.2 + 1)

/-- The head of `peridot_rpc_server_service`: wait for the semaphore and take the
pending job.  `none` while the semaphore is zero. -/
def takePendingJob (state : State) : Option (State × Option RpcsrvJob) :=
  if state.sem = 0 then
    none
  else
    some ({ state with sem := state.sem - 1, pendingJob := none }, state.pendingJob)

/-! ## Runs -/

/-- What may happen to the shared state: the bridge calls the sink with a buffer,
or a service thread takes the pending job.  A call interrupted by a service
thread is a call for each of its pieces. -/
inductive Action where
  | sink (buffer : List UInt8)
  | service

def act (cfg : Config) (malloc : Allocator) (state : State) : Action → Outcome
  | .sink buffer => (peridotRpcServerSink cfg malloc state buffer).1
  | .service =>
      match takePendingJob state with
      | none => (state, [])
      | some (next, _) => (next, [])

def run (cfg : Config) (malloc : Allocator) : State → List Action → Outcome
  | state, [] => (state, [])
  | state, action :: rest =>
      (act cfg malloc state action).andThen fun next => run cfg malloc next rest

/-- A condition on the state before a byte and on that byte, asked of every byte
a call of the sink processes. -/
def SinkSteps (cfg : Config) (malloc : Allocator) (allowed : State → UInt8 → Prop) :
    State → List UInt8 → Prop
  | _, [] => True
  | state, byte :: rest =>
      match state.pendingJob with
      | some _ => True
      | none =>
          allowed state byte ∧
            SinkSteps cfg malloc allowed (sinkByte cfg malloc state byte).1 rest

/-- The same condition asked of every byte processed in a run. -/
def RunSteps (cfg : Config) (malloc : Allocator) (allowed : State → UInt8 → Prop) :
    State → List Action → Prop
  | _, [] => True
  | state, .sink buffer :: rest =>
      SinkSteps cfg malloc allowed state buffer ∧
        RunSteps cfg malloc allowed (act cfg malloc state (.sink buffer)).1 rest
  | state, .service :: rest =>
      RunSteps cfg malloc allowed (act cfg malloc state .service).1 rest

def consumed (effects : List Effect) : List UInt8 :=
  effects.filterMap fun effect =>
    match effect with
    | .consume byte => some byte
    | _ => none

@[simp] theorem consumed_append (first second : List Effect) :
    consumed (first ++ second) = consumed first ++ consumed second :=
  List.filterMap_append

@[simp] theorem consumed_cons (effect : Effect) (rest : List Effect) :
    consumed (effect :: rest) =
      (match effect with
        | .consume byte => [byte]
        | _ => []) ++ consumed rest := by
  cases effect <;> rfl

@[simp] theorem consumed_nil : consumed [] = [] := rfl

end PeridotSw.Rpc.Sink
