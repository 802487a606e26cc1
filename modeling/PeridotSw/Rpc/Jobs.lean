import Mathlib.Logic.Function.Basic
import PeridotSw.Rpc.Reply
import PeridotSw.Rpc.SinkRun

/-!
# Jobs from the sink to the reply

The sink allocates a job and publishes it, a call of `peridot_rpc_server_service` takes it
and frees it with its reply, or leaves it to an asynchronous method, which frees it when it
reports its result.  The calls of the service go on side by side; each is in progress from
the moment it has taken the pending job.
-/

namespace PeridotSw.Rpc.Jobs

open PeridotSw.Machine.Memory
open PeridotSw.Rpc.Sink (Config Allocator RpcsrvJob Outcome peridotRpcServerSink takePendingJob)
open PeridotSw.Rpc.Reply

/-- The sink, the jobs of the calls in progress and of the methods that accepted one, by the
number of the call, and the jobs allocated and freed so far. -/
structure Server where
  sink : Sink.State
  serving : Nat → Option RpcsrvJob
  accepted : Nat → Option RpcsrvJob
  calls : Nat
  allocated : List Nat
  freed : List Nat

def initial : Server where
  sink := Sink.initial
  serving := fun _ => none
  accepted := fun _ => none
  calls := 0
  allocated := []
  freed := []

/-- What a call of the service meets: the allocator, the methods registered, and what its
local variables hold. -/
structure Surroundings where
  malloc : Allocator
  methods : List MethodEntry
  buffer : Mem
  stale : Fin 4 → Int

/-- What an asynchronous method reports, through which function, and what that meets. -/
structure Report where
  malloc : Allocator
  buffer : Mem
  stale : Int
  viaError : Bool
  document : Option Mem
  errno : Int32

inductive Action where
  | sink (buffer : List UInt8)
  | take
  | serve (call : Nat) (surroundings : Surroundings)
  | answer (call : Nat) (report : Report)

def allocatedIds (effects : List Sink.Effect) : List Nat :=
  effects.filterMap fun effect =>
    match effect with
    | .malloc _ job => job
    | _ => none

/-- The jobs freed among the effects of the sink; freeing `NULL` frees nothing. -/
def freedIds (effects : List Sink.Effect) : List Nat :=
  effects.filterMap fun effect =>
    match effect with
    | .free job => job
    | _ => none

def freesJob : Effect → Bool
  | .free .job => true
  | _ => false

def jobFrees (effects : List Effect) : Nat := effects.countP freesJob

def Server.record (server : Server) (outcome : Outcome) : Server :=
  { server with
    sink := outcome.1
    allocated := server.allocated ++ allocatedIds outcome.2
    freed := server.freed ++ freedIds outcome.2 }

/-- The head of `peridot_rpc_server_service`, with threads or without. -/
def take (threads : Bool) (server : Server) : Option Server :=
  let taken :=
    if threads then takePendingJob server.sink
    else some ({ server.sink with pendingJob := none }, server.sink.pendingJob)
  taken.map fun result =>
    { server with
      sink := result.1
      serving := Function.update server.serving server.calls result.2
      calls := server.calls + 1 }

/-- The method has taken the job over. -/
def isQueued (surroundings : Surroundings) (job : RpcsrvJob) : Bool :=
  match (judge surroundings.methods surroundings.stale job.data).1 with
  | .queued => true
  | _ => false

/-- The rest of `peridot_rpc_server_service`. -/
def serve (server : Server) (call : Nat) (surroundings : Surroundings) : Option Server :=
  (server.serving call).map fun job =>
    { server with
      serving := Function.update server.serving call none
      accepted :=
        if isQueued surroundings job then Function.update server.accepted call (some job)
        else server.accepted
      freed := server.freed ++ List.replicate
        (jobFrees (peridotRpcServerService surroundings.malloc surroundings.methods
          surroundings.buffer surroundings.stale (some job.data))) job.id }

/-- The effects of the function an asynchronous method reports through. -/
def reportEffects (report : Report) (input : Mem) : List Effect :=
  if report.viaError then
    peridotRpcServerAsyncCallbackError report.malloc report.buffer report.stale input
      report.document
  else
    peridotRpcServerAsyncCallback report.malloc report.buffer report.stale input
      report.document report.errno

def answer (server : Server) (call : Nat) (report : Report) : Option Server :=
  (server.accepted call).map fun job =>
    { server with
      accepted := Function.update server.accepted call none
      freed := server.freed ++
        List.replicate (jobFrees (reportEffects report job.data)) job.id }

def step (threads : Bool) (cfg : Config) (malloc : Allocator) (server : Server) :
    Action → Option Server
  | .sink buffer => some (server.record (peridotRpcServerSink cfg malloc server.sink buffer).1)
  | .take => take threads server
  | .serve call surroundings => serve server call surroundings
  | .answer call report => answer server call report

/-! ## Replies free their job once -/

@[simp] theorem jobFrees_nil : jobFrees [] = 0 := rfl

@[simp] theorem jobFrees_cons (effect : Effect) (rest : List Effect) :
    jobFrees (effect :: rest) = jobFrees rest + if freesJob effect then 1 else 0 :=
  List.countP_cons

@[simp] theorem jobFrees_append (first second : List Effect) :
    jobFrees (first ++ second) = jobFrees first + jobFrees second :=
  List.countP_append

@[simp] theorem jobFrees_onResult_free (result : Option Mem) :
    jobFrees (onResult result .free) = 0 := by
  cases result <;> rfl

@[simp] theorem jobFrees_onResult_read (result : Option Mem) :
    jobFrees (onResult result .read) = 0 := by
  cases result <;> rfl

theorem jobFrees_replyPass (malloc : Allocator) (attempt : Nat) (buffer input : Mem) (offId : Int)
    (result : Option Mem) (errno : Int32) {failed : List Effect} (once : jobFrees failed = 1) :
    jobFrees (replyPass malloc attempt buffer input offId result errno failed) = 1 := by
  unfold replyPass
  dsimp only
  split
  · simp [freesJob, once]
  · simp [freesJob]

theorem jobFrees_sendReply (malloc : Allocator) (buffer input : Mem) (offId : Int)
    (result : Option Mem) (errno : Int32) :
    jobFrees (sendReply malloc buffer input offId result errno) = 1 := by
  refine jobFrees_replyPass _ _ _ _ _ _ _ ?_
  split
  · simp [freesJob]
  · have second := @jobFrees_replyPass malloc 1 buffer input offId none jsonrpcErrInternalError
      [.free .job] rfl
    simp [second]

/-- The service frees its job unless a method has taken it over. -/
theorem jobFrees_service (surroundings : Surroundings) (job : RpcsrvJob) :
    jobFrees (peridotRpcServerService surroundings.malloc surroundings.methods
      surroundings.buffer surroundings.stale (some job.data)) =
      if isQueued surroundings job then 0 else 1 := by
  unfold peridotRpcServerService isQueued
  dsimp only
  rcases judge surroundings.methods surroundings.stale job.data with ⟨verdict, offId⟩
  cases verdict with
  | reply result errno => exact jobFrees_sendReply _ _ _ _ _ _
  | notification result =>
      simp [freesJob]
  | queued => rfl

theorem jobFrees_asyncReply (malloc : Allocator) (buffer : Mem) (stale : Int) (input : Mem)
    (resultOrError : Option Mem) (errno : Int32) :
    jobFrees (asyncReply malloc buffer stale input resultOrError errno) = 1 := by
  unfold asyncReply
  dsimp only
  split
  · exact jobFrees_sendReply _ _ _ _ _ _
  · simp [freesJob]

theorem jobFrees_report (report : Report) (input : Mem) :
    jobFrees (reportEffects report input) = 1 := by
  unfold reportEffects
  split
  · exact jobFrees_asyncReply _ _ _ _ _ _
  · exact jobFrees_asyncReply _ _ _ _ _ _

end PeridotSw.Rpc.Jobs
