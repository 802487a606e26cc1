import Mathlib.Logic.Function.Basic
import PeridotSw.Rpc.Reply

/-!
# The Rubic agent

`rubic_agent_method_queue` leaves a request in `context` of a worker and posts its
semaphore.  The thread of an idle worker takes it as the request to start a runner; a runner
takes later ones when it calls `rubic_agent_runner_cooperate`.

A region under a mutex is one step, and so is a call a runner makes; a write under no mutex
is a step of its own.  Only the thread of a worker holds its mutex from one step to the
next, at the head of its loop.
-/

namespace PeridotSw.Rubic.Agent

open PeridotSw.Machine.Memory
open PeridotSw.Bson.Read
open PeridotSw.Bson.Write
open PeridotSw.Rpc.Reply (into offsetAt keyResult)

/-! ## Constants -/

def esrch : Int32 := 3
def enomem : Int32 := 12
def ebusy : Int32 := 16
def eexist : Int32 := 17

def runnerFlagFile : Nat := 1
def runnerFlagSource : Nat := 2
def runnerFlagDebug : Nat := 4
def runnerFlagAutoboot : Nat := 8

def keyTid : CString := .of [0x74, 0x69, 0x64] rfl

def keyName : CString := .of [0x6e, 0x61, 0x6d, 0x65] rfl

def keyRuntime : CString := .of [0x72, 0x75, 0x6e, 0x74, 0x69, 0x6d, 0x65] rfl

def keyFile : CString := .of [0x66, 0x69, 0x6c, 0x65] rfl

def keySource : CString := .of [0x73, 0x6f, 0x75, 0x72, 0x63, 0x65] rfl

def keyDebug : CString := .of [0x64, 0x65, 0x62, 0x75, 0x67] rfl

def nameStart : CString := .of [0x73, 0x74, 0x61, 0x72, 0x74] rfl

def nameAbort : CString := .of [0x61, 0x62, 0x6f, 0x72, 0x74] rfl

def nameCallback : CString := .of [0x63, 0x61, 0x6c, 0x6c, 0x62, 0x61, 0x63, 0x6b] rfl

/-! ## Requests -/

/-- The names of the runtimes in the order they were registered, and what lies at address
zero. -/
structure Setting where
  runtimes : List CString
  lowMemory : Mem

/-- A `peridot_rpc_server_async_context`: the number of the call that brought it, the
document of the request and `params`, a pointer into it or `NULL`. -/
structure Context where
  id : Nat
  input : Mem
  params : Option Nat

def props (setting : Setting) (context : Context) (params : List Param) : List Param :=
  match context.params with
  | some doc => ((bsonGetProps doc params).eval context.input).2
  | none => ((bsonGetProps 0 params).eval setting.lowMemory).2

/-- `bson_get_string(params, off, NULL)`. -/
def stringAt (context : Context) (offset : Int) : Option Nat :=
  (bsonGetString context.params offset).eval context.input

/-- `strcmp(bson_get_string(params, off, ""), name) == 0`. -/
def stringIs (context : Context) (offset : Int) (name : CString) : Bool :=
  match stringAt context offset with
  | some string => (strcmpEq name.bytes string).eval context.input
  | none => name.bytes = []

def findRuntime (setting : Setting) (input : Mem) : Option Nat → Option CString
  | none => setting.runtimes.head?
  | some name => setting.runtimes.find? fun runtime => (strcmpEq runtime.bytes name).eval input

/-! ## Workers -/

inductive WorkerState where
  | idle
  | starting
  | running
  | aborting
  | failed
  | autoboot
  deriving DecidableEq

/-- A `rubic_agent_worker`; `mutex` says that the worker's own thread holds it. -/
structure Worker where
  threadIndex : Int32
  state : WorkerState
  mutex : Bool
  sem : Nat
  context : Option Context
  callbackContext : Option Context

/-- `rubic_agent_init`. -/
def Worker.initial : Worker where
  threadIndex := 0
  state := .idle
  mutex := false
  sem := 0
  context := none
  callbackContext := none

/-- Where `worker_thread` is.  `running` is in the runner, which has called back or has not;
`failed` is at `reply_error`, where no lock is held, and `replying` behind the write to
`context` there. -/
inductive Place where
  | unborn
  | entering
  | top
  | waiting
  | woken
  | running (calledBack : Bool)
  | returned
  | failed
  | replying
  deriving DecidableEq

/-- `file_or_source`: a string of the request, or the path that `parse_boot_json` made. -/
inductive Text where
  | request (pointer : Nat)
  | boot (path : CString)

/-- What `parse_boot_json` found, besides its two flags. -/
structure Boot where
  runtime : Option CString
  path : CString

/-- The variables of `worker_thread`. -/
structure Thread where
  place : Place
  context : Option Context
  runtime : Option CString
  fileOrSource : Option Text
  flags : Nat
  result : Int32

/-- A thread outside the block of its variables, or before they are set. -/
def Thread.at (place : Place) : Thread where
  place := place
  context := none
  runtime := none
  fileOrSource := none
  flags := 0
  result := 0

/-- What a step of a worker does to the outside: a call of
`peridot_rpc_server_async_callback`, with its context, or the release of a path. -/
inductive Event where
  | answer (context : Option Nat) (result : Option Mem) (errno : Int32)
  | free (text : Option Text)

/-! ### `worker_thread` -/

/-- From `invoke_runner` on, up to the runner. -/
def invokeRunner (thread : Thread) : Thread :=
  if thread.runtime.isNone ∨ thread.fileOrSource.isNone then
    { thread with result := -esrch, place := .failed }
  else
    { thread with place := .running false }

/-- The head of the loop, up to `sem_wait`; `boot` is what `parse_boot_json` finds. -/
def loopHead (worker : Worker) (boot : Option Boot) : Worker × Thread :=
  if worker.state = .autoboot then
    match boot with
    | none => ({ worker with state := .idle }, .at .top)
    | some boot =>
        ({ worker with state := .starting, mutex := false },
          invokeRunner
            { place := .top
              context := none
              runtime := boot.runtime
              fileOrSource := some (.boot boot.path)
              flags := runnerFlagAutoboot ||| runnerFlagFile
              result := 0 })
  else
    ({ worker with state := .idle, mutex := false }, .at .waiting)

/-- The keys `worker_thread` asks for, their variables holding anything. -/
def startParams (stale : Fin 4 → Int) : List Param :=
  [⟨keyRuntime, stale 0⟩, ⟨keyFile, stale 1⟩, ⟨keySource, stale 2⟩, ⟨keyDebug, stale 3⟩]

/-- The reading of a request to start a runner. -/
def readStart (setting : Setting) (stale : Fin 4 → Int) (context : Context) : Thread :=
  let found := props setting context (startParams stale)
  let file := stringAt context (offsetAt found 1)
  let source := stringAt context (offsetAt found 2)
  let debug := (bsonGetBoolean context.params (offsetAt found 3) 0).eval context.input
  { place := .woken
    context := some context
    runtime := findRuntime setting context.input (stringAt context (offsetAt found 0))
    fileOrSource := (file.or source).map Text.request
    flags := (if file.isSome then runnerFlagFile else runnerFlagSource) |||
      (if debug ≠ 0 then runnerFlagDebug else 0)
    result := 0 }

/-- From `sem_wait` up to the runner. -/
def takeRequest (setting : Setting) (stale : Fin 4 → Int) (worker : Worker) : Worker × Thread :=
  match worker.context with
  | none => (worker, .at .top)
  | some context =>
      ({ worker with state := .starting }, invokeRunner (readStart setting stale context))

/-- `if (context) peridot_rpc_server_async_callback(context, NULL, result)`. -/
def answerStart (thread : Thread) : List Event :=
  match thread.context with
  | none => []
  | some context => [.answer (some context.id) none thread.result]

/-- The document `{ key: value }` in a block that has been allocated. -/
def int32Document (block : Mem) (key : CString) (value : Int32) : Mem :=
  let document := bsonCreateEmptyDocument block
  into document (bsonSetInt32 (some document) key value)

/-- The reply to `callback_context`, `output` being what `malloc` returns. -/
def answerCallback (worker : Worker) (result : Int32) (output : Option Mem) :
    Worker × List Event :=
  match worker.callbackContext with
  | none => (worker, [])
  | some context =>
      ({ worker with callbackContext := none },
        [.answer (some context.id) (output.map (int32Document · keyResult result))
          (if output.isSome then 0 else -enomem)])

/-- `if (flags & RUBIC_AGENT_RUNNER_FLAG_AUTOBOOT) free(file_or_source)`. -/
def freeFile (thread : Thread) : List Event :=
  if thread.flags &&& runnerFlagAutoboot ≠ 0 then [.free thread.fileOrSource] else []

/-- `if (worker->state == WORKER_STATE_STARTING)` behind the runner. -/
def finishStart (worker : Worker) (thread : Thread) : Worker × List Event :=
  if worker.state = .starting then ({ worker with context := none }, answerStart thread)
  else (worker, [])

/-- From the lock behind the runner to the end of the loop. -/
def finishRunner (worker : Worker) (thread : Thread) (output : Option Mem) :
    Worker × List Event :=
  let start := finishStart worker thread
  let callback := answerCallback start.1 thread.result output
  ({ callback.1 with mutex := true }, start.2 ++ callback.2 ++ freeFile thread)

/-- From behind the write at `reply_error` to the end of the loop, when it was reached by
`goto`. -/
def replyError (worker : Worker) (thread : Thread) (output : Option Mem) :
    Worker × List Event :=
  let callback := answerCallback worker thread.result output
  (callback.1, answerStart thread ++ callback.2 ++ freeFile thread)

/-! ### Functions for runners -/

/-- `rubic_agent_runner_notify_init`, `output` being what `malloc` returns. -/
def rubicAgentRunnerNotifyInit (worker : Worker) (output : Option Mem) : Worker × List Event :=
  match output with
  | none =>
      ({ worker with context := none, state := .failed },
        [.answer (worker.context.map Context.id) none (-enomem)])
  | some block =>
      ({ worker with context := none, state := .running },
        [.answer (worker.context.map Context.id)
          (some (int32Document block keyTid worker.threadIndex)) 0])

/-- `rubic_agent_runner_cooperate`; the variable of the key holds anything. -/
def rubicAgentRunnerCooperate (setting : Setting) (worker : Worker) (stale : Int) :
    Worker × List Event :=
  match worker.context with
  | none => (worker, [])
  | some context =>
      let cleared := { worker with context := none }
      let offName := offsetAt (props setting context [⟨keyName, stale⟩]) 0
      if stringIs context offName nameAbort then
        ({ cleared with state := .aborting }, [.answer (some context.id) none 0])
      else if stringIs context offName nameCallback then
        match worker.callbackContext with
        | some _ => (cleared, [.answer (some context.id) none eexist])
        | none => ({ cleared with callbackContext := some context }, [])
      else
        (cleared, [.answer (some context.id) none (-esrch)])

/-! ### Steps of a worker's thread -/

inductive ThreadAction where
  | create (disableAutoBoot : Bool)
  | enter
  | head (boot : Option Boot)
  | wait
  | take (stale : Fin 4 → Int)
  | notifyInit (output : Option Mem)
  | cooperate (stale : Int)
  | leave (result : Int32)
  | finish (output : Option Mem)
  | clear
  | reply (output : Option Mem)

/-- A step of the thread of worker `index`.  A runner calls `rubic_agent_runner_notify_init`
before anything else or not at all. -/
def threadStep (setting : Setting) (index : Nat) (worker : Worker) (thread : Thread) :
    ThreadAction → Option (Worker × Thread × List Event)
  | .create disableAutoBoot =>
      if thread.place = .unborn then
        let state :=
          if index = 0 ∧ disableAutoBoot = false then .autoboot else worker.state
        some ({ worker with state := state }, .at .entering, [])
      else none
  | .enter =>
      if thread.place = .entering ∧ worker.mutex = false then
        some ({ worker with mutex := true }, .at .top, [])
      else none
  | .head boot =>
      if thread.place = .top then
        let head := loopHead worker boot
        some (head.1, head.2, [])
      else none
  | .wait =>
      if thread.place = .waiting ∧ worker.sem ≠ 0 then
        some ({ worker with sem := worker.sem - 1 }, .at .woken, [])
      else none
  | .take stale =>
      if thread.place = .woken ∧ worker.mutex = false then
        let taken := takeRequest setting stale worker
        some (taken.1, taken.2, [])
      else none
  | .notifyInit output =>
      if thread.place = .running false then
        let called := rubicAgentRunnerNotifyInit worker output
        some (called.1, { thread with place := .running true }, called.2)
      else none
  | .cooperate stale =>
      match thread.place with
      | .running _ =>
          let called := rubicAgentRunnerCooperate setting worker stale
          some (called.1, { thread with place := .running true }, called.2)
      | _ => none
  | .leave result =>
      match thread.place with
      | .running _ => some (worker, { thread with place := .returned, result := result }, [])
      | _ => none
  | .finish output =>
      if thread.place = .returned ∧ worker.mutex = false then
        let finished := finishRunner worker thread output
        some (finished.1, .at .top, finished.2)
      else none
  | .clear =>
      if thread.place = .failed then
        some ({ worker with context := none }, { thread with place := .replying }, [])
      else none
  | .reply output =>
      if thread.place = .replying then
        let replied := replyError worker thread output
        some (replied.1, .at .top, replied.2)
      else none

/-! ## The queue -/

/-- Where a call of `rubic_agent_method_queue` is: about to lock the worker of its `tid`, or
the next worker for `"start"`, about to post a semaphore, or back.  `count` is
`RUBIC_AGENT_WORKER_THREADS`. -/
inductive QueuePhase (count : Nat) where
  | specific (worker : Fin count)
  | start (tid : Nat)
  | post (worker : Fin count)
  | returned (result : Int32)

structure QueueCall (count : Nat) where
  input : Mem
  params : Option Nat
  phase : QueuePhase count

/-- The agent, the calls of the queue by their number, the requests the queue has put into a
worker, and what happened outside. -/
structure State (count : Nat) where
  workers : Fin count → Worker
  threads : Fin count → Thread
  calls : Nat → Option (QueueCall count)
  begun : Nat
  accepted : List Nat
  events : List Event

def initial (count : Nat) : State count where
  workers := fun _ => .initial
  threads := fun _ => .at .unborn
  calls := fun _ => none
  begun := 0
  accepted := []
  events := []

/-- The beginning of `rubic_agent_method_queue`; the variables of its keys hold anything. -/
def queuePhase (setting : Setting) (count : Nat) (context : Context)
    (staleTid staleName : Int) : QueuePhase count :=
  let offTid := offsetAt (props setting context [⟨keyTid, staleTid⟩]) 0
  let tid := (bsonGetInt32 context.params offTid (-1)).eval context.input
  if inside : 0 ≤ tid ∧ tid < count then
    .specific ⟨tid.toNat, by omega⟩
  else
    let offName := offsetAt (props setting context [⟨keyName, staleName⟩]) 0
    if stringIs context offName nameStart then .start 0 else .returned (-esrch)

variable {count : Nat}

/-- A call of the queue goes on. -/
def State.setPhase (state : State count) (number : Nat) (call : QueueCall count)
    (phase : QueuePhase count) : State count :=
  { state with calls := Function.update state.calls number (some { call with phase := phase }) }

theorem State.setPhase_calls (state : State count) (number : Nat) (call : QueueCall count)
    (phase : QueuePhase count) : (state.setPhase number call phase).calls =
      Function.update state.calls number (some { call with phase := phase }) := rfl

/-- The request of a call is put into a worker. -/
def State.accept (state : State count) (number : Nat) (call : QueueCall count)
    (index : Fin count) (workerState : WorkerState) : State count :=
  let worker := state.workers index
  let context : Context := ⟨number, call.input, call.params⟩
  { state.setPhase number call (.post index) with
    workers := Function.update state.workers index
      { worker with context := some context, state := workerState }
    accepted := state.accepted ++ [number] }

section

variable (state : State count) (number : Nat) (call : QueueCall count) (index : Fin count)
  (workerState : WorkerState)

theorem State.accept_calls : (state.accept number call index workerState).calls =
    Function.update state.calls number (some { call with phase := .post index }) := rfl

theorem State.accept_accepted : (state.accept number call index workerState).accepted =
    state.accepted ++ [number] := rfl

theorem State.accept_workers : (state.accept number call index workerState).workers =
    Function.update state.workers index
      { state.workers index with
        context := some ⟨number, call.input, call.params⟩
        state := workerState } := rfl

end

/-- The next region of a call, or its `sem_post`. -/
def State.queueStep (state : State count) (number : Nat) : Option (State count) := do
  let call ← state.calls number
  match call.phase with
  | .specific index =>
      let worker := state.workers index
      if worker.mutex then none
      else if worker.context.isSome then
        some (state.setPhase number call (.returned (-ebusy)))
      else
        some (state.accept number call index worker.state)
  | .start tid =>
      if inside : tid < count then
        let worker := state.workers ⟨tid, inside⟩
        if worker.mutex then none
        else if worker.state = .idle then
          some (state.accept number call ⟨tid, inside⟩ .starting)
        else
          some (state.setPhase number call (.start (tid + 1)))
      else
        some (state.setPhase number call (.returned (-ebusy)))
  | .post index =>
      let worker := state.workers index
      some { state.setPhase number call (.returned 0) with
        workers := Function.update state.workers index { worker with sem := worker.sem + 1 } }
  | .returned _ => none

def State.act (state : State count) (index : Fin count) (worker : Worker) (thread : Thread)
    (events : List Event) : State count :=
  { state with
    workers := Function.update state.workers index worker
    threads := Function.update state.threads index thread
    events := state.events ++ events }

/-! ## Runs -/

inductive Action (count : Nat) where
  | queue (input : Mem) (params : Option Nat) (staleTid staleName : Int)
  | queueStep (number : Nat)
  | thread (index : Fin count) (action : ThreadAction)

def step (setting : Setting) (state : State count) : Action count → Option (State count)
  | .queue input params staleTid staleName =>
      let phase := queuePhase setting count ⟨state.begun, input, params⟩ staleTid staleName
      some { state.setPhase state.begun ⟨input, params, phase⟩ phase with
        begun := state.begun + 1 }
  | .queueStep number => state.queueStep number
  | .thread index action =>
      (threadStep setting index (state.workers index) (state.threads index) action).map
        fun next => state.act index next.1 next.2.1 next.2.2

end PeridotSw.Rubic.Agent
