import Mathlib.Logic.Function.Basic
import PeridotSw.Machine.Transition
import PeridotSw.Rpc.SinkRun

/-!
# Jobs handed from the sink to the workers

With worker threads neither the sink nor the head of `peridot_rpc_server_service` is one step.
The sink tests `pending_job`, takes a byte, stores `pending_job` and posts the semaphore; a
worker waits for the semaphore, loads `pending_job` and clears it.  No lock protects any of
this.  `Queue` is the system in which a byte with its `sem_post`, and the head of the service,
are one step each.
-/

namespace PeridotSw.Rpc.Handover

open PeridotSw.Machine.Transition
open PeridotSw.Rpc.Sink (Config Allocator RpcsrvJob Effect Outcome sinkByte takePendingJob
  payloadByte finishByte allocateJob storeLengthByte storeDataByte dropPacket nextPacket)

/-! ## Threads -/

/-- Where the sink is: at the head of its loop, behind a test that has found no pending job, or
in front of `sem_post`. -/
inductive SinkPlace where
  | head
  | body
  | posting
  deriving DecidableEq

/-- Where a worker is: in front of `sem_wait`, behind it, behind the load of `pending_job`, or
behind its clearing. -/
inductive WorkerPlace where
  | waiting
  | woken
  | loaded (job : Option RpcsrvJob)
  | serving (job : Option RpcsrvJob)

/-- The shared state, the threads, the jobs stored in `pending_job`, and what the workers have
loaded, in order. -/
structure State (Worker : Type) where
  sink : Sink.State
  place : SinkPlace
  workers : Worker → WorkerPlace
  published : List (Option RpcsrvJob)
  loads : List (Worker × Option RpcsrvJob)

def initial (Worker : Type) : State Worker where
  sink := Sink.initial
  place := .head
  workers := fun _ => .waiting
  published := []
  loads := []

inductive Action (Worker : Type) where
  | look
  | byte (raw : UInt8)
  | post
  | wake (worker : Worker)
  | load (worker : Worker)
  | clear (worker : Worker)
  | return (worker : Worker)

def publishes (effects : List Effect) : List (Option RpcsrvJob) :=
  effects.filterMap fun effect =>
    match effect with
    | .publish job => some job
    | _ => none

variable {Worker : Type} [DecidableEq Worker]

def State.move (state : State Worker) (worker : Worker) (place : WorkerPlace) : State Worker :=
  { state with workers := Function.update state.workers worker place }

/-- A byte of the sink, up to the head of the loop or to `sem_post`. -/
def State.takeByte (cfg : Config) (malloc : Allocator) (state : State Worker) (raw : UInt8) :
    State Worker :=
  let outcome := sinkByte cfg malloc state.sink raw
  { state with
    sink := { outcome.1 with sem := state.sink.sem }
    place := if publishes outcome.2 = [] then .head else .posting
    published := state.published ++ publishes outcome.2 }

def step (cfg : Config) (malloc : Allocator) (state : State Worker) :
    Action Worker → Option (State Worker)
  | .look =>
      if state.place = .head then
        some (if state.sink.pendingJob.isNone then { state with place := .body } else state)
      else none
  | .byte raw => if state.place = .body then some (state.takeByte cfg malloc raw) else none
  | .post =>
      if state.place = .posting then
        some { state with sink := { state.sink with sem := state.sink.sem + 1 }, place := .head }
      else none
  | .wake worker =>
      match state.workers worker with
      | .waiting =>
          if state.sink.sem = 0 then none
          else
            some { state.move worker .woken with
              sink := { state.sink with sem := state.sink.sem - 1 } }
      | _ => none
  | .load worker =>
      match state.workers worker with
      | .woken =>
          some { state.move worker (.loaded state.sink.pendingJob) with
            loads := state.loads ++ [(worker, state.sink.pendingJob)] }
      | _ => none
  | .clear worker =>
      match state.workers worker with
      | .loaded job =>
          some { state.move worker (.serving job) with
            sink := { state.sink with pendingJob := none } }
      | _ => none
  | .return worker =>
      match state.workers worker with
      | .serving _ => some (state.move worker .waiting)
      | _ => none

/-! ## The same in whole steps -/

structure Queue where
  sink : Sink.State
  published : List (Option RpcsrvJob)
  taken : List (Option RpcsrvJob)

def emptyQueue : Queue := ⟨Sink.initial, [], []⟩

inductive Move where
  | byte (raw : UInt8)
  | take

/-- A turn of the loop of the sink, and the head of `peridot_rpc_server_service`. -/
def queueStep (cfg : Config) (malloc : Allocator) (queue : Queue) : Move → Option Queue
  | .byte raw =>
      match queue.sink.pendingJob with
      | some _ => none
      | none =>
          let outcome := sinkByte cfg malloc queue.sink raw
          some ⟨outcome.1, queue.published ++ publishes outcome.2, queue.taken⟩
  | .take =>
      (takePendingJob queue.sink).map fun taken =>
        ⟨taken.1, queue.published, queue.taken ++ [taken.2]⟩

/-! ## What a byte does to the pending job -/

/-- A byte leaves the pending job and the semaphore alone, or stores a job and counts it. -/
inductive Publishing (state : Sink.State) (outcome : Outcome) : Prop where
  | quiet (nothing : publishes outcome.2 = [])
      (pending : outcome.1.pendingJob = state.pendingJob) (sem : outcome.1.sem = state.sem)
  | stored (job : Option RpcsrvJob) (once : publishes outcome.2 = [job])
      (pending : outcome.1.pendingJob = job) (sem : outcome.1.sem = state.sem + 1)

variable {cfg : Config} {malloc : Allocator}

theorem publishing_finishByte (state : Sink.State) : Publishing state (finishByte state) := by
  unfold finishByte
  split
  · exact .quiet rfl rfl rfl
  · split
    · exact .quiet rfl rfl rfl
    · exact .stored _ rfl rfl rfl

/-- What comes before and publishes nothing makes no difference. -/
theorem Publishing.since {state between : Sink.State} {outcome : Outcome}
    (pending : between.pendingJob = state.pendingJob) (sem : between.sem = state.sem)
    (publishing : Publishing between outcome) : Publishing state outcome := by
  cases publishing with
  | quiet nothing pending' sem' => exact .quiet nothing (pending'.trans pending) (sem'.trans sem)
  | stored job once pending' sem' => exact .stored job once pending' (by rw [← sem]; exact sem')

theorem Publishing.after {state : Sink.State} {outcome : Outcome}
    {rest : Sink.State → Outcome} (quiet : publishes outcome.2 = [])
    (pending : outcome.1.pendingJob = state.pendingJob) (sem : outcome.1.sem = state.sem)
    (publishing : Publishing outcome.1 (rest outcome.1)) :
    Publishing state (outcome.andThen rest) := by
  have both : publishes (outcome.andThen rest).2 = publishes (rest outcome.1).2 := by
    rw [Outcome.andThen, publishes, List.filterMap_append]
    change publishes outcome.2 ++ _ = _
    rw [quiet]
    rfl
  cases publishing with
  | quiet nothing pending' sem' =>
      exact .quiet (both.trans nothing) (pending'.trans pending) (sem'.trans sem)
  | stored job once pending' sem' =>
      exact .stored job (both.trans once) pending' (by rw [← sem]; exact sem')

theorem publishing_sinkByte (state : Sink.State) (raw : UInt8) :
    Publishing state (sinkByte cfg malloc state raw) := by
  unfold sinkByte
  split
  · exact .quiet rfl rfl rfl
  split
  · exact .quiet rfl rfl rfl
  split
  · exact .quiet rfl rfl rfl
  split
  · exact .quiet rfl rfl rfl
  · unfold payloadByte
    split
    · dsimp only
      split
      · refine Publishing.after ?_ ?_ ?_ (publishing_finishByte _) <;>
          (unfold allocateJob; split; dsimp only; split) <;> rfl
      · refine Publishing.since ?_ ?_ (publishing_finishByte _) <;> rfl
    · split
      · exact .quiet rfl rfl rfl
      · split
        · exact Publishing.after rfl rfl rfl (publishing_finishByte _)
        · refine Publishing.since ?_ ?_ (publishing_finishByte _) <;> rfl

/-! ## The whole steps hand every job over once -/

/-- The jobs taken are those published, but for the one that is pending and counted. -/
structure Queue.Handed (queue : Queue) : Prop where
  order : queue.published = queue.taken ++ (queue.sink.pendingJob.toList.map some)
  jobs : ∀ job ∈ queue.published, job.isSome
  count : queue.sink.sem = if queue.sink.pendingJob.isSome then 1 else 0

def PublishesJob (cfg : Config) (malloc : Allocator) (sink : Sink.State) (raw : UInt8) : Prop :=
  ∀ job ∈ publishes (sinkByte cfg malloc sink raw).2, job.isSome

theorem handed_byte {queue : Queue} (handed : queue.Handed) {raw : UInt8}
    (idle : queue.sink.pendingJob = none) (job : PublishesJob cfg malloc queue.sink raw) :
    Queue.Handed ⟨(sinkByte cfg malloc queue.sink raw).1,
      queue.published ++ publishes (sinkByte cfg malloc queue.sink raw).2, queue.taken⟩ := by
  obtain ⟨order, jobs, count⟩ := handed
  rw [idle] at order count
  have order' : queue.published = queue.taken := by simpa using order
  have count' : queue.sink.sem = 0 := count
  have publishing : Publishing queue.sink (sinkByte cfg malloc queue.sink raw) :=
    publishing_sinkByte queue.sink raw
  rcases publishing with
    ⟨nothing, pending, sem⟩ | ⟨published, once, pending, sem⟩
  · rw [nothing, List.append_nil]
    refine ⟨?_, jobs, ?_⟩
    · rw [pending, idle]
      exact order
    · rw [pending, idle]
      exact sem.trans count'
  · cases published with
    | none => exact absurd (job none (by rw [once]; exact List.mem_singleton_self none)) (by simp)
    | some published =>
        rw [once]
        refine ⟨?_, ?_, ?_⟩
        · rw [pending, order']
          rfl
        · exact fun other member => (List.mem_append.mp member).elim (jobs other)
            (fun last => by rw [List.mem_singleton.mp last]; rfl)
        · rw [pending, sem, count']
          rfl

theorem handed_take {queue : Queue} (handed : queue.Handed) {next : Sink.State}
    {job : Option RpcsrvJob} (taken : takePendingJob queue.sink = some (next, job)) :
    (∃ held, job = some held ∧ queue.sink.pendingJob = some held) ∧
      queue.sink.sem = 1 ∧ next = { queue.sink with sem := 0, pendingJob := none } ∧
        Queue.Handed ⟨next, queue.published, queue.taken ++ [job]⟩ := by
  obtain ⟨order, jobs, count⟩ := handed
  unfold takePendingJob at taken
  split at taken
  · cases taken
  · rename_i counted
    cases taken
    cases pending : queue.sink.pendingJob with
    | none =>
        rw [pending] at count
        exact absurd count counted
    | some held =>
        rw [pending] at count order
        have one : queue.sink.sem = 1 := count
        refine ⟨⟨held, rfl, rfl⟩, one, by rw [one], ?_, jobs, by rw [one]; rfl⟩
        rw [order]
        simp

/-! ## Steps of the threads match whole steps -/

/-- In front of `sem_wait`, or with the job in hand. -/
inductive WorkerPlace.Outside : WorkerPlace → Prop
  | waiting : WorkerPlace.Outside .waiting
  | serving (job : Option RpcsrvJob) : WorkerPlace.Outside (.serving job)

/-- A job that is stored and not yet counted. -/
def State.uncounted (state : State Worker) : Nat := if state.place = .posting then 1 else 0

/-- A worker between `sem_wait` and the clearing, the job that is its, and what it has still to
load. -/
inductive OnTheWay (job : RpcsrvJob) : WorkerPlace → List (Option RpcsrvJob) → Prop
  | woken : OnTheWay job .woken [some job]
  | loaded : OnTheWay job (.loaded (some job)) []

/-- The queue as the threads show it: all workers are outside, or one alone is on its way and
counts as having taken its job. -/
inductive Shown (state : State Worker) (queue : Queue) : Prop where
  | outside (workers : ∀ worker, (state.workers worker).Outside)
      (sink : queue.sink = { state.sink with sem := state.sink.sem + state.uncounted })
      (body : state.place = .body → state.sink.pendingJob = none)
      (published : queue.published = state.published)
      (taken : queue.taken = state.loads.map Prod.snd)
  | inside (worker : Worker) (job : RpcsrvJob) (due : List (Option RpcsrvJob))
      (here : OnTheWay job (state.workers worker) due)
      (others : ∀ other, other ≠ worker → (state.workers other).Outside)
      (pending : state.sink.pendingJob = some job) (sem : state.sink.sem = 0)
      (head : state.place = .head)
      (sink : queue.sink = { state.sink with pendingJob := none })
      (published : queue.published = state.published)
      (taken : queue.taken = state.loads.map Prod.snd ++ due)

def Allowed (cfg : Config) (malloc : Allocator) (state : State Worker) : Action Worker → Prop
  | .byte raw => PublishesJob cfg malloc state.sink raw
  | _ => True

instance (state : State Worker) : (action : Action Worker) →
    Decidable (Allowed cfg malloc state action)
  | .byte raw =>
      inferInstanceAs (Decidable (∀ job ∈ publishes (sinkByte cfg malloc state.sink raw).2,
        job.isSome))
  | .look => .isTrue trivial
  | .post => .isTrue trivial
  | .wake _ => .isTrue trivial
  | .load _ => .isTrue trivial
  | .clear _ => .isTrue trivial
  | .return _ => .isTrue trivial

/-- One step of the threads is no step of the queue, or one. -/
def Matched (cfg : Config) (malloc : Allocator) (queue : Queue) (next : State Worker) : Prop :=
  ∃ moves later, run (queueStep cfg malloc) queue moves = some later ∧ later.Handed ∧
    Shown next later

omit [DecidableEq Worker] in
theorem Matched.still {queue : Queue} {next : State Worker} (handed : queue.Handed)
    (shown : Shown next queue) : Matched cfg malloc queue next :=
  ⟨[], queue, rfl, handed, shown⟩

variable {state next : State Worker} {queue : Queue}

theorem move_workers (worker other : Worker) (place : WorkerPlace) :
    (state.move worker place).workers other =
      if other = worker then place else state.workers other := by
  change Function.update _ _ _ _ = _
  rw [Function.update_apply]

theorem move_self (worker : Worker) (place : WorkerPlace) :
    (state.move worker place).workers worker = place := by
  rw [move_workers, if_pos rfl]

theorem moved_outside {worker other : Worker} {place : WorkerPlace}
    (moved : other = worker → place.Outside)
    (still : other ≠ worker → (state.workers other).Outside) :
    ((state.move worker place).workers other).Outside := by
  rw [move_workers]
  split
  · exact moved ‹_›
  · exact still ‹_›

omit [DecidableEq Worker] in
/-- The worker on its way is the one that is not outside. -/
theorem only_inside {worker other : Worker}
    (others : ∀ third, third ≠ other → (state.workers third).Outside)
    (inside : ¬(state.workers worker).Outside) : worker = other := by
  by_contra distinct
  exact inside (others worker distinct)

theorem match_look (handed : queue.Handed) (shown : Shown state queue)
    (taken : step cfg malloc state .look = some next) : Matched cfg malloc queue next := by
  refine .still handed ?_
  simp only [step, Option.ite_none_right_eq_some, Option.some.injEq] at taken
  obtain ⟨head, rfl⟩ := taken
  split
  · rename_i idle
    have idle' : state.sink.pendingJob = none := Option.isNone_iff_eq_none.mp idle
    cases shown with
    | outside workers sink body published taken =>
        refine .outside workers (sink.trans ?_) (fun _ => idle') published taken
        simp [State.uncounted, head]
    | inside worker job due here others pending =>
        rw [pending] at idle'
        cases idle'
  · exact shown

theorem match_byte {raw : UInt8} (handed : queue.Handed) (shown : Shown state queue)
    (job : PublishesJob cfg malloc state.sink raw)
    (taken : step cfg malloc state (.byte raw) = some next) : Matched cfg malloc queue next := by
  simp only [step, Option.ite_none_right_eq_some, Option.some.injEq] at taken
  obtain ⟨body, rfl⟩ := taken
  cases shown with
  | inside worker _ due here others pending sem head =>
      rw [head] at body
      cases body
  | outside workers sink idle published loads =>
      have same : queue.sink = state.sink := by
        rw [sink, State.uncounted, body]
        rfl
      rw [← same] at job
      have idle' : queue.sink.pendingJob = none := by rw [same]; exact idle body
      have publishing : Publishing queue.sink (sinkByte cfg malloc queue.sink raw) :=
        publishing_sinkByte queue.sink raw
      refine ⟨[.byte raw], _, by simp [run, queueStep, idle'], handed_byte handed idle' job, ?_⟩
      rw [same, published] at *
      refine .outside workers ?_ ?_ rfl loads
      · rcases publishing with ⟨nothing, pending, sem⟩ | ⟨_, once, pending, sem⟩
        · simp [State.takeByte, State.uncounted, nothing, ← sem]
        · simp [State.takeByte, State.uncounted, once, ← sem]
      · rcases publishing with ⟨nothing, pending, sem⟩ | ⟨_, once, pending, sem⟩
        · exact fun _ => pending.trans (idle body)
        · simp [State.takeByte, once]

theorem match_post (handed : queue.Handed) (shown : Shown state queue)
    (taken : step cfg malloc state .post = some next) : Matched cfg malloc queue next := by
  refine .still handed ?_
  simp only [step, Option.ite_none_right_eq_some, Option.some.injEq] at taken
  obtain ⟨posting, rfl⟩ := taken
  cases shown with
  | inside worker job due here others pending sem head =>
      rw [head] at posting
      cases posting
  | outside workers sink body published loads =>
      refine .outside workers (sink.trans ?_) (by simp) published loads
      simp [State.uncounted, posting]

omit [DecidableEq Worker] in
/-- When the semaphore is up, the queue has a job, and the sink is at the head of its loop. -/
theorem counted_job (handed : queue.Handed)
    (sink : queue.sink = { state.sink with sem := state.sink.sem + state.uncounted })
    (body : state.place = .body → state.sink.pendingJob = none) (counted : state.sink.sem ≠ 0) :
    ∃ job, state.sink.pendingJob = some job ∧ state.sink.sem = 1 ∧ state.place = .head := by
  have count : state.sink.sem + state.uncounted =
      if state.sink.pendingJob.isSome then 1 else 0 := by
    have count := handed.count
    rw [sink] at count
    exact count
  cases pending : state.sink.pendingJob with
  | none =>
      rw [pending] at count
      exact absurd (Nat.eq_zero_of_add_eq_zero_right count) counted
  | some job =>
      rw [pending] at count
      have total : state.sink.sem + state.uncounted = 1 := count
      refine ⟨job, rfl, by omega, ?_⟩
      cases place : state.place with
      | head => rfl
      | body => rw [body place] at pending; cases pending
      | posting =>
          rw [State.uncounted, if_pos place] at total
          omega

theorem match_wake {worker : Worker} (handed : queue.Handed) (shown : Shown state queue)
    (taken : step cfg malloc state (.wake worker) = some next) : Matched cfg malloc queue next := by
  simp only [step] at taken
  split at taken
  · split at taken
    · cases taken
    · rename_i waiting counted
      cases taken
      cases shown with
      | inside _ _ _ _ _ _ sem => exact absurd sem counted
      | outside workers sink body published loads =>
          obtain ⟨job, pending, one, head⟩ := counted_job handed sink body counted
          have same : queue.sink = state.sink := by
            rw [sink, State.uncounted, head]
            rfl
          have takes : takePendingJob queue.sink =
              some ({ state.sink with sem := 0, pendingJob := none }, some job) := by
            rw [same, takePendingJob, if_neg counted, pending, one]
          obtain ⟨-, -, -, handed'⟩ := handed_take handed takes
          refine ⟨[.take], _, by simp only [run, queueStep, takes]; rfl, handed', ?_⟩
          refine .inside worker job [some job] ?_ ?_ pending ?_ head ?_ published ?_
          · change OnTheWay job ((state.move worker .woken).workers worker) [some job]
            rw [move_self]
            exact .woken
          · exact fun other distinct =>
              moved_outside (fun same => absurd same distinct) fun _ => workers other
          · exact congrArg (· - 1) one
          · change _ = { state.sink with sem := state.sink.sem - 1, pendingJob := none }
            rw [one]
          · exact congrArg (· ++ [some job]) loads
  · cases taken

theorem match_load {worker : Worker} (handed : queue.Handed) (shown : Shown state queue)
    (taken : step cfg malloc state (.load worker) = some next) : Matched cfg malloc queue next := by
  simp only [step] at taken
  split at taken
  · rename_i awake
    cases taken
    have inside : ¬(state.workers worker).Outside := by rw [awake]; rintro ⟨⟩
    refine .still handed ?_
    cases shown with
    | outside workers => exact absurd (workers worker) inside
    | inside other job due here others pending sem head sink published loads =>
        obtain rfl := only_inside others inside
        rw [awake] at here
        cases here
        refine .inside worker job [] ?_ ?_ pending sem head sink published ?_
        · change OnTheWay job
            ((state.move worker (.loaded state.sink.pendingJob)).workers worker) []
          rw [move_self, pending]
          exact .loaded
        · exact fun other distinct =>
            moved_outside (fun same => absurd same distinct) fun _ => others other distinct
        · rw [loads, pending]
          simp
  · cases taken

theorem match_clear {worker : Worker} (handed : queue.Handed) (shown : Shown state queue)
    (taken : step cfg malloc state (.clear worker) = some next) :
    Matched cfg malloc queue next := by
  simp only [step] at taken
  split at taken
  · rename_i awake
    cases taken
    have inside : ¬(state.workers worker).Outside := by rw [awake]; rintro ⟨⟩
    refine .still handed ?_
    cases shown with
    | outside workers => exact absurd (workers worker) inside
    | inside other job due here others pending sem head sink published loads =>
        obtain rfl := only_inside others inside
        rw [awake] at here
        cases here
        refine .outside (fun other => ?_) (sink.trans ?_) (fun _ => rfl) published ?_
        · exact moved_outside (fun _ => .serving _) (others other)
        · simp [State.uncounted, State.move, head]
        · rw [loads, List.append_nil]
          rfl
  · cases taken

theorem match_return {worker : Worker} (handed : queue.Handed) (shown : Shown state queue)
    (taken : step cfg malloc state (.return worker) = some next) :
    Matched cfg malloc queue next := by
  simp only [step] at taken
  split at taken
  · rename_i served
    cases taken
    refine .still handed ?_
    cases shown with
    | outside workers sink body published loads =>
        exact .outside (fun other => moved_outside (fun _ => .waiting) fun _ => workers other)
          sink body published loads
    | inside other job due here others pending sem head sink published loads =>
        refine .inside other job due ?_ ?_ pending sem head sink published loads
        · rw [move_workers, if_neg]
          · exact here
          · rintro rfl
            rw [served] at here
            cases here
        · exact fun third distinct =>
            moved_outside (fun _ => .waiting) fun _ => others third distinct
  · cases taken

theorem matched_step {action : Action Worker} (handed : queue.Handed) (shown : Shown state queue)
    (allowed : Allowed cfg malloc state action)
    (taken : step cfg malloc state action = some next) : Matched cfg malloc queue next := by
  cases action with
  | look => exact match_look handed shown taken
  | byte raw => exact match_byte handed shown allowed taken
  | post => exact match_post handed shown taken
  | wake worker => exact match_wake handed shown taken
  | load worker => exact match_load handed shown taken
  | clear worker => exact match_clear handed shown taken
  | «return» worker => exact match_return handed shown taken

/-! ## Every run -/

omit [DecidableEq Worker] in
theorem shown_initial : Shown (initial Worker) emptyQueue := by
  refine .outside (fun _ => .waiting) rfl (fun _ => rfl) rfl rfl

theorem handed_initial : emptyQueue.Handed := ⟨rfl, List.forall_mem_nil _, rfl⟩

/-- Every load finds a job, and the jobs loaded are those published, in order, but for the last
one while it is pending. -/
structure State.HandedOn (state : State Worker) : Prop where
  jobs : ∀ load ∈ state.loads, load.2.isSome
  order : state.published = state.loads.map Prod.snd ∨
    ∃ job, state.sink.pendingJob = some job ∧
      state.published = state.loads.map Prod.snd ++ [some job]

theorem woken_or_loaded {job : RpcsrvJob} {place : WorkerPlace} {due : List (Option RpcsrvJob)}
    (here : OnTheWay job place due) : due = [some job] ∨ due = [] := by
  cases here with
  | woken => exact .inl rfl
  | loaded => exact .inr rfl

omit [DecidableEq Worker] in
theorem handedOn_of_shown (handed : queue.Handed) (shown : Shown state queue) : state.HandedOn := by
  obtain ⟨order, jobs, -⟩ := handed
  have subset : (∃ due, queue.taken = state.loads.map Prod.snd ++ due) →
      ∀ load ∈ state.loads, load.2.isSome := by
    rintro ⟨due, taken⟩ load member
    refine jobs load.2 ?_
    rw [order, taken]
    exact List.mem_append_left _ (List.mem_append_left _ (List.mem_map_of_mem member))
  cases shown with
  | outside workers sink body published taken =>
      refine ⟨subset ⟨[], by rw [taken, List.append_nil]⟩, ?_⟩
      rw [← published, order, taken, sink]
      cases pending : state.sink.pendingJob with
      | none => exact .inl (List.append_nil _)
      | some job => exact .inr ⟨job, rfl, rfl⟩
  | inside worker job due here others pending sem head sink published taken =>
      refine ⟨subset ⟨due, taken⟩, ?_⟩
      rw [← published, order, taken, sink]
      rcases woken_or_loaded here with rfl | rfl
      · exact .inr ⟨job, pending, by simp⟩
      · exact .inl (by simp)

/-- However the steps of the sink and of any number of workers interleave, as long as no `NULL` is
published: the run shows a run of the queue, so no worker finds `NULL` behind the semaphore, and
every job is loaded once, in the order of publication. -/
theorem handover (cfg : Config) (malloc : Allocator) (actions : List (Action Worker))
    (publishing : Each (step cfg malloc) (Allowed cfg malloc) (initial Worker) actions) :
    Always (step cfg malloc)
      (fun reached => reached.HandedOn ∧
        ∃ moves queue, run (queueStep cfg malloc) emptyQueue moves = some queue ∧
          Shown reached queue)
      (initial Worker) actions := by
  have simulated := always_simulated
    (fun (state : State Worker) _ _ (queue : Queue) (related : queue.Handed ∧ Shown state queue)
      allowed taken => matched_step related.1 related.2 allowed taken)
    ⟨handed_initial, shown_initial⟩ publishing
  refine simulated.mono fun reached => ?_
  rintro ⟨moves, queue, arrives, handed, shown⟩
  exact ⟨handedOn_of_shown handed shown, moves, queue, arrives, shown⟩

/-- Two workers and a request of four bytes: the second worker waits while the first serves. -/
def twoWorkers : List (Action Bool) :=
  ([0x7a, 4, 0, 0, 0x7b, 0] : List UInt8).flatMap (fun raw => [.look, .byte raw]) ++
    [.post, .wake true, .look, .load true, .clear true, .look]

theorem handover_twoWorkers :
    (run (step Sink.defaultConfig fun _ _ => some fun _ => 0) (initial Bool) twoWorkers).any
        (fun state => state.loads.map Prod.fst = [true] ∧ state.published.length = 1) ∧
      Always (step Sink.defaultConfig fun _ _ => some fun _ => 0)
        (fun reached => reached.HandedOn ∧
          ∃ moves queue,
            run (queueStep Sink.defaultConfig fun _ _ => some fun _ => 0) emptyQueue moves =
              some queue ∧ Shown reached queue)
        (initial Bool) twoWorkers :=
  ⟨by decide, handover Sink.defaultConfig (fun _ _ => some fun _ => 0) twoWorkers (by decide)⟩

/-- Three bytes marked as the last are a length that is complete: `NULL` is published.  The worker
it wakes clears the job that comes next, and the other worker finds `NULL`. -/
example :
    ((run (step Sink.defaultConfig fun _ _ => some fun _ => 0) (initial Bool)
      (([0x7a, 3, 0, 0x7b, 0] : List UInt8).flatMap (fun raw => [.look, .byte raw]) ++
        [.post, .wake true, .load true] ++
        ([0x7a, 4, 0, 0, 0x7b, 0] : List UInt8).flatMap (fun raw => [.look, .byte raw]) ++
        [.post, .clear true, .wake false, .load false])).map fun state =>
          (state.published.map Option.isSome, state.loads.map fun load => load.2.isSome)) =
      some ([false, true], [false, false]) := by decide

end PeridotSw.Rpc.Handover
