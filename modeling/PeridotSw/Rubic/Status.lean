import PeridotSw.Rubic.InfoBounds
import PeridotSw.Rubic.InfoDecoding
import PeridotSw.Rubic.RequestCustody

/-!
# The status of the workers

`rubic_agent_method_status` looks at the state of one worker after the other, without a lock,
while the workers go on, and builds a document for each in an array of twenty bytes.  What it
says of a worker is true of the moment at which it looked there.
-/

namespace PeridotSw.Rubic.Status

open PeridotSw.Machine.Memory
open PeridotSw.Machine.Word
open PeridotSw.Machine.Transition
open PeridotSw.Bson.Read
open PeridotSw.Bson.Write
open PeridotSw.Bson.Document
open PeridotSw.Bson.Footprint
open PeridotSw.Bson.Stores
open PeridotSw.Rpc.Sink (Allocator)
open PeridotSw.Rpc.Reply (into)
open PeridotSw.Rpc.ReplyLaw (first position lies_of_first)
open PeridotSw.Rubic.Agent
open PeridotSw.Rubic.InfoDecoding
open PeridotSw.Rubic.WorkerRequests (Busy)

/-! ## The method -/

def keyThreads : CString := .of [0x74, 0x68, 0x72, 0x65, 0x61, 0x64, 0x73] rfl

def keyRunning : CString := .of [0x72, 0x75, 0x6e, 0x6e, 0x69, 0x6e, 0x67] rfl

inductive Target where
  | temp
  | subdoc
  | result
  deriving DecidableEq

/-- The blocks that were allocated, with their sizes, the stores, and what is returned. -/
structure Outcome where
  allocated : List (Target × Nat)
  stores : List (Target × Store)
  freed : List Target
  returned : Option Mem
  errno : Option Int32

def tempSize : Nat := 20

/-- `bson_empty_size + (4 + bson_empty_size + bson_measure_boolean("running")) * count`. -/
def subdocSize (count : Nat) : Nat :=
  unsigned (wrap (bsonEmptySize +
    wrap (wrap (4 + bsonEmptySize + (bsonSetBoolean none keyRunning 0).2) * count)))

/-- `bson_empty_size + bson_measure_array("threads", subdoc)`. -/
def resultSize (subdoc : Mem) : Nat :=
  unsigned (wrap (bsonEmptySize + (bsonSetArray none keyThreads subdoc).2))

/-- `worker->state != WORKER_STATE_IDLE`. -/
def running (state : WorkerState) : Int32 := if state ≠ .idle then 1 else 0

/-- What is written to `temp` for a worker. -/
def workerInfo (temp : Mem) (state : WorkerState) : Mem :=
  let empty := bsonCreateEmptyDocument temp
  into empty (bsonSetBoolean (some empty) keyRunning (running state))

/-- The loop over the workers, of which there are at most ten, so that the key of each is the
digit of its index. -/
def addWorkers : Nat → Mem → Mem → List WorkerState → Mem
  | index, temp, subdoc, state :: rest =>
      let info := workerInfo temp state
      addWorkers (index + 1) info
        (into subdoc (bsonSetSubdocument (some subdoc) (digit index) info)) rest
  | _, _, subdoc, [] => subdoc

def buildStatus (result subdoc : Mem) : Mem :=
  let empty := bsonCreateEmptyDocument result
  into empty (bsonSetArray (some empty) keyThreads subdoc)

def onto (target : Target) (stores : List Store) : List (Target × Store) :=
  stores.map fun store => (target, store)

def workerStores (temp : Mem) (state : WorkerState) : List Store :=
  createStores ++ appendStores (bsonCreateEmptyDocument temp) keyRunning 0x08
    [if running state ≠ 0 then 1 else 0]

def workersStores : Nat → Mem → Mem → List WorkerState → List (Target × Store)
  | index, temp, subdoc, state :: rest =>
      let info := workerInfo temp state
      onto .temp (workerStores temp state) ++
        (onto .subdoc (setSubdocumentStores subdoc (digit index) 0x03 info) ++
          workersStores (index + 1) info
            (into subdoc (bsonSetSubdocument (some subdoc) (digit index) info)) rest)
  | _, _, _, [] => []

def resultStores (result subdoc : Mem) : List Store :=
  createStores ++ setSubdocumentStores (bsonCreateEmptyDocument result) keyThreads 0x04 subdoc

/-- `rubic_agent_method_status`, given the state each worker has when it is looked at. -/
def rubicAgentMethodStatus (malloc : Allocator) (mallocs : Nat) (temp : Mem)
    (states : List WorkerState) : Outcome :=
  let size := subdocSize states.length
  match malloc mallocs size with
  | none => ⟨[], [], [], none, some enomem⟩
  | some block =>
      let empty := bsonCreateEmptyDocument block
      let subdoc := addWorkers 0 temp empty states
      let stores := onto .subdoc createStores ++ workersStores 0 temp empty states
      match malloc (mallocs + 1) (resultSize subdoc) with
      | none => ⟨[(.subdoc, size)], stores, [.subdoc], none, some enomem⟩
      | some result =>
          ⟨[(.subdoc, size), (.result, resultSize subdoc)],
            stores ++ onto .result (resultStores result subdoc), [.subdoc],
            some (buildStatus result subdoc), none⟩

/-! ## The documents -/

def workerContent (state : WorkerState) : Elements :=
  .append .empty keyRunning (.boolean (running state))

def workersContent : Nat → Elements → List WorkerState → Elements
  | _, front, [] => front
  | index, front, state :: rest =>
      workersContent (index + 1)
        (.append front (digit index) (.subdocument (workerContent state))) rest

def statusContent (states : List WorkerState) : Elements :=
  .append .empty keyThreads (.array (workersContent 0 .empty states))

variable {states : List WorkerState}

theorem length_workerContent (state : WorkerState) : (workerContent state).encode.length = 10 := rfl

theorem length_workersContent (index : Nat) (front : Elements) (states : List WorkerState) :
    (workersContent index front states).encode.length =
      front.encode.length + 18 * states.length := by
  induction states generalizing index front with
  | nil => rfl
  | cons state rest ih =>
      rw [workersContent, ih, InfoCache.length_append_encode, Value.encode, length_documentBytes,
        length_workerContent, List.length_cons]
      simp only [digit, List.length_singleton]
      omega

theorem length_workers (states : List WorkerState) :
    (workersContent 0 .empty states).encode.length = 18 * states.length := by
  rw [length_workersContent, Elements.encode, List.length_nil, Nat.zero_add]

theorem built_worker (temp : Mem) (state : WorkerState) :
    ∃ sum, Built (workerContent state) (workerInfo temp state) sum := by
  have small : (workerContent state).encode.length + 5 < 2 ^ 31 := by
    rw [length_workerContent]
    decide
  exact ⟨_, .append (.empty temp) (.boolean (running state)) small⟩

theorem length_append_worker (front : Elements) (index : Nat) (state : WorkerState) :
    (Elements.append front (digit index) (.subdocument (workerContent state))).encode.length =
      front.encode.length + 18 :=
  length_workersContent index front [state]

/-- The array of the workers as it is built. -/
theorem built_workers {index : Nat} {temp doc : Mem} {front : Elements} {sum : Int}
    (built : Built front doc sum)
    (small : front.encode.length + 18 * states.length + 5 < 2 ^ 31) :
    ∃ total, Built (workersContent index front states) (addWorkers index temp doc states)
      total := by
  induction states generalizing index temp doc front sum with
  | nil => exact ⟨sum, built⟩
  | cons state rest ih =>
      obtain ⟨size, info⟩ := built_worker temp state
      have length := length_append_worker front index state
      rw [List.length_cons] at small
      have room : (Elements.append front (digit index)
          (.subdocument (workerContent state))).encode.length + 5 < 2 ^ 31 := by omega
      exact ih (.append built (.subdocument info) room) (by omega)

/-! ## The stores -/

/-- Every store is made inside its buffer. -/
def Confined (room : Target → Nat) (stores : List (Target × Store)) : Prop :=
  ∀ entry ∈ stores, entry.2.Inside (room entry.1)

theorem confined_append {room : Target → Nat} {first second : List (Target × Store)} :
    Confined room (first ++ second) ↔ Confined room first ∧ Confined room second :=
  List.forall_mem_append

theorem confined_onto {room : Target → Nat} {target : Target} {stores : List Store} :
    Confined room (onto target stores) ↔ AllInside (room target) stores :=
  List.forall_mem_map

theorem worker_inside (temp : Mem) (state : WorkerState) :
    AllInside tempSize (workerStores temp state) := by
  have length : [if running state ≠ 0 then (1 : UInt8) else 0].length = 1 := rfl
  rw [workerStores, allInside_append, allInside_create, allInside_appendStores (occupies_create temp),
    length]
  decide

theorem workers_inside {room : Target → Nat} (temp' : room .temp = tempSize)
    (small : room .subdoc < 2 ^ 31) {garbage doc temp : Mem} {index : Nat} {front : Elements}
    (occupies : Occupies garbage doc (front.encode.length + 5))
    (fits : front.encode.length + 18 * states.length + 5 ≤ room .subdoc) :
    Confined room (workersStores index temp doc states) := by
  induction states generalizing index temp front doc with
  | nil => exact List.forall_mem_nil _
  | cons state rest ih =>
      obtain ⟨sum, info⟩ := built_worker temp state
      have length := length_append_worker front index state
      have size := InfoBounds.length_document_encode front (digit index) (workerContent state)
      rw [List.length_cons] at fits
      have stored := @InfoBounds.occupies_setSubdocument _ _ _ occupies _ _ info.holds.1
        (digit index) 0x03 (by omega)
      rw [Nat.add_right_comm, ← size] at stored
      rw [workersStores, confined_append, confined_append, confined_onto, confined_onto, temp',
        InfoBounds.allInside_setSubdocument occupies info.holds.1]
      exact ⟨worker_inside temp state, by omega, ih stored (by omega)⟩

theorem subdocSize_eq {count : Nat} (few : count ≤ 10) : subdocSize count = 19 * count + 5 := by
  have measured : (bsonSetBoolean none keyRunning 0).2 = 10 := by decide
  have each : wrap (4 + bsonEmptySize + 10) = 19 := by decide
  rw [subdocSize, measured, each, unsigned_wrap, bsonEmptySize,
    @wrap_of_range (19 * count) (by omega) (by omega), unsigned_of_nonneg (by omega) (by omega)]
  omega

/-- The result has exactly the size that was measured. -/
theorem resultSize_eq {subdoc : Mem} {content : Elements} (held : HoldsDocument subdoc 0 content)
    (small : content.encode.length < 2 ^ 30) :
    resultSize subdoc = content.encode.length + 19 := by
  have measured : (bsonSetArray none keyThreads subdoc).2 =
      (elementSize keyThreads (content.encode.length + 5) : Nat) :=
    InfoBounds.measure_setSubdocument held (by
      simp only [elementSize, keyThreads, CString.of, List.length_cons, List.length_nil]
      omega) 0x04
  rw [resultSize, measured, unsigned_wrap, bsonEmptySize]
  simp only [elementSize, keyThreads, CString.of, List.length_cons, List.length_nil]
  rw [unsigned_of_nonneg (by omega) (by omega)]
  omega

theorem built_status {subdoc : Mem} {sum : Int} (result : Mem) {states : List WorkerState}
    (few : states.length ≤ 10) (built : Built (workersContent 0 .empty states) subdoc sum) :
    ∃ total, Built (statusContent states) (buildStatus result subdoc) total := by
  have length := length_workers states
  have size : (statusContent states).encode.length = (workersContent 0 .empty states).encode.length +
      14 := by
    rw [statusContent, InfoCache.length_append_encode, Value.encode, length_documentBytes]
    simp only [Elements.encode, keyThreads, CString.of, List.length_cons, List.length_nil]
    omega
  have room : (statusContent states).encode.length + 5 < 2 ^ 31 := by
    omega
  exact ⟨_, .append (.empty result) (.array built) room⟩

/-! ## Reading the answer -/

/-- `bson_get_boolean` gives the truth of a statement. -/
def GivesTruth (mem : Mem) (doc : Nat) (key : CString) (truth : Prop) : Prop :=
  ∀ stale default, ((bsonGetBoolean (some doc) (offsetFor mem doc key stale) default).eval mem = 1 ∧
    truth) ∨ ((bsonGetBoolean (some doc) (offsetFor mem doc key stale) default).eval mem = 0 ∧
    ¬truth)

variable {mem : Mem} {doc : Nat} {key : CString} {state : WorkerState}

theorem givesTruth_worker (held : HoldsDocument mem doc (workerContent state)) :
    GivesTruth mem doc keyRunning (state ≠ .idle) := by
  intro stale default
  obtain ⟨offset, place, lies⟩ := lies_of_first held (workerContent state)
    (List.append_nil _).symm (show first keyRunning (workerContent state) =
      some (.boolean (running state)) from rfl)
  have read := lies.boolean default
  rw [offsetFor_eq held, position, place]
  change ((bsonGetBoolean (some doc) offset default).eval mem = 1 ∧ _) ∨
    ((bsonGetBoolean (some doc) offset default).eval mem = 0 ∧ _)
  rw [read]
  by_cases idle : state = .idle
  · subst idle
    exact .inr ⟨rfl, not_not.mpr rfl⟩
  · refine .inl ⟨if_pos ?_, idle⟩
    rw [running, if_pos idle]
    decide

theorem digit_distinct : ∀ one < 10, ∀ two < one, digit two ≠ digit one := by decide

theorem first_kept {value : Value} {front : Elements} (found : first key front = some value)
    (index : Nat) (states : List WorkerState) :
    first key (workersContent index front states) = some value := by
  induction states generalizing index front with
  | nil => exact found
  | cons state rest ih =>
      apply ih
      rw [first, found]
      rfl

/-- The document of a worker is the first one under the digit of its index. -/
theorem first_worker {front : Elements} {index place : Nat} {states : List WorkerState}
    (few : index + states.length ≤ 10) (bound : place < states.length)
    (absent : first (digit (index + place)) front = none) :
    first (digit (index + place)) (workersContent index front states) =
      some (.subdocument (workerContent states[place])) := by
  induction states generalizing index place front with
  | nil => cases bound
  | cons state rest ih =>
      rw [List.length_cons] at few bound
      cases place with
      | zero =>
          rw [Nat.add_zero] at absent ⊢
          refine @first_kept _ _
            (.append front (digit index) (.subdocument (workerContent state))) ?_ _ _
          rw [first, absent, if_pos rfl]
          rfl
      | succ place =>
          have next : index + (place + 1) = index + 1 + place := by omega
          rw [next] at absent ⊢
          have other : digit index ≠ digit (index + 1 + place) :=
            digit_distinct _ (by omega) _ (by omega)
          refine ih (by omega) (by omega) ?_
          rw [first, absent, if_neg other]
          rfl

/-! ## Runners in execution -/

/-- A worker whose thread is busy is not idle. -/
def Working (worker : Worker) (thread : Thread) : Prop := Busy thread.place → worker.state ≠ .idle

variable {worker next : Worker} {thread after : Thread} {count : Nat}

theorem working_at {place : Place} (rests : ¬Busy place) : Working worker (.at place) :=
  fun busy => absurd busy rests

theorem working_starting (starting : worker.state = .starting) : Working worker thread := by
  intro _ idle
  rw [starting] at idle
  cases idle

theorem threadStep_working {setting : Setting} {index : Nat} {action : ThreadAction}
    {events : List Event} (working : Working worker thread)
    (taken : threadStep setting index worker thread action = some (next, after, events)) :
    Working next after := by
  cases action with
  | create disableAutoBoot =>
      simp only [threadStep] at taken
      split at taken <;> cases taken
      exact working_at not_false
  | enter =>
      simp only [threadStep] at taken
      split at taken <;> cases taken
      exact working_at not_false
  | head boot =>
      simp only [threadStep] at taken
      split at taken <;> cases taken
      unfold loopHead
      split
      · cases boot with
        | none => exact working_at not_false
        | some boot => exact working_starting rfl
      · exact working_at not_false
  | wait =>
      simp only [threadStep] at taken
      split at taken <;> cases taken
      exact working_at not_false
  | take stale =>
      simp only [threadStep] at taken
      split at taken <;> cases taken
      unfold takeRequest
      split
      · exact working_at not_false
      · exact working_starting rfl
  | notifyInit output =>
      simp only [threadStep] at taken
      split at taken <;> cases taken
      cases output with
      | none => exact fun _ idle => by cases idle
      | some block => exact fun _ idle => by cases idle
  | cooperate stale =>
      simp only [threadStep] at taken
      split at taken
      · rename_i calledBack here
        cases taken
        have busy : worker.state ≠ .idle := working (by rw [here]; trivial)
        intro _
        unfold rubicAgentRunnerCooperate
        split
        · exact busy
        · dsimp only
          split
          · exact WorkerState.noConfusion
          · split
            · split
              · exact busy
              · exact busy
            · exact busy
      · cases taken
  | leave result =>
      simp only [threadStep] at taken
      split at taken
      · rename_i calledBack here
        cases taken
        exact fun _ => working (by rw [here]; trivial)
      · cases taken
  | finish output =>
      simp only [threadStep] at taken
      split at taken <;> cases taken
      exact working_at not_false
  | clear =>
      simp only [threadStep] at taken
      split at taken <;> cases taken
      rename_i here
      exact fun _ => working (by rw [here]; trivial)
  | reply output =>
      simp only [threadStep] at taken
      split at taken <;> cases taken
      exact working_at not_false

/-- In every state of the agent. -/
def AllWorking (state : State count) : Prop :=
  ∀ index, Working (state.workers index) (state.threads index)

theorem allWorking_initial : AllWorking (initial count) := fun _ => working_at not_false

/-- A worker is replaced by one that fits its thread. -/
theorem working_replaced {workers : Fin count → Worker} {threads : Fin count → Thread}
    (working : ∀ index, Working (workers index) (threads index)) {index : Fin count}
    {worker : Worker} {thread : Thread} (own : Working worker thread) (other : Fin count) :
    Working (Function.update workers index worker other)
      (Function.update threads index thread other) := by
  by_cases same : other = index
  · subst same
    rw [Function.update_self, Function.update_self]
    exact own
  · rw [Function.update_of_ne same, Function.update_of_ne same]
    exact working other

/-- The queue replaces a worker and leaves its thread. -/
theorem working_requeued {state : State count} (working : AllWorking state) {index : Fin count}
    {worker : Worker} (own : Working worker (state.threads index)) (other : Fin count) :
    Working (Function.update state.workers index worker other) (state.threads other) := by
  have updated := @working_replaced _ _ _ working index _ _ own other
  rw [Function.update_eq_self] at updated
  exact updated

theorem queueStep_working {state next : State count} {number : Nat}
    (working : AllWorking state) (taken : state.queueStep number = some next) :
    AllWorking next := by
  obtain ⟨call, -, taken⟩ := Option.bind_eq_some_iff.mp taken
  split at taken
  · rename_i index here
    dsimp only at taken
    split at taken
    · cases taken
    · split at taken
      · cases taken
        exact working
      · cases taken
        exact working_requeued working (working index)
  · split at taken
    · dsimp only at taken
      split at taken
      · cases taken
      · split at taken
        · cases taken
          exact working_requeued working (working_starting rfl)
        · cases taken
          exact working
    · cases taken
      exact working
  · rename_i index here
    cases taken
    exact working_requeued working (working index)
  · cases taken

theorem step_working (setting : Setting) (state : State count) (action : Action count)
    (next : State count) (working : AllWorking state)
    (taken : step setting state action = some next) : AllWorking next := by
  cases action with
  | queue input params staleTid staleName =>
      cases taken
      exact working
  | queueStep number => exact queueStep_working working taken
  | thread index action =>
      obtain ⟨result, made, rfl⟩ := Option.map_eq_some_iff.mp taken
      exact working_replaced working (threadStep_working (working index) made)

theorem working_of_run {setting : Setting} {actions : List (Action count)} {reached : State count}
    (arrives : run (step setting) (initial count) actions = some reached) : AllWorking reached :=
  (always_iff _ _).mp (always_of_kept (step_working setting) allWorking_initial actions) actions
    (List.prefix_refl _) reached arrives

/-! ## The answer -/

def Outcome.room (outcome : Outcome) : Target → Nat
  | .temp => tempSize
  | target => (outcome.allocated.lookup target).getD 0

/-- The answer to a call that looks at each worker in a state of its own. -/
structure Reports (malloc : Allocator) (mallocs : Nat) (seen : Fin count → State count)
    (outcome : Outcome) : Prop where
  confined : Confined outcome.room outcome.stores
  released : outcome.allocated.map Prod.fst =
    outcome.freed ++ if outcome.returned.isSome then [.result] else []
  errno : outcome.errno = if outcome.returned.isSome then none else some enomem
  refused : outcome.returned = none ↔
    malloc mallocs (19 * count + 5) = none ∨ malloc (mallocs + 1) (18 * count + 19) = none
  answer : ∀ doc, outcome.returned = some doc →
    GivesDocument doc 0 keyThreads fun array => ∀ index : Fin count,
      GivesDocument doc array (digit index) fun info =>
        GivesTruth doc info keyRunning (((seen index).workers index).state ≠ .idle)
  busy : ∀ index, Busy ((seen index).threads index).place →
    ((seen index).workers index).state ≠ .idle

theorem answer_holds {seen : Fin count → State count} (few : count ≤ 10)
    (held : HoldsDocument mem 0
      (statusContent (List.ofFn fun index => ((seen index).workers index).state))) :
    GivesDocument mem 0 keyThreads fun array => ∀ index : Fin count,
      GivesDocument mem array (digit index) fun info =>
        GivesTruth mem info keyRunning (((seen index).workers index).state ≠ .idle) := by
  refine (@givesDocument_found _ _ _ _ held _
    (workersContent 0 .empty (List.ofFn fun index => ((seen index).workers index).state)) rfl
    (.inl rfl) rfl).mono fun array inner index => ?_
  have length : (List.ofFn fun index => ((seen index).workers index).state).length = count :=
    List.length_ofFn
  have found := @first_worker .empty 0 index
    (List.ofFn fun index => ((seen index).workers index).state) (by omega)
    (length.symm ▸ index.isLt) rfl
  rw [Nat.zero_add, List.getElem_ofFn] at found
  exact (givesDocument_found inner found (.inr rfl) rfl).mono fun info content =>
    givesTruth_worker content

theorem subdoc_confined {room : Target → Nat} (temp block : Mem) (few : states.length ≤ 10)
    (temporary : room .temp = tempSize) (allocated : room .subdoc = 19 * states.length + 5) :
    Confined room (onto .subdoc createStores ++
      workersStores 0 temp (bsonCreateEmptyDocument block) states) := by
  rw [confined_append, confined_onto, allInside_create]
  refine ⟨by omega, @workers_inside _ _ temporary (by omega) _ _ _ 0 .empty
    (occupies_create block) ?_⟩
  rw [Elements.encode, List.length_nil]
  omega

theorem result_confined {room : Target → Nat} (result : Mem) {subdoc : Mem} {sum : Int}
    (few : states.length ≤ 10) (built : Built (workersContent 0 .empty states) subdoc sum)
    (allocated : room .result = 18 * states.length + 19) :
    Confined room (onto .result (resultStores result subdoc)) := by
  rw [confined_onto, resultStores, allInside_append, allInside_create,
    InfoBounds.allInside_setSubdocument (occupies_create result) built.holds.1, length_workers]
  simp only [elementSize, keyThreads, CString.of, List.length_cons, List.length_nil]
  omega

/-- Whatever the workers do meanwhile, each is reported as it was when it was looked at, a
running one as running. -/
theorem status_reports {setting : Setting} (few : count ≤ 10) {seen : Fin count → State count}
    (reached : ∀ index, ∃ actions, run (step setting) (initial count) actions = some (seen index))
    (malloc : Allocator) (mallocs : Nat) (temp : Mem) :
    Reports malloc mallocs seen (rubicAgentMethodStatus malloc mallocs temp
      (List.ofFn fun index => ((seen index).workers index).state)) := by
  have busy : ∀ index, Busy ((seen index).threads index).place →
      ((seen index).workers index).state ≠ .idle := fun index =>
    (reached index).elim fun actions arrives => working_of_run arrives index
  have length : (List.ofFn fun index => ((seen index).workers index).state).length = count :=
    List.length_ofFn
  have answered := fun mem => @answer_holds mem _ seen few
  generalize (List.ofFn fun index => ((seen index).workers index).state) = states at *
  subst length
  have size := subdocSize_eq few
  unfold rubicAgentMethodStatus
  rw [size]
  dsimp only
  cases first : malloc mallocs (19 * states.length + 5) with
  | none =>
      refine ⟨List.forall_mem_nil _, rfl, rfl, iff_of_true rfl (.inl first), ?_, busy⟩
      rintro doc ⟨⟩
  | some block =>
      obtain ⟨sum, built⟩ := @built_workers states 0 temp _ _ _ (.empty block) (by
        rw [Elements.encode, List.length_nil]
        omega)
      have result : resultSize (addWorkers 0 temp (bsonCreateEmptyDocument block) states) =
          18 * states.length + 19 := by
        have length := length_workers states
        rw [resultSize_eq built.holds.1 (by omega), length]
      dsimp only
      rw [result]
      cases second : malloc (mallocs + 1) (18 * states.length + 19) with
      | none =>
          refine ⟨subdoc_confined temp block few rfl rfl, rfl, rfl,
            iff_of_true rfl (.inr second), ?_, busy⟩
          rintro doc ⟨⟩
      | some place =>
          obtain ⟨total, whole⟩ := built_status place few built
          refine ⟨?_, rfl, rfl, iff_of_false (Option.some_ne_none _) ?_, ?_, busy⟩
          · exact confined_append.mpr
              ⟨subdoc_confined temp block few rfl rfl, result_confined place few built rfl⟩
          · rw [first, second]
            simp
          · rintro doc ⟨⟩
            exact answered _ whole.holds.1

/-- An agent whose only worker has found its file for autoboot. -/
theorem status_reports_autoboot :
    ∃ doc, (rubicAgentMethodStatus (fun _ _ => some fun _ => 0) 0 (fun _ => 0)
        [.starting]).returned = some doc ∧
      GivesDocument doc 0 keyThreads fun array =>
        GivesDocument doc array (digit 0) fun info =>
          GivesTruth doc info keyRunning (WorkerState.starting ≠ .idle) := by
  let boot : Boot := ⟨none, keyFile⟩
  let actions : List (Action 1) :=
    [.thread 0 (.create false), .thread 0 .enter, .thread 0 (.head (some boot))]
  have reports := @status_reports 1 ⟨[], fun _ => 0⟩ (by decide) _ (fun _ => ⟨actions, rfl⟩)
    (fun _ _ => some fun _ => 0) 0 fun _ => 0
  exact ⟨_, rfl, (reports.answer _ rfl).mono fun array each => each 0⟩

end PeridotSw.Rubic.Status
