import PeridotSw.Machine.Transition
import PeridotSw.Rubic.WorkerRequests

/-!
# Queued requests and their answers

A request the queue has accepted is in `context` of a worker, in `callback_context`, or, when
it could not be started, in the variable of the thread; whoever takes it from there answers
it.  Three steps do not look at what they find: the queue gives a request to start a runner
to an idle worker whatever its `context` holds, the thread clears `context` behind a runner
that is still starting and answers its own variable, and `rubic_agent_runner_notify_init`
answers `context` even if it is empty.
-/

namespace PeridotSw.Rubic.RequestCustody

open PeridotSw.Machine.Memory
open PeridotSw.Machine.Ledger
open PeridotSw.Machine.Transition
open PeridotSw.Rubic.Agent
open PeridotSw.Rubic.WorkerRequests

/-! ## Requests -/

variable {count : Nat}

def holding (state : State count) (index : Fin count) : Part → Option Nat :=
  parts (state.workers index) (state.threads index)

/-- A worker or its thread knows the request. -/
def Knows (worker : Worker) (thread : Thread) (id : Nat) : Prop :=
  worker.context.map Context.id = some id ∨ worker.callbackContext.map Context.id = some id ∨
    thread.context.map Context.id = some id

/-- Only accepted requests have been answered, none of them twice, and the others are known
to a worker. -/
structure RequestsKept (state : State count) : Prop where
  named : ∀ result errno, .answer none result errno ∉ state.events
  accepted : ∀ id ∈ answeredIds state.events, id ∈ state.accepted
  once : (answeredIds state.events).Nodup
  known : ∀ id ∈ state.accepted, id ∉ answeredIds state.events →
    ∃ index, Knows (state.workers index) (state.threads index) id

/-- The steps that find what they suppose: a start finds nothing in the idle worker. -/
def Careful (state : State count) : Action count → Prop
  | .queue .. => True
  | .queueStep number => ∀ call tid, state.calls number = some call → call.phase = .start tid →
      ∀ inside : tid < count, (state.workers ⟨tid, inside⟩).state = .idle →
        (state.workers ⟨tid, inside⟩).context = none
  | .thread index action => Minds (state.workers index) (state.threads index) action

/-! ## The agent -/

/-- The call may still put its request into a worker. -/
def Undecided : QueuePhase count → Prop
  | .specific _ | .start _ => True
  | .post _ | .returned _ => False

structure Tidy (state : State count) : Prop where
  books : Books (Function.uncurry (holding state)) state.accepted (answeredIds state.events)
  named : Named state.events
  fits : ∀ index, Fits (answeredIds state.events) (state.workers index) (state.threads index)
  undecided : ∀ number call, state.calls number = some call → Undecided call.phase →
    number ∉ state.accepted
  begun : ∀ number, state.begun ≤ number →
    state.calls number = none ∧ number ∉ state.accepted

variable {state : State count} {worker next : Worker} {thread after : Thread}

theorem Tidy.requestsKept (tidy : Tidy state) : RequestsKept state where
  named := tidy.named
  accepted := tidy.books.listed
  once := tidy.books.once
  known id inside alive := by
    obtain ⟨⟨index, part⟩, held⟩ := tidy.books.custody.kept id ⟨inside, alive⟩
    refine ⟨index, ?_⟩
    cases part with
    | context => exact .inl held
    | callback => exact .inr (.inl held)
    | reply => exact .inr (.inr (Option.ite_none_right_eq_some.mp held).2)

theorem initial_tidy : Tidy (initial count) where
  books := by
    have empty : Function.uncurry (holding (initial count)) = fun _ => none := by
      funext ⟨index, part⟩
      cases part <;> rfl
    rw [empty]
    exact books_empty
  named := nofun
  fits _ := fits_at (by nofun)
  undecided := nofun
  begun _ _ := ⟨rfl, by simp [initial]⟩

theorem holding_act (state : State count) (index : Fin count) (worker : Worker)
    (thread : Thread) (events : List Event) :
    holding (state.act index worker thread events) =
      Function.update (holding state) index (parts worker thread) := by
  funext other
  by_cases same : other = index
  · rw [same, Function.update_self]
    simp [holding, State.act]
  · rw [Function.update_of_ne same]
    simp [holding, State.act, same]

theorem Tidy.act (tidy : Tidy state) {index : Fin count}
    {result : Worker × Thread × List Event}
    (keeps : Keeps (answeredIds state.events) (state.workers index) (state.threads index)
      result) :
    Tidy (state.act index result.1 result.2.1 result.2.2) where
  books := by
    rw [holding_act, State.act, answeredIds_append]
    exact tidy.books.deals (Deals.group keeps.deals)
  named := tidy.named.append keeps.named
  fits other := by
    rw [State.act, answeredIds_append]
    dsimp only
    by_cases same : other = index
    · rw [same, Function.update_self, Function.update_self]
      exact keeps.fits
    · rw [Function.update_of_ne same, Function.update_of_ne same]
      exact (tidy.fits other).mono fun id inside => List.mem_append_left _ inside
  undecided := tidy.undecided
  begun := tidy.begun

/-- A call of the queue goes on without its request being accepted. -/
theorem Tidy.setPhase (tidy : Tidy state) {number : Nat} {call : QueueCall count}
    (called : state.calls number = some call) {phase : QueuePhase count}
    (still : Undecided phase → Undecided call.phase) : Tidy (state.setPhase number call phase) where
  books := tidy.books
  named := tidy.named
  fits := tidy.fits
  undecided other now found waiting := by
    by_cases same : other = number
    · rw [State.setPhase_calls, same, Function.update_self] at found
      cases found
      rw [same]
      exact tidy.undecided number call called (still waiting)
    · rw [State.setPhase_calls, Function.update_of_ne same] at found
      exact tidy.undecided other now found waiting
  begun other late := by
    obtain ⟨nobody, new⟩ := tidy.begun other late
    refine ⟨?_, new⟩
    rw [State.setPhase_calls, Function.update_of_ne, nobody]
    rintro rfl
    rw [called] at nobody
    cases nobody

theorem fits_accept {past : List Nat} (fits : Fits past worker thread)
    (empty : worker.context = none) (context : Context) {workerState : WorkerState}
    (change : workerState = worker.state ∨ workerState = .starting) :
    Fits past { worker with context := some context, state := workerState } thread where
  resting := fits.resting
  working busy := by
    rcases change with rfl | rfl
    · exact fits.working busy
    · nofun
  starting unheard := by
    rcases change with rfl | rfl
    · exact fits.starting unheard
    · rfl
  own unheard id here := by
    have own := fits.own unheard id here
    rw [empty] at own
    cases own
  traced id here := by
    rcases fits.traced id here with before | ⟨part, there⟩
    · exact .inl before
    · refine .inr ⟨part, ?_⟩
      cases part with
      | context =>
          rw [parts, empty] at there
          cases there
      | callback => exact there
      | reply => exact there

theorem holding_accept (state : State count) (number : Nat) (call : QueueCall count)
    (index : Fin count) (workerState : WorkerState) :
    holding (state.accept number call index workerState) =
      Function.update (holding state) index
        (Function.update (holding state index) .context (some number)) := by
  funext other
  by_cases same : other = index
  · subst same
    rw [Function.update_self]
    have now : parts ((state.accept number call other workerState).workers other)
        (state.threads other) = Function.update (holding state other) .context (some number) := by
      rw [State.accept_workers, Function.update_self]
      exact parts_context rfl rfl rfl
    exact now
  · rw [Function.update_of_ne same]
    have kept : (state.accept number call index workerState).workers other =
        state.workers other := by
      rw [State.accept_workers, Function.update_of_ne same]
    rw [holding, kept]
    rfl

theorem Tidy.accept (tidy : Tidy state) {number : Nat} {call : QueueCall count}
    (called : state.calls number = some call) (waiting : Undecided call.phase)
    {index : Fin count} (empty : (state.workers index).context = none)
    {workerState : WorkerState}
    (change : workerState = (state.workers index).state ∨ workerState = .starting) :
    Tidy (state.accept number call index workerState) where
  books := by
    have new := tidy.undecided number call called waiting
    have nothing : Function.uncurry (holding state) (index, .context) = none := by
      rw [Function.uncurry_apply_pair, holding, parts, empty]
      rfl
    have entered := tidy.books.enter nothing new
    rw [uncurry_update] at entered
    rw [holding_accept]
    exact entered
  named := tidy.named
  fits other := by
    rw [State.accept_workers]
    by_cases same : other = index
    · subst same
      rw [Function.update_self]
      exact fits_accept (tidy.fits other) empty _ change
    · rw [Function.update_of_ne same]
      exact tidy.fits other
  undecided other now found undecided := by
    by_cases same : other = number
    · rw [State.accept_calls, same, Function.update_self] at found
      cases found
      cases undecided
    · rw [State.accept_calls, Function.update_of_ne same] at found
      rw [State.accept_accepted, List.mem_append, List.mem_singleton, not_or]
      exact ⟨tidy.undecided other now found undecided, same⟩
  begun other late := by
    obtain ⟨nobody, new⟩ := tidy.begun other late
    have different : other ≠ number := by
      rintro rfl
      rw [called] at nobody
      cases nobody
    constructor
    · rw [State.accept_calls, Function.update_of_ne different, nobody]
    · rw [State.accept_accepted, List.mem_append, List.mem_singleton, not_or]
      exact ⟨new, different⟩

/-! ## The queue -/

theorem Tidy.post (tidy : Tidy state) (index : Fin count) (sem : Nat) :
    Tidy { state with
      workers := Function.update state.workers index
        { state.workers index with sem := sem } } := by
  have same : Function.update state.workers index { state.workers index with sem := sem } =
      fun other => { state.workers other with
        sem := if other = index then sem else (state.workers other).sem } := by
    funext other
    by_cases here : other = index
    · subst here
      simp
    · simp [here]
  rw [same]
  exact
    { books := tidy.books
      named := tidy.named
      fits := fun other =>
        { resting := (tidy.fits other).resting
          working := (tidy.fits other).working
          starting := (tidy.fits other).starting
          own := (tidy.fits other).own
          traced := (tidy.fits other).traced }
      undecided := tidy.undecided
      begun := tidy.begun }

theorem Tidy.begin (tidy : Tidy state) (call : QueueCall count) :
    Tidy { state with
      calls := Function.update state.calls state.begun (some call)
      begun := state.begun + 1 } where
  books := tidy.books
  named := tidy.named
  fits := tidy.fits
  undecided number now found waiting := by
    dsimp only at found ⊢
    by_cases same : number = state.begun
    · rw [same]
      exact (tidy.begun state.begun (Nat.le_refl _)).2
    · rw [Function.update_of_ne same] at found
      exact tidy.undecided number now found waiting
  begun number late := by
    have different : number ≠ state.begun := Nat.ne_of_gt late
    dsimp only
    rw [Function.update_of_ne different]
    exact tidy.begun number (Nat.le_of_succ_le late)

theorem Tidy.queueStep (tidy : Tidy state) {number : Nat} {next : State count}
    (careful : Careful state (.queueStep number))
    (taken : state.queueStep number = some next) : Tidy next := by
  unfold State.queueStep at taken
  cases called : state.calls number with
  | none =>
      rw [called] at taken
      cases taken
  | some call =>
      rw [called] at taken
      cases phase : call.phase with
      | specific index =>
          have waiting : Undecided call.phase := by rw [phase]; trivial
          simp only [Option.bind_eq_bind, Option.bind_some, phase] at taken
          split at taken
          · cases taken
          · split at taken
            · cases taken
              exact tidy.setPhase called nofun
            · rename_i empty
              cases taken
              exact tidy.accept called waiting (by simpa using empty) (.inl rfl)
      | start tid =>
          have waiting : Undecided call.phase := by rw [phase]; trivial
          simp only [Option.bind_eq_bind, Option.bind_some, phase] at taken
          split at taken
          · rename_i inside
            split at taken
            · cases taken
            · split at taken
              · rename_i idle
                cases taken
                exact tidy.accept called waiting (careful call tid called phase inside idle)
                  (.inr rfl)
              · cases taken
                exact tidy.setPhase called fun _ => waiting
          · cases taken
            exact tidy.setPhase called nofun
      | post index =>
          simp only [Option.bind_eq_bind, Option.bind_some, phase] at taken
          cases taken
          have back : Undecided (.returned 0 : QueuePhase count) → Undecided call.phase := nofun
          exact (tidy.setPhase called back).post index _
      | returned result =>
          simp only [Option.bind_eq_bind, Option.bind_some, phase] at taken
          cases taken

theorem step_tidy {setting : Setting} {action : Action count} {next : State count}
    (tidy : Tidy state) (careful : Careful state action)
    (taken : step setting state action = some next) : Tidy next := by
  cases action with
  | queue input params staleTid staleName =>
      cases taken
      exact tidy.begin _
  | queueStep number => exact tidy.queueStep careful taken
  | thread index action =>
      obtain ⟨result, stepped, rfl⟩ := Option.map_eq_some_iff.mp taken
      exact tidy.act (threadStep_keeps (tidy.fits index) careful stepped)

/-! ## Steps that lose or repeat -/

/-- A request in `context` of a worker is known to no other worker, and not as its
callback. -/
theorem Tidy.alone (tidy : Tidy state) {index : Fin count} {context : Context}
    (held : (state.workers index).context = some context) :
    (∀ other, other ≠ index →
        ¬Knows (state.workers other) (state.threads other) context.id) ∧
      (state.workers index).callbackContext.map Context.id ≠ some context.id ∧
      context.id ∈ state.accepted ∧ context.id ∉ answeredIds state.events := by
  have mine : Function.uncurry (holding state) (index, .context) = some context.id := by
    rw [Function.uncurry_apply_pair, holding, parts, held]
    rfl
  have live := tidy.books.custody.live_of_held _ _ mine
  have only {other : Fin count} {part : Part}
      (here : parts (state.workers other) (state.threads other) part = some context.id) :
      (other, part) = (index, .context) :=
    tidy.books.custody.single (other, part) _ _ here mine
  refine ⟨fun other different known => ?_, fun here => ?_, live⟩
  · rcases known with here | here | here
    · have same : (other, Part.context) = (index, .context) := only here
      exact different (Prod.mk.inj same).1
    · have same : (other, Part.callback) = (index, .context) := only here
      exact different (Prod.mk.inj same).1
    · rcases (tidy.fits other).traced _ here with past | ⟨part, there⟩
      · exact live.2 past
      · exact different (Prod.mk.inj (only there)).1
  · have same : (index, Part.callback) = (index, .context) := only here
    cases (Prod.mk.inj same).2

/-- A thread that drops what its worker had in `context` leaves it to nobody. -/
theorem Tidy.dropped (tidy : Tidy state) {index : Fin count} {context : Context}
    (held : (state.workers index).context = some context) {events : List Event}
    (unknown : ¬Knows next after context.id) (unanswered : context.id ∉ answeredIds events) :
    ¬RequestsKept (state.act index next after events) := by
  obtain ⟨others, -, accepted, alive⟩ := tidy.alone held
  intro kept
  obtain ⟨other, known⟩ := kept.known context.id accepted (by
    rw [State.act, answeredIds_append, List.mem_append, not_or]
    exact ⟨alive, unanswered⟩)
  rw [State.act] at known
  dsimp only at known
  by_cases same : other = index
  · rw [same, Function.update_self, Function.update_self] at known
    exact unknown known
  · rw [Function.update_of_ne same, Function.update_of_ne same] at known
    exact others other same known

theorem answeredIds_finishRunner (starting : worker.state = .starting) (output : Option Mem) :
    answeredIds (finishRunner worker thread output).2 =
      (thread.context.map Context.id).toList ++
        (worker.callbackContext.map Context.id).toList := by
  rw [finishRunner, finishStart, if_pos starting, answeredIds_append, answeredIds_append,
    answeredIds_freeFile, answeredIds_answerStart, answeredIds_answerCallback, List.append_nil]

theorem finishRunner_context (starting : worker.state = .starting) (output : Option Mem) :
    (finishRunner worker thread output).1.context = none := by
  rw [finishRunner, finishStart, if_pos starting]
  exact answerCallback_context _ _ _

theorem finishRunner_callbackContext (output : Option Mem) :
    (finishRunner worker thread output).1.callbackContext = none :=
  answerCallback_callbackContext _ _ _

/-- Behind a runner that is still starting, a request the thread did not take is dropped. -/
theorem finish_drops (tidy : Tidy state) {index : Fin count} (output : Option Mem)
    (starting : (state.workers index).state = .starting) {context : Context}
    (held : (state.workers index).context = some context)
    (other : (state.threads index).context.map Context.id ≠ some context.id) :
    ¬RequestsKept (state.act index
      (finishRunner (state.workers index) (state.threads index) output).1 (.at .top)
      (finishRunner (state.workers index) (state.threads index) output).2) := by
  obtain ⟨-, uncalled, -, -⟩ := tidy.alone held
  refine tidy.dropped held ?_ ?_
  · rintro (here | here | here)
    · rw [finishRunner_context starting] at here
      cases here
    · rw [finishRunner_callbackContext] at here
      cases here
    · cases here
  · rw [answeredIds_finishRunner starting, List.mem_append, Option.mem_toList,
      Option.mem_toList, not_or]
    exact ⟨other, uncalled⟩

/-- Behind a runner that is still starting, a request that has been passed on is answered
again. -/
theorem finish_repeats (tidy : Tidy state) {index : Fin count} (output : Option Mem)
    (place : (state.threads index).place = .returned)
    (starting : (state.workers index).state = .starting)
    (empty : (state.workers index).context = none) {context : Context}
    (mine : (state.threads index).context = some context) :
    ¬RequestsKept (state.act index
      (finishRunner (state.workers index) (state.threads index) output).1 (.at .top)
      (finishRunner (state.workers index) (state.threads index) output).2) := by
  intro kept
  have once := kept.once
  rw [State.act, answeredIds_append, answeredIds_finishRunner starting, mine] at once
  have elsewhere := not_replying place (by nofun)
  rcases (tidy.fits index).located elsewhere (by rw [mine]; rfl) with past | here | called
  · have here : context.id ∈ ((some context).map Context.id).toList ++
        ((state.workers index).callbackContext.map Context.id).toList :=
      List.mem_append_left _ (List.mem_singleton_self _)
    exact (List.nodup_append.mp once).2.2 _ past _ here rfl
  · rw [empty] at here
    cases here
  · have twice := (List.nodup_append.mp once).2.1
    rw [called] at twice
    simp at twice

/-- Behind a runner that is still starting, `context` and the thread's variable have to
agree. -/
theorem finish_careless (tidy : Tidy state) {index : Fin count} (output : Option Mem)
    (place : (state.threads index).place = .returned)
    (starting : (state.workers index).state = .starting)
    (differ : (state.workers index).context.map Context.id ≠
      (state.threads index).context.map Context.id) :
    ¬RequestsKept (state.act index
      (finishRunner (state.workers index) (state.threads index) output).1 (.at .top)
      (finishRunner (state.workers index) (state.threads index) output).2) := by
  cases held : (state.workers index).context with
  | some context =>
      rw [held] at differ
      exact finish_drops tidy output starting held differ.symm
  | none =>
      cases mine : (state.threads index).context with
      | none =>
          rw [held, mine] at differ
          exact absurd rfl differ
      | some context => exact finish_repeats tidy output place starting held mine

theorem clear_careless (tidy : Tidy state) {index : Fin count}
    (place : (state.threads index).place = .failed)
    (differ : (state.workers index).context.map Context.id ≠
      (state.threads index).context.map Context.id) :
    ¬RequestsKept (state.act index { state.workers index with context := none }
      { state.threads index with place := .replying } []) := by
  have own := (tidy.fits index).own (by rw [place]; trivial)
  cases mine : (state.threads index).context with
  | some context =>
      have same := own context.id (by rw [mine]; rfl)
      rw [mine, same] at differ
      exact absurd rfl differ
  | none =>
      cases held : (state.workers index).context with
      | none =>
          rw [held, mine] at differ
          exact absurd rfl differ
      | some context =>
          obtain ⟨-, uncalled, -, -⟩ := tidy.alone held
          refine tidy.dropped held ?_ (by simp [answeredIds])
          rintro (here | here | here)
          · cases here
          · exact uncalled here
          · dsimp only at here
            rw [mine] at here
            cases here

theorem thread_careless (tidy : Tidy state) {setting : Setting} {index : Fin count}
    {action : ThreadAction} (careless : ¬Minds (state.workers index) (state.threads index) action)
    {result : Worker × Thread × List Event}
    (taken : threadStep setting index (state.workers index) (state.threads index) action =
      some result) :
    ¬RequestsKept (state.act index result.1 result.2.1 result.2.2) := by
  cases action with
  | notifyInit output =>
      obtain ⟨-, ⟨⟩⟩ := Option.ite_none_right_eq_some.mp taken
      obtain ⟨answer, errno, workerState, -, called⟩ :=
        notifyInit_cases (state.workers index) output
      have empty : (state.workers index).context = none :=
        Option.not_isSome_iff_eq_none.mp careless
      intro kept
      refine kept.named answer errno (List.mem_append_right _ ?_)
      rw [called, empty]
      exact List.mem_singleton_self _
  | finish output =>
      obtain ⟨⟨place, -⟩, ⟨⟩⟩ := Option.ite_none_right_eq_some.mp taken
      obtain ⟨starting, differ⟩ := Classical.not_imp.mp careless
      exact finish_careless tidy output place starting differ
  | clear =>
      obtain ⟨place, ⟨⟩⟩ := Option.ite_none_right_eq_some.mp taken
      exact clear_careless tidy place careless
  | _ => exact absurd trivial careless

/-- A request to start a runner takes the place of another. -/
theorem accept_careless (tidy : Tidy state) {number : Nat} {call : QueueCall count}
    (called : state.calls number = some call) (waiting : Undecided call.phase)
    {index : Fin count} (idle : (state.workers index).state = .idle) {context : Context}
    (held : (state.workers index).context = some context) (workerState : WorkerState) :
    ¬RequestsKept (state.accept number call index workerState) := by
  obtain ⟨others, uncalled, accepted, alive⟩ := tidy.alone held
  have new := tidy.undecided number call called waiting
  have resting : (state.threads index).context = none :=
    (tidy.fits index).resting fun busy => (tidy.fits index).working busy idle
  intro kept
  obtain ⟨other, known⟩ := kept.known context.id (List.mem_append_left _ accepted) alive
  rw [State.accept_workers] at known
  by_cases same : other = index
  · rw [same, Function.update_self] at known
    rcases known with here | here | here
    · rw [← Option.some.inj here] at accepted
      exact new accepted
    · exact uncalled here
    · have nobody : (state.threads index).context.map Context.id = some context.id := here
      rw [resting] at nobody
      cases nobody
  · rw [Function.update_of_ne same] at known
    exact others other same known

theorem queueStep_careless (tidy : Tidy state) {number : Nat} {next : State count}
    (careless : ¬Careful state (.queueStep number))
    (taken : state.queueStep number = some next) : ¬RequestsKept next := by
  simp only [Careful, not_forall] at careless
  obtain ⟨call, tid, called, phase, inside, idle, occupied⟩ := careless
  obtain ⟨context, held⟩ := Option.ne_none_iff_exists'.mp occupied
  have waiting : Undecided call.phase := by rw [phase]; trivial
  simp only [State.queueStep, called, Option.bind_eq_bind, Option.bind_some, phase, inside,
    dite_true, idle, if_true] at taken
  split at taken
  · cases taken
  · cases taken
    exact accept_careless tidy called waiting idle held _

/-- Every request is kept throughout a run exactly if every step finds in `context` what it
supposes there. -/
theorem rubicAgent_requestsKept_iff (setting : Setting) (count : Nat)
    (actions : List (Action count)) :
    Always (step setting) RequestsKept (initial count) actions ↔
      Each (step setting) Careful (initial count) actions := by
  refine always_iff_each (fun state action next tidy careful taken => ?_)
    (fun state tidy => tidy.requestsKept) (fun state action next tidy careless taken => ?_)
    initial_tidy actions
  · exact step_tidy tidy careful taken
  · cases action with
    | queue input params staleTid staleName => exact absurd trivial careless
    | queueStep number => exact queueStep_careless tidy careless taken
    | thread index action =>
        obtain ⟨result, stepped, rfl⟩ := Option.map_eq_some_iff.mp taken
        exact thread_careless tidy careless stepped

def forWorkerZero : Mem := fun index =>
  [0x0e, 0, 0, 0, 0x10, 0x74, 0x69, 0x64, 0, 0, 0, 0, 0, 0].getD index 0

def toStart : Mem := fun index =>
  [0x15, 0, 0, 0, 0x02, 0x6e, 0x61, 0x6d, 0x65, 0, 6, 0, 0, 0, 0x73, 0x74, 0x61, 0x72, 0x74, 0,
    0].getD index 0

/-- A request for the idle worker, and before its thread has woken up another to start. -/
def overtaken : List (Action 1) :=
  [.thread 0 (.create true), .thread 0 .enter, .thread 0 (.head none),
    .queue forWorkerZero (some 0) 0 0, .queueStep 0, .queue toStart (some 0) 0 0, .queueStep 1]

theorem not_requestsKept_overtaken :
    ¬Always (step ⟨[], fun _ => 0⟩) RequestsKept (initial 1) overtaken := by
  intro always
  have after : (run (step ⟨[], fun _ => 0⟩) (initial 1) overtaken).map (fun state =>
      (state.accepted, answeredIds state.events, (state.workers 0).context.map Context.id,
        (state.workers 0).callbackContext.map Context.id,
        (state.threads 0).context.map Context.id)) =
      some ([0, 1], [], some 1, none, none) := by decide
  obtain ⟨state, reached, values⟩ := Option.map_eq_some_iff.mp after
  have kept := (always_iff _ _).mp always _ (List.prefix_refl _) state reached
  simp only [Prod.mk.injEq] at values
  obtain ⟨accepted, answered, context, callback, variable'⟩ := values
  obtain ⟨index, known⟩ := kept.known 0 (by simp [accepted]) (by simp [answered])
  rw [Fin.fin_one_eq_zero index] at known
  rcases known with here | here | here
  · rw [context] at here
    cases here
  · rw [callback] at here
    cases here
  · rw [variable'] at here
    cases here

end PeridotSw.Rubic.RequestCustody
