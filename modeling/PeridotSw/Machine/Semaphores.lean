import Mathlib.Logic.Function.Basic

/-!
# Threads and counting semaphores

Threads share a memory.  Each runs, without being interrupted, from one semaphore operation
to the next; at a semaphore without tokens it waits.  Any number of threads may be inside a
call at a time.
-/

namespace PeridotSw.Machine.Semaphores

inductive Operation (Semaphore : Type) where
  | pend (semaphore : Semaphore)
  | post (semaphore : Semaphore)
  deriving DecidableEq

/-- What the threads run: the place before the first operation of a call, if it comes to one;
the operation at a place; and the code behind it, up to the next place or the return. -/
structure Program (Semaphore Memory Place Call : Type) where
  first : Call → Option Place
  operation : Place → Operation Semaphore
  next : Place → Memory → Memory × Option Place

/-- The tokens of the semaphores, the memory, and the places of the threads inside a call. -/
structure State (Thread Semaphore Memory Place : Type) where
  tokens : Semaphore → Nat
  memory : Memory
  places : Thread → Option Place

/-- A thread outside makes a call, or one inside goes on. -/
inductive Event (Thread Call : Type) where
  | enter (thread : Thread) (call : Call)
  | go (thread : Thread)

variable {Thread Semaphore Memory Place Call : Type}

/-- The operation can be done at once. -/
def Operation.Passes (tokens : Semaphore → Nat) : Operation Semaphore → Prop
  | .pend semaphore => 0 < tokens semaphore
  | .post _ => True

instance (tokens : Semaphore → Nat) (operation : Operation Semaphore) :
    Decidable (operation.Passes tokens) :=
  match operation with
  | .pend semaphore => inferInstanceAs (Decidable (0 < tokens semaphore))
  | .post _ => isTrue trivial

section

variable [DecidableEq Semaphore]

/-- The tokens after an operation. -/
def Operation.apply (tokens : Semaphore → Nat) : Operation Semaphore → Semaphore → Nat
  | .pend semaphore => Function.update tokens semaphore (tokens semaphore - 1)
  | .post semaphore => Function.update tokens semaphore (tokens semaphore + 1)

theorem Operation.apply_post (tokens : Semaphore → Nat) (semaphore : Semaphore) :
    (Operation.post semaphore).apply tokens semaphore = tokens semaphore + 1 :=
  Function.update_self ..

/-- An operation on another semaphore. -/
theorem Operation.apply_other (tokens : Semaphore → Nat) {operation : Operation Semaphore}
    {semaphore : Semaphore} (pend : operation ≠ .pend semaphore)
    (post : operation ≠ .post semaphore) :
    operation.apply tokens semaphore = tokens semaphore := by
  cases operation with
  | pend other => exact Function.update_of_ne (fun same => pend (congrArg _ same.symm)) _ _
  | post other => exact Function.update_of_ne (fun same => post (congrArg _ same.symm)) _ _

variable [DecidableEq Thread] (program : Program Semaphore Memory Place Call)

def State.proceed (state : State Thread Semaphore Memory Place) (thread : Thread)
    (place : Place) : State Thread Semaphore Memory Place where
  tokens := (program.operation place).apply state.tokens
  memory := (program.next place state.memory).1
  places := Function.update state.places thread (program.next place state.memory).2

def step (state : State Thread Semaphore Memory Place) :
    Event Thread Call → Option (State Thread Semaphore Memory Place)
  | .enter thread call =>
      match state.places thread with
      | some _ => none
      | none => some { state with
          places := Function.update state.places thread (program.first call) }
  | .go thread =>
      match state.places thread with
      | none => none
      | some place =>
          if (program.operation place).Passes state.tokens then
            some (state.proceed program thread place)
          else none

end

def Blocked (program : Program Semaphore Memory Place Call)
    (state : State Thread Semaphore Memory Place) (thread : Thread) : Prop :=
  ∃ place, state.places thread = some place ∧ ¬(program.operation place).Passes state.tokens

/-- All threads inside a call are blocked. -/
def AllBlocked (program : Program Semaphore Memory Place Call)
    (state : State Thread Semaphore Memory Place) : Prop :=
  ∀ thread, (state.places thread).isSome → Blocked program state thread

/-! ## Tokens that are given back -/

/-- A token of the semaphore is there, or with a thread at a place that holds it. -/
def Available (holding : Place → Prop) (semaphore : Semaphore)
    (state : State Thread Semaphore Memory Place) : Prop :=
  0 < state.tokens semaphore ∨ ∃ thread place, state.places thread = some place ∧ holding place

/-- Whoever takes a token of the semaphore comes to a place that holds it, and holds it until
it is given back. -/
structure Keeps (program : Program Semaphore Memory Place Call) (semaphore : Semaphore)
    (holding : Place → Prop) : Prop where
  pend : ∀ place memory, program.operation place = .pend semaphore →
    ∃ after, (program.next place memory).2 = some after ∧ holding after
  go : ∀ place memory, holding place → program.operation place = .post semaphore ∨
    ∃ after, (program.next place memory).2 = some after ∧ holding after

variable {program : Program Semaphore Memory Place Call} {semaphore : Semaphore}
variable {holding : Place → Prop} {state next : State Thread Semaphore Memory Place}

/-- When all are blocked, but nobody who holds a token is, an available token is there. -/
theorem AllBlocked.free (blocked : AllBlocked program state)
    (available : Available holding semaphore state)
    (posts : ∀ thread place, state.places thread = some place → holding place →
      (program.operation place).Passes state.tokens) : 0 < state.tokens semaphore := by
  rcases available with free | ⟨thread, place, here, holds⟩
  · exact free
  · obtain ⟨place', here', waits⟩ := blocked thread (by rw [here]; rfl)
    cases here.symm.trans here'
    exact absurd (posts thread place here holds) waits

variable [DecidableEq Thread]

/-- A thread that comes to wait leaves all blocked. -/
theorem AllBlocked.enter (blocked : AllBlocked program state) (thread : Thread) {place : Place}
    (waits : ¬(program.operation place).Passes state.tokens) :
    AllBlocked program
      { state with places := Function.update state.places thread (some place) } := by
  intro other inside
  by_cases same : other = thread
  · subst same
    exact ⟨place, Function.update_self .., waits⟩
  · have there := Function.update_of_ne same (some place) state.places
    obtain ⟨place', found, waits'⟩ := blocked other (there ▸ inside)
    exact ⟨place', there.trans found, waits'⟩

variable [DecidableEq Semaphore]

theorem step_cases {event : Event Thread Call} (taken : step program state event = some next) :
    (∃ thread call, event = .enter thread call ∧ state.places thread = none ∧
      next = { state with places := Function.update state.places thread (program.first call) }) ∨
    ∃ thread place, event = .go thread ∧ state.places thread = some place ∧
      (program.operation place).Passes state.tokens ∧
        next = state.proceed program thread place := by
  cases event with
  | enter thread call =>
      cases here : state.places thread with
      | some place => simp [step, here] at taken
      | none =>
          simp only [step, here, Option.some.injEq] at taken
          exact .inl ⟨thread, call, rfl, here, taken.symm⟩
  | go thread =>
      cases here : state.places thread with
      | none => simp [step, here] at taken
      | some place =>
          by_cases passes : (program.operation place).Passes state.tokens
          · simp only [step, here, if_pos passes, Option.some.injEq] at taken
            exact .inr ⟨thread, place, rfl, here, passes, taken.symm⟩
          · simp [step, here, passes] at taken

/-- Who goes on is not blocked. -/
theorem step_passes {thread : Thread} (taken : step program state (.go thread) = some next) :
    ∃ place, state.places thread = some place ∧
      (program.operation place).Passes state.tokens := by
  rcases step_cases taken with ⟨_, _, other, -⟩ | ⟨thread', place, same, here, passes, -⟩
  · cases other
  · cases same
    exact ⟨place, here, passes⟩

/-- How a thread has come to its place. -/
theorem step_places {event : Event Thread Call} (taken : step program state event = some next)
    {thread : Thread} {place : Place} (there : next.places thread = some place) :
    state.places thread = some place ∨
      (∃ call, event = .enter thread call ∧ program.first call = some place) ∨
        ∃ before, event = .go thread ∧ state.places thread = some before ∧
          (program.next before state.memory).2 = some place := by
  rcases step_cases taken with ⟨mover, call, rfl, -, rfl⟩ | ⟨mover, before, rfl, here, -, rfl⟩
  · by_cases moved : thread = mover
    · subst moved
      have updated := Function.update_self thread (program.first call) state.places
      exact .inr (.inl ⟨call, rfl, updated.symm.trans there⟩)
    · exact .inl ((Function.update_of_ne moved _ _).symm.trans there)
  · by_cases moved : thread = mover
    · subst moved
      have updated := Function.update_self thread (program.next before state.memory).2 state.places
      exact .inr (.inr ⟨before, rfl, here, updated.symm.trans there⟩)
    · exact .inl ((Function.update_of_ne moved _ _).symm.trans there)

/-- A token that is given back stays available. -/
theorem Keeps.available (keeps : Keeps program semaphore holding)
    (available : Available holding semaphore state) {event : Event Thread Call}
    (taken : step program state event = some next) : Available holding semaphore next := by
  rcases step_cases taken with ⟨thread, call, -, outside, rfl⟩ | ⟨thread, place, -, here, -, rfl⟩
  · rcases available with free | ⟨other, place, there, holds⟩
    · exact .inl free
    · have different : other ≠ thread := by
        rintro rfl
        rw [outside] at there
        cases there
      exact .inr ⟨other, place, (Function.update_of_ne different _ _).trans there, holds⟩
  · have held (after : Place) (goes : (program.next place state.memory).2 = some after)
        (holds : holding after) :
        Available holding semaphore (state.proceed program thread place) :=
      .inr ⟨thread, after, (Function.update_self _ _ _).trans goes, holds⟩
    by_cases posts : program.operation place = .post semaphore
    · refine .inl ?_
      change 0 < (program.operation place).apply state.tokens semaphore
      rw [posts, Operation.apply_post]
      exact Nat.succ_pos _
    by_cases pends : program.operation place = .pend semaphore
    · obtain ⟨after, goes, holds⟩ := keeps.pend place state.memory pends
      exact held after goes holds
    rcases available with free | ⟨other, place', there, holds⟩
    · exact .inl (Nat.lt_of_lt_of_eq free (Operation.apply_other state.tokens pends posts).symm)
    by_cases same : other = thread
    · subst same
      cases here.symm.trans there
      obtain posts' | ⟨after, goes, holds'⟩ := keeps.go place state.memory holds
      · exact absurd posts' posts
      · exact held after goes holds'
    · exact .inr ⟨other, place', (Function.update_of_ne same _ _).trans there, holds⟩

/-- A token is held only by who has taken one, or comes from a place where one is made. -/
structure Takes (program : Program Semaphore Memory Place Call) (semaphore : Semaphore)
    (holding making : Place → Prop) : Prop where
  first : ∀ call place, program.first call = some place → ¬holding place
  go : ∀ place memory after, (program.next place memory).2 = some after → holding after →
    holding place ∨ program.operation place = .pend semaphore ∨ making place

variable {making : Place → Prop}

/-- A token becomes available only where one is made, or the semaphore is posted. -/
theorem Takes.source (takes : Takes program semaphore holding making) {event : Event Thread Call}
    (taken : step program state event = some next)
    (available : Available holding semaphore next) :
    Available holding semaphore state ∨
      ∃ thread place, state.places thread = some place ∧
        (program.operation place = .post semaphore ∨ making place) := by
  rcases available with free | ⟨thread, after, found, holds⟩
  · rcases step_cases taken with ⟨mover, call, -, -, rfl⟩ | ⟨mover, place, -, here, passes, rfl⟩
    · exact .inl (.inl free)
    by_cases posts : program.operation place = .post semaphore
    · exact .inr ⟨mover, place, here, .inl posts⟩
    by_cases pends : program.operation place = .pend semaphore
    · rw [pends] at passes
      exact .inl (.inl passes)
    · exact .inl (.inl (Nat.lt_of_lt_of_eq free (Operation.apply_other state.tokens pends posts)))
  · rcases step_places taken found with stayed | ⟨call, -, begins⟩ | ⟨before, rfl, here, goes⟩
    · exact .inl (.inr ⟨thread, after, stayed, holds⟩)
    · exact absurd holds (takes.first call after begins)
    rcases takes.go before state.memory after goes holds with holds' | pends | makes
    · exact .inl (.inr ⟨thread, before, here, holds'⟩)
    · obtain ⟨place, here', passes⟩ := step_passes taken
      cases here.symm.trans here'
      rw [pends] at passes
      exact .inl (.inl passes)
    · exact .inr ⟨thread, before, here, .inr makes⟩

end PeridotSw.Machine.Semaphores
