import Mathlib.Data.List.Count
import PeridotSw.Machine.Semaphores

/-!
# Calls that give a lock back

A record of what every thread has done to the semaphores in its call shows whether a call
that has returned has posted a lock as often as it has pended it.  The places of a program at
which the lock is held decide it: there is one way to lose the lock, to return from one of
them without a post.
-/

namespace PeridotSw.Machine.LockBalance

open PeridotSw.Machine.Semaphores

/-! ## Records -/

/-- The operations of the call a thread is in, or of its last one, are in `log`, the latest
first. -/
structure Recorded (Thread Semaphore Memory Place : Type) where
  state : State Thread Semaphore Memory Place
  log : Thread → List (Operation Semaphore)

variable {Thread Semaphore Memory Place Call : Type}

def unrecorded (state : State Thread Semaphore Memory Place) :
    Recorded Thread Semaphore Memory Place where
  state := state
  log _ := []

section

variable [DecidableEq Thread] (program : Program Semaphore Memory Place Call)

/-- The log with an event entered. -/
def Recorded.logged (recorded : Recorded Thread Semaphore Memory Place) :
    Event Thread Call → Thread → List (Operation Semaphore)
  | .enter thread _ => Function.update recorded.log thread []
  | .go thread => Function.update recorded.log thread
      (((recorded.state.places thread).map program.operation).toList ++ recorded.log thread)

variable [DecidableEq Semaphore]

def recordStep (recorded : Recorded Thread Semaphore Memory Place) (event : Event Thread Call) :
    Option (Recorded Thread Semaphore Memory Place) :=
  (step program recorded.state event).map fun next => ⟨next, recorded.logged program event⟩

end

section

variable [DecidableEq Semaphore]

/-- The thread has posted the semaphore as often as it has pended it. -/
def Repaid (semaphore : Semaphore) (recorded : Recorded Thread Semaphore Memory Place)
    (thread : Thread) : Prop :=
  (recorded.log thread).count (.post semaphore) = (recorded.log thread).count (.pend semaphore)

/-- Every call that has returned has posted the semaphore as often as it has pended it. -/
def Balanced (semaphore : Semaphore) (recorded : Recorded Thread Semaphore Memory Place) : Prop :=
  ∀ thread, recorded.state.places thread = none → Repaid semaphore recorded thread

end

/-! ## Places that hold a lock -/

/-- A lock is held from a pend to the next post, unless the call returns before it from a
place where it leaks. -/
structure Lock (program : Program Semaphore Memory Place Call) (semaphore : Semaphore)
    (holding leaking : Place → Prop) : Prop where
  first : ∀ call place, program.first call = some place → ¬holding place
  pend : ∀ place, program.operation place = .pend semaphore → ¬holding place ∧
    ∀ memory, ∃ after, (program.next place memory).2 = some after ∧ holding after
  post : ∀ place, program.operation place = .post semaphore → holding place ∧
    ∀ memory after, (program.next place memory).2 = some after → ¬holding after
  keep : ∀ place memory, holding place → program.operation place ≠ .post semaphore →
    ¬leaking place → ∃ after, (program.next place memory).2 = some after ∧ holding after
  free : ∀ place memory after, ¬holding place → program.operation place ≠ .pend semaphore →
    (program.next place memory).2 = some after → ¬holding after
  leak : ∀ place, leaking place → holding place ∧ program.operation place ≠ .post semaphore ∧
    ∀ memory, (program.next place memory).2 = none

variable {program : Program Semaphore Memory Place Call} {semaphore : Semaphore}
variable {holding leaking : Place → Prop}

/-- The next place of the thread holds the lock. -/
def Holds (holding : Place → Prop) (place : Option Place) : Prop :=
  ∃ after, place = some after ∧ holding after

theorem holds_some {place : Place} : Holds holding (some place) ↔ holding place := by
  constructor
  · rintro ⟨after, same, holds⟩
    cases same
    exact holds
  · exact fun holds => ⟨place, rfl, holds⟩

theorem not_holds_none : ¬Holds holding none := nofun

/-- A thread that goes on takes the lock, gives it back, or keeps things as they are. -/
theorem Lock.next_cases (lock : Lock program semaphore holding leaking) {place : Place}
    (tight : ¬leaking place) (memory : Memory) :
    (program.operation place = .pend semaphore ∧ ¬holding place ∧
        Holds holding (program.next place memory).2) ∨
      (program.operation place = .post semaphore ∧ holding place ∧
        ¬Holds holding (program.next place memory).2) ∨
        program.operation place ≠ .pend semaphore ∧ program.operation place ≠ .post semaphore ∧
          (Holds holding (program.next place memory).2 ↔ holding place) := by
  by_cases pend : program.operation place = .pend semaphore
  · obtain ⟨before, after⟩ := lock.pend place pend
    exact .inl ⟨pend, before, after memory⟩
  by_cases post : program.operation place = .post semaphore
  · obtain ⟨before, after⟩ := lock.post place post
    exact .inr (.inl ⟨post, before, fun ⟨place', goes, holds⟩ => after memory place' goes holds⟩)
  refine .inr (.inr ⟨pend, post, ?_, ?_⟩)
  · rintro ⟨after, goes, holds⟩
    by_contra free
    exact lock.free place memory after free pend goes holds
  · exact fun holds => lock.keep place memory holds post tight

/-! ## The invariant -/

variable [DecidableEq Semaphore]

/-- Whoever holds the lock owes one post, and nobody else owes any; one token is there or
with the only thread that holds the lock. -/
structure Kept (semaphore : Semaphore) (holding : Place → Prop)
    (recorded : Recorded Thread Semaphore Memory Place) : Prop where
  owing : ∀ thread, Holds holding (recorded.state.places thread) →
    (recorded.log thread).count (.pend semaphore) =
      (recorded.log thread).count (.post semaphore) + 1
  repaid : ∀ thread, ¬Holds holding (recorded.state.places thread) → Repaid semaphore recorded thread
  token : (recorded.state.tokens semaphore = 1 ∧
      ∀ thread, ¬Holds holding (recorded.state.places thread)) ∨
    recorded.state.tokens semaphore = 0 ∧ ∃ holder, Holds holding (recorded.state.places holder) ∧
      ∀ other, Holds holding (recorded.state.places other) → other = holder

variable {recorded next : Recorded Thread Semaphore Memory Place}

theorem Kept.balanced (kept : Kept semaphore holding recorded) : Balanced semaphore recorded := by
  intro thread outside
  refine kept.repaid thread ?_
  rw [outside]
  exact not_holds_none

/-- While nobody holds the lock, its token is there. -/
theorem Kept.tokens_eq_one (kept : Kept semaphore holding recorded)
    (nobody : ∀ thread, ¬Holds holding (recorded.state.places thread)) :
    recorded.state.tokens semaphore = 1 := by
  rcases kept.token with ⟨one, -⟩ | ⟨-, holder, holds, -⟩
  · exact one
  · exact absurd holds (nobody holder)

/-- At the beginning the token is there. -/
theorem kept_unrecorded {state : State Thread Semaphore Memory Place}
    (outside : ∀ thread, state.places thread = none) (one : state.tokens semaphore = 1) :
    Kept semaphore holding (unrecorded state) := by
  have nobody (thread : Thread) : ¬Holds holding ((unrecorded state).state.places thread) := by
    change ¬Holds holding (state.places thread)
    rw [outside]
    exact not_holds_none
  exact ⟨fun thread holds => absurd holds (nobody thread), fun _ _ => rfl, .inl ⟨one, nobody⟩⟩

/-- A thread does an operation and goes on. -/
structure Gone (recorded next : Recorded Thread Semaphore Memory Place) (thread : Thread)
    (operation : Operation Semaphore) (after : Option Place) : Prop where
  tokens : next.state.tokens = operation.apply recorded.state.tokens
  place : next.state.places thread = after
  log : next.log thread = operation :: recorded.log thread
  places : ∀ other, other ≠ thread → next.state.places other = recorded.state.places other
  logs : ∀ other, other ≠ thread → next.log other = recorded.log other

/-- A thread enters a call. -/
structure Entered (recorded next : Recorded Thread Semaphore Memory Place) (thread : Thread)
    (after : Option Place) : Prop where
  tokens : next.state.tokens = recorded.state.tokens
  place : next.state.places thread = after
  log : next.log thread = []
  places : ∀ other, other ≠ thread → next.state.places other = recorded.state.places other
  logs : ∀ other, other ≠ thread → next.log other = recorded.log other

section

variable [DecidableEq Thread]

theorem recordStep_cases {event : Event Thread Call}
    (taken : recordStep program recorded event = some next) :
    (∃ thread call, event = .enter thread call ∧ recorded.state.places thread = none ∧
      Entered recorded next thread (program.first call)) ∨
    ∃ thread place, event = .go thread ∧ recorded.state.places thread = some place ∧
      (program.operation place).Passes recorded.state.tokens ∧
      Gone recorded next thread (program.operation place)
        (program.next place recorded.state.memory).2 := by
  obtain ⟨state, moves, rfl⟩ := Option.map_eq_some_iff.mp taken
  rcases step_cases moves with
    ⟨thread, call, rfl, outside, rfl⟩ | ⟨thread, place, rfl, here, passes, rfl⟩
  · exact .inl ⟨thread, call, rfl, outside, rfl, Function.update_self .., Function.update_self ..,
      fun _ other => Function.update_of_ne other .., fun _ other => Function.update_of_ne other ..⟩
  · refine .inr ⟨thread, place, rfl, here, passes, rfl, Function.update_self .., ?_,
      fun _ other => Function.update_of_ne other .., fun _ other => Function.update_of_ne other ..⟩
    change Function.update recorded.log thread _ thread = _
    rw [Function.update_self, here]
    rfl

end

theorem Kept.enter (lock : Lock program semaphore holding leaking)
    (kept : Kept semaphore holding recorded) {thread : Thread} {call : Call}
    (outside : recorded.state.places thread = none)
    (entered : Entered recorded next thread (program.first call)) :
    Kept semaphore holding next := by
  have free : ¬Holds holding (next.state.places thread) := by
    rw [entered.place]
    exact fun ⟨after, begins, holds⟩ => lock.first call after begins holds
  have same (other : Thread) : Holds holding (next.state.places other) ↔
      Holds holding (recorded.state.places other) := by
    by_cases moved : other = thread
    · rw [moved, outside]
      exact iff_of_false free not_holds_none
    · rw [entered.places other moved]
  refine ⟨fun other holds => ?_, fun other free' => ?_, ?_⟩
  · rw [entered.logs other fun moved => free (moved ▸ holds)]
    exact kept.owing other ((same other).mp holds)
  · unfold Repaid
    by_cases moved : other = thread
    · rw [moved, entered.log]
      rfl
    · rw [entered.logs other moved]
      exact kept.repaid other (mt (same other).mpr free')
  · simp only [entered.tokens, same]
    exact kept.token

section

variable {thread : Thread} {after : Option Place} {operation : Operation Semaphore}

/-- Threads that do not move owe what they owed. -/
theorem Gone.owing (kept : Kept semaphore holding recorded)
    (gone : Gone recorded next thread operation after) {other : Thread} (rests : other ≠ thread)
    (holds : Holds holding (next.state.places other)) :
    (next.log other).count (.pend semaphore) = (next.log other).count (.post semaphore) + 1 := by
  rw [gone.logs other rests]
  exact kept.owing other (gone.places other rests ▸ holds)

theorem Gone.repaid (kept : Kept semaphore holding recorded)
    (gone : Gone recorded next thread operation after) {other : Thread} (rests : other ≠ thread)
    (free : ¬Holds holding (next.state.places other)) : Repaid semaphore next other := by
  unfold Repaid
  rw [gone.logs other rests]
  exact kept.repaid other (gone.places other rests ▸ free)

theorem Kept.takes (kept : Kept semaphore holding recorded)
    (gone : Gone recorded next thread (.pend semaphore) after)
    (there : 0 < recorded.state.tokens semaphore)
    (before : ¬Holds holding (recorded.state.places thread))
    (holds : Holds holding (next.state.places thread)) : Kept semaphore holding next := by
  have repaid : Repaid semaphore recorded thread := kept.repaid thread before
  refine ⟨fun other holds' => ?_, fun other free => ?_, .inr ?_⟩
  · by_cases moved : other = thread
    · rw [moved, gone.log, List.count_cons_self, List.count_cons_of_ne (by nofun), repaid]
    · exact gone.owing kept moved holds'
  · exact gone.repaid kept (fun moved => free (moved ▸ holds)) free
  · rcases kept.token with ⟨one, nobody⟩ | ⟨zero, -⟩
    · refine ⟨?_, thread, holds, fun other holds' => ?_⟩
      · rw [gone.tokens, Operation.apply, Function.update_self, one]
      · by_contra moved
        exact nobody other (gone.places other moved ▸ holds')
    · omega

/-- A thread gives the lock back, and nobody else has it. -/
theorem Kept.gives (kept : Kept semaphore holding recorded)
    (gone : Gone recorded next thread (.post semaphore) after)
    (before : Holds holding (recorded.state.places thread))
    (free : ¬Holds holding (next.state.places thread)) : Kept semaphore holding next := by
  have owed := kept.owing thread before
  refine ⟨fun other holds => ?_, fun other free' => ?_, .inl ?_⟩
  · exact gone.owing kept (fun moved => free (moved ▸ holds)) holds
  · by_cases moved : other = thread
    · unfold Repaid
      rw [moved, gone.log, List.count_cons_self, List.count_cons_of_ne (by nofun), owed]
    · exact gone.repaid kept moved free'
  · rcases kept.token with ⟨-, nobody⟩ | ⟨zero, holder, -, only⟩
    · exact absurd before (nobody thread)
    · refine ⟨?_, fun other holds => ?_⟩
      · rw [gone.tokens, Operation.apply_post, zero]
      · by_cases moved : other = thread
        · exact free (moved ▸ holds)
        · exact moved ((only other (gone.places other moved ▸ holds)).trans
            (only thread before).symm)

theorem Kept.stays (kept : Kept semaphore holding recorded)
    (gone : Gone recorded next thread operation after) (pend : operation ≠ .pend semaphore)
    (post : operation ≠ .post semaphore)
    (same : Holds holding (next.state.places thread) ↔
      Holds holding (recorded.state.places thread)) : Kept semaphore holding next := by
  have stays (other : Thread) : Holds holding (next.state.places other) ↔
      Holds holding (recorded.state.places other) := by
    by_cases moved : other = thread
    · rw [moved]
      exact same
    · rw [gone.places other moved]
  refine ⟨fun other holds => ?_, fun other free => ?_, ?_⟩
  · by_cases moved : other = thread
    · rw [moved, gone.log, List.count_cons_of_ne pend, List.count_cons_of_ne post]
      exact kept.owing thread (moved ▸ (stays other).mp holds)
    · exact gone.owing kept moved holds
  · by_cases moved : other = thread
    · unfold Repaid
      rw [moved, gone.log, List.count_cons_of_ne pend, List.count_cons_of_ne post]
      exact kept.repaid thread (moved ▸ mt (stays other).mpr free)
    · exact gone.repaid kept moved free
  · simp only [stays, gone.tokens, Operation.apply_other recorded.state.tokens pend post]
    exact kept.token

end

/-! ## Steps -/

/-- The thread is about to return with the lock. -/
def Leaks (leaking : Place → Prop) (recorded : Recorded Thread Semaphore Memory Place) :
    Event Thread Call → Prop
  | .enter _ _ => False
  | .go thread => Holds leaking (recorded.state.places thread)

variable [DecidableEq Thread]

/-- A step at which the lock does not leak keeps the count. -/
theorem Kept.step (lock : Lock program semaphore holding leaking)
    (kept : Kept semaphore holding recorded) {event : Event Thread Call}
    (tight : ¬Leaks leaking recorded event)
    (taken : recordStep program recorded event = some next) : Kept semaphore holding next := by
  rcases recordStep_cases taken with
    ⟨thread, call, -, outside, entered⟩ | ⟨thread, place, rfl, here, passes, gone⟩
  · exact kept.enter lock outside entered
  have before : Holds holding (recorded.state.places thread) ↔ holding place := by
    rw [here]
    exact holds_some
  have behind := gone.place
  rcases lock.next_cases (fun leaks => tight ⟨place, here, leaks⟩) recorded.state.memory with
    ⟨pend, free, holds⟩ | ⟨post, holds, free⟩ | ⟨pend, post, same⟩
  · rw [pend] at gone passes
    exact kept.takes gone passes (mt before.mp free) (behind ▸ holds)
  · rw [post] at gone
    exact kept.gives gone (before.mpr holds) (behind ▸ free)
  · refine kept.stays gone pend post ?_
    rw [behind, before]
    exact same

/-- A call at whose end the lock leaks is not balanced. -/
theorem Kept.not_balanced (lock : Lock program semaphore holding leaking)
    (kept : Kept semaphore holding recorded) {event : Event Thread Call}
    (leaks : Leaks leaking recorded event)
    (taken : recordStep program recorded event = some next) : ¬Balanced semaphore next := by
  intro balanced
  rcases recordStep_cases taken with ⟨thread, call, rfl, -⟩ | ⟨thread, place, rfl, here, -, gone⟩
  · exact leaks
  obtain ⟨place', here', leaks⟩ := leaks
  cases here.symm.trans here'
  obtain ⟨holds, post, back⟩ := lock.leak place leaks
  have pend : program.operation place ≠ .pend semaphore :=
    fun pend => (lock.pend place pend).1 holds
  have repaid := balanced thread (gone.place.trans (back _))
  have owed := kept.owing thread ⟨place, here, holds⟩
  unfold Repaid at repaid
  rw [gone.log, List.count_cons_of_ne pend, List.count_cons_of_ne post] at repaid
  omega

end PeridotSw.Machine.LockBalance
