import PeridotSw.Machine.Transition
import PeridotSw.Rubic.Agent

/-!
# The mutex of a worker

The loop of `worker_thread` starts with the lock held and gives it up on its way to
`sem_wait` or to the runner.  `continue` behind a wake-up that finds no request, and the jump
to `reply_error` over the lock behind the runner, lead back to the head without it.
-/

namespace PeridotSw.Rubic.MutexDiscipline

open PeridotSw.Machine.Memory
open PeridotSw.Machine.Transition
open PeridotSw.Rubic.Agent

/-- Every thread at the head of its loop holds the mutex of its worker. -/
def TopHeld {count : Nat} (state : State count) : Prop :=
  ∀ index, (state.threads index).place = .top → (state.workers index).mutex = true

/-- The steps that unlock a mutex which an earlier step has locked. -/
def unlocks (worker : Worker) : ThreadAction → Bool
  | .head boot => worker.state ≠ .autoboot || boot.isSome
  | _ => false

/-- A step unlocks no mutex that its thread does not hold. -/
def UnlocksHeld {count : Nat} (state : State count) : Action count → Prop
  | .thread index action =>
      unlocks (state.workers index) action = true → (state.workers index).mutex = true
  | _ => True

/-- The steps of a thread that keep the lock in order: it wakes up for a request, and does
not go through `reply_error` without the lock. -/
def Regular (worker : Worker) : ThreadAction → Prop
  | .take _ => worker.context.isSome
  | .reply _ => False
  | _ => True

def RegularStep {count : Nat} (state : State count) : Action count → Prop
  | .thread index action => Regular (state.workers index) action
  | _ => True

/-! ## The lock in a step -/

variable {worker : Worker} {thread : Thread}

theorem invokeRunner_place (thread : Thread) : (invokeRunner thread).place ≠ .top := by
  unfold invokeRunner
  split <;> simp

theorem loopHead_mutex (worker : Worker) (boot : Option Boot) :
    (loopHead worker boot).1.mutex = (worker.mutex && !unlocks worker (.head boot)) := by
  unfold loopHead
  by_cases autoboot : worker.state = .autoboot
  · rw [if_pos autoboot]
    cases boot with
    | none => simp [unlocks, autoboot]
    | some boot => simp [unlocks]
  · rw [if_neg autoboot]
    simp [unlocks, autoboot]

theorem loopHead_place (worker : Worker) (boot : Option Boot) :
    (loopHead worker boot).2.place = .top ↔ unlocks worker (.head boot) = false := by
  unfold loopHead
  by_cases autoboot : worker.state = .autoboot
  · rw [if_pos autoboot]
    cases boot with
    | none => simp [unlocks, autoboot, Thread.at]
    | some boot => simp [unlocks, invokeRunner_place]
  · rw [if_neg autoboot]
    simp [unlocks, autoboot, Thread.at]

theorem takeRequest_mutex (setting : Setting) (stale : Fin 4 → Int) (worker : Worker) :
    (takeRequest setting stale worker).1.mutex = worker.mutex := by
  unfold takeRequest
  split <;> rfl

theorem takeRequest_place (setting : Setting) (stale : Fin 4 → Int) (worker : Worker) :
    (takeRequest setting stale worker).2.place = .top ↔ worker.context = none := by
  unfold takeRequest
  split
  · rename_i none
    simp [none, Thread.at]
  · rename_i context some
    simp [some, invokeRunner_place]

theorem answerCallback_mutex (worker : Worker) (result : Int32) (output : Option Mem) :
    (answerCallback worker result output).1.mutex = worker.mutex := by
  unfold answerCallback
  split <;> rfl

theorem notifyInit_mutex (worker : Worker) (output : Option Mem) :
    (rubicAgentRunnerNotifyInit worker output).1.mutex = worker.mutex := by
  unfold rubicAgentRunnerNotifyInit
  split <;> rfl

theorem cooperate_mutex (setting : Setting) (worker : Worker) (stale : Int) :
    (rubicAgentRunnerCooperate setting worker stale).1.mutex = worker.mutex := by
  unfold rubicAgentRunnerCooperate
  split
  · rfl
  · dsimp only
    split
    · rfl
    · split
      · split <;> rfl
      · rfl

/-- The thread of a worker holds the mutex exactly at the head of the loop. -/
def Held (worker : Worker) (thread : Thread) : Prop :=
  worker.mutex = true ↔ thread.place = .top

theorem held_elsewhere (unlocked : worker.mutex = false) (elsewhere : thread.place ≠ .top) :
    Held worker thread := by
  unfold Held
  rw [unlocked]
  exact iff_of_false nofun elsewhere

theorem Held.unlocked (held : Held worker thread) {place : Place} (here : thread.place = place)
    (elsewhere : place ≠ .top) : worker.mutex = false := by
  rw [← here] at elsewhere
  exact Bool.eq_false_iff.mpr fun locked => elsewhere (held.mp locked)

theorem threadStep_held {setting : Setting} {index : Nat} {action : ThreadAction}
    {result : Worker × Thread × List Event} (held : Held worker thread)
    (regular : Regular worker action)
    (taken : threadStep setting index worker thread action = some result) :
    Held result.1 result.2.1 := by
  cases action with
  | create disableAutoBoot =>
      obtain ⟨place, ⟨⟩⟩ := Option.ite_none_right_eq_some.mp taken
      exact held_elsewhere (held.unlocked place nofun) nofun
  | enter =>
      obtain ⟨place, ⟨⟩⟩ := Option.ite_none_right_eq_some.mp taken
      exact iff_of_true rfl rfl
  | head boot =>
      obtain ⟨place, ⟨⟩⟩ := Option.ite_none_right_eq_some.mp taken
      have locked : worker.mutex = true := held.mpr place
      unfold Held
      dsimp only
      rw [loopHead_mutex, loopHead_place, locked, Bool.true_and, Bool.not_eq_true']
  | wait =>
      obtain ⟨⟨place, -⟩, ⟨⟩⟩ := Option.ite_none_right_eq_some.mp taken
      exact held_elsewhere (held.unlocked place nofun) nofun
  | take stale =>
      obtain ⟨⟨place, unlocked⟩, ⟨⟩⟩ := Option.ite_none_right_eq_some.mp taken
      refine held_elsewhere ?_ ?_
      · rw [takeRequest_mutex]
        exact unlocked
      · rw [Ne, takeRequest_place]
        exact Option.isSome_iff_ne_none.mp regular
  | notifyInit output =>
      obtain ⟨place, ⟨⟩⟩ := Option.ite_none_right_eq_some.mp taken
      refine held_elsewhere ?_ nofun
      rw [notifyInit_mutex]
      exact held.unlocked place nofun
  | cooperate stale =>
      simp only [threadStep] at taken
      split at taken
      · rename_i calledBack place
        cases taken
        refine held_elsewhere ?_ nofun
        rw [cooperate_mutex]
        exact held.unlocked place nofun
      · cases taken
  | leave result =>
      simp only [threadStep] at taken
      split at taken
      · rename_i calledBack place
        cases taken
        exact held_elsewhere (held.unlocked place nofun) nofun
      · cases taken
  | finish output =>
      obtain ⟨place, ⟨⟩⟩ := Option.ite_none_right_eq_some.mp taken
      exact iff_of_true rfl rfl
  | clear =>
      obtain ⟨place, ⟨⟩⟩ := Option.ite_none_right_eq_some.mp taken
      exact held_elsewhere (held.unlocked place nofun) nofun
  | reply output => exact regular.elim

/-- Any other step leads to the head of the loop without the lock. -/
theorem threadStep_lost {setting : Setting} {index : Nat} {action : ThreadAction}
    {result : Worker × Thread × List Event} (held : Held worker thread)
    (irregular : ¬Regular worker action)
    (taken : threadStep setting index worker thread action = some result) :
    result.2.1.place = .top ∧ result.1.mutex = false := by
  cases action with
  | take stale =>
      obtain ⟨⟨place, unlocked⟩, ⟨⟩⟩ := Option.ite_none_right_eq_some.mp taken
      have none : worker.context = none := Option.not_isSome_iff_eq_none.mp irregular
      rw [takeRequest_mutex, takeRequest_place]
      exact ⟨none, unlocked⟩
  | reply output =>
      obtain ⟨place, ⟨⟩⟩ := Option.ite_none_right_eq_some.mp taken
      refine ⟨rfl, ?_⟩
      unfold replyError
      rw [answerCallback_mutex]
      exact held.unlocked place nofun
  | _ => exact absurd trivial irregular

/-! ## Runs -/

variable {count : Nat} {setting : Setting}

def AllHeld (state : State count) : Prop :=
  ∀ index, Held (state.workers index) (state.threads index)

theorem allHeld_initial : AllHeld (initial count) := fun _ => held_elsewhere rfl nofun

theorem AllHeld.topHeld {state : State count} (held : AllHeld state) : TopHeld state :=
  fun index => (held index).mpr

theorem AllHeld.of_mutex {state next : State count} (held : AllHeld state)
    (threads : next.threads = state.threads)
    (mutex : ∀ index, (next.workers index).mutex = (state.workers index).mutex) :
    AllHeld next := by
  intro index
  unfold Held
  rw [mutex, threads]
  exact held index

/-- A worker is replaced by one whose mutex is the same. -/
theorem update_mutex {workers : Fin count → Worker} {index : Fin count} {worker : Worker}
    (mutex : worker.mutex = (workers index).mutex) (other : Fin count) :
    (Function.update workers index worker other).mutex = (workers other).mutex := by
  by_cases same : other = index
  · subst same
    rw [Function.update_self, mutex]
  · rw [Function.update_of_ne same]

theorem queueStep_held {state next : State count} {number : Nat} (held : AllHeld state)
    (taken : state.queueStep number = some next) : AllHeld next := by
  obtain ⟨call, -, taken⟩ := Option.bind_eq_some_iff.mp taken
  split at taken
  · dsimp only at taken
    split at taken
    · cases taken
    · split at taken
      · cases taken
        exact held.of_mutex rfl fun _ => rfl
      · cases taken
        exact held.of_mutex rfl (update_mutex rfl)
  · split at taken
    · dsimp only at taken
      split at taken
      · cases taken
      · split at taken
        · cases taken
          exact held.of_mutex rfl (update_mutex rfl)
        · cases taken
          exact held.of_mutex rfl fun _ => rfl
    · cases taken
      exact held.of_mutex rfl fun _ => rfl
  · cases taken
    exact held.of_mutex rfl (update_mutex rfl)
  · cases taken

theorem act_held {state : State count} {index : Fin count} {worker : Worker} {thread : Thread}
    (held : AllHeld state) (own : Held worker thread) (events : List Event) :
    AllHeld (state.act index worker thread events) := by
  intro other
  unfold State.act
  dsimp only
  by_cases same : other = index
  · subst same
    rw [Function.update_self, Function.update_self]
    exact own
  · rw [Function.update_of_ne same, Function.update_of_ne same]
    exact held other

theorem step_held (state : State count) (action : Action count) (next : State count)
    (held : AllHeld state) (regular : RegularStep state action)
    (taken : step setting state action = some next) : AllHeld next := by
  cases action with
  | queue input params staleTid staleName =>
      cases taken
      exact held.of_mutex rfl fun _ => rfl
  | queueStep number => exact queueStep_held held taken
  | thread index action =>
      obtain ⟨result, made, rfl⟩ := Option.map_eq_some_iff.mp taken
      exact act_held held (threadStep_held (held index) regular made) result.2.2

theorem step_lost (state : State count) (action : Action count) (next : State count)
    (held : AllHeld state) (irregular : ¬RegularStep state action)
    (taken : step setting state action = some next) : ¬TopHeld next := by
  cases action with
  | queue input params staleTid staleName => exact absurd trivial irregular
  | queueStep number => exact absurd trivial irregular
  | thread index action =>
      obtain ⟨result, made, rfl⟩ := Option.map_eq_some_iff.mp taken
      obtain ⟨top, unlocked⟩ := threadStep_lost (held index) irregular made
      intro topHeld
      have locked : result.1.mutex = true := by
        have here := topHeld index
        unfold State.act at here
        dsimp only at here
        rw [Function.update_self, Function.update_self] at here
        exact here top
      rw [unlocked] at locked
      cases locked

/-- A thread unlocks only at the head of its loop. -/
theorem unlocksHeld_of_topHeld (state : State count) (action : Action count)
    (next : State count) (topHeld : TopHeld state) (taken : step setting state action = some next) :
    UnlocksHeld state action := by
  cases action with
  | queue input params staleTid staleName => exact trivial
  | queueStep number => exact trivial
  | thread index action =>
      intro unlock
      cases action with
      | head boot =>
          obtain ⟨result, made, rfl⟩ := Option.map_eq_some_iff.mp taken
          exact topHeld index (Option.ite_none_right_eq_some.mp made).1
      | _ => cases unlock

/-- The discipline holds in exactly the runs of regular steps. -/
theorem mutexDiscipline_iff_regular (setting : Setting) (count : Nat)
    (actions : List (Action count)) :
    Always (step setting) TopHeld (initial count) actions ∧
        Each (step setting) UnlocksHeld (initial count) actions ↔
      Each (step setting) RegularStep (initial count) actions := by
  rw [← always_iff_each step_held (fun _ => AllHeld.topHeld) step_lost allHeld_initial]
  exact and_iff_left_of_imp (Always.each unlocksHeld_of_topHeld)

/-- Autoboot of a file whose runtime is not registered. -/
theorem mutexDiscipline_fails :
    ¬∀ (setting : Setting) (count : Nat) (actions : List (Action count)),
      Always (step setting) TopHeld (initial count) actions ∧
        Each (step setting) UnlocksHeld (initial count) actions := by
  intro all
  let setting : Setting := ⟨[], fun _ => 0⟩
  let boot : Boot := ⟨none, keyFile⟩
  let actions : List (Action 1) :=
    [.thread 0 (.create false), .thread 0 .enter, .thread 0 (.head (some boot)),
      .thread 0 .clear, .thread 0 (.reply none)]
  have topHeld := (always_iff (initial 1) actions).mp (all setting 1 actions).1 actions
    (List.prefix_refl actions) _ rfl
  exact absurd (topHeld 0 rfl) (by decide)

end PeridotSw.Rubic.MutexDiscipline
