import PeridotSw.Fifo.Deadlock
import PeridotSw.Machine.LockBalance
import PeridotSw.Machine.Transition

/-!
# The common lock of a named FIFO

Opening, closing and reading give the lock back on every way out.  A write that moves data
takes it to set the offset and the flag, and posts the two other semaphores only.
-/

namespace PeridotSw.Fifo.CommonLock

open PeridotSw.Machine.Semaphores
open PeridotSw.Machine.LockBalance
open PeridotSw.Machine.Transition
open PeridotSw.Fifo.NamedFifo
open PeridotSw.Fifo.Threads
open PeridotSw.Fifo.Deadlock (Writing writing_before first_cases onDevice_pend onDevice_post
  World)

/-! ## Where the lock is held -/

/-- Between a pend of the lock and the post or the return behind it. -/
def Locked : Place → Prop
  | .openUnlock | .closeSignalReader _ | .closeSignalWriter | .closeUnlock | .readUnlock _ _
  | .writeSignalWriter _ | .writeSignalReader _ => True
  | _ => False

/-- A write that has moved its data. -/
def Moving : Place → Prop
  | .writeLock _ | .writeSignalWriter _ | .writeSignalReader _ => True
  | _ => False

/-- A write that has moved its data, before its last operation. -/
def Returning : Place → Prop
  | .writeSignalReader _ => True
  | _ => False

variable {dev : NamedFifoDev}

theorem closeWriter_locked (fd : AltFd) (dev : NamedFifoDev) :
    ∃ place, (closeWriter fd dev).2 = .to place ∧ Locked place := by
  rcases closeWriter_to fd dev with onto | onto
  · exact ⟨_, onto, trivial⟩
  · exact ⟨_, onto, trivial⟩

theorem closeReader_locked (fd : AltFd) (dev : NamedFifoDev) :
    ∃ place, (closeReader fd dev).2 = .to place ∧ Locked place := by
  rcases closeReader_to fd dev with onto | onto | onto
  · exact ⟨_, onto, trivial⟩
  · exact ⟨_, onto, trivial⟩
  · exact ⟨_, onto, trivial⟩

/-- Who pends the lock does not hold it, and then does. -/
theorem not_locked_of_pend {place : Place} (pend : place.semOp = .pend .lockCommon) :
    ¬Locked place := by
  cases place <;> cases pend <;> exact id

theorem locked_of_pend {place : Place} (pend : place.semOp = .pend .lockCommon)
    (dev : NamedFifoDev) : ∃ after, (place.next dev).2 = .to after ∧ Locked after := by
  cases place <;> cases pend
  case openLock flags => exact ⟨_, rfl, trivial⟩
  case closeLock fd => exact closeReader_locked fd dev
  case readLock total data => exact ⟨_, rfl, trivial⟩
  case writeLock total => exact ⟨_, rfl, trivial⟩

/-- Who posts the lock holds it, and then does not. -/
theorem locked_of_post {place : Place} (post : place.semOp = .post .lockCommon) :
    Locked place := by
  cases place <;> cases post <;> exact trivial

theorem not_locked_of_post {place after : Place} (post : place.semOp = .post .lockCommon)
    (goes : (place.next dev).2.place = some after) : ¬Locked after := by
  cases place <;> cases post
  case readUnlock total data =>
    cases goes
    exact id
  all_goals cases goes

/-- Without a post the lock stays held, unless a write returns. -/
theorem locked_next {place : Place} (locked : Locked place)
    (post : place.semOp ≠ .post .lockCommon) (returning : ¬Returning place) (dev : NamedFifoDev) :
    ∃ after, (place.next dev).2 = .to after ∧ Locked after := by
  cases place <;> try cases locked
  case closeSignalReader fd => exact closeWriter_locked fd dev
  case closeSignalWriter => exact ⟨_, rfl, trivial⟩
  case writeSignalWriter total => exact ⟨_, rfl, trivial⟩
  case writeSignalReader total => exact absurd trivial returning
  all_goals exact absurd rfl post

/-- Without a pend nobody comes to hold the lock. -/
theorem not_locked_next {place after : Place} (free : ¬Locked place)
    (pend : place.semOp ≠ .pend .lockCommon) (goes : (place.next dev).2.place = some after) :
    ¬Locked after := by
  cases place <;> try exact absurd trivial free
  case readWait fd len =>
    rw [Place.next, readData] at goes
    split at goes <;> cases goes <;> exact id
  case writeWait fd ptr len =>
    rw [Place.next, writeData] at goes
    split at goes <;> cases goes <;> exact id
  case readNone | writeNone =>
    rw [Place.next] at goes
    split at goes
    · cases goes
    split at goes <;> cases goes
    exact id
  case readSignalReader total data =>
    cases goes
    exact id
  case readSignalWriter => cases goes
  all_goals exact absurd rfl pend

/-- A write moves its data behind a wait that finds the FIFO not empty. -/
theorem moving_before {place after : Place} (goes : (place.next dev).2.place = some after)
    (moving : Moving after) :
    Moving place ∨ (∃ fd ptr len, place = .writeWait fd ptr len) ∧ ¬Idle dev := by
  have writing : Writing after := by
    cases after <;> try cases moving
    all_goals exact trivial
  have before := writing_before goes writing
  cases place <;> try cases before
  case writeWait fd ptr len =>
    refine .inr ⟨⟨fd, ptr, len, rfl⟩, fun idle => ?_⟩
    rw [Place.next, writeData_idle idle] at goes
    cases goes
    exact moving
  case writeNone fd ptr len =>
    rw [Place.next] at goes
    split at goes
    · cases goes
    split at goes <;> cases goes
    cases moving
  all_goals exact .inl trivial

section

variable {Device : Type}

def LockedAt (device : Device) (position : Position Device) : Prop :=
  position.device = device ∧ Locked position.place

def ReturningAt (device : Device) (position : Position Device) : Prop :=
  position.device = device ∧ Returning position.place

variable [DecidableEq Device]

/-- The places of the functions at which the lock is held, and the one where it leaks. -/
theorem lock_lockCommon (device : Device) :
    Lock program (device, Semaphore.lockCommon) (LockedAt device) (ReturningAt device) where
  first := by
    rintro call position begins ⟨-, locked⟩
    rcases first_cases begins with ⟨_, place⟩ | ⟨_, place⟩ | ⟨_, _, place⟩ | ⟨_, _, _, place, -⟩ <;>
    · rw [place] at locked
      exact locked
  pend := by
    rintro ⟨other, place⟩ pend
    obtain ⟨rfl, takes⟩ := onDevice_pend pend
    refine ⟨fun locked => not_locked_of_pend takes locked.2, fun memory => ?_⟩
    obtain ⟨after, goes, locked⟩ := locked_of_pend takes (memory other)
    exact ⟨⟨other, after⟩, congrArg (Onward.position · other) goes, rfl, locked⟩
  post := by
    rintro ⟨other, place⟩ post
    obtain ⟨rfl, gives⟩ := onDevice_post post
    refine ⟨⟨rfl, locked_of_post gives⟩, ?_⟩
    rintro memory position goes ⟨-, locked⟩
    obtain ⟨after, there, rfl⟩ := Option.map_eq_some_iff.mp goes
    exact not_locked_of_post gives there locked
  keep := by
    rintro ⟨other, place⟩ memory ⟨rfl, locked⟩ post tight
    obtain ⟨after, goes, locked'⟩ := locked_next locked
      (fun gives => post (congrArg (onDevice other) gives))
      (fun returning => tight ⟨rfl, returning⟩) (memory other)
    exact ⟨⟨other, after⟩, congrArg (Onward.position · other) goes, rfl, locked'⟩
  free := by
    rintro ⟨other, place⟩ memory position free pend goes ⟨here, locked⟩
    obtain ⟨after, there, rfl⟩ := Option.map_eq_some_iff.mp goes
    obtain rfl : other = device := here
    exact not_locked_next (fun held => free ⟨rfl, held⟩)
      (fun takes => pend (congrArg (onDevice other) takes)) there locked
  leak := by
    rintro ⟨other, place⟩ ⟨rfl, returning⟩
    cases place <;> try cases returning
    case writeSignalReader total => exact ⟨⟨rfl, trivial⟩, nofun, fun _ => rfl⟩

end

/-! ## Runs -/

section

variable {Thread Device : Type}

/-- Threads at FIFOs, with a record of what they do to the semaphores. -/
abbrev Recording (Thread Device : Type) : Type :=
  Recorded Thread (Device × Semaphore) (Device → NamedFifoDev) (Position Device)

/-- Nobody is inside a function.  The lock of every FIFO is there, and of the two other
semaphores there is any number of tokens. -/
def resting (Thread : Type) (memory : Device → NamedFifoDev)
    (tokens : Device → Semaphore → Nat) : World Thread Device where
  tokens semaphore :=
    if semaphore.2 = .lockCommon then 1 else tokens semaphore.1 semaphore.2
  memory := memory
  places _ := none

def Quiet (device : Device) (recording : Recording Thread Device) : Prop :=
  ∀ thread position, recording.state.places thread = some position → position.device ≠ device

/-- No write that has moved its data returns. -/
def NoMoveReturns (recording : Recording Thread Device) : Event Thread (Call Device) → Prop
  | .enter _ _ => True
  | .go thread => ∀ position, recording.state.places thread = some position →
      ¬Returning position.place

/-- No write finds a FIFO that is not empty, where it would move its data. -/
def NoMove (recording : Recording Thread Device) : Event Thread (Call Device) → Prop
  | .enter _ _ => True
  | .go thread => ∀ device fd ptr len,
      recording.state.places thread = some ⟨device, .writeWait fd ptr len⟩ →
        Idle (recording.state.memory device)

def NothingMoved (recording : Recording Thread Device) : Prop :=
  ∀ thread position, recording.state.places thread = some position → ¬Moving position.place

theorem moving_of_returning {place : Place} (returning : Returning place) : Moving place := by
  cases place <;> try cases returning
  case writeSignalReader => exact trivial

theorem NothingMoved.noMoveReturns {recording : Recording Thread Device}
    (still : NothingMoved recording) (event : Event Thread (Call Device)) :
    NoMoveReturns recording event := by
  cases event with
  | enter thread call => exact trivial
  | go thread =>
      exact fun position here returning =>
        still thread position here (moving_of_returning returning)

variable [DecidableEq Device]

/-- Every call that has returned has posted the lock as often as it has pended it, and the lock
of a FIFO is there whenever no operation on it is in progress. -/
def LockBalanced (recording : Recording Thread Device) : Prop :=
  ∀ device, Balanced (device, Semaphore.lockCommon) recording ∧
    (Quiet device recording → recording.state.tokens (device, .lockCommon) = 1)

def LockKept (recording : Recording Thread Device) : Prop :=
  ∀ device, Kept (device, Semaphore.lockCommon) (LockedAt device) recording

theorem LockKept.balanced {recording : Recording Thread Device} (kept : LockKept recording) :
    LockBalanced recording := by
  refine fun device => ⟨(kept device).balanced, fun quiet => (kept device).tokens_eq_one ?_⟩
  rintro thread ⟨position, here, locked⟩
  exact quiet thread position here locked.1

theorem lockKept_resting (memory : Device → NamedFifoDev) (tokens : Device → Semaphore → Nat) :
    LockKept (unrecorded (resting Thread memory tokens)) :=
  fun _ => kept_unrecorded (fun _ => rfl) rfl

variable [DecidableEq Thread] {recording next : Recording Thread Device}

theorem LockKept.step (kept : LockKept recording) {event : Event Thread (Call Device)}
    (allowed : NoMoveReturns recording event)
    (taken : recordStep program recording event = some next) : LockKept next := by
  refine fun device => (kept device).step (lock_lockCommon device) ?_ taken
  cases event with
  | enter thread call => exact id
  | go thread =>
      rintro ⟨position, here, -, returning⟩
      exact allowed position here returning

theorem LockKept.not_balanced (kept : LockKept recording) {event : Event Thread (Call Device)}
    (returns : ¬NoMoveReturns recording event)
    (taken : recordStep program recording event = some next) : ¬LockBalanced next := by
  cases event with
  | enter thread call => exact absurd trivial returns
  | go thread =>
      obtain ⟨position, leaks⟩ := not_forall.mp returns
      obtain ⟨here, returning⟩ := Classical.not_imp.mp leaks
      have leaves : Leaks (ReturningAt position.device) recording
          (.go thread : Event Thread (Call Device)) := ⟨position, here, rfl, not_not.mp returning⟩
      intro balanced
      exact (kept position.device).not_balanced (lock_lockCommon position.device) leaves taken
        (balanced position.device).1

/-- The functions of a FIFO give its lock back on all ways but one: exactly the return of a
write that has moved its data leaves it taken. -/
theorem lockBalanced_iff_noMoveReturns (memory : Device → NamedFifoDev)
    (tokens : Device → Semaphore → Nat) (events : List (Event Thread (Call Device))) :
    Always (recordStep program) LockBalanced (unrecorded (resting Thread memory tokens)) events ↔
      Each (recordStep program) NoMoveReturns (unrecorded (resting Thread memory tokens))
        events :=
  always_iff_each (fun _ _ _ kept allowed taken => kept.step allowed taken)
    (fun _ kept => kept.balanced) (fun _ _ _ kept returns taken => kept.not_balanced returns taken)
    (lockKept_resting memory tokens) events

/-- One byte is in the FIFO, and one writer writes another: it returns, and the lock is gone. -/
theorem not_lockBalanced_oneByte :
    ¬Always (recordStep program) LockBalanced
      (unrecorded (resting Unit
        (fun _ : Unit => ⟨⟨false, false, false⟩, 1, 1, 256, 0, 1, fun _ => 65⟩) (fun _ _ => 1)))
      [.enter () (.namedFifoWrite () ⟨1⟩ [66] 1), .go (), .go (), .go (), .go ()] := by
  intro always
  obtain ⟨balanced, -⟩ :=
    (always_iff _ _).mp always _ (List.prefix_refl _) _ rfl ()
  have repaid := balanced () rfl
  revert repaid
  unfold Repaid
  decide

theorem NothingMoved.step (still : NothingMoved recording) {event : Event Thread (Call Device)}
    (allowed : NoMove recording event)
    (taken : recordStep program recording event = some next) : NothingMoved next := by
  obtain ⟨state, moves, rfl⟩ := Option.map_eq_some_iff.mp taken
  intro thread position there moving
  rcases step_places moves there with stayed | ⟨call, -, begins⟩ | ⟨before, rfl, here, goes⟩
  · exact still thread position stayed moving
  · rcases first_cases begins with ⟨_, place⟩ | ⟨_, place⟩ | ⟨_, _, place⟩ | ⟨_, _, _, place, -⟩ <;>
    · rw [place] at moving
      exact moving
  · obtain ⟨device, place⟩ := before
    obtain ⟨after, onto, rfl⟩ := Option.map_eq_some_iff.mp goes
    rcases moving_before onto moving with moving' | ⟨⟨fd, ptr, len, rfl⟩, busy⟩
    · exact still thread _ here moving'
    · exact busy (allowed device fd ptr len here)

/-- While writes find empty FIFOs only, the lock is always given back. -/
theorem lockBalanced_of_noMove (memory : Device → NamedFifoDev)
    (tokens : Device → Semaphore → Nat) {events : List (Event Thread (Call Device))}
    (each : Each (recordStep program) NoMove (unrecorded (resting Thread memory tokens)) events) :
    Always (recordStep program) LockBalanced (unrecorded (resting Thread memory tokens)) events := by
  have kept : Always (recordStep program)
      (fun recording => LockKept recording ∧ NothingMoved recording)
      (unrecorded (resting Thread memory tokens)) events := by
    refine always_of_each ?_ ⟨lockKept_resting memory tokens, nofun⟩ each
    rintro recording event next ⟨kept, still⟩ allowed taken
    exact ⟨kept.step (still.noMoveReturns event) taken, still.step allowed taken⟩
  exact kept.mono fun _ holds => holds.1.balanced

end

end PeridotSw.Fifo.CommonLock
