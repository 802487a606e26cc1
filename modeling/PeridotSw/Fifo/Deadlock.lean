import PeridotSw.Fifo.Bounded
import PeridotSw.Fifo.Threads
import PeridotSw.Machine.Transition

/-!
# Threads blocked at named FIFOs

Opening a FIFO gives no token to the semaphore of writers, and only the close of the last
writer does.  The first write to a new FIFO waits for one although the FIFO is empty.  Once
there is a token it never gets lost, and nobody can be blocked for lack of it.
-/

namespace PeridotSw.Fifo.Deadlock

open PeridotSw.Machine.Semaphores
open PeridotSw.Machine.Transition
open PeridotSw.Fifo.NamedFifo
open PeridotSw.Fifo.Bounded (heldCount)
open PeridotSw.Fifo.Threads

/-! ## Deadlocks -/

def Writing : Place → Prop
  | .writeWait _ _ _ | .writeNone _ _ _ | .writeLock _ | .writeSignalWriter _
  | .writeSignalReader _ => True
  | _ => False

def Reading : Place → Prop
  | .readWait _ _ | .readNone _ _ | .readLock _ _ | .readUnlock _ _ | .readSignalReader _ _
  | .readSignalWriter _ _ => True
  | _ => False

def HasSpace (dev : NamedFifoDev) : Prop := heldCount dev < dev.capacity

def HasData (dev : NamedFifoDev) : Prop := 0 < heldCount dev

section

variable {Thread Device : Type}

abbrev World (Thread Device : Type) : Type :=
  State Thread (Device × Semaphore) (Device → NamedFifoDev) (Position Device)

/-- A thread has something to do: a writer whose FIFO has space, or a reader whose FIFO holds
data. -/
def CanWork (state : World Thread Device) (thread : Thread) : Prop :=
  ∃ position, state.places thread = some position ∧
    (Writing position.place ∧ HasSpace (state.memory position.device) ∨
      Reading position.place ∧ HasData (state.memory position.device))

/-- All threads inside are blocked, and one of them has something to do. -/
def Deadlocked [DecidableEq Device] (state : World Thread Device) : Prop :=
  AllBlocked program state ∧ ∃ thread, CanWork state thread

/-! ## The token of the writers -/

/-- The thread has the token of the semaphore of writers, or makes one for the last writer's
close. -/
def BringsToken (device : Device) (position : Position Device) : Prop :=
  position.device = device ∧
    match position.place with
    | .closeSignalWriter | .writeNone _ _ _ | .writeLock _ | .writeSignalWriter _ => True
    | _ => False

/-- The semaphore of writers has its token, or a thread is going to post it. -/
def TokenThere (state : World Thread Device) (device : Device) : Prop :=
  Available (BringsToken device) (device, .semWriter) state

/-- A write that does not return at once and finds space finds the token, too. -/
def Supplied (state : World Thread Device) : Event Thread (Call Device) → Prop
  | .enter _ (.namedFifoWrite device fd _ len) =>
      accmode fd.fdFlags &&& fwrite ≠ 0 → len ≠ 0 → HasSpace (state.memory device) →
        TokenThere state device
  | _ => True

end

/-! ## How writers come to their places -/

/-- The place is not behind a transfer. -/
def Short : Place → Prop
  | .readLock _ _ | .readUnlock _ _ | .readSignalReader _ _ | .readSignalWriter _ _
  | .writeLock _ | .writeSignalWriter _ | .writeSignalReader _ => False
  | _ => True

variable {dev : NamedFifoDev}

theorem closeWriter_short (fd : AltFd) (dev : NamedFifoDev) :
    ∃ place, (closeWriter fd dev).2 = .to place ∧ Short place ∧ ¬Writing place := by
  rcases closeWriter_to fd dev with onto | onto
  · exact ⟨_, onto, trivial, id⟩
  · exact ⟨_, onto, trivial, id⟩

theorem closeReader_short (fd : AltFd) (dev : NamedFifoDev) :
    ∃ place, (closeReader fd dev).2 = .to place ∧ Short place ∧ ¬Writing place := by
  rcases closeReader_to fd dev with onto | onto | onto
  · exact ⟨_, onto, trivial, id⟩
  · exact ⟨_, onto, trivial, id⟩
  · exact ⟨_, onto, trivial, id⟩

/-- Places of a write come behind others of a write. -/
theorem writing_before {place after : Place} (goes : (place.next dev).2.place = some after)
    (writing : Writing after) : Writing place := by
  cases place <;> try trivial
  case closeLock fd =>
    obtain ⟨place, onto, -, other⟩ := closeReader_short fd dev
    rw [Place.next, onto] at goes
    cases goes
    exact absurd writing other
  case closeSignalReader fd =>
    obtain ⟨place, onto, -, other⟩ := closeWriter_short fd dev
    rw [Place.next, onto] at goes
    cases goes
    exact absurd writing other
  case readWait fd len =>
    rw [Place.next, readData] at goes
    split at goes <;> cases goes <;> cases writing
  case readNone fd len =>
    rw [Place.next] at goes
    split at goes
    · cases goes
    split at goes
    · cases goes
    · cases goes
      cases writing
  all_goals
    cases goes
    try cases writing

/-- Inside `named_fifo_close`, before the writers are counted. -/
def Closing : Place → Prop
  | .closeLock _ | .closeSignalReader _ => True
  | _ => False

/-- A close makes the token, and nothing else does. -/
theorem closing_before {place : Place}
    (goes : (place.next dev).2.place = some .closeSignalWriter) : Closing place := by
  cases place <;> try trivial
  case readWait fd len =>
    rw [Place.next, readData] at goes
    split at goes <;> cases goes
  case writeWait fd ptr len =>
    rw [Place.next, writeData] at goes
    split at goes <;> cases goes
  case readNone | writeNone =>
    rw [Place.next] at goes
    split at goes
    · cases goes
    split at goes <;> cases goes
  all_goals cases goes

theorem first_cases {Device : Type} {call : Call Device} {position : Position Device}
    (begins : call.first = some position) :
    (∃ flags, position.place = .openLock flags) ∨ (∃ fd, position.place = .closeLock fd) ∨
      (∃ fd len, position.place = .readWait fd len) ∨
        ∃ fd ptr len, position.place = .writeWait fd ptr len ∧
          call = .namedFifoWrite position.device fd ptr len ∧
            accmode fd.fdFlags &&& fwrite ≠ 0 ∧ len ≠ 0 := by
  cases call with
  | namedFifoOpen device flags =>
      cases begins
      exact .inl ⟨flags, rfl⟩
  | namedFifoClose device fd =>
      cases begins
      exact .inr (.inl ⟨fd, rfl⟩)
  | namedFifoRead device fd len =>
      simp only [Call.first, beginRead] at begins
      split at begins
      · cases begins
      split at begins
      · cases begins
      · cases begins
        exact .inr (.inr (.inl ⟨fd, len, rfl⟩))
  | namedFifoWrite device fd ptr len =>
      simp only [Call.first, beginWrite] at begins
      split at begins
      · cases begins
      split at begins
      · cases begins
      · cases begins
        exact .inr (.inr (.inr ⟨fd, ptr, len, rfl, rfl, ‹_›, ‹_›⟩))

/-! ## The token is taken and given back -/

section

variable {Device : Type}

theorem onDevice_post {device other : Device} {operation : SemOp} {semaphore : Semaphore}
    (post : onDevice device operation = .post (other, semaphore)) :
    device = other ∧ operation = .post semaphore := by
  cases operation with
  | pend semaphore' => cases post
  | post semaphore' =>
      cases post
      exact ⟨rfl, rfl⟩

theorem onDevice_pend {device other : Device} {operation : SemOp} {semaphore : Semaphore}
    (pend : onDevice device operation = .pend (other, semaphore)) :
    device = other ∧ operation = .pend semaphore := by
  cases operation with
  | pend semaphore' =>
      cases pend
      exact ⟨rfl, rfl⟩
  | post semaphore' => cases pend

theorem BringsToken.cases {device : Device} {position : Position Device}
    (brings : BringsToken device position) :
    position.place = .closeSignalWriter ∨ Writing position.place := by
  obtain ⟨other, place⟩ := position
  obtain ⟨-, held⟩ := brings
  cases place <;> try cases held
  case closeSignalWriter => exact .inl rfl
  all_goals exact .inr trivial

variable [DecidableEq Device]

/-- Who takes the token brings it back. -/
theorem keeps_writer (device : Device) :
    Keeps program (device, Semaphore.semWriter) (BringsToken device) where
  pend := by
    rintro ⟨other, place⟩ memory pend
    obtain ⟨rfl, waits⟩ := onDevice_pend pend
    cases place <;> cases waits
    case writeWait fd ptr len =>
      have goes : (program.next ⟨other, .writeWait fd ptr len⟩ memory).2 =
          (writeData fd ptr len (memory other)).2.position other := rfl
      rw [goes]
      by_cases idle : Idle (memory other)
      · rw [writeData_idle idle]
        exact ⟨_, rfl, rfl, trivial⟩
      · obtain ⟨total, transfer⟩ := writeData_transfer fd ptr len idle
        rw [transfer]
        exact ⟨_, rfl, rfl, trivial⟩
  go := by
    rintro ⟨other, place⟩ memory ⟨rfl, holds⟩
    cases place <;> try cases holds
    case writeLock total => exact .inr ⟨⟨other, .writeSignalWriter total⟩, rfl, rfl, trivial⟩
    all_goals exact .inl rfl

/-- The token is with who takes it, or is made by a close. -/
theorem takes_writer (device : Device) :
    Takes program (device, Semaphore.semWriter) (BringsToken device)
      (fun position => position.device = device ∧ Closing position.place) where
  first := by
    rintro call position begins ⟨-, held⟩
    rcases first_cases begins with ⟨_, place⟩ | ⟨_, place⟩ | ⟨_, _, place⟩ | ⟨_, _, _, place, -⟩ <;>
    · rw [place] at held
      exact held
  go := by
    rintro ⟨other, place⟩ memory after goes brings
    obtain ⟨place', there, rfl⟩ := Option.map_eq_some_iff.mp goes
    obtain rfl : other = device := brings.1
    rcases brings.cases with closes | writing
    · exact .inr (.inr ⟨rfl, closing_before (there.trans (congrArg some closes))⟩)
    have before := writing_before there writing
    cases place with
    | writeWait fd ptr len => exact .inr (.inl rfl)
    | writeNone | writeLock | writeSignalWriter => exact .inl ⟨rfl, trivial⟩
    | writeSignalReader => cases there
    | _ => cases before

end

/-! ## Passes without a transfer -/

/-- The ring and its flag are left alone. -/
structure SameRing (dev next : NamedFifoDev) : Prop where
  read : next.readOffset = dev.readOffset
  write : next.writeOffset = dev.writeOffset
  full : next.flags.bufferFull = dev.flags.bufferFull
  capacity : next.capacity = dev.capacity

theorem SameRing.refl (dev : NamedFifoDev) : SameRing dev dev := ⟨rfl, rfl, rfl, rfl⟩

theorem SameRing.trans {next later : NamedFifoDev} (first : SameRing dev next)
    (second : SameRing next later) : SameRing dev later :=
  ⟨second.read.trans first.read, second.write.trans first.write, second.full.trans first.full,
    second.capacity.trans first.capacity⟩

/-- The counts and the other flags are no part of the ring. -/
theorem SameRing.of_counts (dev : NamedFifoDev) (readers writers : Nat) {flags : NamedFifoFlags}
    (full : flags.bufferFull = dev.flags.bufferFull) :
    SameRing dev { dev with readers := readers, writers := writers, flags := flags } :=
  ⟨rfl, rfl, full, rfl⟩

theorem SameRing.idle {next : NamedFifoDev} (same : SameRing dev next) (idle : Idle dev) :
    Idle next := by
  refine ⟨?_, same.full.trans idle.2⟩
  rw [same.read, same.write]
  exact idle.1

theorem sameRing_namedFifoOpen (dev : NamedFifoDev) (flags : Nat) :
    SameRing dev (namedFifoOpen dev flags) := by
  unfold namedFifoOpen
  split <;> split <;> exact ⟨rfl, rfl, rfl, rfl⟩

theorem sameRing_closeWriter (fd : AltFd) (dev : NamedFifoDev) :
    SameRing dev (closeWriter fd dev).1 := by
  unfold closeWriter
  split
  · simp only []
    split <;> exact .of_counts dev _ _ rfl
  · exact .refl dev

theorem sameRing_closeReader (fd : AltFd) (dev : NamedFifoDev) :
    SameRing dev (closeReader fd dev).1 := by
  unfold closeReader
  split
  · simp only []
    split
    · exact .of_counts dev _ _ rfl
    · exact (SameRing.of_counts dev _ _ rfl).trans (sameRing_closeWriter fd _)
  · exact sameRing_closeWriter fd dev

/-- At an idle FIFO the code behind a short place leaves the ring alone. -/
theorem sameRing_next (idle : Idle dev) {place : Place} (short : Short place) :
    SameRing dev (place.next dev).1 := by
  cases place <;> try cases short
  case openLock flags => exact sameRing_namedFifoOpen dev flags
  case closeLock fd => exact sameRing_closeReader fd dev
  case closeSignalReader fd => exact sameRing_closeWriter fd dev
  case readWait fd len =>
    rw [Place.next, readData, if_pos idle]
    exact .refl dev
  case writeWait fd ptr len =>
    rw [Place.next, writeData_idle idle]
    exact .refl dev
  case readNone | writeNone =>
    rw [Place.next]
    split
    · exact .refl dev
    · split <;> exact .refl dev
  all_goals exact .refl dev

/-- At an idle FIFO short places lead to short places. -/
theorem short_next (idle : Idle dev) {place after : Place} (short : Short place)
    (goes : (place.next dev).2.place = some after) : Short after := by
  cases place <;> try cases short
  case closeLock fd =>
    obtain ⟨place, onto, short, -⟩ := closeReader_short fd dev
    rw [Place.next, onto] at goes
    cases goes
    exact short
  case closeSignalReader fd =>
    obtain ⟨place, onto, short, -⟩ := closeWriter_short fd dev
    rw [Place.next, onto] at goes
    cases goes
    exact short
  case readWait fd len =>
    rw [Place.next, readData, if_pos idle] at goes
    cases goes
    trivial
  case writeWait fd ptr len =>
    rw [Place.next, writeData_idle idle] at goes
    cases goes
    trivial
  case readNone | writeNone =>
    rw [Place.next] at goes
    split at goes
    · cases goes
    split at goes
    · cases goes
    · cases goes
      trivial
  all_goals
    cases goes
    try trivial

/-- A writer that is not behind a transfer waits for the token, or is about to give it back. -/
theorem writing_short {place : Place} (writing : Writing place) (short : Short place) :
    (∃ fd ptr len, place = .writeWait fd ptr len) ∨
      ∃ fd ptr len, place = .writeNone fd ptr len := by
  cases place <;> try cases writing
  case writeWait fd ptr len => exact .inl ⟨fd, ptr, len, rfl⟩
  case writeNone fd ptr len => exact .inr ⟨fd, ptr, len, rfl⟩
  all_goals cases short

/-- Who posts the semaphore of writers without a transfer closes the FIFO or gives back. -/
theorem posting_short {place : Place} (posting : place.semOp = .post .semWriter)
    (short : Short place) :
    place = .closeSignalWriter ∨ ∃ fd ptr len, place = .writeNone fd ptr len := by
  cases place <;> try cases posting
  case closeSignalWriter => exact .inl rfl
  case writeNone fd ptr len => exact .inr ⟨fd, ptr, len, rfl⟩
  all_goals cases short

/-! ## Runs -/

theorem heldCount_idle (idle : Idle dev) : heldCount dev = 0 := by
  rw [heldCount, if_pos idle.1, idle.2]
  rfl

theorem SameRing.hasSpace {next : NamedFifoDev} (same : SameRing dev next)
    (space : HasSpace next) : HasSpace dev := by
  unfold HasSpace heldCount at space ⊢
  rw [same.read, same.write, same.full, same.capacity] at space
  exact space

section

variable {Thread Device : Type}

/-- A thread is not behind a transfer, and if it is a writer at a FIFO with space, the token
is there. -/
def Settled (state : World Thread Device) (position : Position Device) : Prop :=
  Short position.place ∧
    (Writing position.place → HasSpace (state.memory position.device) →
      TokenThere state position.device)

/-- Nothing has been transferred, and all threads inside are settled. -/
structure Quiet (state : World Thread Device) : Prop where
  idle : ∀ device, Idle (state.memory device)
  settled : ∀ thread position, state.places thread = some position → Settled state position

variable {state next : World Thread Device} {position : Position Device}

theorem quiet_start {memory : Device → NamedFifoDev} (idle : ∀ device, Idle (memory device)) :
    Quiet (start Thread memory) where
  idle := idle
  settled := nofun

theorem Settled.mono (settled : Settled state position)
    (same : SameRing (state.memory position.device) (next.memory position.device))
    (stays : TokenThere state position.device → TokenThere next position.device) :
    Settled next position :=
  ⟨settled.1, fun writing space => stays (settled.2 writing (same.hasSpace space))⟩

theorem settled_first {thread : Thread} {call : Call Device} (begins : call.first = some position)
    (supplied : Supplied state (.enter thread call)) : Settled state position := by
  unfold Settled
  rcases first_cases begins with ⟨_, place⟩ | ⟨_, place⟩ | ⟨_, _, place⟩ |
    ⟨fd, ptr, len, place, rfl, access, asked⟩
  case inr.inr.inr =>
    rw [place]
    exact ⟨trivial, fun _ space => supplied access asked space⟩
  all_goals
    rw [place]
    exact ⟨trivial, False.elim⟩

variable [DecidableEq Device]

/-- Who brings the token, and is not behind a transfer, posts it at once. -/
theorem bringsToken_passes {device : Device} (holds : BringsToken device position)
    (short : Short position.place) (tokens : Device × Semaphore → Nat) :
    ((@program Device _).operation position).Passes tokens := by
  obtain ⟨other, place⟩ := position
  obtain ⟨-, held⟩ := holds
  cases place <;> try cases held
  case closeSignalWriter => trivial
  case writeNone fd ptr len => trivial
  case writeLock total => cases short
  case writeSignalWriter total => cases short

theorem Quiet.not_deadlocked (quiet : Quiet state) : ¬Deadlocked state := by
  rintro ⟨blocked, thread, ⟨device, place⟩, here, ⟨writing, space⟩ | ⟨-, data⟩⟩
  · obtain ⟨short, supplied⟩ := quiet.settled thread _ here
    have free := blocked.free (supplied writing space) fun other position found holds =>
      bringsToken_passes holds (quiet.settled other position found).1 state.tokens
    obtain ⟨position, here', waits⟩ := blocked thread (by rw [here]; rfl)
    cases here.symm.trans here'
    obtain ⟨fd, ptr, len, rfl⟩ | ⟨fd, ptr, len, rfl⟩ := writing_short writing short
    · exact waits free
    · exact waits trivial
  · rw [HasData, heldCount_idle (quiet.idle device)] at data
    exact absurd data (Nat.lt_irrefl 0)

theorem Quiet.settled_next (quiet : Quiet state) {thread : Thread} {after : Position Device}
    (here : state.places thread = some position)
    (goes : (program.next position state.memory).2 = some after) : Settled state after := by
  obtain ⟨short, supplied⟩ := quiet.settled thread position here
  obtain ⟨place, there, rfl⟩ := Option.map_eq_some_iff.mp goes
  exact ⟨short_next (quiet.idle position.device) short there,
    fun writing => supplied (writing_before there writing)⟩

variable [DecidableEq Thread]

theorem Quiet.sameRing {event : Event Thread (Call Device)} (quiet : Quiet state)
    (taken : step program state event = some next) (device : Device) :
    SameRing (state.memory device) (next.memory device) := by
  rcases step_cases taken with ⟨thread, call, -, -, rfl⟩ | ⟨thread, position, -, here, -, rfl⟩
  · exact .refl _
  · have short := (quiet.settled thread position here).1
    have same := sameRing_next (quiet.idle position.device) short
    by_cases mine : device = position.device
    · subst mine
      have updated : ((state.proceed program thread position).memory position.device) =
          (position.place.next (state.memory position.device)).1 := Function.update_self ..
      rw [updated]
      exact same
    · have left : (state.proceed program thread position).memory device = state.memory device :=
        Function.update_of_ne mine ..
      rw [left]
      exact .refl _

/-- A step transfers nothing, and keeps all threads settled if it is supplied. -/
theorem Quiet.kept {event : Event Thread (Call Device)} (quiet : Quiet state)
    (supplied : Supplied state event) (taken : step program state event = some next) :
    Quiet next := by
  have same := quiet.sameRing taken
  have stays (device : Device) (there : TokenThere state device) : TokenThere next device :=
    (keeps_writer device).available there taken
  have settled (thread : Thread) (position : Position Device)
      (there : next.places thread = some position) : Settled state position := by
    rcases step_places taken there with stayed | ⟨call, rfl, begins⟩ | ⟨before, -, here, goes⟩
    · exact quiet.settled thread position stayed
    · exact settled_first begins supplied
    · exact quiet.settled_next here goes
  exact ⟨fun device => (same device).idle (quiet.idle device), fun thread position there =>
    (settled thread position there).mono (same position.device) (stays position.device)⟩

/-- The token of the writers comes from nowhere but a close. -/
theorem Quiet.token_source {event : Event Thread (Call Device)} (quiet : Quiet state)
    (taken : step program state event = some next) {device : Device}
    (there : TokenThere next device) :
    TokenThere state device ∨
      ∃ thread place, state.places thread = some ⟨device, place⟩ ∧ Closing place := by
  obtain before | ⟨thread, ⟨other, place⟩, here, posts | ⟨rfl, closing⟩⟩ :=
    (takes_writer device).source taken there
  · exact .inl before
  · obtain ⟨rfl, posting⟩ := onDevice_post posts
    obtain rfl | ⟨fd, ptr, len, rfl⟩ := posting_short posting (quiet.settled thread _ here).1
    · exact .inl (.inr ⟨thread, _, here, rfl, trivial⟩)
    · exact .inl (.inr ⟨thread, _, here, rfl, trivial⟩)
  · exact .inr ⟨thread, place, here, closing⟩

def Created (dev : NamedFifoDev) : Prop :=
  ∃ sizeofDev malloc name size, namedFifoCreate sizeofDev malloc name size = some dev

theorem Created.idle (created : Created dev) : Idle dev := by
  obtain ⟨sizeofDev, malloc, name, size, made⟩ := created
  obtain ⟨block, -, rfl⟩ := Option.map_eq_some_iff.mp made
  exact ⟨rfl, rfl⟩

/-- While writes are supplied, no run comes to a deadlock. -/
theorem never_deadlocked {memory : Device → NamedFifoDev}
    (created : ∀ device, Created (memory device)) {events : List (Event Thread (Call Device))}
    (supplied : Each (step program) Supplied (start Thread memory) events) :
    Always (step program) (fun state => ¬Deadlocked state) (start Thread memory) events :=
  (always_of_each (fun _ _ _ quiet supplied taken => quiet.kept supplied taken)
    (quiet_start fun device => (created device).idle) supplied).mono
      fun _ quiet => quiet.not_deadlocked

/-- A write that is not supplied, made while all others are blocked or outside, deadlocks. -/
theorem deadlocked_of_starved {event : Event Thread (Call Device)}
    (blocked : AllBlocked program state) (starved : ¬Supplied state event)
    (taken : step program state event = some next) : Deadlocked next := by
  rcases step_cases taken with ⟨thread, call, rfl, -, rfl⟩ | ⟨thread, position, rfl, -⟩
  case inr => exact absurd trivial starved
  cases call with
  | namedFifoOpen | namedFifoClose | namedFifoRead => exact absurd trivial starved
  | namedFifoWrite device fd ptr len =>
      simp only [Supplied, Classical.not_imp] at starved
      obtain ⟨access, asked, space, missing⟩ := starved
      have empty : ¬0 < state.tokens (device, .semWriter) := fun free => missing (.inl free)
      have begins : (@program Device _).first (.namedFifoWrite device fd ptr len) =
          some ⟨device, .writeWait fd ptr len⟩ := by
        simp only [program, Call.first, beginWrite, if_neg access, if_neg asked]
        rfl
      rw [begins]
      exact ⟨blocked.enter thread empty, thread, _, Function.update_self ..,
        .inl ⟨trivial, space⟩⟩

end

/-! ## A thread that writes -/

def smallest : NamedFifoDev where
  flags := ⟨false, false, false⟩
  readers := 0
  writers := 0
  capacity := namedFifoMinimumSize
  readOffset := 0
  writeOffset := 0
  buffer := fun _ => 0

theorem created_smallest : Created smallest :=
  ⟨80, fun _ => some fun _ => 0, .of [0x66] rfl, 0, rfl⟩

def writeOnly : Nat := 1 ||| oNonblock

def openWrite : List (Event Unit (Call Unit)) :=
  [.enter () (.namedFifoOpen () writeOnly), .go (), .go (),
    .enter () (.namedFifoWrite () ⟨writeOnly⟩ [0x61] 1)]

/-- The first thread opens and closes the FIFO, before it opens it again and writes to it. -/
def closeWrite : List (Event Unit (Call Unit)) :=
  [.enter () (.namedFifoOpen () writeOnly), .go (), .go (),
    .enter () (.namedFifoClose () ⟨writeOnly⟩), .go (), .go (), .go ()] ++ openWrite ++
      [.go (), .go ()]

/-- The write waits at the semaphore of writers, though the FIFO is empty. -/
theorem openWrite_deadlocks :
    ∃ state, run (step program) (start Unit fun _ : Unit => smallest) openWrite = some state ∧
      Deadlocked state := by
  refine ⟨_, rfl, fun thread _ => ⟨_, rfl, ?_⟩, (), _, rfl, .inl ⟨trivial, ?_⟩⟩
  · exact Nat.lt_irrefl 0
  · exact (by decide : 0 < 256)

theorem never_deadlocked_closeWrite :
    Always (step program) (fun state => ¬Deadlocked state) (start Unit fun _ : Unit => smallest)
      closeWrite := by
  refine never_deadlocked (fun _ => created_smallest) ?_
  iterate 10
    rintro _ ⟨⟩
    refine ⟨trivial, ?_⟩
  rintro _ ⟨⟩
  refine ⟨fun _ _ _ => .inl Nat.one_pos, ?_⟩
  iterate 2
    rintro _ ⟨⟩
    refine ⟨trivial, ?_⟩
  trivial

end PeridotSw.Fifo.Deadlock
