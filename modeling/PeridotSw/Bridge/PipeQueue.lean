import PeridotSw.Bridge.Pipe

/-!
# Pipes as queues

Whatever the order of the two callers' steps, the reader gets the bytes the sink has
accepted, in their order.  The sink's wake-ups are another matter: it decides to post by
the offsets it saw before it stored anything.
-/

namespace PeridotSw.Bridge.PipeQueue

open PeridotSw.Machine.Word
open PeridotSw.Machine.Ring
open PeridotSw.Machine.Transition
open PeridotSw.Machine.Memory
open PeridotSw.Bridge.Pipe

/-- The bytes stored from `read_offset` to `write_offset`. -/
def unread (capacity : PipeCapacity) (pipe : HostbridgePipe) : List UInt8 :=
  ringSlice pipe.buffer capacity.value pipe.readOffset
    ((pipe.writeOffset + capacity.value - pipe.readOffset) % capacity.value)

/-- Reads return a beginning of what the sink has accepted, the rest is in the ring, and
nothing that is about to happen changes a byte of it. -/
structure Lossless (capacity : PipeCapacity) (state : State) : Prop where
  order : state.returned <+: state.accepted
  rest : state.accepted.drop state.returned.length = unread capacity state.pipe
  room : (unread capacity state.pipe).length ≤ capacity.value - 1
  intact : ∀ action next, step capacity state action = some next →
    ∀ index < (unread capacity state.pipe).length,
      next.pipe.buffer ((state.pipe.readOffset + index) % capacity.value) =
        state.pipe.buffer ((state.pipe.readOffset + index) % capacity.value)

/-! ## The invariant -/

/-- What the sink saw: its own offset, and no fewer bytes than are unread now. -/
def SinkSane (capacity : PipeCapacity) (pipe : HostbridgePipe) (count : Nat) : SinkAt → Prop
  | .start ptr => 0 < ptr.length ∧ ptr.length < 2 ^ 31
  | .ready ptr readOffset writeOffset =>
      (0 < ptr.length ∧ ptr.length < 2 ^ 31) ∧
        ∃ place seen : Nat, readOffset = place ∧ writeOffset = pipe.writeOffset ∧
          Stretch capacity place pipe.writeOffset seen ∧ count ≤ seen
  | _ => True

/-- What the reader saw: its own offset, and no more bytes than are unread now. -/
def ReadSane (capacity : PipeCapacity) (pipe : HostbridgePipe) (count : Nat) : ReadAt → Prop
  | .start len => 0 < len ∧ len < 2 ^ 31
  | .ready len readOffset writeOffset =>
      (0 < len ∧ len < 2 ^ 31) ∧
        ∃ place seen : Nat, writeOffset = place ∧ readOffset = pipe.readOffset ∧
          Stretch capacity pipe.readOffset place seen ∧ seen ≤ count
  | .pending len => 0 < len ∧ len < 2 ^ 31
  | .idle => True

structure Queued (capacity : PipeCapacity) (state : State) (queue : List UInt8) : Prop where
  held : Held capacity state.pipe queue
  room : queue.length < capacity.value
  order : state.accepted = state.returned ++ queue
  sink : SinkSane capacity state.pipe queue.length state.sink
  reader : ReadSane capacity state.pipe queue.length state.reader

variable {capacity : PipeCapacity} {state next : State} {queue : List UInt8}

theorem Queued.unread_eq (queued : Queued capacity state queue) :
    unread capacity state.pipe = queue := by
  have bytes := queued.held.bytes
  have room := queued.room
  have start := queued.held.read_lt
  have stop := queued.held.write_lt
  have count : (state.pipe.writeOffset + capacity.value - state.pipe.readOffset) % capacity.value =
      queue.length := by
    rw [mod_turn (by omega)]
    rcases queued.held.offsets with straight | around
    · rw [if_neg (by omega)]
      omega
    · rw [if_pos (by omega)]
      omega
  rw [unread, count, bytes]

theorem queued_initial (buffer : Mem) : Queued capacity (initial buffer) [] where
  held := holding_nil buffer (Nat.lt_of_lt_of_le Nat.zero_lt_two capacity.two_le)
  room := Nat.lt_of_lt_of_le Nat.zero_lt_two capacity.two_le
  order := rfl
  sink := trivial
  reader := trivial

/-! ## Steps -/

theorem sinkCall_queued (queued : Queued capacity state queue) {ptr : List UInt8}
    (taken : sinkCall state ptr = some next) :
    Queued capacity next queue ∧ next.pipe = state.pipe := by
  unfold sinkCall at taken
  split at taken
  · split at taken
    · cases taken
      exact ⟨{ queued with sink := ‹_› }, rfl⟩
    · cases taken
  · cases taken

theorem sinkSnapshot_queued (queued : Queued capacity state queue)
    (taken : sinkSnapshot state = some next) :
    Queued capacity next queue ∧ next.pipe = state.pipe := by
  unfold sinkSnapshot at taken
  split at taken
  · rename_i ptr stands
    cases taken
    have size := queued.sink
    rw [stands] at size
    refine ⟨{ queued with
      sink := ⟨size, state.pipe.readOffset, queue.length, ?_, ?_, ?_, Nat.le_refl _⟩ }, rfl⟩
    · exact signed_of_lt capacity queued.held.read_lt
    · exact signed_of_lt capacity queued.held.write_lt
    · exact stretch_of_held queued.held queued.room
  · cases taken

theorem sinkCommit_stored (queued : Queued capacity state queue)
    (taken : sinkCommit capacity.value state = some next) :
    ∃ (ptr : List UInt8) (place seen count : Nat),
      state.sink = .ready ptr place state.pipe.writeOffset ∧ 0 < ptr.length ∧
      queue.length ≤ seen ∧ Stretch capacity place state.pipe.writeOffset seen ∧
      Stored capacity state.pipe queue ptr seen count next.pipe ∧
      next.accepted = state.accepted ++ ptr.take count ∧ next.returned = state.returned ∧
      next.reader = state.reader ∧
      next.sink = if place = state.pipe.writeOffset then .posting else .idle := by
  unfold sinkCommit at taken
  split at taken
  · rename_i ptr readOffset writeOffset stands
    have sane := queued.sink
    rw [stands] at sane
    obtain ⟨size, place, seen, rfl, rfl, stretch, fewer⟩ := sane
    obtain ⟨count, pipe, value, stored⟩ := pipeStore_eq queued.held stretch fewer size.2
    obtain ⟨free1, free2, offered, total, -, none⟩ := pipeFree_eq stretch
    have posts : ((pipeFree capacity.value place state.pipe.writeOffset).1 ≠ 0 ∧
        (place : Int) = state.pipe.writeOffset) ↔ place = state.pipe.writeOffset := by
      rw [offered]
      dsimp only
      have two := capacity.two_le
      have turn := stretch.turn
      have bound := stretch.count_lt
      constructor
      · omega
      · intro same
        refine ⟨fun full => ?_, by omega⟩
        have zero : free1 = 0 := by omega
        have nothing := none zero
        omega
    cases taken
    refine ⟨ptr, place, seen, count, stands, size.1, fewer, stretch, ?_, ?_, rfl, rfl, ?_⟩
    · rw [value]
      exact stored
    · have bound := stored.amount
      rw [value, unsigned_natCast (by omega)]
    · dsimp only
      simp only [posts]
  · cases taken

theorem sinkCommit_queued (queued : Queued capacity state queue)
    (taken : sinkCommit capacity.value state = some next) : ∃ more, Queued capacity next more := by
  obtain ⟨ptr, place, seen, count, -, -, fewer, stretch, stored, accepted, returned, reader, sink⟩ :=
    sinkCommit_stored queued taken
  have bound := stored.amount
  have limit := stretch.count_lt
  have size : (queue ++ ptr.take count).length = queue.length + count := by
    rw [List.length_append, List.length_take]
    omega
  refine ⟨queue ++ ptr.take count, ?_⟩
  exact
    { held := stored.held
      room := by omega
      order := by rw [accepted, returned, queued.order, List.append_assoc]
      sink := by
        rw [sink]
        split <;> trivial
      reader := by
        have sane := queued.reader
        rw [reader, size]
        cases stands : state.reader with
        | idle => trivial
        | start len =>
            rw [stands] at sane
            exact sane
        | pending len =>
            rw [stands] at sane
            exact sane
        | ready len readOffset writeOffset =>
            rw [stands] at sane
            obtain ⟨positive, other, before, same, mine, seen, most⟩ := sane
            rw [← stored.sameRead] at mine seen
            exact ⟨positive, other, before, same, mine, seen, by omega⟩ }

theorem sinkPost_queued (queued : Queued capacity state queue)
    (taken : sinkPost state = some next) :
    Queued capacity next queue ∧ next.pipe.buffer = state.pipe.buffer := by
  unfold sinkPost at taken
  split at taken
  · cases taken
    exact ⟨⟨queued.held, queued.room, queued.order, trivial, queued.reader⟩, rfl⟩
  · cases taken

theorem readCall_queued (queued : Queued capacity state queue) {len : Int}
    (taken : readCall state len = some next) :
    Queued capacity next queue ∧ next.pipe = state.pipe := by
  unfold readCall at taken
  split at taken
  · split at taken
    · cases taken
      exact ⟨{ queued with reader := ‹_› }, rfl⟩
    · cases taken
  · cases taken

/-- The reader goes to wait only when it has seen an empty ring. -/
theorem readSnapshot_queued (queued : Queued capacity state queue)
    (taken : readSnapshot capacity.value state = some next) :
    Queued capacity next queue ∧ next.pipe = state.pipe ∧ next.sink = state.sink ∧
      ((∃ len, next.reader = .pending len) → queue = []) := by
  unfold readSnapshot at taken
  split at taken
  · rename_i len stands
    have sane := queued.reader
    rw [stands] at sane
    have stretch := stretch_of_held queued.held queued.room
    obtain ⟨avail1, avail2, offered, total, pieces⟩ := pipeAvail_eq stretch
    rw [signed_of_lt capacity queued.held.read_lt, signed_of_lt capacity queued.held.write_lt] at taken
    dsimp only at taken
    rw [offered] at taken
    dsimp only at taken
    have turn := stretch.turn
    have bound := stretch.count_lt
    have write_lt := stretch.write_lt
    cases taken
    by_cases empty : (state.pipe.readOffset : Int) ≤ state.pipe.writeOffset ∧ (avail1 : Int) = 0
    · refine ⟨{ queued with reader := ?_ }, rfl, rfl, fun _ => ?_⟩
      · rw [if_pos empty]
        exact sane
      · have wraps := pieces.wraps
        exact List.length_eq_zero_iff.mp (by omega)
    · refine ⟨{ queued with reader := ?_ }, rfl, rfl, ?_⟩
      · rw [if_neg empty]
        exact ⟨sane, state.pipe.writeOffset, queue.length, rfl, rfl, stretch, Nat.le_refl _⟩
      · rintro ⟨other, waits⟩
        rw [if_neg empty] at waits
        cases waits
  · cases taken

theorem readCommit_queued (queued : Queued capacity state queue)
    (taken : readCommit capacity.value state = some next) :
    ∃ less, Queued capacity next less ∧ next.pipe.buffer = state.pipe.buffer := by
  unfold readCommit at taken
  split at taken
  · rename_i len readOffset writeOffset stands
    have sane := queued.reader
    rw [stands] at sane
    obtain ⟨⟨positive, fits⟩, place, seen, rfl, rfl, stretch, fewer⟩ := sane
    obtain ⟨length, rfl⟩ := Int.eq_ofNat_of_zero_le (Int.le_of_lt positive)
    obtain ⟨pipe, value, held, sameWrite, sameSem⟩ :=
      @pipeFetch_eq capacity _ _ _ _ length queued.held stretch fewer (by omega)
    have size : (queue.drop (min length seen)).length = queue.length - min length seen :=
      List.length_drop
    have room := queued.room
    have same : (pipeFetch capacity.value state.pipe length state.pipe.readOffset place).2.buffer =
        state.pipe.buffer := rfl
    cases taken
    refine ⟨queue.drop (min length seen), ?_, same⟩
    rw [value]
    exact
      { held := held
        room := by omega
        order := by
          dsimp only
          rw [queued.order, List.append_assoc, List.take_append_drop]
        sink := by
          have sane := queued.sink
          dsimp only
          rw [size]
          cases sinkAt : state.sink with
          | idle => trivial
          | posting => trivial
          | start ptr =>
              rw [sinkAt] at sane
              exact sane
          | ready ptr readOffset writeOffset =>
              rw [sinkAt] at sane
              obtain ⟨size, other, before, same, mine, saw, most⟩ := sane
              rw [← sameWrite] at mine saw
              exact ⟨size, other, before, same, mine, saw, by omega⟩
        reader := trivial }
  · cases taken

theorem readPend_queued (queued : Queued capacity state queue)
    (taken : readPend state = some next) :
    Queued capacity next queue ∧ next.pipe.buffer = state.pipe.buffer := by
  unfold readPend at taken
  split at taken
  · rename_i len stands
    have sane := queued.reader
    rw [stands] at sane
    split at taken
    · cases taken
      exact ⟨⟨queued.held, queued.room, queued.order, queued.sink, sane⟩, rfl⟩
    · cases taken
  · cases taken

/-- A step keeps the invariant and every unread byte. -/
theorem step_queued (queued : Queued capacity state queue) {action : Action}
    (taken : step capacity state action = some next) :
    (∃ other, Queued capacity next other) ∧
      ∀ index < queue.length,
        next.pipe.buffer ((state.pipe.readOffset + index) % capacity.value) =
          state.pipe.buffer ((state.pipe.readOffset + index) % capacity.value) := by
  cases action with
  | sinkCall ptr =>
      obtain ⟨after, same⟩ := sinkCall_queued queued taken
      exact ⟨⟨queue, after⟩, fun _ _ => by rw [same]⟩
  | sinkSnapshot =>
      obtain ⟨after, same⟩ := sinkSnapshot_queued queued taken
      exact ⟨⟨queue, after⟩, fun _ _ => by rw [same]⟩
  | sinkCommit =>
      obtain ⟨_, _, _, _, -, -, -, -, stored, -⟩ := sinkCommit_stored queued taken
      exact ⟨sinkCommit_queued queued taken, stored.intact⟩
  | sinkPost =>
      obtain ⟨after, same⟩ := sinkPost_queued queued taken
      exact ⟨⟨queue, after⟩, fun _ _ => by rw [same]⟩
  | readCall len =>
      obtain ⟨after, same⟩ := readCall_queued queued taken
      exact ⟨⟨queue, after⟩, fun _ _ => by rw [same]⟩
  | readSnapshot =>
      obtain ⟨after, same, -⟩ := readSnapshot_queued queued taken
      exact ⟨⟨queue, after⟩, fun _ _ => by rw [same]⟩
  | readCommit =>
      obtain ⟨less, after, same⟩ := readCommit_queued queued taken
      exact ⟨⟨less, after⟩, fun _ _ => by rw [same]⟩
  | readPend =>
      obtain ⟨after, same⟩ := readPend_queued queued taken
      exact ⟨⟨queue, after⟩, fun _ _ => by rw [same]⟩

theorem Queued.lossless (queued : Queued capacity state queue) : Lossless capacity state where
  order := ⟨queue, queued.order.symm⟩
  rest := by rw [queued.order, List.drop_left, queued.unread_eq]
  room := by
    rw [queued.unread_eq]
    exact Nat.le_sub_one_of_lt queued.room
  intact action next taken index inside := by
    rw [queued.unread_eq] at inside
    exact (step_queued queued taken).2 index inside

/-- In every state of every run the pipe has lost nothing. -/
theorem hostbridgePipe_lossless (capacity : PipeCapacity) (buffer : Mem) (actions : List Action) :
    Always (step capacity) (Lossless capacity) (initial buffer) actions := by
  have kept (state : State) (action : Action) (next : State)
      (holds : ∃ queue, Queued capacity state queue)
      (taken : step capacity state action = some next) : ∃ queue, Queued capacity next queue := by
    obtain ⟨queue, queued⟩ := holds
    exact (step_queued queued taken).1
  exact (always_of_kept kept ⟨[], queued_initial buffer⟩ actions).mono
    fun state ⟨queue, queued⟩ => queued.lossless

/-! ## Wake-ups -/

/-- The reader sleeps although there is something to read, and no sink is about to post. -/
def LostWakeup (state : State) : Prop :=
  (∃ len, state.reader = .pending len) ∧ state.pipe.semRead = 0 ∧
    state.pipe.readOffset ≠ state.pipe.writeOffset ∧ state.sink = .idle

/-- A commit, by a sink that saw unread bytes and room for more, after the reader has
emptied the ring and gone to sleep. -/
def Unheard (capacity : PipeCapacity) (state : State) (action : Action) : Prop :=
  action = .sinkCommit ∧
    (∃ ptr readOffset writeOffset, state.sink = .ready ptr readOffset writeOffset ∧
      readOffset ≠ writeOffset ∧ (pipeFree capacity.value readOffset writeOffset).1 ≠ 0) ∧
    (∃ len, state.reader = .pending len) ∧ state.pipe.semRead = 0 ∧
    state.pipe.readOffset = state.pipe.writeOffset

/-- A reader that waits finds an empty ring, a token, or a sink that will post one. -/
structure Awake (capacity : PipeCapacity) (state : State) (queue : List UInt8) : Prop where
  queued : Queued capacity state queue
  heard : (∃ len, state.reader = .pending len) →
    queue = [] ∨ 0 < state.pipe.semRead ∨ state.sink = .posting

theorem Queued.empty_iff (queued : Queued capacity state queue) :
    queue = [] ↔ state.pipe.readOffset = state.pipe.writeOffset := by
  have offsets := queued.held.offsets
  have room := queued.room
  have read_lt := queued.held.read_lt
  rw [← List.length_eq_zero_iff]
  omega

theorem Awake.not_lost (awake : Awake capacity state queue) : ¬LostWakeup state := by
  rintro ⟨waits, none, unequal, idle⟩
  rcases awake.heard waits with empty | token | posting
  · exact unequal (awake.queued.empty_iff.mp empty)
  · omega
  · rw [idle] at posting
    cases posting

theorem awake_of_same (awake : Awake capacity state queue) (queued : Queued capacity next queue)
    (pipe : next.pipe = state.pipe) (reader : next.reader = state.reader)
    (busy : state.sink ≠ .posting) : Awake capacity next queue := by
  refine ⟨queued, fun waits => ?_⟩
  rw [reader] at waits
  rw [pipe]
  rcases awake.heard waits with empty | token | posting
  · exact .inl empty
  · exact .inr (.inl token)
  · exact absurd posting busy

/-- A commit that somebody hears keeps the reader awake. -/
theorem sinkCommit_awake (awake : Awake capacity state queue)
    (heard : ¬Unheard capacity state .sinkCommit)
    (taken : sinkCommit capacity.value state = some next) :
    ∃ more, Awake capacity next more := by
  obtain ⟨ptr, place, seen, count, ready, positive, fewer, stretch, stored, accepted, returned,
    reader, sink⟩ := sinkCommit_stored awake.queued taken
  obtain ⟨more, queued⟩ := sinkCommit_queued awake.queued taken
  refine ⟨more, queued, fun waits => ?_⟩
  rw [reader] at waits
  by_cases posts : place = state.pipe.writeOffset
  · rw [sink, if_pos posts]
    exact .inr (.inr rfl)
  · rw [stored.sameSem]
    by_cases token : 0 < state.pipe.semRead
    · exact .inr (.inl token)
    · have empty : queue = [] := by
        rcases awake.heard waits with empty | other | posting
        · exact empty
        · exact absurd other token
        · rw [ready] at posting
          cases posting
      have full : (pipeFree capacity.value place state.pipe.writeOffset).1 = 0 := by
        by_contra room
        exact heard ⟨rfl, ⟨ptr, place, _, ready, by omega, room⟩, waits, by omega,
          awake.queued.empty_iff.mp empty⟩
      obtain ⟨free1, free2, offered, total, -, none⟩ := pipeFree_eq stretch
      rw [offered] at full
      dsimp only at full
      have nothing := none (by omega)
      have amount := stored.amount
      have same : next.pipe.writeOffset = state.pipe.writeOffset := by
        have before := awake.queued.held.write_eq
        have after := stored.held.write_eq
        have zero : count = 0 := by omega
        rw [zero, List.take_zero, List.append_nil, stored.sameRead] at after
        exact after.trans before.symm
      left
      rw [queued.empty_iff, same, stored.sameRead]
      exact awake.queued.empty_iff.mp empty

theorem step_awake (awake : Awake capacity state queue) {action : Action}
    (heard : ¬Unheard capacity state action) (taken : step capacity state action = some next) :
    ∃ other, Awake capacity next other := by
  have queued := awake.queued
  cases action with
  | sinkCall ptr =>
      obtain ⟨after, -⟩ := sinkCall_queued queued taken
      simp only [step, sinkCall] at taken
      split at taken
      · rename_i idle
        split at taken
        · cases taken
          exact ⟨queue, awake_of_same awake after rfl rfl (by rw [idle]; nofun)⟩
        · cases taken
      · cases taken
  | sinkSnapshot =>
      obtain ⟨after, -⟩ := sinkSnapshot_queued queued taken
      simp only [step, sinkSnapshot] at taken
      split at taken
      · rename_i start
        cases taken
        exact ⟨queue, awake_of_same awake after rfl rfl (by rw [start]; nofun)⟩
      · cases taken
  | sinkCommit => exact sinkCommit_awake awake heard taken
  | sinkPost =>
      obtain ⟨after, -⟩ := sinkPost_queued queued taken
      simp only [step, sinkPost] at taken
      split at taken
      · cases taken
        exact ⟨queue, after, fun _ => .inr (.inl (Nat.succ_pos _))⟩
      · cases taken
  | readCall len =>
      obtain ⟨after, -⟩ := readCall_queued queued taken
      simp only [step, readCall] at taken
      split at taken
      · split at taken
        · cases taken
          exact ⟨queue, after, nofun⟩
        · cases taken
      · cases taken
  | readSnapshot =>
      obtain ⟨after, -, -, empty⟩ := readSnapshot_queued queued taken
      exact ⟨queue, after, fun waits => .inl (empty waits)⟩
  | readCommit =>
      obtain ⟨less, after, -⟩ := readCommit_queued queued taken
      simp only [step, readCommit] at taken
      split at taken
      · cases taken
        exact ⟨less, after, nofun⟩
      · cases taken
  | readPend =>
      obtain ⟨after, -⟩ := readPend_queued queued taken
      simp only [step, readPend] at taken
      split at taken
      · split at taken
        · cases taken
          exact ⟨queue, after, nofun⟩
        · cases taken
      · cases taken

/-- An unheard commit leaves the reader asleep with something to read. -/
theorem lost_of_unheard (awake : Awake capacity state queue) {action : Action}
    (unheard : Unheard capacity state action) (taken : step capacity state action = some next) :
    LostWakeup next := by
  obtain ⟨rfl, ⟨ptr, readOffset, writeOffset, ready, stale, room⟩, waits, none, empty⟩ := unheard
  obtain ⟨ptr', place, seen, count, ready', positive, fewer, stretch, stored, accepted, returned,
    reader, sink⟩ := sinkCommit_stored awake.queued taken
  rw [ready] at ready'
  cases ready'
  obtain ⟨more, queued⟩ := sinkCommit_queued awake.queued taken
  obtain ⟨free1, free2, offered, total, -, -⟩ := pipeFree_eq stretch
  rw [offered] at room
  dsimp only at room
  have nothing := awake.queued.empty_iff.mpr empty
  have amount := stored.amount
  have held := stored.held
  rw [nothing, List.nil_append] at held
  have size : (ptr.take count).length = count := by
    rw [List.length_take]
    omega
  have offsets := held.offsets
  have bound := held.write_lt
  rw [size] at offsets
  refine ⟨?_, ?_, ?_, ?_⟩
  · rw [reader]
    exact waits
  · rw [stored.sameSem]
    exact none
  · omega
  · rw [sink, if_neg (by omega)]

/-- The reader is never left asleep exactly as long as no commit goes unheard. -/
theorem hostbridgePipe_wakeups_iff (capacity : PipeCapacity) (buffer : Mem)
    (actions : List Action) :
    Always (step capacity) (¬LostWakeup ·) (initial buffer) actions ↔
      Each (step capacity) (¬Unheard capacity · ·) (initial buffer) actions := by
  refine @always_iff_each _ _ _ _ (fun state => ∃ queue, Awake capacity state queue) _
    ?_ ?_ ?_ _ ⟨[], queued_initial buffer, nofun⟩ actions
  · rintro state action next ⟨queue, awake⟩ heard taken
    exact step_awake awake heard taken
  · rintro state ⟨queue, awake⟩
    exact awake.not_lost
  · rintro state action next ⟨queue, awake⟩ unheard taken
    exact not_not.mpr (lost_of_unheard awake (not_not.mp unheard) taken)

/-- The reader empties the ring between the two halves of the sink's second write. -/
def sleepyRun : List Action :=
  [.readCall 1, .readSnapshot, .sinkCall [0x41], .sinkSnapshot, .sinkCommit, .sinkPost,
    .readPend, .readSnapshot, .sinkCall [0x42], .sinkSnapshot, .readCommit, .readCall 1,
    .readSnapshot, .sinkCommit]

def twoBytes : PipeCapacity := ⟨4, 2, by decide, by decide, rfl⟩

/-- A run that leaves the reader asleep in front of a byte. -/
theorem lostWakeup_sleepyRun :
    ∃ state, run (step twoBytes) (initial fun _ => 0) sleepyRun = some state ∧
      LostWakeup state := by
  refine ⟨_, rfl, ⟨1, rfl⟩, rfl, ?_, rfl⟩
  decide

end PeridotSw.Bridge.PipeQueue
