import PeridotSw.Machine.Ring
import PeridotSw.Machine.Transition

/-!
# Pipes

A pipe is a ring between the bridge, which fills it through `hostbridge_pipe_sink`, and a
reader of a file descriptor.  Both sides look at the offsets under `sem_lock` and act on
what they saw later, without it.  One byte of the ring stays unused, so that equal offsets
mean an empty ring.
-/

namespace PeridotSw.Bridge.Pipe

open PeridotSw.Machine.Memory
open PeridotSw.Machine.Word
open PeridotSw.Machine.Ring

/-- A capacity, as a `size_t`. -/
structure PipeCapacity where
  value : Nat
  log : Nat
  log_pos : 0 < log
  log_lt : log < 32
  value_eq : value = 2 ^ log

/-- The part of `hostbridge_pipe` that changes; `buffer` is the memory behind the structure. -/
structure HostbridgePipe where
  semRead : Nat
  readOffset : Nat
  writeOffset : Nat
  buffer : Mem

/-- Where the caller of `hostbridge_pipe_sink` is. -/
inductive SinkAt where
  | idle
  | start (ptr : List UInt8)
  | ready (ptr : List UInt8) (readOffset writeOffset : Int)
  | posting

/-- Where the caller of `hostbridge_pipe_read` is. -/
inductive ReadAt where
  | idle
  | start (len : Int)
  | ready (len readOffset writeOffset : Int)
  | pending (len : Int)

/-- `avail1` and `avail2` of a read. -/
def pipeAvail (capacity : Nat) (readOffset writeOffset : Int) : Int × Int :=
  if readOffset ≤ writeOffset then
    (wrap (writeOffset - readOffset), 0)
  else
    (wrap (capacity - readOffset), writeOffset)

/-- `free1` and `free2` of a write. -/
def pipeFree (capacity : Nat) (readOffset writeOffset : Int) : Int × Int :=
  if readOffset ≤ writeOffset then
    let free1 := wrap (capacity - writeOffset)
    let free2 := wrap (readOffset - 1)
    if free2 < 0 then (wrap (free1 - 1), 0) else (free1, free2)
  else
    (wrap (wrap (readOffset - writeOffset) - 1), 0)

/-- The offset behind a transfer in two pieces. -/
def pipeAdvance (capacity : Nat) (offset piece1 piece2 : Int) : Nat :=
  if 0 < piece2 then unsigned piece2
  else unsigned (wrap (offset + piece1)) &&& unsigned (capacity - 1)

/-- The reader's copy and update: the bytes copied and the pipe. -/
def pipeFetch (capacity : Nat) (pipe : HostbridgePipe) (len readOffset writeOffset : Int) :
    List UInt8 × HostbridgePipe :=
  let avail := pipeAvail capacity readOffset writeOffset
  let pieces := adjust len avail.1 avail.2
  (slice pipe.buffer (unsigned readOffset) (unsigned pieces.1) ++
      if 0 < pieces.2 then slice pipe.buffer 0 (unsigned pieces.2) else [],
    { pipe with readOffset := pipeAdvance capacity readOffset pieces.1 pieces.2 })

/-- The sink's copy and update: the number of bytes taken and the pipe. -/
def pipeStore (capacity : Nat) (pipe : HostbridgePipe) (ptr : List UInt8)
    (readOffset writeOffset : Int) : Int × HostbridgePipe :=
  let free := pipeFree capacity readOffset writeOffset
  if free.1 = 0 then
    (0, pipe)
  else
    let pieces := adjust ptr.length free.1 free.2
    let first := write pipe.buffer (unsigned writeOffset) (ptr.take (unsigned pieces.1))
    (wrap (pieces.1 + pieces.2),
      { pipe with
        buffer :=
          if 0 < pieces.2 then
            write first 0 ((ptr.drop (unsigned pieces.1)).take (unsigned pieces.2))
          else
            first
        writeOffset := pipeAdvance capacity writeOffset pieces.1 pieces.2 })

/-- A pipe between two callers, with the bytes taken and given out so far. -/
structure State where
  pipe : HostbridgePipe
  sink : SinkAt
  reader : ReadAt
  accepted : List UInt8
  returned : List UInt8

inductive Action where
  | sinkCall (ptr : List UInt8)
  | sinkSnapshot
  | sinkCommit
  | sinkPost
  | readCall (len : Int)
  | readSnapshot
  | readCommit
  | readPend

/-! ## Steps of the sink -/

def sinkCall (state : State) (ptr : List UInt8) : Option State :=
  match state.sink with
  | .idle =>
      if 0 < ptr.length ∧ ptr.length < 2 ^ 31 then
        some { state with sink := .start ptr }
      else
        none
  | _ => none

def sinkSnapshot (state : State) : Option State :=
  match state.sink with
  | .start ptr =>
      some { state with
        sink := .ready ptr (signed state.pipe.readOffset) (signed state.pipe.writeOffset) }
  | _ => none

/-- The sink posts if there was room and the ring was empty when it looked. -/
def sinkCommit (capacity : Nat) (state : State) : Option State :=
  match state.sink with
  | .ready ptr readOffset writeOffset =>
      let stored := pipeStore capacity state.pipe ptr readOffset writeOffset
      let posts := (pipeFree capacity readOffset writeOffset).1 ≠ 0 ∧ readOffset = writeOffset
      some { state with
        pipe := stored.2
        sink := if posts then .posting else .idle
        accepted := state.accepted ++ ptr.take (unsigned stored.1) }
  | _ => none

def sinkPost (state : State) : Option State :=
  match state.sink with
  | .posting =>
      some { state with
        pipe := { state.pipe with semRead := state.pipe.semRead + 1 }
        sink := .idle }
  | _ => none

/-! ## Steps of the reader -/

def readCall (state : State) (len : Int) : Option State :=
  match state.reader with
  | .idle =>
      if 0 < len ∧ len < 2 ^ 31 then some { state with reader := .start len } else none
  | _ => none

def readSnapshot (capacity : Nat) (state : State) : Option State :=
  match state.reader with
  | .start len =>
      let readOffset := signed state.pipe.readOffset
      let writeOffset := signed state.pipe.writeOffset
      let empty :=
        readOffset ≤ writeOffset ∧ (pipeAvail capacity readOffset writeOffset).1 = 0
      some { state with
        reader := if empty then .pending len else .ready len readOffset writeOffset }
  | _ => none

def readCommit (capacity : Nat) (state : State) : Option State :=
  match state.reader with
  | .ready len readOffset writeOffset =>
      let fetched := pipeFetch capacity state.pipe len readOffset writeOffset
      some { state with
        pipe := fetched.2
        reader := .idle
        returned := state.returned ++ fetched.1 }
  | _ => none

def readPend (state : State) : Option State :=
  match state.reader with
  | .pending len =>
      if 0 < state.pipe.semRead then
        some { state with
          pipe := { state.pipe with semRead := state.pipe.semRead - 1 }
          reader := .start len }
      else
        none
  | _ => none

def step (capacity : PipeCapacity) (state : State) : Action → Option State
  | .sinkCall ptr => sinkCall state ptr
  | .sinkSnapshot => sinkSnapshot state
  | .sinkCommit => sinkCommit capacity.value state
  | .sinkPost => sinkPost state
  | .readCall len => readCall state len
  | .readSnapshot => readSnapshot capacity.value state
  | .readCommit => readCommit capacity.value state
  | .readPend => readPend state

def initial (buffer : Mem) : State where
  pipe := ⟨0, 0, 0, buffer⟩
  sink := .idle
  reader := .idle
  accepted := []
  returned := []

/-! ## Transfers -/

variable {capacity : PipeCapacity}

theorem PipeCapacity.two_le (capacity : PipeCapacity) : 2 ≤ capacity.value := by
  have low := Nat.pow_le_pow_right (n := 2) (by decide) capacity.log_pos
  rw [← capacity.value_eq] at low
  exact low

theorem PipeCapacity.value_le (capacity : PipeCapacity) : capacity.value ≤ 2 ^ 31 := by
  have high := capacity.log_lt
  rw [capacity.value_eq]
  exact Nat.pow_le_pow_right (by decide) (by omega)

/-- Two offsets with `count` bytes from the first to the second. -/
structure Stretch (capacity : PipeCapacity) (read write count : Nat) : Prop where
  read_lt : read < capacity.value
  write_lt : write < capacity.value
  count_lt : count < capacity.value
  turn : write = read + count ∨ write + capacity.value = read + count

/-- The offset behind a transfer is the one so many places on. -/
theorem pipeAdvance_eq {offset first second : Nat}
    (pieces : Pieces capacity.value offset first second)
    (room : first + second < capacity.value) :
    pipeAdvance capacity.value offset first second =
      (offset + (first + second)) % capacity.value := by
  have high := capacity.value_le
  have start := pieces.start_lt
  have inside := pieces.inside
  unfold pipeAdvance
  split
  · have turned : offset + first = capacity.value := pieces.wraps.resolve_left (by omega)
    rw [unsigned_natCast (by omega), ← Nat.add_assoc, turned, Nat.add_mod_left,
      Nat.mod_eq_of_lt (by omega)]
  · have none : second = 0 := by omega
    rw [unsigned_wrap, ← Int.natCast_add, unsigned_natCast (by omega),
      unsigned_pred (by omega) (by omega), and_pred_eq_mod capacity.value_eq, none, Nat.add_zero]

theorem pipeAvail_eq {read write count : Nat} (stretch : Stretch capacity read write count) :
    ∃ avail1 avail2 : Nat, pipeAvail capacity.value read write = (↑avail1, ↑avail2) ∧
      avail1 + avail2 = count ∧ Pieces capacity.value read avail1 avail2 := by
  obtain ⟨read_lt, write_lt, count_lt, turn⟩ := stretch
  have high := capacity.value_le
  unfold pipeAvail
  split
  · rw [wrap_of_range (by omega) (by omega), ← Int.ofNat_sub (by omega)]
    exact ⟨write - read, 0, rfl, by omega, read_lt, by omega, by omega, .inl rfl⟩
  · rw [wrap_of_range (by omega) (by omega), ← Int.ofNat_sub (by omega)]
    exact ⟨capacity.value - read, write, rfl, by omega, read_lt, by omega, by omega,
      .inr (by omega)⟩

/-- One place of the ring is never offered. -/
theorem pipeFree_eq {read write count : Nat} (stretch : Stretch capacity read write count) :
    ∃ free1 free2 : Nat, pipeFree capacity.value read write = (↑free1, ↑free2) ∧
      free1 + free2 + count + 1 = capacity.value ∧
      Pieces capacity.value write free1 free2 ∧ (free1 = 0 → free2 = 0) := by
  obtain ⟨read_lt, write_lt, count_lt, turn⟩ := stretch
  have high := capacity.value_le
  have one : wrap (wrap ((capacity.value : Int) - write) - 1) =
      ((capacity.value - write - 1 : Nat) : Int) := by
    unfold wrap signed unsigned
    omega
  unfold pipeFree
  dsimp only
  split
  · rw [@wrap_of_range ((read : Int) - 1) (by omega) (by omega)]
    split
    · rw [one]
      exact ⟨capacity.value - write - 1, 0, rfl, by omega, ⟨write_lt, by omega, by omega, .inl rfl⟩,
        fun _ => rfl⟩
    · rw [wrap_of_range (by omega) (by omega), ← Int.ofNat_sub (by omega),
        show (read : Int) - 1 = ((read - 1 : Nat) : Int) by omega]
      exact ⟨capacity.value - write, read - 1, rfl, by omega,
        ⟨write_lt, by omega, by omega, .inr (by omega)⟩, by omega⟩
  · have gap : wrap ((read : Int) - write) = ((read - write : Nat) : Int) := by
      rw [wrap_of_range (by omega) (by omega)]
      omega
    rw [gap, wrap_of_range (by omega) (by omega),
      show ((read - write : Nat) : Int) - 1 = ((read - write - 1 : Nat) : Int) by omega]
    exact ⟨read - write - 1, 0, rfl, by omega, ⟨write_lt, by omega, by omega, .inl rfl⟩,
      fun _ => rfl⟩

theorem signed_of_lt (capacity : PipeCapacity) {offset : Nat} (inside : offset < capacity.value) :
    signed offset = offset :=
  signed_eq_of_lt (Nat.lt_of_lt_of_le inside capacity.value_le)

abbrev Held (capacity : PipeCapacity) (pipe : HostbridgePipe) (unread : List UInt8) : Prop :=
  Holding pipe.buffer capacity.value pipe.readOffset pipe.writeOffset unread

theorem stretch_of_held {pipe : HostbridgePipe} {unread : List UInt8}
    (held : Held capacity pipe unread) (room : unread.length < capacity.value) :
    Stretch capacity pipe.readOffset pipe.writeOffset unread.length where
  read_lt := held.read_lt
  write_lt := held.write_lt
  count_lt := room
  turn := held.offsets

/-- A write by a snapshot taken when `seen` bytes were unread, of which some may have been
read since. -/
structure Stored (capacity : PipeCapacity) (pipe : HostbridgePipe) (unread ptr : List UInt8)
    (seen count : Nat) (next : HostbridgePipe) : Prop where
  amount : count = min ptr.length (capacity.value - 1 - seen)
  held : Held capacity next (unread ++ ptr.take count)
  sameRead : next.readOffset = pipe.readOffset
  sameSem : next.semRead = pipe.semRead
  intact : ∀ index < unread.length,
    next.buffer ((pipe.readOffset + index) % capacity.value) =
      pipe.buffer ((pipe.readOffset + index) % capacity.value)

theorem pipeStore_eq {pipe : HostbridgePipe} {unread ptr : List UInt8} {place seen : Nat}
    (held : Held capacity pipe unread) (stretch : Stretch capacity place pipe.writeOffset seen)
    (fewer : unread.length ≤ seen) (fits : ptr.length < 2 ^ 31) :
    ∃ (count : Nat) (next : HostbridgePipe),
      pipeStore capacity.value pipe ptr place pipe.writeOffset = (↑count, next) ∧
      Stored capacity pipe unread ptr seen count next := by
  obtain ⟨free1, free2, offered, total, stretches, none⟩ := pipeFree_eq stretch
  have high := capacity.value_le
  unfold pipeStore
  dsimp only
  rw [offered]
  dsimp only
  by_cases full : free1 = 0
  · rw [if_pos (by omega)]
    refine ⟨0, pipe, rfl, ?_⟩
    exact
      { amount := by
          have nothing := none full
          omega
        held := by
          rw [List.take_zero, List.append_nil]
          exact held
        sameRead := rfl
        sameSem := rfl
        intact := fun _ _ => rfl }
  · rw [if_neg (by omega)]
    obtain ⟨first, second, adjusted, sum, pieces⟩ := adjust_pieces fits stretches
    have inside := pieces.total
    have write_lt := held.write_lt
    have size : (ptr.take (first + second)).length = first + second := by
      rw [List.length_take]
      omega
    have room : unread.length + (ptr.take (first + second)).length ≤ capacity.value := by
      omega
    have pushed := held.push pieces size room
    have intact := @Holding.push_keeps _ _ _ _ _ _ _ held pieces _ size room
    rw [storePieces_take] at pushed intact
    rw [adjusted]
    dsimp only
    rw [pipeAdvance_eq pieces (by omega), unsigned_natCast (by omega), unsigned_natCast (by omega),
      unsigned_natCast (by omega), storePieces_if,
      wrap_of_range (by omega) (by omega), ← Int.natCast_add]
    refine ⟨first + second, _, rfl, ?_⟩
    exact
      { amount := by omega
        held := by
          rw [size] at pushed
          exact pushed
        sameRead := rfl
        sameSem := rfl
        intact := fun index inside => @intact index inside }

/-- A read by a snapshot that saw the oldest `seen` of the unread bytes. -/
theorem pipeFetch_eq {pipe : HostbridgePipe} {unread : List UInt8} {place seen len : Nat}
    (held : Held capacity pipe unread) (stretch : Stretch capacity pipe.readOffset place seen)
    (fewer : seen ≤ unread.length) (fits : len < 2 ^ 31) :
    ∃ next, pipeFetch capacity.value pipe len pipe.readOffset place =
        (unread.take (min len seen), next) ∧
      Held capacity next (unread.drop (min len seen)) ∧
      next.writeOffset = pipe.writeOffset ∧ next.semRead = pipe.semRead := by
  obtain ⟨avail1, avail2, offered, total, stretches⟩ := pipeAvail_eq stretch
  obtain ⟨first, second, adjusted, sum, pieces⟩ := adjust_pieces fits stretches
  have high := capacity.value_le
  have inside := pieces.total
  have count_lt := stretch.count_lt
  have read_lt := held.read_lt
  obtain ⟨taken, left⟩ := @Holding.pop _ _ _ _ _ held (first + second) (by omega)
  unfold pipeFetch
  dsimp only
  rw [offered]
  dsimp only
  rw [adjusted]
  dsimp only
  rw [pipeAdvance_eq pieces (by omega), unsigned_natCast (by omega), unsigned_natCast (by omega),
    unsigned_natCast (by omega), fetchPieces_if, fetchPieces_eq pieces, taken]
  have same : first + second = min len seen := by omega
  rw [same] at left ⊢
  exact ⟨_, rfl, left, rfl, rfl⟩

end PeridotSw.Bridge.Pipe
