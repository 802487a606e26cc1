import PeridotSw.Fifo.NamedFifo

/-!
# Named FIFOs as bounded queues

A read does what a bounded byte queue does.  A write takes a ring with equal offsets
for full exactly when it is not: an empty FIFO is never written to, and a full one is
written over.  Since a new FIFO is empty, nothing can ever be put into one.
-/

namespace PeridotSw.Fifo.Bounded

open PeridotSw.Machine.Memory
open PeridotSw.Machine.Word
open PeridotSw.Machine.Ring
open PeridotSw.Fifo.NamedFifo

/-! ## The abstract queue -/

/-- A read with a descriptor that may read and does not block. -/
structure ReadCall where
  fd : AltFd
  len : Nat
  access : accmode fd.fdFlags &&& fread ≠ 0
  nonblock : fd.fdFlags &&& oNonblock ≠ 0
  positive : 0 < len
  fits : len < 2 ^ 31

/-- A write with a descriptor that may write and does not block. -/
structure WriteCall where
  fd : AltFd
  bytes : List UInt8
  access : accmode fd.fdFlags &&& fwrite ≠ 0
  nonblock : fd.fdFlags &&& oNonblock ≠ 0
  positive : 0 < bytes.length
  fits : bytes.length < 2 ^ 31

inductive Call where
  | read (call : ReadCall)
  | write (call : WriteCall)

/-- What a caller sees, and what the queue holds afterwards. -/
structure Reply where
  value : Int
  data : List UInt8
  queue : List UInt8

/-- A byte queue of bounded capacity. -/
def queueReply (capacity : Nat) (queue : List UInt8) : Call → Reply
  | .read call =>
      if queue = [] then
        ⟨-ewouldblock, [], queue⟩
      else
        let count := min call.len queue.length
        ⟨count, queue.take count, queue.drop count⟩
  | .write call =>
      if queue.length < capacity then
        let count := min call.bytes.length (capacity - queue.length)
        ⟨count, [], queue ++ call.bytes.take count⟩
      else
        ⟨-ewouldblock, [], queue⟩

/-! ## The device as a queue -/

def heldCount (dev : NamedFifoDev) : Nat :=
  if dev.readOffset = dev.writeOffset then
    if dev.flags.bufferFull then dev.capacity else 0
  else if dev.readOffset < dev.writeOffset then
    dev.writeOffset - dev.readOffset
  else
    dev.capacity - dev.readOffset + dev.writeOffset

def held (dev : NamedFifoDev) : List UInt8 :=
  ringSlice dev.buffer dev.capacity dev.readOffset (heldCount dev)

def perform (dev : NamedFifoDev) : Call → Option Answer
  | .read call => (namedFifoRead call.fd dev call.len).answer
  | .write call => (namedFifoWrite call.fd dev call.bytes).answer

/-- The call returns what the queue returns and leaves in the ring what it holds. -/
def Conforms (dev : NamedFifoDev) (call : Call) (answer : Answer) : Prop :=
  (⟨answer.value, answer.data, held answer.dev⟩ : Reply) =
    queueReply dev.capacity (held dev) call

/-- All calls return, and do so as those of the queue. -/
def Conforming : NamedFifoDev → List Call → Prop
  | _, [] => True
  | dev, call :: rest =>
      ∃ answer, perform dev call = some answer ∧ Conforms dev call answer ∧
        Conforming answer.dev rest

/-- Every write finds the queue neither empty nor full. -/
def WritesBetween (capacity : Nat) : List UInt8 → List Call → Prop
  | _, [] => True
  | queue, call :: rest =>
      (∀ write, call = .write write → queue ≠ [] ∧ queue.length < capacity) ∧
        WritesBetween capacity (queueReply capacity queue call).queue rest

/-- A FIFO with readers and writers: the capacity is a power of two below `2 ^ 31`, and
the flag for a full ring is set only with equal offsets. -/
structure Sound (dev : NamedFifoDev) : Prop where
  power : ∃ log, log < 31 ∧ dev.capacity = 2 ^ log
  read_lt : dev.readOffset < dev.capacity
  write_lt : dev.writeOffset < dev.capacity
  full : dev.flags.bufferFull = true → dev.readOffset = dev.writeOffset
  reader : dev.flags.readerClosed = false
  writer : dev.flags.writerClosed = false

variable {dev : NamedFifoDev}

theorem Sound.small (sound : Sound dev) : dev.capacity < 2 ^ 31 := by
  obtain ⟨log, short, power⟩ := sound.power
  rw [power]
  exact Nat.pow_lt_pow_right (by decide) short

@[simp] theorem length_held (dev : NamedFifoDev) : (held dev).length = heldCount dev :=
  length_ringSlice ..

theorem Sound.holding (sound : Sound dev) :
    Holding dev.buffer dev.capacity dev.readOffset dev.writeOffset (held dev) where
  read_lt := sound.read_lt
  write_eq := by
    have low := sound.read_lt
    have high := sound.write_lt
    rw [length_held, heldCount]
    split
    · rename_i same
      split
      · rw [Nat.add_mod_right, Nat.mod_eq_of_lt low, same]
      · rw [Nat.add_zero, Nat.mod_eq_of_lt low, same]
    · split
      · rw [Nat.mod_eq_of_lt (by omega)]
        omega
      · rw [mod_turn (by omega), if_neg (by omega)]
        omega
  room := by
    have low := sound.read_lt
    have high := sound.write_lt
    rw [length_held, heldCount]
    split
    · split <;> omega
    · split <;> omega
  bytes := by
    rw [length_held]
    rfl

/-- The offsets and the flag say how many bytes are held. -/
theorem held_eq (sound : Sound dev) {queue : List UInt8}
    (holding : Holding dev.buffer dev.capacity dev.readOffset dev.writeOffset queue)
    (flagged : queue.length = dev.capacity ↔ dev.flags.bufferFull = true) :
    held dev = queue := by
  have count : heldCount dev = queue.length := by
    have offsets := holding.offsets
    have room := holding.room
    have low := sound.read_lt
    unfold heldCount
    split
    · split
      · exact (flagged.mpr ‹_›).symm
      · rename_i empty
        have other := mt flagged.mp empty
        omega
    · split <;> omega
  rw [held, count, holding.bytes]

/-! ## Transfers -/

/-- The two stretches from one offset up to another, or all round to it. -/
theorem pieces_of_stretch {capacity start stop len : Nat} (small : capacity < 2 ^ 31)
    (start_lt : start < capacity) (stop_lt : stop < capacity) (fits : len < 2 ^ 31) :
    ∃ first second : Nat,
      adjust len
        (if start < stop then (wrap ((stop : Int) - start), (0 : Int))
          else (wrap ((capacity : Int) - start), wrap stop)).1
        (if start < stop then (wrap ((stop : Int) - start), (0 : Int))
          else (wrap ((capacity : Int) - start), wrap stop)).2 = (↑first, ↑second) ∧
      first + second =
        min len (if start < stop then stop - start else capacity - start + stop) ∧
      Pieces capacity start first second := by
  by_cases before : start < stop
  · simp only [if_pos before]
    rw [wrap_of_range (by omega) (by omega), ← Int.ofNat_sub (by omega)]
    exact @adjust_pieces capacity start len (stop - start) 0 fits
      ⟨start_lt, by omega, by omega, .inl rfl⟩
  · simp only [if_neg before]
    rw [wrap_of_range (by omega) (by omega), wrap_of_range (by omega) (by omega),
      ← Int.ofNat_sub (by omega)]
    exact @adjust_pieces capacity start len (capacity - start) stop fits
      ⟨start_lt, by omega, by omega, .inr (by omega)⟩

/-- An offset moved on by a transfer. -/
theorem advance_eq (sound : Sound dev) {place count : Nat} (place_lt : place < dev.capacity)
    (most : count ≤ dev.capacity) :
    unsigned ((place : Int) + (count : Nat)) &&& unsigned ((dev.capacity : Int) - 1) =
      (place + count) % dev.capacity := by
  have small := sound.small
  obtain ⟨log, -, power⟩ := sound.power
  have mask := @unsigned_pred dev.capacity (by omega) (by omega)
  have moved : unsigned ((place : Int) + (count : Nat)) = place + count := by
    rw [← Int.natCast_add, unsigned_natCast (by omega)]
  rw [mask, moved]
  exact and_pred_eq_mod power _

/-- A ring is empty when the offsets are equal and the flag is clear. -/
theorem heldCount_eq_zero_iff (sound : Sound dev) :
    heldCount dev = 0 ↔ dev.readOffset = dev.writeOffset ∧ dev.flags.bufferFull = false := by
  have low := sound.read_lt
  unfold heldCount
  by_cases same : dev.readOffset = dev.writeOffset
  · rw [if_pos same]
    cases dev.flags.bufferFull with
    | true => simp; omega
    | false => simp [same]
  · rw [if_neg same]
    simp only [same, false_and, iff_false]
    split <;> omega

theorem read_transfers (sound : Sound dev) {fd : AltFd} {len : Nat}
    (access : accmode fd.fdFlags &&& fread ≠ 0) (positive : 0 < len) (fits : len < 2 ^ 31)
    (holding : heldCount dev ≠ 0) :
    ∃ first second, Pieces dev.capacity dev.readOffset first second ∧
      first + second = min len (heldCount dev) ∧
      (namedFifoRead fd dev len).answer = some
        ⟨(first + second : Nat), fetchPieces dev.buffer dev.readOffset first second,
          { dev with
            readOffset := (dev.readOffset + (first + second)) % dev.capacity
            flags := { dev.flags with bufferFull := false } }⟩ := by
  have small := sound.small
  have nonempty := mt (heldCount_eq_zero_iff sound).mpr holding
  obtain ⟨first, second, adjusted, sum, pieces⟩ :=
    pieces_of_stretch small sound.read_lt sound.write_lt fits
  have total := pieces.total
  refine ⟨first, second, pieces, ?_, ?_⟩
  · rw [sum, heldCount]
    split
    · rename_i before
      rw [if_neg (by omega)]
    · split
      · rename_i same
        have full : dev.flags.bufferFull = true := by simpa [same] using nonempty
        have low := sound.read_lt
        rw [if_pos full]
        omega
      · rfl
  · unfold namedFifoRead
    rw [if_neg access, if_neg (by omega)]
    dsimp only
    rw [if_neg nonempty, adjusted]
    dsimp only
    have added : wrap ((first : Int) + second) = ((first + second : Nat) : Int) := by
      rw [wrap_of_range (by omega) (by omega)]
      rfl
    rw [added, advance_eq sound sound.read_lt total, unsigned_natCast (by omega),
      unsigned_natCast (by omega), fetchPieces_if]

/-- A write to a ring it does not find empty stores as if the ring were not full. -/
theorem write_transfers (sound : Sound dev) {fd : AltFd} {bytes : List UInt8}
    (access : accmode fd.fdFlags &&& fwrite ≠ 0) (positive : 0 < bytes.length)
    (fits : bytes.length < 2 ^ 31) (holding : heldCount dev ≠ 0) :
    ∃ first second, Pieces dev.capacity dev.writeOffset first second ∧
      first + second =
        min bytes.length
          (if dev.writeOffset < dev.readOffset then dev.readOffset - dev.writeOffset
            else dev.capacity - dev.writeOffset + dev.readOffset) ∧
      (namedFifoWrite fd dev bytes).answer = some
        ⟨(first + second : Nat), [],
          { dev with
            buffer := storePieces dev.buffer dev.writeOffset first second bytes
            writeOffset := (dev.writeOffset + (first + second)) % dev.capacity
            flags :=
              if (dev.writeOffset + (first + second)) % dev.capacity = dev.readOffset then
                { dev.flags with bufferFull := true }
              else dev.flags }⟩ := by
  have small := sound.small
  have nonempty := mt (heldCount_eq_zero_iff sound).mpr holding
  obtain ⟨first, second, adjusted, sum, pieces⟩ :=
    pieces_of_stretch small sound.write_lt sound.read_lt fits
  have total := pieces.total
  refine ⟨first, second, pieces, sum, ?_⟩
  unfold namedFifoWrite
  dsimp only
  rw [if_neg access, if_neg (by omega), if_neg nonempty, adjusted]
  dsimp only
  have added : wrap ((first : Int) + second) = ((first + second : Nat) : Int) := by
    rw [wrap_of_range (by omega) (by omega)]
    rfl
  rw [added, advance_eq sound sound.write_lt total, unsigned_natCast (by omega),
    unsigned_natCast (by omega), storePieces_if]

/-! ## Single calls -/

/-- The call returns, as a call of the queue does, and leaves a sound device. -/
structure Served (dev : NamedFifoDev) (call : Call) (answer : Answer) : Prop where
  performed : perform dev call = some answer
  conforms : Conforms dev call answer
  sound : Sound answer.dev
  capacity : answer.dev.capacity = dev.capacity

theorem read_empty {fd : AltFd} {len : Nat} (access : accmode fd.fdFlags &&& fread ≠ 0)
    (nonblock : fd.fdFlags &&& oNonblock ≠ 0) (positive : 0 < len)
    (writer : dev.flags.writerClosed = false)
    (empty : dev.readOffset = dev.writeOffset ∧ dev.flags.bufferFull = false) :
    (namedFifoRead fd dev len).answer = some ⟨-ewouldblock, [], dev⟩ := by
  unfold namedFifoRead
  rw [if_neg access, if_neg (by omega), if_pos empty]
  simp [writer, nonblock]

theorem write_empty {fd : AltFd} {bytes : List UInt8}
    (access : accmode fd.fdFlags &&& fwrite ≠ 0) (nonblock : fd.fdFlags &&& oNonblock ≠ 0)
    (positive : 0 < bytes.length) (reader : dev.flags.readerClosed = false)
    (empty : dev.readOffset = dev.writeOffset ∧ dev.flags.bufferFull = false) :
    (namedFifoWrite fd dev bytes).answer = some ⟨-ewouldblock, [], dev⟩ := by
  unfold namedFifoWrite
  dsimp only
  rw [if_neg access, if_neg (by omega), if_pos empty]
  simp [reader, nonblock]

theorem read_served (sound : Sound dev) (call : ReadCall) :
    ∃ answer, Served dev (.read call) answer := by
  by_cases empty : heldCount dev = 0
  · have nothing : held dev = [] := List.length_eq_zero_iff.mp (by rw [length_held, empty])
    exact ⟨_, read_empty call.access call.nonblock call.positive sound.writer
      ((heldCount_eq_zero_iff sound).mp empty), by simp [Conforms, queueReply, nothing], sound, rfl⟩
  · obtain ⟨first, second, pieces, sum, answered⟩ :=
      read_transfers sound call.access call.positive call.fits empty
    have nonempty : held dev ≠ [] := fun nothing => empty (by rw [← length_held, nothing]; rfl)
    have low := call.positive
    obtain ⟨taken, left⟩ := @Holding.pop _ _ _ _ _ sound.holding (first + second) (by
      rw [length_held]
      omega)
    refine ⟨_, answered, ?_, ?_, rfl⟩
    · have after : Sound { dev with
          readOffset := (dev.readOffset + (first + second)) % dev.capacity
          flags := { dev.flags with bufferFull := false } } :=
        { power := sound.power
          read_lt := left.read_lt
          write_lt := sound.write_lt
          full := nofun
          reader := sound.reader
          writer := sound.writer }
      have rest := held_eq after left (by
        have room := sound.holding.room
        rw [length_held] at room
        rw [List.length_drop, length_held]
        simp only [Bool.false_eq_true, iff_false]
        omega)
      simp only [Conforms, queueReply, if_neg nonempty, rest, length_held, ← sum,
        fetchPieces_eq pieces, taken]
    · exact
        { power := sound.power
          read_lt := left.read_lt
          write_lt := sound.write_lt
          full := nofun
          reader := sound.reader
          writer := sound.writer }

/-- A write that reaches the read offset has filled the ring. -/
theorem Sound.written (sound : Sound dev) (unflagged : dev.flags.bufferFull = false)
    {next : Nat} (below : next < dev.capacity) (buffer : Mem) :
    Sound { dev with
      buffer := buffer
      writeOffset := next
      flags := if next = dev.readOffset then { dev.flags with bufferFull := true }
        else dev.flags } where
  power := sound.power
  read_lt := sound.read_lt
  write_lt := below
  full := by
    dsimp only
    split
    · intro _
      exact (‹_ = dev.readOffset›).symm
    · rw [unflagged]
      nofun
  reader := by
    dsimp only
    split
    · exact sound.reader
    · exact sound.reader
  writer := by
    dsimp only
    split
    · exact sound.writer
    · exact sound.writer

theorem write_served (sound : Sound dev) (call : WriteCall) (stocked : held dev ≠ [])
    (room : (held dev).length < dev.capacity) :
    ∃ answer, Served dev (.write call) answer := by
  have nonempty : heldCount dev ≠ 0 := fun none =>
    stocked (List.length_eq_zero_iff.mp (by rw [length_held, none]))
  obtain ⟨first, second, pieces, sum, answered⟩ :=
    write_transfers sound call.access call.positive call.fits nonempty
  have low := call.positive
  have holding := sound.holding
  have offsets := holding.offsets
  have size := length_held dev
  have unflagged : dev.flags.bufferFull = false := by
    cases full : dev.flags.bufferFull with
    | false => rfl
    | true =>
        have equal := sound.full full
        rw [length_held, heldCount, if_pos equal, if_pos full] at room
        exact absurd room (Nat.lt_irrefl _)
  have free : first + second = min call.bytes.length (dev.capacity - (held dev).length) := by
    rw [sum]
    have high := sound.write_lt
    have start := sound.read_lt
    split <;> omega
  have count : (call.bytes.take (first + second)).length = first + second := by
    rw [List.length_take]
    omega
  have pushed := holding.push pieces count (by omega)
  rw [storePieces_take, count] at pushed
  have around := pushed.offsets
  rw [List.length_append, count] at around
  have start := sound.read_lt
  have after := sound.written unflagged pushed.write_lt
    (storePieces dev.buffer dev.writeOffset first second call.bytes)
  have rest := held_eq after pushed (by
    rw [List.length_append, count]
    dsimp only
    have positive : 0 < first + second := by omega
    have below := pushed.write_lt
    generalize (dev.writeOffset + (first + second)) % dev.capacity = next at around below ⊢
    split
    · simp only [iff_true]
      omega
    · rw [unflagged]
      simp only [Bool.false_eq_true, iff_false]
      omega)
  refine ⟨_, answered, ?_, after, rfl⟩
  simp only [Conforms, queueReply, if_pos room, rest, ← free]

/-- A write that finds the queue empty or full does something else. -/
theorem write_not_conforms (sound : Sound dev) (call : WriteCall)
    (ends : ¬(held dev ≠ [] ∧ (held dev).length < dev.capacity)) {answer : Answer}
    (performed : perform dev (.write call) = some answer) :
    ¬Conforms dev (.write call) answer := by
  have positive := call.positive
  have start := sound.read_lt
  intro conforms
  by_cases empty : heldCount dev = 0
  · have nothing : held dev = [] := List.length_eq_zero_iff.mp (by rw [length_held, empty])
    have refused := write_empty call.access call.nonblock call.positive sound.reader
      ((heldCount_eq_zero_iff sound).mp empty)
    cases performed.symm.trans refused
    have value := congrArg Reply.value conforms
    simp only [queueReply, nothing, List.length_nil, ewouldblock, eagain] at value
    rw [if_pos (by omega)] at value
    dsimp only at value
    omega
  · have nonempty : held dev ≠ [] := fun nothing => empty (by rw [← length_held, nothing]; rfl)
    have full : ¬(held dev).length < dev.capacity := fun room => ends ⟨nonempty, room⟩
    obtain ⟨first, second, -, -, answered⟩ :=
      write_transfers sound call.access call.positive call.fits empty
    cases performed.symm.trans answered
    have value := congrArg Reply.value conforms
    simp only [queueReply, if_neg full, ewouldblock, eagain] at value
    omega

/-! ## Sequences of calls -/

/-- From a sound device the calls are those of the queue exactly when no write finds it
empty or full. -/
theorem conforming_iff (sound : Sound dev) (calls : List Call) :
    Conforming dev calls ↔ WritesBetween dev.capacity (held dev) calls := by
  induction calls generalizing dev with
  | nil => exact Iff.rfl
  | cons call rest ih =>
      have onward {answer : Answer} (served : Served dev call answer) :
          Conforming answer.dev rest ↔
            WritesBetween dev.capacity (queueReply dev.capacity (held dev) call).queue rest := by
        rw [ih served.sound, served.capacity, ← served.conforms]
      have first {answer : Answer} (served : Served dev call answer)
          (between : ∀ write, call = .write write →
            held dev ≠ [] ∧ (held dev).length < dev.capacity) :
          Conforming dev (call :: rest) ↔
            WritesBetween dev.capacity (held dev) (call :: rest) := by
        constructor
        · rintro ⟨other, performed, -, later⟩
          cases performed.symm.trans served.performed
          exact ⟨between, (onward served).mp later⟩
        · rintro ⟨-, later⟩
          exact ⟨answer, served.performed, served.conforms, (onward served).mpr later⟩
      cases call with
      | read call =>
          obtain ⟨answer, served⟩ := read_served sound call
          exact first served nofun
      | write call =>
          by_cases between : held dev ≠ [] ∧ (held dev).length < dev.capacity
          · obtain ⟨answer, served⟩ := write_served sound call between.1 between.2
            exact first served fun _ _ => between
          · constructor
            · rintro ⟨answer, performed, conforms, -⟩
              exact absurd conforms (write_not_conforms sound call between performed)
            · rintro ⟨here, -⟩
              exact absurd (here call rfl) between

/-! ## A new FIFO -/

/-- An empty FIFO that has not been closed. -/
structure Fresh (dev : NamedFifoDev) : Prop where
  empty : dev.readOffset = dev.writeOffset ∧ dev.flags.bufferFull = false
  reader : dev.flags.readerClosed = false
  writer : dev.flags.writerClosed = false

theorem Fresh.opened (fresh : Fresh dev) (flags : Nat) :
    Fresh (namedFifoOpen dev flags) ∧ (namedFifoOpen dev flags).capacity = dev.capacity := by
  obtain ⟨empty, reader, writer⟩ := fresh
  unfold namedFifoOpen
  dsimp only
  split
  · split
    · exact ⟨⟨empty, rfl, rfl⟩, rfl⟩
    · exact ⟨⟨empty, reader, rfl⟩, rfl⟩
  · split
    · exact ⟨⟨empty, rfl, writer⟩, rfl⟩
    · exact ⟨⟨empty, reader, writer⟩, rfl⟩

theorem Fresh.opens (fresh : Fresh dev) (opens : List Nat) :
    Fresh (opens.foldl namedFifoOpen dev) ∧
      (opens.foldl namedFifoOpen dev).capacity = dev.capacity := by
  induction opens generalizing dev with
  | nil => exact ⟨fresh, rfl⟩
  | cons flags rest ih =>
      obtain ⟨opened, same⟩ := fresh.opened flags
      obtain ⟨later, capacity⟩ := ih opened
      exact ⟨later, capacity.trans same⟩

/-- No call gets anything into an empty FIFO, or out of it. -/
theorem perform_fresh (fresh : Fresh dev) (call : Call) :
    perform dev call = some ⟨-ewouldblock, [], dev⟩ := by
  cases call with
  | read call => exact read_empty call.access call.nonblock call.positive fresh.writer fresh.empty
  | write call =>
      exact write_empty call.access call.nonblock call.positive fresh.reader fresh.empty

theorem held_fresh (fresh : Fresh dev) : held dev = [] := by
  have none : heldCount dev = 0 := by
    unfold heldCount
    rw [if_pos fresh.empty.1, fresh.empty.2]
    rfl
  rw [held, none]
  rfl

theorem conforming_fresh (fresh : Fresh dev) (calls : List Call) :
    Conforming dev calls ↔ dev.capacity = 0 ∨ ∀ write, .write write ∉ calls := by
  have nothing := held_fresh fresh
  induction calls with
  | nil => simp [Conforming]
  | cons call rest ih =>
      have refused := perform_fresh fresh call
      have here : Conforming dev (call :: rest) ↔
          Conforms dev call ⟨-ewouldblock, [], dev⟩ ∧ Conforming dev rest := by
        simp [Conforming, refused]
      rw [here]
      refine (and_congr_right fun _ => ih).trans ?_
      cases call with
      | read call => simp [Conforms, queueReply, nothing]
      | write call =>
          have positive := call.positive
          by_cases empty : dev.capacity = 0
          · simp [Conforms, queueReply, nothing, empty]
          · have room : 0 < dev.capacity := Nat.pos_of_ne_zero empty
            have other : ¬Conforms dev (.write call) ⟨-ewouldblock, [], dev⟩ := by
              intro conforms
              have value := congrArg Reply.value conforms
              simp only [queueReply, nothing, List.length_nil, if_pos room, ewouldblock,
                eagain] at value
              omega
            refine iff_of_false (fun both => other both.1) ?_
            rintro (none | never)
            · exact empty none
            · exact never call (.head _)

/-- A new FIFO, opened by readers and writers, behaves as a bounded queue exactly as long
as it is not written to.  From any other state the writes that go wrong are those that
find the ring empty or full. -/
theorem namedFifo_conforming_iff {sizeofDev size : Nat} {malloc : Nat → Option Mem}
    {name : CString} (bound : size < 2 ^ 32)
    (created : namedFifoCreate sizeofDev malloc name size = some dev) (opens : List Nat)
    (calls : List Call) :
    (Conforming (opens.foldl namedFifoOpen dev) calls ↔
      2 ^ 31 < size ∨ ∀ write, .write write ∉ calls) ∧
    ∀ used, Sound used → (Conforming used calls ↔
      WritesBetween used.capacity (held used) calls) := by
  refine ⟨?_, fun used sound => conforming_iff sound calls⟩
  obtain ⟨block, -, rfl⟩ := Option.map_eq_some_iff.mp created
  have fresh : Fresh
      { flags := ⟨false, false, false⟩
        readers := 0
        writers := 0
        capacity := fifoCapacity size
        readOffset := 0
        writeOffset := 0
        buffer := block } := ⟨⟨rfl, rfl⟩, rfl, rfl⟩
  obtain ⟨opened, capacity⟩ := fresh.opens opens
  rw [conforming_fresh opened, capacity]
  dsimp only
  rcases fifoCapacity_cases bound with ⟨small, log, -, -, power⟩ | ⟨large, zero⟩
  · have roomy : fifoCapacity size ≠ 0 := power ▸ Nat.two_pow_pos log |>.ne'
    exact or_congr_left (iff_of_false roomy (Nat.not_lt.mpr small))
  · exact or_congr_left (iff_of_true zero large)

/-- Reading from a new FIFO of 1024 bytes. -/
theorem namedFifo_conforming_iff_read :
    (Conforming
        ([0, 1].foldl namedFifoOpen
          { flags := ⟨false, false, false⟩
            readers := 0
            writers := 0
            capacity := 1024
            readOffset := 0
            writeOffset := 0
            buffer := fun _ => 0 })
        [.read ⟨⟨oNonblock⟩, 5, by decide, by decide, by decide, by decide⟩]) ∧
      Sound
        { flags := ⟨false, false, false⟩
          readers := 1
          writers := 1
          capacity := 1024
          readOffset := 0
          writeOffset := 3
          buffer := fun _ => 0 } := by
  have created : namedFifoCreate 60 (fun _ => some fun _ => 0) (.of [0x66] rfl) 1000 = some
      { flags := ⟨false, false, false⟩
        readers := 0
        writers := 0
        capacity := 1024
        readOffset := 0
        writeOffset := 0
        buffer := fun _ => 0 } := rfl
  have law := namedFifo_conforming_iff (by decide) created [0, 1]
    [.read ⟨⟨oNonblock⟩, 5, by decide, by decide, by decide, by decide⟩]
  refine ⟨law.1.mpr (.inr fun write listed => ?_), ?_⟩
  · cases List.mem_singleton.mp listed
  · exact
      { power := ⟨10, by decide, rfl⟩
        read_lt := by decide
        write_lt := by decide
        full := nofun
        reader := rfl
        writer := rfl }

def firstWrite : WriteCall :=
  ⟨⟨oNonblock + 1⟩, [0x41], by decide, by decide, by decide, by decide⟩

/-- A new FIFO of 256 bytes refuses the first byte. -/
theorem not_conforming_firstWrite :
    ∃ dev, namedFifoCreate 60 (fun _ => some fun _ => 0) (.of [0x66] rfl) 0 = some dev ∧
      ¬Conforming ([0, 1].foldl namedFifoOpen dev) [.write firstWrite] := by
  refine ⟨_, rfl, ?_⟩
  rintro ⟨answer, performed, conforms, -⟩
  have refused : answer = ⟨-ewouldblock, [], _⟩ :=
    (Option.some.inj (performed.symm.trans (perform_fresh ⟨⟨rfl, rfl⟩, rfl, rfl⟩ _)))
  have value := congrArg Reply.value conforms
  rw [refused] at value
  exact absurd value (by decide)

end PeridotSw.Fifo.Bounded
