import PeridotSw.Fifo.NamedFifo
import PeridotSw.Machine.Semaphores

/-!
# Threads at named FIFOs

The four functions of a FIFO, cut at their semaphore operations.  A place is what a thread
inside a function is about to do, with the variables it still needs; the code behind the
operation leads to the next place, to the label `retry` or back to the caller.
-/

namespace PeridotSw.Fifo.Threads

open PeridotSw.Machine.Memory
open PeridotSw.Machine.Word
open PeridotSw.Machine.Ring
open PeridotSw.Machine.Semaphores
open PeridotSw.Fifo.NamedFifo

/-! ## Places -/

inductive Place where
  | openLock (flags : Nat)
  | openUnlock
  | closeLock (fd : AltFd)
  | closeSignalReader (fd : AltFd)
  | closeSignalWriter
  | closeUnlock
  | readWait (fd : AltFd) (len : Int)
  | readNone (fd : AltFd) (len : Int)
  | readLock (total : Int) (data : List UInt8)
  | readUnlock (total : Int) (data : List UInt8)
  | readSignalReader (total : Int) (data : List UInt8)
  | readSignalWriter (total : Int) (data : List UInt8)
  | writeWait (fd : AltFd) (ptr : List UInt8) (len : Int)
  | writeNone (fd : AltFd) (ptr : List UInt8) (len : Int)
  | writeLock (total : Int)
  | writeSignalWriter (total : Int)
  | writeSignalReader (total : Int)

/-- Where code leads: to a place, to `retry`, or back with a value and the bytes copied. -/
inductive Onward where
  | to (place : Place)
  | retry (place : Place)
  | back (value : Int) (data : List UInt8)

def Place.semOp : Place → SemOp
  | .openLock _ | .closeLock _ | .readLock _ _ | .writeLock _ => .pend .lockCommon
  | .openUnlock | .closeUnlock | .readUnlock _ _ => .post .lockCommon
  | .readWait _ _ => .pend .semReader
  | .closeSignalReader _ | .readNone _ _ | .readSignalReader _ _ | .writeSignalReader _ =>
      .post .semReader
  | .writeWait _ _ _ => .pend .semWriter
  | .closeSignalWriter | .readSignalWriter _ _ | .writeNone _ _ _ | .writeSignalWriter _ =>
      .post .semWriter

/-! ## The code between the operations -/

/-- The second half of `named_fifo_close`. -/
def closeWriter (fd : AltFd) (dev : NamedFifoDev) : NamedFifoDev × Onward :=
  if accmode fd.fdFlags &&& fwrite ≠ 0 then
    let writers := (dev.writers + (2 ^ 16 - 1)) % 2 ^ 16
    if writers = 0 then
      ({ dev with writers := writers, flags := { dev.flags with writerClosed := true } },
        .to .closeSignalWriter)
    else
      ({ dev with writers := writers }, .to .closeUnlock)
  else
    (dev, .to .closeUnlock)

/-- `named_fifo_close`, having the lock. -/
def closeReader (fd : AltFd) (dev : NamedFifoDev) : NamedFifoDev × Onward :=
  if accmode fd.fdFlags &&& fread ≠ 0 then
    let readers := (dev.readers + (2 ^ 16 - 1)) % 2 ^ 16
    if readers = 0 then
      ({ dev with readers := readers, flags := { dev.flags with readerClosed := true } },
        .to (.closeSignalReader fd))
    else
      closeWriter fd { dev with readers := readers }
  else
    closeWriter fd dev

/-- A close goes on to another place of a close. -/
theorem closeWriter_to (fd : AltFd) (dev : NamedFifoDev) :
    (closeWriter fd dev).2 = .to .closeSignalWriter ∨ (closeWriter fd dev).2 = .to .closeUnlock := by
  unfold closeWriter
  split
  · simp only []
    split
    · exact .inl rfl
    · exact .inr rfl
  · exact .inr rfl

theorem closeReader_to (fd : AltFd) (dev : NamedFifoDev) :
    (closeReader fd dev).2 = .to (.closeSignalReader fd) ∨
      (closeReader fd dev).2 = .to .closeSignalWriter ∨
        (closeReader fd dev).2 = .to .closeUnlock := by
  unfold closeReader
  split
  · simp only []
    split
    · exact .inl rfl
    · exact .inr (closeWriter_to fd _)
  · exact .inr (closeWriter_to fd dev)

/-- `readable1` and `readable2`. -/
def readable (dev : NamedFifoDev) : Int × Int :=
  if dev.readOffset < dev.writeOffset then
    (wrap (dev.writeOffset - dev.readOffset), 0)
  else
    (wrap (dev.capacity - dev.readOffset), wrap dev.writeOffset)

/-- `writable1` and `writable2`. -/
def writable (dev : NamedFifoDev) : Int × Int :=
  if dev.writeOffset < dev.readOffset then
    (wrap (dev.readOffset - dev.writeOffset), 0)
  else
    (wrap (dev.capacity - dev.writeOffset), wrap dev.readOffset)

/-- The test of `named_fifo_read` for no data, and of `named_fifo_write` for no space. -/
def Idle (dev : NamedFifoDev) : Prop :=
  dev.readOffset = dev.writeOffset ∧ dev.flags.bufferFull = false

instance (dev : NamedFifoDev) : Decidable (Idle dev) := inferInstanceAs (Decidable (_ ∧ _))

/-- `named_fifo_read`, having the semaphore of readers. -/
def readData (fd : AltFd) (len : Int) (dev : NamedFifoDev) : NamedFifoDev × Onward :=
  if Idle dev then
    (dev, .to (.readNone fd len))
  else
    let pieces := adjust len (readable dev).1 (readable dev).2
    let data := slice dev.buffer dev.readOffset (unsigned pieces.1) ++
      if 0 < pieces.2 then slice dev.buffer 0 (unsigned pieces.2) else []
    (dev, .to (.readLock (wrap (pieces.1 + pieces.2)) data))

/-- `named_fifo_write`, having the semaphore of writers. -/
def writeData (fd : AltFd) (ptr : List UInt8) (len : Int) (dev : NamedFifoDev) :
    NamedFifoDev × Onward :=
  if Idle dev then
    (dev, .to (.writeNone fd ptr len))
  else
    let pieces := adjust len (writable dev).1 (writable dev).2
    let first := write dev.buffer dev.writeOffset (ptr.take (unsigned pieces.1))
    let stored :=
      if 0 < pieces.2 then
        write first 0 ((ptr.drop (unsigned pieces.1)).take (unsigned pieces.2))
      else
        first
    ({ dev with buffer := stored }, .to (.writeLock (wrap (pieces.1 + pieces.2))))

theorem writeData_idle {fd : AltFd} {ptr : List UInt8} {len : Int} {dev : NamedFifoDev}
    (idle : Idle dev) : writeData fd ptr len dev = (dev, .to (.writeNone fd ptr len)) :=
  if_pos idle

theorem writeData_transfer (fd : AltFd) (ptr : List UInt8) (len : Int) {dev : NamedFifoDev}
    (busy : ¬Idle dev) : ∃ total, (writeData fd ptr len dev).2 = .to (.writeLock total) := by
  rw [writeData, if_neg busy]
  exact ⟨_, rfl⟩

/-- The code behind the operation at a place. -/
def Place.next (dev : NamedFifoDev) : Place → NamedFifoDev × Onward
  | .openLock flags => (namedFifoOpen dev flags, .to .openUnlock)
  | .openUnlock => (dev, .back 0 [])
  | .closeLock fd => closeReader fd dev
  | .closeSignalReader fd => closeWriter fd dev
  | .closeSignalWriter => (dev, .to .closeUnlock)
  | .closeUnlock => (dev, .back 0 [])
  | .readWait fd len => readData fd len dev
  | .readNone fd len =>
      if dev.flags.writerClosed then (dev, .back 0 [])
      else if fd.fdFlags &&& oNonblock ≠ 0 then (dev, .back (-ewouldblock) [])
      else (dev, .retry (.readWait fd len))
  | .readLock total data =>
      ({ dev with
        readOffset := unsigned (dev.readOffset + total) &&& unsigned (dev.capacity - 1)
        flags := { dev.flags with bufferFull := false } }, .to (.readUnlock total data))
  | .readUnlock total data => (dev, .to (.readSignalReader total data))
  | .readSignalReader total data => (dev, .to (.readSignalWriter total data))
  | .readSignalWriter total data => (dev, .back total data)
  | .writeWait fd ptr len => writeData fd ptr len dev
  | .writeNone fd ptr len =>
      if dev.flags.readerClosed then (dev, .back (-epipe) [])
      else if fd.fdFlags &&& oNonblock ≠ 0 then (dev, .back (-ewouldblock) [])
      else (dev, .retry (.writeWait fd ptr len))
  | .writeLock total =>
      let writeOffset := unsigned (dev.writeOffset + total) &&& unsigned (dev.capacity - 1)
      ({ dev with
        writeOffset := writeOffset
        flags :=
          if writeOffset = dev.readOffset then { dev.flags with bufferFull := true }
          else dev.flags }, .to (.writeSignalWriter total))
  | .writeSignalWriter total => (dev, .to (.writeSignalReader total))
  | .writeSignalReader total => (dev, .back total [])

/-! ## Calls -/

/-- `len` is what the caller passes, `ptr` the bytes it points to. -/
inductive Call (Device : Type) where
  | namedFifoOpen (device : Device) (flags : Nat)
  | namedFifoClose (device : Device) (fd : AltFd)
  | namedFifoRead (device : Device) (fd : AltFd) (len : Int)
  | namedFifoWrite (device : Device) (fd : AltFd) (ptr : List UInt8) (len : Int)

/-- The beginning of `named_fifo_read`. -/
def beginRead (fd : AltFd) (len : Int) : Onward :=
  if accmode fd.fdFlags &&& fread = 0 then .back (-eacces) []
  else if len = 0 then .back 0 []
  else .to (.readWait fd len)

/-- The beginning of `named_fifo_write`. -/
def beginWrite (fd : AltFd) (ptr : List UInt8) (len : Int) : Onward :=
  if accmode fd.fdFlags &&& fwrite = 0 then .back (-eacces) []
  else if len = 0 then .back 0 []
  else .to (.writeWait fd ptr len)

/-- A thread inside a function, on the FIFO it was called for. -/
structure Position (Device : Type) where
  device : Device
  place : Place

def Onward.place : Onward → Option Place
  | .to place => some place
  | .retry place => some place
  | .back _ _ => none

section

variable {Device : Type}

def Onward.position (onward : Onward) (device : Device) : Option (Position Device) :=
  onward.place.map (Position.mk device)

def Call.first : Call Device → Option (Position Device)
  | .namedFifoOpen device flags => some ⟨device, .openLock flags⟩
  | .namedFifoClose device fd => some ⟨device, .closeLock fd⟩
  | .namedFifoRead device fd len => (beginRead fd len).position device
  | .namedFifoWrite device fd ptr len => (beginWrite fd ptr len).position device

def onDevice (device : Device) : SemOp → Operation (Device × Semaphore)
  | .pend semaphore => .pend (device, semaphore)
  | .post semaphore => .post (device, semaphore)

/-- Threads at any number of FIFOs. -/
def program [DecidableEq Device] :
    Program (Device × Semaphore) (Device → NamedFifoDev) (Position Device) (Call Device) where
  first := Call.first
  operation position := onDevice position.device position.place.semOp
  next position memory :=
    let result := position.place.next (memory position.device)
    (Function.update memory position.device result.1, result.2.position position.device)

/-- The counts of the semaphores in `named_fifo_create`. -/
def createTokens : Semaphore → Nat
  | .lockCommon => 1
  | .semReader => 0
  | .semWriter => 0

def start (Thread : Type) (memory : Device → NamedFifoDev) :
    State Thread (Device × Semaphore) (Device → NamedFifoDev) (Position Device) where
  tokens semaphore := createTokens semaphore.2
  memory := memory
  places _ := none

end

/-! ## A thread alone -/

/-- The pass of a thread that nobody interrupts, cut off after a number of operations. -/
def follow : Nat → NamedFifoDev → Onward → Pass
  | _, dev, .back value data => ⟨[], some ⟨value, data, dev⟩⟩
  | _, _, .retry _ => ⟨[], none⟩
  | 0, _, .to _ => ⟨[], none⟩
  | rest + 1, dev, .to place =>
      let later := follow rest (place.next dev).1 (place.next dev).2
      ⟨place.semOp :: later.semOps, later.answer⟩

theorem follow_read (fd : AltFd) (dev : NamedFifoDev) (len : Int) :
    follow 5 dev (beginRead fd len) = namedFifoRead fd dev len := by
  unfold beginRead namedFifoRead
  by_cases access : accmode fd.fdFlags &&& fread = 0
  · simp only [access, if_true, follow]
  by_cases nothing : len = 0
  · simp only [access, nothing, if_false, if_true, follow]
  simp only [access, nothing, if_false, follow, Place.next, readData]
  by_cases idle : Idle dev
  · rw [if_pos idle, if_pos (show dev.readOffset = dev.writeOffset ∧ _ from idle)]
    simp only [follow, Place.next, Place.semOp]
    by_cases closed : dev.flags.writerClosed
    · simp only [if_pos closed, follow]
    · by_cases nonblock : fd.fdFlags &&& oNonblock ≠ 0
      · simp only [if_neg closed, if_pos nonblock, follow]
      · simp only [if_neg closed, if_neg nonblock, follow]
  · rw [if_neg idle, if_neg (show ¬(dev.readOffset = dev.writeOffset ∧ _) from idle)]
    rfl

theorem follow_write (fd : AltFd) (dev : NamedFifoDev) (ptr : List UInt8) :
    follow 4 dev (beginWrite fd ptr ptr.length) = namedFifoWrite fd dev ptr := by
  unfold beginWrite namedFifoWrite
  by_cases access : accmode fd.fdFlags &&& fwrite = 0
  · simp only [access, if_true, follow]
  by_cases nothing : (ptr.length : Int) = 0
  · simp only [access, nothing, if_false, if_true, follow]
  simp only [access, nothing, if_false, follow, Place.next, writeData]
  by_cases idle : Idle dev
  · rw [if_pos idle, if_pos (show dev.readOffset = dev.writeOffset ∧ _ from idle)]
    simp only [follow, Place.next, Place.semOp]
    by_cases closed : dev.flags.readerClosed
    · simp only [if_pos closed, follow]
    · by_cases nonblock : fd.fdFlags &&& oNonblock ≠ 0
      · simp only [if_neg closed, if_pos nonblock, follow]
      · simp only [if_neg closed, if_neg nonblock, follow]
  · rw [if_neg idle, if_neg (show ¬(dev.readOffset = dev.writeOffset ∧ _) from idle)]
    rfl

end PeridotSw.Fifo.Threads
