import PeridotSw.Machine.Ring
import PeridotSw.Machine.Roundup

/-!
# Named FIFO devices

A FIFO is a ring with two offsets; a flag tells a full ring from an empty one when
the offsets are equal.  `size_t` and `ssize_t` are 32 bits wide.  A call of `read` or
`write` is a pass through its body, with the semaphore operations it makes in order,
that either returns or goes back to the label `retry` with nothing changed.
-/

namespace PeridotSw.Fifo.NamedFifo

open PeridotSw.Machine.Memory
open PeridotSw.Machine.Word
open PeridotSw.Machine.Ring
open PeridotSw.Machine.Roundup

/-! ## Constants of the C library -/

def oAccmode : Nat := 3
def oNonblock : Nat := 0x4000
def fread : Nat := 1
def fwrite : Nat := 2
def eagain : Int := 11
def ewouldblock : Int := eagain
def eacces : Int := 13
def epipe : Int := 32

/-! ## The device -/

def namedFifoMinimumSize : Nat := 256

/-- The bits of `flags`. -/
structure NamedFifoFlags where
  bufferFull : Bool
  readerClosed : Bool
  writerClosed : Bool

/-- `named_fifo_dev`; `buffer` is the memory behind the structure. -/
structure NamedFifoDev where
  flags : NamedFifoFlags
  readers : Nat
  writers : Nat
  capacity : Nat
  readOffset : Nat
  writeOffset : Nat
  buffer : Mem

/-- The part of a file descriptor a device looks at. -/
structure AltFd where
  fdFlags : Nat

inductive Semaphore where
  | lockCommon
  | semReader
  | semWriter
  deriving DecidableEq

inductive SemOp where
  | pend (semaphore : Semaphore)
  | post (semaphore : Semaphore)
  deriving DecidableEq

/-- What a call returns: its value, the bytes it copied to the caller, and the device. -/
structure Answer where
  value : Int
  data : List UInt8
  dev : NamedFifoDev

/-- One pass through the body of a call; without an answer it goes to `retry`. -/
structure Pass where
  semOps : List SemOp
  answer : Option Answer

/-- `(flags & O_ACCMODE) + 1`. -/
def accmode (flags : Nat) : Nat := (flags &&& oAccmode) + 1

def namedFifoOpen (dev : NamedFifoDev) (flags : Nat) : NamedFifoDev :=
  let reading :=
    if accmode flags &&& fread ≠ 0 then
      { dev with
        readers := (dev.readers + 1) % 2 ^ 16
        flags := { dev.flags with readerClosed := false } }
    else
      dev
  if accmode flags &&& fwrite ≠ 0 then
    { reading with
      writers := (reading.writers + 1) % 2 ^ 16
      flags := { reading.flags with writerClosed := false } }
  else
    reading

def namedFifoRead (fd : AltFd) (dev : NamedFifoDev) (len : Int) : Pass :=
  if accmode fd.fdFlags &&& fread = 0 then
    ⟨[], some ⟨-eacces, [], dev⟩⟩
  else if len = 0 then
    ⟨[], some ⟨0, [], dev⟩⟩
  else
    let readable : Int × Int :=
      if dev.readOffset < dev.writeOffset then
        (wrap (dev.writeOffset - dev.readOffset), 0)
      else
        (wrap (dev.capacity - dev.readOffset), wrap dev.writeOffset)
    if dev.readOffset = dev.writeOffset ∧ dev.flags.bufferFull = false then
      let waited := [.pend .semReader, .post .semReader]
      if dev.flags.writerClosed then
        ⟨waited, some ⟨0, [], dev⟩⟩
      else if fd.fdFlags &&& oNonblock ≠ 0 then
        ⟨waited, some ⟨-ewouldblock, [], dev⟩⟩
      else
        ⟨waited, none⟩
    else
      let pieces := adjust len readable.1 readable.2
      let total := wrap (pieces.1 + pieces.2)
      let data := slice dev.buffer dev.readOffset (unsigned pieces.1) ++
        if 0 < pieces.2 then slice dev.buffer 0 (unsigned pieces.2) else []
      let next :=
        { dev with
          readOffset := unsigned (dev.readOffset + total) &&& unsigned (dev.capacity - 1)
          flags := { dev.flags with bufferFull := false } }
      ⟨[.pend .semReader, .pend .lockCommon, .post .lockCommon, .post .semReader,
        .post .semWriter], some ⟨total, data, next⟩⟩

/-- `named_fifo_write`; `len` is the number of bytes at `ptr`. -/
def namedFifoWrite (fd : AltFd) (dev : NamedFifoDev) (ptr : List UInt8) : Pass :=
  let len : Int := ptr.length
  if accmode fd.fdFlags &&& fwrite = 0 then
    ⟨[], some ⟨-eacces, [], dev⟩⟩
  else if len = 0 then
    ⟨[], some ⟨0, [], dev⟩⟩
  else
    let writable : Int × Int :=
      if dev.writeOffset < dev.readOffset then
        (wrap (dev.readOffset - dev.writeOffset), 0)
      else
        (wrap (dev.capacity - dev.writeOffset), wrap dev.readOffset)
    if dev.readOffset = dev.writeOffset ∧ dev.flags.bufferFull = false then
      let waited := [.pend .semWriter, .post .semWriter]
      if dev.flags.readerClosed then
        ⟨waited, some ⟨-epipe, [], dev⟩⟩
      else if fd.fdFlags &&& oNonblock ≠ 0 then
        ⟨waited, some ⟨-ewouldblock, [], dev⟩⟩
      else
        ⟨waited, none⟩
    else
      let pieces := adjust len writable.1 writable.2
      let total := wrap (pieces.1 + pieces.2)
      let first := write dev.buffer dev.writeOffset (ptr.take (unsigned pieces.1))
      let stored :=
        if 0 < pieces.2 then
          write first 0 ((ptr.drop (unsigned pieces.1)).take (unsigned pieces.2))
        else
          first
      let writeOffset := unsigned (dev.writeOffset + total) &&& unsigned (dev.capacity - 1)
      let next :=
        { dev with
          buffer := stored
          writeOffset := writeOffset
          flags :=
            if writeOffset = dev.readOffset then { dev.flags with bufferFull := true }
            else dev.flags }
      ⟨[.pend .semWriter, .pend .lockCommon, .post .semWriter, .post .semReader],
        some ⟨total, [], next⟩⟩

/-! ## Creation -/

/-- The capacity `named_fifo_create` computes. -/
def fifoCapacity (size : Nat) : Nat :=
  let size := if size ≤ namedFifoMinimumSize then namedFifoMinimumSize else size
  unsigned (smear (size - 1) + 1)

/-- `named_fifo_create`: the device, or `none` for `-ENOMEM`.  `block` is what `malloc`
answers, seen from `buffer` on. -/
def namedFifoCreate (sizeofDev : Nat) (malloc : Nat → Option Mem) (name : CString)
    (size : Nat) : Option NamedFifoDev :=
  let capacity := fifoCapacity size
  (malloc (unsigned (sizeofDev + capacity + (name.bytes.length + 1)))).map fun block =>
    { flags := ⟨false, false, false⟩
      readers := 0
      writers := 0
      capacity := capacity
      readOffset := 0
      writeOffset := 0
      buffer := block }

/-- The size, but at least `256`, is rounded up to a power of two, in 32 bits. -/
theorem fifoCapacity_eq {size : Nat} (bound : size < 2 ^ 32) :
    fifoCapacity size = unsigned (2 ^ Nat.clog 2 (max namedFifoMinimumSize size) : Nat) := by
  unfold fifoCapacity
  dsimp only
  have chosen : (if size ≤ namedFifoMinimumSize then namedFifoMinimumSize else size) =
      max namedFifoMinimumSize size := by
    split <;> omega
  have least : 256 ≤ max namedFifoMinimumSize size := Nat.le_max_left ..
  have most : max namedFifoMinimumSize size ≤ 2 ^ 32 := by
    unfold namedFifoMinimumSize
    omega
  rw [chosen, ← smear_pred (by omega) most]
  rfl

theorem fifoCapacity_cases {size : Nat} (bound : size < 2 ^ 32) :
    (size ≤ 2 ^ 31 ∧ ∃ log, 8 ≤ log ∧ log ≤ 31 ∧ fifoCapacity size = 2 ^ log) ∨
      (2 ^ 31 < size ∧ fifoCapacity size = 0) := by
  rw [fifoCapacity_eq bound]
  by_cases small : size ≤ 2 ^ 31
  · have covers : max namedFifoMinimumSize size ≤ 2 ^ 31 := by
      unfold namedFifoMinimumSize
      omega
    have short := Nat.clog_le_of_le_pow covers
    have eight : 8 ≤ Nat.clog 2 (max namedFifoMinimumSize size) :=
      Nat.le_trans (Nat.clog_pow 2 8 Nat.one_lt_two).ge
        (Nat.clog_mono_right 2 (Nat.le_max_left ..))
    have top := Nat.pow_le_pow_right (n := 2) (by decide) short
    exact .inl ⟨small, _, eight, short, unsigned_natCast (by omega)⟩
  · have large := Nat.not_le.mp small
    have top : Nat.clog 2 (max namedFifoMinimumSize size) = 32 :=
      clog_eq_top (by omega) (by unfold namedFifoMinimumSize; omega)
    rw [top]
    exact .inr ⟨large, rfl⟩

end PeridotSw.Fifo.NamedFifo
