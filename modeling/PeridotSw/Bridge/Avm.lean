import Mathlib.Algebra.Group.Nat.Defs
import PeridotSw.Bridge.Source

/-!
# The memory channel of the host bridge

`avm_sink` collects the eight header bytes of a transaction packet and answers
when the packet ends.  A read is answered from memory when its range passes the
check against the readable window.  The sum in that check is a 32-bit sum: it
lets a range pass whose end lies beyond the top of the address space.
-/

namespace PeridotSw.Bridge.Avm

open PeridotSw.Stream.Ast
open PeridotSw.Bridge.Source

def avmReadableBase : UInt32 := 0x10000000
def avmReadableSpan : UInt32 := 16
def avmReadableEnd : UInt32 := avmReadableBase + avmReadableSpan

def avmOffsetInit : Nat := 0
def avmOffsetFull : Nat := 8
def avmOffsetWrite : Nat := 9
def avmOffsetRead : Nat := 10
def avmOffsetNotr : Nat := 11

/-- `peridot_sw_hostbridge_gen2_avm_state_s`, its buffer seen as bytes. -/
structure AvmState where
  escapePrefix : Bool
  eopPrefix : Bool
  insidePacket : Bool
  offset : Nat
  buffer : Fin 8 → UInt8

def initial : AvmState where
  escapePrefix := false
  eopPrefix := false
  insidePacket := false
  offset := avmOffsetInit
  buffer := fun _ => 0

def swap16 (x : UInt16) : UInt16 := (x >>> 8) ||| (x <<< 8)

def swap32 (x : UInt32) : UInt32 :=
  ((swap16 x.toUInt16).toUInt32 <<< 16) ||| (swap16 (x >>> 16).toUInt16).toUInt32

/-- `buffer.u16[1]` on a little-endian machine. -/
def AvmState.halfword1 (state : AvmState) : UInt16 :=
  (state.buffer 2).toUInt16 ||| ((state.buffer 3).toUInt16 <<< 8)

/-- `buffer.u32[1]` on a little-endian machine. -/
def AvmState.word1 (state : AvmState) : UInt32 :=
  (state.buffer 4).toUInt32 ||| ((state.buffer 5).toUInt32 <<< 8) |||
    ((state.buffer 6).toUInt32 <<< 16) ||| ((state.buffer 7).toUInt32 <<< 24)

/-- One call of `peridot_sw_hostbridge_gen2_source`, on bytes of the program's own or
on memory at an address the host has chosen. -/
inductive Reply where
  | bytes (data : List UInt8) (flags : Nat)
  | memory (address : UInt32) (size : UInt16) (flags : Nat)

/-- A data byte goes into the buffer while the header is incomplete. -/
def storeByte (state : AvmState) (byte : UInt8) : AvmState :=
  if state.offset < avmOffsetFull then
    { state with
      buffer := fun index => if index = state.offset then byte else state.buffer index
      offset := state.offset + 1 }
  else
    state

/-- The complete header decides what the packet is; with the flags for the reply. -/
def classify (state : AvmState) : AvmState × Nat :=
  if state.offset = avmOffsetFull then
    if state.buffer 0 = 0x00 ∨ state.buffer 0 = 0x04 then
      ({ state with offset := avmOffsetWrite }, hostbridgeGen2SourcePacketized)
    else if state.buffer 0 = 0x10 ∨ state.buffer 0 = 0x14 then
      ({ state with offset := avmOffsetRead }, hostbridgeGen2SourcePacketized)
    else if state.buffer 0 = 0x7f then
      ({ state with offset := avmOffsetNotr },
        hostbridgeGen2SourcePacketized ||| hostbridgeGen2SourceReset)
    else
      ({ state with offset := avmOffsetNotr }, hostbridgeGen2SourcePacketized)
  else
    (state, hostbridgeGen2SourcePacketized)

def AvmState.address (state : AvmState) : UInt32 := swap32 state.word1

def AvmState.size (state : AvmState) : UInt16 := swap16 state.halfword1

def finishPacket (state : AvmState) (flags : Nat) : AvmState × List Reply :=
  let answered : AvmState :=
    { state with
      eopPrefix := false
      insidePacket := false
      buffer := fun index =>
        if index = 0 then state.buffer 0 ^^^ 0x80
        else if index = 1 then 0x00
        else state.buffer index }
  if state.offset = avmOffsetRead then
    if answered.address < avmReadableBase ∨
        avmReadableEnd < answered.address + answered.size.toUInt32 then
      (answered, [.bytes [0] flags])
    else
      (answered, [.memory answered.address answered.size flags])
  else
    let cleared : AvmState :=
      { answered with
        buffer := fun index =>
          if index = 2 ∨ index = 3 then 0 else answered.buffer index }
    (cleared, [.bytes
      [cleared.buffer 0, cleared.buffer 1, cleared.buffer 2, cleared.buffer 3] flags])

def payloadByte (state : AvmState) (byte : UInt8) : AvmState × List Reply :=
  let classified := classify (storeByte state byte)
  if classified.1.eopPrefix = false then
    (classified.1, [])
  else
    finishPacket classified.1 classified.2

/-- The loop body of `avm_sink`. -/
def sinkByte (state : AvmState) (raw : UInt8) : AvmState × List Reply :=
  if raw = astSop then
    ({ state with offset := avmOffsetInit, insidePacket := true, eopPrefix := false }, [])
  else if raw = astEopPrefix then
    ({ state with eopPrefix := true }, [])
  else if raw = astEscapePrefix then
    ({ state with escapePrefix := true }, [])
  else if state.insidePacket = false then
    ({ state with escapePrefix := false }, [])
  else
    payloadByte { state with escapePrefix := false } (unescape state.escapePrefix raw)

/-- `avm_sink`, which takes its whole buffer: the state afterwards and the replies. -/
def avmSink : AvmState → List UInt8 → AvmState × List Reply
  | state, [] => (state, [])
  | state, raw :: rest =>
      let first := sinkByte state raw
      let later := avmSink first.1 rest
      (later.1, first.2 ++ later.2)

def avmCalls : AvmState → List (List UInt8) → AvmState × List Reply
  | state, [] => (state, [])
  | state, buffer :: rest =>
      let first := avmSink state buffer
      let later := avmCalls first.1 rest
      (later.1, first.2 ++ later.2)

/-! ## Which replies are confined -/

/-- Every byte of a reply from memory lies in the readable window. -/
def Confined : Reply → Prop
  | .bytes _ _ => True
  | .memory address size _ => ∀ index, index < size.toNat →
      avmReadableBase.toNat ≤ (address.toNat + index) % 2 ^ 32 ∧
        (address.toNat + index) % 2 ^ 32 < avmReadableEnd.toNat

/-- The header of the read packet that ends with this byte. -/
def readRequest (state : AvmState) (raw : UInt8) : Option (UInt32 × UInt16) :=
  if raw = astSop ∨ raw = astEopPrefix ∨ raw = astEscapePrefix ∨
      state.insidePacket = false ∨ state.eopPrefix = false then
    none
  else
    let header := (classify (storeByte { state with escapePrefix := false }
      (unescape state.escapePrefix raw))).1
    if header.offset = avmOffsetRead then some (header.address, header.size) else none

/-- If a read packet ends here, its range does not run past the top of the address
space. -/
def RangeBelowTop (state : AvmState) (raw : UInt8) : Prop :=
  ∀ address size, readRequest state raw = some (address, size) →
    address.toNat + size.toNat < 2 ^ 32

theorem avmReadableBase_toNat : avmReadableBase.toNat = 0x10000000 := rfl

theorem avmReadableEnd_toNat : avmReadableEnd.toNat = 0x10000010 := rfl

/-- The range check, in numbers. -/
theorem passes_iff (address : UInt32) (size : UInt16) :
    ¬(address < avmReadableBase ∨ avmReadableEnd < address + size.toUInt32) ↔
      0x10000000 ≤ address.toNat ∧
        (address.toNat + size.toNat) % 2 ^ 32 ≤ 0x10000010 := by
  rw [not_or, UInt32.not_lt, UInt32.not_lt, UInt32.le_iff_toNat_le, UInt32.le_iff_toNat_le,
    UInt32.toNat_add, avmReadableBase_toNat, avmReadableEnd_toNat]
  rfl

/-- What the check lets pass is confined exactly when the sum does not wrap. -/
theorem confined_memory {address : UInt32} {size : UInt16} {flags : Nat}
    (passed : ¬(address < avmReadableBase ∨ avmReadableEnd < address + size.toUInt32)) :
    Confined (.memory address size flags) ↔ address.toNat + size.toNat < 2 ^ 32 := by
  have addressBound := address.toNat_lt
  have sizeBound := size.toNat_lt
  rw [passes_iff] at passed
  simp only [Confined, avmReadableBase_toNat, avmReadableEnd_toNat]
  constructor
  · intro inside
    refine Nat.lt_of_not_le fun wraps => ?_
    have first := inside 0 (by omega)
    omega
  · intro below index bound
    omega

/-- A range that runs past the top passes the check. -/
theorem passes_of_wraps {address : UInt32} {size : UInt16}
    (wraps : 2 ^ 32 ≤ address.toNat + size.toNat) :
    ¬(address < avmReadableBase ∨ avmReadableEnd < address + size.toUInt32) := by
  have addressBound := address.toNat_lt
  have sizeBound := size.toNat_lt
  rw [passes_iff]
  omega

/-- The end of a packet answers with a confined reply exactly when a read does not run
past the top. -/
theorem finishPacket_confined (state : AvmState) (flags : Nat) :
    (∀ reply ∈ (finishPacket state flags).2, Confined reply) ↔
      (state.offset = avmOffsetRead →
        state.address.toNat + state.size.toNat < 2 ^ 32) := by
  unfold finishPacket
  dsimp only
  by_cases isRead : state.offset = avmOffsetRead
  · rw [if_pos isRead]
    have address : (AvmState.mk state.escapePrefix false false state.offset fun index =>
        if index = 0 then state.buffer 0 ^^^ 0x80
        else if index = 1 then 0x00 else state.buffer index).address = state.address := rfl
    have size : (AvmState.mk state.escapePrefix false false state.offset fun index =>
        if index = 0 then state.buffer 0 ^^^ 0x80
        else if index = 1 then 0x00 else state.buffer index).size = state.size := rfl
    rw [address, size]
    by_cases passed : ¬(state.address < avmReadableBase ∨
        avmReadableEnd < state.address + state.size.toUInt32)
    · rw [if_neg passed, List.forall_mem_singleton, confined_memory passed]
      exact ⟨fun below _ => below, fun all => all isRead⟩
    · have below : state.address.toNat + state.size.toNat < 2 ^ 32 :=
        Nat.lt_of_not_le fun wraps => passed (passes_of_wraps wraps)
      rw [if_pos (Classical.not_not.mp passed), List.forall_mem_singleton]
      exact ⟨fun _ _ => below, fun _ => trivial⟩
  · rw [if_neg isRead, List.forall_mem_singleton]
    exact ⟨fun _ read => absurd read isRead, fun _ => trivial⟩

@[simp] theorem storeByte_eopPrefix (state : AvmState) (byte : UInt8) :
    (storeByte state byte).eopPrefix = state.eopPrefix := by
  unfold storeByte
  split <;> rfl

@[simp] theorem classify_eopPrefix (state : AvmState) :
    (classify state).1.eopPrefix = state.eopPrefix := by
  unfold classify
  split
  · split
    · rfl
    · split
      · rfl
      · split <;> rfl
  · rfl

/-- One byte: its replies are confined exactly when a read packet that ends with it does
not run past the top. -/
theorem sinkByte_confined (state : AvmState) (raw : UInt8) :
    (∀ reply ∈ (sinkByte state raw).2, Confined reply) ↔ RangeBelowTop state raw := by
  unfold sinkByte RangeBelowTop readRequest
  by_cases sop : raw = astSop
  · simp [sop]
  by_cases eop : raw = astEopPrefix
  · simp [eop, show ¬astEopPrefix = astSop by decide]
  by_cases escape : raw = astEscapePrefix
  · simp [escape, show ¬astEscapePrefix = astSop by decide,
      show ¬astEscapePrefix = astEopPrefix by decide]
  rw [if_neg sop, if_neg eop, if_neg escape]
  by_cases outside : state.insidePacket = false
  · simp [outside]
  rw [if_neg outside]
  unfold payloadByte
  simp only [classify_eopPrefix, storeByte_eopPrefix]
  by_cases goesOn : state.eopPrefix = false
  · simp [goesOn]
  rw [if_neg goesOn, finishPacket_confined,
    if_neg (by simp [sop, eop, escape, outside, goesOn])]
  by_cases isRead : (classify (storeByte { state with escapePrefix := false }
      (unescape state.escapePrefix raw))).1.offset = avmOffsetRead
  · simp [isRead]
  · simp [isRead]

theorem avmSink_append (state : AvmState) (first second : List UInt8) :
    avmSink state (first ++ second) =
      ((avmSink (avmSink state first).1 second).1,
        (avmSink state first).2 ++ (avmSink (avmSink state first).1 second).2) := by
  induction first generalizing state with
  | nil => rfl
  | cons raw rest ih =>
      rw [List.cons_append, avmSink, ih]
      simp [avmSink]

/-- Calls do not matter, only the bytes. -/
theorem avmCalls_eq (state : AvmState) (calls : List (List UInt8)) :
    avmCalls state calls = avmSink state calls.flatten := by
  induction calls generalizing state with
  | nil => rfl
  | cons buffer rest ih => rw [avmCalls, ih, List.flatten_cons, avmSink_append]

/-- The bytes of a run from any state. -/
theorem avmSink_confined (state : AvmState) (stream : List UInt8) :
    (∀ reply ∈ (avmSink state stream).2, Confined reply) ↔
      ∀ front raw back, stream = front ++ raw :: back →
        RangeBelowTop (avmSink state front).1 raw := by
  induction stream generalizing state with
  | nil => simp [avmSink]
  | cons byte rest ih =>
      simp only [avmSink, List.forall_mem_append, sinkByte_confined, ih]
      constructor
      · rintro ⟨here, later⟩ front raw back split
        cases front with
        | nil =>
            obtain ⟨rfl, -⟩ := List.cons.inj split
            exact here
        | cons first front =>
            obtain ⟨rfl, split'⟩ := List.cons.inj split
            exact later front raw back split'
      · intro all
        refine ⟨all [] byte rest rfl, fun front raw back split => ?_⟩
        exact all (byte :: front) raw back (by rw [split]; rfl)

/-- In a run of the memory channel every reply from memory is confined to the readable
window if and only if no read packet of the run asks for a range that runs past the
top of the address space. -/
theorem repliesConfined_iff (calls : List (List UInt8)) :
    (∀ reply ∈ (avmCalls initial calls).2, Confined reply) ↔
      ∀ front raw back, calls.flatten = front ++ raw :: back →
        RangeBelowTop (avmSink initial front).1 raw := by
  rw [avmCalls_eq]
  exact avmSink_confined initial calls.flatten

/-- A read of one byte at `ffffffff` passes the check, for the sum is zero. -/
theorem not_repliesConfined_top :
    ¬∀ reply ∈ (avmCalls initial
        [[0x7a, 0x10, 0x00, 0x00, 0x01, 0xff, 0xff, 0xff, 0x7b, 0xff]]).2,
      Confined reply := by
  intro all
  have here := all (.memory 0xffffffff 1 hostbridgeGen2SourcePacketized) (by
    have replies : (avmCalls initial
        [[0x7a, 0x10, 0x00, 0x00, 0x01, 0xff, 0xff, 0xff, 0x7b, 0xff]]).2 =
        [.memory 0xffffffff 1 hostbridgeGen2SourcePacketized] := by rfl
    rw [replies]
    exact .head _)
  have first := here 0 (by decide)
  revert first
  decide

end PeridotSw.Bridge.Avm
