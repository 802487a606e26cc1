import Mathlib.Data.List.Forall2
import PeridotSw.Bridge.Avm

/-!
# The answers of the memory channel

Every packet of a stream gets one answer that depends on its bytes only, by one call of
`peridot_sw_hostbridge_gen2_source`.  Two kinds of answers are not what the host waits for:
a read of no bytes calls the source with nothing to send, and a packet without transaction
that is longer than its header is answered without the reset flag, which is set at the
eighth byte and forgotten at the ninth.
-/

namespace PeridotSw.Bridge.AvmAnswers

open PeridotSw.Stream.Ast
open PeridotSw.Stream.Encoding
open PeridotSw.Bridge.Channel
open PeridotSw.Bridge.Source
open PeridotSw.Bridge.Avm

/-! ## The packets of a stream -/

/-- What the bytes of a stream stand for. -/
inductive Symbol where
  | start
  | mark
  | data (byte : UInt8)

/-- The symbols of a stream in which each escape prefix is followed by its escaped byte. -/
def symbols : List UInt8 → Option (List Symbol)
  | [] => some []
  | raw :: rest =>
      if raw = astSop then
        (symbols rest).map (.start :: ·)
      else if raw = astEopPrefix then
        (symbols rest).map (.mark :: ·)
      else if raw = astEscapePrefix then
        match rest with
        | [] => none
        | byte :: later =>
            if byte = astSop ∨ byte = astEopPrefix ∨ byte = astEscapePrefix then none
            else (symbols later).map (.data (byte ^^^ astEscapeXor) :: ·)
      else
        (symbols rest).map (.data raw :: ·)

/-- Where a stream has come to: the bytes of a packet that has begun, and whether the next
one is its last. -/
inductive Place where
  | outside
  | inside (bytes : List UInt8) (marked : Bool)

/-- The place behind a symbol, and the packet that is complete with it. -/
def follow : Place → Symbol → Place × Option (List UInt8)
  | _, .start => (.inside [] false, none)
  | .outside, _ => (.outside, none)
  | .inside bytes _, .mark => (.inside bytes true, none)
  | .inside bytes false, .data byte => (.inside (bytes ++ [byte]) false, none)
  | .inside bytes true, .data byte => (.outside, some (bytes ++ [byte]))

def packets : Place → List Symbol → List (List UInt8)
  | _, [] => []
  | place, symbol :: rest => (follow place symbol).2.toList ++ packets (follow place symbol).1 rest

/-! ## What is asked of an answer -/

/-- The bytes the source is called with. -/
def replyPtr (mem : UInt32 → UInt8) : Reply → List UInt8
  | .bytes data _ => data
  | .memory address size _ =>
      (List.range size.toNat).map fun index => mem (address + UInt32.ofNat index)

def replyFlags : Reply → Nat
  | .bytes _ flags => flags
  | .memory _ _ flags => flags

def astChannelAvm : UInt8 := 0x00

variable {δ : Type}

/-- The channel that `peridot_sw_hostbridge_gen2_avm_init` registers. -/
def avmChannel (sink : δ) : HostbridgeChannel δ where
  number := astChannelAvm
  packetized := true
  dest := sink

/-- What a reply puts on the link. -/
def replyEmitted (sink : δ) (mem : UInt32 → UInt8) (reply : Reply) (bridge : BridgeState δ) :
    List UInt8 :=
  emitted bridge (avmChannel sink) (replyPtr mem reply) (replyFlags reply)

/-- A packet without transaction. -/
def NoTransaction (packet : List UInt8) : Prop := packet.head? = some 0x7f ∧ 8 ≤ packet.length

/-- A reply answers a packet: whichever channel was selected before, it puts one packet on the
link, which is not empty, and selects the channel anew when it answers a packet without
transaction. -/
structure Answers (sink : δ) (mem : UInt32 → UInt8) (packet : List UInt8) (reply : Reply) :
    Prop where
  emits : ∀ bridge, ∃ payload, payload ≠ [] ∧
    (replyEmitted sink mem reply bridge = packetBytes payload ∨
      replyEmitted sink mem reply bridge =
        channelPrefixBytes astChannelAvm ++ packetBytes payload)
  reset : NoTransaction packet →
    replyFlags reply &&& hostbridgeGen2SourceReset ≠ 0 ∧
      ∀ bridge, channelPrefixBytes astChannelAvm <+: replyEmitted sink mem reply bridge

/-- Every packet of the stream has one answer, in order, and there are no others. -/
def EachAnswered (sink : δ) (mem : UInt32 → UInt8) (calls : List (List UInt8))
    (list : List Symbol) : Prop :=
  List.Forall₂ (Answers sink mem) (packets .outside list) (avmCalls initial calls).2

/-! ## When it is answered so -/

def header (packet : List UInt8) : AvmState :=
  { initial with buffer := fun index => packet.getD index 0 }

def Reads (packet : List UInt8) : Prop :=
  8 ≤ packet.length ∧ (packet.getD 0 0 = 0x10 ∨ packet.getD 0 0 = 0x14)

instance (packet : List UInt8) : Decidable (Reads packet) := inferInstanceAs (Decidable (_ ∧ _))

def OutOfRange (address : UInt32) (size : UInt16) : Prop :=
  address < avmReadableBase ∨ avmReadableEnd < address + size.toUInt32

instance (address : UInt32) (size : UInt16) : Decidable (OutOfRange address size) :=
  inferInstanceAs (Decidable (_ ∨ _))

def EmptyRead (packet : List UInt8) : Prop :=
  Reads packet ∧ (header packet).size = 0 ∧ ¬OutOfRange (header packet).address 0

instance (packet : List UInt8) : Decidable (EmptyRead packet) :=
  inferInstanceAs (Decidable (_ ∧ _ ∧ _))

/-- A packet without transaction that goes on behind its header. -/
def LongNoTransaction (packet : List UInt8) : Prop :=
  packet.head? = some 0x7f ∧ 8 < packet.length

/-! ## The answer to a packet -/

/-- The flags the last byte of a packet finds. -/
def flagsOf (packet : List UInt8) : Nat :=
  if packet.length = 8 ∧ packet.getD 0 0 = 0x7f then
    hostbridgeGen2SourcePacketized ||| hostbridgeGen2SourceReset
  else hostbridgeGen2SourcePacketized

def replyTo (packet : List UInt8) : Reply :=
  if Reads packet then
    if OutOfRange (header packet).address (header packet).size then
      .bytes [0] (flagsOf packet)
    else
      .memory (header packet).address (header packet).size (flagsOf packet)
  else
    .bytes [packet.getD 0 0 ^^^ 0x80, 0, 0, 0] (flagsOf packet)

/-! ## The sink follows the packets -/

/-- The offset behind some bytes of a packet. -/
def offsetOf (bytes : List UInt8) : Nat :=
  if bytes.length < avmOffsetFull then bytes.length
  else if bytes.getD 0 0 = 0x00 ∨ bytes.getD 0 0 = 0x04 then avmOffsetWrite
  else if bytes.getD 0 0 = 0x10 ∨ bytes.getD 0 0 = 0x14 then avmOffsetRead
  else avmOffsetNotr

/-- The buffer holds the first bytes of a packet. -/
structure Collected (state : AvmState) (bytes : List UInt8) : Prop where
  offset : state.offset = offsetOf bytes
  buffer : ∀ index : Fin 8, (index : Nat) < bytes.length → state.buffer index = bytes.getD index 0

/-- The state of the sink at a place of the stream. -/
def Follows (state : AvmState) : Place → Prop
  | .outside => state.escapePrefix = false ∧ state.insidePacket = false
  | .inside bytes marked => state.escapePrefix = false ∧ state.insidePacket = true ∧
      state.eopPrefix = marked ∧ Collected state bytes

theorem offsetOf_of_full {bytes : List UInt8} (full : avmOffsetFull ≤ bytes.length) :
    avmOffsetFull < offsetOf bytes := by
  unfold offsetOf
  rw [if_neg (Nat.not_lt.mpr full)]
  split
  · decide
  · split <;> decide

theorem getD_append_left {bytes more : List UInt8} {index : Nat} (bound : index < bytes.length) :
    (bytes ++ more).getD index 0 = bytes.getD index 0 := by
  rw [List.getD_eq_getElem?_getD, List.getD_eq_getElem?_getD, List.getElem?_append_left bound]

/-- A byte of the header is stored behind those before it. -/
theorem storeByte_of_short {state : AvmState} {bytes : List UInt8}
    (collected : Collected state bytes) (short : bytes.length < avmOffsetFull) (byte : UInt8) :
    (storeByte state byte).offset = (bytes ++ [byte]).length ∧
      ∀ index : Fin 8, (index : Nat) < (bytes ++ [byte]).length →
        (storeByte state byte).buffer index = (bytes ++ [byte]).getD index 0 := by
  have offset : state.offset = bytes.length := by rw [collected.offset, offsetOf, if_pos short]
  have length : (bytes ++ [byte]).length = bytes.length + 1 := List.length_append
  unfold storeByte
  rw [if_pos (offset ▸ short), length, offset]
  refine ⟨rfl, fun index bound => ?_⟩
  dsimp only
  by_cases last : (index : Nat) = bytes.length
  · rw [if_pos last, last]
    simp
  · rw [if_neg last, getD_append_left (by omega)]
    exact collected.buffer index (by omega)

/-- The eighth byte decides what the packet is. -/
theorem classify_of_full {state : AvmState} {packet : List UInt8}
    (full : packet.length = avmOffsetFull) (offset : state.offset = avmOffsetFull)
    (buffer : ∀ index : Fin 8, (index : Nat) < packet.length →
      state.buffer index = packet.getD index 0) :
    Collected (classify state).1 packet ∧ (classify state).2 = flagsOf packet := by
  have first : state.buffer 0 = packet.getD 0 0 := buffer 0 (by rw [full]; decide)
  have long : ¬ packet.length < avmOffsetFull := by omega
  unfold classify
  rw [if_pos offset, first]
  by_cases write : packet.getD 0 0 = 0x00 ∨ packet.getD 0 0 = 0x04
  · have other : ¬ (packet.length = 8 ∧ packet.getD 0 0 = 0x7f) := by
      rintro ⟨-, zero⟩
      rw [zero] at write
      revert write
      decide
    rw [if_pos write]
    exact ⟨⟨by rw [offsetOf, if_neg long, if_pos write], buffer⟩, by rw [flagsOf, if_neg other]⟩
  rw [if_neg write]
  by_cases read : packet.getD 0 0 = 0x10 ∨ packet.getD 0 0 = 0x14
  · have other : ¬ (packet.length = 8 ∧ packet.getD 0 0 = 0x7f) := by
      rintro ⟨-, zero⟩
      rw [zero] at read
      revert read
      decide
    rw [if_pos read]
    exact ⟨⟨by rw [offsetOf, if_neg long, if_neg write, if_pos read], buffer⟩,
      by rw [flagsOf, if_neg other]⟩
  rw [if_neg read]
  have notr : offsetOf packet = avmOffsetNotr := by
    rw [offsetOf, if_neg long, if_neg write, if_neg read]
  by_cases none : packet.getD 0 0 = 0x7f
  · rw [if_pos none]
    exact ⟨⟨notr.symm, buffer⟩, by rw [flagsOf, if_pos ⟨full, none⟩]⟩
  · rw [if_neg none]
    exact ⟨⟨notr.symm, buffer⟩, by rw [flagsOf, if_neg fun both => none both.2]⟩

theorem classify_storeByte {state : AvmState} {bytes : List UInt8}
    (collected : Collected state bytes) (byte : UInt8) :
    Collected (classify (storeByte state byte)).1 (bytes ++ [byte]) ∧
      (classify (storeByte state byte)).2 = flagsOf (bytes ++ [byte]) := by
  have length : (bytes ++ [byte]).length = bytes.length + 1 := List.length_append
  by_cases short : bytes.length < avmOffsetFull
  · obtain ⟨offset, buffer⟩ := storeByte_of_short collected short byte
    by_cases full : (bytes ++ [byte]).length = avmOffsetFull
    · exact classify_of_full full (offset.trans full) buffer
    · have brief : (bytes ++ [byte]).length < avmOffsetFull := by omega
      unfold classify
      rw [if_neg (by rwa [offset])]
      refine ⟨⟨by rw [offset, offsetOf, if_pos brief], buffer⟩, ?_⟩
      rw [flagsOf, if_neg fun both => full both.1]
  · have long : avmOffsetFull ≤ bytes.length := Nat.le_of_not_lt short
    have behind := offsetOf_of_full long
    have stored : storeByte state byte = state := by
      unfold storeByte
      rw [collected.offset, if_neg (by omega)]
    have first : (bytes ++ [byte]).getD 0 0 = bytes.getD 0 0 :=
      getD_append_left (Nat.lt_of_lt_of_le (by decide) long)
    have same : offsetOf (bytes ++ [byte]) = offsetOf bytes := by
      unfold offsetOf
      rw [if_neg (by omega), if_neg short, first]
    rw [stored]
    unfold classify
    rw [collected.offset, if_neg (by omega)]
    refine ⟨⟨collected.offset.trans same.symm, fun index bound => ?_⟩, ?_⟩
    · have low : (index : Nat) < bytes.length := Nat.lt_of_lt_of_le index.isLt long
      rw [getD_append_left low]
      exact collected.buffer index low
    · have other : (bytes ++ [byte]).length ≠ 8 := by
        have eight : avmOffsetFull = 8 := rfl
        omega
      rw [flagsOf, if_neg fun both => other both.1]

theorem classify_fields (state : AvmState) :
    (classify state).1.escapePrefix = state.escapePrefix ∧
      (classify state).1.insidePacket = state.insidePacket := by
  unfold classify
  repeat' split
  all_goals exact ⟨rfl, rfl⟩

theorem storeByte_fields (state : AvmState) (byte : UInt8) :
    (storeByte state byte).escapePrefix = state.escapePrefix ∧
      (storeByte state byte).insidePacket = state.insidePacket := by
  unfold storeByte
  split <;> exact ⟨rfl, rfl⟩

theorem offsetOf_eq_read (packet : List UInt8) :
    offsetOf packet = avmOffsetRead ↔ Reads packet := by
  unfold offsetOf Reads
  by_cases short : packet.length < avmOffsetFull
  · have brief : packet.length < 8 := short
    have read : avmOffsetRead = 10 := rfl
    rw [if_pos short]
    constructor
    · intro ten
      omega
    · rintro ⟨long, -⟩
      omega
  rw [if_neg short]
  have long : 8 ≤ packet.length := Nat.le_of_not_lt short
  by_cases write : packet.getD 0 0 = 0x00 ∨ packet.getD 0 0 = 0x04
  · rw [if_pos write]
    constructor
    · intro same
      cases same
    · rintro ⟨-, read⟩
      rcases write with first | first <;> rw [first] at read <;> revert read <;> decide
  rw [if_neg write]
  by_cases read : packet.getD 0 0 = 0x10 ∨ packet.getD 0 0 = 0x14
  · rw [if_pos read]
    exact ⟨fun _ => ⟨long, read⟩, fun _ => rfl⟩
  · rw [if_neg read]
    constructor
    · intro same
      cases same
    · intro reads
      exact absurd reads.2 read

/-- Address and size are the last six bytes of the header. -/
theorem request_congr {first second : AvmState}
    (same : ∀ index : Fin 8, 2 ≤ (index : Nat) → first.buffer index = second.buffer index) :
    first.address = second.address ∧ first.size = second.size := by
  constructor
  · simp only [AvmState.address, AvmState.word1, same 4 (by decide), same 5 (by decide),
      same 6 (by decide), same 7 (by decide)]
  · simp only [AvmState.size, AvmState.halfword1, same 2 (by decide), same 3 (by decide)]

theorem finishPacket_reply {state : AvmState} {packet : List UInt8}
    (collected : Collected state packet) (nonempty : packet ≠ []) :
    (finishPacket state (flagsOf packet)).2 = [replyTo packet] := by
  have read := offsetOf_eq_read packet
  rw [← collected.offset] at read
  unfold finishPacket replyTo
  dsimp only
  by_cases reads : Reads packet
  · have long := reads.1
    have same : ∀ index : Fin 8, 2 ≤ (index : Nat) →
        (if index = 0 then state.buffer 0 ^^^ 0x80 else if index = 1 then 0x00
          else state.buffer index) = (header packet).buffer index := by
      intro index high
      rw [if_neg (by rintro rfl; exact absurd high (by decide)),
        if_neg (by rintro rfl; exact absurd high (by decide))]
      exact collected.buffer index (by omega)
    rw [if_pos (read.mpr reads), if_pos reads]
    obtain ⟨address, size⟩ := @request_congr
      (AvmState.mk state.escapePrefix false false state.offset fun index =>
        if index = 0 then state.buffer 0 ^^^ 0x80
        else if index = 1 then 0x00
        else state.buffer index) (header packet) same
    rw [address, size]
    by_cases range : OutOfRange (header packet).address (header packet).size
    · have fails : (header packet).address < avmReadableBase ∨
          avmReadableEnd < (header packet).address + (header packet).size.toUInt32 := range
      rw [if_pos fails, if_pos range]
    · have passes : ¬((header packet).address < avmReadableBase ∨
          avmReadableEnd < (header packet).address + (header packet).size.toUInt32) := range
      rw [if_neg passes, if_neg range]
  · have first : state.buffer 0 = packet.getD 0 0 :=
      collected.buffer 0 (List.length_pos_iff.mpr nonempty)
    rw [if_neg fun ten => reads (read.mp ten), if_neg reads, ← first]
    rfl

theorem finishPacket_fields (state : AvmState) (flags : Nat) :
    (finishPacket state flags).1.escapePrefix = state.escapePrefix ∧
      (finishPacket state flags).1.insidePacket = false := by
  unfold finishPacket
  by_cases read : state.offset = avmOffsetRead
  · rw [if_pos read]
    split <;> exact ⟨rfl, rfl⟩
  · rw [if_neg read]
    exact ⟨rfl, rfl⟩

theorem payloadByte_follows {state : AvmState} {bytes : List UInt8} {marked : Bool}
    (follows : Follows state (.inside bytes marked)) (byte : UInt8) :
    Follows (payloadByte state byte).1 (follow (.inside bytes marked) (.data byte)).1 ∧
      (payloadByte state byte).2 =
        ((follow (.inside bytes marked) (.data byte)).2.map replyTo).toList := by
  obtain ⟨escape, inside, eop, collected⟩ := follows
  obtain ⟨longer, flags⟩ := classify_storeByte collected byte
  obtain ⟨escape', inside'⟩ := classify_fields (storeByte state byte)
  obtain ⟨escape'', inside''⟩ := storeByte_fields state byte
  unfold payloadByte
  dsimp only
  rw [classify_eopPrefix, storeByte_eopPrefix, eop, flags]
  cases marked with
  | false =>
      rw [if_pos rfl]
      exact ⟨⟨by rw [escape', escape'', escape], by rw [inside', inside'', inside],
        by rw [classify_eopPrefix, storeByte_eopPrefix, eop], longer⟩, rfl⟩
  | true =>
      rw [if_neg (by decide), finishPacket_reply longer (by simp)]
      obtain ⟨kept, outside⟩ := finishPacket_fields (classify (storeByte state byte)).1
        (flagsOf (bytes ++ [byte]))
      exact ⟨⟨by rw [kept, escape', escape'', escape], outside⟩, rfl⟩

/-- A byte that is no framing byte, outside or inside a packet. -/
theorem sinkByte_data {state : AvmState} {raw : UInt8} (escaped : Bool)
    (plain : raw ≠ astSop ∧ raw ≠ astEopPrefix ∧ raw ≠ astEscapePrefix) {place : Place}
    (follows : Follows state place) :
    Follows (sinkByte { state with escapePrefix := escaped } raw).1
        (follow place (.data (unescape escaped raw))).1 ∧
      (sinkByte { state with escapePrefix := escaped } raw).2 =
        ((follow place (.data (unescape escaped raw))).2.map replyTo).toList := by
  unfold sinkByte
  rw [if_neg plain.1, if_neg plain.2.1, if_neg plain.2.2]
  cases place with
  | outside =>
      obtain ⟨escape, outside⟩ := follows
      rw [if_pos outside]
      exact ⟨⟨rfl, outside⟩, rfl⟩
  | inside bytes marked =>
      obtain ⟨escape, inside, eop, collected⟩ := follows
      rw [if_neg (by simp [inside])]
      have rested : Follows { state with escapePrefix := false } (.inside bytes marked) :=
        ⟨rfl, inside, eop, collected.offset, collected.buffer⟩
      exact payloadByte_follows rested _

theorem Follows.unescaped {state : AvmState} {place : Place} (follows : Follows state place) :
    state.escapePrefix = false := by
  cases place <;> exact follows.1

theorem sinkByte_start {state : AvmState} {place : Place} (follows : Follows state place) :
    Follows (sinkByte state astSop).1 (.inside [] false) ∧ (sinkByte state astSop).2 = [] := by
  unfold sinkByte
  rw [if_pos rfl]
  exact ⟨⟨follows.unescaped, rfl, rfl, rfl, nofun⟩, rfl⟩

theorem sinkByte_mark {state : AvmState} {place : Place} (follows : Follows state place) :
    Follows (sinkByte state astEopPrefix).1 (follow place .mark).1 ∧
      (sinkByte state astEopPrefix).2 = [] ∧ (follow place .mark).2 = none := by
  unfold sinkByte
  rw [if_neg (by decide), if_pos rfl]
  cases place with
  | outside => exact ⟨follows, rfl, rfl⟩
  | inside bytes marked =>
      obtain ⟨escape, inside, -, collected⟩ := follows
      exact ⟨⟨escape, inside, rfl, collected.offset, collected.buffer⟩, rfl, rfl⟩

/-- The sink answers every packet by its bytes. -/
theorem avmSink_replies {stream : List UInt8} {list : List Symbol}
    (read : symbols stream = some list) {state : AvmState} {place : Place}
    (follows : Follows state place) :
    (avmSink state stream).2 = (packets place list).map replyTo := by
  fun_induction symbols stream generalizing list state place with
  | case1 =>
      cases read
      rfl
  | case2 rest ih =>
      obtain ⟨later, found, rfl⟩ := Option.map_eq_some_iff.mp read
      obtain ⟨next, silent⟩ := sinkByte_start follows
      rw [avmSink, silent, ih found next]
      cases place <;> rfl
  | case3 rest _ ih =>
      obtain ⟨later, found, rfl⟩ := Option.map_eq_some_iff.mp read
      obtain ⟨next, silent, none⟩ := sinkByte_mark follows
      rw [avmSink, silent, ih found next, packets, none]
      rfl
  | case4 => cases read
  | case5 => cases read
  | case6 byte later plain _ _ ih =>
      obtain ⟨list, found, rfl⟩ := Option.map_eq_some_iff.mp read
      obtain ⟨next, answers⟩ := sinkByte_data true (by simpa [not_or] using plain) follows
      have escape : sinkByte state astEscapePrefix =
          ({ state with escapePrefix := true }, []) := rfl
      rw [avmSink, escape, avmSink, answers, ih found next, packets, List.map_append,
        Option.toList_map]
      rfl
  | case7 raw rest start mark escape ih =>
      obtain ⟨later, found, rfl⟩ := Option.map_eq_some_iff.mp read
      obtain ⟨next, answers⟩ := sinkByte_data state.escapePrefix ⟨start, mark, escape⟩ follows
      have same : unescape state.escapePrefix raw = raw := by rw [follows.unescaped]; rfl
      rw [same] at next answers
      rw [avmSink, answers, ih found next, packets, List.map_append, Option.toList_map]

/-! ## Which packets are answered -/

theorem packetized_flagsOf (packet : List UInt8) :
    flagsOf packet &&& hostbridgeGen2SourcePacketized ≠ 0 := by
  unfold flagsOf
  split <;> decide

theorem replyFlags_replyTo (packet : List UInt8) :
    replyFlags (replyTo packet) = flagsOf packet := by
  unfold replyTo
  split
  · split <;> rfl
  · rfl

/-- Only a read of no bytes has nothing to send. -/
theorem replyPtr_replyTo (mem : UInt32 → UInt8) (packet : List UInt8) :
    replyPtr mem (replyTo packet) = [] ↔ EmptyRead packet := by
  unfold replyTo EmptyRead
  by_cases reads : Reads packet
  · rw [if_pos reads]
    by_cases range : OutOfRange (header packet).address (header packet).size
    · rw [if_pos range]
      refine ⟨nofun, ?_⟩
      rintro ⟨-, size, passes⟩
      exact absurd (size ▸ range) passes
    · rw [if_neg range]
      simp only [replyPtr, List.map_eq_nil_iff, List.range_eq_nil]
      constructor
      · intro none
        have size : (header packet).size = 0 := UInt16.toNat_inj.mp none
        exact ⟨reads, size, size ▸ range⟩
      · rintro ⟨-, size, -⟩
        rw [size]
        rfl
  · rw [if_neg reads]
    exact ⟨nofun, fun both => absurd both.1 reads⟩

theorem replyEmitted_replyTo (sink : δ) (mem : UInt32 → UInt8) (packet : List UInt8)
    (bridge : BridgeState δ) :
    replyEmitted sink mem (replyTo packet) bridge =
      (if (astChannelAvm.toNat : Int) ≠ bridge.sourceChannelNumber ∨
          flagsOf packet &&& hostbridgeGen2SourceReset ≠ 0 then
        channelPrefixBytes astChannelAvm else []) ++
      (if EmptyRead packet then [] else packetBytes (replyPtr mem (replyTo packet))) := by
  have packetized := packetized_flagsOf packet
  unfold replyEmitted
  rw [replyFlags_replyTo, emitted_eq, channelPrefixBytes_eq]
  congr 1
  rw [if_neg fun both => packetized both.2, decide_eq_true packetized]
  by_cases nothing : EmptyRead packet
  · rw [if_pos nothing, (replyPtr_replyTo mem packet).mpr nothing, if_neg fun both => both.2 rfl]
    rfl
  · rw [if_neg nothing,
      if_pos ⟨packetized, fun empty => nothing ((replyPtr_replyTo mem packet).mp empty)⟩]
    rfl

theorem reset_flagsOf {packet : List UInt8} (none : NoTransaction packet) :
    flagsOf packet &&& hostbridgeGen2SourceReset ≠ 0 ↔ ¬LongNoTransaction packet := by
  obtain ⟨first, long⟩ := none
  have type : packet.getD 0 0 = 0x7f := by
    rw [List.getD_eq_getElem?_getD, ← List.head?_eq_getElem?, first]
    rfl
  unfold flagsOf LongNoTransaction
  by_cases full : packet.length = 8
  · rw [if_pos ⟨full, type⟩]
    refine ⟨fun _ both => ?_, fun _ => by decide⟩
    omega
  · rw [if_neg fun both => full both.1]
    refine ⟨fun nonzero => absurd rfl nonzero, fun brief => ?_⟩
    exact absurd ⟨first, by omega⟩ brief

/-- A packet is answered as it should be exactly if it is not of these kinds. -/
theorem answers_replyTo_iff (sink : δ) (mem : UInt32 → UInt8) (packet : List UInt8) :
    Answers sink mem packet (replyTo packet) ↔
      ¬EmptyRead packet ∧ ¬LongNoTransaction packet := by
  constructor
  · intro answers
    refine ⟨fun nothing => ?_, fun long => ?_⟩
    · have other : (astChannelAvm.toNat : Int) ≠
          (freshBridge (Registry.empty : Registry δ)).sourceChannelNumber := by
        change (0 : Int) ≠ -1
        decide
      obtain ⟨payload, nonempty, sent⟩ := answers.emits (freshBridge Registry.empty)
      rw [replyEmitted_replyTo, if_pos nothing, if_pos (.inl other), List.append_nil] at sent
      rcases sent with same | same
      · have first := congrArg List.head? same
        cases first
      · have length := congrArg List.length same
        rw [List.length_append, packetBytes, List.length_cons] at length
        omega
    · have none : NoTransaction packet := ⟨long.1, Nat.le_of_lt long.2⟩
      have flags := (answers.reset none).1
      rw [replyFlags_replyTo] at flags
      exact (reset_flagsOf none).mp flags long
  · rintro ⟨sends, brief⟩
    constructor
    · intro bridge
      refine ⟨replyPtr mem (replyTo packet),
        fun empty => sends ((replyPtr_replyTo mem packet).mp empty), ?_⟩
      rw [replyEmitted_replyTo, if_neg sends]
      split
      · exact .inr rfl
      · exact .inl rfl
    · intro none
      have flags := (reset_flagsOf none).mpr brief
      refine ⟨by rwa [replyFlags_replyTo], fun bridge => ?_⟩
      rw [replyEmitted_replyTo, if_pos (.inr flags)]
      exact List.prefix_append _ _

/-- However the stream is cut, each of its packets is answered exactly if none of them is a
read of no bytes, or a packet without transaction that goes on behind its header. -/
theorem eachAnswered_iff (sink : δ) (mem : UInt32 → UInt8) {calls : List (List UInt8)}
    {list : List Symbol} (read : symbols calls.flatten = some list) :
    EachAnswered sink mem calls list ↔
      ∀ packet ∈ packets .outside list, ¬EmptyRead packet ∧ ¬LongNoTransaction packet := by
  have fresh : Follows initial .outside := ⟨rfl, rfl⟩
  unfold EachAnswered
  rw [avmCalls_eq, avmSink_replies read fresh, List.forall₂_map_right_iff, List.forall₂_same]
  exact forall₂_congr fun packet _ => answers_replyTo_iff sink mem packet

/-- A packet without transaction of eight bytes, in two pieces. -/
theorem eachAnswered_iff_reset :
    EachAnswered () (fun _ => 0) [[0x7a, 0x7f, 0, 0, 0], [0, 0, 0, 0x7b, 0]]
      [.start, .data 0x7f, .data 0, .data 0, .data 0, .data 0, .data 0, .data 0, .mark,
        .data 0] ↔
      ∀ packet ∈ packets .outside
          [.start, .data 0x7f, .data 0, .data 0, .data 0, .data 0, .data 0, .data 0, .mark,
            .data 0],
        ¬EmptyRead packet ∧ ¬LongNoTransaction packet :=
  eachAnswered_iff () _ rfl

/-- A read of no bytes at the bottom of the window has no answer. -/
theorem eachAnswered_fails : ¬ ∀ (mem : UInt32 → UInt8) (calls : List (List UInt8))
    (list : List Symbol), symbols calls.flatten = some list →
      EachAnswered () mem calls list := by
  intro always
  have each := always (fun _ => 0) [[0x7a, 0x10, 0, 0, 0, 0x10, 0, 0, 0x7b, 0]] _ rfl
  have one : List.Forall₂ (Answers () fun _ => 0) [[0x10, 0, 0, 0, 0x10, 0, 0, 0]]
      [replyTo [0x10, 0, 0, 0, 0x10, 0, 0, 0]] := each
  have answered := (answers_replyTo_iff ..).mp (List.forall₂_cons.mp one).1
  exact answered.1 (by decide)

end PeridotSw.Bridge.AvmAnswers
