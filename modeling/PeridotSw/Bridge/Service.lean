import PeridotSw.Bridge.Channel

/-!
# The service side of the host bridge

`peridot_sw_hostbridge_gen2_service` reads up to 128 bytes, follows the channel
prefixes in them and passes the stretches between the prefixes to the channel
selected.  For a channel that is not packetized it removes markers and escapes
from its read buffer while it walks over it.  What the calls of
`write_to_channel` pass on is returned as a list; the loop inside that function,
which repeats until the destination has taken everything, is `writeLoop`.
-/

namespace PeridotSw.Bridge.Service

open PeridotSw.Stream.Ast
open PeridotSw.Bridge.Channel

def readBufferLen : Nat := 128

variable {δ : Type}

/-- One call of `write_to_channel` with something to write. -/
structure Delivery (δ : Type) where
  channel : HostbridgeChannel δ
  bytes : List UInt8

/-- `write_to_channel`: nothing without a channel or for an empty range. -/
def writeToChannel (channel : Option (HostbridgeChannel δ)) (buffer : List UInt8)
    (start stop : Int) : List (Delivery δ) :=
  match channel with
  | none => []
  | some found =>
      if 0 < stop - start then
        [⟨found, (buffer.take stop.toNat).drop start.toNat⟩]
      else
        []

/-- The variables of the loop over one read, with the writes made so far. -/
structure Scan (δ : Type) where
  state : BridgeState δ
  buffer : List UInt8
  index : Nat
  head : Nat
  readLen : Nat
  writes : List (Delivery δ)

/-- A channel is selected that wants its stream without markers. -/
def rawSink (state : BridgeState δ) : Bool :=
  match state.sinkChannel with
  | some channel => !channel.packetized
  | none => false

/-- `memmove(buffer, buffer + 1, count)`. -/
def memmoveDown (buffer : List UInt8) (count : Nat) : List UInt8 :=
  (buffer.drop 1).take count ++ buffer.drop count

/-- `--read_len; memmove(buffer, buffer + 1, read_len - index)`. -/
def dropByte (scan : Scan δ) : Scan δ :=
  { scan with
    readLen := scan.readLen - 1
    buffer := memmoveDown scan.buffer (scan.readLen - 1 - scan.index) }

/-- `++index`. -/
def advance (scan : Scan δ) : Scan δ := { scan with index := scan.index + 1 }

/-- The loop body for the byte at `index`. -/
def scanByte (scan : Scan δ) : Scan δ :=
  let byte := scan.buffer.getD scan.index 0
  if byte = astChannelPrefix then
    advance { scan with state := { scan.state with channelPrefix := true } }
  else if byte = astEscapePrefix then
    let marked := { scan with state := { scan.state with escapePrefix := true } }
    advance (if rawSink scan.state then dropByte marked else marked)
  else
    let data := unescape scan.state.escapePrefix byte
    let buffer :=
      if scan.state.escapePrefix && rawSink scan.state then
        scan.buffer.set scan.index data
      else
        scan.buffer
    let state := { scan.state with escapePrefix := false }
    if state.channelPrefix then
      advance
        { scan with
          buffer := buffer
          head := scan.index + 1
          state :=
            { state with
              sinkChannel := findChannel state.registry data
              channelPrefix := false }
          writes := scan.writes ++
            writeToChannel state.sinkChannel buffer scan.head ((scan.index : Int) - 1) }
    else if rawSink state && (data == astSop || data == astEopPrefix) then
      advance (dropByte { scan with buffer := buffer, state := state })
    else
      advance { scan with buffer := buffer, state := state }

/-- The loop `for (index = 0; index < read_len; ++index)`, at most `count` times. -/
def scanBytes : Nat → Scan δ → Scan δ
  | 0, scan => scan
  | count + 1, scan =>
      if scan.index < scan.readLen then scanBytes count (scanByte scan) else scan

/-- `peridot_sw_hostbridge_gen2_service` for the bytes that `read` gave. -/
def peridotSwHostbridgeGen2Service (state : BridgeState δ) (read : List UInt8) :
    BridgeState δ × List (Delivery δ) :=
  let scan := scanBytes read.length
    { state := state
      buffer := read
      index := 0
      head := 0
      readLen := read.length
      writes := [] }
  (scan.state, scan.writes ++
    writeToChannel scan.state.sinkChannel scan.buffer scan.head scan.readLen)

def serve : BridgeState δ → List (List UInt8) → BridgeState δ × List (Delivery δ)
  | state, [] => (state, [])
  | state, read :: rest =>
      let first := peridotSwHostbridgeGen2Service state read
      let tail := serve first.1 rest
      (tail.1, first.2 ++ tail.2)

/-- A way of reading a stream, at most 128 bytes at a time. -/
structure CutOf (reads : List (List UInt8)) (stream : List UInt8) : Prop where
  flatten : reads.flatten = stream
  length : ∀ read ∈ reads, read.length ≤ readBufferLen

/-- The bytes handed to the channel with a number. -/
def bytesFor (number : UInt8) (deliveries : List (Delivery δ)) : List UInt8 :=
  deliveries.flatMap fun delivery =>
    if delivery.channel.number = number then delivery.bytes else []

@[simp] theorem bytesFor_nil (number : UInt8) :
    bytesFor number ([] : List (Delivery δ)) = [] := rfl

@[simp] theorem bytesFor_append (number : UInt8) (first second : List (Delivery δ)) :
    bytesFor number (first ++ second) = bytesFor number first ++ bytesFor number second :=
  List.flatMap_append

/-! ## The service leaves the source alone -/

theorem scanByte_source (scan : Scan δ) :
    (scanByte scan).state.sourceChannelNumber = scan.state.sourceChannelNumber := by
  unfold scanByte
  dsimp only
  split
  · rfl
  · split
    · split <;> rfl
    · split
      · rfl
      · split <;> rfl

theorem scanBytes_source (count : Nat) (scan : Scan δ) :
    (scanBytes count scan).state.sourceChannelNumber = scan.state.sourceChannelNumber := by
  induction count generalizing scan with
  | zero => rfl
  | succ count ih =>
      unfold scanBytes
      split
      · rw [ih, scanByte_source]
      · rfl

theorem service_source (state : BridgeState δ) (read : List UInt8) :
    (peridotSwHostbridgeGen2Service state read).1.sourceChannelNumber =
      state.sourceChannelNumber :=
  scanBytes_source _ _

theorem serve_source (state : BridgeState δ) (reads : List (List UInt8)) :
    (serve state reads).1.sourceChannelNumber = state.sourceChannelNumber := by
  induction reads generalizing state with
  | nil => rfl
  | cons read rest ih => exact (ih _).trans (service_source state read)

/-! ## Handing the bytes over -/

section Handover

variable {σ : Type}

/-- The loop of `write_to_channel`: call the destination until all bytes are
taken; what it took is collected.  `none` if `fuel` calls are not enough. -/
def writeLoop (write : σ → List UInt8 → σ × Int) :
    Nat → σ → List UInt8 → Option (σ × List UInt8)
  | _, world, [] => some (world, [])
  | 0, _, _ :: _ => none
  | fuel + 1, world, byte :: rest =>
      let call := write world (byte :: rest)
      if 0 < call.2 then
        (writeLoop write fuel call.1 ((byte :: rest).drop call.2.toNat)).map fun later =>
          (later.1, (byte :: rest).take call.2.toNat ++ later.2)
      else
        writeLoop write fuel call.1 (byte :: rest)

/-- All deliveries in order, each to the destination of its channel. -/
def deliver (write : δ → σ → List UInt8 → σ × Int) (fuel : Nat) :
    σ → List (Delivery δ) → Option (σ × List (Delivery δ))
  | world, [] => some (world, [])
  | world, delivery :: rest =>
      (writeLoop (write delivery.channel.dest) fuel world delivery.bytes).bind fun taken =>
        (deliver write fuel taken.1 rest).map fun later =>
          (later.1, ⟨delivery.channel, taken.2⟩ :: later.2)

/-- A destination that keeps to an invariant about what is still to come, and does not
refuse for ever: every refusal brings it closer to taking at least one byte. -/
structure Feeds (write : σ → List UInt8 → σ × Int) (invariant : List UInt8 → σ → Prop) where
  rank : σ → List UInt8 → Nat
  step : ∀ world byte rest more, invariant (byte :: rest ++ more) world →
    (0 < (write world (byte :: rest)).2 ∧
      (write world (byte :: rest)).2 ≤ (byte :: rest).length ∧
      invariant ((byte :: rest).drop (write world (byte :: rest)).2.toNat ++ more)
        (write world (byte :: rest)).1) ∨
    ((write world (byte :: rest)).2 ≤ 0 ∧
      invariant (byte :: rest ++ more) (write world (byte :: rest)).1 ∧
      rank (write world (byte :: rest)).1 (byte :: rest) < rank world (byte :: rest))

/-- A destination that takes whatever it is given. -/
abbrev Works (write : σ → List UInt8 → σ × Int) := Feeds write fun _ _ => True

variable {write : σ → List UInt8 → σ × Int}

/-- What a destination has taken when the loop ends is all it was given. -/
theorem writeLoop_taken {fuel : Nat} {world final : σ} {bytes taken : List UInt8}
    (ended : writeLoop write fuel world bytes = some (final, taken)) : taken = bytes := by
  induction fuel generalizing world bytes taken with
  | zero =>
      cases bytes with
      | nil => cases ended; rfl
      | cons byte rest => cases ended
  | succ fuel ih =>
      cases bytes with
      | nil => cases ended; rfl
      | cons byte rest =>
          simp only [writeLoop] at ended
          split at ended
          · rw [Option.map_eq_some_iff] at ended
            obtain ⟨later, found, same⟩ := ended
            cases same
            rw [ih found]
            exact List.take_append_drop _ _
          · exact ih ended

/-- More fuel never changes an outcome. -/
theorem writeLoop_mono {fuel more : Nat} (le : fuel ≤ more) {world : σ}
    {bytes : List UInt8} {outcome : σ × List UInt8}
    (ended : writeLoop write fuel world bytes = some outcome) :
    writeLoop write more world bytes = some outcome := by
  induction fuel generalizing more world bytes outcome with
  | zero =>
      cases bytes with
      | nil => cases more <;> exact ended
      | cons byte rest => cases ended
  | succ fuel ih =>
      cases bytes with
      | nil => cases more <;> exact ended
      | cons byte rest =>
          cases more with
          | zero => cases le
          | succ more =>
              have le' := Nat.le_of_succ_le_succ le
              simp only [writeLoop] at ended ⊢
              split at ended
              · rename_i accepts
                rw [if_pos accepts]
                rw [Option.map_eq_some_iff] at ended ⊢
                obtain ⟨later, found, same⟩ := ended
                exact ⟨later, ih le' found, same⟩
              · rename_i refuses
                rw [if_neg refuses]
                exact ih le' ended

/-- The loop ends, and keeps the invariant. -/
theorem writeLoop_feeds {invariant : List UInt8 → σ → Prop}
    (feeds : Feeds write invariant) {world : σ} {bytes more : List UInt8}
    (holds : invariant (bytes ++ more) world) :
    ∃ fuel outcome, writeLoop write fuel world bytes = some outcome ∧
      invariant more outcome.1 := by
  induction size : bytes.length using Nat.strongRecOn generalizing world bytes with
  | ind size shorter =>
      cases bytes with
      | nil => exact ⟨0, (world, []), rfl, holds⟩
      | cons byte rest =>
          induction wait : feeds.rank world (byte :: rest) using Nat.strongRecOn
            generalizing world with
          | ind wait sooner =>
              rcases feeds.step world byte rest more holds with
                ⟨takes, limit, kept⟩ | ⟨refuses, kept, closer⟩
              · obtain ⟨fuel, outcome, ended, after⟩ := shorter
                  ((byte :: rest).drop (write world (byte :: rest)).2.toNat).length
                  (by rw [List.length_drop]; omega) kept rfl
                refine ⟨fuel + 1, (outcome.1,
                  (byte :: rest).take (write world (byte :: rest)).2.toNat ++ outcome.2), ?_,
                  after⟩
                simp only [writeLoop]
                rw [if_pos takes, ended]
                rfl
              · obtain ⟨fuel, outcome, ended, after⟩ := sooner _ (wait ▸ closer) kept rfl
                refine ⟨fuel + 1, outcome, ?_, after⟩
                simp only [writeLoop]
                rw [if_neg (by omega), ended]

variable {dispatch : δ → σ → List UInt8 → σ × Int}

/-- What the destinations have taken is what the service delivered. -/
theorem deliver_taken {fuel : Nat} {world final : σ} {deliveries log : List (Delivery δ)}
    (ended : deliver dispatch fuel world deliveries = some (final, log)) :
    log = deliveries := by
  induction deliveries generalizing world log with
  | nil => cases ended; rfl
  | cons delivery rest ih =>
      simp only [deliver, Option.bind_eq_some_iff, Option.map_eq_some_iff] at ended
      obtain ⟨taken, wrote, later, rests, same⟩ := ended
      cases same
      rw [writeLoop_taken wrote, ih rests]

theorem deliver_mono {fuel more : Nat} (le : fuel ≤ more) {world : σ}
    {deliveries : List (Delivery δ)} {outcome : σ × List (Delivery δ)}
    (ended : deliver dispatch fuel world deliveries = some outcome) :
    deliver dispatch more world deliveries = some outcome := by
  induction deliveries generalizing world outcome with
  | nil => exact ended
  | cons delivery rest ih =>
      simp only [deliver, Option.bind_eq_some_iff, Option.map_eq_some_iff] at ended ⊢
      obtain ⟨taken, wrote, later, rests, same⟩ := ended
      exact ⟨taken, writeLoop_mono le wrote, later, ih rests, same⟩

/-- The outcome does not depend on the fuel. -/
theorem deliver_unique {fuel other : Nat} {world : σ} {deliveries : List (Delivery δ)}
    {first second : σ × List (Delivery δ)}
    (one : deliver dispatch fuel world deliveries = some first)
    (two : deliver dispatch other world deliveries = some second) : first = second := by
  have left := deliver_mono (Nat.le_max_left fuel other) one
  rw [deliver_mono (Nat.le_max_right fuel other) two] at left
  exact (Option.some.inj left).symm

/-- Deliveries to a single destination: all of them end, and keep its invariant. -/
theorem deliver_feeds (dispatch : δ → σ → List UInt8 → σ × Int)
    {invariant : List UInt8 → σ → Prop} {channel : HostbridgeChannel δ}
    (feeds : Feeds (dispatch channel.dest) invariant) {deliveries : List (Delivery δ)}
    (only : ∀ delivery ∈ deliveries, delivery.channel = channel) (world : σ)
    (more : List UInt8)
    (holds : invariant (bytesFor channel.number deliveries ++ more) world) :
    ∃ fuel outcome, deliver dispatch fuel world deliveries = some outcome ∧
      invariant more outcome.1 := by
  induction deliveries generalizing world with
  | nil => exact ⟨0, (world, []), rfl, holds⟩
  | cons delivery rest ih =>
      have here := only delivery (.head _)
      rw [bytesFor, List.flatMap_cons, if_pos (by rw [here]), List.append_assoc] at holds
      rw [← here] at feeds
      obtain ⟨first, taken, wrote, kept⟩ := writeLoop_feeds feeds holds
      obtain ⟨second, later, rests, after⟩ :=
        ih (fun other member => only other (.tail _ member)) taken.1 kept
      refine ⟨max first second, (later.1, ⟨delivery.channel, taken.2⟩ :: later.2), ?_, after⟩
      simp only [deliver, Option.bind_eq_some_iff, Option.map_eq_some_iff]
      exact ⟨taken, writeLoop_mono (Nat.le_max_left _ _) wrote, later,
        deliver_mono (Nat.le_max_right _ _) rests, rfl⟩

end Handover

end PeridotSw.Bridge.Service
