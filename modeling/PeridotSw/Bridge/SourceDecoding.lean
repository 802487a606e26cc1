import PeridotSw.Bridge.Source
import PeridotSw.Stream.Decoding

/-!
# The source side read back

Whatever calls of `peridot_sw_hostbridge_gen2_source` are made one after another, the
other end of the link reads each of them on its channel.  The bytes reach the link through
`write_to_host`, which keeps calling `write` until all of a block is written.
-/

namespace PeridotSw.Bridge.SourceDecoding

open PeridotSw.Stream.Ast
open PeridotSw.Stream.Encoding
open PeridotSw.Stream.Decoding
open PeridotSw.Bridge.Channel
open PeridotSw.Bridge.Source

/-! ## Writing to the host -/

/-- `write_to_host`, with what the calls of `write` answer: the answers left over and the
bytes written, or `none` when it still loops. -/
def writeToHost : List Int → List UInt8 → Option (List Int × List UInt8)
  | answers, [] => some (answers, [])
  | [], _ :: _ => none
  | written :: answers, byte :: rest =>
      if 0 < written then
        (writeToHost answers ((byte :: rest).drop written.toNat)).map fun later =>
          (later.1, (byte :: rest).take written.toNat ++ later.2)
      else
        writeToHost answers (byte :: rest)

def writeBlocks : List Int → List (List UInt8) → Option (List Int × List UInt8)
  | answers, [] => some (answers, [])
  | answers, block :: rest =>
      match writeToHost answers block with
      | none => none
      | some (left, written) =>
          (writeBlocks left rest).map fun later => (later.1, written ++ later.2)

/-- What is written is the block, however `write` divides it. -/
theorem writeToHost_eq {answers left : List Int} {ptr written : List UInt8}
    (returned : writeToHost answers ptr = some (left, written)) : written = ptr := by
  induction answers generalizing ptr written with
  | nil =>
      cases ptr with
      | nil =>
          cases returned
          rfl
      | cons byte rest => cases returned
  | cons answer answers ih =>
      cases ptr with
      | nil =>
          cases returned
          rfl
      | cons byte rest =>
          rw [writeToHost] at returned
          split at returned
          · obtain ⟨later, found, same⟩ := Option.map_eq_some_iff.mp returned
            cases same
            rw [ih found, List.take_append_drop]
          · exact ih returned

theorem writeBlocks_eq {answers left : List Int} {blocks : List (List UInt8)}
    {written : List UInt8} (returned : writeBlocks answers blocks = some (left, written)) :
    written = blocks.flatten := by
  induction blocks generalizing answers written with
  | nil =>
      cases returned
      rfl
  | cons block rest ih =>
      rw [writeBlocks] at returned
      split at returned
      · cases returned
      · rename_i middle front first
        obtain ⟨later, found, same⟩ := Option.map_eq_some_iff.mp returned
        cases same
        rw [List.flatten_cons, writeToHost_eq first, ih found]

/-- One full answer for each block is enough. -/
theorem writeBlocks_returns (answers : List Int) (blocks : List (List UInt8)) :
    ∃ enough, writeBlocks (enough ++ answers) blocks = some (answers, blocks.flatten) := by
  induction blocks with
  | nil => exact ⟨[], rfl⟩
  | cons block rest ih =>
      obtain ⟨enough, later⟩ := ih
      cases block with
      | nil =>
          refine ⟨enough, ?_⟩
          rw [writeBlocks, writeToHost]
          simp [later]
      | cons byte bytes =>
          refine ⟨((byte :: bytes).length : Int) :: enough, ?_⟩
          have first : writeToHost (((byte :: bytes).length : Int) :: (enough ++ answers))
              (byte :: bytes) = some (enough ++ answers, byte :: bytes) := by
            rw [writeToHost, if_pos (by simp only [List.length_cons]; omega), Int.toNat_natCast,
              List.drop_length, List.take_length]
            cases enough ++ answers <;> simp [writeToHost]
          rw [writeBlocks, List.cons_append, first]
          simp [later]

/-! ## Sequences of calls -/

variable {δ : Type}

/-- A call whose payload the source encodes: packetized by itself, or for a channel that
carries no packets. -/
structure SourceCall (δ : Type) where
  channel : HostbridgeChannel δ
  ptr : List UInt8
  flags : Nat
  nonempty : ptr ≠ []
  encoded : flags &&& hostbridgeGen2SourcePacketized ≠ 0 ∨ channel.packetized = false

/-- What the other end should read of a call. -/
def SourceCall.items (call : SourceCall δ) : List Item :=
  if call.flags &&& hostbridgeGen2SourcePacketized ≠ 0 then
    [.packet (some call.channel.number) call.ptr]
  else
    call.ptr.map (.data (some call.channel.number))

/-- The calls one after another: what they write, given the answers of `write`. -/
def sourceCalls : BridgeState δ → List (SourceCall δ) → List Int → Option (List UInt8)
  | _, [], _ => some []
  | state, call :: rest, answers =>
      let sourced := peridotSwHostbridgeGen2Source state call.channel call.ptr call.flags
      match writeBlocks answers sourced.2 with
      | none => none
      | some (left, written) => (sourceCalls sourced.1 rest left).map (written ++ ·)

/-- The bridge and the other end agree about the channel selected. -/
def Agree (state : BridgeState δ) (channel : Option UInt8) : Prop :=
  match channel with
  | none => state.sourceChannelNumber = -1
  | some number => state.sourceChannelNumber = number.toNat

/-- One call is read back, and leaves its channel selected. -/
theorem decode_emitted {state : BridgeState δ} {channel : Option UInt8}
    (agree : Agree state channel) (call : SourceCall δ) :
    decode (resting channel) (emitted state call.channel call.ptr call.flags) =
        (resting (some call.channel.number), call.items) ∧
      Agree (peridotSwHostbridgeGen2Source state call.channel call.ptr call.flags).1
        (some call.channel.number) := by
  have body : decode (resting (some call.channel.number))
      ((if call.flags &&& hostbridgeGen2SourcePacketized ≠ 0 ∧ call.ptr ≠ [] then [astSop] else []) ++
        encodeBytes (decide (call.flags &&& hostbridgeGen2SourcePacketized ≠ 0)) call.ptr) =
      (resting (some call.channel.number), call.items) := by
    unfold SourceCall.items
    by_cases packet : call.flags &&& hostbridgeGen2SourcePacketized ≠ 0
    · rw [if_pos ⟨packet, call.nonempty⟩, decide_eq_true packet, if_pos packet]
      exact decode_packet _ call.nonempty
    · rw [if_neg (fun both => packet both.1), decide_eq_false packet, if_neg packet]
      exact decode_data _ _
  have escaped : ¬(call.channel.packetized = true ∧
      call.flags &&& hostbridgeGen2SourcePacketized = 0) := by
    rintro ⟨packetized, plain⟩
    rcases call.encoded with packet | unpacked
    · exact packet plain
    · rw [unpacked] at packetized
      cases packetized
  rw [emitted_eq, if_neg escaped]
  by_cases select : (call.channel.number.toNat : Int) ≠ state.sourceChannelNumber ∨
      call.flags &&& hostbridgeGen2SourceReset ≠ 0
  · rw [if_pos select, decode_append, decode_channel, body]
    refine ⟨rfl, ?_⟩
    unfold peridotSwHostbridgeGen2Source
    dsimp only
    rw [if_pos select]
    rfl
  · obtain ⟨same, -⟩ := not_or.mp select
    have number : (call.channel.number.toNat : Int) = state.sourceChannelNumber :=
      Decidable.not_not.mp same
    have here : channel = some call.channel.number := by
      cases channel with
      | none =>
          have before : state.sourceChannelNumber = -1 := agree
          omega
      | some other =>
          have before : state.sourceChannelNumber = other.toNat := agree
          have equal : other.toNat = call.channel.number.toNat := by omega
          rw [UInt8.toNat_inj.mp equal]
    rw [if_neg select, List.nil_append, here, body]
    refine ⟨rfl, ?_⟩
    unfold peridotSwHostbridgeGen2Source
    dsimp only
    rw [if_neg select]
    exact number.symm

theorem decode_sourceCalls {state : BridgeState δ} {channel : Option UInt8}
    (agree : Agree state channel) {calls : List (SourceCall δ)} {answers : List Int}
    {written : List UInt8} (returned : sourceCalls state calls answers = some written) :
    ∃ last, decode (resting channel) written = (resting last, calls.flatMap SourceCall.items) := by
  induction calls generalizing state channel answers written with
  | nil =>
      cases returned
      exact ⟨channel, rfl⟩
  | cons call rest ih =>
      rw [sourceCalls] at returned
      split at returned
      · cases returned
      · rename_i left front first
        obtain ⟨later, found, same⟩ := Option.map_eq_some_iff.mp returned
        cases same
        obtain ⟨here, next⟩ := decode_emitted agree call
        obtain ⟨last, onward⟩ := ih next found
        refine ⟨last, ?_⟩
        rw [writeBlocks_eq first, decode_append]
        unfold emitted at here
        rw [here, onward, List.flatMap_cons]

theorem sourceCalls_returns (state : BridgeState δ) (calls : List (SourceCall δ)) :
    ∃ answers written, sourceCalls state calls answers = some written := by
  induction calls generalizing state with
  | nil => exact ⟨[], [], rfl⟩
  | cons call rest ih =>
      obtain ⟨answers, written, later⟩ :=
        ih (peridotSwHostbridgeGen2Source state call.channel call.ptr call.flags).1
      obtain ⟨enough, here⟩ := writeBlocks_returns answers
        (peridotSwHostbridgeGen2Source state call.channel call.ptr call.flags).2
      refine ⟨enough ++ answers, (peridotSwHostbridgeGen2Source state call.channel call.ptr
        call.flags).2.flatten ++ written, ?_⟩
      rw [sourceCalls, here]
      dsimp only
      rw [later]
      rfl

/-- After initialisation the calls can all return, and whatever `write` answers, what they
have written is read as these calls, with nothing left unfinished. -/
theorem hostbridgeSource_decodable (registry : Registry δ) (calls : List (SourceCall δ)) :
    (∃ answers written, sourceCalls (freshBridge registry) calls answers = some written) ∧
    ∀ answers written, sourceCalls (freshBridge registry) calls answers = some written →
      ∃ last, decode (resting none) written =
        (resting last, calls.flatMap SourceCall.items) := by
  have agree : Agree (freshBridge registry) none := rfl
  exact ⟨sourceCalls_returns _ calls, fun answers written => decode_sourceCalls agree⟩

/-- A packet of one reserved byte on a channel with a reserved number, then a plain byte,
with `write` taking the blocks in parts. -/
theorem hostbridgeSource_decodable_reserved :
    ∃ last, decode (resting none) [0x7c, 0x7d, 0x5a, 0x7a, 0x7b, 0x7d, 0x5d, 0x41] =
      (resting last, [.packet (some 0x7a) [0x7d], .data (some 0x7a) 0x41]) :=
  (@hostbridgeSource_decodable Unit ⟨[], List.nodup_nil⟩
    [⟨⟨0x7a, false, ()⟩, [0x7d], 1, by decide, .inl (by decide)⟩,
      ⟨⟨0x7a, false, ()⟩, [0x41], 0, by decide, .inr rfl⟩]).2 [2, -1, 1, 3, 1, 1] _ rfl

end PeridotSw.Bridge.SourceDecoding
