import PeridotSw.Bridge.Channel
import PeridotSw.Stream.Encoding

/-!
# The source side of the host bridge

`peridot_sw_hostbridge_gen2_source` writes a channel prefix when the channel
changes, then the payload: as it is for an already packetized channel, otherwise
escaped through a staging buffer of 128 bytes with room for two more.
-/

namespace PeridotSw.Bridge.Source

open PeridotSw.Stream.Ast
open PeridotSw.Stream.Encoding
open PeridotSw.Bridge.Channel

def writeBufferLen : Nat := 128

def hostbridgeGen2SourcePacketized : Nat := 1 <<< 0
def hostbridgeGen2SourceReset : Nat := 1 <<< 1

/-- The inner loop: fill the staging buffer from the source bytes; what is staged
and what is left. -/
def stage (packetize : Int) : List UInt8 → List UInt8 → List UInt8 × List UInt8
  | [], buffer => (buffer, [])
  | byte :: rest, buffer =>
      if buffer.length < writeBufferLen then
        let marked :=
          if packetize ≠ 0 ∧ rest.isEmpty then buffer ++ [astEopPrefix] else buffer
        let stored :=
          if astNeedsEscape byte then
            marked ++ [astEscapePrefix, byte ^^^ astEscapeXor]
          else
            marked ++ [byte]
        stage packetize rest stored
      else
        (buffer, byte :: rest)

/-- The outer loop: the blocks handed to `write_to_host`, at most `count` of them. -/
def stageBlocks : Nat → Int → List UInt8 → List (List UInt8)
  | 0, _, _ => []
  | _ + 1, _, [] => []
  | count + 1, packetize, byte :: rest =>
      let start := if 0 < packetize then [astSop] else []
      let next := if 0 < packetize then -1 else packetize
      let staged := stage next (byte :: rest) start
      staged.1 :: stageBlocks count next staged.2

def channelPrefixBytes (number : UInt8) : List UInt8 :=
  if astNeedsEscape number then
    [astChannelPrefix, astEscapePrefix, number ^^^ astEscapeXor]
  else
    [astChannelPrefix, number]

variable {δ : Type}

/-- `peridot_sw_hostbridge_gen2_source`: the state afterwards and the arguments of
the calls of `write_to_host`. -/
def peridotSwHostbridgeGen2Source (state : BridgeState δ) (channel : HostbridgeChannel δ)
    (ptr : List UInt8) (flags : Nat) : BridgeState δ × List (List UInt8) :=
  let packetize : Int := if flags &&& hostbridgeGen2SourcePacketized ≠ 0 then 1 else 0
  let select := (channel.number.toNat : Int) ≠ state.sourceChannelNumber ∨
    flags &&& hostbridgeGen2SourceReset ≠ 0
  let selected := if select then
      { state with sourceChannelNumber := channel.number.toNat } else state
  let header := if select then [channelPrefixBytes channel.number] else []
  let body := if channel.packetized ∧ packetize = 0 then [ptr] else
      stageBlocks ptr.length packetize ptr
  (selected, header ++ body)

def emitted (state : BridgeState δ) (channel : HostbridgeChannel δ) (ptr : List UInt8)
    (flags : Nat) : List UInt8 :=
  (peridotSwHostbridgeGen2Source state channel ptr flags).2.flatten

def emittedAll (channel : HostbridgeChannel δ) (flags : Nat) :
    BridgeState δ → List (List UInt8) → List UInt8
  | _, [] => []
  | state, ptr :: rest =>
      emitted state channel ptr flags ++
        emittedAll channel flags (peridotSwHostbridgeGen2Source state channel ptr flags).1 rest

/-! ## The staging loops -/

theorem channelPrefixBytes_eq (number : UInt8) :
    channelPrefixBytes number = astChannelPrefix :: escapeByte number := by
  unfold channelPrefixBytes escapeByte
  split <;> rfl

/-- One pass of the inner loop moves a beginning of the encoding into the buffer. -/
theorem stage_encode (packetize : Int) (src buffer : List UInt8) :
    (stage packetize src buffer).1 ++
        encodeBytes (decide (packetize ≠ 0)) (stage packetize src buffer).2 =
      buffer ++ encodeBytes (decide (packetize ≠ 0)) src := by
  induction src generalizing buffer with
  | nil => rfl
  | cons byte rest ih =>
      unfold stage
      split
      · dsimp only
        rw [ih]
        by_cases packet : packetize ≠ 0
        · cases rest <;> by_cases special : astNeedsEscape byte <;>
            simp [encodeBytes, escapeByte, packet, special]
        · by_cases special : astNeedsEscape byte <;>
            simp [encodeBytes, escapeByte, packet, special]
      · rfl

/-- The inner loop leaves fewer bytes than it was given, if there was room. -/
theorem stage_progress (packetize : Int) (byte : UInt8) (rest buffer : List UInt8)
    (room : buffer.length < writeBufferLen) :
    (stage packetize (byte :: rest) buffer).2.length ≤ rest.length := by
  have shrinks (src start : List UInt8) : (stage packetize src start).2.length ≤ src.length := by
    induction src generalizing start with
    | nil => exact Nat.le_refl _
    | cons next tail ih =>
        unfold stage
        split
        · exact Nat.le_succ_of_le (ih _)
        · exact Nat.le_refl _
  unfold stage
  rw [if_pos room]
  exact shrinks rest _

/-- More passes than bytes make no difference. -/
theorem stageBlocks_count {first second : Nat} (packetize : Int) {src : List UInt8}
    (enough : src.length ≤ first) (enough' : src.length ≤ second) :
    stageBlocks first packetize src = stageBlocks second packetize src := by
  induction first generalizing second packetize src with
  | zero =>
      have empty : src = [] := List.length_eq_zero_iff.mp (Nat.le_zero.mp enough)
      subst empty
      cases second <;> rfl
  | succ first ih =>
      cases src with
      | nil => cases second <;> rfl
      | cons byte rest =>
          obtain ⟨second, rfl⟩ := Nat.exists_eq_succ_of_ne_zero
            (Nat.ne_of_gt (Nat.lt_of_lt_of_le (Nat.succ_pos rest.length) enough'))
          have room : (if 0 < packetize then [astSop] else []).length < writeBufferLen := by
            split <;> decide
          have left := stage_progress (if 0 < packetize then -1 else packetize) byte rest _ room
          rw [stageBlocks, stageBlocks]
          exact congrArg _ (ih _ (Nat.le_trans left (Nat.le_of_succ_le_succ enough))
            (Nat.le_trans left (Nat.le_of_succ_le_succ enough')))

/-- With one pass allowed for every byte the outer loop emits the whole encoding. -/
theorem flatten_stageBlocks (count : Nat) (packetize : Int) (src : List UInt8)
    (enough : src.length ≤ count) :
    (stageBlocks count packetize src).flatten =
      (if 0 < packetize ∧ src ≠ [] then [astSop] else []) ++
        encodeBytes (decide (packetize ≠ 0)) src := by
  induction count generalizing packetize src with
  | zero =>
      have empty : src = [] := List.length_eq_zero_iff.mp (Nat.le_zero.mp enough)
      subst empty
      simp [stageBlocks]
  | succ count ih =>
      cases src with
      | nil => simp [stageBlocks]
      | cons byte rest =>
          have room : (if 0 < packetize then [astSop] else []).length < writeBufferLen := by
            split <;> decide
          have next : ¬0 < (if 0 < packetize then -1 else packetize) := by
            split <;> omega
          have mark : decide ((if 0 < packetize then -1 else packetize) ≠ 0) =
              decide (packetize ≠ 0) := by
            by_cases start : 0 < packetize
            · simp [start]
              omega
            · simp [start]
          have first : (if 0 < packetize ∧ byte :: rest ≠ [] then [astSop] else []) =
              if 0 < packetize then [astSop] else [] := by simp
          rw [first]
          simp only [stageBlocks, List.flatten_cons]
          generalize (if 0 < packetize then [astSop] else []) = start at *
          generalize (if 0 < packetize then -1 else packetize) = following at *
          have left := stage_progress following byte rest start room
          rw [ih _ _ (Nat.le_trans left (Nat.le_of_succ_le_succ enough)),
            if_neg (fun both => next both.1), List.nil_append, stage_encode, mark]

theorem emitted_eq (state : BridgeState δ) (channel : HostbridgeChannel δ)
    (ptr : List UInt8) (flags : Nat) :
    emitted state channel ptr flags =
      (if (channel.number.toNat : Int) ≠ state.sourceChannelNumber ∨
          flags &&& hostbridgeGen2SourceReset ≠ 0 then
        astChannelPrefix :: escapeByte channel.number else []) ++
      (if channel.packetized ∧ flags &&& hostbridgeGen2SourcePacketized = 0 then ptr else
        (if flags &&& hostbridgeGen2SourcePacketized ≠ 0 ∧ ptr ≠ [] then [astSop] else []) ++
          encodeBytes (decide (flags &&& hostbridgeGen2SourcePacketized ≠ 0)) ptr) := by
  unfold emitted peridotSwHostbridgeGen2Source
  dsimp only
  rw [List.flatten_append]
  congr 1
  · split
    · rw [List.flatten_singleton, channelPrefixBytes_eq]
    · rfl
  · by_cases packet : flags &&& hostbridgeGen2SourcePacketized = 0
    · by_cases raw : channel.packetized
      · simp [packet, raw]
      · simp [packet, raw, flatten_stageBlocks]
    · simp [packet, flatten_stageBlocks]

/-! ## Sequences of packets -/

/-- A payload as a packet of the stream. -/
def packetBytes (payload : List UInt8) : List UInt8 := astSop :: encodeBytes true payload

/-- Once the channel is selected each packet stands alone. -/
theorem emittedAll_selected {state : BridgeState δ} {channel : HostbridgeChannel δ}
    (selected : (channel.number.toNat : Int) = state.sourceChannelNumber)
    {payloads : List (List UInt8)} (nonempty : ∀ payload ∈ payloads, payload ≠ []) :
    emittedAll channel hostbridgeGen2SourcePacketized state payloads =
      payloads.flatMap packetBytes := by
  have packet : hostbridgeGen2SourcePacketized &&& hostbridgeGen2SourcePacketized ≠ 0 := by decide
  have keep : ¬hostbridgeGen2SourcePacketized &&& hostbridgeGen2SourceReset ≠ 0 := by decide
  induction payloads generalizing state with
  | nil => rfl
  | cons payload rest ih =>
      have next : (channel.number.toNat : Int) =
          (peridotSwHostbridgeGen2Source state channel payload
            hostbridgeGen2SourcePacketized).1.sourceChannelNumber := by
        unfold peridotSwHostbridgeGen2Source
        dsimp only
        split
        · rfl
        · exact selected
      rw [emittedAll, ih next fun other inside => nonempty other (.tail _ inside), emitted_eq,
        if_neg (not_or.mpr ⟨not_not_intro selected, keep⟩), if_neg (fun both => packet both.2),
        if_pos ⟨packet, nonempty payload (.head _)⟩, decide_eq_true packet]
      simp [packetBytes]

/-- On a fresh bridge the packets follow one channel prefix sequence. -/
theorem emittedAll_fresh (registry : Registry δ) (channel : HostbridgeChannel δ)
    {payloads : List (List UInt8)} (nonempty : ∀ payload ∈ payloads, payload ≠ []) :
    emittedAll channel hostbridgeGen2SourcePacketized (freshBridge registry) payloads =
      if payloads = [] then [] else
        astChannelPrefix :: escapeByte channel.number ++ payloads.flatMap packetBytes := by
  have packet : hostbridgeGen2SourcePacketized &&& hostbridgeGen2SourcePacketized ≠ 0 := by decide
  cases payloads with
  | nil => rfl
  | cons payload rest =>
      have other : (channel.number.toNat : Int) ≠ (freshBridge registry).sourceChannelNumber := by
        simp only [freshBridge]
        omega
      have next : (channel.number.toNat : Int) =
          (peridotSwHostbridgeGen2Source (freshBridge registry) channel payload
            hostbridgeGen2SourcePacketized).1.sourceChannelNumber := by
        unfold peridotSwHostbridgeGen2Source
        dsimp only
        rw [if_pos (.inl other)]
      rw [emittedAll, emittedAll_selected next fun other inside => nonempty other (.tail _ inside),
        emitted_eq, if_pos (.inl other), if_neg (fun both => packet both.2),
        if_pos ⟨packet, nonempty payload (.head _)⟩, decide_eq_true packet]
      simp [packetBytes]

end PeridotSw.Bridge.Source
