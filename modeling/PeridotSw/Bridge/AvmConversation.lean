import Mathlib.Tactic.IntervalCases
import PeridotSw.Bridge.AvmAnswers
import PeridotSw.Bridge.SourceDecoding
import PeridotSw.Rpc.PacketRoundTrip

/-!
# Memory transactions over the link

A client sends transactions as packets on channel zero, with sizes and addresses in network
order.  The bridge hands the packets to `avm_sink`, which answers each of them through the
source.  What the client reads are the answers to its transactions, in order: the bytes of the
readable window, a zero for what lies outside, and headers for everything else.
-/

namespace PeridotSw.Bridge.AvmConversation

open PeridotSw.Stream.Ast
open PeridotSw.Stream.Encoding
open PeridotSw.Stream.Decoding
open PeridotSw.Bridge.Channel
open PeridotSw.Bridge.Service
open PeridotSw.Bridge.Hearing
open PeridotSw.Bridge.Source
open PeridotSw.Bridge.SourceDecoding
open PeridotSw.Bridge.Avm
open PeridotSw.Bridge.AvmAnswers
open PeridotSw.Rpc.PacketRoundTrip (prefix_not_mem_packets)

/-! ## Transactions -/

/-- What a client asks for; a write carries data, and its size is what the client says it is. -/
inductive Transaction where
  | read (incrementing : Bool) (size : UInt16) (address : UInt32)
  | write (incrementing : Bool) (size : UInt16) (address : UInt32) (data : List UInt8)
  | none

/-- The header of a packet, most significant bytes first. -/
def headerBytes (code : UInt8) (size : UInt16) (address : UInt32) : List UInt8 :=
  [code, 0, (size >>> 8).toUInt8, size.toUInt8, (address >>> 24).toUInt8,
    (address >>> 16).toUInt8, (address >>> 8).toUInt8, address.toUInt8]

def Transaction.encode : Transaction → List UInt8
  | .read incrementing size address =>
      headerBytes (if incrementing then 0x14 else 0x10) size address
  | .write incrementing size address data =>
      headerBytes (if incrementing then 0x04 else 0x00) size address ++ data
  | .none => headerBytes 0x7f 0 0

def InWindow (size : UInt16) (address : UInt32) : Prop :=
  avmReadableBase.toNat ≤ address.toNat ∧ address.toNat + size.toNat ≤ avmReadableEnd.toNat

instance (size : UInt16) (address : UInt32) : Decidable (InWindow size address) :=
  inferInstanceAs (Decidable (_ ∧ _))

def Transaction.answer (mem : UInt32 → UInt8) : Transaction → List UInt8
  | .read _ size address =>
      if InWindow size address then
        (List.range size.toNat).map fun index => mem (address + UInt32.ofNat index)
      else
        [0]
  | .write incrementing _ _ _ => [if incrementing then 0x84 else 0x80, 0, 0, 0]
  | .none => [0xff, 0, 0, 0]

/-- A read stays below the top of the address space, and asks for something if it is in the
window. -/
def Transaction.Sensible : Transaction → Prop
  | .read _ size address =>
      address.toNat + size.toNat < 2 ^ 32 ∧ (InWindow size address → size ≠ 0)
  | _ => True

instance : (transaction : Transaction) → Decidable transaction.Sensible
  | .read _ size address =>
      inferInstanceAs (Decidable (_ ∧ (InWindow size address → size ≠ 0)))
  | .write .. => .isTrue trivial
  | .none => .isTrue trivial

/-! ## The order of bytes -/

theorem swap16_bytes (size : UInt16) :
    swap16 ((size >>> 8).toUInt8.toUInt16 ||| (size.toUInt8.toUInt16 <<< 8)) = size := by
  unfold swap16
  apply UInt16.eq_of_toBitVec_eq
  ext index bound
  interval_cases index <;> simp [-UInt16.toUInt16_toUInt8]

theorem low_half (first second third fourth : UInt8) :
    (first.toUInt32 ||| (second.toUInt32 <<< 8) ||| (third.toUInt32 <<< 16) |||
      (fourth.toUInt32 <<< 24)).toUInt16 = first.toUInt16 ||| (second.toUInt16 <<< 8) := by
  apply UInt16.eq_of_toBitVec_eq
  ext index bound
  interval_cases index <;> simp

theorem high_half (first second third fourth : UInt8) :
    ((first.toUInt32 ||| (second.toUInt32 <<< 8) ||| (third.toUInt32 <<< 16) |||
      (fourth.toUInt32 <<< 24)) >>> 16).toUInt16 = third.toUInt16 ||| (fourth.toUInt16 <<< 8) := by
  apply UInt16.eq_of_toBitVec_eq
  ext index bound
  interval_cases index <;> simp

theorem join_halves (word : UInt32) :
    ((word >>> 16).toUInt16.toUInt32 <<< 16) ||| word.toUInt16.toUInt32 = word := by
  apply UInt32.eq_of_toBitVec_eq
  ext index bound
  interval_cases index <;> simp [-UInt32.toUInt32_toUInt16]

theorem byte_of_high (word : UInt32) :
    (word >>> 24).toUInt8 = ((word >>> 16).toUInt16 >>> 8).toUInt8 := by
  apply UInt8.eq_of_toBitVec_eq
  ext index bound
  interval_cases index <;> simp

theorem byte_of_low (word : UInt32) : (word >>> 8).toUInt8 = (word.toUInt16 >>> 8).toUInt8 := by
  apply UInt8.eq_of_toBitVec_eq
  ext index bound
  interval_cases index <;> simp

/-- A word sent most significant byte first, loaded and swapped. -/
theorem swap32_bytes (word : UInt32) :
    swap32 ((word >>> 24).toUInt8.toUInt32 ||| ((word >>> 16).toUInt8.toUInt32 <<< 8) |||
      ((word >>> 8).toUInt8.toUInt32 <<< 16) ||| (word.toUInt8.toUInt32 <<< 24)) = word := by
  unfold swap32
  rw [low_half, high_half, byte_of_high, byte_of_low, ← UInt32.toUInt8_toUInt16 (word >>> 16),
    ← UInt32.toUInt8_toUInt16 word, swap16_bytes, swap16_bytes, join_halves]

theorem header_size (code : UInt8) (size : UInt16) (address : UInt32) (data : List UInt8) :
    (header (headerBytes code size address ++ data)).size = size :=
  swap16_bytes size

theorem header_address (code : UInt8) (size : UInt16) (address : UInt32) (data : List UInt8) :
    (header (headerBytes code size address ++ data)).address = address :=
  swap32_bytes address

/-! ## What is answered -/

theorem inWindow_iff {size : UInt16} {address : UInt32}
    (below : address.toNat + size.toNat < 2 ^ 32) :
    InWindow size address ↔ ¬OutOfRange address size := by
  unfold OutOfRange InWindow
  rw [passes_iff, Nat.mod_eq_of_lt below]
  rfl

theorem replyPtr_encode (mem : UInt32 → UInt8) {transaction : Transaction}
    (sensible : transaction.Sensible) :
    replyPtr mem (replyTo transaction.encode) = transaction.answer mem := by
  cases transaction with
  | read incrementing size address =>
      have window := inWindow_iff sensible.1
      have reads : Reads (headerBytes (if incrementing then 0x14 else 0x10) size address) := by
        cases incrementing <;> exact ⟨Nat.le_refl 8, by simp [headerBytes]⟩
      have size' := header_size (if incrementing then 0x14 else 0x10) size address []
      have address' := header_address (if incrementing then 0x14 else 0x10) size address []
      rw [List.append_nil] at size' address'
      rw [Transaction.encode, replyTo, if_pos reads, size', address', Transaction.answer]
      by_cases inside : InWindow size address
      · rw [if_neg (window.mp inside), if_pos inside]
        rfl
      · rw [if_pos (Classical.not_not.mp (mt window.mpr inside)), if_neg inside]
        rfl
  | write incrementing size address data =>
      have other : ¬Reads (Transaction.write incrementing size address data).encode := by
        rintro ⟨-, code⟩
        cases incrementing <;> simp [Transaction.encode, headerBytes] at code
      rw [replyTo, if_neg other]
      cases incrementing with
      | false => simp [replyPtr, Transaction.answer, Transaction.encode, headerBytes]
      | true =>
          simp only [replyPtr, Transaction.answer, Transaction.encode, headerBytes]
          rw [List.cons_append, List.getD_cons_zero]
          decide
  | none => rfl

theorem answer_ne_nil (mem : UInt32 → UInt8) {transaction : Transaction}
    (sensible : transaction.Sensible) : transaction.answer mem ≠ [] := by
  cases transaction with
  | read incrementing size address =>
      rw [Transaction.answer]
      split
      · rename_i inside
        intro nothing
        rw [List.map_eq_nil_iff, List.range_eq_nil] at nothing
        exact sensible.2 inside (UInt16.toNat_inj.mp nothing)
      · exact List.cons_ne_nil _ _
  | write => exact List.cons_ne_nil _ _
  | none => exact List.cons_ne_nil _ _

theorem encode_ne_nil (transaction : Transaction) : transaction.encode ≠ [] := by
  cases transaction <;> exact List.cons_ne_nil _ _

/-! ## The packets of the stream -/

def packetSymbols (front : List UInt8) (last : UInt8) : List Symbol :=
  .start :: (front.map .data ++ [.mark, .data last])

theorem symbols_start (rest : List UInt8) :
    symbols (astSop :: rest) = (symbols rest).map (.start :: ·) := by
  rw [symbols.eq_def]
  rfl

theorem symbols_mark (rest : List UInt8) :
    symbols (astEopPrefix :: rest) = (symbols rest).map (.mark :: ·) := by
  rw [symbols.eq_def]
  rfl

theorem symbols_escapeByte {rest : List UInt8} {list : List Symbol}
    (read : symbols rest = some list) (byte : UInt8) :
    symbols (escapeByte byte ++ rest) = some (.data byte :: list) := by
  unfold escapeByte
  cases special : astNeedsEscape byte with
  | true =>
      obtain ⟨start, mark, -, escape⟩ := ne_of_not_needsEscape (xor_escape_not_marker special)
      rw [if_pos rfl, symbols.eq_def]
      change (if byte ^^^ astEscapeXor = astSop ∨ byte ^^^ astEscapeXor = astEopPrefix ∨
          byte ^^^ astEscapeXor = astEscapePrefix then none
        else (symbols rest).map (.data (byte ^^^ astEscapeXor ^^^ astEscapeXor) :: ·)) = _
      rw [if_neg (by simp [start, mark, escape]), read, xor_escape_xor]
      rfl
  | false =>
      obtain ⟨start, mark, -, escape⟩ := ne_of_not_needsEscape special
      rw [if_neg (by simp), symbols.eq_def]
      simp [start, mark, escape, read]

theorem symbols_data {rest : List UInt8} {list : List Symbol} (read : symbols rest = some list)
    (bytes : List UInt8) :
    symbols (bytes.flatMap escapeByte ++ rest) = some (bytes.map .data ++ list) := by
  induction bytes with
  | nil => exact read
  | cons byte bytes ih =>
      rw [List.flatMap_cons, List.append_assoc, symbols_escapeByte ih byte]
      rfl

theorem symbols_packet {rest : List UInt8} {list : List Symbol} (read : symbols rest = some list)
    (front : List UInt8) (last : UInt8) :
    symbols (packetBytes (front ++ [last]) ++ rest) =
      some (packetSymbols front last ++ list) := by
  have marked : symbols (astEopPrefix :: (escapeByte last ++ rest)) =
      some (.mark :: .data last :: list) := by
    rw [symbols_mark, symbols_escapeByte read]
    rfl
  rw [packetBytes, encodeBytes_snoc, List.cons_append, List.append_assoc, List.cons_append,
    symbols_start, symbols_data marked]
  simp [packetSymbols]

/-- Behind some bytes of a packet, the data of a packet is collected. -/
theorem packets_data (bytes front : List UInt8) (list : List Symbol) :
    packets (.inside bytes false) (front.map .data ++ list) =
      packets (.inside (bytes ++ front) false) list := by
  induction front generalizing bytes with
  | nil => rw [List.append_nil]; rfl
  | cons byte front ih =>
      rw [List.map_cons, List.cons_append, packets, follow]
      simp [ih]

theorem packets_packet (place : Place) (front : List UInt8) (last : UInt8) (list : List Symbol) :
    packets place (packetSymbols front last ++ list) =
      (front ++ [last]) :: packets .outside list := by
  have start : follow place .start = (.inside [] false, none) := by cases place <;> rfl
  rw [packetSymbols, List.cons_append, List.append_assoc, packets, start, packets_data]
  rfl

theorem packets_stream {payloads : List (List UInt8)}
    (nonempty : ∀ payload ∈ payloads, payload ≠ []) :
    ∃ list, symbols (payloads.flatMap packetBytes) = some list ∧
      packets .outside list = payloads := by
  induction payloads with
  | nil => exact ⟨[], rfl, rfl⟩
  | cons payload rest ih =>
      obtain ⟨list, read, same⟩ := ih fun other listed => nonempty other (.tail _ listed)
      obtain ⟨front, last, rfl⟩ :=
        (List.eq_nil_or_concat payload).resolve_left (nonempty payload (.head _))
      rw [List.concat_eq_append]
      refine ⟨packetSymbols front last ++ list, ?_, ?_⟩
      · rw [List.flatMap_cons, symbols_packet read]
      · rw [packets_packet, same]

/-! ## The channel -/

/-- The state of the sink, with the replies it has made so far. -/
abbrev AvmWorld : Type := AvmState × List Reply

/-- `avm_sink`, as the bridge calls it. -/
def avmTake (world : AvmWorld) (buffer : List UInt8) : AvmWorld × Int :=
  let sunk := avmSink world.1 buffer
  ((sunk.1, world.2 ++ sunk.2), buffer.length)

/-- What is delivered to the channel is sunk in one call for each delivery. -/
theorem deliver_avmTake (world : AvmWorld)
    {deliveries : List (Delivery (AvmWorld → List UInt8 → AvmWorld × Int))}
    (only : ∀ delivery ∈ deliveries, delivery.channel = avmChannel avmTake) :
    ∃ log, deliver (fun sink => sink) 1 world deliveries =
      some (((avmSink world.1 (bytesFor astChannelAvm deliveries)).1,
        world.2 ++ (avmSink world.1 (bytesFor astChannelAvm deliveries)).2), log) := by
  induction deliveries generalizing world with
  | nil => exact ⟨[], by simp [deliver, avmSink]⟩
  | cons delivery rest ih =>
      obtain ⟨channel, bytes⟩ := delivery
      obtain rfl : channel = avmChannel avmTake := only _ (.head _)
      have taken : writeLoop avmTake 1 world bytes = some ((avmTake world bytes).1, bytes) := by
        cases bytes with
        | nil => simp [writeLoop, avmTake, avmSink]
        | cons byte bytes =>
            have all : (avmTake world (byte :: bytes)).2 = ((byte :: bytes).length : Int) := rfl
            simp only [writeLoop]
            rw [all, if_pos (by simp), Int.toNat_natCast, List.drop_length, List.take_length]
            simp [writeLoop]
      obtain ⟨log, later⟩ := ih (avmTake world bytes).1 fun other listed =>
        only other (.tail _ listed)
      have here : bytesFor astChannelAvm (⟨avmChannel avmTake, bytes⟩ :: rest) =
          bytes ++ bytesFor astChannelAvm rest := by
        rw [bytesFor, List.flatMap_cons]
        rfl
      refine ⟨⟨avmChannel avmTake, bytes⟩ :: log, ?_⟩
      simp only [deliver]
      change ((writeLoop avmTake 1 world bytes).bind _) = _
      rw [taken, Option.bind_some, later, here, avmSink_append]
      simp only [Option.map_some, avmTake, List.append_assoc]

/-- What is written to the link for the replies, given the answers of `write`. -/
def answerAll {δ : Type} (mem : UInt32 → UInt8) (channel : HostbridgeChannel δ) :
    BridgeState δ → List Reply → List Int → Option (List UInt8)
  | _, [], _ => some []
  | state, reply :: rest, answers =>
      let sourced := peridotSwHostbridgeGen2Source state channel (replyPtr mem reply)
        (replyFlags reply)
      match writeBlocks answers sourced.2 with
      | none => none
      | some (left, written) => (answerAll mem channel sourced.1 rest left).map (written ++ ·)

variable {δ : Type} {mem : UInt32 → UInt8}

theorem answerAll_returns (mem : UInt32 → UInt8) (channel : HostbridgeChannel δ)
    (state : BridgeState δ) (replies : List Reply) :
    ∃ answers written, answerAll mem channel state replies answers = some written := by
  induction replies generalizing state with
  | nil => exact ⟨[], [], rfl⟩
  | cons reply rest ih =>
      obtain ⟨answers, written, later⟩ := ih (peridotSwHostbridgeGen2Source state channel
        (replyPtr mem reply) (replyFlags reply)).1
      obtain ⟨enough, here⟩ := writeBlocks_returns answers (peridotSwHostbridgeGen2Source state
        channel (replyPtr mem reply) (replyFlags reply)).2
      refine ⟨enough ++ answers, ?_⟩
      simp only [answerAll, here]
      exact ⟨_, Option.map_eq_some_iff.mpr ⟨written, later, rfl⟩⟩

def answerCall (channel : HostbridgeChannel δ) (mem : UInt32 → UInt8) {transaction : Transaction}
    (sensible : transaction.Sensible) : SourceCall δ where
  channel := channel
  ptr := transaction.answer mem
  flags := flagsOf transaction.encode
  nonempty := answer_ne_nil mem sensible
  encoded := .inl (packetized_flagsOf _)

/-- What is written for transactions is read as the answers to them. -/
theorem decode_answers (channel : HostbridgeChannel δ) {transactions : List Transaction}
    (sensible : ∀ transaction ∈ transactions, transaction.Sensible) {state : BridgeState δ}
    {selected : Option UInt8} (agree : Agree state selected) {answers : List Int}
    {written : List UInt8}
    (returned : answerAll mem channel state
      (transactions.map fun transaction => replyTo transaction.encode) answers = some written) :
    ∃ last, decode (resting selected) written =
      (resting last, transactions.map fun transaction =>
        .packet (some channel.number) (transaction.answer mem)) := by
  induction transactions generalizing state selected answers written with
  | nil =>
      cases returned
      exact ⟨selected, rfl⟩
  | cons transaction rest ih =>
      have here := sensible transaction (.head _)
      simp only [List.map_cons, answerAll, replyPtr_encode mem here,
        replyFlags_replyTo] at returned
      split at returned
      · cases returned
      · rename_i left front first
        obtain ⟨later, found, same⟩ := Option.map_eq_some_iff.mp returned
        cases same
        obtain ⟨read, next⟩ := decode_emitted agree (answerCall channel mem here)
        obtain ⟨last, onward⟩ := ih (fun other listed => sensible other (.tail _ listed)) next found
        refine ⟨last, ?_⟩
        rw [writeBlocks_eq first, decode_append]
        unfold emitted at read
        simp only [answerCall] at read onward
        rw [read]
        dsimp only
        rw [onward]
        simp [SourceCall.items, packetized_flagsOf]

/-! ## Conversations -/

/-- A client that sends transactions one behind the other reads the answers to them: whatever the
pieces in which the stream is read, and whatever `write` takes of the answers at a time, on a link
on which nothing has been sent before. -/
theorem avm_conversation (mem : UInt32 → UInt8)
    (client : Registry (AvmWorld → List UInt8 → AvmWorld × Int))
    {registry : Registry (AvmWorld → List UInt8 → AvmWorld × Int)}
    (member : avmChannel avmTake ∈ registry.channels) {transactions : List Transaction}
    (sensible : ∀ transaction ∈ transactions, transaction.Sensible) {reads : List (List UInt8)}
    (cut : CutOf reads (emittedAll (avmChannel avmTake) hostbridgeGen2SourcePacketized
      (freshBridge client) (transactions.map Transaction.encode))) :
    ∃ fuel final log, deliver (fun sink => sink) fuel (initial, [])
        (serve (freshBridge registry) reads).2 = some (final, log) ∧
      let send := answerAll mem (avmChannel avmTake) (serve (freshBridge registry) reads).1 final.2
      (∃ answers written, send answers = some written) ∧
        ∀ answers written, send answers = some written →
          ∃ last, decode (resting none) written =
            (resting last, transactions.map fun transaction =>
              .packet (some astChannelAvm) (transaction.answer mem)) := by
  have nonempty : ∀ payload ∈ transactions.map Transaction.encode, payload ≠ [] := by
    intro payload inside
    obtain ⟨one, -, rfl⟩ := List.mem_map.mp inside
    exact encode_ne_nil one
  have stream := cut.flatten
  rw [emittedAll_fresh client _ nonempty] at stream
  have given : Given (avmChannel avmTake) (serve (freshBridge registry) reads).2
      ((transactions.map Transaction.encode).flatMap packetBytes) := by
    cases transactions with
    | nil =>
        rw [serve_silent _ stream]
        exact given_nil _
    | cons transaction rest =>
        rw [if_neg (by simp)] at stream
        exact serve_given member rfl (prefix_not_mem_packets _) stream
  obtain ⟨log, delivered⟩ := deliver_avmTake (initial, []) given.only
  obtain ⟨list, read, same⟩ := packets_stream nonempty
  have fresh : Follows initial .outside := ⟨rfl, rfl⟩
  have replies := avmSink_replies read fresh
  rw [show bytesFor astChannelAvm _ = _ from given.all] at delivered
  refine ⟨1, _, log, delivered, answerAll_returns _ _ _ _, fun answers written returned => ?_⟩
  rw [List.nil_append, replies, same, List.map_map] at returned
  have agree : Agree (serve (freshBridge registry) reads).1 none := serve_source _ reads
  exact decode_answers (avmChannel avmTake) sensible agree returned

/-- A read of the first bytes of the window, a read across its end, a write, and nothing. -/
def sampleTransactions : List Transaction :=
  [.read true 4 0x10000000, .read false 2 0x1000000f, .write true 1 0x10000000 [0x7d], .none]

def sampleStream : List UInt8 :=
  emittedAll (avmChannel avmTake) hostbridgeGen2SourcePacketized (freshBridge Registry.empty)
    (sampleTransactions.map Transaction.encode)

def lowBytes (address : UInt32) : UInt8 := address.toUInt8

theorem sample_answers : (sampleTransactions.map fun transaction =>
    Item.packet (some astChannelAvm) (transaction.answer lowBytes)) =
      [.packet (some 0) [0, 1, 2, 3], .packet (some 0) [0], .packet (some 0) [0x84, 0, 0, 0],
        .packet (some 0) [0xff, 0, 0, 0]] := by
  decide

theorem avm_conversation_sample :
    ∃ fuel final log, deliver (fun sink => sink) fuel (initial, [])
        (serve (freshBridge ⟨[avmChannel avmTake], by simp⟩) [sampleStream]).2 =
          some (final, log) ∧
      let send := answerAll lowBytes (avmChannel avmTake)
        (serve (freshBridge ⟨[avmChannel avmTake], by simp⟩) [sampleStream]).1 final.2
      (∃ answers written, send answers = some written) ∧
        ∀ answers written, send answers = some written →
          ∃ last, decode (resting none) written = (resting last,
            [.packet (some 0) [0, 1, 2, 3], .packet (some 0) [0], .packet (some 0) [0x84, 0, 0, 0],
              .packet (some 0) [0xff, 0, 0, 0]]) := by
  rw [← sample_answers]
  exact avm_conversation lowBytes Registry.empty (.head _) (by decide)
    ⟨List.append_nil _, by
      intro read listed
      rw [List.mem_singleton.mp listed]
      decide⟩

end PeridotSw.Bridge.AvmConversation
