import PeridotSw.Stream.Encoding

/-!
# Reading the link

The rules by which the other end takes a byte stream apart into packets and plain data of
the channels.  A marker byte says what the next data byte is; behind an escape prefix any
byte is a data byte.
-/

namespace PeridotSw.Stream.Decoding

open PeridotSw.Stream.Ast
open PeridotSw.Stream.Encoding

/-- What comes out: a complete packet, or a data byte outside packets. -/
inductive Item where
  | packet (channel : Option UInt8) (payload : List UInt8)
  | data (channel : Option UInt8) (byte : UInt8)
  deriving DecidableEq

/-- The channel selected, the bytes of the packet begun, and what is known of the next
data byte. -/
structure Decoder where
  channel : Option UInt8
  packet : Option (List UInt8)
  channelNext : Bool
  lastNext : Bool
  escaped : Bool
  deriving DecidableEq

/-- Between packets, with nothing announced. -/
def resting (channel : Option UInt8) : Decoder where
  channel := channel
  packet := none
  channelNext := false
  lastNext := false
  escaped := false

def takeData (decoder : Decoder) (byte : UInt8) : Decoder × List Item :=
  if decoder.channelNext then
    ({ decoder with channel := some byte, channelNext := false, escaped := false }, [])
  else
    match decoder.packet with
    | none =>
        ({ decoder with lastNext := false, escaped := false }, [.data decoder.channel byte])
    | some bytes =>
        if decoder.lastNext then
          (resting decoder.channel, [.packet decoder.channel (bytes ++ [byte])])
        else
          ({ decoder with packet := some (bytes ++ [byte]), escaped := false }, [])

def takeByte (decoder : Decoder) (byte : UInt8) : Decoder × List Item :=
  if decoder.escaped then
    takeData decoder (byte ^^^ astEscapeXor)
  else if byte = astEscapePrefix then
    ({ decoder with escaped := true }, [])
  else if byte = astChannelPrefix then
    ({ decoder with channelNext := true }, [])
  else if byte = astSop then
    ({ decoder with packet := some [] }, [])
  else if byte = astEopPrefix then
    ({ decoder with lastNext := true }, [])
  else
    takeData decoder byte

def decode : Decoder → List UInt8 → Decoder × List Item
  | decoder, [] => (decoder, [])
  | decoder, byte :: rest =>
      let here := takeByte decoder byte
      let later := decode here.1 rest
      (later.1, here.2 ++ later.2)

theorem decode_append (decoder : Decoder) (first second : List UInt8) :
    decode decoder (first ++ second) =
      ((decode (decode decoder first).1 second).1,
        (decode decoder first).2 ++ (decode (decode decoder first).1 second).2) := by
  induction first generalizing decoder with
  | nil => rfl
  | cons byte rest ih =>
      rw [List.cons_append, decode, decode, ih]
      simp only [List.append_assoc]

/-- A data byte is read back from its one or two bytes on the link. -/
theorem decode_escapeByte {decoder : Decoder} (plain : decoder.escaped = false) (byte : UInt8) :
    decode decoder (escapeByte byte) = takeData decoder byte := by
  unfold escapeByte
  cases special : astNeedsEscape byte with
  | true =>
      have forget : takeData { decoder with escaped := true } byte = takeData decoder byte := by
        unfold takeData
        rfl
      simp [decode, takeByte, plain, forget]
  | false =>
      obtain ⟨noSop, noEop, noChannel, noEscape⟩ := ne_of_not_needsEscape special
      simp [decode, takeByte, plain, noSop, noEop, noChannel, noEscape]

theorem decode_channel (channel : Option UInt8) (number : UInt8) :
    decode (resting channel) (astChannelPrefix :: escapeByte number) =
      (resting (some number), []) := by
  have announced : takeByte (resting channel) astChannelPrefix =
      ({ resting channel with channelNext := true }, []) := rfl
  rw [decode, announced, decode_escapeByte rfl]
  rfl

/-- Data bytes outside packets stand for themselves. -/
theorem decode_data (channel : Option UInt8) (payload : List UInt8) :
    decode (resting channel) (encodeBytes false payload) =
      (resting channel, payload.map (.data channel)) := by
  rw [encodeBytes_false]
  induction payload with
  | nil => rfl
  | cons byte rest ih =>
      have here : takeData (resting channel) byte = (resting channel, [.data channel byte]) := rfl
      rw [List.flatMap_cons, decode_append, decode_escapeByte rfl, here, ih]
      rfl

/-- Inside a packet data bytes are collected. -/
theorem decode_inside (channel : Option UInt8) (bytes payload : List UInt8) :
    decode { resting channel with packet := some bytes } (payload.flatMap escapeByte) =
      ({ resting channel with packet := some (bytes ++ payload) }, []) := by
  induction payload generalizing bytes with
  | nil =>
      rw [List.append_nil]
      rfl
  | cons byte rest ih =>
      have here : takeData { resting channel with packet := some bytes } byte =
          ({ resting channel with packet := some (bytes ++ [byte]) }, []) := rfl
      rw [List.flatMap_cons, decode_append, decode_escapeByte rfl, here, ih, List.append_assoc]
      rfl

theorem decode_packet (channel : Option UInt8) {payload : List UInt8} (nonempty : payload ≠ []) :
    decode (resting channel) (astSop :: encodeBytes true payload) =
      (resting channel, [.packet channel payload]) := by
  obtain ⟨front, last, rfl⟩ := List.eq_nil_or_concat payload |>.resolve_left nonempty
  have begun : takeByte (resting channel) astSop =
      ({ resting channel with packet := some [] }, []) := rfl
  have announced (bytes : List UInt8) :
      takeByte { resting channel with packet := some bytes } astEopPrefix =
        ({ resting channel with packet := some bytes, lastNext := true }, []) := rfl
  rw [List.concat_eq_append, encodeBytes_snoc, decode, begun, decode_append, decode_inside, decode,
    announced, decode_escapeByte rfl]
  rfl

end PeridotSw.Stream.Decoding
