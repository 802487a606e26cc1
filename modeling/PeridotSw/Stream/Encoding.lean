import PeridotSw.Stream.Ast

/-!
# Escaped byte strings

The bytes a payload travels as: each reserved value is escaped, and the last
byte of a packet is announced by the end-of-packet prefix, which stands before
the escape prefix when that byte is escaped itself.
-/

namespace PeridotSw.Stream.Encoding

open PeridotSw.Stream.Ast

def escapeByte (byte : UInt8) : List UInt8 :=
  if astNeedsEscape byte then [astEscapePrefix, byte ^^^ astEscapeXor] else [byte]

/-- A payload on the link, with its last byte marked when it is a packet. -/
def encodeBytes (packet : Bool) : List UInt8 → List UInt8
  | [] => []
  | byte :: rest =>
      (if packet && rest.isEmpty then [astEopPrefix] else []) ++
        escapeByte byte ++ encodeBytes packet rest

@[simp] theorem encodeBytes_nil (packet : Bool) : encodeBytes packet [] = [] := rfl

theorem encodeBytes_cons_cons (packet : Bool) (byte next : UInt8) (rest : List UInt8) :
    encodeBytes packet (byte :: next :: rest) =
      escapeByte byte ++ encodeBytes packet (next :: rest) := by
  simp [encodeBytes]

theorem encodeBytes_singleton (byte : UInt8) :
    encodeBytes true [byte] = astEopPrefix :: escapeByte byte := by
  simp [encodeBytes]

/-- Without packet marks the encoding escapes byte by byte. -/
theorem encodeBytes_false (payload : List UInt8) :
    encodeBytes false payload = payload.flatMap escapeByte := by
  induction payload with
  | nil => rfl
  | cons byte rest ih => simp [encodeBytes, ih]

/-- A packet of at least one byte: all bytes but the last, the mark, the last. -/
theorem encodeBytes_snoc (front : List UInt8) (last : UInt8) :
    encodeBytes true (front ++ [last]) =
      front.flatMap escapeByte ++ astEopPrefix :: escapeByte last := by
  induction front with
  | nil => exact encodeBytes_singleton last
  | cons byte rest ih =>
      have shape : encodeBytes true (byte :: (rest ++ [last])) =
          escapeByte byte ++ encodeBytes true (rest ++ [last]) := by
        cases rest <;> simp [encodeBytes]
      rw [List.cons_append, shape, ih, List.flatMap_cons, List.append_assoc]

/-- No byte of an encoding begins a channel prefix sequence. -/
theorem prefix_not_mem_encodeBytes (packet : Bool) (payload : List UInt8) :
    astChannelPrefix ∉ encodeBytes packet payload := by
  have inByte (byte : UInt8) : astChannelPrefix ∉ escapeByte byte := by
    unfold escapeByte
    cases special : astNeedsEscape byte with
    | true =>
        have plain := ne_of_not_needsEscape (xor_escape_not_marker special)
        simp [Ne.symm plain.2.2.1, show ¬astChannelPrefix = astEscapePrefix by decide]
    | false =>
        have plain := ne_of_not_needsEscape special
        simp [Ne.symm plain.2.2.1]
  induction payload with
  | nil => simp
  | cons byte rest ih =>
      simp only [encodeBytes, List.mem_append, not_or]
      refine ⟨⟨?_, inByte byte⟩, ih⟩
      split
      · decide
      · simp

end PeridotSw.Stream.Encoding
