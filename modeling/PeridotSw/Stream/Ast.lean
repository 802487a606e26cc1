import Mathlib.Data.Nat.Notation

/-!
# The marker bytes of the host link

Packets and channels share one byte stream with the host.  Four byte values are
reserved; a data byte with one of these values travels as an escape prefix and
the byte with one bit flipped.
-/

namespace PeridotSw.Stream.Ast

def astSop : UInt8 := 0x7a
def astEopPrefix : UInt8 := 0x7b
def astChannelPrefix : UInt8 := 0x7c
def astEscapePrefix : UInt8 := 0x7d
def astEscapeXor : UInt8 := 0x20

/-- `AST_NEEDS_ESCAPE`. -/
def astNeedsEscape (byte : UInt8) : Bool :=
  decide (astSop ≤ byte) && decide (byte ≤ astEscapePrefix)

/-- The data byte a received byte stands for. -/
def unescape (escaped : Bool) (byte : UInt8) : UInt8 :=
  if escaped then byte ^^^ astEscapeXor else byte

/-- Flipping the escape bit twice restores the byte. -/
@[simp] theorem xor_escape_xor (byte : UInt8) :
    byte ^^^ astEscapeXor ^^^ astEscapeXor = byte := by
  rw [UInt8.xor_assoc, UInt8.xor_self, UInt8.xor_zero]

/-- Whatever holds of all 256 values holds of every byte. -/
theorem forall_byte {property : UInt8 → Prop}
    (all : ∀ value : Fin 256, property (UInt8.ofNat value)) (byte : UInt8) :
    property byte := by
  have here := all ⟨byte.toNat, byte.toNat_lt⟩
  simpa using here

theorem needsEscape_iff (byte : UInt8) :
    astNeedsEscape byte = true ↔
      byte = astSop ∨ byte = astEopPrefix ∨ byte = astChannelPrefix ∨
        byte = astEscapePrefix := by
  revert byte
  apply forall_byte
  decide +kernel

/-- An escaped byte is never a marker itself. -/
theorem xor_escape_not_marker {byte : UInt8} (special : astNeedsEscape byte = true) :
    astNeedsEscape (byte ^^^ astEscapeXor) = false := by
  revert byte
  apply forall_byte
  decide +kernel

theorem xor_escape_ne (byte : UInt8) : byte ^^^ astEscapeXor ≠ byte := by
  revert byte
  apply forall_byte
  decide +kernel

theorem ne_of_not_needsEscape {byte : UInt8} (plain : astNeedsEscape byte = false) :
    byte ≠ astSop ∧ byte ≠ astEopPrefix ∧ byte ≠ astChannelPrefix ∧
      byte ≠ astEscapePrefix := by
  have none := mt (needsEscape_iff byte).mpr (by simp [plain])
  simpa [not_or] using none

end PeridotSw.Stream.Ast
