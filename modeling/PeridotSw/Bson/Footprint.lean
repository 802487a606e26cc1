import PeridotSw.Bson.Walk
import PeridotSw.Bson.Document

/-!
# The bytes a writer stores

A document is built in a buffer that may hold anything.  How far the writers store in
it depends on the sizes they return alone, not on what the document holds already: the
document declares its size, and the buffer behind it is as it was.
-/

namespace PeridotSw.Bson.Footprint

open PeridotSw.Machine.Memory
open PeridotSw.Machine.Word
open PeridotSw.Bson.Read
open PeridotSw.Bson.Write
open PeridotSw.Bson.Walk
open PeridotSw.Bson.Document

/-- A document of `size` bytes has been made in a buffer: it declares them, and no byte
behind them has changed. -/
structure Occupies (garbage doc : Mem) (size : Nat) : Prop where
  declared : bsonMeasureDocument doc = (size : Int)
  long : 5 ≤ size
  behind : ∀ index, size ≤ index → doc index = garbage index

def elementSize (key : CString) (value : Nat) : Nat := key.bytes.length + value + 2

theorem occupies_create (garbage : Mem) : Occupies garbage (bsonCreateEmptyDocument garbage) 5 where
  declared := readUnalignedInt_document (holds_create garbage) (by decide)
  long := Nat.le_refl 5
  behind index outside := write_outside (.inr outside)

/-- The size declared last is read back. -/
theorem measure_write {size : Nat} (small : size < 2 ^ 31) (doc : Mem) :
    bsonMeasureDocument (write doc 0 (bytes32 size)) = (size : Int) := by
  rw [bsonMeasureDocument, eval_readUnalignedInt, word_write_self doc 0 (by omega),
    signed_eq_of_lt small]

namespace Occupies

variable {garbage doc : Mem} {size : Nat}

theorem small (occupies : Occupies garbage doc size) : size < 2 ^ 31 := by
  have declared := occupies.declared
  have bound := word_lt doc 0
  rw [bsonMeasureDocument, eval_readUnalignedInt] at declared
  unfold signed at declared
  split at declared <;> omega

/-- Appending an element stores as many bytes as the element has. -/
theorem append (occupies : Occupies garbage doc size) {key : CString} {value : List UInt8}
    (room : size + elementSize key value.length < 2 ^ 31) (type : UInt8) :
    Occupies garbage (appendElement doc key type value) (size + elementSize key value.length) := by
  have long := occupies.long
  have stop : (bsonMeasureDocument doc - 1).toNat = size - 1 := by
    rw [occupies.declared]
    omega
  have length : (type :: key.bytes ++ 0 :: value ++ [0]).length =
      elementSize key value.length + 1 := by
    simp only [List.cons_append, List.length_cons, List.length_append, List.length_nil,
      elementSize]
    omega
  have final : bsonMeasureDocument doc - 1 +
      ((type :: key.bytes ++ 0 :: value ++ [0]).length : Int) =
        (size + elementSize key value.length : Nat) := by
    rw [occupies.declared, length]
    omega
  simp only [appendElement, final, stop]
  rw [unsigned_of_nonneg (Int.natCast_nonneg _) (by omega), Int.toNat_natCast]
  refine ⟨measure_write room _, by omega, fun index outside => ?_⟩
  rw [write_outside (.inr (by simp only [length_bytes32]; omega)),
    write_outside (.inr (by omega))]
  exact occupies.behind index (by omega)

/-- Stores inside the document behind its length leave its size as it is. -/
theorem fill (occupies : Occupies garbage doc size) {place : Nat} {bytes : List UInt8}
    (after : 4 ≤ place) (inside : place + bytes.length ≤ size) :
    Occupies garbage (write doc place bytes) size where
  declared := by
    rw [← occupies.declared, bsonMeasureDocument, bsonMeasureDocument, eval_readUnalignedInt,
      eval_readUnalignedInt, word_write_behind (by omega)]
  long := occupies.long
  behind index outside := by
    rw [write_outside (.inr (by omega))]
    exact occupies.behind index outside

/-- An empty binary, and the pointer to its content. -/
theorem binary (occupies : Occupies garbage doc size) {key : CString} {count : Nat}
    (room : size + elementSize key (count + 5) < 2 ^ 31) :
    Occupies garbage ((bsonSetBinaryGeneric (some doc) key count).1.getD doc)
        (size + elementSize key (count + 5)) ∧
      (bsonSetBinaryGeneric (some doc) key count).2.2 = some (size + key.bytes.length + 6) := by
  have nonneg : ¬ (count : Int) < 0 := by omega
  have length : (bytes32 (unsigned (count : Int)) ++ 0x00 :: List.replicate count 0).length =
      count + 5 := by
    simp only [List.length_append, length_bytes32, List.length_cons, List.length_replicate]
    omega
  have stored := @Occupies.append _ _ _ occupies key _ (by rw [length]; exact room) 0x05
  rw [length] at stored
  unfold elementSize at room
  simp only [bsonSetBinaryGeneric, bsonSetBinary, if_neg nonneg, Option.map_some,
    Option.getD_some, Int.toNat_natCast, Option.some.injEq]
  refine ⟨stored, ?_⟩
  rw [occupies.declared, stringSize_eq (by omega)]
  omega

end Occupies

/-! ## The writers as calls -/

/-- A call that stores `extra` bytes at the end of a document, and returns their number. -/
structure Adds (set : Option Mem → Option Mem × Int) (extra : Nat) : Prop where
  measured : unsigned (set none).2 = extra
  stores : ∀ {garbage doc : Mem} {size : Nat}, Occupies garbage doc size →
    size + extra < 2 ^ 31 → Occupies garbage ((set (some doc)).1.getD doc) (size + extra)

/-- Measuring goes on with the size of the next element, whatever the sum wraps to. -/
theorem Adds.measure {set : Option Mem → Option Mem × Int} {extra : Nat} (adds : Adds set extra)
    {sum : Int} {size : Nat} (before : unsigned sum = size) (room : size + extra < 2 ^ 32) :
    unsigned (wrap (sum + (set none).2)) = size + extra := by
  have measured := adds.measured
  rw [unsigned_wrap]
  unfold unsigned at before measured ⊢
  omega

/-- A call that writes nothing and returns zero. -/
theorem adds_nothing : Adds (fun doc => (doc, 0)) 0 where
  measured := rfl
  stores occupies _ := occupies

theorem adds_setSubelement {key : CString} {value : List UInt8}
    (short : key.bytes.length + 1 < 2 ^ 31) (room : elementSize key value.length < 2 ^ 32) (type : UInt8) :
    Adds (fun doc => setSubelement doc key type value) (elementSize key value.length) where
  measured := by
    simp only [setSubelement, elementSize] at room ⊢
    rw [stringSize_eq (by omega), unsigned_wrap, unsigned_of_nonneg (by omega) (by omega)]
    omega
  stores occupies room := occupies.append room type

end PeridotSw.Bson.Footprint
