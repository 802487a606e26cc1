import PeridotSw.Bson.Offsets

/-!
# Where the readers read

A document of any content lies at the start of a buffer of `limit` bytes, and declares
as many.  The readers are applied to it, at the offsets the scan produced, and to the
sub-documents they lead to.  They stay in the buffer exactly when every element that
the scan comes to has room for the part of its value that is read, and every
sub-document ends in the buffer.
-/

namespace PeridotSw.Bson.Confinement

open PeridotSw.Machine.Memory
open PeridotSw.Machine.Word
open PeridotSw.Bson.Read
open PeridotSw.Bson.Walk
open PeridotSw.Bson.Offsets

/-! ## Documents that are reached -/

/-- The document in the buffer and the sub-documents that the readers lead to. -/
inductive Reachable (mem : Mem) : Nat → Prop where
  | top : Reachable mem 0
  | sub {doc sub : Nat} {offset : Int} (reachable : Reachable mem doc)
      (produced : Produced mem doc offset)
      (got : (bsonGetSubdocument (some doc) offset).eval mem = some sub) : Reachable mem sub

/-- All readers of all documents reached stay below the limit. -/
def Confined (mem : Mem) (limit : Nat) : Prop :=
  ∀ doc, Reachable mem doc →
    (∀ params, (bsonGetProps doc params).Within mem fun index => index < limit) ∧
    ∀ offset, Produced mem doc offset →
      ((bsonGetString (some doc) offset).Within mem fun index => index < limit) ∧
      ((bsonGetSubdocument (some doc) offset).Within mem fun index => index < limit) ∧
      ((bsonGetBinary (some doc) offset).Within mem fun index => index < limit) ∧
      (∀ default, (bsonGetBoolean (some doc) offset default).Within mem
        fun index => index < limit) ∧
      (∀ default, (bsonGetInt32 (some doc) offset default).Within mem
        fun index => index < limit) ∧
      ∀ default, (bsonGetDouble (some doc) offset default).Within mem fun index => index < limit

/-- The number of bytes of a value that are read without a look at the end: a length
field, or the whole value. -/
def unchecked (type : UInt8) : Nat :=
  if type = 0x01 then 8
  else if type = 0x10 then 4
  else
    match layout type with
    | .counted _ => 4
    | _ => 0

/-- The document in the buffer and the values of documents and arrays among the elements
of such a document. -/
inductive Nested (mem : Mem) : Nat → Prop where
  | top : Nested mem 0
  | sub {doc place value : Nat} (nested : Nested mem doc)
      (element : IsElement mem doc place value) (type : mem place = 0x03 ∨ mem place = 0x04) :
      Nested mem value

/-- Every element at every level has room for what is read of its value, and every
sub-document that declares more than its length field ends in the buffer. -/
def Sound (mem : Mem) (limit : Nat) : Prop :=
  ∀ doc place value, Nested mem doc → IsElement mem doc place value →
    value + unchecked (mem place) ≤ limit ∧
      (mem place = 0x03 ∨ mem place = 0x04 → 4 < word mem value → word mem value < 2 ^ 31 →
        value + word mem value ≤ limit)

variable {mem : Mem} {limit : Nat}

end PeridotSw.Bson.Confinement
