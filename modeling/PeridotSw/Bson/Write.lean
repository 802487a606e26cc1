import PeridotSw.Bson.Read

/-!
# The writers of BSON documents

A document under construction has a buffer of its own, whose bytes are counted from
its start.  `NULL` is `none`; then a writer only computes the size of the element.
Stores to consecutive bytes are written as one store, and the bytes a `memcpy` reads
are an argument.  An `int` that leaves its range wraps around.
-/

namespace PeridotSw.Bson.Write

open PeridotSw.Machine.Memory
open PeridotSw.Machine.Word
open PeridotSw.Bson.Read

/-- `read_unaligned_int` of a document's length. -/
def bsonMeasureDocument (doc : Mem) : Int := (readUnalignedInt 0).eval doc

def bsonEmptySize : Int := 5

def bsonCreateEmptyDocument (doc : Mem) : Mem := write doc 0 [5, 0, 0, 0, 0]

/-- `strlen(key) + 1` as an `int`. -/
def stringSize (string : CString) : Int := wrap (string.bytes.length + 1)

/-- What all writers do: the type replaces the terminator, key and value follow, then
a new terminator; last the length is rewritten. -/
def appendElement (doc : Mem) (key : CString) (type : UInt8) (value : List UInt8) : Mem :=
  let stop := bsonMeasureDocument doc
  let element := type :: key.bytes ++ 0 :: value ++ [0]
  write (write doc (stop - 1).toNat element) 0
    (bytes32 (unsigned (stop - 1 + element.length)))

def bsonSetString (doc : Option Mem) (key string : CString) : Option Mem × Int :=
  (doc.map fun data => appendElement data key 0x02
      (bytes32 (unsigned (stringSize string)) ++ string.bytes ++ [0]),
    wrap (1 + stringSize key + 4 + stringSize string))

/-- `set_subelement`, for the bytes `ptr` points to. -/
def setSubelement (doc : Option Mem) (key : CString) (type : UInt8) (bytes : List UInt8) :
    Option Mem × Int :=
  (doc.map fun data => appendElement data key type bytes,
    wrap (1 + stringSize key + bytes.length))

/-- `set_subdocument`: as many bytes as the document says it has. -/
def setSubdocument (doc : Option Mem) (key : CString) (type : UInt8) (subDoc : Mem) :
    Option Mem × Int :=
  setSubelement doc key type (slice subDoc 0 (unsigned (bsonMeasureDocument subDoc)))

def bsonSetSubdocument (doc : Option Mem) (key : CString) (subDoc : Mem) : Option Mem × Int :=
  setSubdocument doc key 0x03 subDoc

def bsonSetArray (doc : Option Mem) (key : CString) (subDoc : Mem) : Option Mem × Int :=
  setSubdocument doc key 0x04 subDoc

def bsonSetBoolean (doc : Option Mem) (key : CString) (value : Int32) : Option Mem × Int :=
  setSubelement doc key 0x08 [if value ≠ 0 then 1 else 0]

def bsonSetInt32 (doc : Option Mem) (key : CString) (value : Int32) : Option Mem × Int :=
  setSubelement doc key 0x10 (bytes32 (unsigned value.toInt))

/-- The eight bytes of a double in memory. -/
structure Double where
  bytes : List UInt8
  size : bytes.length = 8

def bsonSetDouble (doc : Option Mem) (key : CString) (value : Double) : Option Mem × Int :=
  setSubelement doc key 0x01 value.bytes

def bsonSetNull (doc : Option Mem) (key : CString) : Option Mem × Int :=
  setSubelement doc key 0x0a []

/-- `bson_set_binary`: the content is zero, and `*bufptr` is the index of its first
byte. -/
def bsonSetBinary (doc : Option Mem) (key : CString) (binlen : Int) (subtype : UInt8) :
    Option Mem × Int × Option Nat :=
  if binlen < 0 then
    (doc, -1, none)
  else
    (doc.map fun data => appendElement data key 0x05
        (bytes32 (unsigned binlen) ++ subtype :: List.replicate binlen.toNat 0),
      wrap (1 + stringSize key + 4 + 1 + binlen),
      doc.map fun data => (bsonMeasureDocument data + stringSize key + 4 + 1).toNat)

def bsonSetBinaryGeneric (doc : Option Mem) (key : CString) (binlen : Int) :
    Option Mem × Int × Option Nat :=
  bsonSetBinary doc key binlen 0x00

/-- `bson_shrink_binary`, with the pointer `bson_set_binary` has given: the document afterwards
and the result. -/
def bsonShrinkBinary (doc : Mem) (buf : Nat) (binlen : Int) : Mem × Int :=
  let lenptr := buf - 5
  let oldBinlen := (readUnalignedInt lenptr).eval doc
  if doc (buf + oldBinlen).toNat ≠ 0 then
    (doc, -1)
  else if oldBinlen < binlen then
    (doc, -1)
  else if oldBinlen = binlen then
    (doc, 0)
  else
    let ended := write doc (buf + binlen).toNat [0]
    let counted := write ended lenptr (bytes32 (unsigned binlen))
    let oldDoclen := bsonMeasureDocument counted
    (write counted 0 (bytes32 (unsigned (oldDoclen - (oldBinlen - binlen)))), 0)

/-- The reading half of `bson_set_element`: type, place and length of the value. -/
def locateElement (doc : Option Nat) (offset : Int) : Access (Option (UInt8 × Nat × Nat)) :=
  match doc with
  | none => pure none
  | some doc =>
      if offset < 4 then
        pure none
      else do
        let stop : Int := doc + (← readUnalignedInt doc)
        let data := doc + offset.toNat
        if stop ≤ data + 1 then
          pure none
        else if (← Access.byte (stop - 1).toNat) ≠ 0 then
          pure none
        else
          let type ← Access.byte data
          match ← skipString (data + 1) stop.toNat with
          | none => pure none
          | some value =>
              let elmlen ← measureValue type value stop.toNat
              if elmlen < 0 then
                pure none
              else
                pure (some (type, value, elmlen.toNat))

/-- `bson_set_element`, from the document at `doc2` in another memory. -/
def bsonSetElement (doc1 : Option Mem) (key : CString) (mem2 : Mem) (doc2 : Option Nat)
    (offset : Int) : Option Mem × Int :=
  match (locateElement doc2 offset).eval mem2 with
  | none => (doc1, 0)
  | some (type, data, elmlen) => setSubelement doc1 key type (slice mem2 data elmlen)

end PeridotSw.Bson.Write
