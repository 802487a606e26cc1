import PeridotSw.Bson.Footprint

/-!
# The stores of the writers

A writer leaves the memory that its stores leave when they are made one after the other.
They stay inside a buffer exactly when the document still fits behind them.
-/

namespace PeridotSw.Bson.Stores

open PeridotSw.Machine.Memory
open PeridotSw.Machine.Word
open PeridotSw.Bson.Write
open PeridotSw.Bson.Footprint

structure Store where
  place : Nat
  bytes : List UInt8

def Store.Inside (limit : Nat) (store : Store) : Prop := store.place + store.bytes.length ≤ limit

instance (limit : Nat) (store : Store) : Decidable (store.Inside limit) :=
  inferInstanceAs (Decidable (_ ≤ _))

def applyStores (mem : Mem) (stores : List Store) : Mem :=
  stores.foldl (fun mem store => write mem store.place store.bytes) mem

def AllInside (limit : Nat) (stores : List Store) : Prop := ∀ store ∈ stores, store.Inside limit

def createStores : List Store := [⟨0, [5, 0, 0, 0, 0]⟩]

/-- What all writers do. -/
def appendStores (doc : Mem) (key : CString) (type : UInt8) (value : List UInt8) : List Store :=
  let stop := bsonMeasureDocument doc
  let element := type :: key.bytes ++ 0 :: value ++ [0]
  [⟨(stop - 1).toNat, element⟩, ⟨0, bytes32 (unsigned (stop - 1 + element.length))⟩]

def setStringStores (doc : Mem) (key string : CString) : List Store :=
  appendStores doc key 0x02 (bytes32 (unsigned (stringSize string)) ++ string.bytes ++ [0])

def setSubdocumentStores (doc : Mem) (key : CString) (type : UInt8) (subDoc : Mem) :
    List Store :=
  appendStores doc key type (slice subDoc 0 (unsigned (bsonMeasureDocument subDoc)))

variable {garbage doc : Mem} {size limit : Nat} {key : CString}

theorem applyStores_append (mem : Mem) (first second : List Store) :
    applyStores mem (first ++ second) = applyStores (applyStores mem first) second :=
  List.foldl_append

theorem applyStores_create (doc : Mem) :
    applyStores doc createStores = bsonCreateEmptyDocument doc := rfl

theorem applyStores_setString (doc : Mem) (key string : CString) :
    applyStores doc (setStringStores doc key string) =
      (bsonSetString (some doc) key string).1.getD doc := rfl

theorem applyStores_setSubdocument (doc : Mem) (key : CString) (type : UInt8) (subDoc : Mem) :
    applyStores doc (setSubdocumentStores doc key type subDoc) =
      (setSubdocument (some doc) key type subDoc).1.getD doc := rfl

theorem allInside_append {first second : List Store} :
    AllInside limit (first ++ second) ↔ AllInside limit first ∧ AllInside limit second :=
  List.forall_mem_append

theorem allInside_create : AllInside limit createStores ↔ 5 ≤ limit :=
  List.forall_mem_singleton

/-- An element is stored inside exactly when the document fits that has it. -/
theorem allInside_appendStores (occupies : Occupies garbage doc size) (type : UInt8)
    (value : List UInt8) :
    AllInside limit (appendStores doc key type value) ↔
      size + elementSize key value.length ≤ limit := by
  have long := occupies.long
  have stop : (bsonMeasureDocument doc - 1).toNat = size - 1 := by
    rw [occupies.declared]
    omega
  have length : (type :: key.bytes ++ 0 :: value ++ [0]).length =
      elementSize key value.length + 1 := by
    simp only [List.cons_append, List.length_cons, List.length_append, List.length_nil,
      elementSize]
    omega
  simp only [AllInside, appendStores, List.forall_mem_cons, Store.Inside, stop, length,
    length_bytes32]
  constructor
  · intro both
    omega
  · intro fits
    exact ⟨by omega, by omega, List.forall_mem_nil _⟩

end PeridotSw.Bson.Stores
