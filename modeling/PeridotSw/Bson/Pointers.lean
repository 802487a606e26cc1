import PeridotSw.Bson.Read
import PeridotSw.Machine.Noted

/-!
# Reading documents through pointers

The functions handlers read their parameters with, as the handlers call them: with a pointer
into the request that may be `NULL`.  They note the pointers they read through.  All getters
look at the pointer first; `bson_get_props` does not.
-/

namespace PeridotSw.Bson.Pointers

open PeridotSw.Machine.Memory
open PeridotSw.Machine.Noted
open PeridotSw.Bson.Read

/-- The memory a pointer leads into: that of the request, or what lies at address zero. -/
structure Memories where
  input : Mem
  low : Mem

/-- A computation that notes the pointers it reads through. -/
abbrev Through (α : Type) : Type := Noting (Option Nat) α

def NotNull (pointer : Option Nat) : Prop := pointer ≠ none

def getProps (memories : Memories) (doc : Option Nat) (params : List Param) :
    Through (Int × List Param) where
  notes := [doc]
  value := match doc with
    | some place => (bsonGetProps place params).eval memories.input
    | none => (bsonGetProps 0 params).eval memories.low

/-- Where `seek_data` reads. -/
def seekNotes (doc : Option Nat) (offset : Int) : List (Option Nat) :=
  if doc.isNone ∨ offset < 4 then [] else [doc]

def getInt32 (memories : Memories) (doc : Option Nat) (offset default : Int) : Through Int where
  notes := seekNotes doc offset
  value := (bsonGetInt32 doc offset default).eval memories.input

def getString (memories : Memories) (doc : Option Nat) (offset : Int) : Through (Option Nat) where
  notes := seekNotes doc offset
  value := (bsonGetString doc offset).eval memories.input

def getBinary (memories : Memories) (doc : Option Nat) (offset : Int) :
    Through (Option (Nat × Int)) where
  notes := seekNotes doc offset
  value := (bsonGetBinary doc offset).eval memories.input

def getSubdocument (memories : Memories) (doc : Option Nat) (offset : Int) :
    Through (Option Nat) where
  notes := seekNotes doc offset
  value := (bsonGetSubdocument doc offset).eval memories.input

/-- `strcmp(string, name) == 0`, where the default value of `string` is empty. -/
def stringIs (memories : Memories) (string : Option Nat) (name : CString) : Bool :=
  match string with
  | some place => (strcmpEq name.bytes place).eval memories.input
  | none => name.bytes = []

variable {memories : Memories} {doc : Option Nat}

@[simp] theorem value_getProps (place : Nat) (params : List Param) :
    (getProps memories (some place) params).value =
      (bsonGetProps place params).eval memories.input := rfl

@[simp] theorem value_getInt32 (offset default : Int) :
    (getInt32 memories doc offset default).value =
      (bsonGetInt32 doc offset default).eval memories.input := rfl

@[simp] theorem value_getString (offset : Int) :
    (getString memories doc offset).value = (bsonGetString doc offset).eval memories.input := rfl

@[simp] theorem value_getSubdocument (offset : Int) :
    (getSubdocument memories doc offset).value =
      (bsonGetSubdocument doc offset).eval memories.input := rfl

/-- No getter reads through `NULL`. -/
theorem seekNotes_notNull (doc : Option Nat) (offset : Int) :
    ∀ pointer ∈ seekNotes doc offset, NotNull pointer := by
  intro pointer read
  cases doc with
  | none => cases read
  | some place =>
      unfold seekNotes at read
      split at read
      · cases read
      · rw [List.mem_singleton.mp read]
        exact Option.some_ne_none place

theorem all_getProps (notNull : NotNull doc) (params : List Param) :
    (getProps memories doc params).All NotNull := List.forall_mem_singleton.mpr notNull

theorem all_getInt32 (offset default : Int) :
    (getInt32 memories doc offset default).All NotNull := seekNotes_notNull doc offset

theorem all_getString (offset : Int) : (getString memories doc offset).All NotNull :=
  seekNotes_notNull doc offset

theorem all_getBinary (offset : Int) : (getBinary memories doc offset).All NotNull :=
  seekNotes_notNull doc offset

theorem all_getSubdocument (offset : Int) : (getSubdocument memories doc offset).All NotNull :=
  seekNotes_notNull doc offset

/-- What begins with `bson_get_props` of `NULL` reads through it. -/
theorem not_all_getProps {α : Type} (params : List Param)
    (rest : Int × List Param → Through α) :
    ¬(getProps memories none params >>= rest).All NotNull :=
  Noting.not_all_bind rest (.head _) fun notNull => notNull rfl

end PeridotSw.Bson.Pointers
