import PeridotSw.Machine.Noted
import PeridotSw.Machine.Word

/-!
# Dumping a document

`bson_dump_impl` goes through a document with a pointer that the document's own lengths move,
forward or backward.  A pointer is an integer, counted from the start of the readable memory;
what lies outside that memory cannot be read, and an access there ends the dump.  Noted are
the calls of `output`, with their formats and arguments, and every turn of the loop with the
pointer before and after it.
-/

namespace PeridotSw.Bson.Dump

open PeridotSw.Machine.Word
open PeridotSw.Machine.Noted
open PeridotSw.Machine.Noted.Stopping

/-! ## Reading at a pointer -/

/-- Why a dump is cut off: an access outside the memory, or calls and turns without end. -/
inductive Cut where
  | outside (ptr : Int)
  | endless
  deriving DecidableEq

def bytesFrom (memory : List UInt8) (ptr : Int) : List UInt8 :=
  if ptr < 0 then [] else memory.drop ptr.toNat

def byteAt (memory : List UInt8) (ptr : Int) : Except Cut UInt8 :=
  match bytesFrom memory ptr with
  | byte :: _ => .ok byte
  | [] => .error (.outside ptr)

/-- The bytes `memcpy` copies into a variable. -/
def bytesAt (memory : List UInt8) (ptr : Int) (count : Nat) : Except Cut (List UInt8) :=
  if count ≤ (bytesFrom memory ptr).length then .ok ((bytesFrom memory ptr).take count)
  else .error (.outside ptr)

/-- `read_unaligned_int`, and `memcpy` into an `int`. -/
def readUnalignedInt (memory : List UInt8) (ptr : Int) : Except Cut Int :=
  match bytesFrom memory ptr with
  | b0 :: b1 :: b2 :: b3 :: _ => .ok (signed (le32 b0 b1 b2 b3))
  | _ => .error (.outside ptr)

/-- The bytes in front of the first terminator. -/
def untilNul : List UInt8 → Option (List UInt8)
  | [] => none
  | byte :: rest => if byte = 0 then some [] else (untilNul rest).map (byte :: ·)

def stringAt (memory : List UInt8) (ptr : Int) : Except Cut (List UInt8) :=
  match untilNul (bytesFrom memory ptr) with
  | some string => .ok string
  | none => .error (.outside ptr)

/-! ## Output -/

inductive Argument where
  | char (byte : UInt8)
  | string (bytes : List UInt8)
  | number (bytes : List UInt8)
  deriving DecidableEq

/-- A call of `output`, or a turn of the loop over the elements. -/
inductive Note where
  | output (format : String) (arguments : List Argument)
  | turn (before after : Int)
  deriving DecidableEq

abbrev Dumping : Type → Type := Stopping Note Cut

def output (format : String) (arguments : List Argument) : Dumping Unit :=
  note (.output format arguments)

def dumpBytes (memory : List UInt8) : Nat → Int → Dumping Unit
  | 0, _ => pure ()
  | count + 1, value => do
      output " %02x" [.char (← byteAt memory value)]
      dumpBytes memory count (value + 1)

/-- The `switch` over the subtypes of binaries. -/
def dumpSubtype (subtype : UInt8) : Dumping Unit :=
  if subtype = 0x00 then pure ()
  else if subtype = 0x01 then output ":Function" []
  else if subtype = 0x04 then output ":UUID" []
  else if subtype = 0x05 then output ":MD5" []
  else if subtype = 0x80 then output ":User" []
  else output ":0x%02x" [.char subtype]

def dumpNumber (memory : List UInt8) (format : String) (size : Nat) (data : Int) :
    Dumping (Option Int) := do
  output format [.number (← bytesAt memory data size)]
  pure (some (data + size))

def dumpWord (word : String) (data : Int) : Dumping (Option Int) := do
  output word []
  pure (some data)

def dumpString (memory : List UInt8) (data : Int) : Dumping (Option Int) := do
  let len ← readUnalignedInt memory data
  let value := data + 4
  output "\"%s\"" [.string (← stringAt memory value)]
  if (← byteAt memory (value + len - 1)) ≠ 0 then
    output "!!! Invalid NUL byte !!!" []
    pure none
  else
    pure (some (value + len))

def dumpBinary (memory : List UInt8) (data : Int) : Dumping (Option Int) := do
  let len ← readUnalignedInt memory data
  let subtype ← byteAt memory (data + 4)
  let value := data + 4 + 1
  output "<Binary" []
  dumpSubtype subtype
  dumpBytes memory len.toNat value
  output ">" []
  pure (some (value + len))

def dumpBoolean (memory : List UInt8) (data : Int) : Dumping (Option Int) := do
  let value ← byteAt memory data
  output (if value ≠ 0 then "true" else "false") []
  pure (some (data + 1))

def dumpUnsupported (type : UInt8) : Dumping (Option Int) := do
  output "!!! Unsupported type: 0x%02x !!!" [.char type]
  pure none

/-- The `switch` over the types, but for documents and arrays: the pointer behind the value,
or `none` where `NULL` is returned. -/
def dumpValue (memory : List UInt8) (type : UInt8) (data : Int) : Dumping (Option Int) :=
  if type = 0x01 then dumpNumber memory "%lf" 8 data
  else if type = 0x02 then dumpString memory data
  else if type = 0x05 then dumpBinary memory data
  else if type = 0x06 then dumpWord "undefined" data
  else if type = 0x08 then dumpBoolean memory data
  else if type = 0x09 ∨ type = 0x12 then dumpNumber memory "%lld" 8 data
  else if type = 0x0a then dumpWord "null" data
  else if type = 0x10 then dumpNumber memory "%ld" 4 data
  else if type = 0x11 then dumpNumber memory "%llu" 8 data
  else dumpUnsupported type

/-! ## Documents -/

def indentText (indent totalIndent : Nat) : List UInt8 :=
  if indent ≠ 0 then 0x0a :: List.replicate (totalIndent - 1) 0x20 else []

/-- The beginning of `bson_dump_impl`, and the loop behind it, which is given `end`, the
pointer to the first element and the new total of the indents. -/
def dumpHead (memory : List UInt8) (indent : Nat) (doc : Int) (isArray : Bool) (totalIndent : Nat)
    (elements : Int → Int → Nat → Dumping (Option Int)) : Dumping (Option Int) := do
  let stop := doc + (← readUnalignedInt memory doc)
  output "%c" [.char (if isArray then 0x5b else 0x7b)]
  elements stop (doc + 4) (totalIndent + indent)

/-- The loop of `bson_dump_impl` over the elements.  The first argument bounds the turns and
the calls one inside the other. -/
def dumpElements (memory : List UInt8) (indent : Nat) :
    Nat → Bool → List UInt8 → Int → Int → Nat → Dumping (Option Int)
  | 0, _, _, _, _, _ => throw .endless
  | bound + 1, isArray, sep, stop, data, totalIndent =>
      if data < stop then do
        let type ← byteAt memory data
        if type = 0 then
          output (if indent ≠ 0 then "\n%c" else "%c") [.char (if isArray then 0x5d else 0x7d)]
          if data + 1 < stop then
            output "!!! Junk data after document !!!" []
          pure (some stop)
        else
          let key ← stringAt memory (data + 1)
          let value := data + 1 + (key.length + 1)
          if stop ≤ value then
            output "!!! Key is too long !!!" []
            pure none
          else
            output "%s%s\"%s\":" [.string sep, .string (indentText indent totalIndent),
              .string key]
            let behind ←
              if type = 0x03 ∨ type = 0x04 then
                dumpHead memory indent value (type = 0x04) totalIndent
                  (dumpElements memory indent bound (type = 0x04) [])
              else
                dumpValue memory type value
            match behind with
            | none => pure none
            | some next =>
                note (.turn data next)
                dumpElements memory indent bound isArray [0x2c] stop next totalIndent
      else do
        output "!!! Invalid EOD !!!" []
        pure none

/-- `bson_dump_impl`; `none` stands for `NULL`. -/
def bsonDumpImpl (memory : List UInt8) (indent bound : Nat) (doc : Option Int) (isArray : Bool)
    (totalIndent : Nat) : Dumping (Option Int) :=
  match doc with
  | none => do
      output "null" []
      pure none
  | some doc =>
      dumpHead memory indent doc isArray totalIndent (dumpElements memory indent bound isArray [])

end PeridotSw.Bson.Dump
