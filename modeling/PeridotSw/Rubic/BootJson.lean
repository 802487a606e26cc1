import PeridotSw.Machine.Checked
import PeridotSw.Rubic.Info

/-!
# The boot file

`parse_boot_json` reads `boot.json` from the internal storage into a buffer on its stack and
looks there for the runtime and the file to start.  Its pointers into the buffer are indices;
an access outside the buffer stops it.
-/

namespace PeridotSw.Rubic.BootJson

open PeridotSw.Machine.Memory
open PeridotSw.Machine.Checked
open PeridotSw.Rubic.Agent (keyRuntime keyFile)
open PeridotSw.Rubic.Info (Storage)

/-! ## Constants -/

def quote : UInt8 := 0x22
def comma : UInt8 := 0x2c
def slash : UInt8 := 0x2f
def colon : UInt8 := 0x3a
def backslash : UInt8 := 0x5c
def braceOpen : UInt8 := 0x7b
def braceClose : UInt8 := 0x7d

/-- `"\t\r\n "`. -/
def jsonSpaces : List UInt8 := [0x09, 0x0d, 0x0a, 0x20]

/-- `"{}[],"`. -/
def delimiters : List UInt8 := [braceOpen, braceClose, 0x5b, 0x5d, comma]

/-- `"/boot.json"`. -/
def bootName : List UInt8 := [slash, 0x62, 0x6f, 0x6f, 0x74, 0x2e, 0x6a, 0x73, 0x6f, 0x6e]

def nameInternal : CString := .of [0x69, 0x6e, 0x74, 0x65, 0x72, 0x6e, 0x61, 0x6c] rfl

/-- `sizeof(buffer) - 1`. -/
def room : Nat := 255

/-! ## Outside -/

/-- An open file: the parts in which `read` hands out the rest of its bytes, and whether it
fails behind them. -/
structure Delivery where
  parts : List (List UInt8)
  failed : Bool
  proper : ∀ part ∈ parts, part ≠ []

def Delivery.content (file : Delivery) : List UInt8 := file.parts.flatten

/-- The file is read to its end, or at least as far as there is room. -/
def Delivery.Whole (file : Delivery) : Prop := file.failed = true → room ≤ file.content.length

/-- The rest of a delivery behind `count` bytes of its first part. -/
def Delivery.behind (count : Nat) : List (List UInt8) → List (List UInt8)
  | [] => []
  | part :: parts => if count < part.length then part.drop count :: parts else parts

/-- `read`: the bytes, or `none` for an error, and the parts that are left. -/
def read (failed : Bool) (parts : List (List UInt8)) (count : Nat) :
    Option (List UInt8) × List (List UInt8) :=
  if count = 0 then
    (some [], parts)
  else
    match parts with
    | [] => (if failed then none else some [], [])
    | part :: _ => (some (part.take count), Delivery.behind count parts)

structure Outside where
  openFile : List UInt8 → Option Delivery
  malloc : Nat → Bool

/-! ## The parts of the scanner -/

/-- `find_runtime`, for a name in the buffer. -/
def findRuntime (buffer : List UInt8) (name : Nat) :
    List CString → Except Stop (Option CString)
  | [] => .ok none
  | runtime :: rest => do
      if ← guarded buffer (strcmpEq runtime.bytes name) then
        return some runtime
      else
        findRuntime buffer name rest

def strskip (buffer : List UInt8) (s : Nat) (skip : List UInt8) : Except Stop Nat := do
  if (← strpbrk buffer s skip) = some s then
    return s + (← strspn buffer s skip)
  else
    return s

/-- `if (*input++ != byte) goto syntax_error`. -/
def expect (buffer : List UInt8) (byte : UInt8) (input : Nat) : Except Stop Nat := do
  if (← byteAt buffer input) = byte then
    return input + 1
  else
    throw .rejected

/-- `if (!input) goto syntax_error`. -/
def required : Option Nat → Except Stop Nat
  | some input => .ok input
  | none => .error .rejected

/-- The variables of `parse_boot_json`. -/
structure Locals where
  buffer : List UInt8
  input : Nat
  runtime : Option CString
  file : Option Nat

/-- A key and its colon, with the key. -/
def readKey (locals : Locals) : Except Stop (Locals × Nat) := do
  let key ← expect locals.buffer quote (← strskip locals.buffer locals.input jsonSpaces)
  let closing ← required (← strchr locals.buffer key quote)
  let buffer ← storeAt locals.buffer closing [0]
  let input ← expect buffer colon (← strskip buffer (closing + 1) jsonSpaces)
  return ({ locals with buffer := buffer, input := input }, key)

/-- The loop that looks for the end of a string value, to the closing quote. -/
def closeString (buffer : List UInt8) : Nat → Nat → Except Stop Nat
  | 0, _ => .error .endless
  | turns + 1, input => do
      let input ← required (← strpbrk buffer input [backslash, quote])
      if (← byteAt buffer input) = quote then
        return input
      else
        closeString buffer turns (input + 2)

/-- What is done with a string value. -/
def assign (runtimes : List CString) (locals : Locals) (key val : Nat) :
    Except Stop Locals := do
  if ← guarded locals.buffer (strcmpEq keyRuntime.bytes key) then
    return { locals with runtime := ← findRuntime locals.buffer val runtimes }
  else if ← guarded locals.buffer (strcmpEq keyFile.bytes key) then
    return { locals with file := some val }
  else
    return locals

/-- A value, with all that follows from it, up to the separator. -/
def readValue (runtimes : List CString) (locals : Locals) (key : Nat) :
    Except Stop Locals := do
  let input ← strskip locals.buffer locals.input jsonSpaces
  if (← byteAt locals.buffer input) = quote then
    let closing ← closeString locals.buffer locals.buffer.length (input + 1)
    let buffer ← storeAt locals.buffer closing [0]
    let behind ← strskip buffer (closing + 1) jsonSpaces
    assign runtimes { locals with buffer := buffer, input := behind } key (input + 1)
  else
    return { locals with
      input := ← required (← strpbrk locals.buffer (input + 1) delimiters) }

def readMember (runtimes : List CString) (locals : Locals) : Except Stop Locals := do
  let (keyed, key) ← readKey locals
  readValue runtimes keyed key

/-- The two tests behind a member; `none` at the end of the object. -/
def separator (locals : Locals) : Except Stop (Option Locals) := do
  if (← byteAt locals.buffer locals.input) = braceClose then
    return none
  else
    return some { locals with input := ← expect locals.buffer comma (locals.input + 1) }

/-! ## `parse_boot_json` -/

/-- The loop over the members: the variables at its end, and whether it was left by the
closing brace. -/
def readMembers (runtimes : List CString) : Nat → Locals → Except Stop (Locals × Bool)
  | 0, _ => .error .endless
  | turns + 1, locals =>
      match readMember runtimes locals with
      | .error .rejected => .ok (locals, false)
      | .error stop => .error stop
      | .ok member =>
          match separator member with
          | .error .rejected => .ok (member, false)
          | .error stop => .error stop
          | .ok none => .ok (member, true)
          | .ok (some next) => readMembers runtimes turns next

/-- The loop around `read`; `none` for a read error. -/
def fill (failed : Bool) : Nat → List (List UInt8) → List UInt8 → Nat →
    Except Stop (Option (List UInt8))
  | 0, _, _, _ => .error .endless
  | turns + 1, parts, buffer, i =>
      match read failed parts (room - i) with
      | (none, _) => .ok none
      | (some [], _) => .ok (some buffer)
      | (some bytes, parts) => do
          fill failed turns parts (← storeAt buffer i bytes) (i + bytes.length)

/-- The path that is returned, if there is memory for it. -/
def bootPath (outside : Outside) (storage : Storage) (buffer : List UInt8) (file : Nat) :
    Except Stop (Option (List UInt8)) := do
  let path := storage.path.bytes
  let first ← byteAt buffer file
  let text ← stringAt buffer file
  if first = slash then
    return if outside.malloc (text.length + 1) then some text else none
  else
    return if outside.malloc (path.length + 1 + text.length + 1) then
      some (path ++ [slash] ++ text)
    else
      none

/-- What is returned and what is left in `*pruntime`. -/
structure Outcome where
  path : Option (List UInt8)
  runtime : Option CString
  deriving DecidableEq

/-- From `Parse JSON` on. -/
def parse (outside : Outside) (runtimes : List CString) (storage : Storage)
    (buffer : List UInt8) : Except Stop Outcome :=
  match (do expect buffer braceOpen (← strskip buffer 0 jsonSpaces)) with
  | .error .rejected => .ok ⟨none, runtimes.head?⟩
  | .error stop => .error stop
  | .ok input => do
      let (locals, closed) ← readMembers runtimes buffer.length
        { buffer := buffer, input := input, runtime := runtimes.head?, file := none }
      match closed, locals.file with
      | true, some file =>
          return ⟨← bootPath outside storage locals.buffer file, locals.runtime⟩
      | _, _ => return ⟨none, locals.runtime⟩

/-- The loop over the storages. -/
def findInternal : List (Option Storage) → Option Storage
  | some storage :: rest =>
      if storage.name = nameInternal then some storage else findInternal rest
  | _ => none

/-- `parse_boot_json`, with the names of the runtimes that have one and what the stack holds
where the buffer is. -/
def parseBootJson (outside : Outside) (runtimes : List CString)
    (storages : List (Option Storage)) (stack : Vector UInt8 256) : Except Stop Outcome :=
  match findInternal storages with
  | none => .ok ⟨none, runtimes.head?⟩
  | some storage => do
      let buffer ← storeAt stack.toList room [0]
      let buffer ← strncpy buffer 0 storage.path.bytes room
      let buffer ← strncat buffer 0 bootName room
      match outside.openFile (← stringAt buffer 0) with
      | none => return ⟨none, runtimes.head?⟩
      | some file =>
          match ← fill file.failed (room + 1) file.parts buffer 0 with
          | none => return ⟨none, runtimes.head?⟩
          | some buffer => parse outside runtimes storage buffer

end PeridotSw.Rubic.BootJson
