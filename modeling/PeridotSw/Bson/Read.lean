import PeridotSw.Machine.Memory

/-!
# The readers of BSON documents

A document lies somewhere in memory; pointers are indices of its bytes.  `doc` is
the index of its first byte, `data` and `stop` are the pointers the code calls
`data` and `end`.  Every function is a computation that reads single bytes, so that
its result and the indices it touches can both be spoken of.  An `int` is an integer
in the range of 32 bits; pointers are not confined to any range.
-/

namespace PeridotSw.Bson.Read

open PeridotSw.Machine.Memory
open PeridotSw.Machine.Word

def readUnalignedInt (ptr : Nat) : Access Int := do
  let b0 ← Access.byte ptr
  let b1 ← Access.byte (ptr + 1)
  let b2 ← Access.byte (ptr + 2)
  let b3 ← Access.byte (ptr + 3)
  pure (signed (b0.toNat ||| b1.toNat <<< 8 ||| b2.toNat <<< 16 ||| b3.toNat <<< 24))

/-- `data += strnlen(data, end - data) + 1` with the check that follows it everywhere:
the pointer behind the string, if its terminator lies before `end`. -/
def skipString (data stop : Nat) : Access (Option Nat) := do
  let behind := data + (← strnlen data (stop - data)) + 1
  if stop ≤ behind then
    pure none
  else if (← Access.byte (behind - 1)) ≠ 0 then
    pure none
  else
    pure (some behind)

/-- How the cases of the `switch` in `measure_value` find a length. -/
inductive Layout where
  | fixed (length : Nat)
  | counted (header : Nat)
  | regex
  | unknown
  deriving DecidableEq

/-- The `switch` of `measure_value`. -/
def layout (type : UInt8) : Layout :=
  if type = 0x01 ∨ type = 0x09 ∨ type = 0x11 ∨ type = 0x12 then .fixed 8
  else if type = 0x02 ∨ type = 0x0d ∨ type = 0x0e ∨ type = 0x0f then .counted 4
  else if type = 0x03 ∨ type = 0x04 then .counted 0
  else if type = 0x05 then .counted (4 + 1)
  else if type = 0x06 ∨ type = 0x0a then .fixed 0
  else if type = 0x07 then .fixed 12
  else if type = 0x08 then .fixed 1
  else if type = 0x0b then .regex
  else if type = 0x0c then .counted (4 + 12)
  else if type = 0x10 then .fixed 4
  else if type = 0x13 then .fixed 16
  else .unknown

/-- The end of `measure_value`: a negative length is refused. -/
def finishMeasure (len : Int) (skipped : Nat) : Int :=
  if len < 0 then -1 else wrap (len + skipped)

def measureValue (type : UInt8) (data stop : Nat) : Access Int :=
  match layout type with
  | .fixed length => pure (finishMeasure length 0)
  | .counted header => do
      let len ← readUnalignedInt data
      pure (finishMeasure len header)
  | .regex => do
      match ← skipString data stop with
      | none => pure (-1)
      | some pattern =>
          match ← skipString pattern stop with
          | none => pure (-1)
          | some options => pure (finishMeasure 0 (options - data))
  | .unknown => pure (-1)

/-- A key and the variable for its offset, as they are passed to `bson_get_props`. -/
structure Param where
  key : CString
  offset : Int

/-- `(*off < 0) && (strcmp(key, name) == 0)`. -/
def keyMatches (param : Param) (name : Nat) : Access Bool :=
  if param.offset < 0 then strcmpEq param.key.bytes name else pure false

/-- The loop over the keys for one element: the first key without an offset that is
the element's name gets the element's offset. -/
def offerName (doc name : Nat) : List Param → Access (Option (List Param))
  | [] => pure none
  | param :: rest => do
      if ← keyMatches param name then
        pure (some ({ param with offset := (name : Int) - 1 - doc } :: rest))
      else
        pure ((← offerName doc name rest).map (param :: ·))

/-- The loop over the elements, at most `count` of them. -/
def scanElements (doc stop total : Nat) :
    Nat → Nat → Nat → List Param → Access (Int × List Param)
  | 0, _, scanned, params => pure (scanned, params)
  | count + 1, data, scanned, params =>
      if data < stop then do
        let type ← Access.byte data
        if type = 0 then
          pure (scanned, params)
        else
          match ← skipString (data + 1) stop with
          | none => pure (-1, params)
          | some value =>
              let offered ← offerName doc (data + 1) params
              let found := offered.getD params
              let now := if offered.isSome then scanned + 1 else scanned
              if offered.isSome ∧ now = total then
                pure (now, found)
              else do
                let elmlen ← measureValue type value stop
                if elmlen < 0 then
                  pure (-1, found)
                else
                  scanElements doc stop total count (value + elmlen.toNat) now found
      else
        pure (scanned, params)

/-- `bson_get_props`: its result and the offset variables afterwards. -/
def bsonGetProps (doc : Nat) (params : List Param) : Access (Int × List Param) := do
  let stop : Int := doc + (← readUnalignedInt doc)
  let data := doc + 4
  if stop ≤ data then
    pure (-1, params)
  else if (← Access.byte (stop - 1).toNat) ≠ 0 then
    pure (-1, params)
  else
    scanElements doc stop.toNat params.length (stop.toNat - data) data 0
      (params.map fun param => { param with offset := -1 })

/-- `seek_data`: pointers to the value and to the end of the document.  `none` for
`NULL`, also as `doc`. -/
def seekData (doc : Option Nat) (offset : Int) (low high : UInt8) :
    Access (Option (Nat × Nat)) :=
  match doc with
  | none => pure none
  | some doc =>
      if offset < 4 then
        pure none
      else do
        let stop : Int := doc + (← readUnalignedInt doc)
        let data := doc + offset.toNat
        if stop ≤ data then
          pure none
        else if (← Access.byte (stop - 1).toNat) ≠ 0 then
          pure none
        else
          let type ← Access.byte data
          if type ≠ low ∧ type ≠ high then
            pure none
          else
            pure ((← skipString (data + 1) stop.toNat).map fun value => (value, stop.toNat))

/-- `bson_get_string`; `none` stands for the default value. -/
def bsonGetString (doc : Option Nat) (offset : Int) : Access (Option Nat) := do
  match ← seekData doc offset 0x02 0x02 with
  | none => pure none
  | some (data, stop) =>
      let len ← readUnalignedInt data
      let string := data + 4
      if len ≤ 0 ∨ (stop : Int) - string < len then
        pure none
      else if (← Access.byte (string + len - 1).toNat) ≠ 0 then
        pure none
      else
        pure (some string)

/-- `bson_get_subdocument`; `none` stands for the default value. -/
def bsonGetSubdocument (doc : Option Nat) (offset : Int) : Access (Option Nat) := do
  pure ((← seekData doc offset 0x04 0x03).map Prod.fst)

/-- `bson_get_binary`: the pointer and what is stored at `lenptr`. -/
def bsonGetBinary (doc : Option Nat) (offset : Int) : Access (Option (Nat × Int)) := do
  match ← seekData doc offset 0x05 0x05 with
  | none => pure none
  | some (data, stop) =>
      let binlen ← readUnalignedInt data
      let content := data + (4 + 1)
      if binlen ≤ 0 ∨ (stop : Int) - content < binlen then
        pure none
      else
        pure (some (content, binlen))

def bsonGetBoolean (doc : Option Nat) (offset default : Int) : Access Int := do
  match ← seekData doc offset 0x08 0x08 with
  | none => pure default
  | some (data, _) => pure (if (← Access.byte data) ≠ 0 then 1 else 0)

def bsonGetInt32 (doc : Option Nat) (offset default : Int) : Access Int := do
  match ← seekData doc offset 0x10 0x10 with
  | none => pure default
  | some (data, _) => readUnalignedInt data

/-- `memcpy` from memory. -/
def readBytes (ptr : Nat) : Nat → Access (List UInt8)
  | 0 => pure []
  | count + 1 => do
      let byte ← Access.byte ptr
      pure (byte :: (← readBytes (ptr + 1) count))

/-- `bson_get_double`, a double being its eight bytes. -/
def bsonGetDouble (doc : Option Nat) (offset : Int) (default : List UInt8) :
    Access (List UInt8) := do
  match ← seekData doc offset 0x01 0x01 with
  | none => pure default
  | some (data, _) => readBytes data 8

end PeridotSw.Bson.Read
