import PeridotSw.Bson.Walk

/-!
# Documents as values

What the writers build and the readers read, apart from its bytes: a sequence of keys
with values, of which some are documents again.  `Built` says that memory was produced
by the writers, one call for each element, in buffers that may hold anything at first.
-/

namespace PeridotSw.Bson.Document

open PeridotSw.Machine.Memory
open PeridotSw.Machine.Word
open PeridotSw.Bson.Read
open PeridotSw.Bson.Write
open PeridotSw.Bson.Walk

/-! ## Elements in bytes -/

/-- An element: its key, its type and the bytes of its value. -/
structure Element where
  key : CString
  type : UInt8
  body : List UInt8

def Element.bytes (element : Element) : List UInt8 :=
  element.type :: element.key.bytes ++ 0 :: element.body

def documentBytes (elements : List UInt8) : List UInt8 :=
  bytes32 (elements.length + 5) ++ elements ++ [0]

/-- The bytes of a value have the length that a value of the type declares. -/
def Shaped (type : UInt8) (body : List UInt8) : Prop :=
  match layout type with
  | .fixed length => body.length = length
  | .counted header => ∃ count rest,
      body = bytes32 count ++ rest ∧ body.length = count + header
  | .regex => ∃ pattern options : CString, body = pattern.bytes ++ 0 :: options.bytes ++ [0]
  | .unknown => False

theorem Shaped.type_ne_zero {type : UInt8} {body : List UInt8} (shaped : Shaped type body) :
    type ≠ 0 := by
  rintro rfl
  exact shaped

@[simp] theorem length_documentBytes (elements : List UInt8) :
    (documentBytes elements).length = elements.length + 5 := by
  simp [documentBytes]
  omega

@[simp] theorem length_element_bytes (element : Element) :
    element.bytes.length = element.key.bytes.length + element.body.length + 2 := by
  simp [Element.bytes]
  omega

/-! ## Values -/

mutual

/-- A value: of a type there is a writer for, or of another type in its bytes. -/
inductive Value where
  | string (text : CString)
  | int32 (number : Int32)
  | boolean (number : Int32)
  | double (number : Double)
  | null
  | binary (subtype : UInt8) (content : List UInt8)
  | subdocument (content : Elements)
  | array (content : Elements)
  | other (type : UInt8) (body : List UInt8) (shaped : Shaped type body)
      (foreign : type ∉ [0x02, 0x03, 0x04, 0x05])

/-- The elements of a document in the order they were set. -/
inductive Elements where
  | empty
  | append (front : Elements) (key : CString) (value : Value)

end

def Value.type : Value → UInt8
  | .string _ => 0x02
  | .int32 _ => 0x10
  | .boolean _ => 0x08
  | .double _ => 0x01
  | .null => 0x0a
  | .binary _ _ => 0x05
  | .subdocument _ => 0x03
  | .array _ => 0x04
  | .other type _ _ _ => type

mutual

def Value.encode : Value → List UInt8
  | .string text => bytes32 (text.bytes.length + 1) ++ text.bytes ++ [0]
  | .int32 number => bytes32 (unsigned number.toInt)
  | .boolean number => [if number ≠ 0 then 1 else 0]
  | .double number => number.bytes
  | .null => []
  | .binary subtype content => bytes32 content.length ++ subtype :: content
  | .subdocument content => documentBytes content.encode
  | .array content => documentBytes content.encode
  | .other _ body _ _ => body

def Elements.encode : Elements → List UInt8
  | .empty => []
  | .append front key value =>
      front.encode ++ Element.bytes ⟨key, value.type, value.encode⟩

end

def Value.element (value : Value) (key : CString) : Element :=
  ⟨key, value.type, value.encode⟩

def Elements.list : Elements → List Element
  | .empty => []
  | .append front key value => front.list ++ [value.element key]

/-- The index of the first element with a key. -/
def Elements.offset (key : CString) : Elements → Option Nat
  | .empty => none
  | .append front other _ =>
      front.offset key <|> if other = key then some (4 + front.encode.length) else none

/-- Memory holds a document of at most the size that an `int` can express. -/
def HoldsDocument (mem : Mem) (doc : Nat) (content : Elements) : Prop :=
  Holds mem doc (documentBytes content.encode) ∧ content.encode.length + 5 < 2 ^ 31

theorem Elements.encode_eq_flatMap (content : Elements) :
    content.encode = content.list.flatMap Element.bytes := by
  match content with
  | .empty => simp [Elements.encode, Elements.list]
  | .append front key value =>
      have ih := Elements.encode_eq_flatMap front
      simp [Elements.encode, Elements.list, Value.element, ih]

theorem Value.shaped (value : Value) : Shaped value.type value.encode := by
  cases value with
  | string text =>
      exact ⟨text.bytes.length + 1, text.bytes ++ [0], by simp [Value.encode],
        by simp [Value.encode]; omega⟩
  | int32 number => rfl
  | boolean number => rfl
  | double number => exact number.size
  | null => rfl
  | binary subtype content =>
      exact ⟨content.length, subtype :: content, rfl, by simp [Value.encode]; omega⟩
  | subdocument content =>
      exact ⟨content.encode.length + 5, content.encode ++ [0],
        by simp [Value.encode, documentBytes], by simp [Value.encode]⟩
  | array content =>
      exact ⟨content.encode.length + 5, content.encode ++ [0],
        by simp [Value.encode, documentBytes], by simp [Value.encode]⟩
  | other type body shaped _ => exact shaped

theorem Elements.shaped (content : Elements) :
    ∀ element ∈ content.list, Shaped element.type element.body := by
  match content with
  | .empty => simp [Elements.list]
  | .append front key value =>
      have ih := Elements.shaped front
      intro element listed
      rcases List.mem_append.mp listed with before | last
      · exact ih element before
      · rw [List.mem_singleton.mp last]
        exact value.shaped

/-! ## Documents under construction -/

/-- A call of a writer, its value as the caller passes it. -/
inductive Call where
  | string (text : CString)
  | int32 (number : Int32)
  | boolean (number : Int32)
  | double (number : Double)
  | null
  | binary (content : List UInt8)
  | subdocument (doc : Mem)
  | array (doc : Mem)

/-- The writer that is called; `NULL` for the document gives the size alone. -/
def Call.set : Call → Option Mem → CString → Option Mem × Int
  | .string text, doc, key => bsonSetString doc key text
  | .int32 number, doc, key => bsonSetInt32 doc key number
  | .boolean number, doc, key => bsonSetBoolean doc key number
  | .double number, doc, key => bsonSetDouble doc key number
  | .null, doc, key => bsonSetNull doc key
  | .binary content, doc, key =>
      let call := bsonSetBinaryGeneric doc key content.length
      (call.1, call.2.1)
  | .subdocument sub, doc, key => bsonSetSubdocument doc key sub
  | .array sub, doc, key => bsonSetArray doc key sub

/-- The document after the call.  The caller of `bson_set_binary_generic` fills the
content in through the pointer it is given. -/
def Call.apply (call : Call) (doc : Mem) (key : CString) : Mem :=
  let written := ((call.set (some doc) key).1).getD doc
  match call with
  | .binary content =>
      write written
        ((bsonSetBinaryGeneric (some doc) key content.length).2.2.getD 0) content
  | _ => written

/-- What the same call returns for a `NULL` document. -/
def Call.measure (call : Call) (key : CString) : Int := (call.set none key).2

mutual

/-- Memory holds a document made by the writers in a buffer with room for it; `sum` is
the sum of the sizes the same calls return for a `NULL` document. -/
inductive Built : Elements → Mem → Int → Prop where
  | empty (garbage : Mem) : Built .empty (bsonCreateEmptyDocument garbage) 0
  | append {front : Elements} {doc : Mem} {sum : Int} {key : CString} {value : Value}
      {call : Call} (built : Built front doc sum) (passes : Passes value call)
      (room : (Elements.append front key value).encode.length + 5 < 2 ^ 31) :
      Built (.append front key value) (call.apply doc key) (sum + call.measure key)

/-- The call passes the value, a document by a pointer to one built likewise. -/
inductive Passes : Value → Call → Prop where
  | string (text : CString) : Passes (.string text) (.string text)
  | int32 (number : Int32) : Passes (.int32 number) (.int32 number)
  | boolean (number : Int32) : Passes (.boolean number) (.boolean number)
  | double (number : Double) : Passes (.double number) (.double number)
  | null : Passes .null .null
  | binary (content : List UInt8) : Passes (.binary 0 content) (.binary content)
  | subdocument {content : Elements} {doc : Mem} {sum : Int} (built : Built content doc sum) :
      Passes (.subdocument content) (.subdocument doc)
  | array {content : Elements} {doc : Mem} {sum : Int} (built : Built content doc sum) :
      Passes (.array content) (.array doc)

end

/-! ## The writers write the bytes of the value -/

theorem stringSize_eq {string : CString} (bound : string.bytes.length + 1 < 2 ^ 31) :
    stringSize string = string.bytes.length + 1 := by
  unfold stringSize
  rw [wrap_of_range] <;> omega

/-- The length a document in memory declares. -/
theorem readUnalignedInt_document {mem : Mem} {doc : Nat} {elements : List UInt8}
    (held : Holds mem doc (documentBytes elements)) (bound : elements.length + 5 < 2 ^ 31) :
    (readUnalignedInt doc).eval mem = (elements.length : Int) + 5 := by
  rw [documentBytes, List.append_assoc, holds_append] at held
  have length : word mem doc = elements.length + 5 :=
    word_of_holds (Nat.lt_trans bound (by decide)) held.1
  rw [eval_readUnalignedInt, length, signed_eq_of_lt bound]
  push_cast
  rfl

theorem holds_create (garbage : Mem) :
    Holds (bsonCreateEmptyDocument garbage) 0 (documentBytes []) :=
  holds_write garbage 0 [5, 0, 0, 0, 0]

/-- Appending an element to a document in memory. -/
theorem holds_appendElement {doc : Mem} {elements : List UInt8} (element : Element)
    (held : Holds doc 0 (documentBytes elements))
    (bound : elements.length + element.bytes.length + 5 < 2 ^ 31) :
    Holds (appendElement doc element.key element.type element.body) 0
      (documentBytes (elements ++ element.bytes)) := by
  have length : bsonMeasureDocument doc = (elements.length : Int) + 5 :=
    readUnalignedInt_document held (by omega)
  have stop : (bsonMeasureDocument doc - 1).toNat = 4 + elements.length := by omega
  have final : bsonMeasureDocument doc - 1 + ((element.bytes ++ [0]).length : Int) =
      ((elements ++ element.bytes).length + 5 : Nat) := by
    rw [length, List.length_append, List.length_append, List.length_singleton]
    omega
  have same : element.type :: element.key.bytes ++ 0 :: element.body ++ [0] =
      element.bytes ++ [0] := rfl
  simp only [appendElement, stop, same, final]
  rw [unsigned_natCast (by rw [List.length_append]; omega)]
  simp only [documentBytes, holds_append, List.append_assoc, length_bytes32, Nat.zero_add]
    at held ⊢
  have tail := holds_write doc (4 + elements.length) (element.bytes ++ [0])
  rw [holds_append] at tail
  refine ⟨holds_write _ _ _, ?_, ?_, ?_⟩
  · exact (held.2.1.write_disjoint (by omega)).write_disjoint (.inl (by simp))
  · exact tail.1.write_disjoint (.inl (by rw [length_bytes32]; omega))
  · exact tail.2.write_disjoint (.inl (by rw [length_bytes32]; omega))

/-- A call appends the element to whatever document is in memory, and measures it
correctly. -/
def Writes (call : Call) (type : UInt8) (body : List UInt8) : Prop :=
  ∀ {doc : Mem} {elements : List UInt8} (key : CString),
    Holds doc 0 (documentBytes elements) →
    elements.length + (Element.bytes ⟨key, type, body⟩).length + 5 < 2 ^ 31 →
    Holds (call.apply doc key) 0 (documentBytes (elements ++ Element.bytes ⟨key, type, body⟩)) ∧
      call.measure key = (Element.bytes ⟨key, type, body⟩).length

/-- The size `set_subelement` returns. -/
theorem setSubelement_size {key : CString} {type : UInt8} {body : List UInt8}
    (bound : (Element.bytes ⟨key, type, body⟩).length < 2 ^ 31) :
    wrap (1 + stringSize key + body.length) = (Element.bytes ⟨key, type, body⟩).length := by
  simp only [length_element_bytes] at bound ⊢
  rw [stringSize_eq (by omega), wrap_of_range (by omega) (by omega)]
  push_cast
  omega

/-- A call that is `set_subelement` with the bytes of the value writes the value. -/
theorem writes_of_setSubelement {call : Call} {type : UInt8} {body : List UInt8}
    (set : ∀ doc key, call.set doc key = setSubelement doc key type body)
    (applied : ∀ doc key, call.apply doc key = ((call.set (some doc) key).1).getD doc) :
    Writes call type body := by
  intro doc elements key held bound
  constructor
  · rw [applied, set]
    exact holds_appendElement ⟨key, type, body⟩ held bound
  · rw [Call.measure, set]
    exact setSubelement_size (by omega)

theorem writes_string (text : CString) :
    Writes (.string text) 0x02 (Value.string text).encode := by
  intro doc elements key held bound
  rw [length_element_bytes] at bound
  simp only [Value.encode, List.length_append, length_bytes32, List.length_singleton] at bound
  have size : stringSize text = (text.bytes.length + 1 : Nat) := stringSize_eq (by omega)
  have counted : unsigned (stringSize text) = text.bytes.length + 1 := by
    rw [size, unsigned_natCast (by omega)]
  constructor
  · simp only [Call.apply, Call.set, bsonSetString, Option.map_some, Option.getD_some, counted]
    apply holds_appendElement ⟨key, 0x02, (Value.string text).encode⟩ held
    simp [Value.encode]
    omega
  · simp only [Call.measure, Call.set, bsonSetString]
    rw [size, stringSize_eq (by omega), wrap_of_range (by omega) (by omega)]
    simp [Value.encode]
    omega

theorem writes_binary (content : List UInt8) :
    Writes (.binary content) 0x05 (Value.binary 0 content).encode := by
  intro doc elements key held bound
  rw [length_element_bytes] at bound
  simp only [Value.encode, List.length_append, length_bytes32, List.length_cons] at bound
  have counted : unsigned (content.length : Int) = content.length :=
    unsigned_natCast (by omega)
  have length : bsonMeasureDocument doc = (elements.length : Int) + 5 :=
    readUnalignedInt_document held (by omega)
  have keySize : stringSize key = key.bytes.length + 1 := stringSize_eq (by omega)
  have nonneg : ¬ (content.length : Int) < 0 := by omega
  constructor
  · simp only [Call.apply, Call.set, bsonSetBinaryGeneric, bsonSetBinary, if_neg nonneg,
      Option.map_some, Option.getD_some, counted, Int.toNat_natCast, Value.encode]
    have zeroed := holds_appendElement
      ⟨key, 0x05, bytes32 content.length ++ 0 :: List.replicate content.length 0⟩ held
      (by simp; omega)
    let front := bytes32 (elements.length + (key.bytes.length + content.length + 7) + 5) ++
      elements ++ 0x05 :: key.bytes ++ 0 :: bytes32 content.length ++ [0]
    have parts (middle : List UInt8) (size : middle.length = content.length) :
        documentBytes (elements ++
          Element.bytes ⟨key, 0x05, bytes32 content.length ++ 0 :: middle⟩) =
        front ++ middle ++ [0] := by
      simp [documentBytes, Element.bytes, front, size]
      congr 1
      omega
    have place : (bsonMeasureDocument doc + stringSize key + 4 + 1).toNat =
        0 + front.length := by
      rw [length, keySize]
      simp [front]
      omega
    rw [place, parts content rfl]
    rw [parts _ (List.length_replicate ..)] at zeroed
    exact zeroed.overwrite (List.length_replicate ..).symm
  · simp only [Call.measure, Call.set, bsonSetBinaryGeneric, bsonSetBinary, if_neg nonneg]
    rw [keySize, wrap_of_range (by omega) (by omega)]
    simp [Value.encode]
    omega

theorem slice_document {doc : Mem} {content : Elements}
    (held : HoldsDocument doc 0 content) :
    slice doc 0 (unsigned (bsonMeasureDocument doc)) = documentBytes content.encode := by
  have length : bsonMeasureDocument doc = (content.encode.length + 5 : Nat) :=
    readUnalignedInt_document held.1 held.2
  rw [length, unsigned_natCast (Nat.lt_trans held.2 (by decide)),
    ← length_documentBytes content.encode]
  exact slice_eq_of_holds held.1

theorem writes_subdocument {doc : Mem} {content : Elements} (held : HoldsDocument doc 0 content) :
    Writes (.subdocument doc) 0x03 (documentBytes content.encode) := by
  apply writes_of_setSubelement
  · intro target key
    rw [← slice_document held]
    rfl
  · intro target key
    rfl

theorem writes_array {doc : Mem} {content : Elements} (held : HoldsDocument doc 0 content) :
    Writes (.array doc) 0x04 (documentBytes content.encode) := by
  apply writes_of_setSubelement
  · intro target key
    rw [← slice_document held]
    rfl
  · intro target key
    rfl

mutual

/-- What the writers made holds the document, and the sizes add up. -/
theorem Built.holds {content : Elements} {doc : Mem} {sum : Int} :
    Built content doc sum → HoldsDocument doc 0 content ∧ sum = content.encode.length
  | .empty garbage => ⟨⟨holds_create garbage, by decide⟩, rfl⟩
  | .append built passes room => by
      obtain ⟨held, sum⟩ := built.holds
      simp only [Elements.encode, List.length_append] at room ⊢
      obtain ⟨written, measured⟩ := passes.writes _ held.1 room
      refine ⟨⟨written, ?_⟩, ?_⟩
      · simpa only [Elements.encode, List.length_append] using room
      · rw [sum, measured]
        push_cast
        rfl

theorem Passes.writes {value : Value} {call : Call} :
    Passes value call → Writes call value.type value.encode
  | .string text => writes_string text
  | .int32 _ => writes_of_setSubelement (fun _ _ => rfl) (fun _ _ => rfl)
  | .boolean _ => writes_of_setSubelement (fun _ _ => rfl) (fun _ _ => rfl)
  | .double _ => writes_of_setSubelement (fun _ _ => rfl) (fun _ _ => rfl)
  | .null => writes_of_setSubelement (fun _ _ => rfl) (fun _ _ => rfl)
  | .binary content => writes_binary content
  | .subdocument built => writes_subdocument built.holds.1
  | .array built => writes_array built.holds.1

end

end PeridotSw.Bson.Document
