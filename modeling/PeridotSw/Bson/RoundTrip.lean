import PeridotSw.Bson.Lookup

/-!
# Reading back what was written

A document made by the writers declares the size the writers announced, the scan finds
every key at the first element of its name, and the getter of an element's type
returns the value that was set, through every level of nesting.
-/

namespace PeridotSw.Bson.RoundTrip

open PeridotSw.Machine.Memory
open PeridotSw.Machine.Word
open PeridotSw.Bson.Read
open PeridotSw.Bson.Write
open PeridotSw.Bson.Document
open PeridotSw.Bson.Walk
open PeridotSw.Bson.Lookup

variable {mem : Mem} {doc offset stop : Nat} {element : Element}

/-! ## An element at an offset -/

/-- An element lies at an offset of a document that ends at `stop`. -/
structure Lies (mem : Mem) (doc offset stop : Nat) (element : Element) : Prop where
  first : 4 ≤ offset
  held : Holds mem (doc + offset) element.bytes
  inside : doc + offset + element.bytes.length < stop
  declared : (readUnalignedInt doc).eval mem = (stop : Int) - doc
  terminated : mem (stop - 1) = 0
  short : stop < doc + 2 ^ 31
  shaped : Shaped element.type element.body

namespace Lies

/-- The index of the value behind the key. -/
def value (doc offset : Nat) (element : Element) : Nat :=
  doc + offset + 1 + element.key.bytes.length + 1

theorem parts (lies : Lies mem doc offset stop element) :
    mem (doc + offset) = element.type ∧
      Holds mem (doc + offset + 1) (element.key.bytes ++ [0]) ∧
      Holds mem (value doc offset element) element.body := by
  have held := lies.held
  have order : element.bytes =
      element.type :: (element.key.bytes ++ [0] ++ element.body) := by
    simp [Element.bytes]
  rw [order, holds_cons, holds_append, List.length_append, List.length_singleton,
    ← Nat.add_assoc] at held
  exact held

theorem value_inside (lies : Lies mem doc offset stop element) :
    value doc offset element + element.body.length < stop := by
  have inside := lies.inside
  rw [length_element_bytes] at inside
  unfold value
  omega

/-- The document of an element opens at its place. -/
theorem opens (lies : Lies mem doc offset stop element) : Opens mem doc stop := by
  have first := lies.first
  have inside := lies.inside
  have short := lies.short
  have declared := lies.declared
  have bound := word_lt mem doc
  rw [eval_readUnalignedInt] at declared
  have length : doc + word mem doc = stop := by
    unfold signed at declared
    split at declared <;> omega
  exact ⟨length, by omega, by omega, lies.terminated⟩

/-- The element is one that a scan could come to. -/
theorem item (lies : Lies mem doc offset stop element) :
    Item mem stop (doc + offset) (value doc offset element) ∧
      Extent mem (mem (doc + offset)) (value doc offset element) stop element.body.length := by
  have inside := lies.value_inside
  have first := lies.first
  have short := lies.short
  unfold value at inside
  exact (item_of_holds lies.shaped lies.held lies.inside (by omega)).2.2

theorem eval_seekData (lies : Lies mem doc offset stop element) (low high : UInt8) :
    (seekData (some doc) offset low high).eval mem =
      if element.type = low ∨ element.type = high then
        some (value doc offset element, stop)
      else none := by
  have after : doc + 4 ≤ doc + offset := Nat.add_le_add_left lies.first doc
  have there : (offset : Int) = ((doc + offset : Nat) : Int) - doc := by omega
  rw [Walk.eval_seekData lies.opens after lies.item.1 there, lies.parts.1]

theorem eval_locateElement (lies : Lies mem doc offset stop element) :
    (locateElement (some doc) offset).eval mem =
      some (element.type, value doc offset element, element.body.length) := by
  have after : doc + 4 ≤ doc + offset := Nat.add_le_add_left lies.first doc
  have there : (offset : Int) = ((doc + offset : Nat) : Int) - doc := by omega
  rw [locateElement_of_extent lies.opens after lies.item.1 there lies.item.2, lies.parts.1]

end Lies

/-- Every element of a document lies at the offset behind the elements before it. -/
theorem lies_of_document {content : Elements} (held : HoldsDocument mem doc content)
    {front after : List Element} (parts : content.list = front ++ element :: after) :
    Lies mem doc (4 + (front.flatMap Element.bytes).length)
      (doc + 4 + content.encode.length + 1) element := by
  have whole := holds_elements held.1
  rw [Elements.encode_eq_flatMap] at whole
  have size : content.encode.length =
      (front.flatMap Element.bytes).length + element.bytes.length +
        (after.flatMap Element.bytes).length := by
    rw [Elements.encode_eq_flatMap, parts]
    simp [Nat.add_assoc]
  have bound := held.2
  rw [parts, List.flatMap_append, List.flatMap_cons, List.append_assoc, List.append_assoc,
    holds_append, holds_append] at whole
  constructor
  · exact Nat.le_add_right 4 _
  · rw [← Nat.add_assoc]
    exact whole.2.1
  · omega
  · rw [HoldsDocument.declared held]
    omega
  · rw [Nat.add_sub_cancel]
    exact HoldsDocument.terminated held
  · omega
  · exact content.shaped element (parts ▸ List.mem_append_right _ (.head _))

/-! ## What reading back means -/

/-- `bson_get_props` counts the keys that occur, gives each the offset of its first
element, and `-1` to the others. -/
def FindsProps (mem : Mem) (doc : Nat) (content : Elements) : Prop :=
  ∀ params : List Param, (params.map Param.key).Nodup →
    (bsonGetProps doc params).eval mem =
      ((occurring content params : Int), params.map (lookup content))

mutual

/-- The getter for the type of a value returns the value.  There is none for `null`,
and the one for binaries takes an empty one for none. -/
def Value.ReadBack (mem : Mem) (doc offset : Nat) : Value → Prop
  | .string text => ∃ place, (bsonGetString (some doc) offset).eval mem = some place ∧
      Holds mem place (text.bytes ++ [0])
  | .int32 number => ∀ default,
      (bsonGetInt32 (some doc) offset default).eval mem = number.toInt
  | .boolean number => ∀ default,
      (bsonGetBoolean (some doc) offset default).eval mem = if number ≠ 0 then 1 else 0
  | .double number => ∀ default,
      (bsonGetDouble (some doc) offset default).eval mem = number.bytes
  | .null => True
  | .binary _ content => content ≠ [] → ∃ place,
      (bsonGetBinary (some doc) offset).eval mem = some (place, (content.length : Int)) ∧
        Holds mem place content
  | .subdocument content => ∃ place,
      (bsonGetSubdocument (some doc) offset).eval mem = some place ∧
        HoldsDocument mem place content ∧ FindsProps mem place content ∧
          Elements.ReadBack mem place content
  | .array content => ∃ place,
      (bsonGetSubdocument (some doc) offset).eval mem = some place ∧
        HoldsDocument mem place content ∧ FindsProps mem place content ∧
          Elements.ReadBack mem place content
  | .other _ _ _ _ => True

/-- The first element of every key is read back. -/
def Elements.ReadBack (mem : Mem) (doc : Nat) : Elements → Prop
  | .empty => True
  | .append front key value => Elements.ReadBack mem doc front ∧
      (front.offset key = none → Value.ReadBack mem doc (4 + front.encode.length) value)

end

theorem findsProps {content : Elements} (held : HoldsDocument mem doc content) :
    FindsProps mem doc content :=
  fun _ distinct => eval_bsonGetProps held distinct

/-! ## The getters -/

theorem eval_readBytes {place : Nat} {bytes : List UInt8} (held : Holds mem place bytes) :
    (readBytes place bytes.length).eval mem = bytes := by
  induction bytes generalizing place with
  | nil => rfl
  | cons byte rest ih =>
      obtain ⟨here, behind⟩ := (holds_cons ..).mp held
      simp [readBytes, here, ih behind]

theorem readUnalignedInt_bytes32 {place count : Nat} (held : Holds mem place (bytes32 count))
    (bound : count < 2 ^ 31) : (readUnalignedInt place).eval mem = count := by
  rw [eval_readUnalignedInt, word_of_holds (Nat.lt_trans bound (by decide)) held,
    signed_eq_of_lt bound]

namespace Lies

variable {key : CString}

/-- A getter for the type of an element is led to its value. -/
theorem seek {value : Value} (lies : Lies mem doc offset stop (value.element key))
    {low high : UInt8} (type : value.type = low ∨ value.type = high) :
    ∃ place, (seekData (some doc) offset low high).eval mem = some (place, stop) ∧
      Holds mem place value.encode ∧ place + value.encode.length < stop ∧ doc < place :=
  ⟨Lies.value doc offset (value.element key),
    (lies.eval_seekData low high).trans (if_pos type), lies.parts.2.2, lies.value_inside,
    by unfold Lies.value; omega⟩

theorem string {text : CString} (lies : Lies mem doc offset stop ((Value.string text).element key)) :
    Value.ReadBack mem doc offset (.string text) := by
  have type : (Value.string text).type = 0x02 ∨ (Value.string text).type = 0x02 := .inl rfl
  obtain ⟨place, seek, body, inside, behind⟩ := lies.seek type
  have short := lies.short
  simp only [Value.encode] at body inside
  rw [List.append_assoc, holds_append, length_bytes32] at body
  simp only [List.length_append, length_bytes32, List.length_singleton] at inside
  have length : (readUnalignedInt place).eval mem = (text.bytes.length + 1 : Nat) :=
    readUnalignedInt_bytes32 body.1 (by omega)
  have last : ((place + 4 : Nat) + ((text.bytes.length + 1 : Nat) : Int) - 1).toNat =
      place + 4 + text.bytes.length := by omega
  have terminator : mem (place + 4 + text.bytes.length) = 0 :=
    (holds_cons ..).mp ((holds_append ..).mp body.2).2 |>.1
  refine ⟨place + 4, ?_, body.2⟩
  simp only [bsonGetString, Access.eval_bind, seek, length]
  rw [if_neg (by omega)]
  simp only [Access.eval_bind, Access.eval_byte, last, terminator]
  rfl

theorem int32 {number : Int32} (lies : Lies mem doc offset stop ((Value.int32 number).element key)) :
    Value.ReadBack mem doc offset (.int32 number) := by
  intro default
  have type : (Value.int32 number).type = 0x10 ∨ (Value.int32 number).type = 0x10 := .inl rfl
  obtain ⟨place, seek, body, -, -⟩ := lies.seek type
  simp only [bsonGetInt32, Access.eval_bind, seek, eval_readUnalignedInt]
  rw [word_of_holds (unsigned_lt _) body]
  exact wrap_of_range (Int32.le_toInt number) (Int32.toInt_lt number)

theorem boolean {number : Int32}
    (lies : Lies mem doc offset stop ((Value.boolean number).element key)) :
    Value.ReadBack mem doc offset (.boolean number) := by
  intro default
  have type : (Value.boolean number).type = 0x08 ∨ (Value.boolean number).type = 0x08 := .inl rfl
  obtain ⟨place, seek, body, -, -⟩ := lies.seek type
  have here : mem place = if number ≠ 0 then 1 else 0 := (holds_cons ..).mp body |>.1
  simp only [bsonGetBoolean, Access.eval_bind, seek, Access.eval_byte, Access.eval_pure, here]
  by_cases zero : number = 0 <;> simp [zero]

theorem double {number : Double}
    (lies : Lies mem doc offset stop ((Value.double number).element key)) :
    Value.ReadBack mem doc offset (.double number) := by
  intro default
  have type : (Value.double number).type = 0x01 ∨ (Value.double number).type = 0x01 := .inl rfl
  obtain ⟨place, seek, body, -, -⟩ := lies.seek type
  have bytes := eval_readBytes body
  simp only [Value.encode, number.size] at bytes
  simp only [bsonGetDouble, Access.eval_bind, seek, bytes]

theorem binary {subtype : UInt8} {content : List UInt8}
    (lies : Lies mem doc offset stop ((Value.binary subtype content).element key)) :
    Value.ReadBack mem doc offset (.binary subtype content) := by
  intro nonempty
  have type : (Value.binary subtype content).type = 0x05 ∨
      (Value.binary subtype content).type = 0x05 := .inl rfl
  obtain ⟨place, seek, body, inside, behind⟩ := lies.seek type
  have short := lies.short
  have positive := List.length_pos_iff.mpr nonempty
  simp only [Value.encode] at body inside
  rw [holds_append, length_bytes32, holds_cons] at body
  simp only [List.length_append, length_bytes32, List.length_cons] at inside
  have length : (readUnalignedInt place).eval mem = content.length :=
    readUnalignedInt_bytes32 body.1 (by omega)
  refine ⟨place + (4 + 1), ?_, body.2.2⟩
  simp only [bsonGetBinary, Access.eval_bind, seek, length]
  rw [if_neg (by omega)]
  rfl

/-- Also the getter for sub-documents is led to the value, of either type. -/
theorem subdocument {value : Value} {content : Elements}
    (lies : Lies mem doc offset stop (value.element key))
    (type : value.type = 0x04 ∨ value.type = 0x03)
    (encode : value.encode = documentBytes content.encode) :
    ∃ place, (bsonGetSubdocument (some doc) offset).eval mem = some place ∧
      HoldsDocument mem place content := by
  obtain ⟨place, seek, body, inside, behind⟩ := lies.seek type
  have short := lies.short
  rw [encode] at body inside
  rw [length_documentBytes] at inside
  refine ⟨place, ?_, body, by omega⟩
  simp only [bsonGetSubdocument, Access.eval_bind, seek]
  rfl

end Lies

/-! ## The round trip -/

mutual

theorem readBack_elements {mem : Mem} {doc : Nat} {content : Elements}
    (held : HoldsDocument mem doc content) (front : Elements) {after : List Element}
    (parts : content.list = front.list ++ after) : Elements.ReadBack mem doc front := by
  match front with
  | .empty => trivial
  | .append before key value =>
      have split : content.list = before.list ++ value.element key :: after := by
        rw [parts, Elements.list, List.append_assoc]
        rfl
      have lies := lies_of_document held split
      rw [← Elements.encode_eq_flatMap] at lies
      exact ⟨readBack_elements held before split, fun _ => readBack_value value lies⟩

theorem readBack_value {mem : Mem} {doc offset stop : Nat} {key : CString} (value : Value)
    (lies : Lies mem doc offset stop (value.element key)) :
    Value.ReadBack mem doc offset value := by
  match value with
  | .string _ => exact lies.string
  | .int32 _ => exact lies.int32
  | .boolean _ => exact lies.boolean
  | .double _ => exact lies.double
  | .null => trivial
  | .binary _ _ => exact lies.binary
  | .subdocument content =>
      obtain ⟨place, got, held⟩ := lies.subdocument (.inr rfl) rfl
      exact ⟨place, got, held, findsProps held,
        readBack_elements held content (List.append_nil _).symm⟩
  | .array content =>
      obtain ⟨place, got, held⟩ := lies.subdocument (.inl rfl) rfl
      exact ⟨place, got, held, findsProps held,
        readBack_elements held content (List.append_nil _).symm⟩
  | .other _ _ _ _ => trivial

end

/-- Whatever sequence of keys and values the writers put into a document, the document
has the announced length and is read back. -/
theorem roundTrip {content : Elements} {doc : Mem} {sum : Int} (built : Built content doc sum) :
    bsonMeasureDocument doc = 5 + sum ∧ doc (4 + sum).toNat = 0 ∧
      FindsProps doc 0 content ∧ Elements.ReadBack doc 0 content := by
  obtain ⟨held, total⟩ := built.holds
  refine ⟨?_, ?_, findsProps held, readBack_elements held content (List.append_nil _).symm⟩
  · rw [total, Int.add_comm]
    exact HoldsDocument.declared held
  · have last : (4 + sum).toNat = 0 + 4 + content.encode.length := by omega
    rw [last]
    exact HoldsDocument.terminated held

def nested : Elements :=
  .append (.append .empty (.of [0x73] rfl)
    (.subdocument (.append .empty (.of [0x6e] rfl) (.int32 7)))) (.of [0x62] rfl)
    (.binary 0 [1])

theorem roundTrip_nested : ∃ doc sum, Built nested doc sum ∧
    bsonMeasureDocument doc = 5 + sum ∧ doc (4 + sum).toNat = 0 ∧
      FindsProps doc 0 nested ∧ Elements.ReadBack doc 0 nested := by
  have inner : Built (.append .empty (.of [0x6e] rfl) (.int32 7)) _ _ :=
    .append (.empty fun _ => 0xff) (.int32 7) (by decide)
  have built : Built nested _ _ :=
    .append (.append (.empty fun _ => 0xaa) (.subdocument inner) (by decide)) (.binary [1])
      (by decide)
  exact ⟨_, _, built, roundTrip built⟩

end PeridotSw.Bson.RoundTrip
