import PeridotSw.Bson.Document
import PeridotSw.Bson.Offsets

/-!
# Reading documents that hold values

What the readers find in memory that holds a document, wherever it lies: measuring a
value gives its length, the scan gives every key the first element of its name, and
the getters are led to the value of an element.
-/

namespace PeridotSw.Bson.Lookup

open PeridotSw.Machine.Memory
open PeridotSw.Machine.Word
open PeridotSw.Bson.Read
open PeridotSw.Bson.Write
open PeridotSw.Bson.Document
open PeridotSw.Bson.Walk
open PeridotSw.Bson.Offsets

variable {mem : Mem}

/-! ## Strings and values -/

/-- A string in memory is a name, when its terminator lies before the last byte. -/
theorem name_of_holds {data stop : Nat} {text : CString}
    (held : Holds mem data (text.bytes ++ [0]))
    (inside : data + text.bytes.length + 1 < stop) :
    Name mem data stop (data + text.bytes.length + 1) :=
  (skipString_eq_some_iff data stop _).mp (eval_skipString held inside)

/-- A value of the shape its type asks for has the extent of its bytes. -/
theorem extent_of_shaped {type : UInt8} {body : List UInt8} {value stop : Nat}
    (shaped : Shaped type body) (held : Holds mem value body)
    (inside : value + body.length < stop) (bound : body.length < 2 ^ 31) :
    Extent mem type value stop body.length := by
  cases form : layout type with
  | fixed length =>
      simp only [Shaped, Extent, form] at shaped ⊢
      exact shaped
  | counted header =>
      simp only [Shaped, Extent, form] at shaped ⊢
      obtain ⟨count, rest, rfl, size⟩ := shaped
      have length : word mem value = count :=
        word_of_holds (by omega) ((holds_append ..).mp held).1
      rw [length]
      exact ⟨by omega, by omega, size⟩
  | regex =>
      simp only [Shaped, Extent, form] at shaped ⊢
      obtain ⟨pattern, options, rfl⟩ := shaped
      have parts : pattern.bytes ++ 0 :: options.bytes ++ [0] =
          (pattern.bytes ++ [0]) ++ (options.bytes ++ [0]) := by simp
      rw [parts] at held inside ⊢
      obtain ⟨first, second⟩ := (holds_append ..).mp held
      simp only [List.length_append, List.length_singleton] at second inside ⊢
      rw [← Nat.add_assoc] at second
      exact ⟨_, _, name_of_holds first (by omega), name_of_holds second (by omega), by omega⟩
  | unknown => simp only [Shaped, form] at shaped

/-- An element in memory is what the scan comes to. -/
theorem item_of_holds {place stop : Nat} {element : Element}
    (shaped : Shaped element.type element.body) (held : Holds mem place element.bytes)
    (inside : place + element.bytes.length < stop) (bound : element.body.length < 2 ^ 31) :
    mem place = element.type ∧ Holds mem (place + 1) (element.key.bytes ++ [0]) ∧
      Item mem stop place (place + 1 + element.key.bytes.length + 1) ∧
        Extent mem (mem place) (place + 1 + element.key.bytes.length + 1) stop
          element.body.length := by
  have parts : element.bytes = element.type :: (element.key.bytes ++ [0] ++ element.body) := by
    simp [Element.bytes]
  rw [length_element_bytes] at inside
  rw [parts, holds_cons, holds_append, List.length_append, List.length_singleton,
    ← Nat.add_assoc] at held
  obtain ⟨type, name, body⟩ := held
  refine ⟨type, name, ⟨by omega, type ▸ shaped.type_ne_zero, name_of_holds name (by omega)⟩, ?_⟩
  rw [type]
  exact extent_of_shaped shaped body (by omega) bound

/-! ## The scan -/

/-- The offset of the first of some elements with a key, the first of them being at
`place`. -/
def firstOffset (key : CString) : Nat → List Element → Option Nat
  | _, [] => none
  | place, element :: rest =>
      if element.key = key then some place
      else firstOffset key (place + element.bytes.length) rest

/-- A variable after an element of a name at an offset has been offered. -/
def assign (name : CString) (offset : Int) (param : Param) : Param :=
  if param.offset < 0 ∧ param.key = name then { param with offset := offset } else param

/-- A variable after some elements have been offered. -/
def settle : Nat → List Element → Param → Param
  | _, [], param => param
  | place, element :: rest, param =>
      settle (place + element.bytes.length) rest (assign element.key place param)

def settled (params : List Param) : Nat := params.countP fun param => 0 ≤ param.offset

@[simp] theorem assign_key (name : CString) (offset : Int) (param : Param) :
    (assign name offset param).key = param.key := by
  unfold assign
  split <;> rfl

theorem assign_of_nonneg {name : CString} {offset : Int} {param : Param}
    (given : 0 ≤ param.offset) : assign name offset param = param :=
  if_neg fun both => absurd both.1 (Int.not_lt.mpr given)

theorem settle_of_nonneg {param : Param} (given : 0 ≤ param.offset) (place : Nat)
    (elements : List Element) : settle place elements param = param := by
  induction elements generalizing place with
  | nil => rfl
  | cons element rest ih => rw [settle, assign_of_nonneg given, ih]

/-- The scan gives a key the first element of its name. -/
theorem settle_fresh (key : CString) (place : Nat) (elements : List Element) :
    settle place elements ⟨key, -1⟩ =
      ⟨key, ((firstOffset key place elements).map Int.ofNat).getD (-1)⟩ := by
  induction elements generalizing place with
  | nil => rfl
  | cons element rest ih =>
      by_cases same : element.key = key
      · rw [settle, assign, if_pos ⟨Int.negSucc_lt_zero 0, same.symm⟩,
          settle_of_nonneg (Int.natCast_nonneg place), firstOffset, if_pos same]
        rfl
      · rw [settle, assign, if_neg fun both => same both.2.symm, ih, firstOffset, if_neg same]

theorem map_assign_absent {name : CString} {offset : Int} {params : List Param}
    (absent : ∀ param ∈ params, param.key ≠ name) :
    params.map (assign name offset) = params := by
  have same : ∀ param ∈ params, assign name offset param = id param :=
    fun param listed => if_neg fun both => absent param listed both.2
  rw [List.map_congr_left same, List.map_id]

/-- With distinct keys, at most one of them gets an offset. -/
theorem settled_assign {name : CString} {offset : Int} (nonneg : 0 ≤ offset)
    {params : List Param} (distinct : (params.map Param.key).Nodup) :
    settled (params.map (assign name offset)) =
      settled params + if ∃ param ∈ params, param.offset < 0 ∧ param.key = name then 1 else 0 := by
  induction params with
  | nil => simp [settled]
  | cons param rest ih =>
      obtain ⟨absent, distinct⟩ := List.nodup_cons.mp distinct
      have inner := ih distinct
      simp only [settled, List.map_cons, List.countP_cons] at inner ⊢
      by_cases chosen : param.offset < 0 ∧ param.key = name
      · have absent' : ¬ ∃ other ∈ rest, other.offset < 0 ∧ other.key = name := by
          rintro ⟨other, listed, -, same⟩
          exact absent (chosen.2.trans same.symm ▸ List.mem_map_of_mem listed)
        have present : ∃ other ∈ param :: rest, other.offset < 0 ∧ other.key = name :=
          ⟨param, .head _, chosen⟩
        rw [inner, if_neg absent', assign, if_pos chosen, if_pos present]
        simp [nonneg, Int.not_le.mpr chosen.1]
      · have agree : (∃ other ∈ param :: rest, other.offset < 0 ∧ other.key = name) ↔
            ∃ other ∈ rest, other.offset < 0 ∧ other.key = name := by
          simp [chosen]
        rw [inner, assign, if_neg chosen]
        simp only [agree]
        omega

theorem eval_keyMatches {param : Param} {name : Nat} {text : CString}
    (held : Holds mem name (text.bytes ++ [0])) :
    (keyMatches param name).eval mem = true ↔ param.offset < 0 ∧ param.key = text := by
  unfold keyMatches
  split
  case isTrue low => simpa [low] using eval_strcmpEq held
  case isFalse high => simp [high]

/-- The loop over the keys gives the element to the one key of its name. -/
theorem eval_offerName {doc name : Nat} {text : CString} (inside : doc + 1 ≤ name)
    (held : Holds mem name (text.bytes ++ [0])) {params : List Param}
    (distinct : (params.map Param.key).Nodup) :
    (offerName doc name params).eval mem =
      if ∃ param ∈ params, param.offset < 0 ∧ param.key = text then
        some (params.map (assign text ((name - 1 - doc : Nat) : Int)))
      else none := by
  induction params with
  | nil => simp [offerName]
  | cons param rest ih =>
      obtain ⟨absent, distinct⟩ := List.nodup_cons.mp distinct
      have offset : (name : Int) - 1 - doc = ((name - 1 - doc : Nat) : Int) := by omega
      simp only [offerName, Access.eval_bind]
      by_cases chosen : param.offset < 0 ∧ param.key = text
      · rw [if_pos ((eval_keyMatches held).mpr chosen), if_pos ⟨param, .head _, chosen⟩,
          Access.eval_pure,
          List.map_cons, assign, if_pos chosen, offset]
        rw [map_assign_absent fun other listed same =>
          absent (chosen.2.trans same.symm ▸ List.mem_map_of_mem listed)]
      · have agree : (∃ other ∈ param :: rest, other.offset < 0 ∧ other.key = text) ↔
            ∃ other ∈ rest, other.offset < 0 ∧ other.key = text := by
          simp [chosen]
        rw [if_neg fun offered => chosen ((eval_keyMatches held).mp offered)]
        simp only [Access.eval_bind, ih distinct, Access.eval_pure, agree]
        split
        case isTrue => rw [Option.map_some, List.map_cons, assign, if_neg chosen]
        case isFalse => rfl

theorem length_list_le (elements : List Element) :
    elements.length ≤ (elements.flatMap Element.bytes).length := by
  induction elements with
  | nil => exact Nat.le_refl 0
  | cons element rest ih =>
      simp only [List.length_cons, List.flatMap_cons, List.length_append, length_element_bytes]
      omega

/-- One element of the scan: the variables and the count after it has been offered. -/
theorem offered_props {doc name : Nat} {text : CString} (inside : doc + 1 ≤ name)
    (held : Holds mem name (text.bytes ++ [0])) {params : List Param}
    (distinct : (params.map Param.key).Nodup) {offered : Option (List Param)}
    (outcome : (offerName doc name params).eval mem = offered) :
    offered.getD params = params.map (assign text ((name - 1 - doc : Nat) : Int)) ∧
      (if offered.isSome then settled params + 1 else settled params) =
        settled (params.map (assign text ((name - 1 - doc : Nat) : Int))) := by
  rw [settled_assign (Int.natCast_nonneg _) distinct, ← outcome, eval_offerName inside held distinct]
  by_cases present : ∃ param ∈ params, param.offset < 0 ∧ param.key = text
  · simp [if_pos present]
  · rw [if_neg present, if_neg present]
    constructor
    · symm
      have same : ∀ param ∈ params,
          assign text ((name - 1 - doc : Nat) : Int) param = id param :=
        fun param listed => if_neg fun both => present ⟨param, listed, both⟩
      rw [List.map_congr_left same, List.map_id]
      rfl
    · rfl

theorem map_assign_keys (name : CString) (offset : Int) (params : List Param) :
    (params.map (assign name offset)).map Param.key = params.map Param.key := by
  simp [Function.comp_def]

/-- The variables after one element, given in memory with the extent the scan measures. -/
theorem scanElements_offer {doc stop total count data length : Nat} {element : Element}
    {params : List Param} (near : stop ≤ data + 2 ^ 31)
    (item : Item mem stop data (data + 1 + element.key.bytes.length + 1))
    (name : Holds mem (data + 1) (element.key.bytes ++ [0]))
    (extent : Extent mem (mem data) (data + 1 + element.key.bytes.length + 1) stop length)
    (behind : doc ≤ data) (distinct : (params.map Param.key).Nodup) {next : List Param}
    (offers : params.map (assign element.key ((data - doc : Nat) : Int)) = next) :
    (scanElements doc stop total (count + 1) data (settled params) params).eval mem =
      if settled params < settled next ∧ settled next = total then ((settled next : Int), next)
      else (scanElements doc stop total count (data + 1 + element.key.bytes.length + 1 + length)
        (settled next) next).eval mem := by
  have inside : doc + 1 ≤ data + 1 := by omega
  obtain ⟨found, now⟩ := offered_props inside name distinct rfl
  have place : data + 1 - 1 - doc = data - doc := by omega
  rw [place, offers] at found now
  rw [scanElements_at near item extent rfl now, found]
  congr 1
  have grows : ((offerName doc (data + 1) params).eval mem).isSome = true ↔
      settled params < settled next := by
    rw [← now]
    split
    case isTrue offered => simp [offered]
    case isFalse refused => simp [refused]
  rw [grows]

/-- The elements at the front of what is scanned.  The loop stops early, when all keys have
their offsets, or goes on behind them. -/
theorem eval_scanElements_front {doc stop total : Nat} {front : List Element}
    (shaped : ∀ element ∈ front, Shaped element.type element.body)
    {count data : Nat} {params : List Param} {back : List UInt8} (more : back ≠ [])
    (held : Holds mem data (front.flatMap Element.bytes ++ back))
    (ends : data + (front.flatMap Element.bytes ++ back).length = stop)
    (small : (front.flatMap Element.bytes ++ back).length < 2 ^ 31)
    (fuel : front.length ≤ count) (behind : doc ≤ data)
    (distinct : (params.map Param.key).Nodup) (all : total = params.length)
    (unfinished : 0 < total → settled params < total) :
    (scanElements doc stop total count data (settled params) params).eval mem =
      if 0 < total ∧ settled (params.map (settle (data - doc) front)) = total then
        ((total : Int), params.map (settle (data - doc) front))
      else
        (scanElements doc stop total (count - front.length)
          (data + (front.flatMap Element.bytes).length)
          (settled (params.map (settle (data - doc) front)))
          (params.map (settle (data - doc) front))).eval mem := by
  induction front generalizing count data params with
  | nil =>
      have same : params.map (settle (data - doc) []) = params := by
        have each : ∀ param ∈ params, settle (data - doc) [] param = id param := fun _ _ => rfl
        rw [List.map_congr_left each, List.map_id]
      rw [same, if_neg fun both => absurd both.2 (Nat.ne_of_lt (unfinished both.1))]
      rfl
  | cons element rest ih =>
      obtain ⟨count, rfl⟩ : ∃ less, count = less + 1 :=
        ⟨count - 1, by rw [List.length_cons] at fuel; omega⟩
      have nonempty : 0 < back.length := List.length_pos_iff.mpr more
      simp only [List.flatMap_cons, List.length_append, List.append_assoc] at held ends small
      obtain ⟨here, later⟩ := (holds_append ..).mp held
      have size := length_element_bytes element
      have onward : data + element.bytes.length =
          data + 1 + element.key.bytes.length + 1 + element.body.length := by omega
      have within : data + element.bytes.length < stop := by omega
      obtain ⟨-, name, item, extent⟩ :=
        item_of_holds (shaped element (.head _)) here within (by omega)
      let next := params.map (assign element.key ((data - doc : Nat) : Int))
      have keys : (next.map Param.key).Nodup := by
        rw [map_assign_keys]
        exact distinct
      have settles : params.map (settle (data - doc) (element :: rest)) =
          next.map (settle (data + element.bytes.length - doc) rest) := by
        rw [List.map_map, show data + element.bytes.length - doc =
          data - doc + element.bytes.length by omega]
        rfl
      rw [scanElements_offer (by omega) item name extent behind distinct rfl, ← onward, settles]
      have all' : total = next.length := by rw [all, List.length_map]
      by_cases finished : settled params < settled next ∧ settled next = total
      · have given : ∀ param ∈ next, 0 ≤ param.offset := by
          simpa using List.countP_eq_length.mp (finished.2.trans all')
        have same : next.map (settle (data + element.bytes.length - doc) rest) = next := by
          have each : ∀ param ∈ next,
              settle (data + element.bytes.length - doc) rest param = id param :=
            fun param listed => settle_of_nonneg (given param listed) _ _
          rw [List.map_congr_left each, List.map_id]
        rw [if_pos finished, same, if_pos ⟨by omega, finished.2⟩, finished.2]
      · have most : settled next ≤ next.length := List.countP_le_length
        have unfinished' : 0 < total → settled next < total := by
          intro positive
          have before := unfinished positive
          omega
        have goes := ih (fun other listed => shaped other (.tail _ listed)) later (by
          simp only [List.length_append]
          omega) (by
          simp only [List.length_append]
          omega) (Nat.le_of_succ_le_succ fuel) (by omega) keys all' unfinished'
        rw [if_neg finished, goes, List.length_cons, Nat.add_sub_add_right, List.flatMap_cons,
          List.length_append, Nat.add_assoc]

/-- At the terminator the scan is over. -/
theorem eval_scanElements_end {doc stop total count data scanned : Nat} {params : List Param}
    (open' : data < stop) (terminator : mem data = 0) :
    (scanElements doc stop total (count + 1) data scanned params).eval mem =
      ((scanned : Int), params) := by
  rw [scanElements, if_pos open']
  simp [terminator]

/-- The loop over all elements of a document. -/
theorem eval_scanElements {doc stop total : Nat} {elements : List Element}
    (shaped : ∀ element ∈ elements, Shaped element.type element.body)
    {count data : Nat} {params : List Param}
    (held : Holds mem data (elements.flatMap Element.bytes ++ [0]))
    (ends : data + (elements.flatMap Element.bytes).length + 1 = stop)
    (small : (elements.flatMap Element.bytes).length + 1 < 2 ^ 31)
    (fuel : elements.length < count) (behind : doc ≤ data)
    (distinct : (params.map Param.key).Nodup) (all : total = params.length)
    (unfinished : 0 < total → settled params < total) :
    (scanElements doc stop total count data (settled params) params).eval mem =
      (((settled (params.map (settle (data - doc) elements)) : Nat) : Int),
        params.map (settle (data - doc) elements)) := by
  have size : (elements.flatMap Element.bytes ++ [0]).length =
      (elements.flatMap Element.bytes).length + 1 := List.length_append
  rw [eval_scanElements_front shaped (List.cons_ne_nil 0 []) held (by omega) (by omega) fuel.le
    behind distinct all unfinished]
  split
  case isTrue finished => rw [finished.2]
  case isFalse =>
    have terminator : mem (data + (elements.flatMap Element.bytes).length) = 0 :=
      (holds_cons ..).mp ((holds_append ..).mp held).2 |>.1
    obtain ⟨less, more⟩ : ∃ less, count - elements.length = less + 1 :=
      ⟨count - elements.length - 1, by omega⟩
    rw [more, eval_scanElements_end (by omega) terminator]

/-- The elements of a document in memory, with the terminator behind them. -/
theorem holds_elements {doc : Nat} {elements : List UInt8}
    (held : Holds mem doc (documentBytes elements)) : Holds mem (doc + 4) (elements ++ [0]) := by
  rw [documentBytes, List.append_assoc, holds_append, length_bytes32] at held
  exact held.2

def cleared (params : List Param) : List Param :=
  params.map fun param => { param with offset := -1 }

theorem cleared_keys (params : List Param) :
    (cleared params).map Param.key = params.map Param.key := by
  simp [cleared, Function.comp_def]

theorem length_cleared (params : List Param) : (cleared params).length = params.length :=
  List.length_map ..

theorem settled_cleared (params : List Param) : settled (cleared params) = 0 := by
  simp [settled, cleared, List.countP_map, Function.comp_def]

/-- `bson_get_props` of a document in memory scans its elements. -/
theorem eval_bsonGetProps_scan {doc : Nat} {elements : List UInt8}
    (held : Holds mem doc (documentBytes elements)) (bound : elements.length + 5 < 2 ^ 31)
    (params : List Param) :
    (bsonGetProps doc params).eval mem =
      (scanElements doc (doc + elements.length + 5) params.length (elements.length + 1) (doc + 4)
        (settled (cleared params)) (cleared params)).eval mem := by
  have last : ((doc : Int) + (elements.length + 5) - 1).toNat = doc + 4 + elements.length := by
    omega
  have stop : ((doc : Int) + (elements.length + 5)).toNat = doc + elements.length + 5 := by omega
  have room : doc + elements.length + 5 - (doc + 4) = elements.length + 1 := by omega
  have declared := readUnalignedInt_document held bound
  have terminated : mem (doc + 4 + elements.length) = 0 :=
    (holds_cons ..).mp ((holds_append ..).mp (holds_elements held)).2 |>.1
  simp only [bsonGetProps, Access.eval_bind, declared]
  rw [if_neg (by omega)]
  simp only [Access.eval_bind, Access.eval_byte, last, terminated]
  rw [stop, room, settled_cleared]
  rfl

theorem firstOffset_append (key : CString) (place : Nat) (front back : List Element) :
    firstOffset key place (front ++ back) =
      (firstOffset key place front <|>
        firstOffset key (place + (front.flatMap Element.bytes).length) back) := by
  induction front generalizing place with
  | nil => simp [firstOffset]
  | cons element rest ih =>
      by_cases same : element.key = key
      · simp [firstOffset, same]
      · simp only [List.cons_append, firstOffset, if_neg same, ih, List.flatMap_cons,
          List.length_append, Nat.add_assoc]

theorem firstOffset_list (key : CString) (content : Elements) :
    firstOffset key 4 content.list = content.offset key := by
  match content with
  | .empty => rfl
  | .append front other value =>
      rw [Elements.list, firstOffset_append, firstOffset_list key front,
        ← Elements.encode_eq_flatMap]
      rfl

/-- The variable of a key: the offset of the first element of its name, or `-1`. -/
def firstOf (elements : List Element) (param : Param) : Param :=
  ⟨param.key, ((firstOffset param.key 4 elements).map Int.ofNat).getD (-1)⟩

def naming (elements : List Element) (params : List Param) : Nat :=
  params.countP fun param => (firstOffset param.key 4 elements).isSome

theorem settle_firstOf (elements : List Element) (params : List Param) :
    (cleared params).map (settle 4 elements) = params.map (firstOf elements) := by
  rw [cleared, List.map_map]
  exact List.map_congr_left fun param _ => settle_fresh param.key 4 elements

theorem settled_firstOf (elements : List Element) (params : List Param) :
    settled (params.map (firstOf elements)) = naming elements params := by
  simp only [settled, naming, List.countP_map]
  apply List.countP_congr
  intro param _
  cases found : firstOffset param.key 4 elements <;> simp [firstOf, found]

/-- `bson_get_props` of a list of elements in memory. -/
theorem eval_bsonGetProps_list {doc : Nat} {elements : List Element}
    (shaped : ∀ element ∈ elements, Shaped element.type element.body)
    (held : Holds mem doc (documentBytes (elements.flatMap Element.bytes)))
    (bound : (elements.flatMap Element.bytes).length + 5 < 2 ^ 31)
    {params : List Param} (distinct : (params.map Param.key).Nodup) :
    (bsonGetProps doc params).eval mem =
      ((naming elements params : Int), params.map (firstOf elements)) := by
  have fuel := length_list_le elements
  have stop : doc + 4 + (elements.flatMap Element.bytes).length + 1 =
      doc + (elements.flatMap Element.bytes).length + 5 := by omega
  have scanned := eval_scanElements shaped (holds_elements held) stop (by omega)
    (show elements.length < (elements.flatMap Element.bytes).length + 1 by omega)
    (Nat.le_add_right doc 4) ((cleared_keys params).symm ▸ distinct)
    (length_cleared params).symm (by
      rw [settled_cleared]
      exact id)
  rw [Nat.add_sub_cancel_left, settle_firstOf, settled_firstOf] at scanned
  rw [eval_bsonGetProps_scan held bound]
  exact scanned

def lookup (content : Elements) (param : Param) : Param :=
  ⟨param.key, ((content.offset param.key).map Int.ofNat).getD (-1)⟩

def occurring (content : Elements) (params : List Param) : Nat :=
  params.countP fun param => (content.offset param.key).isSome

theorem HoldsDocument.declared {doc : Nat} {content : Elements}
    (held : HoldsDocument mem doc content) :
    (readUnalignedInt doc).eval mem = (content.encode.length : Int) + 5 :=
  readUnalignedInt_document held.1 held.2

theorem HoldsDocument.terminated {doc : Nat} {content : Elements}
    (held : HoldsDocument mem doc content) : mem (doc + 4 + content.encode.length) = 0 :=
  (holds_cons ..).mp ((holds_append ..).mp (holds_elements held.1)).2 |>.1

/-- `bson_get_props` of a document in memory, whatever the variables were before. -/
theorem eval_bsonGetProps {doc : Nat} {content : Elements} (held : HoldsDocument mem doc content)
    {params : List Param} (distinct : (params.map Param.key).Nodup) :
    (bsonGetProps doc params).eval mem =
      ((occurring content params : Int), params.map (lookup content)) := by
  obtain ⟨bytes, bound⟩ := held
  rw [Elements.encode_eq_flatMap] at bytes bound
  have looked : firstOf content.list = lookup content := by
    funext param
    rw [firstOf, firstOffset_list]
    rfl
  have counted : naming content.list params = occurring content params := by
    unfold naming occurring
    simp only [firstOffset_list]
  rw [eval_bsonGetProps_list content.shaped bytes bound distinct, looked, counted]

end PeridotSw.Bson.Lookup
