import PeridotSw.Bson.Lookup

/-!
# Documents by the specification

The grammar of BSON for the types that `measure_value` lists, on bytes.  The length of code
with scope counts the whole value, its own four bytes included, where the length of any
other counted value of the same case counts what follows it.  `measure_value` takes both for
the latter, and comes four bytes too far behind code with scope.
-/

namespace PeridotSw.Bson.Specification

open PeridotSw.Machine.Memory
open PeridotSw.Machine.Word
open PeridotSw.Bson.Read
open PeridotSw.Bson.Write
open PeridotSw.Bson.Walk
open PeridotSw.Bson.Offsets
open PeridotSw.Bson.Document
open PeridotSw.Bson.Lookup

/-! ## The grammar -/

/-- A string with its length in front; its text may hold any bytes. -/
def stringBytes (text : List UInt8) : List UInt8 := bytes32 (text.length + 1) ++ text ++ [0]

/-- The bytes of code with scope, from those of the elements of the scope. -/
def codeWithScopeBytes (code scope : List UInt8) : List UInt8 :=
  bytes32 (4 + (stringBytes code).length + (documentBytes scope).length) ++ stringBytes code ++
    documentBytes scope

def codeWithScopeType : UInt8 := 0x0f

mutual

/-- The bytes are a value of the type. -/
inductive IsValue : UInt8 → List UInt8 → Prop where
  | double (bytes : List UInt8) (size : bytes.length = 8) : IsValue 0x01 bytes
  | string (text : List UInt8) : IsValue 0x02 (stringBytes text)
  | document {elements : List Element} (list : IsList elements) :
      IsValue 0x03 (documentBytes (elements.flatMap Element.bytes))
  | array {elements : List Element} (list : IsList elements) :
      IsValue 0x04 (documentBytes (elements.flatMap Element.bytes))
  | binary (subtype : UInt8) (content : List UInt8) :
      IsValue 0x05 (bytes32 content.length ++ subtype :: content)
  | undefined : IsValue 0x06 []
  | objectId (bytes : List UInt8) (size : bytes.length = 12) : IsValue 0x07 bytes
  | boolean (value : Bool) : IsValue 0x08 [if value then 1 else 0]
  | datetime (bytes : List UInt8) (size : bytes.length = 8) : IsValue 0x09 bytes
  | null : IsValue 0x0a []
  | regex (pattern options : CString) :
      IsValue 0x0b (pattern.bytes ++ 0 :: options.bytes ++ [0])
  | dbPointer (text id : List UInt8) (size : id.length = 12) :
      IsValue 0x0c (stringBytes text ++ id)
  | code (text : List UInt8) : IsValue 0x0d (stringBytes text)
  | symbol (text : List UInt8) : IsValue 0x0e (stringBytes text)
  | codeWithScope (code : List UInt8) {scope : List Element} (list : IsList scope) :
      IsValue 0x0f (codeWithScopeBytes code (scope.flatMap Element.bytes))
  | int32 (bytes : List UInt8) (size : bytes.length = 4) : IsValue 0x10 bytes
  | timestamp (bytes : List UInt8) (size : bytes.length = 8) : IsValue 0x11 bytes
  | int64 (bytes : List UInt8) (size : bytes.length = 8) : IsValue 0x12 bytes
  | decimal128 (bytes : List UInt8) (size : bytes.length = 16) : IsValue 0x13 bytes

/-- Every element of the list has a value of its type. -/
inductive IsList : List Element → Prop where
  | nil : IsList []
  | cons {element : Element} {rest : List Element} (value : IsValue element.type element.body)
      (list : IsList rest) : IsList (element :: rest)

end

/-- Memory holds a document with these elements, of a size that its length can tell. -/
structure HoldsList (mem : Mem) (doc : Nat) (elements : List Element) : Prop where
  list : IsList elements
  held : Holds mem doc (documentBytes (elements.flatMap Element.bytes))
  small : (elements.flatMap Element.bytes).length + 5 < 2 ^ 31

theorem IsList.value {elements : List Element} (list : IsList elements) :
    ∀ element ∈ elements, IsValue element.type element.body := by
  match list with
  | .nil => nofun
  | .cons value rest => exact List.forall_mem_cons.mpr ⟨value, rest.value⟩

/-! ## What is asked of `bson_get_props` -/

/-- `bson_get_props` returns the number of keys found and sets their offsets. -/
def Right (mem : Mem) (doc : Nat) (elements : List Element) (params : List Param) : Prop :=
  (bsonGetProps doc params).eval mem =
    ((naming elements params : Int), params.map (firstOf elements))

/-- The list parts at its first code with scope. -/
structure Parts (elements front : List Element) (code : Element) (back : List Element) :
    Prop where
  whole : elements = front ++ code :: back
  others : ∀ other ∈ front, other.type ≠ codeWithScopeType
  type : code.type = codeWithScopeType

/-- No element is behind code with scope. -/
def Harmless (elements : List Element) : Prop :=
  ∀ element ∈ elements.dropLast, element.type ≠ codeWithScopeType

/-- The scan does not go on behind code with scope: it comes to the end there, or has found
all keys. -/
def Settles (elements : List Element) (params : List Param) : Prop :=
  ∀ front code back, Parts elements front code back →
    back = [] ∨ params ≠ [] ∧
      ∀ param ∈ params, (firstOffset param.key 4 (front ++ [code])).isSome

/-- The element behind code with scope has a name that none has before. -/
def FreshBehind (elements : List Element) : Prop :=
  ∀ front code next back, Parts elements front code (next :: back) →
    firstOffset next.key 4 (front ++ [code]) = none

/-- That element is asked for. -/
def AsksBehind (elements : List Element) (params : List Param) : Prop :=
  ∀ front code next back, Parts elements front code (next :: back) →
    firstOffset next.key 4 (front ++ [code]) = none ∧ next.key ∈ params.map Param.key

/-! ## The shapes of values -/

theorem shaped_string {type : UInt8} (counted : layout type = .counted 4) (text : List UInt8) :
    Shaped type (stringBytes text) := by
  unfold Shaped
  rw [counted]
  exact ⟨text.length + 1, text ++ [0], by simp [stringBytes], by simp [stringBytes]; omega⟩

theorem shaped_document {type : UInt8} (counted : layout type = .counted 0)
    (elements : List UInt8) : Shaped type (documentBytes elements) := by
  unfold Shaped
  rw [counted]
  exact ⟨elements.length + 5, elements ++ [0], by simp [documentBytes], by simp⟩

/-- All types but code with scope are measured as the specification has it. -/
theorem IsValue.shaped {type : UInt8} {body : List UInt8} (value : IsValue type body)
    (other : type ≠ codeWithScopeType) : Shaped type body := by
  cases value with
  | double bytes size => exact size
  | string text => exact shaped_string rfl text
  | document list => exact shaped_document rfl _
  | array list => exact shaped_document rfl _
  | binary subtype content =>
      exact ⟨content.length, subtype :: content, rfl, by simp; omega⟩
  | undefined => rfl
  | objectId bytes size => exact size
  | boolean value => rfl
  | datetime bytes size => exact size
  | null => rfl
  | regex pattern options => exact ⟨pattern, options, rfl⟩
  | dbPointer text id size =>
      refine ⟨text.length + 1, text ++ [0] ++ id, by simp [stringBytes], ?_⟩
      simp [stringBytes]
      omega
  | code text => exact shaped_string rfl text
  | symbol text => exact shaped_string rfl text
  | codeWithScope code list => exact absurd rfl other
  | int32 bytes size => exact size
  | timestamp bytes size => exact size
  | int64 bytes size => exact size
  | decimal128 bytes size => exact size

/-- The length of code with scope is that of all its bytes. -/
theorem IsValue.total {type : UInt8} {body : List UInt8} (value : IsValue type body)
    (code : type = codeWithScopeType) : ∃ rest, body = bytes32 body.length ++ rest := by
  cases value with
  | codeWithScope text list =>
      refine ⟨_, (List.append_assoc _ _ _).trans (congrArg (bytes32 · ++ _) ?_)⟩
      simp [codeWithScopeBytes]
      omega
  | _ => cases code

/-! ## The scan over code with scope -/

variable {mem : Mem} {doc : Nat} {elements front back : List Element} {code : Element}
  {params : List Param}

theorem parts_cases (elements : List Element) :
    (∀ element ∈ elements, element.type ≠ codeWithScopeType) ∨
      ∃ front code back, Parts elements front code back := by
  cases found : elements.find? fun element => element.type = codeWithScopeType with
  | none => exact .inl (by simpa using found)
  | some code =>
      obtain ⟨type, front, back, whole, others⟩ := List.find?_eq_some_iff_append.mp found
      exact .inr ⟨front, code, back, whole, by simpa using others, by simpa using type⟩

theorem settle_append (place : Nat) (first second : List Element) (param : Param) :
    settle place (first ++ second) param =
      settle (place + (first.flatMap Element.bytes).length) second (settle place first param) := by
  induction first generalizing place param with
  | nil => rfl
  | cons element rest ih =>
      rw [List.cons_append, settle, ih, settle, List.flatMap_cons, List.length_append,
        Nat.add_assoc]

/-- A variable that some elements have settled keeps its offset. -/
theorem firstOf_append {param : Param}
    (found : (firstOffset param.key 4 front).isSome) (back : List Element) :
    firstOf (front ++ back) param = firstOf front param := by
  obtain ⟨offset, first⟩ := Option.isSome_iff_exists.mp found
  rw [firstOf, firstOffset_append, first]
  simp [firstOf, first]

theorem naming_le (elements : List Element) (params : List Param) :
    naming elements params ≤ params.length := List.countP_le_length

theorem found_of_naming (all : naming front params = params.length) :
    ∀ param ∈ params, (firstOffset param.key 4 front).isSome := by
  simpa using List.countP_eq_length.mp all

/-- What is found stays found behind further elements. -/
theorem naming_append (all : naming front params = params.length) (back : List Element) :
    naming (front ++ back) params = params.length ∧
      params.map (firstOf (front ++ back)) = params.map (firstOf front) := by
  have found := found_of_naming all
  constructor
  · refine List.countP_eq_length.mpr fun param listed => ?_
    rw [firstOffset_append]
    simp [found param listed]
  · exact List.map_congr_left fun param listed => firstOf_append (found param listed) back

/-- Code with scope has four bytes too many for `measure_value`. -/
theorem extent_codeWithScope {type : UInt8} {body : List UInt8} {value stop : Nat}
    (proper : IsValue type body) (code : type = codeWithScopeType) (held : Holds mem value body)
    (small : body.length + 4 < 2 ^ 31) : Extent mem type value stop (body.length + 4) := by
  obtain ⟨rest, parts⟩ := proper.total code
  rw [parts, holds_append] at held
  have declared : word mem value = body.length := word_of_holds (by omega) held.1
  subst code
  change word mem value < 2 ^ 31 ∧ word mem value + 4 < 2 ^ 31 ∧
    body.length + 4 = word mem value + 4
  omega

/-- The step of the scan at code with scope. -/
theorem scanElements_code {stop total count data : Nat} {bytes : List UInt8}
    (proper : IsValue code.type code.body) (type : code.type = codeWithScopeType)
    (held : Holds mem data (code.bytes ++ bytes))
    (ends : data + code.bytes.length + bytes.length = stop)
    (more : bytes ≠ []) (small : code.bytes.length + bytes.length + 4 < 2 ^ 31)
    (behind : doc ≤ data) (distinct : (params.map Param.key).Nodup) {next : List Param}
    (offers : params.map (assign code.key ((data - doc : Nat) : Int)) = next) :
    (scanElements doc stop total (count + 1) data (settled params) params).eval mem =
      if settled params < settled next ∧ settled next = total then ((settled next : Int), next)
      else (scanElements doc stop total count (data + code.bytes.length + 4) (settled next)
        next).eval mem := by
  have nonempty : 0 < bytes.length := List.length_pos_iff.mpr more
  have size := length_element_bytes code
  have whole : code.bytes = code.type :: (code.key.bytes ++ [0] ++ code.body) := by
    simp [Element.bytes]
  have here := ((holds_append ..).mp held).1
  rw [whole, holds_cons, holds_append, List.length_append, List.length_singleton,
    ← Nat.add_assoc] at here
  obtain ⟨first, name, body⟩ := here
  have typed : mem data ≠ 0 := by
    rw [first, type]
    decide
  have item : Item mem stop data (data + 1 + code.key.bytes.length + 1) :=
    ⟨by omega, typed, name_of_holds name (by omega)⟩
  have extent : Extent mem code.type (data + 1 + code.key.bytes.length + 1) stop
      (code.body.length + 4) := extent_codeWithScope proper type body (by omega)
  rw [scanElements_offer (by omega) item name (first ▸ extent) behind distinct offers]
  congr 3
  omega

/-- The scan of the elements at the front. -/
theorem eval_bsonGetProps_front (held : HoldsList mem doc elements)
    (whole : elements = front ++ back)
    (shaped : ∀ element ∈ front, Shaped element.type element.body)
    (distinct : (params.map Param.key).Nodup) :
    (bsonGetProps doc params).eval mem =
      if 0 < params.length ∧ naming front params = params.length then
        ((params.length : Int), params.map (firstOf front))
      else
        (scanElements doc (doc + (elements.flatMap Element.bytes).length + 5) params.length
          ((elements.flatMap Element.bytes).length + 1 - front.length)
          (doc + 4 + (front.flatMap Element.bytes).length)
          (naming front params) (params.map (firstOf front))).eval mem := by
  have small := held.small
  have split : elements.flatMap Element.bytes ++ [0] =
      front.flatMap Element.bytes ++ (back.flatMap Element.bytes ++ [0]) := by
    simp [whole]
  have lengths := congrArg List.length split
  have longer := length_list_le front
  have listed := holds_elements held.held
  rw [split] at listed
  rw [List.length_append, List.length_singleton] at lengths
  have shorter : (front.flatMap Element.bytes).length ≤
      (elements.flatMap Element.bytes).length := by
    simp [whole]
  have scanned := eval_scanElements_front shaped (by simp) listed
    (show _ = doc + (elements.flatMap Element.bytes).length + 5 by omega)
    (show _ < 2 ^ 31 by omega)
    (show front.length ≤ (elements.flatMap Element.bytes).length + 1 by omega)
    (Nat.le_add_right doc 4) ((cleared_keys params).symm ▸ distinct)
    (length_cleared params).symm (by
      rw [settled_cleared]
      exact id)
  rw [Nat.add_sub_cancel_left, settle_firstOf, settled_firstOf] at scanned
  rw [eval_bsonGetProps_scan held.held small, scanned]

/-- Where the scan is behind code with scope, if it has not ended. -/
theorem eval_bsonGetProps_code (held : HoldsList mem doc elements)
    (parts : Parts elements front code back) (distinct : (params.map Param.key).Nodup) :
    ∃ count, (bsonGetProps doc params).eval mem =
      if 0 < params.length ∧ naming (front ++ [code]) params = params.length then
        ((params.length : Int), params.map (firstOf (front ++ [code])))
      else
        (scanElements doc (doc + (elements.flatMap Element.bytes).length + 5) params.length count
          (doc + 4 + ((front ++ [code]).flatMap Element.bytes).length + 4)
          (naming (front ++ [code]) params) (params.map (firstOf (front ++ [code])))).eval mem := by
  have small := held.small
  have size := length_element_bytes code
  have longer := length_list_le front
  have values := held.list.value
  have whole := holds_elements held.held
  have split : elements.flatMap Element.bytes ++ [0] =
      front.flatMap Element.bytes ++ (code.bytes ++ (back.flatMap Element.bytes ++ [0])) := by
    simp [parts.whole]
  have lengths := congrArg List.length split
  have extended : ((front ++ [code]).flatMap Element.bytes).length =
      (front.flatMap Element.bytes).length + code.bytes.length := by simp
  simp only [List.length_append, List.length_singleton] at lengths
  rw [split] at whole
  have shaped : ∀ other ∈ front, Shaped other.type other.body := fun other listed =>
    (values other (parts.whole ▸ List.mem_append_left _ listed)).shaped (parts.others other listed)
  have proper := values code (parts.whole ▸ List.mem_append_right _ (.head _))
  obtain ⟨count, fuel⟩ : ∃ count, (elements.flatMap Element.bytes).length + 1 =
      front.length + (count + 1) :=
    ⟨(elements.flatMap Element.bytes).length - front.length, by omega⟩
  refine ⟨count, ?_⟩
  rw [eval_bsonGetProps_front held parts.whole shaped distinct]
  by_cases all : 0 < params.length ∧ naming front params = params.length
  · obtain ⟨named, same⟩ := naming_append all.2 [code]
    rw [if_pos all, if_pos ⟨all.1, named⟩, same]
  · have offers : (params.map (firstOf front)).map
        (assign code.key ((doc + 4 + (front.flatMap Element.bytes).length - doc : Nat) : Int)) =
          params.map (firstOf (front ++ [code])) := by
      rw [← settle_firstOf, ← settle_firstOf, List.map_map]
      refine List.map_congr_left fun param _ => ?_
      rw [Function.comp_apply, settle_append, Nat.add_assoc, Nat.add_sub_cancel_left]
      rfl
    have keys : ((params.map (firstOf front)).map Param.key).Nodup := by
      rw [List.map_map]
      exact distinct
    have fewer := naming_le front params
    have held' := ((holds_append ..).mp whole).2
    have there : doc + 4 + (front.flatMap Element.bytes).length + code.bytes.length +
        (back.flatMap Element.bytes ++ [0]).length =
          doc + (elements.flatMap Element.bytes).length + 5 := by
      rw [List.length_append, List.length_singleton]
      omega
    rw [if_neg all, fuel, Nat.add_sub_cancel_left, ← settled_firstOf front,
      scanElements_code proper parts.type held' there (by simp) (by omega) (by omega) keys offers,
      settled_firstOf, settled_firstOf, extended, Nat.add_assoc (doc + 4)]
    by_cases named : naming (front ++ [code]) params = params.length
    · by_cases asked : 0 < params.length
      · rw [if_pos ⟨by omega, named⟩, if_pos ⟨asked, named⟩, named]
      · rw [if_neg (by omega), if_neg (by omega)]
    · rw [if_neg fun both => named both.2, if_neg fun both => named both.2]

/-! ## When the keys are found -/

theorem right_of_settles (held : HoldsList mem doc elements)
    (distinct : (params.map Param.key).Nodup) (settles : Settles elements params) :
    Right mem doc elements params := by
  have values := held.list.value
  rcases parts_cases elements with others | ⟨front, code, back, parts⟩
  · exact eval_bsonGetProps_list (fun element listed =>
      (values element listed).shaped (others element listed)) held.held held.small distinct
  have whole : elements = front ++ [code] ++ back := by simp [parts.whole]
  obtain ⟨count, scanned⟩ := eval_bsonGetProps_code held parts distinct
  unfold Right
  rw [scanned]
  by_cases all : 0 < params.length ∧ naming (front ++ [code]) params = params.length
  · obtain ⟨named, same⟩ := naming_append all.2 back
    rw [if_pos all, whole, named, same]
  · rw [if_neg all]
    rcases settles front code back parts with rfl | ⟨asked, found⟩
    · rw [List.append_nil] at whole
      rw [← whole]
      cases count with
      | zero => rfl
      | succ count =>
          rw [scanElements, if_neg (by omega)]
          rfl
    · exact absurd ⟨List.length_pos_iff.mpr asked, List.countP_eq_length.mpr found⟩ all

theorem firstOffset_lt {key : CString} {place offset : Nat} {list : List Element}
    (found : firstOffset key place list = some offset) :
    offset < place + (list.flatMap Element.bytes).length := by
  induction list generalizing place with
  | nil => cases found
  | cons element rest ih =>
      have size := length_element_bytes element
      rw [List.flatMap_cons, List.length_append]
      by_cases same : element.key = key
      · rw [firstOffset, if_pos same] at found
        cases found
        omega
      · rw [firstOffset, if_neg same] at found
        have later := ih found
        omega

/-- Nothing gets an offset less than four bytes behind code with scope any more. -/
theorem not_right_of_behind {next : Element} (held : HoldsList mem doc elements)
    (parts : Parts elements front code (next :: back)) (distinct : (params.map Param.key).Nodup)
    (fresh : firstOffset next.key 4 (front ++ [code]) = none)
    (asked : next.key ∈ params.map Param.key) : ¬ Right mem doc elements params := by
  intro right
  obtain ⟨count, scanned⟩ := eval_bsonGetProps_code held parts distinct
  obtain ⟨param, listed, named⟩ := List.mem_map.mp asked
  have whole : elements = front ++ [code] ++ next :: back := by simp [parts.whole]
  have size := congrArg (fun list => (list.flatMap Element.bytes).length) whole
  have missing : naming (front ++ [code]) params ≠ params.length := by
    intro all
    have found := found_of_naming all param listed
    rw [named, fresh] at found
    cases found
  rw [if_neg fun both => missing both.2] at scanned
  let place := ((front ++ [code]).flatMap Element.bytes).length
  have offset : (firstOf elements param).offset = ((4 + place : Nat) : Int) := by
    rw [whole, firstOf, named, firstOffset_append, fresh]
    simp [firstOffset, place]
  have given : firstOf elements param ∈ ((bsonGetProps doc params).eval mem).2 := by
    rw [right]
    exact List.mem_map_of_mem listed
  rw [scanned] at given
  have small := held.small
  refine scanElements_offsets (fun other => other ≠ ((4 + place : Nat) : Int)) (by omega) ?_ ?_ _
    given (offset ▸ Int.natCast_nonneg _) offset
  · intro other value leads item
    have behind := leads.le
    omega
  · intro other among nonneg
    obtain ⟨original, -, rfl⟩ := List.mem_map.mp among
    cases found : firstOffset original.key 4 (front ++ [code]) with
    | none => simp [firstOf, found] at nonneg
    | some first =>
        have before := firstOffset_lt found
        simp [firstOf, found]
        omega

theorem harmless_iff (elements : List Element) :
    Harmless elements ↔ ∀ front code back, Parts elements front code back → back = [] := by
  constructor
  · intro harmless front code back parts
    by_contra more
    refine harmless code ?_ parts.type
    rw [parts.whole, List.dropLast_append_cons, List.dropLast_cons_of_ne_nil more]
    exact List.mem_append_right _ (.head _)
  · intro last element listed
    rcases parts_cases elements with others | ⟨front, code, back, parts⟩
    · exact others element (List.dropLast_subset _ listed)
    · obtain rfl := last front code back parts
      rw [parts.whole, List.dropLast_concat] at listed
      exact parts.others element listed

/-- The keys are found if the scan settles, and only then if they ask for the element behind
code with scope.  All keys are found exactly if code with scope is harmless. -/
theorem right_iff_settles (held : HoldsList mem doc elements) :
    (∀ params : List Param, (params.map Param.key).Nodup →
      (Settles elements params → Right mem doc elements params) ∧
        (AsksBehind elements params → Right mem doc elements params →
          Settles elements params)) ∧
      (FreshBehind elements →
        ((∀ params : List Param, (params.map Param.key).Nodup →
          Right mem doc elements params) ↔ Harmless elements)) := by
  refine ⟨fun params distinct => ⟨right_of_settles held distinct, ?_⟩, fun fresh => ⟨?_, ?_⟩⟩
  · intro asks right front code back parts
    cases back with
    | nil => exact .inl rfl
    | cons next back =>
        obtain ⟨fresh, asked⟩ := asks front code next back parts
        exact absurd right (not_right_of_behind held parts distinct fresh asked)
  · intro right
    rw [harmless_iff]
    intro front code back parts
    cases back with
    | nil => rfl
    | cons next back =>
        have distinct : ([⟨next.key, -1⟩].map Param.key).Nodup := by simp
        exact absurd (right _ distinct) (not_right_of_behind held parts distinct
          (fresh front code next back parts) (.head _))
  · intro harmless params distinct
    exact right_of_settles held distinct fun front code back parts =>
      .inl ((harmless_iff elements).mp harmless front code back parts)

/-- The elements `f`, code with an empty scope, and `x`, an integer. -/
def scopeFirst : List Element :=
  [⟨.of [0x66] rfl, 0x0f, codeWithScopeBytes [] []⟩, ⟨.of [0x78] rfl, 0x10, [1, 0, 0, 0]⟩]

theorem holds_getD (bytes : List UInt8) : Holds (bytes.getD · 0) 0 bytes := by
  intro index bound
  simp [bound]

theorem isList_scopeFirst : IsList scopeFirst := by
  have first : IsValue 0x0f (codeWithScopeBytes [] []) := by
    simpa using IsValue.codeWithScope [] .nil
  have second : IsValue 0x10 [1, 0, 0, 0] := .int32 _ rfl
  exact .cons first (.cons second .nil)

def scopeFirstMem : Mem :=
  ((documentBytes (scopeFirst.flatMap Element.bytes)).getD · 0)

theorem holdsList_scopeFirst : HoldsList scopeFirstMem 0 scopeFirst := by
  refine ⟨isList_scopeFirst, holds_getD _, ?_⟩
  have size : (scopeFirst.flatMap Element.bytes).length = 24 := rfl
  omega

theorem right_iff_settles_scopeFirst :
    (∀ params : List Param, (params.map Param.key).Nodup →
      (Settles scopeFirst params → Right scopeFirstMem 0 scopeFirst params) ∧
        (AsksBehind scopeFirst params → Right scopeFirstMem 0 scopeFirst params →
          Settles scopeFirst params)) ∧
      (FreshBehind scopeFirst →
        ((∀ params : List Param, (params.map Param.key).Nodup →
          Right scopeFirstMem 0 scopeFirst params) ↔ Harmless scopeFirst)) :=
  right_iff_settles holdsList_scopeFirst

theorem right_fails : ¬ ∀ mem doc elements, HoldsList mem doc elements →
    ∀ params : List Param, (params.map Param.key).Nodup → Right mem doc elements params := by
  intro always
  have right := always scopeFirstMem 0 scopeFirst holdsList_scopeFirst
    [⟨.of [0x78] rfl, -1⟩] (by simp)
  have found := congrArg Prod.fst right
  revert found
  decide

end PeridotSw.Bson.Specification
