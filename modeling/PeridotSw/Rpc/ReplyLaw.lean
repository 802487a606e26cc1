import PeridotSw.Bson.RoundTrip
import PeridotSw.Rpc.Reply

/-!
# Every request and its reply

For a well-formed request and synchronous methods, the service sends one reply when
the request has an id or is rejected before a method is looked for, and none otherwise.
The reply is given as a document: the version, the element with the id as the request
has it, and the result or the error.
-/

namespace PeridotSw.Rpc.ReplyLaw

open PeridotSw.Machine.Memory
open PeridotSw.Machine.Word
open PeridotSw.Bson.Read
open PeridotSw.Bson.Write
open PeridotSw.Bson.Document
open PeridotSw.Bson.Lookup
open PeridotSw.Bson.RoundTrip
open PeridotSw.Rpc.Reply
open PeridotSw.Rpc.Sink (Allocator)

/-! ## Requests and replies as documents -/

def first (key : CString) : Elements → Option Value
  | .empty => none
  | .append front other value =>
      first key front <|> if other = key then some value else none

/-- One of the keys a request is searched for occurs. -/
def known (request : Elements) : Bool :=
  [keyJsonrpc, keyMethod, keyParams, keyId].any fun key => (first key request).isSome

def versionRight (request : Elements) : Bool :=
  match first keyJsonrpc request with
  | some (.string version) => version = jsonrpcVer
  | _ => false

def methodName (request : Elements) : Option CString :=
  match first keyMethod request with
  | some (.string name) => some name
  | _ => none

/-- A request that is answered without looking for a method. -/
def Rejected (request : Elements) : Prop :=
  known request = false ∨ versionRight request = false ∨ methodName request = none

instance (request : Elements) : Decidable (Rejected request) :=
  inferInstanceAs (Decidable (_ ∨ _ ∨ _))

/-- The pointer a method is given: behind the type and the key of the element `params`,
when that is a document or an array. -/
def paramsPointer (request : Elements) : Option Nat :=
  match first keyParams request with
  | some (.subdocument _) => (request.offset keyParams).map (· + 8)
  | some (.array _) => (request.offset keyParams).map (· + 8)
  | _ => none

/-- The document and the error number a request leads to, when no method is
asynchronous. -/
def answer (methods : List MethodEntry) (request : Elements) (input : Mem) : Option Mem × Int32 :=
  if known request = false then
    (none, jsonrpcErrParseError)
  else if versionRight request = false then
    (none, jsonrpcErrInvalidRequest)
  else
    match methodName request with
    | none => (none, jsonrpcErrInvalidRequest)
    | some name =>
        match methods.find? fun entry => entry.name = name with
        | none => (none, jsonrpcErrMethodNotFound)
        | some entry =>
            match entry.handler with
            | .sync function => function input (paramsPointer request)
            | .async _ => (none, 0)

/-- A method is synchronous, and returns `NULL` or a document. -/
def Synchronous (entry : MethodEntry) : Prop :=
  ∃ function, entry.handler = .sync function ∧ ∀ input params document,
    (function input params).1 = some document → ∃ content, HoldsDocument document 0 content

/-- The last member of the reply: the method's document or `null` under `result`, or
the document with the number under `error`. -/
inductive Member : Option Mem × Int32 → CString → Value → Prop where
  | result {document : Mem} {errno : Int32} {content : Elements}
      (held : HoldsDocument document 0 content) :
      Member (some document, errno) keyResult (.subdocument content)
  | null : Member (none, 0) keyResult .null
  | error {errno : Int32} (failed : errno ≠ 0) :
      Member (none, errno) keyError (.subdocument (.append .empty keyCode (.int32 errno)))

def replyHead (id : Option Value) : Elements :=
  let version := Elements.append .empty keyJsonrpc (.string jsonrpcVer)
  match id with
  | none => version
  | some id => .append version keyId id

def replyOf (id : Option Value) (key : CString) (value : Value) : Elements :=
  .append (replyHead id) key value

def sources (effects : List Effect) : List (Mem × Int) :=
  effects.filterMap fun effect =>
    match effect with
    | .source output length => some (output, length)
    | _ => none

/-! ## What the reads of a request give -/

variable {input : Mem} {doc : Nat} {request : Elements}

def position (request : Elements) (key : CString) : Int :=
  ((request.offset key).map Int.ofNat).getD (-1)

theorem offset_eq_none_iff (key : CString) (request : Elements) :
    request.offset key = none ↔ first key request = none := by
  match request with
  | .empty => simp [Elements.offset, first]
  | .append front other value =>
      have ih := offset_eq_none_iff key front
      by_cases same : other = key <;> simp [Elements.offset, first, same, ih]

/-- The first element with a key lies at the offset of the key. -/
theorem lies_of_first {mem : Mem} {doc : Nat} {content : Elements}
    (held : HoldsDocument mem doc content) {key : CString} {value : Value} (front : Elements)
    {after : List Element} (parts : content.list = front.list ++ after)
    (found : first key front = some value) :
    ∃ offset, front.offset key = some offset ∧
      Lies mem doc offset (doc + 4 + content.encode.length + 1) (value.element key) := by
  match front with
  | .empty => cases found
  | .append before other last =>
      have split : content.list = before.list ++ last.element other :: after := by
        rw [parts, Elements.list, List.append_assoc]
        rfl
      cases earlier : first key before with
      | some value' =>
          have same : value' = value := by simpa [first, earlier] using found
          subst same
          obtain ⟨offset, place, lies⟩ := lies_of_first held before split earlier
          exact ⟨offset, by simp [Elements.offset, place], lies⟩
      | none =>
          have absent := (offset_eq_none_iff key before).mpr earlier
          by_cases same : other = key
          · simp only [first, earlier, same, if_true] at found
            cases found
            have lies := lies_of_document held split
            rw [← Elements.encode_eq_flatMap, same] at lies
            exact ⟨_, by simp [Elements.offset, absent, same], lies⟩
          · simp [first, earlier, same] at found

theorem seekData_absent (doc : Nat) (low high : UInt8) :
    (seekData (some doc) (-1) low high).eval input = none := rfl

theorem position_cases (held : HoldsDocument input doc request) (key : CString) :
    (first key request = none ∧ position request key = -1) ∨
      ∃ value offset, first key request = some value ∧ request.offset key = some offset ∧
        position request key = (offset : Nat) ∧
        Lies input doc offset (doc + 4 + request.encode.length + 1) (value.element key) := by
  cases found : first key request with
  | none =>
      have absent := (offset_eq_none_iff key request).mpr found
      exact .inl ⟨rfl, by simp [position, absent]⟩
  | some value =>
      obtain ⟨offset, place, lies⟩ :=
        lies_of_first held request (List.append_nil _).symm found
      exact .inr ⟨value, offset, rfl, place, by simp [position, place], lies⟩

theorem string_of_type {value : Value} (type : value.type = 0x02) :
    ∃ text, value = .string text := by
  cases value with
  | string text => exact ⟨text, rfl⟩
  | other type' body shaped foreign =>
      have same : type' = 0x02 := type
      simp [same] at foreign
  | _ => cases type

/-- Values of the types of documents are documents. -/
theorem document_of_type {value : Value} (type : value.type = 0x04 ∨ value.type = 0x03) :
    ∃ content, value = .subdocument content ∨ value = .array content := by
  cases value with
  | subdocument content => exact ⟨content, .inl rfl⟩
  | array content => exact ⟨content, .inr rfl⟩
  | other type' body shaped foreign =>
      have same : type' = 0x04 ∨ type' = 0x03 := type
      rcases same with same | same <;> simp [same] at foreign
  | _ => rcases type with type | type <;> cases type

/-- `bson_get_string` of the variable of a key. -/
theorem getString_cases (held : HoldsDocument input doc request) (key : CString) :
    (∃ text place, first key request = some (.string text) ∧
      (bsonGetString (some doc) (position request key)).eval input = some place ∧
        Holds input place (text.bytes ++ [0])) ∨
      ((∀ text, first key request ≠ some (.string text)) ∧
        (bsonGetString (some doc) (position request key)).eval input = none) := by
  rcases position_cases held key with ⟨absent, place⟩ | ⟨value, offset, found, -, place, lies⟩
  · exact .inr ⟨by simp [absent], by simp [place, bsonGetString, seekData_absent]⟩
  · rw [place, found]
    by_cases type : value.type = 0x02
    · obtain ⟨text, rfl⟩ := string_of_type type
      obtain ⟨string, got, bytes⟩ := lies.string
      exact .inl ⟨text, string, rfl, got, bytes⟩
    · refine .inr ⟨?_, ?_⟩
      · rintro text same
        cases same
        exact type rfl
      · have refused := (lies.eval_seekData 0x02 0x02).trans (if_neg fun both => both.elim type type)
        simp [bsonGetString, refused]

/-- The pointer handed to a method. -/
theorem getSubdocument_params (held : HoldsDocument input 0 request) :
    (bsonGetSubdocument (some 0) (position request keyParams)).eval input =
      paramsPointer request := by
  rcases position_cases held keyParams with
    ⟨absent, place⟩ | ⟨value, offset, found, known, place, lies⟩
  · simp [bsonGetSubdocument, place, seekData_absent, paramsPointer, absent]
  · have behind : Lies.value 0 offset (value.element keyParams) = offset + 8 := by
      simp [Lies.value, Value.element, keyParams]
    rw [place]
    by_cases type : value.type = 0x04 ∨ value.type = 0x03
    · have sought := (lies.eval_seekData 0x04 0x03).trans (if_pos type)
      rw [behind] at sought
      obtain ⟨content, rfl | rfl⟩ := document_of_type type <;>
        simp [bsonGetSubdocument, sought, paramsPointer, found, known]
    · have refused := (lies.eval_seekData 0x04 0x03).trans (if_neg type)
      simp only [bsonGetSubdocument, Access.eval_bind, refused]
      unfold paramsPointer
      split
      case h_1 content same =>
        cases found.symm.trans same
        exact absurd (.inr rfl) type
      case h_2 content same =>
        cases found.symm.trans same
        exact absurd (.inl rfl) type
      case h_3 => rfl

/-- The variables and the count after the request has been searched. -/
theorem eval_requestProps (held : HoldsDocument input 0 request) (stale : Fin 4 → Int) :
    (bsonGetProps 0 (requestParams stale)).eval input =
      ((occurring request (requestParams stale) : Int),
        [⟨keyJsonrpc, position request keyJsonrpc⟩, ⟨keyMethod, position request keyMethod⟩,
          ⟨keyParams, position request keyParams⟩, ⟨keyId, position request keyId⟩]) :=
  eval_bsonGetProps held (show [keyJsonrpc, keyMethod, keyParams, keyId].Nodup by decide)

theorem occurring_request (request : Elements) (stale : Fin 4 → Int) :
    ((occurring request (requestParams stale) : Nat) : Int) ≤ 0 ↔ known request = false := by
  have present (key : CString) : (request.offset key).isSome = (first key request).isSome := by
    rw [Bool.eq_iff_iff, Option.isSome_iff_ne_none, Option.isSome_iff_ne_none]
    exact not_congr (offset_eq_none_iff key request)
  rw [Int.natCast_nonpos_iff, occurring, List.countP_eq_zero, known, List.any_eq_false]
  simp [requestParams, present]

theorem eval_versionMatches (held : HoldsDocument input 0 request) :
    (versionMatches (position request keyJsonrpc)).eval input = versionRight request := by
  rcases getString_cases held keyJsonrpc with
    ⟨text, place, found, got, bytes⟩ | ⟨absent, got⟩
  · have compared : (strcmpEq jsonrpcVer.bytes place).eval input = decide (text = jsonrpcVer) := by
      rw [Bool.eq_iff_iff, eval_strcmpEq bytes, decide_eq_true_iff]
      exact eq_comm
    simp [versionMatches, got, versionRight, found, compared]
  · have wrong : versionRight request = false := by
      unfold versionRight
      split
      case h_1 version found => exact absurd found (absent version)
      case h_2 => rfl
    simp [versionMatches, got, wrong]

theorem eval_findMethod {place : Nat} {name : CString} (held : Holds input place (name.bytes ++ [0]))
    (methods : List MethodEntry) :
    (findMethod place methods).eval input = methods.find? fun entry => entry.name = name := by
  induction methods with
  | nil => rfl
  | cons entry rest ih =>
      simp only [findMethod, Access.eval_bind, List.find?_cons]
      by_cases same : entry.name = name
      · rw [if_pos ((eval_strcmpEq held).mpr same), decide_eq_true same]
        rfl
      · rw [if_neg fun equal => same ((eval_strcmpEq held).mp equal), ih, decide_eq_false same]

/-! ## Building the reply -/

/-- A call of a writer appends an element to any document, and measures it correctly. -/
def Appends (set : Option Mem → Option Mem × Int) (element : Element) : Prop :=
  ∀ (doc : Mem) (elements : List UInt8), Holds doc 0 (documentBytes elements) →
    elements.length + element.bytes.length + 5 < 2 ^ 31 →
    Holds (into doc (set (some doc))) 0 (documentBytes (elements ++ element.bytes)) ∧
      (set none).2 = element.bytes.length

theorem appends_string (key text : CString) :
    Appends (fun doc => bsonSetString doc key text) ((Value.string text).element key) :=
  fun _ _ held bound => writes_string text key held bound

theorem appends_null (key : CString) :
    Appends (fun doc => bsonSetNull doc key) (Value.null.element key) :=
  fun _ _ held bound => Passes.null.writes key held bound

theorem appends_subdocument (key : CString) {document : Mem} {content : Elements}
    (held : HoldsDocument document 0 content) :
    Appends (fun doc => bsonSetSubdocument doc key document)
      ((Value.subdocument content).element key) :=
  fun _ _ target bound => writes_subdocument held key target bound

/-- One member more: the document and its size. -/
theorem extend {set : Option Mem → Option Mem × Int} {key : CString} {value : Value}
    (appends : Appends set (value.element key)) {doc : Mem} {front : Elements}
    (held : HoldsDocument doc 0 front)
    (room : (Elements.append front key value).encode.length + 5 < 2 ^ 31) :
    HoldsDocument (into doc (set (some doc))) 0 (.append front key value) ∧
      wrap ((front.encode.length : Int) + 5 + (set none).2) =
        ((Elements.append front key value).encode.length : Int) + 5 := by
  have size : (Elements.append front key value).encode.length =
      front.encode.length + (value.element key).bytes.length := by
    rw [Elements.encode, List.length_append]
    rfl
  obtain ⟨written, measured⟩ := appends doc front.encode held.1 (by rw [← size]; exact room)
  refine ⟨⟨written, room⟩, ?_⟩
  rw [measured, wrap_of_range (by omega) (by omega), size]
  push_cast
  omega

/-- The call for the id appends the id of the request, if there is one. -/
theorem setElement_cases (held : HoldsDocument input 0 request) :
    (first keyId request = none ∧ ∀ doc,
      bsonSetElement doc keyId input (some 0) (position request keyId) = (doc, 0)) ∨
      ∃ id, first keyId request = some id ∧
        Appends (fun doc => bsonSetElement doc keyId input (some 0) (position request keyId))
          (id.element keyId) := by
  rcases position_cases held keyId with ⟨absent, place⟩ | ⟨id, offset, found, -, place, lies⟩
  · refine .inl ⟨absent, fun doc => ?_⟩
    rw [place]
    rfl
  · refine .inr ⟨id, found, ?_⟩
    have located := lies.eval_locateElement
    have body : slice input (Lies.value 0 offset (id.element keyId)) id.encode.length =
        id.encode := slice_eq_of_holds lies.parts.2.2
    intro doc elements target bound
    simp only [place, bsonSetElement, located]
    simp only [Value.element] at body ⊢
    rw [body]
    exact ⟨holds_appendElement (id.element keyId) target bound,
      setSubelement_size (by simp only [Value.element] at bound; omega)⟩

theorem head_built (held : HoldsDocument input 0 request) (block : Mem)
    (room : (replyHead (first keyId request)).encode.length + 5 < 2 ^ 31) :
    HoldsDocument (buildHead block input (position request keyId)) 0
        (replyHead (first keyId request)) ∧
      measureHead input (position request keyId) =
        ((replyHead (first keyId request)).encode.length : Int) + 5 := by
  have empty : HoldsDocument (bsonCreateEmptyDocument block) 0 .empty :=
    ⟨holds_create block, by decide⟩
  have short : (Elements.append .empty keyJsonrpc (.string jsonrpcVer)).encode.length + 5 <
      2 ^ 31 := by decide
  have version := extend (appends_string keyJsonrpc jsonrpcVer) empty short
  have size : wrap (bsonEmptySize + (bsonSetString none keyJsonrpc jsonrpcVer).2) =
      ((Elements.append .empty keyJsonrpc (.string jsonrpcVer)).encode.length : Int) + 5 :=
    version.2
  rcases setElement_cases held with ⟨absent, same⟩ | ⟨id, found, appends⟩
  · rw [absent] at room ⊢
    simp only [buildHead, measureHead, same, size]
    refine ⟨version.1, ?_⟩
    rw [Int.add_zero, wrap_of_range (by omega) (by exact_mod_cast room)]
    rfl
  · rw [found] at room ⊢
    have whole := extend appends version.1 room
    simp only [buildHead, measureHead, size]
    exact whole

theorem errorDocument_held (buffer : Mem) (errno : Int32) :
    HoldsDocument (errorDocument buffer none errno) 0
      (.append .empty keyCode (.int32 errno)) := by
  have room : ∀ errno, (Elements.append .empty keyCode (.int32 errno)).encode.length + 5 < 2 ^ 31 := by
    intro errno
    simp [Elements.encode, Value.encode, keyCode]
  exact (Built.append (.empty buffer) (.int32 errno) (room errno)).holds.1

theorem last_member {result : Option Mem} {errno : Int32} {key : CString} {value : Value}
    (member : Member (result, errno) key value) (buffer : Mem) :
    ∃ set, Appends set (value.element key) ∧ ∀ block input offId,
      buildReply block buffer input offId result (if result.isSome then 0 else errno) =
          into (buildHead block input offId) (set (some (buildHead block input offId))) ∧
        measureReply buffer input offId result (if result.isSome then 0 else errno) =
          wrap (measureHead input offId + (set none).2) := by
  cases member with
  | @result document errno content held =>
      refine ⟨fun doc => bsonSetSubdocument doc keyResult document,
        appends_subdocument keyResult held, fun block input offId => ?_⟩
      simp only [buildReply, measureReply, Option.isSome_some, if_true, and_self]
  | null =>
      refine ⟨fun doc => bsonSetNull doc keyResult, appends_null keyResult,
        fun block input offId => ?_⟩
      simp only [buildReply, measureReply, ite_self, if_true, and_self]
  | @error errno failed =>
      refine ⟨fun doc => bsonSetSubdocument doc keyError (errorDocument buffer none errno),
        appends_subdocument keyError (errorDocument_held buffer errno),
        fun block input offId => ?_⟩
      simp only [buildReply, measureReply, Option.isSome_none, Bool.false_eq_true, if_false,
        if_neg failed, and_self]

/-- Both passes of `send_reply`: the output holds the reply, and has its size. -/
theorem reply_built (held : HoldsDocument input 0 request) {result : Option Mem} {errno : Int32}
    {key : CString} {value : Value} (member : Member (result, errno) key value)
    (room : (replyOf (first keyId request) key value).encode.length + 5 < 2 ^ 31)
    (block buffer : Mem) :
    HoldsDocument (buildReply block buffer input (position request keyId) result
        (if result.isSome then 0 else errno)) 0 (replyOf (first keyId request) key value) ∧
      measureReply buffer input (position request keyId) result
          (if result.isSome then 0 else errno) =
        ((replyOf (first keyId request) key value).encode.length : Int) + 5 := by
  obtain ⟨set, appends, passes⟩ := last_member member buffer
  have shorter : (replyHead (first keyId request)).encode.length ≤
      (replyOf (first keyId request) key value).encode.length := by
    simp [replyOf, Elements.encode]
  obtain ⟨head, size⟩ := head_built held block (by omega)
  obtain ⟨built, measured⟩ := passes block input (position request keyId)
  rw [built, measured, size]
  exact extend appends head room

/-! ## The service -/

@[simp] theorem sources_append (first second : List Effect) :
    sources (first ++ second) = sources first ++ sources second :=
  List.filterMap_append

@[simp] theorem sources_onResult_free (result : Option Mem) :
    sources (onResult result .free) = [] := by
  cases result <;> rfl

@[simp] theorem sources_onResult_read (result : Option Mem) :
    sources (onResult result .read) = [] := by
  cases result <;> rfl

/-- With its allocation granted, `send_reply` sends what it built. -/
theorem sources_sendReply {malloc : Allocator} {buffer : Mem} {offId : Int}
    {result : Option Mem} {errno : Int32} {block : Mem}
    (granted : malloc 0 (unsigned (measureReply buffer input offId result errno)) = some block) :
    sources (sendReply malloc buffer input offId result errno) =
      [(buildReply block buffer input offId result errno,
        measureReply buffer input offId result errno)] := by
  have plain (effects : List Effect) : sources (.read .job :: effects) = sources effects := rfl
  simp only [sendReply, replyPass, granted, plain, List.cons_append, sources_append,
    sources_onResult_read, List.nil_append]
  change sources (onResult result .read ++ onResult result .free ++ _) = _
  simp only [sources_append, sources_onResult_read, sources_onResult_free, List.nil_append]
  rfl

theorem position_neg_iff (key : CString) (request : Elements) :
    position request key < 0 ↔ first key request = none := by
  rw [← offset_eq_none_iff, position]
  cases request.offset key with
  | none => simp
  | some offset => simp

/-- What the dispatch of an accepted request leads to. -/
theorem dispatch_answer {methods : List MethodEntry}
    (synchronous : ∀ entry ∈ methods, Synchronous entry) (held : HoldsDocument input 0 request)
    (accepted : ¬ Rejected request) {name : CString} (asked : methodName request = some name)
    {place : Nat} (bytes : Holds input place (name.bytes ++ [0])) :
    dispatch methods input place (position request keyParams) (position request keyId) =
      if first keyId request = none then
        .notification (answer methods request input).1
      else
        .reply (answer methods request input).1
          (if (answer methods request input).1.isSome then 0
            else (answer methods request input).2) := by
  simp only [Rejected, not_or, Bool.not_eq_false] at accepted
  obtain ⟨isKnown, isRight, -⟩ := accepted
  have answered : answer methods request input =
      match methods.find? fun entry => entry.name = name with
      | none => (none, jsonrpcErrMethodNotFound)
      | some entry =>
          match entry.handler with
          | .sync function => function input (paramsPointer request)
          | .async _ => (none, 0) := by
    simp only [answer, isKnown, isRight, asked, Bool.true_eq_false, if_false]
  simp only [dispatch, eval_findMethod bytes, getSubdocument_params held, position_neg_iff]
  rw [answered]
  cases found : methods.find? fun entry => entry.name = name with
  | none => rfl
  | some entry =>
      obtain ⟨function, handler, -⟩ := synchronous entry (List.mem_of_find?_eq_some found)
      simp only [handler]

theorem getString_method (held : HoldsDocument input 0 request) :
    (∃ name place, methodName request = some name ∧
      (bsonGetString (some 0) (position request keyMethod)).eval input = some place ∧
        Holds input place (name.bytes ++ [0])) ∨
      (methodName request = none ∧
        (bsonGetString (some 0) (position request keyMethod)).eval input = none) := by
  rcases getString_cases held keyMethod with ⟨text, place, found, got, bytes⟩ | ⟨absent, got⟩
  · exact .inl ⟨text, place, by simp [methodName, found], got, bytes⟩
  · refine .inr ⟨?_, got⟩
    unfold methodName
    split
    case h_1 name found => exact absurd found (absent name)
    case h_2 => rfl

/-- The reading of a request: a reply or none, for the answer. -/
theorem judge_answer {methods : List MethodEntry}
    (synchronous : ∀ entry ∈ methods, Synchronous entry) (held : HoldsDocument input 0 request)
    (stale : Fin 4 → Int) :
    judge methods stale input =
      (if Rejected request ∨ first keyId request ≠ none then
        .reply (answer methods request input).1
          (if (answer methods request input).1.isSome then 0
            else (answer methods request input).2)
      else
        .notification (answer methods request input).1, position request keyId) := by
  have props := eval_requestProps held stale
  have count := occurring_request request stale
  have version := eval_versionMatches held
  simp only [judge, props, offsetAt, List.getElem?_cons_zero, List.getElem?_cons_succ,
    Option.map_some, Option.getD_some, version, count]
  by_cases isKnown : known request = false
  · have rejected : Rejected request := .inl isKnown
    simp [isKnown, rejected, answer]
  by_cases isRight : versionRight request = false
  · have rejected : Rejected request := .inr (.inl isRight)
    simp [isKnown, isRight, rejected, answer]
  rcases getString_method held with ⟨name, place, asked, got, bytes⟩ | ⟨missing, got⟩
  · have accepted : ¬ Rejected request := by
      simp [Rejected, isKnown, isRight, asked]
    rw [if_neg isKnown, if_neg isRight, got]
    simp only [dispatch_answer synchronous held accepted asked bytes, accepted, false_or]
    by_cases anonymous : first keyId request = none <;> simp [anonymous]
  · have rejected : Rejected request := .inr (.inr missing)
    simp [isKnown, isRight, rejected, answer, got, missing]

/-- Every answer has its last member. -/
theorem member_exists {methods : List MethodEntry}
    (synchronous : ∀ entry ∈ methods, Synchronous entry) (request : Elements) (input : Mem) :
    ∃ key value, Member (answer methods request input) key value := by
  have failure (errno : Int32) : ∃ key value, Member (none, errno) key value := by
    by_cases zero : errno = 0
    · rw [zero]
      exact ⟨_, _, Member.null⟩
    · exact ⟨_, _, Member.error zero⟩
  unfold answer
  split
  · exact failure _
  split
  · exact failure _
  split
  · exact failure _
  split
  · exact failure _
  · rename_i entry found
    obtain ⟨function, handler, documents⟩ :=
      synchronous entry (List.mem_of_find?_eq_some found)
    rw [handler]
    change ∃ key value, Member (function input (paramsPointer request)) key value
    have returned := documents input (paramsPointer request)
    generalize function input (paramsPointer request) = outcome at returned ⊢
    obtain ⟨_ | document, errno⟩ := outcome
    · exact failure errno
    · obtain ⟨content, held⟩ := returned document rfl
      exact ⟨_, _, Member.result held⟩

/-- The reply law, for every well-formed request, as the writers make them.  `granted`
and `room` say that the reply can be allocated. -/
theorem service_replies (held : HoldsDocument input 0 request)
    {methods : List MethodEntry} (synchronous : ∀ entry ∈ methods, Synchronous entry)
    {malloc : Allocator} (granted : ∀ attempt size, size < 2 ^ 31 → (malloc attempt size).isSome)
    (room : ∀ key value, Member (answer methods request input) key value →
      (replyOf (first keyId request) key value).encode.length + 5 < 2 ^ 31)
    (buffer : Mem) (stale : Fin 4 → Int) :
    if Rejected request ∨ first keyId request ≠ none then
      ∃ key value output, Member (answer methods request input) key value ∧
        HoldsDocument output 0 (replyOf (first keyId request) key value) ∧
          sources (peridotRpcServerService malloc methods buffer stale (some input)) =
            [(output, bsonMeasureDocument output)]
    else
      sources (peridotRpcServerService malloc methods buffer stale (some input)) = [] := by
  have judged := judge_answer synchronous held stale
  obtain ⟨key, value, member⟩ := member_exists synchronous request input
  have fits := room key value member
  generalize answer methods request input = outcome at judged member ⊢
  obtain ⟨result, errno⟩ := outcome
  split
  case isTrue replied =>
    have measured := (reply_built held member fits buffer buffer).2
    have small : unsigned (measureReply buffer input (position request keyId) result
        (if result.isSome then 0 else errno)) < 2 ^ 31 := by
      rw [measured, unsigned_of_nonneg (by omega) (by omega)]
      omega
    obtain ⟨block, given⟩ := Option.isSome_iff_exists.mp (granted 0 _ small)
    obtain ⟨output, size⟩ := reply_built held member fits block buffer
    refine ⟨key, value, _, member, output, ?_⟩
    simp only [peridotRpcServerService, judged, if_pos replied]
    rw [sources_sendReply given, size]
    exact congrArg (fun length => [(_, length)]) (HoldsDocument.declared output).symm
  case isFalse silent =>
    simp only [peridotRpcServerService, judged, if_neg silent, sources_append,
      sources_onResult_free]
    rfl

def ping : Elements :=
  .append (.append (.append .empty keyJsonrpc (.string jsonrpcVer))
    keyMethod (.string (.of [0x6d] rfl))) keyId (.int32 7)

/-- A method `m` without a result. -/
def pong : MethodEntry := ⟨.of [0x6d] rfl, .sync fun _ _ => (none, 0)⟩

def plenty : Allocator := fun _ _ => some fun _ => 0xff

theorem service_replies_ping :
    ∃ input sum, Built ping input sum ∧
      ∃ key value output, Member (answer [pong] ping input) key value ∧
        HoldsDocument output 0 (replyOf (first keyId ping) key value) ∧
          sources (peridotRpcServerService plenty [pong] (fun _ => 0xcc) (fun _ => 99)
            (some input)) = [(output, bsonMeasureDocument output)] := by
  have built : Built ping _ _ :=
    .append (.append (.append (.empty fun _ => 0xaa) (.string jsonrpcVer) (by decide))
      (.string (.of [0x6d] rfl)) (by decide)) (.int32 7) (by decide)
  have synchronous : ∀ entry ∈ [pong], Synchronous entry := by
    intro entry listed
    rw [List.mem_singleton.mp listed]
    exact ⟨_, rfl, fun _ _ _ none => nomatch none⟩
  have granted : ∀ attempt size, size < 2 ^ 31 → (plenty attempt size).isSome :=
    fun _ _ _ => rfl
  have room : ∀ key value, Member (none, 0) key value →
      (replyOf (first keyId ping) key value).encode.length + 5 < 2 ^ 31 := by
    intro key value member
    cases member with
    | null => decide
    | error failed => exact absurd rfl failed
  have law := service_replies built.holds.1 synchronous granted room (fun _ => 0xcc) (fun _ => 99)
  have identified : Rejected ping ∨ first keyId ping ≠ none := .inr nofun
  rw [if_pos identified] at law
  exact ⟨_, _, built, law⟩

end PeridotSw.Rpc.ReplyLaw
