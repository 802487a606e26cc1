import PeridotSw.Bson.Footprint
import PeridotSw.Rpc.AsyncReplies

/-!
# The lifetimes of what a reply is made from

`send_reply` goes back to its label when the allocation of a successful reply fails,
with other values in its variables.  However its allocations turn out, it is done after
two passes, releases the job and the method's document once each, does not read them
afterwards, and stores no more bytes in its output than it has asked for.
-/

namespace PeridotSw.Rpc.ReplyLifetimes

open PeridotSw.Machine.Memory
open PeridotSw.Machine.Word
open PeridotSw.Bson.Read
open PeridotSw.Bson.Write
open PeridotSw.Bson.Walk
open PeridotSw.Bson.Footprint
open PeridotSw.Rpc.Reply
open PeridotSw.Rpc.AsyncReplies (pinged)
open PeridotSw.Rpc.Sink (Allocator sizeofRpcsrvJob)

/-! ## The loop of `send_reply` -/

/-- The variables that change from pass to pass.  `errorDoc` is `none` as long as it
points to the local buffer. -/
structure Locals where
  errorDocBuffer : Mem
  errorDoc : Option Mem
  resultOrError : Option Mem
  resultErrno : Int32

/-- The document `error_doc` points to. -/
def Locals.error (locals : Locals) : Mem := locals.errorDoc.getD locals.errorDocBuffer

/-- The branch `Fail` of the first half, as far as it assigns. -/
def Locals.prepare (locals : Locals) : Locals :=
  if locals.resultErrno = 0 then locals
  else
    match locals.resultOrError with
    | some document => { locals with errorDoc := some document }
    | none =>
        let empty := bsonCreateEmptyDocument locals.errorDocBuffer
        { locals with
          errorDocBuffer := into empty (bsonSetInt32 (some empty) keyCode locals.resultErrno) }

def Locals.replyLen (locals : Locals) (input : Mem) (offId : Int) : Int :=
  let head := measureHead input offId
  if locals.resultErrno = 0 then
    match locals.resultOrError with
    | some document => wrap (head + (bsonSetSubdocument none keyResult document).2)
    | none => wrap (head + (bsonSetNull none keyResult).2)
  else
    wrap (head + (bsonSetSubdocument none keyError locals.error).2)

def Locals.output (locals : Locals) (block input : Mem) (offId : Int) : Mem :=
  let head := buildHead block input offId
  if locals.resultErrno = 0 then
    match locals.resultOrError with
    | some document => into head (bsonSetSubdocument (some head) keyResult document)
    | none => into head (bsonSetNull (some head) keyResult)
  else
    into head (bsonSetSubdocument (some head) keyError locals.error)

/-- The reads of the method's document through `result_or_error` or `error_doc`. -/
def Locals.readsDocument (locals : Locals) : List Effect :=
  onResult (if locals.resultErrno = 0 then locals.resultOrError else locals.errorDoc) .read

/-- `send_reply` from the label `reply` on, for so many passes; `none` when they are not
enough.  `attempt` counts the allocations. -/
def sendReplyFrom (malloc : Allocator) (input : Mem) (offId : Int) :
    Nat → Nat → Locals → Option (List Effect)
  | 0, _, _ => none
  | passes + 1, attempt, before =>
      let locals := before.prepare
      let replyLen := locals.replyLen input offId
      let size := unsigned replyLen
      let measuring := .read .job :: locals.readsDocument
      match malloc attempt size with
      | none =>
          if locals.resultErrno ≠ 0 then
            some (measuring ++ .malloc size false ::
              (onResult locals.resultOrError .free ++ [.free .job]))
          else
            (sendReplyFrom malloc input offId passes (attempt + 1)
              { locals with resultErrno := jsonrpcErrInternalError, resultOrError := none }).map
              fun again =>
                measuring ++ .malloc size false ::
                  (onResult locals.resultOrError .free ++ again)
      | some block =>
          some (measuring ++ .malloc size true :: .read .job :: .free .job ::
            (locals.readsDocument ++ onResult locals.resultOrError .free ++
              [.source (locals.output block input offId) replyLen, .free .output]))

/-- The variables at the first label. -/
def start (buffer : Mem) (result : Option Mem) (errno : Int32) : Locals :=
  ⟨buffer, none, result, errno⟩

variable {malloc : Allocator} {input buffer : Mem} {offId : Int} {result : Option Mem}
  {errno : Int32}

/-! ## What the loop computes -/

theorem prepare_success (success : errno = 0) :
    (start buffer result errno).prepare = start buffer result errno := if_pos success

/-- After a failure `error_doc` points to the error document. -/
theorem prepare_failure (failed : errno ≠ 0) :
    (start buffer result errno).prepare =
      ⟨if result.isSome then buffer else errorDocument buffer none errno, result, result, errno⟩ := by
  cases result <;> exact if_neg failed

theorem error_failure (failed : errno ≠ 0) :
    (start buffer result errno).prepare.error = errorDocument buffer result errno := by
  rw [prepare_failure failed]
  cases result <;> rfl

@[simp] theorem prepare_resultOrError :
    (start buffer result errno).prepare.resultOrError = result := by
  by_cases success : errno = 0
  · rw [prepare_success success]
    rfl
  · rw [prepare_failure success]

@[simp] theorem prepare_resultErrno : (start buffer result errno).prepare.resultErrno = errno := by
  by_cases success : errno = 0
  · rw [prepare_success success]
    rfl
  · rw [prepare_failure success]

@[simp] theorem prepare_readsDocument :
    (start buffer result errno).prepare.readsDocument = onResult result .read := by
  by_cases success : errno = 0
  · simp only [Locals.readsDocument, prepare_resultErrno, prepare_resultOrError, if_pos success]
  · simp only [Locals.readsDocument, if_neg success, prepare_failure success]

@[simp] theorem prepare_replyLen :
    (start buffer result errno).prepare.replyLen input offId =
      measureReply buffer input offId result errno := by
  unfold Locals.replyLen measureReply
  simp only [prepare_resultErrno, prepare_resultOrError]
  split
  case isTrue => rfl
  case isFalse failed => rw [error_failure failed]

@[simp] theorem prepare_output (block : Mem) :
    (start buffer result errno).prepare.output block input offId =
      buildReply block buffer input offId result errno := by
  unfold Locals.output buildReply
  simp only [prepare_resultErrno, prepare_resultOrError]
  split
  case isTrue => rfl
  case isFalse failed => rw [error_failure failed]

/-- A pass that ends the call. -/
theorem sendReplyFrom_last (failed : errno ≠ 0) (passes attempt : Nat) :
    sendReplyFrom malloc input offId (passes + 1) attempt (start buffer result errno) =
      some (replyPass malloc attempt buffer input offId result errno
        (onResult result .free ++ [.free .job])) := by
  simp only [sendReplyFrom, prepare_replyLen, prepare_readsDocument, prepare_resultErrno,
    prepare_resultOrError, prepare_output, replyPass]
  rw [if_pos failed]
  cases malloc attempt _ <;> rfl

/-- A pass of a reply that is successful so far. -/
theorem sendReplyFrom_first (success : errno = 0) (passes attempt : Nat) :
    sendReplyFrom malloc input offId (passes + 2) attempt (start buffer result errno) =
      some (replyPass malloc attempt buffer input offId result errno
        (onResult result .free ++ replyPass malloc (attempt + 1) buffer input offId none
          jsonrpcErrInternalError [.free .job])) := by
  have again' : { (start buffer result errno).prepare with
      resultErrno := jsonrpcErrInternalError, resultOrError := none } =
        start buffer none jsonrpcErrInternalError := by
    rw [prepare_success success]
    rfl
  have again : sendReplyFrom malloc input offId (passes + 1) (attempt + 1)
      (start buffer none jsonrpcErrInternalError) =
        some (replyPass malloc (attempt + 1) buffer input offId none jsonrpcErrInternalError
          [.free .job]) := sendReplyFrom_last (by decide) passes (attempt + 1)
  generalize replyPass malloc (attempt + 1) buffer input offId none jsonrpcErrInternalError
    [.free .job] = second at again ⊢
  rw [sendReplyFrom]
  simp only [again', again, prepare_replyLen, prepare_readsDocument, prepare_resultErrno,
    prepare_resultOrError, prepare_output, replyPass]
  rw [if_neg (not_not_intro success)]
  cases malloc attempt _ <;> rfl

/-- Two passes are enough. -/
theorem sendReplyFrom_eq {passes : Nat} (enough : 2 ≤ passes) :
    sendReplyFrom malloc input offId passes 0 (start buffer result errno) =
      some (sendReply malloc buffer input offId result errno) := by
  obtain ⟨more, rfl⟩ : ∃ more, passes = more + 2 := ⟨passes - 2, by omega⟩
  unfold sendReply
  by_cases success : errno = 0
  · rw [sendReplyFrom_first success, if_neg (not_not_intro success)]
  · rw [sendReplyFrom_last success, if_pos success]

/-! ## Lifetimes -/

/-- The number of passes, each of which allocates once. -/
def passes (effects : List Effect) : Nat :=
  effects.countP fun effect =>
    match effect with
    | .malloc _ _ => true
    | _ => false

/-- How often a block is released. -/
def frees (block : Block) (effects : List Effect) : Nat :=
  effects.countP fun effect =>
    match effect with
    | .free freed => freed = block
    | _ => false

/-- A block is not read after it has been released. -/
def QuietAfterFree (block : Block) : List Effect → Prop
  | [] => True
  | .free freed :: rest => (freed = block → .read block ∉ rest) ∧ QuietAfterFree block rest
  | _ :: rest => QuietAfterFree block rest

/-- What is sent was built in a block that was asked for with the length sent, and no byte
behind that length was stored to. -/
def StoresInside (malloc : Allocator) (effects : List Effect) : Prop :=
  ∀ output length, .source output length ∈ effects →
    ∃ attempt block, malloc attempt (unsigned length) = some block ∧
      .malloc (unsigned length) true ∈ effects ∧
        ∀ index, unsigned length ≤ index → output index = block index

/-- A call of `send_reply` handles what it is given properly. -/
structure Proper (malloc : Allocator) (result : Option Mem) (effects : List Effect) : Prop where
  twoPasses : passes effects ≤ 2
  freesJob : frees .job effects = 1
  freesResult : frees .result effects = if result.isSome then 1 else 0
  jobAlive : QuietAfterFree .job effects
  resultAlive : QuietAfterFree .result effects
  stores : StoresInside malloc effects

/-! ## How much is stored -/

/-- The element with the id, as far as the reading half of `bson_set_element` finds it, ends
inside the request. -/
def IdInside (input : Mem) (offId : Int) : Prop :=
  ∀ type data elmlen, (locateElement (some 0) offId).eval input = some (type, data, elmlen) →
    ((data + elmlen : Nat) : Int) ≤ bsonMeasureDocument input

def idSize (input : Mem) (offId : Int) : Nat :=
  match (locateElement (some 0) offId).eval input with
  | none => 0
  | some (_, _, elmlen) => elementSize keyId elmlen

def lastSize (result : Option Mem) (errno : Int32) : Nat :=
  if errno = 0 then
    match result with
    | some document => elementSize keyResult (unsigned (bsonMeasureDocument document))
    | none => elementSize keyResult 0
  else
    match result with
    | some error => elementSize keyError (unsigned (bsonMeasureDocument error))
    | none => elementSize keyError 15

def replySize (input : Mem) (offId : Int) (result : Option Mem) (errno : Int32) : Nat :=
  22 + idSize input offId + lastSize result errno

theorem measure_errorDocument (buffer : Mem) (errno : Int32) :
    bsonMeasureDocument (errorDocument buffer none errno) = 15 :=
  ((occupies_create buffer).append
    (show 5 + elementSize keyCode (bytes32 (unsigned errno.toInt)).length < 2 ^ 31 by
      rw [length_bytes32]
      decide) 0x10).declared

theorem lastSize_failure (failed : errno ≠ 0) (buffer : Mem) :
    lastSize result errno =
      elementSize keyError (unsigned (bsonMeasureDocument (errorDocument buffer result errno))) := by
  cases result with
  | some error => exact if_neg failed
  | none =>
      rw [measure_errorDocument]
      exact if_neg failed

theorem adds_id (room : idSize input offId < 2 ^ 32) :
    Adds (fun doc => bsonSetElement doc keyId input (some 0) offId) (idSize input offId) := by
  unfold idSize bsonSetElement at *
  cases found : (locateElement (some 0) offId).eval input with
  | none => exact adds_nothing
  | some element =>
      obtain ⟨type, data, elmlen⟩ := element
      rw [found] at room
      have adds := @adds_setSubelement keyId (slice input data elmlen) (by decide)
        (by rw [length_slice]; exact room) type
      rw [length_slice] at adds
      exact adds

theorem adds_document {key : CString} (short : key.bytes.length + 1 < 2 ^ 31) {document : Mem}
    (room : elementSize key (unsigned (bsonMeasureDocument document)) < 2 ^ 32) :
    Adds (fun doc => bsonSetSubdocument doc key document)
      (elementSize key (unsigned (bsonMeasureDocument document))) := by
  have adds := @adds_setSubelement key
    (slice document 0 (unsigned (bsonMeasureDocument document))) short
    (by rw [length_slice]; exact room) 0x03
  rw [length_slice] at adds
  exact adds

theorem head_adds (room : 22 + idSize input offId < 2 ^ 31) (block : Mem) :
    Occupies block (buildHead block input offId) (22 + idSize input offId) := by
  have version := (occupies_create block).append
    (show 5 + elementSize keyJsonrpc
      (bytes32 (unsigned (stringSize jsonrpcVer)) ++ jsonrpcVer.bytes ++ [0]).length < 2 ^ 31 by
        decide) 0x02
  exact (adds_id (by omega)).stores version room

theorem head_measured (room : 22 + idSize input offId < 2 ^ 32) :
    unsigned (measureHead input offId) = 22 + idSize input offId :=
  (adds_id (by omega)).measure rfl room

theorem last_adds (buffer : Mem) (room : lastSize result errno < 2 ^ 32) :
    ∃ set, Adds set (lastSize result errno) ∧ ∀ block input offId,
      buildReply block buffer input offId result errno =
          into (buildHead block input offId) (set (some (buildHead block input offId))) ∧
        measureReply buffer input offId result errno =
          wrap (measureHead input offId + (set none).2) := by
  by_cases success : errno = 0
  · unfold lastSize at *
    cases result with
    | none =>
        simp only [if_pos success] at room ⊢
        refine ⟨fun doc => bsonSetNull doc keyResult,
          adds_setSubelement (by decide) (by decide) 0x0a, fun block input offId => ?_⟩
        simp only [buildReply, measureReply, if_pos success, and_self]
    | some document =>
        simp only [if_pos success] at room ⊢
        refine ⟨fun doc => bsonSetSubdocument doc keyResult document,
          adds_document (by decide) room, fun block input offId => ?_⟩
        simp only [buildReply, measureReply, if_pos success, and_self]
  · rw [lastSize_failure success buffer] at room ⊢
    refine ⟨fun doc => bsonSetSubdocument doc keyError (errorDocument buffer result errno),
      adds_document (by decide) room, fun block input offId => ?_⟩
    simp only [buildReply, measureReply, if_neg success, and_self]

/-- `reply_len` is the size of the reply, and the reply is built within it. -/
theorem reply_fits (room : replySize input offId result errno < 2 ^ 32) (buffer : Mem) :
    unsigned (measureReply buffer input offId result errno) =
        replySize input offId result errno ∧
      ∀ block, replySize input offId result errno < 2 ^ 31 →
        Occupies block (buildReply block buffer input offId result errno)
          (replySize input offId result errno) := by
  unfold replySize at *
  obtain ⟨set, adds, both⟩ := @last_adds result errno buffer (by omega)
  refine ⟨?_, fun block small => ?_⟩
  · rw [(both buffer input offId).2]
    exact adds.measure (head_measured (by omega)) room
  · rw [(both block input offId).1]
    exact adds.stores (head_adds (by omega) block) small

/-- The addresses of what is in memory during the call: the job, the method's document, the
local buffer and the string `"jsonrpc"`.  Addresses have 32 bits, and objects do not overlap. -/
def Resident (input : Mem) (result : Option Mem) : Prop :=
  ∃ job document errorDocBuffer name : Nat,
    let objects := [(job, sizeofRpcsrvJob + (bsonMeasureDocument input).toNat),
      (document, (result.map fun document => (bsonMeasureDocument document).toNat).getD 0),
      (errorDocBuffer, 16), (name, keyJsonrpc.bytes.length + 1)]
    (∀ object ∈ objects, object.1 + object.2 ≤ 2 ^ 32) ∧
      objects.Pairwise fun first second =>
        first.1 + first.2 ≤ second.1 ∨ second.1 + second.2 ≤ first.1

/-- The method returned no document, or one with a length. -/
def HasLength (result : Option Mem) : Prop :=
  ∀ document, result = some document → 0 ≤ bsonMeasureDocument document

/-- The job and the document leave room for each other. -/
theorem Resident.sizes (resident : Resident input result) :
    (bsonMeasureDocument input).toNat +
      (result.map fun document => (bsonMeasureDocument document).toNat).getD 0 + 32 ≤ 2 ^ 32 := by
  obtain ⟨job, document, errorDocBuffer, name, inside, apart⟩ := resident
  generalize (bsonMeasureDocument input).toNat = request at *
  generalize (result.map fun document => (bsonMeasureDocument document).toNat).getD 0 = given at *
  have literal : keyJsonrpc.bytes.length + 1 = 8 := rfl
  simp only [List.mem_cons, List.not_mem_nil, or_false, forall_eq_or_imp, forall_eq,
    List.pairwise_cons, List.Pairwise.nil, literal, sizeofRpcsrvJob] at inside apart
  omega

/-- What `bson_set_element` copies starts behind the length and a name. -/
theorem locateElement_after {type : UInt8} {data elmlen : Nat}
    (found : (locateElement (some 0) offId).eval input = some (type, data, elmlen)) :
    6 ≤ data := by
  simp only [locateElement] at found
  split at found
  case isTrue => cases found
  case isFalse first =>
    simp only [Access.eval_bind] at found
    split at found
    case isTrue => cases found
    case isFalse =>
      simp only [Access.eval_bind] at found
      split at found
      case isTrue => cases found
      case isFalse =>
        simp only [Access.eval_bind] at found
        cases skipped : (skipString (0 + offId.toNat + 1)
          (((0 : Nat) : Int) + (readUnalignedInt 0).eval input).toNat).eval input with
        | none =>
            rw [skipped] at found
            cases found
        | some value =>
            have after := ((skipString_eq_some_iff _ _ _).mp skipped).after
            rw [skipped] at found
            simp only [Access.eval_bind] at found
            split at found
            case isTrue => cases found
            case isFalse =>
              cases found
              omega

theorem measureDocument_lt (doc : Mem) : bsonMeasureDocument doc < 2 ^ 31 := by
  have bound := word_lt doc 0
  rw [bsonMeasureDocument, eval_readUnalignedInt]
  unfold signed
  split <;> omega

/-- What is echoed is less than the request. -/
theorem idSize_le (id : IdInside input offId) :
    idSize input offId ≤ (bsonMeasureDocument input).toNat := by
  unfold idSize
  split
  case h_1 => exact Nat.zero_le _
  case h_2 type data elmlen found =>
    have inside := id type data elmlen found
    have after := locateElement_after found
    have name : keyId.bytes.length = 2 := rfl
    rw [elementSize, name]
    omega

/-- The whole reply has a size that 32 bits can express. -/
theorem replySize_lt (id : IdInside input offId) (document : HasLength result)
    (sizes : (bsonMeasureDocument input).toNat +
      (result.map fun document => (bsonMeasureDocument document).toNat).getD 0 + 32 ≤ 2 ^ 32) :
    replySize input offId result errno < 2 ^ 32 := by
  have short := measureDocument_lt input
  have echoed := idSize_le id
  have names : keyResult.bytes.length = 6 ∧ keyError.bytes.length = 5 := ⟨rfl, rfl⟩
  unfold replySize lastSize elementSize
  rw [names.1, names.2]
  cases result with
  | none => split <;> simp only [] <;> omega
  | some given =>
      have length := document given rfl
      have bound := measureDocument_lt given
      have counted : unsigned (bsonMeasureDocument given) = (bsonMeasureDocument given).toNat :=
        unsigned_of_nonneg length (by omega)
      simp only [Option.map_some, Option.getD_some] at sizes
      split <;> simp only [counted] <;> omega

/-! ## Every call -/

/-- The effects of a pass whose allocation is granted. -/
def granted (block buffer input : Mem) (offId : Int) (result : Option Mem) (errno : Int32) :
    List Effect :=
  let replyLen := measureReply buffer input offId result errno
  .read .job :: onResult result .read ++
    .malloc (unsigned replyLen) true :: .read .job :: .free .job ::
      (onResult result .read ++ onResult result .free ++
        [.source (buildReply block buffer input offId result errno) replyLen, .free .output])

/-- The effects of a pass whose allocation is refused, without those that follow. -/
def refused (size : Nat) (result : Option Mem) : List Effect :=
  .read .job :: onResult result .read ++ .malloc size false :: onResult result .free

/-- How a call of `send_reply` can go: the reply is allocated at once, or not at all, or when
it has become an error. -/
theorem sendReply_cases (malloc : Allocator) (buffer input : Mem) (offId : Int)
    (result : Option Mem) (errno : Int32) :
    (∃ block, malloc 0 (unsigned (measureReply buffer input offId result errno)) = some block ∧
        sendReply malloc buffer input offId result errno =
          granted block buffer input offId result errno) ∨
      (∃ size, sendReply malloc buffer input offId result errno =
        refused size result ++ [.free .job]) ∨
      (∃ first second, sendReply malloc buffer input offId result errno =
        refused first result ++ refused second none ++ [.free .job]) ∨
      ∃ size block, malloc 1 (unsigned (measureReply buffer input offId none
          jsonrpcErrInternalError)) = some block ∧
        sendReply malloc buffer input offId result errno =
          refused size result ++ granted block buffer input offId none jsonrpcErrInternalError := by
  simp only [sendReply, replyPass]
  cases first : malloc 0 (unsigned (measureReply buffer input offId result errno)) with
  | some block => exact .inl ⟨block, rfl, rfl⟩
  | none =>
      refine .inr ?_
      by_cases failed : errno ≠ 0
      · refine .inl ⟨unsigned (measureReply buffer input offId result errno), ?_⟩
        simp only [if_pos failed, refused, List.cons_append, List.append_assoc]
      refine .inr ?_
      cases second : malloc 1 (unsigned (measureReply buffer input offId none
          jsonrpcErrInternalError)) with
      | none =>
          refine .inl ⟨unsigned (measureReply buffer input offId result errno),
            unsigned (measureReply buffer input offId none jsonrpcErrInternalError), ?_⟩
          simp only [if_neg failed, refused, onResult, List.cons_append, List.append_assoc,
            List.nil_append]
      | some block =>
          refine .inr ⟨unsigned (measureReply buffer input offId result errno), block, rfl, ?_⟩
          simp only [if_neg failed, refused, granted, onResult, List.cons_append,
            List.append_assoc, List.nil_append]

/-- Nothing is sent from blocks that were refused. -/
theorem stores_refused {size : Nat} {rest : List Effect} (stores : StoresInside malloc rest) :
    StoresInside malloc (refused size result ++ rest) := by
  intro output length listed
  have later : Effect.source output length ∈ rest := by
    cases result <;> simpa [refused, onResult] using listed
  obtain ⟨attempt, block, given, asked, unchanged⟩ := stores output length later
  exact ⟨attempt, block, given, List.mem_append_right _ asked, unchanged⟩

/-- The reply is stored inside the block that was granted for it. -/
theorem stores_granted {attempt : Nat} {block : Mem}
    (limited : ∀ attempt size, 2 ^ 31 ≤ size → malloc attempt size = none)
    (given : malloc attempt (unsigned (measureReply buffer input offId result errno)) =
      some block) (room : replySize input offId result errno < 2 ^ 32) :
    StoresInside malloc (granted block buffer input offId result errno) := by
  obtain ⟨size, built⟩ := reply_fits room buffer
  have small : replySize input offId result errno < 2 ^ 31 := by
    by_contra large
    rw [size, limited attempt _ (by omega)] at given
    cases given
  intro output length listed
  have same : output = buildReply block buffer input offId result errno ∧
      length = measureReply buffer input offId result errno := by
    cases result <;> simpa [granted, onResult] using listed
  obtain ⟨rfl, rfl⟩ := same
  refine ⟨attempt, block, given, ?_, fun index behind => ?_⟩
  · cases result <;> simp [granted, onResult]
  · exact (built block small).behind index (size ▸ behind)

theorem stores_nothing : StoresInside malloc [.free .job] := by
  intro output length listed
  simp at listed

/-- Whatever its allocations give, a call of `send_reply` is proper. -/
theorem proper_sendReply
    (limited : ∀ attempt size, 2 ^ 31 ≤ size → malloc attempt size = none)
    (id : IdInside input offId) (document : HasLength result) (resident : Resident input result) :
    Proper malloc result (sendReply malloc buffer input offId result errno) := by
  have short := measureDocument_lt input
  have own : replySize input offId result errno < 2 ^ 32 :=
    replySize_lt id document resident.sizes
  have plain : replySize input offId none jsonrpcErrInternalError < 2 ^ 32 :=
    replySize_lt id nofun (by simp only [Option.map_none, Option.getD_none]; omega)
  rcases sendReply_cases malloc buffer input offId result errno with
    ⟨block, given, effects⟩ | ⟨size, effects⟩ | ⟨first, second, effects⟩ |
      ⟨size, block, given, effects⟩
  · have stores := stores_granted limited given own
    rw [effects]
    cases result <;> refine ⟨?_, ?_, ?_, ?_, ?_, stores⟩ <;>
      simp [granted, onResult, passes, frees, QuietAfterFree]
  · have stores := @stores_refused malloc result size _ stores_nothing
    rw [effects]
    cases result <;> refine ⟨?_, ?_, ?_, ?_, ?_, stores⟩ <;>
      simp [refused, onResult, passes, frees, QuietAfterFree]
  · have stores := @stores_refused malloc result first _
      (@stores_refused malloc none second _ stores_nothing)
    rw [effects, List.append_assoc]
    cases result <;> refine ⟨?_, ?_, ?_, ?_, ?_, stores⟩ <;>
      simp [refused, onResult, passes, frees, QuietAfterFree]
  · have stores := @stores_refused malloc result size _ (stores_granted limited given plain)
    rw [effects]
    cases result <;> refine ⟨?_, ?_, ?_, ?_, ?_, stores⟩ <;>
      simp [refused, granted, onResult, passes, frees, QuietAfterFree]

/-- `send_reply` for every job with its id inside the request, every document and every
error number: it returns, and handles what it is given properly. -/
theorem send_reply_lifetimes
    (limited : ∀ attempt size, 2 ^ 31 ≤ size → malloc attempt size = none)
    (id : IdInside input offId) (document : HasLength result) (resident : Resident input result)
    (buffer : Mem) (errno : Int32) :
    ∃ effects, Proper malloc result effects ∧ ∀ passes, 2 ≤ passes →
      sendReplyFrom malloc input offId passes 0 (start buffer result errno) = some effects :=
  ⟨_, proper_sendReply limited id document resident, fun _ enough => sendReplyFrom_eq enough⟩

/-- An allocator that refuses its first request, and those an `int` cannot express. -/
def strained : Allocator := fun attempt size =>
  if attempt = 0 ∨ 2 ^ 31 ≤ size then none else some fun _ => 0xff

def emptyResult : Mem := bsonCreateEmptyDocument fun _ => 0xaa

theorem send_reply_lifetimes_strained :
    ∃ effects, Proper strained (some emptyResult) effects ∧ ∀ passes, 2 ≤ passes →
      sendReplyFrom strained pinged 35 passes 0 (start (fun _ => 0xcc) (some emptyResult) 0) =
        some effects := by
  have limited : ∀ attempt size, 2 ^ 31 ≤ size → strained attempt size = none :=
    fun _ _ large => if_pos (.inr large)
  have located : (locateElement (some 0) 35).eval pinged = some (0x10, 39, 4) := rfl
  have request : bsonMeasureDocument pinged = 44 := rfl
  have given : bsonMeasureDocument emptyResult = 5 := rfl
  have id : IdInside pinged 35 := by
    intro type data elmlen found
    rw [located] at found
    cases found
    rw [request]
    decide
  have document : HasLength (some emptyResult) := by
    intro other same
    cases same
    decide
  have resident : Resident pinged (some emptyResult) := by
    refine ⟨0x1000, 0x2000, 0x3000, 0x4000, ?_⟩
    rw [Option.map_some, Option.getD_some, request, given]
    decide
  exact send_reply_lifetimes limited id document resident _ 0

end PeridotSw.Rpc.ReplyLifetimes
