import PeridotSw.Rpc.AsyncReplies
import PeridotSw.Rpc.ReplyLifetimes
import PeridotSw.Rubic.Agent
import PeridotSw.Rubic.InfoCache

/-!
# What the server does about a queued request

The server hands a request for `rubic.queue` to the agent and forgets it if the queue has taken
it.  The agent gives it back with a result or an error, and the server replies then.  Either way
a request is finished by the same effects.
-/

namespace PeridotSw.Rubic.QueueEffects

open PeridotSw.Machine.Memory
open PeridotSw.Machine.Word
open PeridotSw.Bson.Write
open PeridotSw.Bson.Document (Elements Value HoldsDocument Built length_documentBytes)
open PeridotSw.Bson.Lookup (HoldsDocument.declared)
open PeridotSw.Rpc.Sink (Allocator)
open PeridotSw.Rpc.Reply
open PeridotSw.Rpc.ReplyLaw
open PeridotSw.Rpc.AsyncReplies
open PeridotSw.Rpc.ReplyLifetimes (frees sendReply_cases granted refused)
open PeridotSw.Rubic.Agent

/-! ## The server and the agent -/

def nameQueue : CString :=
  .of [0x72, 0x75, 0x62, 0x69, 0x63, 0x2e, 0x71, 0x75, 0x65, 0x75, 0x65] (Eq.refl true)

/-- The methods in the order they were registered, the queue among them. -/
structure Registered where
  front : List MethodEntry
  back : List MethodEntry
  others : ∀ entry ∈ front, entry.name ≠ nameQueue

def Registered.methods (registered : Registered) (errno : Int32) : List MethodEntry :=
  registered.front ++ ⟨nameQueue, .async fun _ _ => errno⟩ :: registered.back

/-- What the service of a request meets, and the callback about it. -/
structure Surroundings where
  malloc : Allocator
  buffer : Mem
  stale : Fin 4 → Int
  callbackMalloc : Allocator
  callbackBuffer : Mem
  callbackStale : Int

/-- The calls of `peridot_rpc_server_async_callback` for a request. -/
def answersTo (number : Nat) (events : List Event) : List (Option Mem × Int32) :=
  events.filterMap fun event =>
    match event with
    | .answer context result errno =>
        if context = some number then some (result, errno) else none
    | .free _ => none

section

variable {count : Nat} (registered : Registered)

/-- What the service does once the queue has returned. -/
def serviceEffects (meets : Surroundings) (input : Mem) : QueuePhase count → List Effect
  | .returned errno =>
      peridotRpcServerService meets.malloc (registered.methods errno) meets.buffer meets.stale
        (some input)
  | _ => []

def callbackEffects (meets : Surroundings) (input : Mem) (reported : Option Mem × Int32) :
    List Effect :=
  peridotRpcServerAsyncCallback meets.callbackMalloc meets.callbackBuffer meets.callbackStale
    input reported.1 reported.2

/-- What the server has done about a request so far. -/
def jobEffects (surroundings : Nat → Surroundings) (state : State count) (number : Nat) :
    List Effect :=
  match state.calls number with
  | none => []
  | some call =>
      serviceEffects registered (surroundings number) call.input call.phase ++
        (answersTo number state.events).flatMap
          (callbackEffects (surroundings number) call.input)

end

/-! ## Requests -/

/-- A request for the queue, with its parameters. -/
structure Asks (content : Elements) (input : Mem) (params : Option Nat) : Prop where
  held : HoldsDocument input 0 content
  accepted : ¬Rejected content
  named : methodName content = some nameQueue
  params : params = paramsPointer content

variable {count : Nat}

/-! ## What is done about a request -/

section

variable {content : Elements} {input : Mem} {params : Option Nat}

theorem find_queue (registered : Registered) (errno : Int32) :
    ((registered.methods errno).find? fun entry => entry.name = nameQueue) =
      some ⟨nameQueue, .async fun _ _ => errno⟩ := by
  have elsewhere : (registered.front.find? fun entry => entry.name = nameQueue) = none :=
    List.find?_eq_none.mpr fun entry listed same =>
      registered.others entry listed (of_decide_eq_true same)
  rw [Registered.methods, List.find?_append, elsewhere, Option.none_or, List.find?_cons_of_pos]
  exact decide_eq_true rfl

theorem dispatched_queue (asks : Asks content input params) (registered : Registered)
    (errno : Int32) (stale : Fin 4 → Int) :
    dispatched (registered.methods errno) stale input =
      some (.async fun _ _ => errno, params, position content keyId) := by
  obtain ⟨held, accepted, named, rfl⟩ := asks
  simp only [Rejected, not_or, Bool.not_eq_false] at accepted
  obtain ⟨isKnown, isRight, -⟩ := accepted
  have count := occurring_request content stale
  rcases getString_method held with ⟨name, place, asked, got, bytes⟩ | ⟨missing, -⟩
  · rw [named] at asked
    cases asked
    have found : (findMethod place (registered.methods errno)).eval input =
        some ⟨nameQueue, .async fun _ _ => errno⟩ :=
      (eval_findMethod bytes _).trans (find_queue registered errno)
    simp only [dispatched, eval_requestProps held, offsetAt, List.getElem?_cons_zero,
      List.getElem?_cons_succ, Option.map_some, Option.getD_some, eval_versionMatches held, count,
      isKnown, isRight, Bool.true_eq_false, if_false, got, Option.bind_eq_bind, Option.bind_some,
      found, getSubdocument_params held]
    rfl
  · rw [named] at missing
    cases missing

/-- A request is done with: it is replied to, if it has an id, and released. -/
def finished (malloc : Allocator) (buffer input : Mem) (offId : Int) (result : Option Mem)
    (errno : Int32) : List Effect :=
  if offId < 0 then onResult result .free ++ [.free .job]
  else sendReply malloc buffer input offId result errno

theorem serviceEffects_returned (asks : Asks content input params) (registered : Registered)
    (meets : Surroundings) (errno : Int32) :
    serviceEffects registered meets input (.returned errno : QueuePhase count) =
      if errno = 0 then []
      else finished meets.malloc meets.buffer input (position content keyId) none errno := by
  have found := dispatched_queue asks registered errno meets.stale
  rw [serviceEffects, peridotRpcServerService, judge_dispatched found, called]
  dsimp only
  by_cases zero : errno = 0
  · rw [if_pos zero, if_pos zero]
  · rw [if_neg zero, if_neg zero, finished]
    by_cases absent : position content keyId < 0
    · rw [if_pos absent, if_pos absent]
    · rw [if_neg absent, if_neg absent]
      rfl

theorem callbackEffects_eq (asks : Asks content input params) (meets : Surroundings)
    (reported : Option Mem × Int32) :
    callbackEffects meets input reported =
      finished meets.callbackMalloc meets.callbackBuffer input (position content keyId)
        (if reported.2 = 0 then reported.1 else none) reported.2 := by
  have registered : Registered := ⟨[], [], List.forall_mem_nil _⟩
  have alone' := id_dispatched (dispatched_queue asks registered 0 meets.stale)
    meets.callbackStale
  rw [callbackEffects, peridotRpcServerAsyncCallback, asyncReply, alone', alone, finished]
  dsimp only
  by_cases absent : position content keyId < 0
  · rw [if_pos absent, if_pos absent, if_neg (by decide)]
  · rw [if_neg absent, if_neg absent, if_pos rfl]
    rfl

theorem frees_sendReply (malloc : Allocator) (buffer input : Mem) (offId : Int)
    (result : Option Mem) (errno : Int32) :
    frees .job (sendReply malloc buffer input offId result errno) = 1 ∧
      (sources (sendReply malloc buffer input offId result errno)).length ≤ 1 := by
  rcases sendReply_cases malloc buffer input offId result errno with
    ⟨block, -, effects⟩ | ⟨size, effects⟩ | ⟨first, second, effects⟩ | ⟨size, block, -, effects⟩
  all_goals
    rw [effects]
    cases result <;> simp [granted, refused, onResult, frees, sources]

theorem frees_finished (malloc : Allocator) (buffer input : Mem) (offId : Int)
    (result : Option Mem) (errno : Int32) :
    frees .job (finished malloc buffer input offId result errno) = 1 ∧
      (sources (finished malloc buffer input offId result errno)).length ≤ 1 := by
  unfold finished
  split
  · cases result <;> simp [onResult, frees, sources]
  · exact frees_sendReply malloc buffer input offId result errno

/-! ## Replies -/

/-- A document of a number under a short key, or no document. -/
def Reportable (reported : Option Mem × Int32) : Prop :=
  reported.1 = none ∨ reported.2 = 0 ∧ ∃ block key number, key.bytes.length ≤ 6 ∧
    reported.1 = some (int32Document block key number)

theorem length_int32 {key : CString} (short : key.bytes.length ≤ 6) (number : Int32) :
    (Elements.append .empty key (.int32 number)).encode.length ≤ 12 := by
  rw [InfoCache.length_append_encode, Elements.encode, Value.encode, length_bytes32,
    List.length_nil]
  omega

theorem holds_int32Document (block : Mem) {key : CString} (short : key.bytes.length ≤ 6)
    (number : Int32) :
    HoldsDocument (int32Document block key number) 0 (.append .empty key (.int32 number)) := by
  have length := length_int32 short number
  exact (Built.append (.empty block) (.int32 number) (by omega)).holds.1

/-- What is reported can be the last member of a reply. -/
theorem member_of_reportable {reported : Option Mem × Int32} (reportable : Reportable reported) :
    ∃ key value, Member reported key value ∧ key.bytes.length + value.encode.length ≤ 40 := by
  obtain ⟨result, errno⟩ := reported
  rcases reportable with silent | ⟨zero, block, key, number, short, document⟩
  · cases silent
    by_cases zero : errno = 0
    · rw [zero]
      exact ⟨_, _, .null, by decide⟩
    · have length := length_int32 (show keyCode.bytes.length ≤ 6 by decide) errno
      refine ⟨_, _, .error zero, ?_⟩
      rw [Value.encode, length_documentBytes]
      have short : keyError.bytes.length = 5 := rfl
      omega
  · cases document
    have length := length_int32 short number
    refine ⟨_, _, .result (holds_int32Document block short number), ?_⟩
    rw [Value.encode, length_documentBytes]
    have short : keyResult.bytes.length = 6 := rfl
    omega

theorem length_first {key : CString} {value : Value} (content : Elements)
    (found : first key content = some value) :
    key.bytes.length + value.encode.length + 2 ≤ content.encode.length := by
  match content with
  | .empty => cases found
  | .append front other last =>
      rw [InfoCache.length_append_encode]
      rw [first] at found
      cases earlier : first key front with
      | some value' =>
          rw [earlier] at found
          cases found
          have ih := length_first front earlier
          omega
      | none =>
          rw [earlier] at found
          obtain ⟨same, last'⟩ := Option.ite_none_right_eq_some.mp found
          cases last'
          rw [same]
          omega

/-- A reply is not much longer than its request. -/
theorem length_replyOf {key : CString} {value : Value}
    (short : key.bytes.length + value.encode.length ≤ 40) :
    (replyOf (first keyId content) key value).encode.length ≤ content.encode.length + 70 := by
  have version : (Elements.append .empty keyJsonrpc (.string jsonrpcVer)).encode.length = 17 := rfl
  rw [replyOf, InfoCache.length_append_encode]
  unfold replyHead
  cases found : first keyId content with
  | none =>
      dsimp only
      omega
  | some id =>
      have length := length_first content found
      dsimp only
      rw [InfoCache.length_append_encode]
      omega

theorem finished_replies (held : HoldsDocument input 0 content)
    (small : content.encode.length < 2 ^ 30) {reported : Option Mem × Int32}
    (reportable : Reportable reported) {malloc : Allocator}
    (grants : ∀ attempt size, size < 2 ^ 31 → (malloc attempt size).isSome) (buffer : Mem) :
    if first keyId content = none then
      sources (finished malloc buffer input (position content keyId) reported.1 reported.2) = []
    else
      ∃ key value output, Member reported key value ∧
        HoldsDocument output 0 (replyOf (first keyId content) key value) ∧
          sources (finished malloc buffer input (position content keyId) reported.1 reported.2) =
            [(output, bsonMeasureDocument output)] := by
  unfold finished
  by_cases absent : first keyId content = none
  · rw [if_pos absent, if_pos ((position_neg_iff keyId content).mpr absent)]
    cases reported.1 <;> rfl
  · rw [if_neg absent, if_neg (mt (position_neg_iff keyId content).mp absent)]
    obtain ⟨key, value, member, short⟩ := member_of_reportable reportable
    have length := @length_replyOf content key value short
    have room : (replyOf (first keyId content) key value).encode.length + 5 < 2 ^ 31 := by omega
    have number : (if reported.1.isSome then 0 else reported.2) = reported.2 := by
      rcases reportable with silent | ⟨zero, -⟩
      · rw [silent]
        rfl
      · rw [zero, ite_self]
    have measured := (reply_built held member room buffer buffer).2
    rw [number] at measured
    obtain ⟨block, given⟩ := Option.isSome_iff_exists.mp (grants 0
      (unsigned (measureReply buffer input (position content keyId) reported.1 reported.2)) (by
        rw [measured, unsigned_of_nonneg (by omega) (by omega)]
        omega))
    obtain ⟨output, size⟩ := reply_built held member room block buffer
    rw [number] at output size
    refine ⟨key, value, _, member, output, ?_⟩
    rw [sources_sendReply given, size]
    exact congrArg (fun length => [(_, length)]) (HoldsDocument.declared output).symm

end

end PeridotSw.Rubic.QueueEffects
