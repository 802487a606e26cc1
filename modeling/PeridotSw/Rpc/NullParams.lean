import PeridotSw.Client.Handlers
import PeridotSw.Rpc.ReplyLaw
import PeridotSw.Rubic.Agent

/-!
# Requests without parameters

A method is handed `NULL` when the element `params` of a request is missing or is neither a
document nor an array.  All methods but `fs.cleanup` begin with `bson_get_props`, which reads
through the pointer it is given whatever it is.
-/

namespace PeridotSw.Rpc.NullParams

open PeridotSw.Machine.Memory
open PeridotSw.Machine.Noted
open PeridotSw.Bson.Read
open PeridotSw.Bson.Document
open PeridotSw.Bson.Lookup
open PeridotSw.Bson.Pointers
open PeridotSw.Rpc.Reply
open PeridotSw.Rpc.ReplyLaw
open PeridotSw.Client.Handlers hiding keyMethod keyResult
open PeridotSw.Rubic.Agent (Worker Setting Context esrch ebusy keyTid keyName nameStart
  QueuePhase queuePhase)

/-! ## The methods -/

/-- The methods that `peridot_client_fs_init` registers, and `rubic.queue`. -/
inductive Method where
  | fsOpen
  | fsClose
  | fsRead
  | fsHash
  | fsWrite
  | fsLseek
  | fsIoctl
  | fsCleanup
  | rubicQueue
  deriving DecidableEq

/-- What is outside the service: that of the file client, the workers as the queue finds
them, and what lies at address zero. -/
structure System where
  outside : Outside
  count : Nat
  workers : Fin count → Worker
  low : Mem

variable (system : System)

def System.memories (input : Mem) : Memories := ⟨input, system.low⟩

def rubicAgentMethodQueue (input : Mem) (stale : Fin 3 → Int) (params : Option Nat) :
    Through Int32 := do
  let tidProps ← getProps (system.memories input) params [⟨keyTid, stale 0⟩]
  let tid ← getInt32 (system.memories input) params (offsetAt tidProps.2 0) (-1)
  if inside : 0 ≤ tid ∧ tid < system.count then
    let worker := system.workers ⟨tid.toNat, by omega⟩
    pure (if worker.context.isSome then -ebusy else 0)
  else do
    let nameProps ← getProps (system.memories input) params [⟨keyName, stale 1⟩]
    let name ← getString (system.memories input) params (offsetAt nameProps.2 0)
    if stringIs (system.memories input) name nameStart then
      let idle := (List.finRange system.count).any fun index =>
        (system.workers index).state = .idle
      pure (if idle then 0 else -ebusy)
    else
      pure (-esrch)

def Method.call (method : Method) (input : Mem) (stale : Fin 3 → Int) (params : Option Nat) :
    Through Outcome :=
  let memories := system.memories input
  match method with
  | .fsOpen => peridotClientFsOpen system.outside memories stale params
  | .fsClose => peridotClientFsClose system.outside memories stale params
  | .fsRead => peridotClientFsRead system.outside memories stale params
  | .fsHash => peridotClientFsHash system.outside memories stale params
  | .fsWrite => peridotClientFsWrite system.outside memories stale params
  | .fsLseek => peridotClientFsLseek system.outside memories stale params
  | .fsIoctl => peridotClientFsIoctl system.outside memories stale params
  | .fsCleanup => peridotClientFsCleanup params
  | .rubicQueue => do
      let errno ← rubicAgentMethodQueue system input stale params
      pure (none, errno)

/-- A registration. -/
structure Registered where
  name : CString
  method : Method

/-! ## The service -/

/-- `peridot_rpc_server_find_method`. -/
def findRegistered (name : Nat) : List Registered → Access (Option Registered)
  | [] => pure none
  | entry :: rest => do
      if ← strcmpEq entry.name.bytes name then
        pure (some entry)
      else
        findRegistered name rest

/-- A document a method returns, in a block of its own. -/
def documentMem (content : Elements) : Mem := ((documentBytes content.encode).getD · 0)

/-- What `peridot_rpc_server_service` makes of what a method returns. -/
def verdictOf (offId : Int) (method : Method) (outcome : Outcome) : Verdict :=
  let result := outcome.1.map documentMem
  if method = .rubicQueue ∧ outcome.2 = 0 then .queued
  else if offId < 0 then .notification result
  else .reply result (if result.isSome then 0 else outcome.2)

/-- `peridot_rpc_server_service` up to the reply, with what it reads documents through. -/
def service (methods : List Registered) (staleService : Fin 4 → Int) (stale : Fin 3 → Int)
    (input : Mem) : Through Verdict := do
  let memories := system.memories input
  let props ← getProps memories (some 0) (requestParams staleService)
  let offId := offsetAt props.2 3
  if props.1 ≤ 0 then
    pure (.reply none jsonrpcErrParseError)
  else do
    let version ← getString memories (some 0) (offsetAt props.2 0)
    if stringIs memories version jsonrpcVer = false then
      pure (.reply none jsonrpcErrInvalidRequest)
    else do
      match ← getString memories (some 0) (offsetAt props.2 1) with
      | none => pure (.reply none jsonrpcErrInvalidRequest)
      | some name =>
          match (findRegistered name methods).eval input with
          | none =>
              pure (if offId < 0 then .notification none
                else .reply none jsonrpcErrMethodNotFound)
          | some entry => do
              let params ← getSubdocument memories (some 0) (offsetAt props.2 2)
              let outcome ← entry.method.call system input stale params
              pure (verdictOf offId entry.method outcome)

def Registered.entry (stale : Fin 3 → Int) (entry : Registered) : MethodEntry where
  name := entry.name
  handler :=
    if entry.method = .rubicQueue then
      .async fun input params => (entry.method.call system input stale params).value.2
    else
      .sync fun input params =>
        let outcome := (entry.method.call system input stale params).value
        (outcome.1.map documentMem, outcome.2)

variable {system} {methods : List Registered} {stale : Fin 3 → Int} {input : Mem}

/-- What the queue answers when no other thread runs after the phase. -/
def System.settles (system : System) : QueuePhase system.count → Int32
  | .specific index => if (system.workers index).context.isSome then -ebusy else 0
  | .start _ =>
      if (List.finRange system.count).any fun index => (system.workers index).state = .idle then 0
      else -ebusy
  | .post _ => 0
  | .returned errno => errno

/-- The queue begins as the agent has it. -/
theorem rubicAgentMethodQueue_value (runtimes : List CString) (id : Nat) (params : Option Nat) :
    (rubicAgentMethodQueue system input stale params).value =
      system.settles (queuePhase ⟨runtimes, system.low⟩ system.count ⟨id, input, params⟩
        (stale 0) (stale 1)) := by
  have props (list : List Param) : (getProps (system.memories input) params list).value.2 =
      Rubic.Agent.props ⟨runtimes, system.low⟩ ⟨id, input, params⟩ list := by
    cases params <;> rfl
  have memory : (system.memories input).input = input := rfl
  unfold rubicAgentMethodQueue queuePhase
  simp only [Noting.value_bind, props, value_getInt32, memory]
  split
  case isTrue inside => rfl
  case isFalse outside =>
      simp only [Noting.value_bind, Noting.value_ite, Noting.value_pure, props, value_getString,
        memory]
      generalize offsetAt _ 0 = offset
      have asked : stringIs (system.memories input)
          ((bsonGetString params offset).eval input) nameStart =
            Rubic.Agent.stringIs ⟨id, input, params⟩ offset nameStart := by
        unfold stringIs Rubic.Agent.stringIs Rubic.Agent.stringAt
        cases (bsonGetString params offset).eval input <;> rfl
      rw [asked, apply_ite system.settles]
      rfl

theorem eval_findMethod_map (name : Nat) :
    (findMethod name (methods.map (Registered.entry system stale))).eval input =
      ((findRegistered name methods).eval input).map (Registered.entry system stale) := by
  induction methods with
  | nil => rfl
  | cons entry rest ih =>
      simp only [List.map_cons, findMethod, findRegistered, Access.eval_bind]
      have name' : (entry.entry system stale).name = entry.name := rfl
      rw [name']
      split
      · rfl
      · exact ih

/-- What a method answers, as the service that replies has it. -/
theorem verdictOf_call (offId offParams : Int) (entry : Registered) (methods : List MethodEntry)
    {name : Nat}
    (found : (findMethod name methods).eval input = some (entry.entry system stale)) :
    verdictOf offId entry.method (entry.method.call system input stale
        ((bsonGetSubdocument (some 0) offParams).eval input)).value =
      dispatch methods input name offParams offId := by
  unfold dispatch verdictOf
  rw [found]
  by_cases queue : entry.method = .rubicQueue
  · simp only [Registered.entry, queue, if_true, true_and]
    rfl
  · simp only [Registered.entry, queue, if_false, false_and]

theorem stringIs_version (offset : Int) :
    stringIs (system.memories input) ((bsonGetString (some 0) offset).eval input) jsonrpcVer =
      (versionMatches offset).eval input := by
  unfold versionMatches stringIs
  rw [Access.eval_bind]
  cases (bsonGetString (some 0) offset).eval input <;> rfl

/-- The service is the one that replies. -/
theorem service_value (staleService : Fin 4 → Int) :
    (service system methods staleService stale input).value =
      (judge (methods.map (Registered.entry system stale)) staleService input).1 := by
  have memory : (system.memories input).input = input := rfl
  simp only [service, judge, Noting.value_bind, Noting.value_ite, Noting.value_pure,
    value_getProps, value_getString, memory]
  generalize (bsonGetProps 0 (requestParams staleService)).eval input = props
  rw [stringIs_version]
  by_cases nothing : props.1 ≤ 0
  · rw [if_pos nothing, if_pos nothing]
  rw [if_neg nothing, if_neg nothing]
  by_cases wrong : (versionMatches (offsetAt props.2 0)).eval input = false
  · rw [if_pos wrong, if_pos wrong]
  rw [if_neg wrong, if_neg wrong]
  cases (bsonGetString (some 0) (offsetAt props.2 1)).eval input with
  | none => rfl
  | some name =>
      have looked := @eval_findMethod_map system methods stale input name
      cases found : (findRegistered name methods).eval input with
      | none =>
          rw [found] at looked
          simp only [dispatch, looked, found, Noting.value_pure, Option.map_none]
          split <;> rfl
      | some entry =>
          rw [found] at looked
          have answered := verdictOf_call (offsetAt props.2 3) (offsetAt props.2 2) entry _ looked
          simp only [found, Noting.value_bind, Noting.value_pure, value_getSubdocument]
          exact answered

/-! ## What is read through -/

variable {params : Option Nat}

theorem all_queue (notNull : NotNull params) :
    (rubicAgentMethodQueue system input stale params).All NotNull := by
  refine .bind (all_getProps notNull _) fun tidProps => .bind (all_getInt32 _ _) fun tid => ?_
  split
  · exact Noting.all_pure _
  · refine .bind (all_getProps notNull _) fun nameProps => .bind (all_getString _) fun name => ?_
    exact .ite (Noting.all_pure _) (Noting.all_pure _)

/-- With parameters, no method reads through `NULL`. -/
theorem all_call (notNull : NotNull params) (method : Method) :
    (method.call system input stale params).All NotNull := by
  cases method with
  | fsOpen => exact all_open notNull stale
  | fsClose => exact all_close notNull stale
  | fsRead => exact all_read notNull stale
  | fsHash => exact all_hash notNull stale
  | fsWrite => exact all_write notNull stale
  | fsLseek => exact all_lseek notNull stale
  | fsIoctl => exact all_ioctl notNull stale
  | fsCleanup => exact Noting.all_pure _
  | rubicQueue => exact .bind (all_queue notNull) fun _ => Noting.all_pure _

/-- Without parameters, all methods but `fs.cleanup` read through `NULL`. -/
theorem not_all_call {method : Method} (uses : method ≠ .fsCleanup) :
    ¬(method.call system input stale none).All NotNull := by
  cases method with
  | fsCleanup => exact absurd rfl uses
  | rubicQueue =>
      exact Noting.not_all_bind _ (List.mem_append_left _ (.head _)) fun notNull => notNull rfl
  | _ => exact not_all_getProps _ _

/-! ## The law -/

variable {request : Elements} {name : CString}

/-- `findRegistered` goes through the registrations in their order. -/
theorem eval_findRegistered {place : Nat} (held : Holds input place (name.bytes ++ [0]))
    (methods : List Registered) :
    (findRegistered place methods).eval input = methods.find? fun entry => entry.name = name := by
  induction methods with
  | nil => rfl
  | cons entry rest ih =>
      simp only [findRegistered, Access.eval_bind, List.find?_cons]
      by_cases same : entry.name = name
      · rw [if_pos ((eval_strcmpEq held).mpr same), decide_eq_true same]
        rfl
      · rw [if_neg fun equal => same ((eval_strcmpEq held).mp equal), ih, decide_eq_false same]

/-- A request that names a method has one of the keys that are searched for. -/
theorem occurring_pos (asked : methodName request = some name) (staleService : Fin 4 → Int) :
    ¬((occurring request (requestParams staleService) : Nat) : Int) ≤ 0 := by
  rw [occurring_request]
  intro unknown
  have absent : first keyMethod request = none := by
    have unlisted := List.any_eq_false.mp unknown keyMethod (.tail _ (.head _))
    exact Option.not_isSome_iff_eq_none.mp unlisted
  rw [methodName, absent] at asked
  cases asked

/-- A request of another version is refused without a call. -/
theorem service_otherVersion (held : HoldsDocument input 0 request)
    (asked : methodName request = some name) (other : versionRight request = false)
    (staleService : Fin 4 → Int) :
    (service system methods staleService stale input).All NotNull ∧
      (service system methods staleService stale input).value =
        .reply none jsonrpcErrInvalidRequest := by
  have memory : (system.memories input).input = input := rfl
  have job : NotNull (some 0) := Option.some_ne_none 0
  have props := eval_requestProps held staleService
  have count := occurring_pos asked staleService
  have version := (@stringIs_version system input (position request keyJsonrpc)).trans
    ((eval_versionMatches held).trans other)
  unfold service
  simp only [Noting.all_bind, all_getProps job, all_getString, true_and, value_getProps,
    value_getString, memory, props, count, if_false, offsetAt, List.getElem?_cons_zero,
    Option.map_some, Option.getD_some, version, if_true, Noting.all_pure, Noting.value_bind,
    Noting.value_pure]

/-- The service itself reads through its own pointer, and calls the method asked for. -/
theorem all_service_iff (held : HoldsDocument input 0 request)
    (asked : methodName request = some name) (isRight : versionRight request = true)
    {entry : Registered}
    (registered : methods.find? (fun entry => entry.name = name) = some entry)
    (staleService : Fin 4 → Int) :
    (service system methods staleService stale input).All NotNull ↔
      (entry.method.call system input stale (paramsPointer request)).All NotNull := by
  have memory : (system.memories input).input = input := rfl
  have job : NotNull (some 0) := Option.some_ne_none 0
  obtain ⟨name', place, asked', got, bytes⟩ | ⟨missing, -⟩ := getString_method held
  case inr => exact absurd (asked.symm.trans missing) (Option.some_ne_none name)
  cases asked.symm.trans asked'
  have props := eval_requestProps held staleService
  have count := occurring_pos asked staleService
  have version := (@stringIs_version system input (position request keyJsonrpc)).trans
    ((eval_versionMatches held).trans isRight)
  have looked := (eval_findRegistered bytes methods).trans registered
  have params := getSubdocument_params held
  unfold service
  simp only [Noting.all_bind, all_getProps job, all_getString, all_getSubdocument, true_and,
    value_getProps, value_getString, value_getSubdocument, memory, props, count, if_false,
    offsetAt, List.getElem?_cons_zero, List.getElem?_cons_succ, Option.map_some,
    Option.getD_some, version, Bool.true_eq_false, got, looked, params, Noting.all_pure, and_true]

/-- The verdict is an error, unless no answer is expected. -/
def Refused : Verdict → Prop
  | .reply none errno => errno ≠ 0
  | .notification none => True
  | _ => False

/-- The request survives: nothing is read through `NULL`, and a method that uses parameters
answers their absence with an error. -/
def Survives (system : System) (methods : List Registered) (staleService : Fin 4 → Int)
    (stale : Fin 3 → Int) (input : Mem) (request : Elements) (method : Method) : Prop :=
  (service system methods staleService stale input).All NotNull ∧
    (paramsPointer request = none → method ≠ .fsCleanup →
      Refused (service system methods staleService stale input).value)

/-- Requests survive when another version, their parameters or the method keep the service
from `NULL`. -/
theorem survives_iff (held : HoldsDocument input 0 request)
    (asked : methodName request = some name) {entry : Registered}
    (registered : methods.find? (fun entry => entry.name = name) = some entry)
    (staleService : Fin 4 → Int) :
    Survives system methods staleService stale input request entry.method ↔
      versionRight request = false ∨ (paramsPointer request).isSome ∨
        entry.method = .fsCleanup := by
  cases isRight : versionRight request with
  | false =>
      obtain ⟨all, refused⟩ := service_otherVersion held asked isRight staleService
      refine iff_of_true ⟨all, fun _ _ => ?_⟩ (.inl rfl)
      rw [refused]
      exact (by decide : jsonrpcErrInvalidRequest ≠ 0)
  | true =>
      have through := @all_service_iff system methods stale input request name held asked
        isRight entry registered staleService
      unfold Survives
      rw [through]
      cases absent : paramsPointer request with
      | some place =>
          refine iff_of_true ⟨all_call (Option.some_ne_none place) _, nofun⟩ (.inr (.inl rfl))
      | none =>
          by_cases unused : entry.method = .fsCleanup
          · have all : (entry.method.call system input stale none).All NotNull := by
              rw [unused]
              exact Noting.all_pure _
            exact iff_of_true ⟨all, fun _ uses => absurd unused uses⟩ (.inr (.inr unused))
          · refine iff_of_false (fun survives => not_all_call unused survives.1) ?_
            rintro (wrong | given | unused')
            · cases wrong
            · cases given
            · exact unused unused'

/-! ## Closing a descriptor -/

def nameClose : CString := .of [0x66, 0x73, 0x2e, 0x63, 0x6c, 0x6f, 0x73, 0x65] rfl

def closing : List Registered := [⟨nameClose, .fsClose⟩]

def quiet : System where
  outside := {
    hashMd5 := true
    hashCrc32 := true
    vfdList := []
    validatePath := fun _ _ => false
    malloc := fun _ _ => true
    allocVfd := none
    openFile := fun _ _ _ => .error emfile
    canceled := false
    close := fun _ => some ebadf
    read := fun _ _ => .error ebadf
    write := fun _ _ => .error ebadf
    lseek := fun _ _ _ => .error ebadf
    ioctl := fun _ _ _ => .error ebadf }
  count := 0
  workers := nofun
  low := fun _ => 0

def closeNothing : Elements :=
  .append (.append .empty keyJsonrpc (.string jsonrpcVer)) keyMethod (.string nameClose)

def closeEmpty : Elements := .append closeNothing keyParams (.subdocument .empty)

theorem closeNothing_built : ∃ input sum, Built closeNothing input sum :=
  ⟨_, _, .append (.append (.empty fun _ => 0xaa) (.string jsonrpcVer) (by decide))
    (.string nameClose) (by decide)⟩

theorem survives_iff_closeEmpty :
    ∃ input sum, Built closeEmpty input sum ∧
      (Survives quiet closing (fun _ => 99) (fun _ => 99) input closeEmpty .fsClose ↔
        versionRight closeEmpty = false ∨ (paramsPointer closeEmpty).isSome ∨
          Method.fsClose = .fsCleanup) := by
  obtain ⟨_, _, front⟩ := closeNothing_built
  have built : Built closeEmpty _ _ :=
    .append front (.subdocument (.empty fun _ => 0xaa)) (by decide)
  exact ⟨_, _, built, @survives_iff quiet closing (fun _ => 99) _ closeEmpty nameClose
    built.holds.1 rfl ⟨nameClose, .fsClose⟩ rfl (fun _ => 99)⟩

/-- Without parameters, the descriptor to close is looked for at address zero. -/
theorem closeNothing_reads_null :
    ∃ input sum, Built closeNothing input sum ∧ methodName closeNothing = some nameClose ∧
      closing.find? (fun entry => entry.name = nameClose) = some ⟨nameClose, .fsClose⟩ ∧
        ¬Survives quiet closing (fun _ => 99) (fun _ => 99) input closeNothing .fsClose := by
  obtain ⟨input, sum, built⟩ := closeNothing_built
  refine ⟨input, sum, built, rfl, rfl, fun survives => ?_⟩
  have through := (@all_service_iff quiet closing (fun _ => 99) input closeNothing nameClose
    built.holds.1 rfl rfl ⟨nameClose, .fsClose⟩ rfl (fun _ => 99)).mp survives.1
  exact not_all_call (by decide) through

end PeridotSw.Rpc.NullParams
