import PeridotSw.Rubic.QueueEffects
import PeridotSw.Rubic.RequestCustody

/-!
# Replies to queued requests

Over a run of the agent each request the server has handed to the queue is replied to once: by
the service if the queue refuses it, or when the agent reports what it has come to.  Its job is
released with the reply, and only then.
-/

namespace PeridotSw.Rubic.QueueReplies

open PeridotSw.Machine.Memory
open PeridotSw.Machine.Transition
open PeridotSw.Bson.Write
open PeridotSw.Bson.Document (Elements HoldsDocument)
open PeridotSw.Rpc.Reply
open PeridotSw.Rpc.ReplyLaw
open PeridotSw.Rpc.ReplyLifetimes (frees)
open PeridotSw.Rubic.Agent
open PeridotSw.Rubic.WorkerRequests
open PeridotSw.Rubic.RequestCustody
open PeridotSw.Rubic.QueueEffects

variable {count : Nat}

/-! ## What the agent reports -/

def Documented (events : List Event) : Prop :=
  ∀ context result errno, .answer context result errno ∈ events → Reportable (result, errno)

theorem Documented.append {first second : List Event} (documented : Documented first)
    (rest : Documented second) : Documented (first ++ second) := fun context result errno inside =>
  (List.mem_append.mp inside).elim (documented context result errno) (rest context result errno)

instance (worker : Worker) (thread : Thread) :
    (action : ThreadAction) → Decidable (Minds worker thread action)
  | .notifyInit _ => inferInstanceAs (Decidable (worker.context.isSome = true))
  | .finish _ => inferInstanceAs (Decidable (_ → _ = _))
  | .clear => inferInstanceAs (Decidable (_ = _))
  | .create _ | .enter | .head _ | .wait | .take _ | .cooperate _ | .leave _ | .reply _ =>
      isTrue trivial

/-- A start finds nothing in the idle worker. -/
def finds (state : State count) (call : QueueCall count) : Bool :=
  match call.phase with
  | .start tid =>
      if inside : tid < count then
        (state.workers ⟨tid, inside⟩).state ≠ .idle ||
          (state.workers ⟨tid, inside⟩).context.isNone
      else true
  | _ => true

theorem careful_queueStep (state : State count) (number : Nat) :
    (state.calls number).all (finds state) = true ↔ Careful state (.queueStep number) := by
  unfold Careful
  cases called : state.calls number with
  | none =>
      refine iff_of_true rfl fun call tid same => ?_
      rw [called] at same
      cases same
  | some call =>
      rw [Option.all_some, finds]
      constructor
      · intro found call' tid same phase inside idle
        rw [called] at same
        cases same
        rw [phase] at found
        dsimp only at found
        rw [dif_pos inside, Bool.or_eq_true] at found
        rcases found with busy | empty
        · exact absurd idle (of_decide_eq_true busy)
        · exact Option.isNone_iff_eq_none.mp empty
      · intro careful
        split
        · rename_i tid phase
          split
          · rename_i inside
            rw [Bool.or_eq_true, decide_eq_true_iff, Option.isNone_iff_eq_none]
            by_cases idle : (state.workers ⟨tid, inside⟩).state = .idle
            · exact .inr (careful call tid called phase inside idle)
            · exact .inl idle
          · rfl
        · rfl

instance (state : State count) : (action : Action count) → Decidable (Careful state action)
  | .queue .. => isTrue trivial
  | .queueStep number => decidable_of_iff _ (careful_queueStep state number)
  | .thread index action =>
      inferInstanceAs (Decidable (Minds (state.workers index) (state.threads index) action))

/-- The queue has taken the request. -/
def Taken : QueuePhase count → Prop
  | .post _ => True
  | .returned errno => errno = 0
  | .specific _ | .start _ => False

structure Accounted (state : State count) : Prop where
  tidy : Tidy state
  asked : ∀ number call, state.calls number = some call →
    ∃ content, Asks content call.input call.params
  taken : ∀ number call, state.calls number = some call →
    (number ∈ state.accepted ↔ Taken call.phase)
  documented : Documented state.events

variable {state : State count}

/-- A call goes on, and nothing else is done. -/
theorem Accounted.update (accounted : Accounted state) {next : State count} (tidy : Tidy next)
    {number : Nat} {call : QueueCall count} {phase : QueuePhase count}
    (asked : ∃ content, Asks content call.input call.params)
    (calls : next.calls =
      Function.update state.calls number (some { call with phase := phase }))
    (others : ∀ other, other ≠ number → (other ∈ next.accepted ↔ other ∈ state.accepted))
    (own : number ∈ next.accepted ↔ Taken phase) (events : next.events = state.events) :
    Accounted next where
  tidy := tidy
  asked other now called := by
    rw [calls] at called
    by_cases same : other = number
    · rw [same, Function.update_self] at called
      cases called
      exact asked
    · rw [Function.update_of_ne same] at called
      exact accounted.asked other now called
  taken other now called := by
    rw [calls] at called
    by_cases same : other = number
    · rw [same, Function.update_self] at called
      cases called
      rw [same]
      exact own
    · rw [Function.update_of_ne same] at called
      rw [others other same]
      exact accounted.taken other now called
  documented := by
    rw [events]
    exact accounted.documented

/-- The queue comes back with an error. -/
theorem Accounted.busy (accounted : Accounted state) {number : Nat} {call : QueueCall count}
    (called : state.calls number = some call) (waiting : ¬Taken call.phase)
    {phase : QueuePhase count} (still : ¬Taken phase)
    (tidy : Tidy (state.setPhase number call phase)) :
    Accounted (state.setPhase number call phase) :=
  accounted.update tidy (accounted.asked number call called) rfl (fun _ _ => Iff.rfl)
    (iff_of_false (mt (accounted.taken number call called).mp waiting) still) rfl

theorem Accounted.accept (accounted : Accounted state) {number : Nat} {call : QueueCall count}
    (called : state.calls number = some call) {index : Fin count} {workerState : WorkerState}
    (tidy : Tidy (state.accept number call index workerState)) :
    Accounted (state.accept number call index workerState) := by
  refine accounted.update tidy (accounted.asked number call called)
    (State.accept_calls state number call index workerState) (fun other different => ?_)
    (iff_of_true ?_ trivial) rfl
  · rw [State.accept_accepted, List.mem_append, List.mem_singleton, or_iff_left different]
  · rw [State.accept_accepted]
    exact List.mem_append_right _ (List.mem_singleton_self _)

theorem Accounted.queueStep (accounted : Accounted state) {number : Nat} {next : State count}
    (tidy : Tidy next) (taken : state.queueStep number = some next) : Accounted next := by
  have busy : ¬Taken (.returned (-ebusy) : QueuePhase count) := by
    show ¬(-ebusy = 0)
    decide
  obtain ⟨call, called, taken⟩ := Option.bind_eq_some_iff.mp taken
  split at taken
  · rename_i index phase
    have waiting : ¬Taken call.phase := by rw [phase]; exact not_false
    dsimp only at taken
    split at taken
    · cases taken
    · split at taken
      · cases taken
        exact accounted.busy called waiting busy tidy
      · cases taken
        exact accounted.accept called tidy
  · rename_i tid phase
    have waiting : ¬Taken call.phase := by rw [phase]; exact not_false
    split at taken
    · dsimp only at taken
      split at taken
      · cases taken
      · split at taken
        · cases taken
          exact accounted.accept called tidy
        · cases taken
          exact accounted.busy called waiting not_false tidy
    · cases taken
      exact accounted.busy called waiting busy tidy
  · rename_i index phase
    have posted : Taken call.phase := by rw [phase]; trivial
    cases taken
    exact accounted.update tidy (accounted.asked number call called) rfl (fun _ _ => Iff.rfl)
      (iff_of_true ((accounted.taken number call called).mpr posted) rfl) rfl
  · cases taken

/-- The queue has not refused the request, and it has not been answered. -/
def Open (state : State count) (number : Nat) (call : QueueCall count) : Prop :=
  (∀ errno, call.phase = .returned errno → errno = 0) ∧ number ∉ answeredIds state.events

theorem length_answersTo (number : Nat) (events : List Event) :
    (answersTo number events).length = (answeredIds events).count number := by
  induction events with
  | nil => rfl
  | cons event rest ih =>
      cases event with
      | free text => exact ih
      | answer context result errno =>
          rw [answersTo, answeredIds, List.filterMap_cons, List.filterMap_cons]
          cases context with
          | none => exact ih
          | some id =>
              by_cases same : id = number
              · subst same
                dsimp only
                rw [if_pos rfl, List.length_cons, List.count_cons_self]
                exact congrArg Nat.succ ih
              · dsimp only
                rw [if_neg (fun equal => same (Option.some.inj equal)), List.count_cons_of_ne same]
                exact ih

theorem mem_answersTo {number : Nat} {events : List Event} {result : Option Mem} {errno : Int32} :
    (result, errno) ∈ answersTo number events ↔ .answer (some number) result errno ∈ events := by
  rw [answersTo, List.mem_filterMap]
  constructor
  · rintro ⟨event, inside, found⟩
    cases event with
    | free text => cases found
    | answer context result' errno' =>
        obtain ⟨rfl, same⟩ := Option.ite_none_right_eq_some.mp found
        cases same
        exact inside
  · intro inside
    exact ⟨_, inside, if_pos rfl⟩

/-- What the request has come to: the error of the queue, or what the agent has reported. -/
def Decides (state : State count) (number : Nat) (call : QueueCall count)
    (reported : Option Mem × Int32) : Prop :=
  call.phase = .returned reported.2 ∧ reported.1 = none ∧ reported.2 ≠ 0 ∨
    .answer (some number) reported.1 reported.2 ∈ state.events

section

variable {registered : Registered} {surroundings : Nat → Surroundings} {number : Nat}
  {call : QueueCall count} {content : Elements}

theorem serviceEffects_none (asks : Asks content call.input call.params)
    (zero : ∀ errno, call.phase = .returned errno → errno = 0) (meets : Surroundings) :
    serviceEffects registered meets call.input call.phase = [] := by
  cases phase : call.phase with
  | returned errno => rw [serviceEffects_returned asks, if_pos (zero errno phase)]
  | specific index => rfl
  | start tid => rfl
  | post index => rfl

theorem Accounted.refused (accounted : Accounted state) (called : state.calls number = some call)
    {errno : Int32} (phase : call.phase = .returned errno) (failed : errno ≠ 0) :
    number ∉ answeredIds state.events := by
  intro answered
  have accepted := accounted.tidy.books.listed number answered
  have taken := (accounted.taken number call called).mp accepted
  rw [phase] at taken
  exact failed taken

/-- Nothing has been done about a request, or it is finished as it was decided. -/
theorem Accounted.jobEffects (accounted : Accounted state)
    (called : state.calls number = some call) (asks : Asks content call.input call.params) :
    (Open state number call ∧ jobEffects registered surroundings state number = []) ∨
      (¬Open state number call ∧ ∃ reported malloc buffer, Reportable reported ∧
        Decides state number call reported ∧
          (malloc = (surroundings number).malloc ∨
            malloc = (surroundings number).callbackMalloc) ∧
            jobEffects registered surroundings state number =
              finished malloc buffer call.input (position content keyId) reported.1
                reported.2) := by
  rw [QueueEffects.jobEffects, called]
  dsimp only
  by_cases zero : ∀ errno, call.phase = .returned errno → errno = 0
  · rw [serviceEffects_none asks zero, List.nil_append]
    have length := length_answersTo number state.events
    by_cases answered : number ∈ answeredIds state.events
    · rw [List.Nodup.count accounted.tidy.books.once, if_pos answered,
        List.length_eq_one_iff] at length
      obtain ⟨reported, single⟩ := length
      have inside : .answer (some number) reported.1 reported.2 ∈ state.events := by
        rw [← mem_answersTo, single]
        exact List.mem_singleton_self _
      have reportable := accounted.documented _ _ _ inside
      have passed : (if reported.2 = 0 then reported.1 else none) = reported.1 := by
        rcases reportable with silent | ⟨zero, -⟩
        · rw [show reported.1 = none from silent, ite_self]
        · exact if_pos zero
      refine .inr ⟨fun still => still.2 answered, reported,
        (surroundings number).callbackMalloc, (surroundings number).callbackBuffer, reportable,
        .inr inside, .inr rfl, ?_⟩
      rw [single, List.flatMap_singleton, callbackEffects_eq asks, passed]
    · rw [List.count_eq_zero_of_not_mem answered, List.length_eq_zero_iff] at length
      rw [length]
      exact .inl ⟨⟨zero, answered⟩, rfl⟩
  · simp only [not_forall] at zero
    obtain ⟨errno, phase, failed⟩ := zero
    have length := length_answersTo number state.events
    rw [List.count_eq_zero_of_not_mem (accounted.refused called phase failed),
      List.length_eq_zero_iff] at length
    refine .inr ⟨fun still => failed (still.1 errno phase), (none, errno),
      (surroundings number).malloc, (surroundings number).buffer, .inl rfl,
      .inl ⟨phase, rfl, failed⟩, .inl rfl, ?_⟩
    rw [length, phase, serviceEffects_returned asks, if_neg failed, List.flatMap_nil,
      List.append_nil]

/-- What holds of a request at any time. -/
structure Handled (surroundings : Nat → Surroundings) (state : State count) (number : Nat)
    (call : QueueCall count) (content : Elements) (effects : List Effect) : Prop where
  untouched : Open state number call → effects = []
  kept : Open state number call → number ∈ state.accepted →
    ∃ index, Knows (state.workers index) (state.threads index) number
  held : ∀ index part, holding state index part = some number → Open state number call
  released : ¬Open state number call → frees .job effects = 1
  once : (sources effects).length ≤ 1
  replied : ¬Open state number call → content.encode.length < 2 ^ 30 →
    (∀ attempt size, size < 2 ^ 31 →
      ((surroundings number).malloc attempt size).isSome ∧
        ((surroundings number).callbackMalloc attempt size).isSome) →
    if first keyId content = none then sources effects = []
    else
      ∃ reported key value output, Decides state number call reported ∧
        Member reported key value ∧
          HoldsDocument output 0 (replyOf (first keyId content) key value) ∧
            sources effects = [(output, bsonMeasureDocument output)]

theorem Accounted.open_of_holding (accounted : Accounted state)
    (called : state.calls number = some call) {index : Fin count} {part : Part}
    (held : holding state index part = some number) : Open state number call := by
  have live := accounted.tidy.books.custody.live_of_held (index, part) number held
  refine ⟨fun errno phase => ?_, live.2⟩
  have taken := (accounted.taken number call called).mp live.1
  rw [phase] at taken
  exact taken

theorem Accounted.handled (accounted : Accounted state)
    (called : state.calls number = some call) (asks : Asks content call.input call.params) :
    Handled surroundings state number call content
      (QueueEffects.jobEffects registered surroundings state number) where
  untouched still := by
    rcases @Accounted.jobEffects _ _ registered surroundings _ _ _ accounted called asks with
      ⟨-, nothing⟩ | ⟨done, -⟩
    · exact nothing
    · exact absurd still done
  kept still accepted := accounted.tidy.requestsKept.known number accepted still.2
  held index part holds := accounted.open_of_holding called holds
  released done := by
    rcases @Accounted.jobEffects _ _ registered surroundings _ _ _ accounted called asks with
      ⟨still, -⟩ | ⟨-, reported, malloc, buffer, -, -, -, effects⟩
    · exact absurd still done
    · rw [effects]
      exact (frees_finished malloc buffer call.input _ _ _).1
  once := by
    rcases @Accounted.jobEffects _ _ registered surroundings _ _ _ accounted called asks with
      ⟨-, nothing⟩ | ⟨-, reported, malloc, buffer, -, -, -, effects⟩
    · rw [nothing]
      exact Nat.zero_le 1
    · rw [effects]
      exact (frees_finished malloc buffer call.input _ _ _).2
  replied done small grants := by
    rcases @Accounted.jobEffects _ _ registered surroundings _ _ _ accounted called asks with
      ⟨still, -⟩ | ⟨-, reported, malloc, buffer, reportable, decides, given, effects⟩
    · exact absurd still done
    · have granted : ∀ attempt size, size < 2 ^ 31 → (malloc attempt size).isSome := by
        intro attempt size bound
        rcases given with rfl | rfl
        · exact (grants attempt size bound).1
        · exact (grants attempt size bound).2
      have replies := finished_replies asks.held small reportable granted buffer
      rw [effects]
      split at replies
      · rename_i absent
        rw [if_pos absent]
        exact replies
      · rename_i present
        rw [if_neg present]
        exact ⟨reported, replies.imp fun key rest => rest.imp fun value rest =>
          rest.imp fun output rest => ⟨decides, rest⟩⟩

end

/-- The request comes to a worker that waits, and cannot be started without a runtime. -/
def only : Fin 1 := ⟨0, Nat.zero_lt_one⟩

end PeridotSw.Rubic.QueueReplies
