import PeridotSw.Machine.Ledger
import PeridotSw.Rubic.Agent

/-!
# The requests of a worker

A worker answers the request in `context`, the one in `callback_context` and, behind
`reply_error`, the one in the variable of its thread.  Every step of the thread deals with
them among these places, or answers them, provided that it finds in `context` what it
supposes there.
-/

namespace PeridotSw.Rubic.WorkerRequests

open PeridotSw.Machine.Memory
open PeridotSw.Machine.Ledger
open PeridotSw.Rubic.Agent

/-! ## Holders -/

inductive Part where
  | context
  | callback
  | reply
  deriving DecidableEq

/-- The requests a worker has to answer.  The variable of its thread counts when `context`
has been cleared for it. -/
def parts (worker : Worker) (thread : Thread) : Part → Option Nat
  | .context => worker.context.map Context.id
  | .callback => worker.callbackContext.map Context.id
  | .reply => if thread.place = .replying then thread.context.map Context.id else none

def answeredIds (events : List Event) : List Nat :=
  events.filterMap fun event =>
    match event with
    | .answer context _ _ => context
    | .free _ => none

/-- The steps of a thread that find in `context` what they suppose there. -/
def Minds (worker : Worker) (thread : Thread) : ThreadAction → Prop
  | .notifyInit _ => worker.context.isSome
  | .finish _ => worker.state = .starting →
      worker.context.map Context.id = thread.context.map Context.id
  | .clear => worker.context.map Context.id = thread.context.map Context.id
  | _ => True

/-! ## Parts of a worker -/

variable {worker next : Worker} {thread after : Thread}

theorem parts_context {context : Option Context} (now : next.context = context)
    (callback : next.callbackContext = worker.callbackContext)
    (reply : parts next after .reply = parts worker thread .reply) :
    parts next after =
      Function.update (parts worker thread) .context (context.map Context.id) := by
  funext part
  cases part with
  | context => rw [Function.update_self, parts, now]
  | callback =>
      rw [Function.update_of_ne (by nofun), parts, parts, callback]
  | reply =>
      rw [Function.update_of_ne (by nofun), reply]

theorem parts_callback {context : Option Context} (now : next.callbackContext = context)
    (same : next.context = worker.context)
    (reply : parts next after .reply = parts worker thread .reply) :
    parts next after =
      Function.update (parts worker thread) .callback (context.map Context.id) := by
  funext part
  cases part with
  | context => rw [Function.update_of_ne (by nofun), parts, parts, same]
  | callback => rw [Function.update_self, parts, now]
  | reply => rw [Function.update_of_ne (by nofun), reply]

theorem parts_same (context : next.context = worker.context)
    (callback : next.callbackContext = worker.callbackContext)
    (reply : parts next after .reply = parts worker thread .reply) :
    parts next after = parts worker thread := by
  rw [parts_context context callback reply]
  exact Function.update_eq_self .context (parts worker thread)

theorem parts_update_none {part : Part} (empty : parts worker thread part = none) :
    Function.update (parts worker thread) part none = parts worker thread := by
  rw [← empty, Function.update_eq_self]

theorem not_replying {place : Place} (here : thread.place = place) (other : place ≠ .replying) :
    thread.place ≠ .replying := by
  rw [here]
  exact other

theorem parts_reply_none (elsewhere : thread.place ≠ .replying) :
    parts worker thread .reply = none := if_neg elsewhere

/-- Two threads that are not about to reply. -/
theorem parts_reply_eq (elsewhere : thread.place ≠ .replying)
    (there : after.place ≠ .replying) :
    parts next after .reply = parts worker thread .reply := by
  rw [parts_reply_none elsewhere, parts_reply_none there]

/-! ## Steps of a thread -/

/-- The thread is between taking a request and the head of the loop. -/
def Busy : Place → Prop
  | .running _ | .returned | .failed | .replying => True
  | _ => False

/-- The runner has not called back, or there is no runner. -/
def Unheard : Place → Prop
  | .running false | .failed => True
  | _ => False

/-- How a worker and its thread fit together, `past` being the requests answered. -/
structure Fits (past : List Nat) (worker : Worker) (thread : Thread) : Prop where
  resting : ¬Busy thread.place → thread.context = none
  working : Busy thread.place → worker.state ≠ .idle
  starting : Unheard thread.place → worker.state = .starting
  own : Unheard thread.place → ∀ id, thread.context.map Context.id = some id →
    worker.context.map Context.id = some id
  traced : ∀ id, thread.context.map Context.id = some id →
    id ∈ past ∨ ∃ part, parts worker thread part = some id

theorem Fits.mono {past now : List Nat} (fits : Fits past worker thread)
    (grows : ∀ id ∈ past, id ∈ now) : Fits now worker thread where
  resting := fits.resting
  working := fits.working
  starting := fits.starting
  own := fits.own
  traced id here := (fits.traced id here).imp_left (grows id)

/-- The events name the requests they answer. -/
def Named (events : List Event) : Prop := ∀ result errno, .answer none result errno ∉ events

/-- What a step of a thread does to the requests of its worker. -/
structure Keeps (past : List Nat) (worker : Worker) (thread : Thread)
    (next : Worker × Thread × List Event) : Prop where
  deals : Deals (parts worker thread) (answeredIds next.2.2) (parts next.1 next.2.1)
  named : Named next.2.2
  fits : Fits (past ++ answeredIds next.2.2) next.1 next.2.1

/-- A thread that holds nothing fits every worker. -/
theorem fits_at {past : List Nat} {place : Place} (idle : ¬Busy place) :
    Fits past worker (.at place) where
  resting _ := rfl
  working busy := absurd busy idle
  starting unheard := by
    cases place with
    | running calledBack | failed => exact absurd trivial idle
    | _ => cases unheard
  own _ := nofun
  traced := nofun

theorem deals_same (elsewhere : thread.place ≠ .replying) (there : after.place ≠ .replying)
    (context : next.context = worker.context)
    (callback : next.callbackContext = worker.callbackContext) :
    Deals (parts worker thread) [] (parts next after) := by
  rw [parts_same context callback (parts_reply_eq elsewhere there)]
  exact .done _

/-- Its `context` is answered. -/
theorem deals_answer {context : Context} (held : worker.context = some context)
    (now : next.context = none) (callback : next.callbackContext = worker.callbackContext)
    (reply : parts next after .reply = parts worker thread .reply) :
    Deals (parts worker thread) [context.id] (parts next after) := by
  refine .give .context context.id ?_ ?_
  · rw [parts, held]
    rfl
  · rw [parts_context now callback reply]
    exact .done _

theorem invokeRunner_context (thread : Thread) :
    (invokeRunner thread).context = thread.context := by
  unfold invokeRunner
  split <;> rfl

theorem invokeRunner_unheard (thread : Thread) : Unheard (invokeRunner thread).place := by
  unfold invokeRunner
  split <;> trivial

theorem Unheard.not_replying {place : Place} (unheard : Unheard place) : place ≠ .replying := by
  rintro rfl
  exact unheard

theorem Unheard.busy {place : Place} (unheard : Unheard place) : Busy place := by
  cases place with
  | running calledBack | failed => trivial
  | _ => cases unheard

/-- A thread that is going to start a runner. -/
theorem fits_invoked {past : List Nat} (starting : worker.state = .starting)
    (own : ∀ id, thread.context.map Context.id = some id →
      worker.context.map Context.id = some id) :
    Fits past worker (invokeRunner thread) where
  resting idle := absurd (invokeRunner_unheard thread).busy idle
  working _ := by
    rw [starting]
    nofun
  starting _ := starting
  own _ id here := own id (invokeRunner_context thread ▸ here)
  traced id here := .inr ⟨.context, own id (invokeRunner_context thread ▸ here)⟩

theorem head_keeps {past : List Nat} (boot : Option Boot) (place : thread.place = .top) :
    Keeps past worker thread ((loopHead worker boot).1, (loopHead worker boot).2, []) := by
  have elsewhere := not_replying place (by nofun)
  unfold loopHead
  split
  · cases boot with
    | none =>
        exact ⟨deals_same elsewhere (by nofun) rfl rfl, nofun, fits_at (by nofun)⟩
    | some boot =>
        have there := (invokeRunner_unheard
          { place := .top
            context := none
            runtime := boot.runtime
            fileOrSource := some (.boot boot.path)
            flags := runnerFlagAutoboot ||| runnerFlagFile
            result := 0 }).not_replying
        exact ⟨deals_same elsewhere there rfl rfl, nofun, fits_invoked rfl nofun⟩
  · exact ⟨deals_same elsewhere (by nofun) rfl rfl, nofun, fits_at (by nofun)⟩

theorem take_keeps {setting : Setting} {past : List Nat} (stale : Fin 4 → Int)
    (place : thread.place = .woken) :
    Keeps past worker thread
      ((takeRequest setting stale worker).1, (takeRequest setting stale worker).2, []) := by
  have elsewhere := not_replying place (by nofun)
  unfold takeRequest
  cases held : worker.context with
  | none => exact ⟨deals_same elsewhere (by nofun) rfl rfl, nofun, fits_at (by nofun)⟩
  | some context =>
      have there := (invokeRunner_unheard (readStart setting stale context)).not_replying
      exact ⟨deals_same elsewhere there held.symm rfl, nofun, fits_invoked rfl fun _ here => here⟩

/-- `rubic_agent_runner_notify_init` answers what it finds in `context`. -/
theorem notifyInit_cases (worker : Worker) (output : Option Mem) :
    ∃ result errno state, state ≠ .idle ∧ rubicAgentRunnerNotifyInit worker output =
      ({ worker with context := none, state := state },
        [.answer (worker.context.map Context.id) result errno]) := by
  cases output with
  | none => exact ⟨_, _, .failed, by nofun, rfl⟩
  | some block => exact ⟨_, _, .running, by nofun, rfl⟩

/-- A thread that stays busy behind its runner's first call. -/
theorem fits_heard {past : List Nat} {place : Place} (busy : Busy place)
    (heard : ¬Unheard place) (awake : next.state ≠ .idle)
    (traced : ∀ id, thread.context.map Context.id = some id →
      id ∈ past ∨ ∃ part, parts next { thread with place := place } part = some id) :
    Fits past next { thread with place := place } where
  resting idle := absurd busy idle
  working _ := awake
  starting unheard := absurd unheard heard
  own unheard := absurd unheard heard
  traced := traced

/-- Where the request of the variable is, unless the thread is about to reply. -/
theorem Fits.located {past : List Nat} (fits : Fits past worker thread)
    (elsewhere : thread.place ≠ .replying) {id : Nat}
    (here : thread.context.map Context.id = some id) :
    id ∈ past ∨ worker.context.map Context.id = some id ∨
      worker.callbackContext.map Context.id = some id := by
  rcases fits.traced id here with before | ⟨part, there⟩
  · exact .inl before
  · cases part with
    | context => exact .inr (.inl there)
    | callback => exact .inr (.inr there)
    | reply =>
        rw [parts_reply_none elsewhere] at there
        cases there

theorem notifyInit_keeps {past : List Nat} (output : Option Mem)
    (fits : Fits past worker thread) (place : thread.place = .running false)
    (minds : worker.context.isSome) :
    Keeps past worker thread
      ((rubicAgentRunnerNotifyInit worker output).1, { thread with place := .running true },
        (rubicAgentRunnerNotifyInit worker output).2) := by
  obtain ⟨context, held⟩ := Option.isSome_iff_exists.mp minds
  obtain ⟨result, errno, state, awake, called⟩ := notifyInit_cases worker output
  have elsewhere := not_replying place (by nofun)
  rw [called, held]
  refine ⟨deals_answer held rfl rfl (parts_reply_eq elsewhere (by nofun)), by simp [Named], ?_⟩
  refine fits_heard trivial nofun awake fun id here => ?_
  have own := fits.own (by rw [place]; trivial) id here
  rw [held] at own
  cases own
  exact .inl (List.mem_append_right _ (List.mem_singleton_self _))

/-- `rubic_agent_runner_cooperate` answers what it finds in `context`, or keeps it in
`callback_context`. -/
theorem cooperate_cases {setting : Setting} {context : Context} (stale : Int)
    (held : worker.context = some context) :
    (∃ result errno state, (worker.state ≠ .idle → state ≠ .idle) ∧
      rubicAgentRunnerCooperate setting worker stale =
        ({ worker with context := none, state := state },
          [.answer (some context.id) result errno])) ∨
      worker.callbackContext = none ∧ rubicAgentRunnerCooperate setting worker stale =
        ({ worker with context := none, callbackContext := some context }, []) := by
  unfold rubicAgentRunnerCooperate
  rw [held]
  dsimp only
  split
  · exact .inl ⟨_, _, .aborting, by nofun, rfl⟩
  · split
    · cases callback : worker.callbackContext with
      | some other => exact .inl ⟨_, _, worker.state, id, rfl⟩
      | none => exact .inr ⟨rfl, rfl⟩
    · exact .inl ⟨_, _, worker.state, id, rfl⟩

/-- Its `context` becomes its callback. -/
theorem deals_callback {context : Context} (held : worker.context = some context)
    (empty : worker.callbackContext = none) (elsewhere : thread.place ≠ .replying)
    (there : after.place ≠ .replying) :
    Deals (parts worker thread) []
      (parts { worker with context := none, callbackContext := some context } after) := by
  have first : parts { worker with context := none } thread =
      Function.update (parts worker thread) .context none :=
    parts_context rfl rfl rfl
  have second : parts { worker with context := none, callbackContext := some context } after =
      Function.update (parts { worker with context := none } thread) .callback
        (some context.id) :=
    parts_callback rfl rfl (parts_reply_eq elsewhere there)
  refine .move .context .callback context.id ?_ ?_ ?_
  · rw [parts, held]
    rfl
  · rw [parts, empty]
    rfl
  · rw [← first, second]
    exact .done _

theorem cooperate_keeps {setting : Setting} {past : List Nat} (stale : Int)
    (fits : Fits past worker thread) {calledBack : Bool}
    (place : thread.place = .running calledBack) :
    Keeps past worker thread
      ((rubicAgentRunnerCooperate setting worker stale).1,
        { thread with place := .running true },
        (rubicAgentRunnerCooperate setting worker stale).2) := by
  have elsewhere := not_replying place (by nofun)
  have awake : worker.state ≠ .idle := fits.working (by rw [place]; trivial)
  cases held : worker.context with
  | none =>
      have called : rubicAgentRunnerCooperate setting worker stale = (worker, []) := by
        rw [rubicAgentRunnerCooperate, held]
      rw [called]
      refine ⟨deals_same elsewhere (by nofun) rfl rfl, nofun, ?_⟩
      refine fits_heard trivial nofun awake fun id here => ?_
      rcases fits.located elsewhere here with before | context | callback
      · exact .inl (List.mem_append_left _ before)
      · exact .inr ⟨.context, context⟩
      · exact .inr ⟨.callback, callback⟩
  | some context =>
      rcases cooperate_cases stale held with ⟨result, errno, state, still, called⟩ | ⟨empty, called⟩
      · rw [called]
        refine ⟨deals_answer held rfl rfl (parts_reply_eq elsewhere (by nofun)), by simp [Named], ?_⟩
        refine fits_heard trivial nofun (still awake) fun id here => ?_
        rcases fits.located elsewhere here with before | own | callback
        · exact .inl (List.mem_append_left _ before)
        · rw [held] at own
          cases own
          exact .inl (List.mem_append_right _ (List.mem_singleton_self _))
        · exact .inr ⟨.callback, callback⟩
      · rw [called]
        refine ⟨deals_callback held empty elsewhere (by nofun), nofun, ?_⟩
        refine fits_heard trivial nofun awake fun id here => ?_
        rcases fits.located elsewhere here with before | own | callback
        · exact .inl (List.mem_append_left _ before)
        · rw [held] at own
          exact .inr ⟨.callback, own⟩
        · rw [empty] at callback
          cases callback

/-! ### The end of the loop -/

@[simp] theorem answeredIds_append (first second : List Event) :
    answeredIds (first ++ second) = answeredIds first ++ answeredIds second :=
  List.filterMap_append

@[simp] theorem answeredIds_freeFile (thread : Thread) : answeredIds (freeFile thread) = [] := by
  unfold freeFile
  split <;> rfl

theorem answeredIds_answerStart (thread : Thread) :
    answeredIds (answerStart thread) = (thread.context.map Context.id).toList := by
  unfold answerStart
  cases thread.context <;> rfl

theorem answeredIds_answerCallback (worker : Worker) (result : Int32) (output : Option Mem) :
    answeredIds (answerCallback worker result output).2 =
      (worker.callbackContext.map Context.id).toList := by
  unfold answerCallback
  cases worker.callbackContext <;> rfl

theorem Named.append {first second : List Event} (named : Named first) (rest : Named second) :
    Named (first ++ second) := fun result errno inside =>
  (List.mem_append.mp inside).elim (named result errno) (rest result errno)

theorem named_answerStart (thread : Thread) : Named (answerStart thread) := by
  unfold answerStart
  cases thread.context with
  | none => nofun
  | some context => simp [Named]

theorem named_answerCallback (worker : Worker) (result : Int32) (output : Option Mem) :
    Named (answerCallback worker result output).2 := by
  unfold answerCallback
  cases worker.callbackContext with
  | none => nofun
  | some context => simp [Named]

theorem named_freeFile (thread : Thread) : Named (freeFile thread) := by
  unfold freeFile
  split
  · simp [Named]
  · nofun

theorem named_finishStart (worker : Worker) (thread : Thread) :
    Named (finishStart worker thread).2 := by
  unfold finishStart
  split
  · exact named_answerStart thread
  · nofun

theorem answerCallback_context (worker : Worker) (result : Int32) (output : Option Mem) :
    (answerCallback worker result output).1.context = worker.context := by
  unfold answerCallback
  cases worker.callbackContext <;> rfl

theorem answerCallback_callbackContext (worker : Worker) (result : Int32) (output : Option Mem) :
    (answerCallback worker result output).1.callbackContext = none := by
  unfold answerCallback
  cases bare : worker.callbackContext with
  | none => exact bare
  | some context => rfl

theorem answerCallback_deals (worker : Worker) (thread : Thread) (result : Int32)
    (output : Option Mem) :
    Deals (parts worker thread) (answeredIds (answerCallback worker result output).2)
      (parts (answerCallback worker result output).1 thread) := by
  rw [answeredIds_answerCallback]
  have now : parts (answerCallback worker result output).1 thread =
      Function.update (parts worker thread) .callback none :=
    parts_callback (answerCallback_callbackContext worker result output)
      (answerCallback_context worker result output) rfl
  rw [now]
  cases held : worker.callbackContext with
  | none =>
      have nobody : parts worker thread .callback = none := by
        rw [parts, held]
        rfl
      rw [parts_update_none nobody]
      exact .done _
  | some context =>
      refine .give .callback context.id ?_ (.done _)
      rw [parts, held]
      rfl

theorem finishStart_deals (elsewhere : thread.place ≠ .replying)
    (minds : worker.state = .starting →
      worker.context.map Context.id = thread.context.map Context.id) :
    Deals (parts worker thread) (answeredIds (finishStart worker thread).2)
      (parts (finishStart worker thread).1 thread) := by
  unfold finishStart
  split
  · rename_i starting
    rw [answeredIds_answerStart, ← minds starting]
    cases held : worker.context with
    | none => exact deals_same elsewhere elsewhere held.symm rfl
    | some context => exact deals_answer held rfl rfl rfl
  · exact .done _

theorem finish_keeps {past : List Nat} (output : Option Mem) (place : thread.place = .returned)
    (minds : Minds worker thread (.finish output)) :
    Keeps past worker thread ((finishRunner worker thread output).1, .at .top,
      (finishRunner worker thread output).2) := by
  have elsewhere := not_replying place (by nofun)
  have start := finishStart_deals elsewhere minds
  have callback := answerCallback_deals (finishStart worker thread).1 thread thread.result output
  have last : Deals
      (parts (answerCallback (finishStart worker thread).1 thread.result output).1 thread) []
      (parts (finishRunner worker thread output).1 (.at .top)) :=
    deals_same elsewhere (by nofun) rfl rfl
  have given : answeredIds (finishRunner worker thread output).2 =
      answeredIds (finishStart worker thread).2 ++
        answeredIds (answerCallback (finishStart worker thread).1 thread.result output).2 ++ [] := by
    simp [finishRunner]
  refine ⟨?_, ?_, fits_at (by nofun)⟩
  · rw [given]
    exact (start.trans callback).trans last
  · exact ((named_finishStart worker thread).append (named_answerCallback _ _ _)).append
      (named_freeFile thread)

theorem clear_keeps {past : List Nat} (fits : Fits past worker thread)
    (place : thread.place = .failed) (minds : Minds worker thread .clear) :
    Keeps past worker thread
      ({ worker with context := none }, { thread with place := .replying }, []) := by
  have elsewhere := not_replying place (by nofun)
  have awake : worker.state ≠ .idle := fits.working (by rw [place]; trivial)
  refine ⟨?_, nofun, ?_⟩
  · have now : parts { worker with context := none } { thread with place := .replying } =
        Function.update (Function.update (parts worker thread) .context none) .reply
          (thread.context.map Context.id) := by
      funext part
      cases part <;> simp [parts, Function.update]
    rw [now]
    have empty : parts worker thread .reply = none := parts_reply_none elsewhere
    cases held : worker.context with
    | none =>
        have mine : parts worker thread .context = none := by
          rw [parts, held]
          rfl
        rw [parts_update_none mine, ← minds, held, Option.map_none, parts_update_none empty]
        exact .done _
    | some context =>
        rw [← minds, held]
        refine .move .context .reply context.id ?_ empty (.done _)
        rw [parts, held]
        rfl
  · exact fits_heard trivial nofun awake fun id here => .inr ⟨.reply, here⟩

theorem reply_keeps {past : List Nat} (output : Option Mem) (place : thread.place = .replying) :
    Keeps past worker thread ((replyError worker thread output).1, .at .top,
      (replyError worker thread output).2) := by
  have replied : parts worker (.at .top) =
      Function.update (parts worker thread) .reply none := by
    funext part
    cases part <;> simp [parts, Function.update, Thread.at]
  have start : Deals (parts worker thread) (answeredIds (answerStart thread))
      (parts worker (.at .top)) := by
    rw [answeredIds_answerStart, replied]
    have mine : parts worker thread .reply = thread.context.map Context.id := if_pos place
    cases held : thread.context with
    | none =>
        rw [held] at mine
        rw [parts_update_none mine]
        exact .done _
    | some context =>
        rw [held] at mine
        exact .give .reply context.id mine (.done _)
  have callback := answerCallback_deals worker (.at .top) thread.result output
  have given : answeredIds (replyError worker thread output).2 =
      answeredIds (answerStart thread) ++
        answeredIds (answerCallback worker thread.result output).2 := by
    simp [replyError]
  refine ⟨?_, ?_, fits_at (by nofun)⟩
  · rw [given]
    exact start.trans callback
  · exact ((named_answerStart thread).append (named_answerCallback _ _ _)).append
      (named_freeFile thread)

/-- A step of a thread that finds what it supposes deals with the requests of its worker. -/
theorem threadStep_keeps {setting : Setting} {index : Nat} {past : List Nat}
    {action : ThreadAction} {result : Worker × Thread × List Event}
    (fits : Fits past worker thread) (minds : Minds worker thread action)
    (taken : threadStep setting index worker thread action = some result) :
    Keeps past worker thread result := by
  cases action with
  | create disableAutoBoot =>
      obtain ⟨place, ⟨⟩⟩ := Option.ite_none_right_eq_some.mp taken
      exact ⟨deals_same (not_replying place (by nofun)) (by nofun) rfl rfl, nofun,
        fits_at (by nofun)⟩
  | enter =>
      obtain ⟨⟨place, -⟩, ⟨⟩⟩ := Option.ite_none_right_eq_some.mp taken
      exact ⟨deals_same (not_replying place (by nofun)) (by nofun) rfl rfl, nofun,
        fits_at (by nofun)⟩
  | head boot =>
      obtain ⟨place, ⟨⟩⟩ := Option.ite_none_right_eq_some.mp taken
      exact head_keeps boot place
  | wait =>
      obtain ⟨⟨place, -⟩, ⟨⟩⟩ := Option.ite_none_right_eq_some.mp taken
      exact ⟨deals_same (not_replying place (by nofun)) (by nofun) rfl rfl, nofun,
        fits_at (by nofun)⟩
  | take stale =>
      obtain ⟨⟨place, -⟩, ⟨⟩⟩ := Option.ite_none_right_eq_some.mp taken
      exact take_keeps stale place
  | notifyInit output =>
      obtain ⟨place, ⟨⟩⟩ := Option.ite_none_right_eq_some.mp taken
      exact notifyInit_keeps output fits place minds
  | cooperate stale =>
      simp only [threadStep] at taken
      split at taken
      · rename_i calledBack place
        cases taken
        exact cooperate_keeps stale fits place
      · cases taken
  | leave result =>
      simp only [threadStep] at taken
      split at taken
      · rename_i calledBack place
        cases taken
        refine ⟨deals_same (not_replying place (by nofun)) (by nofun) rfl rfl, nofun, ?_⟩
        have awake : worker.state ≠ .idle := fits.working (by rw [place]; trivial)
        refine ⟨fun idle => absurd trivial idle, fun _ => awake, nofun, nofun,
          fun id here => ?_⟩
        rcases fits.traced id here with before | ⟨part, there⟩
        · exact .inl (List.mem_append_left _ before)
        · refine .inr ⟨part, ?_⟩
          rw [parts_same rfl rfl (parts_reply_eq (not_replying place (by nofun)) (by nofun))]
          exact there
      · cases taken
  | finish output =>
      obtain ⟨⟨place, -⟩, ⟨⟩⟩ := Option.ite_none_right_eq_some.mp taken
      exact finish_keeps output place minds
  | clear =>
      obtain ⟨place, ⟨⟩⟩ := Option.ite_none_right_eq_some.mp taken
      exact clear_keeps fits place minds
  | reply output =>
      obtain ⟨place, ⟨⟩⟩ := Option.ite_none_right_eq_some.mp taken
      exact reply_keeps output place

end PeridotSw.Rubic.WorkerRequests
