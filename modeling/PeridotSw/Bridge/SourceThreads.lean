import Mathlib.Logic.Function.Basic
import PeridotSw.Machine.Transition
import PeridotSw.Bridge.Service
import PeridotSw.Bridge.SourceDecoding

/-!
# Calls of the source from several threads

Replies, pipes and the memory channel call `peridot_sw_hostbridge_gen2_source` from threads of
their own, while the service goes on reading.  `state.lock` has one token, which a call takes
at its beginning and gives back at its end.  A step of a thread is one operation on the lock,
one call of `write`, which may take a part of a block or nothing, or the return of
`write_to_host`.
-/

namespace PeridotSw.Bridge.SourceThreads

open PeridotSw.Machine.Transition
open PeridotSw.Stream.Decoding
open PeridotSw.Bridge.Channel
open PeridotSw.Bridge.Service
open PeridotSw.Bridge.Source
open PeridotSw.Bridge.SourceDecoding

/-! ## Threads -/

/-- Where a thread is: not in the source, in front of `ALT_SEM_PEND`, or behind it, with the
channel number the call is going to store and what it has still to write; the first block is
what `write_to_host` is working on. -/
inductive Place (δ : Type) where
  | outside
  | pending (call : SourceCall δ)
  | writing (call : SourceCall δ) (number : Int) (blocks : List (List UInt8))

/-- The bridge, the tokens of `state.lock`, the threads, the bytes on the link, and the calls
in the order in which they have taken the lock. -/
structure State (Thread δ : Type) where
  bridge : BridgeState δ
  lock : Nat
  places : Thread → Place δ
  link : List UInt8
  order : List (Thread × SourceCall δ)

/-- Behind `peridot_sw_hostbridge_gen2_init`. -/
def initial (Thread : Type) {δ : Type} (registry : Registry δ) : State Thread δ where
  bridge := freshBridge registry
  lock := 1
  places := fun _ => .outside
  link := []
  order := []

inductive Action (Thread δ : Type) where
  | call (thread : Thread) (call : SourceCall δ)
  | pend (thread : Thread)
  | write (thread : Thread) (answer : Int)
  | next (thread : Thread)
  | post (thread : Thread)
  | receive (read : List UInt8)

variable {Thread δ : Type} [DecidableEq Thread]

def State.move (state : State Thread δ) (thread : Thread) (place : Place δ) : State Thread δ :=
  { state with places := Function.update state.places thread place }

/-- The lock has been taken: the blocks are those of the call for the bridge as it is now. -/
def State.start (state : State Thread δ) (thread : Thread) (call : SourceCall δ) :
    State Thread δ :=
  let sourced := peridotSwHostbridgeGen2Source state.bridge call.channel call.ptr call.flags
  { state.move thread (.writing call sourced.1.sourceChannelNumber sourced.2) with
    lock := state.lock - 1
    order := state.order ++ [(thread, call)] }

/-- A step.  The channel number is stored when `write_to_host` returns from the first block,
which is the channel prefix if the number changes. -/
def step (state : State Thread δ) : Action Thread δ → Option (State Thread δ)
  | .call thread call =>
      match state.places thread with
      | .outside => some (state.move thread (.pending call))
      | _ => none
  | .pend thread =>
      match state.places thread with
      | .pending call => if 0 < state.lock then some (state.start thread call) else none
      | _ => none
  | .write thread answer =>
      match state.places thread with
      | .writing call number ((byte :: rest) :: blocks) =>
          if 0 < answer then
            some { state.move thread
                (.writing call number ((byte :: rest).drop answer.toNat :: blocks)) with
              link := state.link ++ (byte :: rest).take answer.toNat }
          else
            some state
      | _ => none
  | .next thread =>
      match state.places thread with
      | .writing call number ([] :: blocks) =>
          some { state.move thread (.writing call number blocks) with
            bridge := { state.bridge with sourceChannelNumber := number } }
      | _ => none
  | .post thread =>
      match state.places thread with
      | .writing _ _ [] => some { state.move thread .outside with lock := state.lock + 1 }
      | _ => none
  | .receive read =>
      some { state with bridge := (peridotSwHostbridgeGen2Service state.bridge read).1 }

/-! ## What the other end reads -/

def Writing : Place δ → Prop
  | .writing _ _ _ => True
  | _ => False

/-- What the calls should be read as, one behind the other. -/
def heardOf (order : List (Thread × SourceCall δ)) : List Item :=
  order.flatMap fun entry => entry.2.items

/-- One thread writes at a time; the other end has read a beginning of the calls in the order
of the lock, and all of them to the end when the lock is free. -/
structure Whole (state : State Thread δ) : Prop where
  alone : ∀ one other, Writing (state.places one) → Writing (state.places other) → one = other
  heard : (decode (resting none) state.link).2 <+: heardOf state.order
  complete : state.lock = 1 →
    ∃ last, decode (resting none) state.link = (resting last, heardOf state.order)

def callsOf (thread : Thread) (order : List (Thread × SourceCall δ)) : List (SourceCall δ) :=
  (order.filter fun entry => entry.1 = thread).map Prod.snd

/-- The call that a thread has made and that has not got the lock. -/
def waiting : Place δ → List (SourceCall δ)
  | .pending call => [call]
  | _ => []

def made (actions : List (Action Thread δ)) : List (Thread × SourceCall δ) :=
  actions.filterMap fun action =>
    match action with
    | .call thread call => some (thread, call)
    | _ => none

/-! ## Steps -/

/-- What a step does. -/
inductive Moves (state : State Thread δ) : Action Thread δ → State Thread δ → Prop where
  | call {thread : Thread} {call : SourceCall δ} (here : state.places thread = .outside) :
      Moves state (.call thread call) (state.move thread (.pending call))
  | pend {thread : Thread} {call : SourceCall δ} (here : state.places thread = .pending call)
      (free : 0 < state.lock) : Moves state (.pend thread) (state.start thread call)
  | write {thread : Thread} {call : SourceCall δ} {number answer : Int} {block : List UInt8}
      {blocks : List (List UInt8)}
      (here : state.places thread = .writing call number (block :: blocks)) :
      Moves state (.write thread answer)
        { state.move thread (.writing call number (block.drop answer.toNat :: blocks)) with
          link := state.link ++ block.take answer.toNat }
  | yield {thread : Thread} {answer : Int} : Moves state (.write thread answer) state
  | next {thread : Thread} {call : SourceCall δ} {number : Int} {blocks : List (List UInt8)}
      (here : state.places thread = .writing call number ([] :: blocks)) :
      Moves state (.next thread)
        { state.move thread (.writing call number blocks) with
          bridge := { state.bridge with sourceChannelNumber := number } }
  | post {thread : Thread} {call : SourceCall δ} {number : Int}
      (here : state.places thread = .writing call number []) :
      Moves state (.post thread) { state.move thread .outside with lock := state.lock + 1 }
  | receive (read : List UInt8) :
      Moves state (.receive read)
        { state with bridge := (peridotSwHostbridgeGen2Service state.bridge read).1 }

theorem step_moves {state next : State Thread δ} {action : Action Thread δ}
    (taken : step state action = some next) : Moves state action next := by
  cases action with
  | call thread call =>
      cases here : state.places thread with
      | outside =>
          simp only [step, here, Option.some.injEq] at taken
          exact taken ▸ .call here
      | pending => simp [step, here] at taken
      | writing => simp [step, here] at taken
  | pend thread =>
      cases here : state.places thread with
      | outside => simp [step, here] at taken
      | writing => simp [step, here] at taken
      | pending call =>
          simp only [step, here, Option.ite_none_right_eq_some, Option.some.injEq] at taken
          exact taken.2 ▸ .pend here taken.1
  | write thread answer =>
      cases here : state.places thread with
      | outside => simp [step, here] at taken
      | pending => simp [step, here] at taken
      | writing call number blocks =>
          match blocks with
          | [] => simp [step, here] at taken
          | [] :: blocks => simp [step, here] at taken
          | (byte :: rest) :: blocks =>
              simp only [step, here] at taken
              split at taken
              · exact Option.some.inj taken ▸ .write here
              · exact Option.some.inj taken ▸ .yield
  | next thread =>
      cases here : state.places thread with
      | outside => simp [step, here] at taken
      | pending => simp [step, here] at taken
      | writing call number blocks =>
          match blocks with
          | [] => simp [step, here] at taken
          | (byte :: rest) :: blocks => simp [step, here] at taken
          | [] :: blocks =>
              simp only [step, here, Option.some.injEq] at taken
              exact taken ▸ .next here
  | post thread =>
      cases here : state.places thread with
      | outside => simp [step, here] at taken
      | pending => simp [step, here] at taken
      | writing call number blocks =>
          match blocks with
          | block :: blocks => simp [step, here] at taken
          | [] =>
              simp only [step, here, Option.some.injEq] at taken
              exact taken ▸ .post here
  | receive read => exact Option.some.inj taken ▸ .receive read

/-! ## The service leaves the source alone -/

theorem agree_receive {bridge : BridgeState δ} {channel : Option UInt8}
    (agree : Agree bridge channel) (read : List UInt8) :
    Agree (peridotSwHostbridgeGen2Service bridge read).1 channel := by
  cases channel with
  | none => exact (service_source bridge read).trans agree
  | some number => exact (service_source bridge read).trans agree

/-! ## The invariant -/

/-- The lock is free, and everything has been read; or one thread has it, and with what is
left of its blocks everything will have been. -/
inductive Sent (state : State Thread δ) : Prop where
  | free (last : Option UInt8) (lock : state.lock = 1)
      (nobody : ∀ thread, ¬Writing (state.places thread))
      (read : decode (resting none) state.link = (resting last, heardOf state.order))
      (agree : Agree state.bridge last)
  | held (thread : Thread) (call : SourceCall δ) (number : Int) (blocks : List (List UInt8))
      (lock : state.lock = 0) (here : state.places thread = .writing call number blocks)
      (others : ∀ other, other ≠ thread → ¬Writing (state.places other))
      (read : decode (resting none) (state.link ++ blocks.flatten) =
        (resting (some call.channel.number), heardOf state.order))
      (stores : number = call.channel.number.toNat)
      (agree : blocks = [] → Agree state.bridge (some call.channel.number))

variable {state next : State Thread δ}

theorem Sent.whole (sent : Sent state) : Whole state := by
  cases sent with
  | free last lock nobody read agree =>
      refine ⟨fun one other writes => absurd writes (nobody one), ?_, fun _ => ⟨last, read⟩⟩
      exact (congrArg Prod.snd read).symm ▸ List.prefix_refl _
  | held thread call number blocks lock here others read stores agree =>
      refine ⟨fun one other first second => ?_, ?_, fun free => ?_⟩
      · by_cases one' : one = thread
        · by_cases other' : other = thread
          · rw [one', other']
          · exact absurd second (others other other')
        · exact absurd first (others one one')
      · rw [decode_append] at read
        exact ⟨_, congrArg Prod.snd read⟩
      · rw [lock] at free
        cases free

omit [DecidableEq Thread] in
theorem sent_initial (registry : Registry δ) : Sent (initial Thread registry) :=
  .free none rfl (fun _ => id) rfl rfl

theorem idle_move {thread other : Thread} {place : Place δ}
    (moved : other = thread → ¬Writing place)
    (stays : other ≠ thread → ¬Writing (state.places other)) :
    ¬Writing ((state.move thread place).places other) := by
  change ¬Writing (Function.update state.places thread place other)
  by_cases same : other = thread
  · rw [same, Function.update_self]
    exact moved same
  · rw [Function.update_of_ne same]
    exact stays same

/-- Another place than `writing` changes nothing. -/
theorem Sent.aside (sent : Sent state) {thread : Thread} {place : Place δ}
    (before : ¬Writing (state.places thread)) (after : ¬Writing place) :
    Sent (state.move thread place) := by
  cases sent with
  | free last lock nobody read agree =>
      exact .free last lock (fun other => idle_move (fun _ => after) fun _ => nobody other) read
        agree
  | held holder call number blocks lock here others read stores agree =>
      have apart : holder ≠ thread := by
        rintro rfl
        rw [here] at before
        exact before trivial
      exact .held holder call number blocks lock ((Function.update_of_ne apart _ _).trans here)
        (fun other differs => idle_move (fun _ => after) fun _ => others other differs) read
        stores agree

/-- Who has the lock goes on with its blocks. -/
theorem Sent.onward (sent : Sent state) {thread : Thread} {call : SourceCall δ} {number : Int}
    {blocks : List (List UInt8)} (here : state.places thread = .writing call number blocks) :
    state.lock = 0 ∧ number = call.channel.number.toNat ∧
      (∀ other, other ≠ thread → ¬Writing (state.places other)) ∧
      decode (resting none) (state.link ++ blocks.flatten) =
        (resting (some call.channel.number), heardOf state.order) ∧
      (blocks = [] → Agree state.bridge (some call.channel.number)) := by
  cases sent with
  | free last lock nobody read agree =>
      have idle := nobody thread
      rw [here] at idle
      exact absurd trivial idle
  | held holder call' number' blocks' lock here' others read stores agree =>
      have same : thread = holder := by
        refine Decidable.byContradiction fun differs => others thread differs ?_
        rw [here]
        trivial
      subst same
      cases here.symm.trans here'
      exact ⟨lock, stores, others, read, agree⟩

/-- A call that gets the lock is the next to be read. -/
theorem Sent.start (sent : Sent state) {thread : Thread} {call : SourceCall δ}
    (free : 0 < state.lock) : Sent (state.start thread call) := by
  cases sent with
  | held holder call' number blocks lock here others read stores agree => omega
  | free last lock nobody read agree =>
      obtain ⟨emits, stored⟩ := decode_emitted agree call
      refine .held thread call _ _ ?_ (Function.update_self ..)
        (fun other differs => idle_move (fun same => absurd same differs) fun _ => nobody other)
        ?_ stored fun nothing => ?_
      · change state.lock - 1 = 0
        rw [lock]
      · change decode (resting none) (state.link ++ emitted state.bridge call.channel call.ptr
          call.flags) = (_, heardOf (state.order ++ [(thread, call)]))
        rw [decode_append, read]
        dsimp only
        rw [emits]
        simp [heardOf]
      · -- without blocks the number has not changed
        have unchanged : (peridotSwHostbridgeGen2Source state.bridge call.channel call.ptr
            call.flags).1.sourceChannelNumber = state.bridge.sourceChannelNumber := by
          unfold peridotSwHostbridgeGen2Source at nothing ⊢
          dsimp only at nothing ⊢
          split
          · rename_i selects
            rw [if_pos selects] at nothing
            cases nothing
          · rfl
        exact unchanged.symm.trans stored

theorem step_sent (state : State Thread δ) (action : Action Thread δ) (next : State Thread δ)
    (sent : Sent state) (taken : step state action = some next) : Sent next := by
  cases step_moves taken with
  | call here => exact sent.aside (by rw [here]; exact id) id
  | pend here free => exact sent.start free
  | @write thread call number answer block blocks here =>
      obtain ⟨lock, stores, others, read, -⟩ := sent.onward here
      have whole : state.link ++ block.take answer.toNat ++
          (block.drop answer.toNat :: blocks).flatten =
        state.link ++ (block :: blocks).flatten := by
        rw [List.flatten_cons, List.flatten_cons, List.append_assoc,
          ← List.append_assoc (List.take _ _), List.take_append_drop]
      exact .held thread call number (block.drop answer.toNat :: blocks) lock
        (Function.update_self ..)
        (fun other differs => idle_move (fun same => absurd same differs) (others other))
        ((congrArg (decode (resting none)) whole).trans read) stores (by simp)
  | yield => exact sent
  | @next thread call number blocks here =>
      obtain ⟨lock, stores, others, read, -⟩ := sent.onward here
      exact .held thread call number blocks lock (Function.update_self ..)
        (fun other differs => idle_move (fun same => absurd same differs) (others other)) read
        stores fun _ => stores
  | @post thread call number here =>
      obtain ⟨lock, -, others, read, agree⟩ := sent.onward here
      rw [List.flatten_nil, List.append_nil] at read
      exact .free _ (congrArg (· + 1) lock)
        (fun other => idle_move (fun _ => id) (others other)) read (agree rfl)
  | receive read =>
      cases sent with
      | free last lock nobody heard agree =>
          exact .free last lock nobody heard (agree_receive agree read)
      | held thread call number blocks lock here others heard stores agree =>
          exact .held thread call number blocks lock here others heard stores
            fun drained => agree_receive (agree drained) read

/-! ## The order of the lock -/

theorem callsOf_append (thread : Thread) (first second : List (Thread × SourceCall δ)) :
    callsOf thread (first ++ second) = callsOf thread first ++ callsOf thread second := by
  simp [callsOf]

theorem callsOf_singleton (thread other : Thread) (call : SourceCall δ) :
    callsOf thread [(other, call)] = if other = thread then [call] else [] := by
  by_cases same : other = thread <;> simp [callsOf, same]

def soFar (state : State Thread δ) (thread : Thread) : List (SourceCall δ) :=
  callsOf thread state.order ++ waiting (state.places thread)

theorem soFar_kept {other : Thread} {place : Place δ} (order : next.order = state.order)
    (places : next.places = Function.update state.places other place)
    (same : waiting place = waiting (state.places other)) (thread : Thread) :
    soFar next thread = soFar state thread ++ callsOf thread [] := by
  change _ = soFar state thread ++ []
  rw [List.append_nil, soFar, soFar, order, places]
  by_cases here : thread = other
  · rw [here, Function.update_self, same]
  · rw [Function.update_of_ne here]

theorem soFar_call {thread other : Thread} {call : SourceCall δ}
    (outside : state.places other = .outside) :
    soFar (state.move other (.pending call)) thread =
      soFar state thread ++ callsOf thread [(other, call)] := by
  rw [callsOf_singleton]
  by_cases here : thread = other
  · subst here
    simp [soFar, State.move, outside, waiting]
  · simp [soFar, State.move, here, Ne.symm here]

theorem soFar_start {thread other : Thread} {call : SourceCall δ}
    (pending : state.places other = .pending call) :
    soFar (state.start other call) thread = soFar state thread := by
  simp only [soFar, State.start, callsOf_append, callsOf_singleton]
  by_cases here : thread = other
  · subst here
    simp [State.move, pending, waiting]
  · simp [State.move, here, Ne.symm here]

theorem step_soFar {action : Action Thread δ} (taken : step state action = some next)
    (thread : Thread) :
    soFar next thread = soFar state thread ++ callsOf thread (made [action]) := by
  have nothing (calls : List (SourceCall δ)) : calls = calls ++ callsOf thread [] :=
    (List.append_nil calls).symm
  cases step_moves taken with
  | call here => exact soFar_call here
  | pend here free => exact (soFar_start here).trans (nothing _)
  | write here => exact soFar_kept (by rfl) (by rfl) (by rw [here]; rfl) thread
  | yield => exact nothing _
  | next here => exact soFar_kept (by rfl) (by rfl) (by rw [here]; rfl) thread
  | post here => exact soFar_kept (by rfl) (by rfl) (by rw [here]; rfl) thread
  | receive read => exact nothing _

theorem run_soFar {actions : List (Action Thread δ)} (arrives : run step state actions = some next)
    (thread : Thread) :
    soFar next thread = soFar state thread ++ callsOf thread (made actions) := by
  induction actions generalizing state with
  | nil =>
      cases arrives
      exact (List.append_nil _).symm
  | cons action rest ih =>
      rw [run] at arrives
      split at arrives
      · cases arrives
      · rename_i middle taken
        rw [ih arrives, step_soFar taken, List.append_assoc, ← callsOf_append]
        congr 2
        simp only [made, ← List.filterMap_append, List.singleton_append]

/-- However the threads and the service take turns, and however `write` divides the blocks,
frames are never mixed: the other end reads the calls one after the other in the order of the
lock, in which the calls of each thread are in the order it made them. -/
theorem sources_whole (registry : Registry δ) (actions : List (Action Thread δ)) :
    Always step Whole (initial Thread registry) actions ∧
      ∀ state, run step (initial Thread registry) actions = some state → ∀ thread,
        callsOf thread state.order ++ waiting (state.places thread) =
          callsOf thread (made actions) := by
  constructor
  · exact (always_of_kept step_sent (sent_initial registry) actions).mono
      fun _ sent => sent.whole
  · intro state arrives thread
    exact run_soFar arrives thread

/-- Two threads: the second waits at the lock while the first writes its packet in parts. -/
def turns : List (Action Bool Unit) :=
  let packet : SourceCall Unit := ⟨⟨1, true, ()⟩, [0x7a], 1, by decide, .inl (by decide)⟩
  let plain : SourceCall Unit := ⟨⟨2, false, ()⟩, [0x41], 0, by decide, .inr rfl⟩
  [.call false packet, .call true plain, .pend false, .write false 2, .next false,
    .write false 3, .write false 0, .write false 1, .next false, .post false, .pend true,
    .write true 2, .next true, .write true 1, .next true, .post true]

theorem sources_whole_turns : ∃ state,
    run step (initial Bool ⟨[], List.nodup_nil⟩) turns = some state ∧
    Always step Whole (initial Bool ⟨[], List.nodup_nil⟩) turns ∧
      callsOf true state.order ++ waiting (state.places true) = callsOf true (made turns) :=
  have whole := sources_whole (⟨[], List.nodup_nil⟩ : Registry Unit) turns
  ⟨_, rfl, whole.1, whole.2 _ rfl true⟩

end PeridotSw.Bridge.SourceThreads
