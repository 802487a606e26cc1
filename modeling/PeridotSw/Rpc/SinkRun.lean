import PeridotSw.Rpc.Sink

/-!
# Runs of the RPC sink, step by step

One rule carries every whole-run statement about the sink.  Given an invariant
relating the bytes consumed so far to the state, and a property of single
effects, it suffices to look at one byte: a byte is allowed exactly when its
effects have the property, and an allowed byte keeps the invariant.
-/

namespace PeridotSw.Rpc.SinkRun

open PeridotSw.Stream.Ast
open PeridotSw.Rpc.Sink

variable {cfg : Config} {malloc : Allocator}

/-! ## The ways a byte can be taken -/

/-- Where a payload byte of a packet falls. -/
inductive PayloadCase (state : State) : Prop where
  | short (low : state.offset < 3)
  | fourth (last : state.offset = 3)
  | beyond (high : 4 ≤ state.offset) (full : state.lengthWord ≤ state.offset)
  | data (high : 4 ≤ state.offset) (room : state.offset < state.lengthWord)
      (job : RpcsrvJob) (held : state.incomingJob = some job)
  | skip (high : 4 ≤ state.offset) (room : state.offset < state.lengthWord)
      (jobless : state.incomingJob = none)

theorem payloadCase (state : State) : PayloadCase state := by
  by_cases low : state.offset < 3
  · exact .short low
  · by_cases last : state.offset = 3
    · exact .fourth last
    · by_cases full : state.lengthWord ≤ state.offset
      · exact .beyond (by omega) full
      · cases held : state.incomingJob with
        | none => exact .skip (by omega) (by omega) held
        | some job => exact .data (by omega) (by omega) job held

variable {state : State} {byte : UInt8}

theorem payloadByte_short (low : state.offset < 3) :
    payloadByte cfg malloc state byte = finishByte (storeLengthByte state byte) := by
  unfold payloadByte
  rw [if_pos (by omega)]
  exact if_neg (show ¬state.offset + 1 = 4 by omega)

theorem payloadByte_fourth (last : state.offset = 3) :
    payloadByte cfg malloc state byte =
      (allocateJob cfg malloc (storeLengthByte state byte)).andThen finishByte := by
  unfold payloadByte
  rw [if_pos (by omega)]
  exact if_pos (show state.offset + 1 = 4 by omega)

theorem payloadByte_beyond (high : 4 ≤ state.offset)
    (full : state.lengthWord ≤ state.offset) :
    payloadByte cfg malloc state byte = dropPacket state := by
  unfold payloadByte
  rw [if_neg (by omega), if_pos full]

theorem payloadByte_data (high : 4 ≤ state.offset)
    (room : state.offset < state.lengthWord) {job : RpcsrvJob}
    (held : state.incomingJob = some job) :
    payloadByte cfg malloc state byte =
      (storeDataByte state job byte).andThen finishByte := by
  unfold payloadByte
  rw [if_neg (by omega), if_neg (by omega), held]

theorem payloadByte_skip (high : 4 ≤ state.offset)
    (room : state.offset < state.lengthWord) (jobless : state.incomingJob = none) :
    payloadByte cfg malloc state byte = finishByte state := by
  unfold payloadByte
  rw [if_neg (by omega), if_neg (by omega), jobless]

/-- The state in which a payload byte is stored: the escape has been used up. -/
def unescaped (state : State) : State := { state with escapePrefix := false }

/-- A byte of the stream is a marker, a byte outside any packet, or payload. -/
inductive ByteCase (state : State) (raw : UInt8) : Prop where
  | sop (marker : raw = astSop)
  | eop (marker : raw = astEopPrefix)
  | escape (marker : raw = astEscapePrefix)
  | outside (notSop : raw ≠ astSop) (notEop : raw ≠ astEopPrefix)
      (notEscape : raw ≠ astEscapePrefix) (outside : state.insidePacket = false)
  | payload (notSop : raw ≠ astSop) (notEop : raw ≠ astEopPrefix)
      (notEscape : raw ≠ astEscapePrefix) (inside : state.insidePacket = true)

theorem byteCase (state : State) (raw : UInt8) : ByteCase state raw := by
  by_cases sop : raw = astSop
  · exact .sop sop
  · by_cases eop : raw = astEopPrefix
    · exact .eop eop
    · by_cases escape : raw = astEscapePrefix
      · exact .escape escape
      · cases inside : state.insidePacket with
        | false => exact .outside sop eop escape inside
        | true => exact .payload sop eop escape inside

variable {raw : UInt8}

theorem sinkByte_sop : sinkByte cfg malloc state astSop =
    ({ state with offset := 0, insidePacket := true, eopPrefix := false }, []) := rfl

theorem sinkByte_eop : sinkByte cfg malloc state astEopPrefix =
    ({ state with eopPrefix := true }, []) := rfl

theorem sinkByte_escape : sinkByte cfg malloc state astEscapePrefix =
    ({ state with escapePrefix := true }, []) := rfl

theorem sinkByte_outside (notSop : raw ≠ astSop) (notEop : raw ≠ astEopPrefix)
    (notEscape : raw ≠ astEscapePrefix) (outside : state.insidePacket = false) :
    sinkByte cfg malloc state raw = (unescaped state, []) := by
  rw [sinkByte, if_neg notSop, if_neg notEop, if_neg notEscape, if_pos outside]
  rfl

theorem sinkByte_payload (notSop : raw ≠ astSop) (notEop : raw ≠ astEopPrefix)
    (notEscape : raw ≠ astEscapePrefix) (inside : state.insidePacket = true) :
    sinkByte cfg malloc state raw =
      payloadByte cfg malloc (unescaped state) (unescape state.escapePrefix raw) := by
  rw [sinkByte, if_neg notSop, if_neg notEop, if_neg notEscape, if_neg (by simp [inside])]
  rfl

/-- An allocation changes the job and the number of allocations, nothing else. -/
theorem allocateJob_state (cfg : Config) (malloc : Allocator) (state : State) :
    ∃ job count, (allocateJob cfg malloc state).1 =
      { state with incomingJob := job, mallocs := count } := by
  unfold allocateJob
  dsimp only
  split
  · split <;> exact ⟨_, _, rfl⟩
  · exact ⟨state.incomingJob, state.mallocs, rfl⟩

@[simp] theorem allocateJob_eopPrefix (state : State) :
    (allocateJob cfg malloc state).1.eopPrefix = state.eopPrefix := by
  obtain ⟨job, count, same⟩ := allocateJob_state cfg malloc state
  rw [same]

@[simp] theorem allocateJob_offset (state : State) :
    (allocateJob cfg malloc state).1.offset = state.offset := by
  obtain ⟨job, count, same⟩ := allocateJob_state cfg malloc state
  rw [same]

@[simp] theorem allocateJob_lengthWord (state : State) :
    (allocateJob cfg malloc state).1.lengthWord = state.lengthWord := by
  obtain ⟨job, count, same⟩ := allocateJob_state cfg malloc state
  rw [same]
  rfl

@[simp] theorem allocateJob_pendingJob (state : State) :
    (allocateJob cfg malloc state).1.pendingJob = state.pendingJob := by
  obtain ⟨job, count, same⟩ := allocateJob_state cfg malloc state
  rw [same]

/-! ## Effects and the bytes they take -/

theorem consumed_finishByte (state : State) : consumed (finishByte state).2 = [] := by
  unfold finishByte dropPacket
  split
  · rfl
  · split <;> rfl

theorem consumed_allocateJob (state : State) :
    consumed (allocateJob cfg malloc state).2 = [] := by
  unfold allocateJob
  split
  · dsimp only
    split <;> rfl
  · rfl

theorem consumed_andThen (outcome : Outcome) (rest : State → Outcome) :
    consumed (outcome.andThen rest).2 =
      consumed outcome.2 ++ consumed (rest outcome.1).2 :=
  consumed_append _ _

theorem consumed_payloadByte (state : State) (byte : UInt8) :
    consumed (payloadByte cfg malloc state byte).2 = [] := by
  cases payloadCase state with
  | short low => rw [payloadByte_short low, consumed_finishByte]
  | fourth last =>
      rw [payloadByte_fourth last, consumed_andThen, consumed_allocateJob,
        consumed_finishByte]
      rfl
  | beyond high full => rw [payloadByte_beyond high full]; rfl
  | data high room job held =>
      rw [payloadByte_data high room held, consumed_andThen, consumed_finishByte]
      rfl
  | skip high room jobless =>
      rw [payloadByte_skip high room jobless, consumed_finishByte]

/-- The effects of one loop body consume nothing beyond the byte itself. -/
theorem consumed_sinkByte (cfg : Config) (malloc : Allocator) (state : State)
    (raw : UInt8) :
    consumed (sinkByte cfg malloc state raw).2 = [] := by
  cases byteCase state raw with
  | sop marker => rw [marker]; rfl
  | eop marker => rw [marker]; rfl
  | escape marker => rw [marker]; rfl
  | outside notSop notEop notEscape outside =>
      rw [sinkByte_outside notSop notEop notEscape outside]
      rfl
  | payload notSop notEop notEscape inside =>
      rw [sinkByte_payload notSop notEop notEscape inside]
      exact consumed_payloadByte _ _

/-- Every effect has the property, given the bytes consumed up to and including it. -/
def EffectsHave (property : List UInt8 → Effect → Prop) :
    List UInt8 → List Effect → Prop
  | _, [] => True
  | history, effect :: rest =>
      property (history ++ consumed [effect]) effect ∧
        EffectsHave property (history ++ consumed [effect]) rest

variable {property : List UInt8 → Effect → Prop}

theorem effectsHave_append (history : List UInt8) (first second : List Effect) :
    EffectsHave property history (first ++ second) ↔
      EffectsHave property history first ∧
        EffectsHave property (history ++ consumed first) second := by
  induction first generalizing history with
  | nil => simp [EffectsHave]
  | cons effect rest ih =>
      have split : consumed (effect :: rest) = consumed [effect] ++ consumed rest :=
        consumed_append [effect] rest
      rw [List.cons_append, EffectsHave, ih, split, ← List.append_assoc, ← and_assoc]
      rfl

/-- The property at every position of the list of effects. -/
theorem effectsHave_iff (history : List UInt8) (effects : List Effect) :
    EffectsHave property history effects ↔
      ∀ before effect after, effects = before ++ effect :: after →
        property (history ++ consumed (before ++ [effect])) effect := by
  constructor
  · intro all before effect after split
    rw [split, effectsHave_append] at all
    rw [consumed_append, ← List.append_assoc]
    exact all.2.1
  · intro every
    induction effects generalizing history with
    | nil => trivial
    | cons effect rest ih =>
        refine ⟨every [] effect rest rfl, ih _ ?_⟩
        intro before other after split
        have here := every (effect :: before) other after (by rw [split]; rfl)
        have shape : consumed (effect :: before ++ [other]) =
            consumed [effect] ++ consumed (before ++ [other]) :=
          consumed_append [effect] (before ++ [other])
        rw [shape, ← List.append_assoc] at here
        exact here

theorem effectsHave_of_consumed_nil {history : List UInt8} {effects : List Effect}
    (silent : consumed effects = []) :
    EffectsHave property history effects ↔ ∀ effect ∈ effects, property history effect := by
  induction effects with
  | nil => simp [EffectsHave]
  | cons effect rest ih =>
      have parts : consumed [effect] = [] ∧ consumed rest = [] := by
        have split : consumed (effect :: rest) = consumed [effect] ++ consumed rest :=
          consumed_append [effect] rest
        rw [split, List.append_eq_nil_iff] at silent
        exact silent
      rw [EffectsHave, parts.1, List.append_nil, ih parts.2, List.forall_mem_cons]

/-- What a property of effects and a condition on bytes must satisfy together so
that they can be carried along a run. -/
structure StepRule (cfg : Config) (malloc : Allocator)
    (invariant : List UInt8 → State → Prop) (allowed : State → UInt8 → Prop)
    (property : List UInt8 → Effect → Prop) : Prop where
  taken : ∀ history byte, property history (.consume byte)
  exact : ∀ history state byte, invariant history state → state.pendingJob = none →
    (allowed state byte ↔
      ∀ effect ∈ (sinkByte cfg malloc state byte).2, property (history ++ [byte]) effect)
  preserved : ∀ history state byte, invariant history state → state.pendingJob = none →
    allowed state byte → invariant (history ++ [byte]) (sinkByte cfg malloc state byte).1
  service : ∀ history state next job, invariant history state →
    takePendingJob state = some (next, job) → invariant history next

variable {invariant : List UInt8 → State → Prop} {allowed : State → UInt8 → Prop}

theorem StepRule.sink (rule : StepRule cfg malloc invariant allowed property)
    {history : List UInt8} {state : State} (holds : invariant history state)
    (buffer : List UInt8) :
    (SinkSteps cfg malloc allowed state buffer ↔
      EffectsHave property history (peridotRpcServerSink cfg malloc state buffer).1.2) ∧
    (SinkSteps cfg malloc allowed state buffer →
      invariant (history ++ consumed (peridotRpcServerSink cfg malloc state buffer).1.2)
        (peridotRpcServerSink cfg malloc state buffer).1.1) := by
  induction buffer generalizing history state with
  | nil => simpa [SinkSteps, peridotRpcServerSink, EffectsHave] using holds
  | cons byte rest ih =>
      cases pending : state.pendingJob with
      | some job =>
          simpa [SinkSteps, peridotRpcServerSink, EffectsHave, pending] using holds
      | none =>
          have silent := consumed_sinkByte cfg malloc state byte
          have step := rule.exact history state byte holds pending
          have first : EffectsHave property (history ++ [byte])
                (sinkByte cfg malloc state byte).2 ↔ allowed state byte := by
            rw [effectsHave_of_consumed_nil silent]
            exact step.symm
          simp only [SinkSteps, peridotRpcServerSink, pending, EffectsHave,
            consumed_cons, consumed_nil, consumed_append, silent, List.append_nil,
            List.nil_append, effectsHave_append, first]
          constructor
          · constructor
            · rintro ⟨here, later⟩
              have next := rule.preserved history state byte holds pending here
              exact ⟨rule.taken _ _, here, (ih next).1.mp later⟩
            · rintro ⟨_, here, later⟩
              have next := rule.preserved history state byte holds pending here
              exact ⟨here, (ih next).1.mpr later⟩
          · rintro ⟨here, later⟩
            have next := rule.preserved history state byte holds pending here
            simpa using (ih next).2 later

/-- A whole run, from any state the invariant admits. -/
theorem StepRule.run (rule : StepRule cfg malloc invariant allowed property)
    (history : List UInt8) {state : State} (holds : invariant history state)
    (actions : List Action) :
    (RunSteps cfg malloc allowed state actions ↔
      EffectsHave property history (Sink.run cfg malloc state actions).2) ∧
    (RunSteps cfg malloc allowed state actions →
      invariant (history ++ consumed (Sink.run cfg malloc state actions).2)
        (Sink.run cfg malloc state actions).1) := by
  induction actions generalizing history state with
  | nil => simpa [RunSteps, Sink.run, EffectsHave] using holds
  | cons action rest ih =>
      cases action with
      | sink buffer =>
          have call := rule.sink holds buffer
          simp only [RunSteps, Sink.run, Outcome.andThen, act, effectsHave_append,
            consumed_append, ← List.append_assoc]
          constructor
          · constructor
            · rintro ⟨here, later⟩
              exact ⟨call.1.mp here, (ih _ (call.2 here)).1.mp later⟩
            · rintro ⟨here, later⟩
              have steps := call.1.mpr here
              exact ⟨steps, (ih _ (call.2 steps)).1.mpr later⟩
          · rintro ⟨here, later⟩
            exact (ih _ (call.2 here)).2 later
      | service =>
          cases taken : takePendingJob state with
          | none =>
              simpa [RunSteps, Sink.run, Outcome.andThen, act, taken] using ih history holds
          | some result =>
              have next := rule.service history state result.1 result.2 holds taken
              simpa [RunSteps, Sink.run, Outcome.andThen, act, taken] using ih history next

/-- A condition on every byte of a run holds of its beginnings. -/
theorem runSteps_of_front {front actions : List Action} (start : front <+: actions)
    (steps : RunSteps cfg malloc allowed state actions) :
    RunSteps cfg malloc allowed state front := by
  obtain ⟨rest, rfl⟩ := start
  induction front generalizing state with
  | nil => trivial
  | cons action front ih =>
      cases action with
      | sink buffer => exact ⟨steps.1, ih steps.2⟩
      | service => exact ih steps

end PeridotSw.Rpc.SinkRun
