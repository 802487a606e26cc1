import PeridotSw.Rpc.SinkRun

/-!
# Where the RPC sink stores

Every store goes to the incoming job, whose block was allocated for the length
declared when it was made.  A declared length from minus eight to three leaves
no room for the length word itself, and a length above the maximum keeps the job
of an aborted packet, which may be shorter than what is now received.
-/

namespace PeridotSw.Rpc.SinkStores

open PeridotSw.Machine.Memory
open PeridotSw.Machine.Word
open PeridotSw.Stream.Ast
open PeridotSw.Rpc.Sink
open PeridotSw.Rpc.SinkRun

def StoreInside (_history : List UInt8) : Effect → Prop
  | .store size position width => position + width ≤ size
  | _ => True

def IsPayload (state : State) (raw : UInt8) : Prop :=
  raw ≠ astSop ∧ raw ≠ astEopPrefix ∧ raw ≠ astEscapePrefix ∧ state.insidePacket = true

/-- The length word once the fourth length byte is stored. -/
def declaredWord (state : State) (raw : UInt8) : Nat :=
  (storeLengthByte state (unescape state.escapePrefix raw)).lengthWord

/-- A length for which a job is allocated is not one of `-8, …, 3`, and data of a
packet above the maximum length stay below the length of a left-over job. -/
structure StoreSound (cfg : Config) (malloc : Allocator) (state : State) (raw : UInt8) :
    Prop where
  declared : IsPayload state raw → state.offset = 3 →
    signed (declaredWord state raw) ≤ cfg.maxRequestLength →
    malloc state.mallocs
      (unsigned (sizeofRpcsrvJob + signed (declaredWord state raw))) ≠ none →
    ¬(-8 ≤ signed (declaredWord state raw) ∧ signed (declaredWord state raw) < 4)
  leftOver : IsPayload state raw → 4 ≤ state.offset → state.offset < state.lengthWord →
    cfg.maxRequestLength < signed state.lengthWord →
    ∀ job, state.incomingJob = some job → state.offset < job.lengthWord

/-- The block of the incoming job has room for the bytes its length word counts,
and that word is the declared one unless the declared one was refused. -/
structure Sized (cfg : Config) (state : State) : Prop where
  sized : ∀ job, state.incomingJob = some job →
    job.size = sizeofRpcsrvJob + job.lengthWord ∧ 4 ≤ job.lengthWord
  fresh : state.insidePacket = true → 4 ≤ state.offset →
    signed state.lengthWord ≤ cfg.maxRequestLength →
    ∀ job, state.incomingJob = some job → job.lengthWord = state.lengthWord

variable {cfg : Config} {malloc : Allocator} {state : State}

/-- The size passed to `malloc` wraps to less than the header only for lengths
just below zero; with room for the length word it is the exact sum. -/
theorem size_exact {length : Nat} (bound : length < 2 ^ 32)
    (outside : ¬(-8 ≤ signed length ∧ signed length < 4)) :
    unsigned (sizeofRpcsrvJob + signed length) = sizeofRpcsrvJob + length ∧ 4 ≤ length := by
  unfold unsigned signed sizeofRpcsrvJob at *
  split at outside <;> simp_all <;> omega

theorem size_small {length : Nat}
    (inside : -8 ≤ signed length ∧ signed length < 4) :
    unsigned (sizeofRpcsrvJob + signed length) < sizeofRpcsrvJob + 4 := by
  unfold unsigned sizeofRpcsrvJob
  omega

theorem sized_initial : Sized cfg initial where
  sized := by intro job held; cases held
  fresh := by intro inside; cases inside

theorem sized_nextPacket : Sized cfg (nextPacket state) where
  sized := by intro job held; cases held
  fresh := by intro inside; cases inside

theorem sized_finishByte (holds : Sized cfg state) : Sized cfg (finishByte state).1 := by
  unfold finishByte
  split
  · exact holds
  · split
    · exact sized_nextPacket
    · exact sized_nextPacket

theorem finishByte_inside (history : List UInt8) :
    ∀ effect ∈ (finishByte state).2, StoreInside history effect := by
  unfold finishByte dropPacket
  split
  · simp
  · split <;> simp [StoreInside]

theorem andThen_inside_iff (history : List UInt8) (outcome : Outcome) :
    (∀ effect ∈ (outcome.andThen finishByte).2, StoreInside history effect) ↔
      ∀ effect ∈ outcome.2, StoreInside history effect := by
  simp only [Outcome.andThen, List.mem_append, or_imp, forall_and]
  exact and_iff_left (finishByte_inside history)

/-- The length word is stored inside the block unless the length is tiny. -/
theorem allocateJob_inside_iff (history : List UInt8) :
    (∀ effect ∈ (allocateJob cfg malloc state).2, StoreInside history effect) ↔
      (signed state.lengthWord ≤ cfg.maxRequestLength →
        malloc state.mallocs
          (unsigned (sizeofRpcsrvJob + signed state.lengthWord)) ≠ none →
        ¬(-8 ≤ signed state.lengthWord ∧ signed state.lengthWord < 4)) := by
  unfold allocateJob
  by_cases small : signed state.lengthWord ≤ cfg.maxRequestLength
  · rw [if_pos small]
    dsimp only
    cases block : malloc state.mallocs
        (unsigned (sizeofRpcsrvJob + signed state.lengthWord)) with
    | none => simp [StoreInside]
    | some contents =>
        constructor
        · intro stores _ _ tiny
          have first := stores (.store _ sizeofRpcsrvJob 4) (.tail _ (.tail _ (.head _)))
          have limit := size_small tiny
          exact absurd first (Nat.not_le_of_lt limit)
        · intro sound
          have outside := sound small (by simp)
          obtain ⟨size, room⟩ := size_exact (le32_lt _ _ _ _) outside
          simp only [List.forall_mem_cons, StoreInside, true_and]
          change 4 + 4 ≤ unsigned (sizeofRpcsrvJob + signed state.lengthWord) ∧
            sizeofRpcsrvJob + 4 ≤ unsigned (sizeofRpcsrvJob + signed state.lengthWord) ∧ _
          have size' : unsigned (sizeofRpcsrvJob + signed state.lengthWord) =
            sizeofRpcsrvJob + state.lengthWord := size
          have room' : 4 ≤ state.lengthWord := room
          rw [size']
          refine ⟨?_, by omega, by simp⟩
          unfold sizeofRpcsrvJob
          omega
  · rw [if_neg small]
    simp [small]

theorem sized_allocateJob
    (sized : ∀ job, state.incomingJob = some job →
      job.size = sizeofRpcsrvJob + job.lengthWord ∧ 4 ≤ job.lengthWord)
    (inside : ∀ effect ∈ (allocateJob cfg malloc state).2, StoreInside [] effect) :
    Sized cfg (allocateJob cfg malloc state).1 := by
  have sound := (allocateJob_inside_iff []).mp inside
  unfold allocateJob
  split
  · rename_i small
    dsimp only
    split
    · exact
        { sized := by intro job held; cases held
          fresh := by intro _ _ _ job held; cases held }
    · rename_i block answered
      have outside := sound small (by simp [answered])
      have word : word (write block 0 (bytes32 state.lengthWord)) 0 = state.lengthWord :=
        word_of_holds (le32_lt _ _ _ _) (holds_write _ _ _)
      exact
        { sized := by
            intro job held
            cases held
            rw [RpcsrvJob.lengthWord, word]
            exact size_exact (le32_lt _ _ _ _) outside
          fresh := by
            intro _ _ _ job held
            cases held
            exact word }
  · rename_i large
    exact
      { sized := sized
        fresh := by intro _ _ small; exact absurd small large }

theorem sized_storeDataByte (holds : Sized cfg state) (inside : state.insidePacket = true)
    (high : 4 ≤ state.offset) {job : RpcsrvJob} (held : state.incomingJob = some job)
    (byte : UInt8) : Sized cfg (storeDataByte state job byte).1 where
  sized := by
    intro other same
    cases same
    change job.size = sizeofRpcsrvJob + word (write job.data state.offset [byte]) 0 ∧
      4 ≤ word (write job.data state.offset [byte]) 0
    rw [word_write_behind (by omega)]
    exact holds.sized job held
  fresh := by
    intro _ _ small other same
    cases same
    exact (word_write_behind (by omega) _).trans (holds.fresh inside high small job held)

theorem storeDataByte_inside_iff (history : List UInt8) (holds : Sized cfg state)
    {job : RpcsrvJob} (held : state.incomingJob = some job) (byte : UInt8) :
    (∀ effect ∈ (storeDataByte state job byte).2, StoreInside history effect) ↔
      state.offset < job.lengthWord := by
  simp only [storeDataByte, List.forall_mem_singleton, StoreInside,
    (holds.sized job held).1]
  omega

theorem storeSound_short (state : State) (raw : UInt8) (low : state.offset < 3) :
    StoreSound cfg malloc state raw :=
  ⟨fun _ _ => by omega, fun _ _ => by omega⟩

theorem storeSound_fourth (state : State) (raw : UInt8) (last : state.offset = 3)
    (payload : IsPayload state raw) :
    StoreSound cfg malloc state raw ↔
      (signed (declaredWord state raw) ≤ cfg.maxRequestLength →
        malloc state.mallocs
          (unsigned (sizeofRpcsrvJob + signed (declaredWord state raw))) ≠ none →
        ¬(-8 ≤ signed (declaredWord state raw) ∧ signed (declaredWord state raw) < 4)) :=
  ⟨fun sound => sound.declared payload last,
    fun declared => ⟨fun _ _ => declared, fun _ _ => by omega⟩⟩

theorem storeSound_long (state : State) (raw : UInt8) (high : 4 ≤ state.offset)
    (payload : IsPayload state raw) :
    StoreSound cfg malloc state raw ↔
      (state.offset < state.lengthWord → cfg.maxRequestLength < signed state.lengthWord →
        ∀ job, state.incomingJob = some job → state.offset < job.lengthWord) :=
  ⟨fun sound => sound.leftOver payload high,
    fun leftOver => ⟨fun _ _ => by omega, fun _ _ => leftOver⟩⟩

/-- A payload byte stores inside its job exactly when the step is sound. -/
theorem payloadByte_inside_iff {raw : UInt8} (history : List UInt8)
    (holds : Sized cfg state) (payload : IsPayload state raw) :
    (∀ effect ∈ (payloadByte cfg malloc (unescaped state)
        (unescape state.escapePrefix raw)).2, StoreInside history effect) ↔
      StoreSound cfg malloc state raw := by
  cases payloadCase (unescaped state) with
  | short low =>
      rw [payloadByte_short low]
      exact iff_of_true (finishByte_inside history) (storeSound_short state raw low)
  | fourth last =>
      rw [payloadByte_fourth last, andThen_inside_iff, allocateJob_inside_iff,
        storeSound_fourth state raw last payload]
      rfl
  | beyond high full =>
      rw [payloadByte_beyond high full, storeSound_long state raw high payload]
      constructor
      · intro _ room
        exact absurd full (Nat.not_le_of_lt room)
      · intro _
        simp [dropPacket, StoreInside]
  | data high room job held =>
      rw [payloadByte_data high room held, andThen_inside_iff,
        storeSound_long state raw high payload]
      have found : state.incomingJob = some job := held
      have sized : Sized cfg (unescaped state) := ⟨holds.sized, holds.fresh⟩
      rw [storeDataByte_inside_iff history sized held]
      constructor
      · intro below _ _ other same
        cases found.symm.trans same
        exact below
      · intro leftOver
        by_cases small : signed state.lengthWord ≤ cfg.maxRequestLength
        · rw [holds.fresh payload.2.2.2 high small job found]
          exact room
        · exact leftOver room (by omega) job found
  | skip high room jobless =>
      rw [payloadByte_skip high room jobless, storeSound_long state raw high payload]
      refine iff_of_true (finishByte_inside history) ?_
      intro _ _ job held
      cases held.symm.trans jobless

theorem sized_payloadByte {raw : UInt8} (holds : Sized cfg state)
    (payload : IsPayload state raw)
    (inside : ∀ effect ∈ (payloadByte cfg malloc (unescaped state)
        (unescape state.escapePrefix raw)).2, StoreInside [] effect) :
    Sized cfg (payloadByte cfg malloc (unescaped state)
      (unescape state.escapePrefix raw)).1 := by
  have sized : Sized cfg (unescaped state) := ⟨holds.sized, holds.fresh⟩
  cases payloadCase (unescaped state) with
  | short low =>
      rw [payloadByte_short low]
      refine sized_finishByte ⟨holds.sized, ?_⟩
      intro _ high
      have low' : state.offset < 3 := low
      have high' : 4 ≤ state.offset + 1 := high
      omega
  | fourth last =>
      rw [payloadByte_fourth last] at inside ⊢
      rw [andThen_inside_iff] at inside
      exact sized_finishByte (sized_allocateJob holds.sized inside)
  | beyond high full =>
      rw [payloadByte_beyond high full]
      exact sized_nextPacket
  | data high room job held =>
      rw [payloadByte_data high room held]
      exact sized_finishByte (sized_storeDataByte sized payload.2.2.2 high held _)
  | skip high room jobless =>
      rw [payloadByte_skip high room jobless]
      exact sized_finishByte sized

theorem sinkByte_inside_iff (history : List UInt8) (holds : Sized cfg state) (raw : UInt8) :
    (∀ effect ∈ (sinkByte cfg malloc state raw).2, StoreInside history effect) ↔
      StoreSound cfg malloc state raw := by
  have vacuous (no : ¬IsPayload state raw) : StoreSound cfg malloc state raw :=
    ⟨fun payload => absurd payload no, fun payload => absurd payload no⟩
  cases byteCase state raw with
  | sop marker =>
      have sound := vacuous fun payload => payload.1 marker
      rw [marker] at sound ⊢
      exact iff_of_true (by simp [sinkByte_sop]) sound
  | eop marker =>
      have sound := vacuous fun payload => payload.2.1 marker
      rw [marker] at sound ⊢
      exact iff_of_true (by simp [sinkByte_eop]) sound
  | escape marker =>
      have sound := vacuous fun payload => payload.2.2.1 marker
      rw [marker] at sound ⊢
      exact iff_of_true (by simp [sinkByte_escape]) sound
  | outside notSop notEop notEscape outside =>
      rw [sinkByte_outside notSop notEop notEscape outside]
      exact iff_of_true (by simp) (vacuous fun payload => by
        simp [IsPayload, outside] at payload)
  | payload notSop notEop notEscape inside =>
      rw [sinkByte_payload notSop notEop notEscape inside]
      exact payloadByte_inside_iff history holds ⟨notSop, notEop, notEscape, inside⟩

theorem sized_sinkByte (holds : Sized cfg state) (raw : UInt8)
    (sound : StoreSound cfg malloc state raw) :
    Sized cfg (sinkByte cfg malloc state raw).1 := by
  have inside := (sinkByte_inside_iff [] holds raw).mpr sound
  cases byteCase state raw with
  | sop marker =>
      rw [marker, sinkByte_sop]
      exact ⟨holds.sized, fun _ high => by cases high⟩
  | eop marker =>
      rw [marker, sinkByte_eop]
      exact ⟨holds.sized, holds.fresh⟩
  | escape marker =>
      rw [marker, sinkByte_escape]
      exact ⟨holds.sized, holds.fresh⟩
  | outside notSop notEop notEscape outside =>
      rw [sinkByte_outside notSop notEop notEscape outside]
      exact ⟨holds.sized, holds.fresh⟩
  | payload notSop notEop notEscape within =>
      rw [sinkByte_payload notSop notEop notEscape within] at inside ⊢
      exact sized_payloadByte holds ⟨notSop, notEop, notEscape, within⟩ inside

theorem storeRule (cfg : Config) (malloc : Allocator) :
    StepRule cfg malloc (fun _ => Sized cfg) (StoreSound cfg malloc) StoreInside where
  taken := fun _ _ => trivial
  exact := fun history _ raw holds _ =>
    (sinkByte_inside_iff (history ++ [raw]) holds raw).symm
  preserved := fun _ _ raw holds _ sound => sized_sinkByte holds raw sound
  service := by
    intro _ state next job holds taken
    unfold takePendingJob at taken
    split at taken
    · cases taken
    · cases taken
      exact ⟨holds.sized, holds.fresh⟩

/-- Every store of a run ends within the block allocated for its job. -/
def StoresInside (cfg : Config) (malloc : Allocator) (actions : List Action) : Prop :=
  ∀ size position width, .store size position width ∈ (run cfg malloc initial actions).2 →
    position + width ≤ size

/-- A run stores only inside its jobs exactly when no length from `-8` to `3` gets
a job and no packet above the maximum length outgrows a left-over job. -/
theorem storesInside_iff (cfg : Config) (malloc : Allocator) (actions : List Action) :
    RunSteps cfg malloc (StoreSound cfg malloc) initial actions ↔
      StoresInside cfg malloc actions := by
  rw [((storeRule cfg malloc).run [] sized_initial actions).1, effectsHave_iff]
  constructor
  · intro every size position width stored
    obtain ⟨before, after, split⟩ := List.append_of_mem stored
    exact every before (.store size position width) after split
  · intro inside before effect after split
    cases effect with
    | store size position width =>
        exact inside size position width (by rw [split]; simp)
    | consume byte => trivial
    | malloc size job => trivial
    | publish job => trivial
    | free job => trivial

/-- An aborted packet of five bytes leaves its job behind, and a packet declaring
`0x7fffffff` bytes then stores its second data byte behind it. -/
theorem not_storesInside_leftOver :
    ¬StoresInside defaultConfig (fun _ _ => some fun _ => 0)
      [.sink [0x7a, 5, 0, 0, 0, 0x7a, 0xff, 0xff, 0xff, 0x7f, 1, 2]] := by
  intro inside
  have effects : (run defaultConfig (fun _ _ => some fun _ => 0) initial
      [.sink [0x7a, 5, 0, 0, 0, 0x7a, 0xff, 0xff, 0xff, 0x7f, 1, 2]]).2 =
        [.consume 0x7a, .consume 5, .consume 0, .consume 0, .consume 0,
          .malloc 13 (some 0), .store 13 4 4, .store 13 8 4,
          .consume 0x7a, .consume 0xff, .consume 0xff, .consume 0xff, .consume 0x7f,
          .consume 1, .store 13 12 1, .consume 2, .store 13 13 1] := rfl
  have beyond := inside 13 13 1 (by rw [effects]; simp)
  omega

end PeridotSw.Rpc.SinkStores
