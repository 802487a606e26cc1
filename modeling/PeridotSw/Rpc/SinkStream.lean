import PeridotSw.Rpc.SinkRun

/-!
# What the RPC sink publishes

A publication is whole when the job exists, its length word counts the payload
bytes received since the last start-of-packet byte, and its data are those
bytes.  Three packet endings break this; every other byte keeps an invariant
that ties the length bytes, the incoming job and the offset to the bytes
received.
-/

namespace PeridotSw.Rpc.SinkStream

open PeridotSw.Machine.Memory
open PeridotSw.Machine.Word
open PeridotSw.Stream.Ast
open PeridotSw.Rpc.Sink
open PeridotSw.Rpc.SinkRun

/-! ## The payload received -/

/-- One byte of the stream, read by the escaping rules alone: whether an escape
is open, and the payload bytes since the last start-of-packet byte. -/
def receive (sofar : Bool × List UInt8) (raw : UInt8) : Bool × List UInt8 :=
  if raw = astSop then
    (sofar.1, [])
  else if raw = astEopPrefix then
    sofar
  else if raw = astEscapePrefix then
    (true, sofar.2)
  else
    (false, sofar.2 ++ [unescape sofar.1 raw])

def reception (history : List UInt8) : Bool × List UInt8 :=
  history.foldl receive (false, [])

/-- The unescaped payload bytes received since the most recent start of packet. -/
def received (history : List UInt8) : List UInt8 := (reception history).2

theorem reception_snoc (history : List UInt8) (raw : UInt8) :
    reception (history ++ [raw]) = receive (reception history) raw := by
  simp [reception, List.foldl_append]

/-- The job is there, its length word counts the payload and its data are it. -/
def PublishedWhole (history : List UInt8) : Effect → Prop
  | .publish job => ∃ found, job = some found ∧
      found.lengthWord = (received history).length ∧
      slice found.data 0 found.lengthWord = received history
  | _ => True

/-! ## The packet endings that publish something else -/

def EndsPacket (state : State) (raw : UInt8) : Prop :=
  raw ≠ astSop ∧ raw ≠ astEopPrefix ∧ raw ≠ astEscapePrefix ∧
    state.insidePacket = true ∧ state.eopPrefix = true

def wordAfter (state : State) (raw : UInt8) : Nat :=
  (storeLengthByte state (unescape state.escapePrefix raw)).lengthWord

/-- No packet ends before its fourth byte with a count equal to the half-old
length word, unless a left-over job carries just that length; no packet of
declared length four ends without a job; and no packet above the maximum length
ends in a job left over from an earlier one. -/
structure EndingSound (cfg : Config) (malloc : Allocator) (state : State)
    (raw : UInt8) : Prop where
  short : EndsPacket state raw → state.offset < 3 →
    state.offset + 1 = wordAfter state raw →
      ∃ job, state.incomingJob = some job ∧ job.lengthWord = wordAfter state raw
  bare : EndsPacket state raw → state.offset = 3 → wordAfter state raw = 4 →
    4 ≤ cfg.maxRequestLength ∧ malloc state.mallocs 12 ≠ none
  oversized : EndsPacket state raw → 4 ≤ state.offset →
    state.offset + 1 = state.lengthWord → state.incomingJob ≠ none →
      signed state.lengthWord ≤ cfg.maxRequestLength

/-! ## The invariant -/

def lengthBytes (state : State) : List UInt8 :=
  [state.length 0, state.length 1, state.length 2, state.length 3]

theorem bytes32_lengthWord (state : State) :
    bytes32 state.lengthWord = lengthBytes state :=
  bytes32_le32 _ _ _ _

theorem lengthWord_lt (state : State) : state.lengthWord < 2 ^ 32 :=
  le32_lt _ _ _ _

/-- The state of the sink as a function of the bytes it has consumed. -/
structure Assembling (cfg : Config) (history : List UInt8) (state : State) : Prop where
  escape : state.escapePrefix = (reception history).1
  admitted : ∀ job, state.incomingJob = some job →
    signed job.lengthWord ≤ cfg.maxRequestLength
  counted : state.sem = if state.pendingJob.isSome then 1 else 0
  lengthPart : state.insidePacket = true → state.offset < 4 →
    received history = (lengthBytes state).take state.offset
  jobless : state.insidePacket = true → 4 ≤ state.offset →
    state.incomingJob = none → state.offset = 4
  filled : state.insidePacket = true → 4 ≤ state.offset →
    ∀ job, state.incomingJob = some job → state.offset = (received history).length
  fresh : state.insidePacket = true → 4 ≤ state.offset →
    signed state.lengthWord ≤ cfg.maxRequestLength →
    ∀ job, state.incomingJob = some job →
      job.lengthWord = state.lengthWord ∧ Holds job.data 0 (received history)

variable {cfg : Config} {malloc : Allocator} {history : List UInt8} {state : State}

theorem assembling_initial : Assembling cfg [] initial where
  escape := rfl
  admitted := by intro job held; cases held
  counted := rfl
  lengthPart := by intro inside; cases inside
  jobless := by intro inside; cases inside
  filled := by intro inside; cases inside
  fresh := by intro inside; cases inside

/-- Outside a packet only the escape flag and the semaphore matter. -/
theorem assembling_nextPacket
    (escape : state.escapePrefix = (reception history).1)
    (counted : state.sem = if state.pendingJob.isSome then 1 else 0) :
    Assembling cfg history (nextPacket state) where
  escape := escape
  admitted := by intro job held; cases held
  counted := counted
  lengthPart := by intro inside; cases inside
  jobless := by intro inside; cases inside
  filled := by intro inside; cases inside
  fresh := by intro inside; cases inside

/-- Storing a length byte appends it to the bytes received. -/
theorem take_storeLengthByte (state : State) (low : state.offset < 4) (byte : UInt8) :
    (lengthBytes (storeLengthByte state byte)).take (state.offset + 1) =
      (lengthBytes state).take state.offset ++ [byte] := by
  have cases : state.offset = 0 ∨ state.offset = 1 ∨ state.offset = 2 ∨ state.offset = 3 := by
    omega
  obtain ⟨⟩ := state
  rcases cases with place | place | place | place <;>
  · cases place
    rfl

/-! ## The tail of the loop body -/

theorem finishByte_effects_iff :
    (∀ effect ∈ (finishByte state).2, PublishedWhole history effect) ↔
      (state.eopPrefix = true → state.offset = state.lengthWord →
        PublishedWhole history (.publish state.incomingJob)) := by
  unfold finishByte
  split
  · rename_i unmarked
    simp [unmarked]
  · rename_i marked
    split
    · rename_i differs
      simp [dropPacket, PublishedWhole, differs]
    · rename_i same
      simp_all

/-- A sound ending keeps the invariant: the job goes to the pending slot and the
semaphore counts it. -/
theorem assembling_finishByte (holds : Assembling cfg history state)
    (idle : state.pendingJob = none)
    (sound : state.eopPrefix = true → state.offset = state.lengthWord →
      PublishedWhole history (.publish state.incomingJob)) :
    Assembling cfg history (finishByte state).1 := by
  unfold finishByte
  split
  · exact holds
  · rename_i marked
    split
    · exact assembling_nextPacket holds.escape holds.counted
    · rename_i same
      obtain ⟨job, found, _⟩ := sound (by simpa using marked) (by simpa using same)
      have empty : state.sem = 0 := by simpa [idle] using holds.counted
      exact
        { escape := holds.escape
          admitted := by intro other held; cases held
          counted := by simp [nextPacket, found, empty]
          lengthPart := by intro inside; cases inside
          jobless := by intro inside; cases inside
          filled := by intro inside; cases inside
          fresh := by intro inside; cases inside }

/-! ## One payload byte -/

theorem slice_lengthWord (job : RpcsrvJob) {count : Nat} (low : count ≤ 4) :
    slice job.data 0 count = (bytes32 job.lengthWord).take count := by
  have shape : bytes32 job.lengthWord = slice job.data 0 4 := bytes32_le32 _ _ _ _
  rw [shape]
  simp only [slice, ← List.map_take, List.take_range]
  rw [Nat.min_eq_left low]

section PayloadByte

variable {raw : UInt8}

/-- The history of a data byte. -/
structure DataByte (history : List UInt8) (state : State) (raw : UInt8) : Prop where
  reception : reception (history ++ [raw]) =
    (false, received history ++ [unescape state.escapePrefix raw])

theorem DataByte.received (data : DataByte history state raw) :
    received (history ++ [raw]) = received history ++ [unescape state.escapePrefix raw] :=
  congrArg Prod.snd data.reception

theorem dataByte_of_ne (holds : Assembling cfg history state)
    (notSop : raw ≠ astSop) (notEop : raw ≠ astEopPrefix) (notEscape : raw ≠ astEscapePrefix) :
    DataByte history state raw := by
  refine ⟨?_⟩
  rw [reception_snoc, receive, if_neg notSop, if_neg notEop, if_neg notEscape, holds.escape]
  rfl

/-- One of the first three length bytes keeps the invariant. -/
theorem assembling_storeLengthByte (holds : Assembling cfg history state)
    (data : DataByte history state raw) (inside : state.insidePacket = true)
    (low : state.offset < 3) :
    Assembling cfg (history ++ [raw])
      (storeLengthByte (unescaped state) (unescape state.escapePrefix raw)) where
  escape := by rw [data.reception]; rfl
  admitted := holds.admitted
  counted := holds.counted
  lengthPart := by
    intro _ _
    rw [data.received, holds.lengthPart inside (by omega)]
    exact (take_storeLengthByte (unescaped state) (Nat.lt_succ_of_lt low) _).symm
  jobless := by intro _ high; simp only [storeLengthByte, unescaped] at high; omega
  filled := by intro _ high; simp only [storeLengthByte, unescaped] at high; omega
  fresh := by intro _ high; simp only [storeLengthByte, unescaped] at high; omega

/-- The payload after the fourth length byte is the length word itself. -/
theorem received_fourth (holds : Assembling cfg history state)
    (data : DataByte history state raw) (inside : state.insidePacket = true)
    (last : state.offset = 3) :
    received (history ++ [raw]) =
      bytes32 (storeLengthByte (unescaped state)
        (unescape state.escapePrefix raw)).lengthWord := by
  rw [data.received, holds.lengthPart inside (by omega), bytes32_lengthWord]
  have place : (unescaped state).offset = 3 := last
  have stored := take_storeLengthByte (unescaped state) (by omega)
    (unescape state.escapePrefix raw)
  rw [place] at stored
  rw [last]
  exact stored.symm

/-- The fourth length byte keeps the invariant, whatever the allocator answers. -/
theorem assembling_allocateJob (holds : Assembling cfg history state)
    (data : DataByte history state raw) (inside : state.insidePacket = true)
    (last : state.offset = 3) :
    Assembling cfg (history ++ [raw])
      (allocateJob cfg malloc (storeLengthByte (unescaped state)
        (unescape state.escapePrefix raw))).1 := by
  have bytes := received_fourth holds data inside last
  have bound := lengthWord_lt (storeLengthByte (unescaped state)
    (unescape state.escapePrefix raw))
  have full : (storeLengthByte (unescaped state)
      (unescape state.escapePrefix raw)).offset = 4 := by
    simp [storeLengthByte, unescaped, last]
  generalize stored : storeLengthByte (unescaped state)
    (unescape state.escapePrefix raw) = next at bytes bound full
  have escape : next.escapePrefix = (reception (history ++ [raw])).1 := by
    rw [data.reception, ← stored]
    rfl
  have jobs : next.incomingJob = state.incomingJob := by rw [← stored]; rfl
  have counted : next.sem = if next.pendingJob.isSome then 1 else 0 := by
    rw [← stored]
    exact holds.counted
  unfold allocateJob
  split
  · rename_i small
    dsimp only
    split
    · exact
        { escape := escape
          admitted := by intro job held; cases held
          counted := counted
          lengthPart := by intro _ low; simp only [full] at low; omega
          jobless := by intro _ _ _; exact full
          filled := by intro _ _ job held; cases held
          fresh := by intro _ _ _ job held; cases held }
    · rename_i block _
      have length : word (write block 0 (bytes32 next.lengthWord)) 0 = next.lengthWord :=
        word_write_self _ _ bound
      exact
        { escape := escape
          admitted := by
            intro job held
            cases held
            rw [RpcsrvJob.lengthWord, length]
            exact small
          counted := counted
          lengthPart := by intro _ low; simp only [full] at low; omega
          jobless := by intro _ _ held; cases held
          filled := by
            intro _ _ _ _
            rw [bytes, length_bytes32]
            exact full
          fresh := by
            intro _ _ _ job held
            cases held
            refine ⟨length, ?_⟩
            rw [bytes]
            exact holds_write block 0 (bytes32 next.lengthWord) }
  · rename_i large
    exact
      { escape := escape
        admitted := by rw [jobs]; exact holds.admitted
        counted := counted
        lengthPart := by intro _ low; rw [full] at low; omega
        jobless := by intro _ _ _; exact full
        filled := by intro _ _ _ _; rw [bytes, length_bytes32]; exact full
        fresh := by intro _ _ small; exact absurd small large }

/-- A stored data byte keeps the invariant. -/
theorem assembling_storeDataByte (holds : Assembling cfg history state)
    (data : DataByte history state raw) (inside : state.insidePacket = true)
    (high : 4 ≤ state.offset) {job : RpcsrvJob} (held : state.incomingJob = some job) :
    Assembling cfg (history ++ [raw])
      (storeDataByte (unescaped state) job (unescape state.escapePrefix raw)).1 where
  escape := by rw [data.reception]; rfl
  admitted := by
    intro other same
    cases same
    change signed (word (write job.data state.offset
      [unescape state.escapePrefix raw]) 0) ≤ cfg.maxRequestLength
    rw [word_write_behind (by omega)]
    exact holds.admitted job held
  counted := holds.counted
  lengthPart := by
    intro _ low
    simp only [storeDataByte, unescaped] at low
    omega
  jobless := by intro _ _ none; cases none
  filled := by
    intro _ _ _ _
    rw [data.received, List.length_append, ← holds.filled inside high job held]
    rfl
  fresh := by
    intro _ _ small other same
    cases same
    obtain ⟨length, bytes⟩ := holds.fresh inside high small job held
    have place : state.offset = (received history).length := holds.filled inside high job held
    refine ⟨(word_write_behind (show 0 + 4 ≤ state.offset from high) _).trans length, ?_⟩
    rw [data.received, holds_append]
    refine ⟨bytes.write_disjoint (.inr ?_), ?_⟩
    · simp only [unescaped]
      omega
    · rw [Nat.zero_add, ← place]
      exact holds_write _ _ _

/-- A byte of a packet without a job only moves the history on. -/
theorem assembling_skipByte (holds : Assembling cfg history state)
    (data : DataByte history state raw) (inside : state.insidePacket = true)
    (high : 4 ≤ state.offset) (jobless : state.incomingJob = none) :
    Assembling cfg (history ++ [raw]) (unescaped state) where
  escape := by rw [data.reception]; rfl
  admitted := holds.admitted
  counted := holds.counted
  lengthPart := by intro _ low; simp only [unescaped] at low; omega
  jobless := by intro _ _ _; exact holds.jobless inside high jobless
  filled := by intro _ _ job held; rw [unescaped, jobless] at held; cases held
  fresh := by intro _ _ _ job held; rw [unescaped, jobless] at held; cases held

/-! ## Which publications are whole -/

/-- Too few bytes for the length word: whole only by way of a left-over job. -/
theorem short_whole_iff (holds : Assembling cfg history state)
    (data : DataByte history state raw) (inside : state.insidePacket = true)
    (low : state.offset < 3) (reached : state.offset + 1 = wordAfter state raw) :
    PublishedWhole (history ++ [raw]) (.publish state.incomingJob) ↔
      ∃ job, state.incomingJob = some job ∧ job.lengthWord = wordAfter state raw := by
  have bytes : received (history ++ [raw]) =
      (lengthBytes (storeLengthByte (unescaped state)
        (unescape state.escapePrefix raw))).take (state.offset + 1) := by
    rw [data.received, holds.lengthPart inside (by omega)]
    exact (take_storeLengthByte (unescaped state) (Nat.lt_succ_of_lt low) _).symm
  have count : (received (history ++ [raw])).length = state.offset + 1 := by
    rw [bytes, List.length_take]
    simp only [lengthBytes, List.length_cons, List.length_nil]
    omega
  constructor
  · rintro ⟨job, found, length, _⟩
    exact ⟨job, found, by rw [length, count, reached]⟩
  · rintro ⟨job, found, length⟩
    refine ⟨job, found, by rw [length, count, reached], ?_⟩
    rw [length, ← reached, slice_lengthWord job (by omega), length, bytes, wordAfter,
      bytes32_lengthWord]
    rfl

/-- A packet that is nothing but its length word: whole exactly when the
allocation was made. -/
theorem bare_whole_iff (holds : Assembling cfg history state)
    (data : DataByte history state raw) (inside : state.insidePacket = true)
    (last : state.offset = 3) (four : wordAfter state raw = 4) :
    PublishedWhole (history ++ [raw])
        (.publish (allocateJob cfg malloc (storeLengthByte (unescaped state)
          (unescape state.escapePrefix raw))).1.incomingJob) ↔
      4 ≤ cfg.maxRequestLength ∧ malloc state.mallocs 12 ≠ none := by
  have bytes := received_fourth holds data inside last
  have word4 : (storeLengthByte (unescaped state)
      (unescape state.escapePrefix raw)).lengthWord = 4 := four
  have value : signed 4 = 4 := rfl
  have size : unsigned (sizeofRpcsrvJob + signed 4) = 12 := by decide
  rw [word4] at bytes
  unfold allocateJob
  rw [word4, value]
  by_cases small : (4 : Int) ≤ cfg.maxRequestLength
  · have fits : 4 ≤ cfg.maxRequestLength := by omega
    rw [if_pos small]
    rw [value] at size
    dsimp only
    rw [size]
    have place : (storeLengthByte (unescaped state)
        (unescape state.escapePrefix raw)).mallocs = state.mallocs := rfl
    rw [place]
    cases block : malloc state.mallocs 12 with
    | none => simp [PublishedWhole]
    | some contents =>
        have length : word (write contents 0 (bytes32 4)) 0 = 4 :=
          word_write_self _ _ (by omega)
        simp only [fits, true_and, ne_eq, reduceCtorEq, not_false_eq_true, iff_true]
        refine ⟨_, rfl, ?_, ?_⟩
        · rw [bytes, length_bytes32]
          exact length
        · change slice (write contents 0 (bytes32 4)) 0
            (word (write contents 0 (bytes32 4)) 0) = _
          rw [length, bytes]
          exact slice_eq_of_holds (holds_write contents 0 (bytes32 4))
  · rw [if_neg small]
    constructor
    · rintro ⟨job, found, length, _⟩
      have bound := holds.admitted job found
      rw [length, bytes, length_bytes32, value] at bound
      exact absurd bound small
    · rintro ⟨fits, _⟩
      omega

/-- A longer packet: whole exactly when its length was admitted. -/
theorem long_whole_iff (holds : Assembling cfg history state)
    (data : DataByte history state raw) (inside : state.insidePacket = true)
    (high : 4 ≤ state.offset) (reached : state.offset + 1 = state.lengthWord)
    {job : RpcsrvJob} (held : state.incomingJob = some job) :
    PublishedWhole (history ++ [raw])
        (.publish (storeDataByte (unescaped state) job
          (unescape state.escapePrefix raw)).1.incomingJob) ↔
      signed state.lengthWord ≤ cfg.maxRequestLength := by
  have count : (received (history ++ [raw])).length = state.lengthWord := by
    rw [data.received, List.length_append, ← holds.filled inside high job held]
    exact reached
  have next := assembling_storeDataByte holds data inside high held
  constructor
  · rintro ⟨stored, found, length, _⟩
    have bound := next.admitted stored found
    rw [length, count] at bound
    exact bound
  · intro small
    have inside' : (storeDataByte (unescaped state) job
        (unescape state.escapePrefix raw)).1.insidePacket = true := inside
    have high' : 4 ≤ (storeDataByte (unescaped state) job
        (unescape state.escapePrefix raw)).1.offset := Nat.le_succ_of_le high
    obtain ⟨length, bytes⟩ := next.fresh inside' high' small _ rfl
    refine ⟨_, rfl, length.trans count.symm, ?_⟩
    rw [length]
    change slice _ 0 state.lengthWord = _
    rw [← count]
    exact slice_eq_of_holds bytes

/-- The byte, if it ends the packet, is a payload byte. -/
theorem endsPacket_iff (notSop : raw ≠ astSop) (notEop : raw ≠ astEopPrefix)
    (notEscape : raw ≠ astEscapePrefix) (inside : state.insidePacket = true) :
    EndsPacket state raw ↔ state.eopPrefix = true :=
  ⟨fun all => all.2.2.2.2, fun marked => ⟨notSop, notEop, notEscape, inside, marked⟩⟩

theorem endingSound_short (state : State) (low : state.offset < 3) :
    EndingSound cfg malloc state raw ↔
      (EndsPacket state raw → state.offset + 1 = wordAfter state raw →
        ∃ job, state.incomingJob = some job ∧ job.lengthWord = wordAfter state raw) :=
  ⟨fun sound ending => sound.short ending low,
    fun short => ⟨fun ending _ => short ending, fun _ _ => by omega, fun _ _ => by omega⟩⟩

theorem endingSound_fourth (state : State) (last : state.offset = 3) :
    EndingSound cfg malloc state raw ↔
      (EndsPacket state raw → wordAfter state raw = 4 →
        4 ≤ cfg.maxRequestLength ∧ malloc state.mallocs 12 ≠ none) :=
  ⟨fun sound ending => sound.bare ending last,
    fun bare => ⟨fun _ _ => by omega, fun ending _ => bare ending, fun _ _ => by omega⟩⟩

theorem endingSound_long (state : State) (high : 4 ≤ state.offset) :
    EndingSound cfg malloc state raw ↔
      (EndsPacket state raw → state.offset + 1 = state.lengthWord →
        state.incomingJob ≠ none → signed state.lengthWord ≤ cfg.maxRequestLength) :=
  ⟨fun sound ending => sound.oversized ending high,
    fun long => ⟨fun _ _ => by omega, fun _ _ => by omega, fun ending _ => long ending⟩⟩

theorem allocateJob_silent :
    ∀ effect ∈ (allocateJob cfg malloc state).2, PublishedWhole history effect := by
  unfold allocateJob
  dsimp only
  split
  · split <;> simp [PublishedWhole]
  · simp

theorem andThen_effects_iff (outcome : Outcome)
    (silent : ∀ effect ∈ outcome.2, PublishedWhole history effect) :
    (∀ effect ∈ (outcome.andThen finishByte).2, PublishedWhole history effect) ↔
      (outcome.1.eopPrefix = true → outcome.1.offset = outcome.1.lengthWord →
        PublishedWhole history (.publish outcome.1.incomingJob)) := by
  rw [← finishByte_effects_iff]
  simp only [Outcome.andThen, List.mem_append, or_imp, forall_and]
  exact and_iff_right silent

/-- A payload byte publishes only whole jobs exactly when its ending is sound. -/
theorem payloadByte_effects_iff (holds : Assembling cfg history state)
    (data : DataByte history state raw) (inside : state.insidePacket = true)
    (ends : EndsPacket state raw ↔ state.eopPrefix = true) :
    (∀ effect ∈ (payloadByte cfg malloc (unescaped state)
        (unescape state.escapePrefix raw)).2, PublishedWhole (history ++ [raw]) effect) ↔
      EndingSound cfg malloc state raw := by
  cases payloadCase (unescaped state) with
  | short low =>
      rw [payloadByte_short low, finishByte_effects_iff, endingSound_short state low, ends]
      exact forall_congr' fun _ => forall_congr' fun reached =>
        short_whole_iff holds data inside low reached
  | fourth last =>
      rw [payloadByte_fourth last, andThen_effects_iff _ allocateJob_silent,
        endingSound_fourth state last, ends, allocateJob_eopPrefix, allocateJob_offset,
        allocateJob_lengthWord]
      have place : (storeLengthByte (unescaped state)
          (unescape state.escapePrefix raw)).offset = 4 := congrArg Nat.succ last
      rw [place]
      constructor
      · intro whole marked four
        exact (bare_whole_iff holds data inside last four).mp (whole marked four.symm)
      · intro bare marked four
        exact (bare_whole_iff holds data inside last four.symm).mpr (bare marked four.symm)
  | beyond high full =>
      rw [payloadByte_beyond high full, endingSound_long state high]
      constructor
      · intro _ _ reached
        exact absurd full (Nat.not_le_of_lt (Nat.lt_of_succ_le (Nat.le_of_eq reached)))
      · intro _
        simp [dropPacket, PublishedWhole]
  | data high room job held =>
      rw [payloadByte_data high room held, endingSound_long state high, ends]
      rw [andThen_effects_iff _ (by simp [storeDataByte, PublishedWhole])]
      have present : state.incomingJob ≠ none := by
        intro absent
        cases held.symm.trans absent
      simp only [present, ne_eq, not_false_eq_true, true_imp_iff]
      exact forall_congr' fun _ => forall_congr' fun reached =>
        long_whole_iff holds data inside high reached held
  | skip high room jobless =>
      rw [payloadByte_skip high room jobless, finishByte_effects_iff, endingSound_long state high]
      have four := holds.jobless inside high jobless
      constructor
      · intro _ _ _ present
        exact absurd jobless present
      · intro _ _ reached
        exact absurd reached (Nat.ne_of_lt room)

/-- A soundly ended payload byte keeps the invariant. -/
theorem assembling_payloadByte (holds : Assembling cfg history state)
    (idle : state.pendingJob = none)
    (data : DataByte history state raw) (inside : state.insidePacket = true)
    (whole : ∀ effect ∈ (payloadByte cfg malloc (unescaped state)
        (unescape state.escapePrefix raw)).2, PublishedWhole (history ++ [raw]) effect) :
    Assembling cfg (history ++ [raw])
      (payloadByte cfg malloc (unescaped state) (unescape state.escapePrefix raw)).1 := by
  cases payloadCase (unescaped state) with
  | short low =>
      rw [payloadByte_short low] at whole ⊢
      exact assembling_finishByte (assembling_storeLengthByte holds data inside low) idle
        (finishByte_effects_iff.mp whole)
  | fourth last =>
      rw [payloadByte_fourth last] at whole ⊢
      rw [andThen_effects_iff _ allocateJob_silent] at whole
      refine assembling_finishByte (assembling_allocateJob holds data inside last) ?_ whole
      rw [allocateJob_pendingJob]
      exact idle
  | beyond high full =>
      rw [payloadByte_beyond high full]
      exact assembling_nextPacket (congrArg Prod.fst data.reception).symm holds.counted
  | data high room job held =>
      rw [payloadByte_data high room held] at whole ⊢
      rw [andThen_effects_iff _ (by simp [storeDataByte, PublishedWhole])] at whole
      exact assembling_finishByte (assembling_storeDataByte holds data inside high held)
        idle whole
  | skip high room jobless =>
      rw [payloadByte_skip high room jobless] at whole ⊢
      exact assembling_finishByte (assembling_skipByte holds data inside high jobless) idle
        (finishByte_effects_iff.mp whole)

end PayloadByte

/-! ## Markers and bytes outside a packet -/

theorem assembling_sop (holds : Assembling cfg history state) :
    Assembling cfg (history ++ [astSop])
      { state with offset := 0, insidePacket := true, eopPrefix := false } where
  escape := by rw [reception_snoc]; exact holds.escape
  admitted := holds.admitted
  counted := holds.counted
  lengthPart := by intro _ _; rw [received, reception_snoc]; rfl
  jobless := by intro _ high; cases high
  filled := by intro _ high; cases high
  fresh := by intro _ high; cases high

/-- A prefix byte other than start-of-packet leaves the payload as it is. -/
theorem assembling_mark {raw : UInt8} (escape eop : Bool)
    (holds : Assembling cfg history state)
    (same : reception (history ++ [raw]) = (escape, received history)) :
    Assembling cfg (history ++ [raw])
      { state with escapePrefix := escape, eopPrefix := eop } where
  escape := by rw [same]
  admitted := holds.admitted
  counted := holds.counted
  lengthPart := by rw [received, same]; exact holds.lengthPart
  jobless := holds.jobless
  filled := by rw [received, same]; exact holds.filled
  fresh := by rw [received, same]; exact holds.fresh

theorem assembling_outside {raw : UInt8} (holds : Assembling cfg history state)
    (data : DataByte history state raw) (outside : state.insidePacket = false) :
    Assembling cfg (history ++ [raw]) (unescaped state) where
  escape := by rw [data.reception]; rfl
  admitted := holds.admitted
  counted := holds.counted
  lengthPart := by intro inside; rw [unescaped, outside] at inside; cases inside
  jobless := by intro inside; rw [unescaped, outside] at inside; cases inside
  filled := by intro inside; rw [unescaped, outside] at inside; cases inside
  fresh := by intro inside; rw [unescaped, outside] at inside; cases inside

/-! ## The step rule and whole runs -/

theorem sinkByte_effects_iff (holds : Assembling cfg history state) (raw : UInt8) :
    (∀ effect ∈ (sinkByte cfg malloc state raw).2,
        PublishedWhole (history ++ [raw]) effect) ↔ EndingSound cfg malloc state raw := by
  have vacuous (no : ¬EndsPacket state raw) : EndingSound cfg malloc state raw :=
    ⟨fun ending => absurd ending no, fun ending => absurd ending no,
      fun ending => absurd ending no⟩
  cases byteCase state raw with
  | sop marker =>
      have sound := vacuous fun ending => ending.1 marker
      simp [marker, sinkByte_sop] at sound ⊢
      exact sound
  | eop marker =>
      have sound := vacuous fun ending => ending.2.1 marker
      simp [marker, sinkByte_eop] at sound ⊢
      exact sound
  | escape marker =>
      have sound := vacuous fun ending => ending.2.2.1 marker
      simp [marker, sinkByte_escape] at sound ⊢
      exact sound
  | outside notSop notEop notEscape outside =>
      have sound := vacuous fun ending => by simp [EndsPacket, outside] at ending
      simp [sinkByte_outside notSop notEop notEscape outside, sound]
  | payload notSop notEop notEscape inside =>
      rw [sinkByte_payload notSop notEop notEscape inside]
      exact payloadByte_effects_iff holds
        (dataByte_of_ne holds notSop notEop notEscape) inside
        (endsPacket_iff notSop notEop notEscape inside)

theorem assembling_sinkByte (holds : Assembling cfg history state) (raw : UInt8)
    (idle : state.pendingJob = none) (sound : EndingSound cfg malloc state raw) :
    Assembling cfg (history ++ [raw]) (sinkByte cfg malloc state raw).1 := by
  have whole := (sinkByte_effects_iff holds raw).mpr sound
  cases byteCase state raw with
  | sop marker =>
      rw [marker, sinkByte_sop]
      exact assembling_sop holds
  | eop marker =>
      rw [marker, sinkByte_eop]
      refine assembling_mark state.escapePrefix true holds ?_
      rw [reception_snoc, holds.escape]
      rfl
  | escape marker =>
      rw [marker, sinkByte_escape]
      refine assembling_mark true state.eopPrefix holds ?_
      rw [reception_snoc]
      rfl
  | outside notSop notEop notEscape outside =>
      rw [sinkByte_outside notSop notEop notEscape outside]
      exact assembling_outside holds (dataByte_of_ne holds notSop notEop notEscape) outside
  | payload notSop notEop notEscape inside =>
      rw [sinkByte_payload notSop notEop notEscape inside] at whole ⊢
      exact assembling_payloadByte holds idle
        (dataByte_of_ne holds notSop notEop notEscape) inside whole

/-- Taking the pending job keeps the invariant and counts the semaphore down. -/
theorem assembling_takePendingJob {next : State} {job : Option RpcsrvJob}
    (holds : Assembling cfg history state) (taken : takePendingJob state = some (next, job)) :
    Assembling cfg history next := by
  unfold takePendingJob at taken
  split at taken
  · cases taken
  · rename_i counted
    cases taken
    have one : state.sem = 1 := by
      have count := holds.counted
      split at count <;> omega
    exact
      { escape := holds.escape
        admitted := holds.admitted
        counted := by simp [one]
        lengthPart := holds.lengthPart
        jobless := holds.jobless
        filled := holds.filled
        fresh := holds.fresh }

theorem publicationRule (cfg : Config) (malloc : Allocator) :
    StepRule cfg malloc (Assembling cfg) (EndingSound cfg malloc) PublishedWhole where
  taken := fun _ _ => trivial
  exact := fun _ _ raw holds _ => (sinkByte_effects_iff holds raw).symm
  preserved := fun _ _ raw holds idle sound => assembling_sinkByte holds raw idle sound
  service := fun _ _ _ _ holds taken => assembling_takePendingJob holds taken

/-- Every publication of a run is whole, and whenever an action is over the
semaphore counts the pending job. -/
structure PublishesWhole (cfg : Config) (malloc : Allocator) (actions : List Action) :
    Prop where
  whole : ∀ before job after,
    (run cfg malloc initial actions).2 = before ++ .publish job :: after →
      ∃ found, job = some found ∧
        found.lengthWord = (received (consumed before)).length ∧
        slice found.data 0 found.lengthWord = received (consumed before)
  counted : ∀ front, front <+: actions →
    (run cfg malloc initial front).1.sem =
      if (run cfg malloc initial front).1.pendingJob.isSome then 1 else 0

/-- A run publishes only whole requests exactly when each of its packets ends
soundly. -/
theorem publishesWhole_iff (cfg : Config) (malloc : Allocator) (actions : List Action) :
    RunSteps cfg malloc (EndingSound cfg malloc) initial actions ↔
      PublishesWhole cfg malloc actions := by
  have rule := publicationRule cfg malloc
  constructor
  · intro steps
    refine ⟨?_, ?_⟩
    · intro before job after split
      have effects := (rule.run [] assembling_initial actions).1.mp steps
      have here := (effectsHave_iff [] _).mp effects before (.publish job) after split
      simpa [PublishedWhole] using here
    · intro front start
      have kept := (rule.run [] assembling_initial front).2 (runSteps_of_front start steps)
      exact kept.counted
  · intro whole
    apply (rule.run [] assembling_initial actions).1.mpr
    apply (effectsHave_iff [] _).mpr
    intro before effect after split
    cases effect with
    | publish job => simpa [PublishedWhole] using whole.whole before job after split
    | consume byte => trivial
    | malloc size job => trivial
    | store size position width => trivial
    | free job => trivial

/-- A packet of one payload byte `01` publishes a null pointer: the length word,
of which only this byte has arrived, already reads one. -/
theorem not_publishesWhole_oneByte :
    ¬PublishesWhole defaultConfig (fun _ _ => some fun _ => 0)
      [.sink [0x7a, 0x7b, 0x01]] := by
  intro whole
  obtain ⟨found, impossible, _⟩ := whole.whole
    [.consume 0x7a, .consume 0x7b, .consume 0x01] none [] rfl
  cases impossible

end PeridotSw.Rpc.SinkStream
