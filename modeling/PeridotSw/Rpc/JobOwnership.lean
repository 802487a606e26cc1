import PeridotSw.Machine.Ledger
import PeridotSw.Machine.Transition
import PeridotSw.Rpc.Jobs

/-!
# Who owns a job

Every job the sink has allocated is held in one place until it is freed, with one
exception: a packet cut off by a start of packet leaves its job in `incoming_job`, and if
the next length is not too long, the pointer to the new job replaces it.
-/

namespace PeridotSw.Rpc.JobOwnership

open PeridotSw.Machine.Memory
open PeridotSw.Machine.Word
open PeridotSw.Machine.Ledger
open PeridotSw.Machine.Transition
open PeridotSw.Stream.Ast
open PeridotSw.Rpc.Sink (Config defaultConfig Allocator RpcsrvJob Outcome SinkSteps
  peridotRpcServerSink takePendingJob sinkByte finishByte dropPacket allocateJob storeLengthByte
  storeDataByte payloadByte)
open PeridotSw.Rpc.SinkRun
open PeridotSw.Rpc.Jobs

inductive Holder where
  | incoming
  | pending
  | service (call : Nat)
  | method (call : Nat)
  deriving DecidableEq

def holding (server : Server) : Holder → Option Nat
  | .incoming => server.sink.incomingJob.map RpcsrvJob.id
  | .pending => server.sink.pendingJob.map RpcsrvJob.id
  | .service call => (server.serving call).map RpcsrvJob.id
  | .method call => (server.accepted call).map RpcsrvJob.id

/-- Every job that has not been freed is in one place, and none has been freed twice. -/
structure JobsOwned (server : Server) : Prop where
  held : ∀ id ∈ server.allocated, id ∉ server.freed → ∃! holder, holding server holder = some id
  once : server.freed.Nodup

/-- A byte that completes a length that is not too long while `incoming_job` still holds the
job of a packet that was cut off. -/
def Overwrites (cfg : Config) (state : Sink.State) (raw : UInt8) : Prop :=
  (raw ≠ astSop ∧ raw ≠ astEopPrefix ∧ raw ≠ astEscapePrefix) ∧
    state.insidePacket = true ∧ state.offset = 3 ∧ state.incomingJob.isSome ∧
    signed (storeLengthByte (unescaped state) (unescape state.escapePrefix raw)).lengthWord ≤
      cfg.maxRequestLength

/-- No byte of a call of the sink overwrites a job. -/
def Keeps (cfg : Config) (malloc : Allocator) (server : Server) : Action → Prop
  | .sink buffer => SinkSteps cfg malloc (¬Overwrites cfg · ·) server.sink buffer
  | _ => True

/-! ## Parts of the loop body -/

/-- How a part of the loop body handles the two jobs of the sink. -/
inductive Handles (state : Sink.State) (outcome : Outcome) : Prop where
  | same (incoming : outcome.1.incomingJob.map RpcsrvJob.id = state.incomingJob.map RpcsrvJob.id)
      (pending : outcome.1.pendingJob = state.pendingJob)
      (allocated : allocatedIds outcome.2 = []) (freed : freedIds outcome.2 = [])
      (mallocs : state.mallocs ≤ outcome.1.mallocs)
  | drop (job : RpcsrvJob) (held : state.incomingJob = some job)
      (incoming : outcome.1.incomingJob = none) (pending : outcome.1.pendingJob = state.pendingJob)
      (allocated : allocatedIds outcome.2 = []) (freed : freedIds outcome.2 = [job.id])
      (mallocs : outcome.1.mallocs = state.mallocs)
  | publish (job : RpcsrvJob) (held : state.incomingJob = some job)
      (incoming : outcome.1.incomingJob = none) (pending : outcome.1.pendingJob = some job)
      (allocated : allocatedIds outcome.2 = []) (freed : freedIds outcome.2 = [])
      (mallocs : outcome.1.mallocs = state.mallocs)
  | allocate (empty : state.incomingJob = none)
      (incoming : outcome.1.incomingJob.map RpcsrvJob.id = some state.mallocs)
      (pending : outcome.1.pendingJob = state.pendingJob)
      (allocated : allocatedIds outcome.2 = [state.mallocs]) (freed : freedIds outcome.2 = [])
      (mallocs : outcome.1.mallocs = state.mallocs + 1)

variable {cfg : Config} {malloc : Allocator} {state : Sink.State}

theorem dropPacket_handles (state : Sink.State) : Handles state (dropPacket state) := by
  cases held : state.incomingJob with
  | none =>
      refine .same ?_ rfl rfl ?_ (Nat.le_refl _)
      · rw [held]
        rfl
      · simp [freedIds, dropPacket, held]
  | some job =>
      refine .drop job held rfl rfl rfl ?_ rfl
      simp [freedIds, dropPacket, held]

/-- The job is dropped, published, or left alone. -/
theorem finishByte_handles (free : state.pendingJob = none) : Handles state (finishByte state) := by
  unfold finishByte
  split
  · exact .same rfl rfl rfl rfl (Nat.le_refl _)
  · split
    · exact dropPacket_handles state
    · cases held : state.incomingJob with
      | none => exact .same (by rw [held]; rfl) free.symm rfl rfl (Nat.le_refl _)
      | some job => exact .publish job held rfl rfl rfl rfl rfl

/-- An allocation is a gain if `incoming_job` was empty. -/
theorem allocateJob_handles
    (safe : state.incomingJob = none ∨ ¬signed state.lengthWord ≤ cfg.maxRequestLength) :
    Handles state (allocateJob cfg malloc state) := by
  unfold allocateJob
  dsimp only
  split
  · rename_i short
    have empty := safe.resolve_right (not_not_intro short)
    split
    · exact .same (by rw [empty]) rfl rfl rfl (Nat.le_succ _)
    · exact .allocate empty rfl rfl rfl rfl rfl
  · exact .same rfl rfl rfl rfl (Nat.le_refl _)

/-- Only the jobs of the sink and its count of allocations are looked at. -/
theorem Handles.congr {other : Sink.State} {outcome : Outcome} (handles : Handles other outcome)
    (incoming : other.incomingJob = state.incomingJob)
    (pending : other.pendingJob = state.pendingJob) (mallocs : other.mallocs = state.mallocs) :
    Handles state outcome := by
  cases handles with
  | same a b c d e => exact .same (incoming ▸ a) (pending ▸ b) c d (mallocs ▸ e)
  | drop job a b c d e f => exact .drop job (incoming ▸ a) b (pending ▸ c) d e (mallocs ▸ f)
  | publish job a b c d e f => exact .publish job (incoming ▸ a) b c d e (mallocs ▸ f)
  | allocate a b c d e f =>
      exact .allocate (incoming ▸ a) (mallocs ▸ b) (pending ▸ c) (mallocs ▸ d) e (mallocs ▸ f)

/-- An allocation that forgets the job it finds. -/
structure Replaces (state : Sink.State) (job : RpcsrvJob) (outcome : Outcome) : Prop where
  held : state.incomingJob = some job
  incoming : outcome.1.incomingJob.map RpcsrvJob.id = none ∨
    outcome.1.incomingJob.map RpcsrvJob.id = some state.mallocs
  pending : outcome.1.pendingJob = state.pendingJob
  freed : freedIds outcome.2 = []
  mallocs : outcome.1.mallocs = state.mallocs + 1

theorem allocateJob_replaces {job : RpcsrvJob} (held : state.incomingJob = some job)
    (short : signed state.lengthWord ≤ cfg.maxRequestLength) :
    Replaces state job (allocateJob cfg malloc state) := by
  unfold allocateJob
  dsimp only
  rw [if_pos short]
  split
  · exact ⟨held, .inl rfl, rfl, rfl, rfl⟩
  · exact ⟨held, .inr rfl, rfl, rfl, rfl⟩

/-- A byte is handled in two parts, of which the first may forget a job. -/
structure Parts (cfg : Config) (state : Sink.State) (raw : UInt8) (first : Outcome)
    (rest : Sink.State → Outcome) : Prop where
  still : first.1.pendingJob = none
  handles : ¬Overwrites cfg state raw → Handles state first
  replaces : Overwrites cfg state raw → ∃ job, Replaces state job first
  second : Handles first.1 (rest first.1)

/-- A byte that is handled in one part, after a change that leaves the jobs alone. -/
theorem parts_of_handles {raw : UInt8} (free : state.pendingJob = none)
    (safe : ¬Overwrites cfg state raw) {outcome : Outcome} (handles : Handles state outcome) :
    ∃ first rest, outcome = first.andThen rest ∧ Parts cfg state raw first rest := by
  refine ⟨(state, []), fun _ => outcome, rfl, ?_⟩
  exact
    { still := free
      handles := fun _ => .same rfl rfl rfl rfl (Nat.le_refl _)
      replaces := fun overwrites => absurd overwrites safe
      second := handles }

/-- The fourth length byte, which may allocate. -/
theorem fourthByte_parts {raw : UInt8} (free : state.pendingJob = none)
    (plain : raw ≠ astSop ∧ raw ≠ astEopPrefix ∧ raw ≠ astEscapePrefix)
    (inside : state.insidePacket = true) (last : state.offset = 3) :
    Parts cfg state raw
      (allocateJob cfg malloc
        (storeLengthByte (unescaped state) (unescape state.escapePrefix raw))) finishByte := by
  have still : (allocateJob cfg malloc
      (storeLengthByte (unescaped state) (unescape state.escapePrefix raw))).1.pendingJob =
        none := by
    rw [allocateJob_pendingJob]
    exact free
  exact
    { still := still
      handles := fun safe => by
        refine (allocateJob_handles ?_).congr rfl rfl rfl
        by_cases held : state.incomingJob = none
        · exact .inl held
        · exact .inr fun short => safe
            ⟨plain, inside, last, Option.isSome_iff_ne_none.mpr held, short⟩
      replaces := fun overwrites => by
        obtain ⟨-, -, -, published, short⟩ := overwrites
        obtain ⟨job, held⟩ := Option.isSome_iff_exists.mp published
        have replaces := @allocateJob_replaces cfg malloc
          (storeLengthByte (unescaped state) (unescape state.escapePrefix raw)) job held short
        exact ⟨job, held, replaces.incoming, replaces.pending, replaces.freed,
          replaces.mallocs⟩
      second := finishByte_handles still }

theorem sinkByte_parts (free : state.pendingJob = none) (raw : UInt8) :
    ∃ first rest, sinkByte cfg malloc state raw = first.andThen rest ∧
      Parts cfg state raw first rest := by
  cases byteCase state raw with
  | sop marker =>
      refine parts_of_handles free (fun overwrites => overwrites.1.1 marker) ?_
      rw [marker, sinkByte_sop]
      exact .same rfl rfl rfl rfl (Nat.le_refl _)
  | eop marker =>
      refine parts_of_handles free (fun overwrites => overwrites.1.2.1 marker) ?_
      rw [marker, sinkByte_eop]
      exact .same rfl rfl rfl rfl (Nat.le_refl _)
  | escape marker =>
      refine parts_of_handles free (fun overwrites => overwrites.1.2.2 marker) ?_
      rw [marker, sinkByte_escape]
      exact .same rfl rfl rfl rfl (Nat.le_refl _)
  | outside notSop notEop notEscape outside =>
      refine parts_of_handles free (fun overwrites => ?_) ?_
      · have inside := overwrites.2.1
        rw [outside] at inside
        cases inside
      · rw [sinkByte_outside notSop notEop notEscape outside]
        exact .same rfl rfl rfl rfl (Nat.le_refl _)
  | payload notSop notEop notEscape inside =>
      have elsewhere (other : state.offset ≠ 3) : ¬Overwrites cfg state raw := fun overwrites =>
        other overwrites.2.2.1
      rw [sinkByte_payload notSop notEop notEscape inside]
      generalize taken : unescape state.escapePrefix raw = byte
      cases payloadCase (unescaped state) with
      | short low =>
          rw [payloadByte_short low]
          exact parts_of_handles free (elsewhere (Nat.ne_of_lt low)) ((@finishByte_handles
            (storeLengthByte (unescaped state) byte) free).congr rfl rfl rfl)
      | beyond high full =>
          rw [payloadByte_beyond high full]
          exact parts_of_handles free (elsewhere (Nat.ne_of_gt high))
            ((dropPacket_handles _).congr rfl rfl rfl)
      | skip high room jobless =>
          rw [payloadByte_skip high room jobless]
          exact parts_of_handles free (elsewhere (Nat.ne_of_gt high))
            ((@finishByte_handles (unescaped state) free).congr rfl rfl rfl)
      | data high room job held =>
          rw [payloadByte_data high room held]
          have mine : state.incomingJob = some job := held
          refine ⟨_, _, rfl, ?_⟩
          exact
            { still := free
              handles := fun _ => .same (by rw [mine]; rfl) rfl rfl rfl (Nat.le_refl _)
              replaces := fun overwrites => absurd overwrites (elsewhere (Nat.ne_of_gt high))
              second := finishByte_handles free }
      | fourth last =>
          rw [payloadByte_fourth last, ← taken]
          exact ⟨_, _, rfl, fourthByte_parts free ⟨notSop, notEop, notEscape⟩ inside last⟩

/-! ## The sink -/

/-- The books of the server, kept with numbers that have been given out. -/
structure Owned (server : Server) : Prop where
  books : Books (holding server) server.allocated server.freed
  fresh : ∀ id ∈ server.allocated, id < server.sink.mallocs

variable {server next : Server}

theorem Owned.jobsOwned (owned : Owned server) : JobsOwned server where
  held _ listed alive := owned.books.custody.existsUnique ⟨listed, alive⟩
  once := owned.books.once

theorem record_andThen (server : Server) (outcome : Outcome) (rest : Sink.State → Outcome) :
    server.record (outcome.andThen rest) = (server.record outcome).record (rest outcome.1) := by
  simp [Server.record, Outcome.andThen, allocatedIds, freedIds]

theorem holding_record (server : Server) (outcome : Outcome) :
    holding (server.record outcome) =
      Function.update
        (Function.update (holding server) .incoming (outcome.1.incomingJob.map RpcsrvJob.id))
        .pending (outcome.1.pendingJob.map RpcsrvJob.id) := by
  funext holder
  cases holder <;> simp [holding, Server.record, Function.update]

theorem holding_record_same {outcome : Outcome}
    (pending : outcome.1.pendingJob = server.sink.pendingJob) :
    holding (server.record outcome) =
      Function.update (holding server) .incoming (outcome.1.incomingJob.map RpcsrvJob.id) := by
  have kept : outcome.1.pendingJob.map RpcsrvJob.id =
      Function.update (holding server) .incoming (outcome.1.incomingJob.map RpcsrvJob.id)
        .pending := by
    rw [Function.update_of_ne (by nofun), pending]
    rfl
  rw [holding_record, kept, Function.update_eq_self]

theorem record_allocated (server : Server) (outcome : Outcome) :
    (server.record outcome).allocated = server.allocated ++ allocatedIds outcome.2 := rfl

theorem record_freed (server : Server) (outcome : Outcome) :
    (server.record outcome).freed = server.freed ++ freedIds outcome.2 := rfl

theorem Owned.free (owned : Owned server) {holder : Holder} {id : Nat}
    (held : holding server holder = some id) (same : next.sink.mallocs = server.sink.mallocs)
    (allocated : next.allocated = server.allocated) (freed : next.freed = server.freed ++ [id])
    (given : holding next = Function.update (holding server) holder none) : Owned next where
  books := by
    rw [given, allocated, freed]
    exact owned.books.leave held
  fresh any inside := by
    rw [same]
    exact owned.fresh any (allocated ▸ inside)

/-- The parts of the loop body keep the books. -/
theorem Owned.record (owned : Owned server) {outcome : Outcome}
    (free : server.sink.pendingJob = none) (handles : Handles server.sink outcome) :
    Owned (server.record outcome) := by
  cases handles with
  | same incoming pending allocated freed mallocs =>
      have kept : outcome.1.incomingJob.map RpcsrvJob.id = holding server .incoming := incoming
      constructor
      · rw [holding_record_same pending, kept, Function.update_eq_self, record_allocated,
          record_freed, allocated, freed, List.append_nil, List.append_nil]
        exact owned.books
      · intro id inside
        rw [record_allocated, allocated, List.append_nil] at inside
        exact Nat.lt_of_lt_of_le (owned.fresh id inside) mallocs
  | drop job held incoming pending allocated freed mallocs =>
      have mine : holding server .incoming = some job.id := by rw [holding, held]; rfl
      refine owned.free mine mallocs ?_ ?_ ?_
      · rw [record_allocated, allocated, List.append_nil]
      · rw [record_freed, freed]
      · rw [holding_record_same pending, incoming]
        rfl
  | publish job held incoming pending allocated freed mallocs =>
      have mine : holding server .incoming = some job.id := by rw [holding, held]; rfl
      have unpublished : holding server .pending = none := by rw [holding, free]; rfl
      constructor
      · rw [holding_record, incoming, pending, record_allocated, record_freed, allocated, freed,
          List.append_nil, List.append_nil]
        exact owned.books.move mine unpublished
      · intro id inside
        rw [record_allocated, allocated, List.append_nil] at inside
        exact Nat.lt_of_lt_of_eq (owned.fresh id inside) mallocs.symm
  | allocate empty incoming pending allocated freed mallocs =>
      have nothing : holding server .incoming = none := by rw [holding, empty]; rfl
      have unlisted : server.sink.mallocs ∉ server.allocated := fun inside =>
        Nat.lt_irrefl _ (owned.fresh _ inside)
      constructor
      · rw [holding_record_same pending, incoming, record_allocated, record_freed, allocated,
          freed, List.append_nil]
        exact owned.books.enter nothing unlisted
      · intro id inside
        rw [record_allocated, allocated, List.mem_append, List.mem_singleton] at inside
        have after : (server.record outcome).sink.mallocs = server.sink.mallocs + 1 := mallocs
        rcases inside with before | rfl
        · have bound := owned.fresh id before
          omega
        · omega

theorem Owned.byte (owned : Owned server) {raw : UInt8}
    (free : server.sink.pendingJob = none) (safe : ¬Overwrites cfg server.sink raw) :
    Owned (server.record (sinkByte cfg malloc server.sink raw)) := by
  obtain ⟨first, rest, taken, parts⟩ := @sinkByte_parts cfg malloc _ free raw
  rw [taken, record_andThen]
  exact (owned.record free (parts.handles safe)).record parts.still parts.second

/-! ## Lost jobs -/

/-- A job nobody can free any more. -/
structure Lost (server : Server) (id : Nat) : Prop where
  allocated : id ∈ server.allocated
  alive : id ∉ server.freed
  unheld : ∀ holder, holding server holder ≠ some id
  old : id < server.sink.mallocs

theorem Lost.not_jobsOwned {id : Nat} (lost : Lost server id) : ¬JobsOwned server := by
  intro owned
  obtain ⟨holder, held, -⟩ := owned.held id lost.allocated lost.alive
  exact lost.unheld holder held

/-- Where the jobs can come from that a part of the loop body holds or frees. -/
structure Moves (state : Sink.State) (outcome : Outcome) : Prop where
  source : ∀ id, outcome.1.incomingJob.map RpcsrvJob.id = some id ∨
      outcome.1.pendingJob.map RpcsrvJob.id = some id ∨ id ∈ freedIds outcome.2 →
    state.incomingJob.map RpcsrvJob.id = some id ∨ state.pendingJob.map RpcsrvJob.id = some id ∨
      state.mallocs ≤ id
  mallocs : state.mallocs ≤ outcome.1.mallocs

theorem Handles.moves {outcome : Outcome} (free : state.pendingJob = none)
    (handles : Handles state outcome) : Moves state outcome := by
  cases handles with
  | same incoming pending allocated freed mallocs =>
      refine ⟨fun id from_ => ?_, mallocs⟩
      rw [incoming, pending, freed] at from_
      simp only [List.not_mem_nil, or_false] at from_
      exact from_.imp_right .inl
  | drop job held incoming pending allocated freed mallocs =>
      refine ⟨fun id from_ => ?_, Nat.le_of_eq mallocs.symm⟩
      rw [incoming, pending, freed] at from_
      have same : id = job.id := by simpa [free, eq_comm] using from_
      rw [held, same]
      exact .inl rfl
  | publish job held incoming pending allocated freed mallocs =>
      refine ⟨fun id from_ => ?_, Nat.le_of_eq mallocs.symm⟩
      rw [incoming, pending, freed] at from_
      have same : id = job.id := by simpa [eq_comm] using from_
      rw [held, same]
      exact .inl rfl
  | allocate empty incoming pending allocated freed mallocs =>
      refine ⟨fun id from_ => ?_, by omega⟩
      rw [incoming, pending, freed] at from_
      have same : state.mallocs = id := by simpa [free] using from_
      exact .inr (.inr (Nat.le_of_eq same))

theorem Lost.record {id : Nat} (lost : Lost server id) {outcome : Outcome}
    (moves : Moves server.sink outcome) : Lost (server.record outcome) id := by
  have nowhere : ¬(server.sink.incomingJob.map RpcsrvJob.id = some id ∨
      server.sink.pendingJob.map RpcsrvJob.id = some id ∨ server.sink.mallocs ≤ id) := by
    rintro (incoming | pending | new)
    · exact lost.unheld .incoming incoming
    · exact lost.unheld .pending pending
    · exact Nat.not_lt.mpr new lost.old
  refine ⟨List.mem_append_left _ lost.allocated, ?_, fun holder held => ?_,
    Nat.lt_of_lt_of_le lost.old moves.mallocs⟩
  · intro inside
    rcases List.mem_append.mp inside with before | now
    · exact lost.alive before
    · exact nowhere (moves.source id (.inr (.inr now)))
  · cases holder with
    | incoming => exact nowhere (moves.source id (.inl held))
    | pending => exact nowhere (moves.source id (.inr (.inl held)))
    | service call => exact lost.unheld (.service call) held
    | method call => exact lost.unheld (.method call) held

theorem Replaces.moves {job : RpcsrvJob} {outcome : Outcome} (free : state.pendingJob = none)
    (replaces : Replaces state job outcome) : Moves state outcome where
  source id from_ := by
    rw [replaces.pending, replaces.freed, free] at from_
    rcases replaces.incoming with dropped | new
    · simp [dropped] at from_
    · have same : state.mallocs = id := by simpa [new] using from_
      exact .inr (.inr (Nat.le_of_eq same))
  mallocs := by
    rw [replaces.mallocs]
    exact Nat.le_succ _

theorem Lost.byte {id : Nat} (lost : Lost server id) {raw : UInt8}
    (free : server.sink.pendingJob = none) :
    Lost (server.record (sinkByte cfg malloc server.sink raw)) id := by
  obtain ⟨first, rest, taken, parts⟩ := @sinkByte_parts cfg malloc _ free raw
  rw [taken, record_andThen]
  have moves : Moves server.sink first := by
    by_cases overwrites : Overwrites cfg server.sink raw
    · obtain ⟨job, replaces⟩ := parts.replaces overwrites
      exact replaces.moves free
    · exact (parts.handles overwrites).moves free
  exact (lost.record moves).record (parts.second.moves parts.still)

/-- A byte that overwrites a job loses it. -/
theorem Owned.lost (owned : Owned server) {raw : UInt8} (free : server.sink.pendingJob = none)
    (overwrites : Overwrites cfg server.sink raw) :
    ∃ id, Lost (server.record (sinkByte cfg malloc server.sink raw)) id := by
  obtain ⟨first, rest, taken, parts⟩ := @sinkByte_parts cfg malloc _ free raw
  obtain ⟨job, replaces⟩ := parts.replaces overwrites
  have mine : holding server .incoming = some job.id := by
    rw [holding, replaces.held]
    rfl
  have live := owned.books.custody.live_of_held _ _ mine
  have old := owned.fresh _ live.1
  refine ⟨job.id, ?_⟩
  rw [taken, record_andThen]
  have lost : Lost (server.record first) job.id := by
    refine ⟨List.mem_append_left _ live.1, ?_, fun holder held => ?_, ?_⟩
    · simpa [Server.record, replaces.freed] using live.2
    · rw [holding_record_same replaces.pending] at held
      by_cases here : holder = .incoming
      · rw [here, Function.update_self] at held
        rcases replaces.incoming with dropped | new
        · rw [dropped] at held
          cases held
        · rw [new] at held
          exact Nat.ne_of_gt old (Option.some.inj held)
      · rw [Function.update_of_ne here] at held
        exact here (owned.books.custody.single _ _ _ held mine)
    · have after : (server.record first).sink.mallocs = server.sink.mallocs + 1 :=
        replaces.mallocs
      omega
  exact lost.record (parts.second.moves parts.still)

theorem record_nil (server : Server) : server.record (server.sink, []) = server := by
  simp [Server.record, allocatedIds, freedIds]

theorem record_consume (server : Server) (state : Sink.State) (byte : UInt8)
    (effects : List Sink.Effect) :
    server.record (state, .consume byte :: effects) = server.record (state, effects) := by
  simp [Server.record, allocatedIds, freedIds]

theorem Lost.sink {id : Nat} (lost : Lost server id) (buffer : List UInt8) :
    Lost (server.record (peridotRpcServerSink cfg malloc server.sink buffer).1) id := by
  induction buffer generalizing server with
  | nil =>
      rw [peridotRpcServerSink, record_nil]
      exact lost
  | cons byte rest ih =>
      cases pending : server.sink.pendingJob with
      | some job =>
          simp only [peridotRpcServerSink, pending, record_nil]
          exact lost
      | none =>
          have split := record_andThen server (sinkByte cfg malloc server.sink byte) fun state =>
            (peridotRpcServerSink cfg malloc state rest).1
          simp only [peridotRpcServerSink, pending, record_consume]
          exact split ▸ ih (lost.byte pending)

/-- A call of the sink keeps the books exactly if it overwrites no job. -/
theorem Owned.sink (owned : Owned server) (buffer : List UInt8) :
    (SinkSteps cfg malloc (¬Overwrites cfg · ·) server.sink buffer →
      Owned (server.record (peridotRpcServerSink cfg malloc server.sink buffer).1)) ∧
    (¬SinkSteps cfg malloc (¬Overwrites cfg · ·) server.sink buffer →
      ∃ id, Lost (server.record (peridotRpcServerSink cfg malloc server.sink buffer).1) id) := by
  induction buffer generalizing server with
  | nil =>
      rw [peridotRpcServerSink, record_nil]
      exact ⟨fun _ => owned, fun fails => absurd trivial fails⟩
  | cons byte rest ih =>
      cases pending : server.sink.pendingJob with
      | some job =>
          simp only [SinkSteps, peridotRpcServerSink, pending, record_nil]
          exact ⟨fun _ => owned, fun fails => absurd trivial fails⟩
      | none =>
          have split := record_andThen server (sinkByte cfg malloc server.sink byte) fun state =>
            (peridotRpcServerSink cfg malloc state rest).1
          simp only [SinkSteps, peridotRpcServerSink, pending, record_consume]
          by_cases overwrites : Overwrites cfg server.sink byte
          · obtain ⟨id, lost⟩ := @Owned.lost cfg malloc _ owned _ pending overwrites
            refine ⟨fun steps => absurd overwrites steps.1, fun _ => ⟨id, ?_⟩⟩
            exact split ▸ lost.sink rest
          · have next := @Owned.byte cfg malloc _ owned _ pending overwrites
            obtain ⟨good, bad⟩ := ih next
            constructor
            · rintro ⟨-, later⟩
              exact split ▸ good later
            · intro fails
              obtain ⟨id, lost⟩ := bad fun later => fails ⟨overwrites, later⟩
              exact ⟨id, split ▸ lost⟩

/-! ## Calls of the service -/

/-- The calls that hold a job: numbers that have been given out, and each in one role. -/
structure Numbered (server : Server) : Prop where
  ahead : ∀ call, server.calls ≤ call → server.serving call = none ∧ server.accepted call = none
  single : ∀ call, server.serving call = none ∨ server.accepted call = none

theorem Numbered.record (numbered : Numbered server) (outcome : Outcome) :
    Numbered (server.record outcome) := ⟨numbered.ahead, numbered.single⟩

theorem holding_take (server : Server) (sink : Sink.State) (taken : Option RpcsrvJob)
    (incoming : sink.incomingJob = server.sink.incomingJob) (empty : sink.pendingJob = none) :
    holding { server with
        sink := sink
        serving := Function.update server.serving server.calls taken
        calls := server.calls + 1 } =
      Function.update (Function.update (holding server) .pending none) (.service server.calls)
        (taken.map RpcsrvJob.id) := by
  funext holder
  cases holder with
  | incoming => simp [holding, incoming]
  | pending => simp [holding, empty]
  | service call =>
      by_cases same : call = server.calls
      · simp [holding, same]
      · simp [holding, Function.update, same]
  | method call => simp [holding]

theorem take_cases {threads : Bool} (taken : take threads server = some next) :
    ∃ sink : Sink.State, sink.incomingJob = server.sink.incomingJob ∧ sink.pendingJob = none ∧
      sink.mallocs = server.sink.mallocs ∧
      next = { server with
        sink := sink
        serving := Function.update server.serving server.calls server.sink.pendingJob
        calls := server.calls + 1 } := by
  cases threads with
  | false =>
      simp only [take, Bool.false_eq_true, if_false, Option.map_some, Option.some.injEq] at taken
      exact ⟨{ server.sink with pendingJob := none }, rfl, rfl, rfl, taken.symm⟩
  | true =>
      simp only [take, if_true, takePendingJob] at taken
      split at taken
      · cases taken
      · simp only [Option.map_some, Option.some.injEq] at taken
        exact ⟨{ server.sink with sem := server.sink.sem - 1, pendingJob := none }, rfl, rfl, rfl,
          taken.symm⟩

theorem Owned.take (owned : Owned server) (numbered : Numbered server) {threads : Bool}
    (taken : take threads server = some next) : Owned next ∧ Numbered next := by
  obtain ⟨sink, incoming, empty, mallocs, rfl⟩ := take_cases taken
  obtain ⟨unserved, unaccepted⟩ := numbered.ahead server.calls (Nat.le_refl _)
  have nobody : holding server (.service server.calls) = none := by
    rw [holding, unserved]
    rfl
  constructor
  · refine ⟨?_, fun id inside => mallocs ▸ owned.fresh id inside⟩
    rw [holding_take server sink _ incoming empty]
    cases pending : server.sink.pendingJob with
    | some job =>
        have mine : holding server .pending = some job.id := by
          rw [holding, pending]
          rfl
        exact owned.books.move mine nobody
    | none =>
        have nothing : holding server .pending = none := by
          rw [holding, pending]
          rfl
        have first : Function.update (holding server) .pending none = holding server :=
          nothing ▸ Function.update_eq_self _ _
        have second : Function.update (holding server) (.service server.calls) none =
            holding server :=
          nobody ▸ Function.update_eq_self _ _
        rw [first, Option.map_none, second]
        exact owned.books
  · constructor
    · intro call later
      have different : call ≠ server.calls := Nat.ne_of_gt later
      dsimp only
      rw [Function.update_of_ne different]
      exact numbered.ahead call (Nat.le_of_succ_le later)
    · intro call
      by_cases same : call = server.calls
      · exact .inr (same ▸ unaccepted)
      · dsimp only
        rw [Function.update_of_ne same]
        exact numbered.single call

theorem holding_serve (server : Server) (call : Nat) (job : RpcsrvJob) (queued : Bool)
    (freed : List Nat) :
    holding { server with
        serving := Function.update server.serving call none
        accepted :=
          if queued then Function.update server.accepted call (some job) else server.accepted
        freed := freed } =
      if queued then
        Function.update (Function.update (holding server) (.service call) none) (.method call)
          (some job.id)
      else Function.update (holding server) (.service call) none := by
  funext holder
  cases queued with
  | false =>
      cases holder with
      | incoming | pending | method other => simp [holding]
      | service other => by_cases same : other = call <;> simp [holding, Function.update, same]
  | true =>
      cases holder with
      | incoming | pending => simp [holding]
      | service other => by_cases same : other = call <;> simp [holding, Function.update, same]
      | method other => by_cases same : other = call <;> simp [holding, Function.update, same]

theorem Owned.serve (owned : Owned server) (numbered : Numbered server) {call : Nat}
    {surroundings : Surroundings} (served : serve server call surroundings = some next) :
    Owned next ∧ Numbered next := by
  obtain ⟨job, serving, rfl⟩ := Option.map_eq_some_iff.mp served
  have mine : holding server (.service call) = some job.id := by
    rw [holding, serving]
    rfl
  have unaccepted : server.accepted call = none := by
    rcases numbered.single call with unheld | unheld
    · rw [serving] at unheld
      cases unheld
    · exact unheld
  rw [jobFrees_service]
  constructor
  · have books := holding_serve server call job (isQueued surroundings job)
    cases queued : isQueued surroundings job with
    | false =>
        rw [queued] at books
        exact owned.free mine rfl rfl rfl (books _)
    | true =>
        rw [queued] at books
        have nobody : holding server (.method call) = none := by
          rw [holding, unaccepted]
          rfl
        have moved := owned.books.move mine nobody
        refine ⟨?_, owned.fresh⟩
        rw [books]
        simpa using moved
  · constructor
    · intro other later
      obtain ⟨unserved, never⟩ := numbered.ahead other later
      have different : other ≠ call := by
        rintro rfl
        rw [serving] at unserved
        cases unserved
      dsimp only
      rw [Function.update_of_ne different]
      refine ⟨unserved, ?_⟩
      split
      · rw [Function.update_of_ne different, never]
      · exact never
    · intro other
      dsimp only
      by_cases same : other = call
      · rw [same, Function.update_self]
        exact .inl rfl
      · rw [Function.update_of_ne same]
        rcases numbered.single other with unserved | never
        · exact .inl unserved
        · refine .inr ?_
          split
          · rw [Function.update_of_ne same, never]
          · exact never

theorem Owned.answer (owned : Owned server) (numbered : Numbered server) {call : Nat}
    {report : Report} (answered : answer server call report = some next) :
    Owned next ∧ Numbered next := by
  obtain ⟨job, accepted, rfl⟩ := Option.map_eq_some_iff.mp answered
  have mine : holding server (.method call) = some job.id := by
    rw [holding, accepted]
    rfl
  rw [jobFrees_report]
  constructor
  · refine owned.free mine rfl rfl rfl ?_
    funext holder
    cases holder with
    | incoming | pending | service other => simp [holding]
    | method other => by_cases same : other = call <;> simp [holding, Function.update, same]
  · constructor
    · intro other later
      obtain ⟨unserved, never⟩ := numbered.ahead other later
      refine ⟨unserved, ?_⟩
      by_cases same : other = call
      · simp [same]
      · simp [Function.update_of_ne same, never]
    · intro other
      rcases numbered.single other with unserved | never
      · exact .inl unserved
      · refine .inr ?_
        by_cases same : other = call
        · simp [same]
        · simp [Function.update_of_ne same, never]

/-! ## Runs -/

theorem initial_owned : Owned initial := by
  have empty : holding initial = fun _ => none := by
    funext holder
    cases holder <;> rfl
  refine ⟨?_, nofun⟩
  rw [empty]
  exact books_empty

theorem initial_numbered : Numbered initial := ⟨fun _ _ => ⟨rfl, rfl⟩, fun _ => .inl rfl⟩

theorem step_owned {threads : Bool} (owned : Owned server) (numbered : Numbered server)
    {action : Action} (keeps : Keeps cfg malloc server action)
    (taken : step threads cfg malloc server action = some next) : Owned next ∧ Numbered next := by
  cases action with
  | sink buffer =>
      cases taken
      exact ⟨(owned.sink buffer).1 keeps, numbered.record _⟩
  | take => exact owned.take numbered taken
  | serve call surroundings => exact owned.serve numbered taken
  | answer call report => exact owned.answer numbered taken

/-- A call of the sink that overwrites a job leaves it to nobody. -/
theorem step_lost {threads : Bool} (owned : Owned server) {action : Action}
    (fails : ¬Keeps cfg malloc server action)
    (taken : step threads cfg malloc server action = some next) : ¬JobsOwned next := by
  cases action with
  | sink buffer =>
      cases taken
      obtain ⟨id, lost⟩ := (owned.sink buffer).2 fails
      exact lost.not_jobsOwned
  | take | serve call surroundings | answer call report => exact absurd trivial fails

/-- In every state passed each job has one owner exactly if no call of the sink overwrites
the job of a packet that was cut off. -/
theorem peridotRpcServer_jobsOwned_iff (threads : Bool) (cfg : Config) (malloc : Allocator)
    (actions : List Action) :
    Always (step threads cfg malloc) JobsOwned initial actions ↔
      Each (step threads cfg malloc) (Keeps cfg malloc) initial actions := by
  refine @always_iff_each _ _ _ JobsOwned (fun server => Owned server ∧ Numbered server) _
    ?_ ?_ ?_ _ ⟨initial_owned, initial_numbered⟩ actions
  · intro server action next holds keeps taken
    exact step_owned holds.1 holds.2 keeps taken
  · intro server holds
    exact holds.1.jobsOwned
  · intro server action next holds fails taken
    exact step_lost holds.1 fails taken

/-- A packet of five bytes, cut off after its length, and the length of the next. -/
def cutOff : List UInt8 := [astSop, 5, 0, 0, 0, astSop, 5, 0, 0, 0]

def zeroed : Allocator := fun _ _ => some fun _ => 0

/-- The first packet's job is neither freed nor held. -/
theorem lost_cutOff :
    Lost (initial.record (peridotRpcServerSink defaultConfig zeroed initial.sink cutOff).1) 0 where
  allocated := by decide
  alive := by decide
  unheld holder held := by
    cases holder with
    | incoming => exact absurd held (by decide)
    | pending => exact absurd held (by decide)
    | service call => cases held
    | method call => cases held
  old := by decide

theorem not_jobsOwned_cutOff :
    ¬Always (step true defaultConfig zeroed) JobsOwned initial [.sink cutOff] := fun always =>
  lost_cutOff.not_jobsOwned (always.2 _ rfl).here

end PeridotSw.Rpc.JobOwnership
