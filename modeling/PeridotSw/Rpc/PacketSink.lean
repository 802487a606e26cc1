import Mathlib.Data.Nat.Find
import PeridotSw.Rpc.SinkRun
import PeridotSw.Bridge.Service
import PeridotSw.Bridge.Source

/-!
# The RPC sink on whole packets

A service thread may take the pending job whenever the sink looks at it.  The
schedule says at which of these looks it does.  `Expects` is what the sink and the
stream still to come have to do with each other: everything published so far are the
payloads behind, and what lies ahead is the rest of the packet being filled and the
packets after it.
-/

namespace PeridotSw.Rpc.PacketSink

open PeridotSw.Machine.Memory
open PeridotSw.Machine.Word
open PeridotSw.Stream.Ast
open PeridotSw.Stream.Encoding
open PeridotSw.Bridge.Service
open PeridotSw.Bridge.Source
open PeridotSw.Rpc.Sink
open PeridotSw.Rpc.SinkRun

/-- The sink's state with the jobs taken so far and the number of looks at the
pending job. -/
structure World where
  sink : State
  taken : List RpcsrvJob
  time : Nat

def freshWorld : World where
  sink := initial
  taken := []
  time := 0

/-- One look at the pending job, before which a service thread may take it. -/
def tick (schedule : Nat → Bool) (world : World) : World :=
  if schedule world.time then
    match takePendingJob world.sink with
    | none => { world with time := world.time + 1 }
    | some (next, job) =>
        { sink := next, taken := world.taken ++ job.toList, time := world.time + 1 }
  else
    { world with time := world.time + 1 }

/-- `peridot_rpc_server_sink` with service threads running beside it. -/
def interruptedSink (cfg : Config) (malloc : Allocator) (schedule : Nat → Bool) :
    World → List UInt8 → World × Nat
  | world, [] => (world, 0)
  | world, byte :: rest =>
      let seen := tick schedule world
      match seen.sink.pendingJob with
      | some _ => (seen, 0)
      | none =>
          let tail := interruptedSink cfg malloc schedule
            { seen with sink := (sinkByte cfg malloc seen.sink byte).1 } rest
          (tail.1, tail.2 + 1)

/-- With nobody taking jobs this is the sink. -/
theorem interruptedSink_undisturbed (cfg : Config) (malloc : Allocator) (world : World)
    (buffer : List UInt8) :
    (interruptedSink cfg malloc (fun _ => false) world buffer).1.sink =
        (peridotRpcServerSink cfg malloc world.sink buffer).1.1 ∧
      (interruptedSink cfg malloc (fun _ => false) world buffer).2 =
        (peridotRpcServerSink cfg malloc world.sink buffer).2 := by
  induction buffer generalizing world with
  | nil => exact ⟨rfl, rfl⟩
  | cons byte rest ih =>
      have quiet : (tick (fun _ => false) world).sink = world.sink := rfl
      simp only [interruptedSink, peridotRpcServerSink, quiet]
      cases held : world.sink.pendingJob with
      | some job => exact ⟨rfl, rfl⟩
      | none =>
          have later := ih { tick (fun _ => false) world with
            sink := (sinkByte cfg malloc world.sink byte).1 }
          exact ⟨later.1, congrArg (· + 1) later.2⟩

/-- A request: it begins with its own length. -/
structure Payload (cfg : Config) where
  bytes : List UInt8
  long : 5 ≤ bytes.length
  fits : bytes.length ≤ cfg.maxRequestLength
  declared : bytes.take 4 = bytes32 bytes.length

def shortestPayload : Payload defaultConfig where
  bytes := [5, 0, 0, 0, 0]
  long := by decide
  fits := by decide
  declared := by decide

variable {cfg : Config} {malloc : Allocator}

def Payload.packet (payload : Payload cfg) : List UInt8 := packetBytes payload.bytes

def jobPayload (job : RpcsrvJob) : List UInt8 := slice job.data 0 job.lengthWord

/-- The jobs published so far, taken or pending. -/
structure Settled (world : World) (done : List (Payload cfg)) : Prop where
  jobs : (world.taken ++ world.sink.pendingJob.toList).map jobPayload =
    done.map Payload.bytes
  sem : world.sink.sem = world.sink.pendingJob.toList.length

/-- A packet of which the sink has stored the bytes `before`. -/
structure Filling (state : State) (payload : Payload cfg) (before : List UInt8) : Prop where
  inside : state.insidePacket = true
  offset : state.offset = before.length
  start : before.length < 4 → state.incomingJob = none ∧
    ∀ index : Fin 4, index.val < before.length →
      state.length index = before.getD index 0
  body : 4 ≤ before.length → state.lengthWord = payload.bytes.length ∧
    ∃ job, state.incomingJob = some job ∧ Holds job.data 0 before

/-- The rest of a packet, from the byte after `before` on, with the prefixes of this
byte that are already behind. -/
def restOfPacket (escaped marked : Bool) (byte : UInt8) (after : List UInt8) : List UInt8 :=
  if escaped then
    (byte ^^^ astEscapeXor) :: encodeBytes true after
  else if marked then
    escapeByte byte ++ encodeBytes true after
  else
    encodeBytes true (byte :: after)

/-- What the sink is ready for. -/
inductive Expects (goal : List (Payload cfg)) : List UInt8 → World → Prop where
  | between (world : World) (done todo : List (Payload cfg)) (split : goal = done ++ todo)
      (settled : Settled world done) (closed : world.sink.escapePrefix = false)
      (jobless : world.sink.incomingJob = none) :
      Expects goal (todo.flatMap Payload.packet) world
  | inside (world : World) (done : List (Payload cfg)) (payload : Payload cfg)
      (todo : List (Payload cfg)) (split : goal = done ++ payload :: todo)
      (settled : Settled world done) (free : world.sink.pendingJob = none)
      (before : List UInt8) (byte : UInt8) (after : List UInt8)
      (bytes : payload.bytes = before ++ byte :: after)
      (filling : Filling world.sink payload before)
      (special : world.sink.escapePrefix = true → astNeedsEscape byte = true)
      (mark : world.sink.eopPrefix = true → after = [])
      (marked : world.sink.escapePrefix = true → after = [] → world.sink.eopPrefix = true) :
      Expects goal (restOfPacket world.sink.escapePrefix world.sink.eopPrefix byte after ++
        todo.flatMap Payload.packet) world

/-! ## Taking jobs -/

/-- Taking the pending job moves it from one place to the other. -/
theorem Settled.tick {schedule : Nat → Bool} {world : World} {done : List (Payload cfg)}
    (settled : Settled world done) : Settled (tick schedule world) done := by
  unfold PacketSink.tick
  split
  · unfold takePendingJob
    by_cases idle : world.sink.sem = 0
    · rw [if_pos idle]
      exact ⟨settled.jobs, settled.sem⟩
    · rw [if_neg idle]
      refine ⟨?_, ?_⟩
      · have jobs := settled.jobs
        simpa using jobs
      · have count := settled.sem
        cases held : world.sink.pendingJob with
        | none =>
            rw [held] at count
            exact absurd count idle
        | some job =>
            rw [held] at count
            simp [count]
  · exact ⟨settled.jobs, settled.sem⟩

/-- A look leaves everything but the pending job alone. -/
theorem tick_sink (schedule : Nat → Bool) (world : World) :
    ∃ pending count, (tick schedule world).sink =
      { world.sink with pendingJob := pending, sem := count } := by
  unfold tick
  split
  · unfold takePendingJob
    by_cases idle : world.sink.sem = 0
    · rw [if_pos idle]
      exact ⟨_, _, rfl⟩
    · rw [if_neg idle]
      exact ⟨_, _, rfl⟩
  · exact ⟨_, _, rfl⟩

/-- Without a pending job a look changes nothing in the sink. -/
theorem tick_free {schedule : Nat → Bool} {world : World} {done : List (Payload cfg)}
    (settled : Settled world done) (free : world.sink.pendingJob = none) :
    (tick schedule world).sink = world.sink := by
  have idle : world.sink.sem = 0 := by
    rw [settled.sem, free]
    rfl
  unfold tick takePendingJob
  rw [if_pos idle]
  split <;> rfl

theorem Expects.tick (schedule : Nat → Bool) {world : World} {goal : List (Payload cfg)}
    {rest : List UInt8} (expects : Expects goal rest world) :
    Expects goal rest (tick schedule world) := by
  cases expects with
  | between _ done todo split settled closed jobless =>
      obtain ⟨pending, count, same⟩ := tick_sink schedule world
      exact .between _ done todo split settled.tick (by rw [same]; exact closed)
        (by rw [same]; exact jobless)
  | inside _ done payload todo split settled free before byte after bytes filling special mark
      marked =>
      have same : (PacketSink.tick schedule world).sink = world.sink := tick_free settled free
      rw [← same] at free filling special mark marked ⊢
      exact .inside _ done payload todo split settled.tick free before byte after bytes filling
        special mark marked

/-! ## Storing a byte -/

theorem finishByte_open {state : State} (opened : state.eopPrefix = false) :
    finishByte state = (state, []) := by
  rw [finishByte, if_pos opened]

theorem finishByte_publish {state : State} (marked : state.eopPrefix = true)
    (complete : state.offset = state.lengthWord) :
    (finishByte state).1 = nextPacket
      { state with
        pendingJob := state.incomingJob
        incomingJob := none
        sem := state.sem + 1 } := by
  rw [finishByte, if_neg (by simp [marked]), if_neg (by simp [complete])]

variable {state : State} {payload : Payload cfg} {before after : List UInt8} {byte : UInt8}

theorem Payload.length_lt (payload : Payload cfg) : payload.bytes.length < 2 ^ 31 :=
  Nat.lt_of_le_of_lt payload.fits cfg.maxRequestLength_lt

/-- What a step inside a packet leaves alone. -/
structure SameOutside (state next : State) : Prop where
  escape : next.escapePrefix = state.escapePrefix
  eop : next.eopPrefix = state.eopPrefix
  pending : next.pendingJob = state.pendingJob
  sem : next.sem = state.sem

theorem fill_short (filling : Filling state payload before) (low : before.length < 3)
    (opened : state.eopPrefix = false) :
    Filling (payloadByte cfg malloc state byte).1 payload (before ++ [byte]) ∧
      SameOutside state (payloadByte cfg malloc state byte).1 := by
  have opened' : (storeLengthByte state byte).eopPrefix = false := opened
  rw [payloadByte_short (by rw [filling.offset]; exact low), finishByte_open opened']
  obtain ⟨jobless, stored⟩ := filling.start (by omega)
  refine ⟨⟨filling.inside, ?_, ?_, ?_⟩, rfl, rfl, rfl, rfl⟩
  · simp [storeLengthByte, filling.offset]
  · intro _
    refine ⟨jobless, fun index bound => ?_⟩
    simp only [storeLengthByte, filling.offset]
    rw [List.length_append, List.length_singleton] at bound
    by_cases last : index.val = before.length
    · simp [last]
    · rw [if_neg last, stored index (by omega)]
      simp [List.getElem?_append_left (show index.val < before.length by omega)]
  · intro high
    rw [List.length_append, List.length_singleton] at high
    omega

/-- With the fourth byte the length word is complete. -/
theorem lengthWord_fourth (filling : Filling state payload before) (last : before.length = 3)
    (bytes : payload.bytes = before ++ byte :: after) :
    (storeLengthByte state byte).lengthWord = payload.bytes.length ∧
      before ++ [byte] = bytes32 payload.bytes.length := by
  have word : before ++ [byte] = bytes32 payload.bytes.length := by
    have declared := payload.declared
    rw [bytes, List.take_append, last, List.take_of_length_le (by omega)] at declared
    rw [bytes]
    exact declared
  refine ⟨?_, word⟩
  obtain ⟨-, stored⟩ := filling.start (by omega)
  have first := stored 0 (by omega)
  have second := stored 1 (by omega)
  have third := stored 2 (by omega)
  obtain ⟨b0, b1, b2, rfl⟩ : ∃ b0 b1 b2, before = [b0, b1, b2] := by
    match before, last with
    | [b0, b1, b2], _ => exact ⟨b0, b1, b2, rfl⟩
  have four : state.offset = 3 := filling.offset
  simp only [bytes32, List.cons_append, List.nil_append, List.cons.injEq, and_true] at word
  obtain ⟨w0, w1, w2, w3⟩ := word
  have bound : payload.bytes.length < 2 ^ 32 := Nat.lt_trans payload.length_lt (by decide)
  rw [← le32_byteAt bound, ← w0, ← w1, ← w2, ← w3]
  simp only [State.lengthWord, storeLengthByte, four]
  change le32 (state.length 0) (state.length 1) (state.length 2) byte = le32 b0 b1 b2 byte
  rw [first, second, third]
  rfl

/-- The fourth byte: the job is allocated and holds the length. -/
theorem fill_fourth (filling : Filling state payload before) (last : before.length = 3)
    (bytes : payload.bytes = before ++ byte :: after) (opened : state.eopPrefix = false)
    (mallocs : ∀ count size, (malloc count size).isSome) :
    Filling (payloadByte cfg malloc state byte).1 payload (before ++ [byte]) ∧
      SameOutside state (payloadByte cfg malloc state byte).1 := by
  obtain ⟨length, word⟩ := lengthWord_fourth filling last bytes
  have fits : signed (storeLengthByte state byte).lengthWord ≤ cfg.maxRequestLength := by
    rw [length, signed_eq_of_lt payload.length_lt]
    exact_mod_cast payload.fits
  have opened' : (allocateJob cfg malloc (storeLengthByte state byte)).1.eopPrefix = false := by
    rw [allocateJob_eopPrefix]
    exact opened
  rw [payloadByte_fourth (by rw [filling.offset]; exact last), Outcome.andThen,
    finishByte_open opened']
  unfold allocateJob
  rw [if_pos fits]
  dsimp only
  generalize unsigned _ = size
  obtain ⟨block, found⟩ := Option.isSome_iff_exists.mp
    (mallocs (storeLengthByte state byte).mallocs size)
  rw [found]
  refine ⟨⟨filling.inside, ?_, ?_, ?_⟩, rfl, rfl, rfl, rfl⟩
  · simp [storeLengthByte, filling.offset]
  · intro low
    rw [List.length_append, List.length_singleton, last] at low
    exact absurd low (by decide)
  · intro _
    refine ⟨length, _, rfl, ?_⟩
    dsimp only
    rw [length, word]
    exact holds_write block 0 _

theorem fill_data (malloc : Allocator) (filling : Filling state payload before)
    (high : 4 ≤ before.length) (bytes : payload.bytes = before ++ byte :: after) :
    ∃ job, Holds job.data 0 (before ++ [byte]) ∧
      payloadByte cfg malloc state byte =
        Outcome.andThen ({ state with
          incomingJob := some job
          offset := before.length + 1 }, [.store job.size (8 + before.length) 1]) finishByte := by
  obtain ⟨length, job, held, stored⟩ := filling.body high
  have room : state.offset < state.lengthWord := by
    rw [length, filling.offset, bytes, List.length_append, List.length_cons]
    omega
  rw [payloadByte_data (by rw [filling.offset]; exact high) room held]
  refine ⟨{ job with data := write job.data before.length [byte] }, ?_, ?_⟩
  · rw [holds_append, Nat.zero_add]
    exact ⟨stored.write_disjoint (.inr (by omega)), holds_write job.data _ [byte]⟩
  · simp only [storeDataByte, filling.offset, sizeofRpcsrvJob]

theorem fill_more (filling : Filling state payload before)
    (bytes : payload.bytes = before ++ byte :: after) (opened : state.eopPrefix = false)
    (mallocs : ∀ count size, (malloc count size).isSome) :
    Filling (payloadByte cfg malloc state byte).1 payload (before ++ [byte]) ∧
      SameOutside state (payloadByte cfg malloc state byte).1 := by
  rcases Nat.lt_or_ge before.length 3 with low | high
  · exact fill_short filling low opened
  · rcases Nat.eq_or_lt_of_le high with last | beyond
    · exact fill_fourth filling last.symm bytes opened mallocs
    · obtain ⟨length, -⟩ := filling.body beyond
      obtain ⟨job, stored, same⟩ := fill_data malloc filling beyond bytes
      rw [same, Outcome.andThen, finishByte_open (by exact opened)]
      refine ⟨⟨filling.inside, by simp, ?_, fun _ => ⟨length, job, rfl, stored⟩⟩,
        rfl, rfl, rfl, rfl⟩
      intro low
      rw [List.length_append, List.length_singleton] at low
      omega

/-- The last byte publishes a job that holds the whole request. -/
theorem fill_last (malloc : Allocator) (filling : Filling state payload before)
    (bytes : payload.bytes = before ++ [byte]) (marked : state.eopPrefix = true) :
    ∃ job, jobPayload job = payload.bytes ∧
      (payloadByte cfg malloc state byte).1.pendingJob = some job ∧
      (payloadByte cfg malloc state byte).1.incomingJob = none ∧
      (payloadByte cfg malloc state byte).1.escapePrefix = state.escapePrefix ∧
      (payloadByte cfg malloc state byte).1.sem = state.sem + 1 := by
  have long := payload.long
  have size := congrArg List.length bytes
  rw [List.length_append, List.length_singleton] at size
  obtain ⟨length, -⟩ := filling.body (by omega)
  obtain ⟨job, stored, same⟩ := fill_data malloc filling (by omega) bytes
  rw [same, Outcome.andThen, finishByte_publish (by exact marked) (by
    show before.length + 1 = state.lengthWord
    rw [length, size])]
  refine ⟨job, ?_, rfl, rfl, rfl, rfl⟩
  rw [← bytes] at stored
  have word : job.lengthWord = payload.bytes.length := by
    have split := List.take_append_drop 4 payload.bytes
    rw [← split, holds_append, payload.declared] at stored
    exact word_of_holds (Nat.lt_trans payload.length_lt (by decide)) stored.1
  rw [jobPayload, word]
  exact slice_eq_of_holds stored

/-! ## The packets of a stream -/

variable {goal done todo : List (Payload cfg)} {world : World}

theorem expects_data (world : World) (split : goal = done ++ payload :: todo)
    (settled : Settled world done) (free : world.sink.pendingJob = none) (closed : world.sink.escapePrefix = false)
    (bytes : payload.bytes = before ++ byte :: after)
    (filling : Filling world.sink payload before)
    (mark : world.sink.eopPrefix = true ↔ after = [])
    (mallocs : ∀ count size, (malloc count size).isSome) :
    Expects goal (encodeBytes true after ++ todo.flatMap Payload.packet)
      { world with sink := (payloadByte cfg malloc world.sink byte).1 } := by
  cases after with
  | nil =>
      obtain ⟨job, holds, pending, jobless, escape, sem⟩ :=
        fill_last malloc filling bytes (mark.mpr rfl)
      have jobs := settled.jobs
      have count := settled.sem
      rw [free] at jobs count
      refine .between _ (done ++ [payload]) todo (by rw [split, List.append_assoc]; rfl) ⟨?_, ?_⟩
        (by rw [escape]; exact closed) jobless
      · simp only [Option.toList_none, List.append_nil] at jobs
        simp only [pending, Option.toList_some, List.map_append, jobs, List.map_cons,
          List.map_nil, holds]
      · simp only [pending, sem, count, Option.toList_some, Option.toList_none,
          List.length_singleton, List.length_nil]
  | cons next after =>
      have opened : world.sink.eopPrefix = false := by
        cases marked : world.sink.eopPrefix with
        | false => rfl
        | true => exact absurd (mark.mp marked) (List.cons_ne_nil _ _)
      obtain ⟨filled, same⟩ := fill_more filling bytes opened mallocs
      have escape := same.escape.trans closed
      have eop := same.eop.trans opened
      have settled' : Settled
          { world with sink := (payloadByte cfg malloc world.sink byte).1 } done :=
        ⟨by rw [same.pending]; exact settled.jobs, by
          rw [same.pending, same.sem]; exact settled.sem⟩
      have shape : encodeBytes true (next :: after) =
          restOfPacket (payloadByte cfg malloc world.sink byte).1.escapePrefix
            (payloadByte cfg malloc world.sink byte).1.eopPrefix next after := by
        rw [escape, eop]
        rfl
      rw [shape]
      refine .inside _ done payload todo split settled' (same.pending.trans free)
        (before ++ [byte]) next after (by rw [bytes, List.append_assoc]; rfl) filled ?_ ?_ ?_
      · intro opened'
        rw [escape] at opened'
        cases opened'
      · intro marked
        rw [eop] at marked
        cases marked
      · intro opened'
        rw [escape] at opened'
        cases opened'

theorem Settled.frame {next : State} (settled : Settled world done)
    (pending : next.pendingJob = world.sink.pendingJob) (sem : next.sem = world.sink.sem) :
    Settled { world with sink := next } done :=
  ⟨by rw [pending]; exact settled.jobs, by rw [pending, sem]; exact settled.sem⟩

theorem Filling.frame {next : State} (filling : Filling state payload before)
    (same : { state with
      escapePrefix := next.escapePrefix
      eopPrefix := next.eopPrefix } = next) : Filling next payload before := by
  rw [← same]
  exact ⟨filling.inside, filling.offset, filling.start, filling.body⟩

/-- A data byte with its escape prefix, if it has one, still ahead. -/
theorem expects_escapeByte {head : UInt8} {rest : List UInt8}
    (split : goal = done ++ payload :: todo) (settled : Settled world done)
    (free : world.sink.pendingJob = none) (closed : world.sink.escapePrefix = false)
    (bytes : payload.bytes = before ++ byte :: after)
    (filling : Filling world.sink payload before)
    (mark : world.sink.eopPrefix = true ↔ after = [])
    (mallocs : ∀ count size, (malloc count size).isSome)
    (stream : head :: rest =
      escapeByte byte ++ encodeBytes true after ++ todo.flatMap Payload.packet) :
    Expects goal rest { world with sink := (sinkByte cfg malloc world.sink head).1 } := by
  unfold escapeByte at stream
  cases special : astNeedsEscape byte with
  | true =>
      rw [special] at stream
      obtain ⟨rfl, rfl⟩ := List.cons.inj stream
      rw [sinkByte_escape]
      exact .inside { world with sink := { world.sink with escapePrefix := true } }
        done payload todo split (settled.frame rfl rfl) free before byte after bytes
        (filling.frame rfl) (fun _ => special) mark.mp (fun _ => mark.mpr)
  | false =>
      rw [special] at stream
      obtain ⟨rfl, rfl⟩ := List.cons.inj stream
      obtain ⟨notSop, notEop, -, notEscape⟩ := ne_of_not_needsEscape special
      rw [sinkByte_payload notSop notEop notEscape filling.inside, closed]
      exact expects_data { world with sink := unescaped world.sink } split
        (settled.frame rfl rfl) free rfl bytes (filling.frame rfl) mark mallocs

theorem expects_sop {head : UInt8} {rest : List UInt8} (split : goal = done ++ payload :: todo)
    (settled : Settled world done) (free : world.sink.pendingJob = none)
    (closed : world.sink.escapePrefix = false) (jobless : world.sink.incomingJob = none)
    (stream : head :: rest = payload.packet ++ todo.flatMap Payload.packet) :
    Expects goal rest { world with sink := (sinkByte cfg malloc world.sink head).1 } := by
  obtain ⟨rfl, rfl⟩ := List.cons.inj stream
  rw [sinkByte_sop]
  have long := payload.long
  obtain ⟨first, after, bytes⟩ := List.exists_cons_of_length_pos
    (show 0 < payload.bytes.length by omega)
  have shape : encodeBytes true payload.bytes =
      restOfPacket world.sink.escapePrefix false first after := by
    rw [bytes, closed]
    rfl
  rw [shape]
  refine .inside { world with sink := { world.sink with
      offset := 0, insidePacket := true, eopPrefix := false } }
    done payload todo split (settled.frame rfl rfl) free [] first after bytes
    ⟨rfl, rfl, fun _ => ⟨jobless, fun _ bound => absurd bound (Nat.not_lt_zero _)⟩,
      fun high => absurd high (by decide)⟩ ?_ ?_ ?_
  · intro opened
    exact absurd (closed.symm.trans opened) (by decide)
  · intro marked
    cases marked
  · intro opened
    exact absurd (closed.symm.trans opened) (by decide)

theorem expects_eop {head : UInt8} {rest : List UInt8} (split : goal = done ++ payload :: todo)
    (settled : Settled world done) (free : world.sink.pendingJob = none)
    (opened : world.sink.escapePrefix = false) (bytes : payload.bytes = before ++ [byte])
    (filling : Filling world.sink payload before)
    (stream : head :: rest =
      restOfPacket false false byte [] ++ todo.flatMap Payload.packet) :
    Expects goal rest { world with sink := (sinkByte cfg malloc world.sink head).1 } := by
  have shape : restOfPacket false false byte [] = astEopPrefix :: escapeByte byte :=
    encodeBytes_singleton byte
  rw [shape] at stream
  obtain ⟨rfl, rfl⟩ := List.cons.inj stream
  rw [sinkByte_eop]
  have rest' : escapeByte byte = restOfPacket world.sink.escapePrefix true byte [] := by
    rw [opened]
    exact (List.append_nil _).symm
  rw [rest']
  refine .inside { world with sink := { world.sink with eopPrefix := true } } done payload todo
    split (settled.frame rfl rfl) free before byte [] bytes (filling.frame rfl) ?_
    (fun _ => rfl) (fun _ _ => rfl)
  intro escaped
  exact absurd (opened.symm.trans escaped) (by decide)

theorem Expects.next {head : UInt8} {rest : List UInt8}
    (expects : Expects goal (head :: rest) world) (free : world.sink.pendingJob = none)
    (mallocs : ∀ count size, (malloc count size).isSome) :
    Expects goal rest { world with sink := (sinkByte cfg malloc world.sink head).1 } := by
  generalize stream : head :: rest = whole at expects
  cases expects with
  | between _ done todo split settled closed jobless =>
      cases todo with
      | nil => cases stream
      | cons payload todo =>
          rw [List.flatMap_cons] at stream
          exact expects_sop split settled free closed jobless stream
  | inside _ done payload todo split settled _ before byte after bytes filling special mark
      marked =>
      cases opened : world.sink.escapePrefix with
      | true =>
          rw [opened] at stream
          obtain ⟨rfl, rfl⟩ := List.cons.inj stream
          have plain := xor_escape_not_marker (special opened)
          obtain ⟨notSop, notEop, -, notEscape⟩ := ne_of_not_needsEscape plain
          rw [sinkByte_payload notSop notEop notEscape filling.inside, opened, unescape,
            if_pos rfl, xor_escape_xor]
          exact expects_data { world with sink := unescaped world.sink } split
            (settled.frame rfl rfl) free rfl bytes (filling.frame rfl)
            ⟨mark, marked opened⟩ mallocs
      | false =>
          rw [opened] at stream
          cases end' : world.sink.eopPrefix with
          | true =>
              rw [end'] at stream
              exact expects_escapeByte split settled free opened bytes filling
                ⟨mark, fun _ => end'⟩ mallocs stream
          | false =>
              rw [end'] at stream
              cases after with
              | nil => exact expects_eop split settled free opened bytes filling stream
              | cons next after =>
                  have shape : restOfPacket false false byte (next :: after) =
                      escapeByte byte ++ encodeBytes true (next :: after) :=
                    encodeBytes_cons_cons true byte next after
                  rw [shape] at stream
                  refine expects_escapeByte split settled free opened bytes filling ?_ mallocs
                    stream
                  rw [end']
                  simp

/-- While nothing is taken, a pending job can be. -/
theorem Expects.held {rest : List UInt8} (expects : Expects goal rest world) {job : RpcsrvJob}
    (held : world.sink.pendingJob = some job) : world.sink.sem ≠ 0 := by
  cases expects with
  | between _ done todo split settled closed jobless =>
      rw [settled.sem, held]
      exact Nat.one_ne_zero
  | inside _ done payload todo split settled free =>
      rw [free] at held
      cases held

/-! ## Calls of the sink -/

variable (cfg malloc) in
/-- A call takes a beginning of what is expected. -/
theorem interruptedSink_expects (schedule : Nat → Bool)
    (mallocs : ∀ count size, (malloc count size).isSome) {buffer more : List UInt8}
    (expects : Expects goal (buffer ++ more) world) :
    (interruptedSink cfg malloc schedule world buffer).2 ≤ buffer.length ∧
      Expects goal
        (buffer.drop (interruptedSink cfg malloc schedule world buffer).2 ++ more)
        (interruptedSink cfg malloc schedule world buffer).1 := by
  induction buffer generalizing world with
  | nil => exact ⟨Nat.le_refl _, expects⟩
  | cons byte rest ih =>
      have seen : Expects goal (byte :: rest ++ more) (tick schedule world) := expects.tick schedule
      unfold interruptedSink
      dsimp only
      split
      · exact ⟨Nat.zero_le _, seen⟩
      · rename_i free
        have later := ih (seen.next free mallocs)
        exact ⟨Nat.succ_le_succ later.1, by simpa using later.2⟩

def waiting (schedule : Nat → Bool) (fair : ∀ time, ∃ later, time ≤ later ∧ schedule later = true)
    (world : World) : Nat :=
  Nat.find (fair world.time) - world.time

/-- `peridot_rpc_server_sink` as a destination of the bridge. -/
def rpcSink (cfg : Config) (malloc : Allocator) (schedule : Nat → Bool) (world : World)
    (bytes : List UInt8) : World × Int :=
  let call := interruptedSink cfg malloc schedule world bytes
  (call.1, call.2)

theorem waiting_tick {schedule : Nat → Bool}
    (fair : ∀ time, ∃ later, time ≤ later ∧ schedule later = true) {first second : World}
    (next : second.time = first.time + 1) (asleep : schedule first.time = false) :
    waiting schedule fair second < waiting schedule fair first := by
  obtain ⟨reached, awake⟩ := Nat.find_spec (fair first.time)
  have later : first.time ≠ Nat.find (fair first.time) := by
    intro same
    rw [← same, asleep] at awake
    cases awake
  have sooner : Nat.find (fair second.time) ≤ Nat.find (fair first.time) :=
    Nat.find_min' _ ⟨by omega, awake⟩
  unfold waiting
  omega

theorem tick_time (schedule : Nat → Bool) (world : World) :
    (tick schedule world).time = world.time + 1 := by
  unfold tick
  split
  · split <;> rfl
  · rfl

/-- When the schedule says so the pending job is taken. -/
theorem tick_awake {schedule : Nat → Bool} {rest : List UInt8}
    (expects : Expects goal rest world) (awake : schedule world.time = true) :
    (tick schedule world).sink.pendingJob = none := by
  unfold tick takePendingJob
  rw [if_pos awake]
  by_cases idle : world.sink.sem = 0
  · rw [if_pos idle]
    cases held : world.sink.pendingJob with
    | none => rfl
    | some job => exact absurd idle (expects.held held)
  · rw [if_neg idle]

/-- With a fair schedule the sink takes everything it expects. -/
def rpcSinkFeeds (cfg : Config) (malloc : Allocator) {schedule : Nat → Bool}
    (mallocs : ∀ count size, (malloc count size).isSome)
    (fair : ∀ time, ∃ later, time ≤ later ∧ schedule later = true)
    (goal : List (Payload cfg)) : Feeds (rpcSink cfg malloc schedule) (Expects goal) where
  rank := fun world _ => waiting schedule fair world
  step := by
    intro world byte rest more expects
    have call := interruptedSink_expects cfg malloc schedule mallocs expects
    simp only [rpcSink, Int.toNat_natCast]
    cases held : (tick schedule world).sink.pendingJob with
    | some job =>
        have refused : interruptedSink cfg malloc schedule world (byte :: rest) =
            (tick schedule world, 0) := by
          simp only [interruptedSink, held]
        rw [refused] at call ⊢
        refine .inr ⟨Int.le_refl _, call.2, waiting_tick fair (tick_time schedule world) ?_⟩
        cases asleep : schedule world.time with
        | false => rfl
        | true =>
            rw [tick_awake expects asleep] at held
            cases held
    | none =>
        refine .inl ⟨?_, by exact_mod_cast call.1, call.2⟩
        simp only [interruptedSink, held]
        omega

end PeridotSw.Rpc.PacketSink
