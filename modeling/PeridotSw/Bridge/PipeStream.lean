import PeridotSw.Bridge.PipeQueue
import PeridotSw.Bridge.RawChannel

/-!
# Pipes from end to end

What is written into a pipe at one end of the link is read from a pipe at the other end.  In
between the service takes the stream apart, `write_to_channel` offers the bytes to the sink of
the pipe until it has taken them all, and a thread reads from the pipe at the same time.
-/

namespace PeridotSw.Bridge.PipeStream

open PeridotSw.Machine.Memory (Mem)
open PeridotSw.Machine.Word
open PeridotSw.Machine.Transition
open PeridotSw.Stream.Ast
open PeridotSw.Stream.Encoding
open PeridotSw.Bridge.Channel
open PeridotSw.Bridge.Service
open PeridotSw.Bridge.Source
open PeridotSw.Bridge.Hearing
open PeridotSw.Bridge.RawChannel
open PeridotSw.Bridge.Pipe (HostbridgePipe PipeCapacity pipeStore pipeStore_eq)
open PeridotSw.Bridge.PipeQueue

variable {δ : Type}

/-! ## The system -/

/-- The reads the service is still to make, the calls of `write_to_channel` that the last read
has left, what is left of the current call, and the pipe with its two callers. -/
structure State (δ : Type) where
  incoming : List (List UInt8)
  bridge : BridgeState δ
  deliveries : List (Delivery δ)
  rest : List UInt8
  pipe : Pipe.State

inductive Action where
  | service
  | write
  | call
  | commit
  | pipe (action : Pipe.Action)

/-- The value the sink will return. -/
def written (capacity : PipeCapacity) (pipe : Pipe.State) : Int :=
  match pipe.sink with
  | .ready ptr readOffset writeOffset =>
      (pipeStore capacity.value pipe.pipe ptr readOffset writeOffset).1
  | _ => 0

/-- `buffer += written; len -= written`, or `YIELD()`. -/
def leftOver (rest : List UInt8) (written : Int) : List UInt8 :=
  if 0 < written then rest.drop written.toNat else rest

/-- The steps of the pipe that are neither the beginning of a call of the sink nor its commit. -/
def aside : Pipe.Action → Bool
  | .sinkCall _ => false
  | .sinkCommit => false
  | _ => true

/-- A step of the service, or of the pipe.  The channels of other numbers have destinations of
their own. -/
def step (capacity : PipeCapacity) (number : UInt8) (state : State δ) : Action → Option (State δ)
  | .service =>
      match state.incoming, state.deliveries, state.rest, state.pipe.sink with
      | read :: incoming, [], [], .idle =>
          let served := peridotSwHostbridgeGen2Service state.bridge read
          some { state with incoming := incoming, bridge := served.1, deliveries := served.2 }
      | _, _, _, _ => none
  | .write =>
      match state.deliveries, state.rest, state.pipe.sink with
      | delivery :: deliveries, [], .idle =>
          some { state with
            deliveries := deliveries
            rest := if delivery.channel.number = number then delivery.bytes else [] }
      | _, _, _ => none
  | .call =>
      (Pipe.sinkCall state.pipe state.rest).map fun pipe => { state with pipe := pipe }
  | .commit =>
      (Pipe.sinkCommit capacity.value state.pipe).map fun pipe =>
        { state with pipe := pipe, rest := leftOver state.rest (written capacity state.pipe) }
  | .pipe action =>
      if aside action then
        (Pipe.step capacity state.pipe action).map fun pipe => { state with pipe := pipe }
      else
        none

def initial (registry : Registry δ) (buffer : Mem) (reads : List (List UInt8)) : State δ where
  incoming := reads
  bridge := freshBridge registry
  deliveries := []
  rest := []
  pipe := Pipe.initial buffer

/-- Everything on the link has been read, and passed on to the pipe. -/
structure PassedOn (state : State δ) : Prop where
  incoming : state.incoming = []
  deliveries : state.deliveries = []
  rest : state.rest = []

/-! ## The invariant -/

def Offers (rest : List UInt8) : Pipe.SinkAt → Prop
  | .start ptr => ptr = rest
  | .ready ptr _ _ => ptr = rest
  | _ => True

/-- What the service has delivered to the pipe has been accepted by it, or is left. -/
structure Flows (capacity : PipeCapacity) (registry : Registry δ) (number : UInt8)
    (reads : List (List UInt8)) (state : State δ) : Prop where
  queued : ∃ queue, Queued capacity state.pipe queue
  offers : Offers state.rest state.pipe.sink
  served : ∃ past, reads = past ++ state.incoming ∧
    state.bridge = (serve (freshBridge registry) past).1 ∧
    state.pipe.accepted ++ state.rest ++ bytesFor number state.deliveries =
      bytesFor number (serve (freshBridge registry) past).2

variable {capacity : PipeCapacity} {registry : Registry δ} {number : UInt8}
  {reads : List (List UInt8)} {state next : State δ}

theorem flows_initial (buffer : Mem) :
    Flows capacity registry number reads (initial registry buffer reads) where
  queued := ⟨[], queued_initial buffer⟩
  offers := trivial
  served := ⟨[], rfl, rfl, rfl⟩

theorem step_aside {pipe after : Pipe.State} {action : Pipe.Action} (chosen : aside action = true)
    {rest : List UInt8} (offers : Offers rest pipe.sink)
    (taken : Pipe.step capacity pipe action = some after) :
    after.accepted = pipe.accepted ∧ Offers rest after.sink := by
  cases action with
  | sinkCall ptr => cases chosen
  | sinkCommit => cases chosen
  | sinkSnapshot =>
      simp only [Pipe.step, Pipe.sinkSnapshot] at taken
      split at taken
      · rename_i ptr start
        cases taken
        rw [start] at offers
        exact ⟨rfl, offers⟩
      · cases taken
  | sinkPost =>
      simp only [Pipe.step, Pipe.sinkPost] at taken
      split at taken
      · cases taken
        exact ⟨rfl, trivial⟩
      · cases taken
  | readCall len =>
      simp only [Pipe.step, Pipe.readCall] at taken
      split at taken
      · split at taken
        · cases taken
          exact ⟨rfl, offers⟩
        · cases taken
      · cases taken
  | readSnapshot =>
      simp only [Pipe.step, Pipe.readSnapshot] at taken
      split at taken
      · cases taken
        exact ⟨rfl, offers⟩
      · cases taken
  | readCommit =>
      simp only [Pipe.step, Pipe.readCommit] at taken
      split at taken
      · cases taken
        exact ⟨rfl, offers⟩
      · cases taken
  | readPend =>
      simp only [Pipe.step, Pipe.readPend] at taken
      split at taken
      · split at taken
        · cases taken
          exact ⟨rfl, offers⟩
        · cases taken
      · cases taken

theorem leftOver_natCast (rest : List UInt8) (count : Nat) :
    leftOver rest (count : Int) = rest.drop count := by
  unfold leftOver
  split
  · rfl
  · obtain rfl : count = 0 := by omega
    rfl

/-- The commit of a call of the sink: what it accepts is no longer left. -/
theorem step_commit {pipe after : Pipe.State} {queue rest : List UInt8}
    (queued : Queued capacity pipe queue) (offers : Offers rest pipe.sink)
    (taken : Pipe.sinkCommit capacity.value pipe = some after) :
    after.accepted ++ leftOver rest (written capacity pipe) = pipe.accepted ++ rest ∧
      Offers (leftOver rest (written capacity pipe)) after.sink := by
  have sane := queued.sink
  unfold Pipe.sinkCommit at taken
  split at taken
  · rename_i ptr readOffset writeOffset ready
    have stores : written capacity pipe =
        (pipeStore capacity.value pipe.pipe ptr readOffset writeOffset).1 := by
      rw [written, ready]
    rw [ready] at offers sane
    rw [stores]
    obtain rfl : ptr = rest := offers
    obtain ⟨size, place, seen, rfl, rfl, stretch, fewer⟩ := sane
    obtain ⟨count, stored, value, amount⟩ := pipeStore_eq queued.held stretch fewer size.2
    have most := amount.amount
    cases taken
    dsimp only
    rw [value]
    dsimp only
    rw [leftOver_natCast, unsigned_natCast (by omega), List.append_assoc, List.take_append_drop]
    refine ⟨rfl, ?_⟩
    split <;> trivial
  · cases taken

theorem step_flows (state : State δ) (action : Action) (next : State δ)
    (flows : Flows capacity registry number reads state)
    (taken : step capacity number state action = some next) :
    Flows capacity registry number reads next := by
  obtain ⟨⟨queue, queued⟩, offers, past, whole, bridge, bytes⟩ := flows
  cases action with
  | service =>
      unfold step at taken
      dsimp only at taken
      split at taken
      · rename_i read incoming reads' deliveries rest sink
        cases taken
        rw [reads'] at whole
        rw [deliveries, rest, bytesFor_nil, List.append_nil, List.append_nil] at bytes
        refine ⟨⟨queue, queued⟩, offers, past ++ [read], ?_, ?_, ?_⟩
        · rw [List.append_assoc]
          exact whole
        · rw [serve_append, bridge]
          rfl
        · dsimp only
          rw [serve_append, bytesFor_append, ← bytes, rest, List.append_nil, bridge]
          simp [serve]
      · cases taken
  | write =>
      unfold step at taken
      dsimp only at taken
      split at taken
      · rename_i delivery deliveries left rest sink
        cases taken
        refine ⟨⟨queue, queued⟩, ?_, past, whole, bridge, ?_⟩
        · dsimp only
          rw [sink]
          trivial
        · rw [left, rest, List.append_nil] at bytes
          rw [← bytes, List.append_assoc]
          rfl
      · cases taken
  | call =>
      obtain ⟨pipe, called, rfl⟩ := Option.map_eq_some_iff.mp taken
      have kept := (sinkCall_queued queued called).1
      unfold Pipe.sinkCall at called
      split at called
      · split at called
        · cases called
          exact ⟨⟨queue, kept⟩, rfl, past, whole, bridge, bytes⟩
        · cases called
      · cases called
  | commit =>
      obtain ⟨pipe, committed, rfl⟩ := Option.map_eq_some_iff.mp taken
      obtain ⟨accepted, left⟩ := step_commit queued offers committed
      exact ⟨sinkCommit_queued queued committed, left, past, whole, bridge,
        (congrArg (· ++ bytesFor number state.deliveries) accepted).trans bytes⟩
  | pipe action =>
      unfold step at taken
      dsimp only at taken
      split at taken
      · rename_i chosen
        obtain ⟨pipe, moved, rfl⟩ := Option.map_eq_some_iff.mp taken
        obtain ⟨accepted, left⟩ := step_aside chosen offers moved
        refine ⟨(step_queued queued moved).1, left, past, whole, bridge, ?_⟩
        dsimp only
        rw [accepted]
        exact bytes
      · cases taken

/-! ## The stream -/

theorem source_selects (state : BridgeState δ) (channel : HostbridgeChannel δ)
    (payload : List UInt8) :
    (channel.number.toNat : Int) =
      (peridotSwHostbridgeGen2Source state channel payload 0).1.sourceChannelNumber := by
  unfold peridotSwHostbridgeGen2Source
  dsimp only
  split
  · rfl
  · rename_i same
    exact Classical.not_not.mp (not_or.mp same).1

/-- Once the channel is selected the calls of the source are one payload. -/
theorem emittedAll_selected {state : BridgeState δ} {channel : HostbridgeChannel δ}
    (selected : (channel.number.toNat : Int) = state.sourceChannelNumber)
    (raw : channel.packetized = false) (payloads : List (List UInt8)) :
    emittedAll channel 0 state payloads = payloads.flatten.flatMap escapeByte := by
  induction payloads generalizing state with
  | nil => rfl
  | cons payload rest ih =>
      have kept : ¬((channel.number.toNat : Int) ≠ state.sourceChannelNumber ∨
          0 &&& hostbridgeGen2SourceReset ≠ 0) := by
        rintro (other | reset)
        · exact other selected
        · exact reset rfl
      have packets : ¬(channel.packetized = true ∧ 0 &&& hostbridgeGen2SourcePacketized = 0) := by
        rw [raw]
        exact fun both => Bool.noConfusion both.1
      rw [emittedAll, ih (source_selects state channel payload), emitted_eq, if_neg kept,
        if_neg packets, List.flatten_cons, List.flatMap_append]
      simp [encodeBytes_false]

theorem emittedAll_fresh (registry : Registry δ) {channel : HostbridgeChannel δ}
    (raw : channel.packetized = false) (payload : List UInt8) (payloads : List (List UInt8)) :
    emittedAll channel 0 (freshBridge registry) (payload :: payloads) =
      astChannelPrefix :: escapeByte channel.number ++
        (payload :: payloads).flatten.flatMap escapeByte := by
  rw [emittedAll, emittedAll_selected (source_selects _ _ _) raw, emitted_raw raw,
    List.append_assoc, List.flatten_cons, List.flatMap_append]

theorem served_payloads {channel : HostbridgeChannel δ} (client : Registry δ)
    (member : channel ∈ registry.channels) (raw : channel.packetized = false)
    {payloads : List (List UInt8)}
    (cut : CutOf reads (emittedAll channel 0 (freshBridge client) payloads))
    (ends : EscapesEnd reads (astChannelPrefix :: escapeByte channel.number)
      (payloads.flatten.flatMap escapeByte))
    (unmarked : ∀ byte ∈ payloads.flatten, byte ≠ astSop ∧ byte ≠ astEopPrefix) :
    bytesFor channel.number (serve (freshBridge registry) reads).2 = payloads.flatten := by
  cases payloads with
  | nil =>
      rw [serve_silent _ cut.flatten]
      rfl
  | cons payload payloads =>
      exact (header_serve member raw (cut.flatten.trans (emittedAll_fresh client raw payload payloads))
        ends unmarked).2.all

/-! ## Both ends -/

/-- Payloads written into a pipe at one end: in every run at the other end the reader has been
given a beginning of them, in order, and once the service has passed everything on, all of them
but for what lies in the ring. -/
theorem pipes_transport (capacity : PipeCapacity) (buffer : Mem) (client : Registry δ)
    {channel : HostbridgeChannel δ} (member : channel ∈ registry.channels)
    (raw : channel.packetized = false) (payloads : List (List UInt8))
    (cut : CutOf reads (emittedAll channel 0 (freshBridge client) payloads))
    (ends : EscapesEnd reads (astChannelPrefix :: escapeByte channel.number)
      (payloads.flatten.flatMap escapeByte))
    (unmarked : ∀ byte ∈ payloads.flatten, byte ≠ astSop ∧ byte ≠ astEopPrefix)
    (actions : List Action) :
    Always (step capacity channel.number)
      (fun state => state.pipe.returned <+: payloads.flatten ∧
        (PassedOn state →
          state.pipe.returned ++ unread capacity state.pipe.pipe = payloads.flatten))
      (initial registry buffer reads) actions := by
  have all := served_payloads client member raw cut ends unmarked
  refine (always_of_kept step_flows (flows_initial buffer) actions).mono fun state flows => ?_
  obtain ⟨⟨queue, queued⟩, -, past, whole, -, bytes⟩ := flows
  have split : payloads.flatten = bytesFor channel.number (serve (freshBridge registry) past).2 ++
      bytesFor channel.number (serve (serve (freshBridge registry) past).1 state.incoming).2 := by
    rw [← all, whole, serve_append, bytesFor_append]
  rw [← bytes, queued.order] at split
  constructor
  · rw [split, List.append_assoc, List.append_assoc, List.append_assoc]
    exact List.prefix_append _ _
  · rintro ⟨incoming, deliveries, rest⟩
    rw [incoming, deliveries, rest, serve, bytesFor_nil, List.append_nil, List.append_nil,
      List.append_nil] at split
    rw [queued.unread_eq, split]

/-- Two bytes for channel 5 in one read, and a reader that is given both. -/
def throughPipe : List Action :=
  [.service, .write, .call, .pipe .sinkSnapshot, .commit, .pipe .sinkPost, .pipe (.readCall 2),
    .pipe .readSnapshot, .pipe .readCommit]

theorem plain_twoBytes : ∀ byte ∈ [[(0x41 : UInt8), 0x42]].flatten, astNeedsEscape byte = false :=
  List.forall_mem_cons.mpr ⟨rfl, List.forall_mem_cons.mpr ⟨rfl, List.forall_mem_nil _⟩⟩

theorem pipes_transport_twoBytes :
    (run (step twoBytes 5) (initial oneRaw (fun _ => 0) [[0x7c, 5, 0x41, 0x42]])
        throughPipe).any (fun state => state.pipe.returned = [0x41, 0x42]) ∧
      Always (step twoBytes 5)
        (fun state => state.pipe.returned <+: [[0x41, 0x42]].flatten ∧
          (PassedOn state →
            state.pipe.returned ++ unread twoBytes state.pipe.pipe = [[0x41, 0x42]].flatten))
        (initial oneRaw (fun _ => 0) [[0x7c, 5, 0x41, 0x42]]) throughPipe :=
  ⟨by decide, @pipes_transport _ oneRaw [[0x7c, 5, 0x41, 0x42]] twoBytes (fun _ => 0) oneRaw
    ⟨5, false, ()⟩ (.head _) rfl [[0x41, 0x42]] ⟨by decide, by decide⟩
    (escapesEnd_plain _ _ plain_twoBytes)
    (fun byte inside => (ne_of_not_needsEscape (plain_twoBytes byte inside)).imp_right And.left)
    throughPipe⟩

end PeridotSw.Bridge.PipeStream
