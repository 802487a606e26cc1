import PeridotSw.Bridge.SourceDecoding
import PeridotSw.Rpc.Jobs
import PeridotSw.Rpc.PacketRoundTrip
import PeridotSw.Rpc.ReplyLaw

/-!
# A conversation over the link

A client sends requests as packets, the bridge reads them in pieces, the sink makes jobs of
them, the service takes the jobs at some time and hands its replies to the source, which
writes them to the same link as `write` allows.  What the client reads there are the replies
to its requests, in the order of the requests.
-/

namespace PeridotSw.Rpc.Conversation

open PeridotSw.Machine.Memory
open PeridotSw.Machine.Word
open PeridotSw.Stream.Decoding
open PeridotSw.Bson.Read
open PeridotSw.Bson.Document
open PeridotSw.Bson.Lookup
open PeridotSw.Bridge.Channel
open PeridotSw.Bridge.Service
open PeridotSw.Bridge.Hearing
open PeridotSw.Bridge.Source
open PeridotSw.Bridge.SourceDecoding
open PeridotSw.Rpc.Sink
open PeridotSw.Rpc.PacketSink
open PeridotSw.Rpc.PacketRoundTrip
open PeridotSw.Rpc.Reply
open PeridotSw.Rpc.ReplyLaw
open PeridotSw.Rpc.Jobs (Surroundings)

/-! ## Requests -/

/-- A request that the server is ready to receive. -/
structure Request (cfg : Config) where
  content : Elements
  fits : content.encode.length + 5 ≤ cfg.maxRequestLength

variable {cfg : Config} {malloc : Allocator} {schedule : Nat → Bool}

theorem take_documentBytes (elements : List UInt8) :
    (documentBytes elements).take 4 = bytes32 (documentBytes elements).length := by
  rw [length_documentBytes, documentBytes, List.append_assoc]
  exact List.take_left' (length_bytes32 _)

def Request.payload (request : Request cfg) : Payload cfg where
  bytes := documentBytes request.content.encode
  long := (length_documentBytes _).symm ▸ Nat.le_add_left 5 _
  fits := (length_documentBytes _).symm ▸ request.fits
  declared := take_documentBytes _

/-- A job with the bytes of a request holds its document. -/
theorem job_holds {job : RpcsrvJob} {request : Request cfg}
    (same : jobPayload job = request.payload.bytes) : HoldsDocument job.data 0 request.content := by
  refine ⟨?_, Nat.lt_of_le_of_lt request.fits cfg.maxRequestLength_lt⟩
  have held := holds_slice job.data 0 job.lengthWord
  rwa [show slice job.data 0 job.lengthWord = _ from same] at held

/-! ## Replies -/

/-- What the service gives to the source for the jobs it takes one after the other; the methods
and their memory may be others in each call. -/
def repliesTo (surroundings : Nat → Surroundings) : Nat → List Mem → List (Mem × Int)
  | _, [] => []
  | call, input :: rest =>
      let meets := surroundings call
      sources (peridotRpcServerService meets.malloc meets.methods meets.buffer meets.stale
        (some input)) ++ repliesTo surroundings (call + 1) rest

variable {δ : Type}

/-- The replies are written to the link, given the answers of `write`. -/
def sendAll (channel : HostbridgeChannel δ) :
    BridgeState δ → List (Mem × Int) → List Int → Option (List UInt8)
  | _, [], _ => some []
  | state, (output, length) :: rest, answers =>
      let sourced := peridotSwHostbridgeGen2Source state channel
        (slice output 0 length.toNat) hostbridgeGen2SourcePacketized
      match writeBlocks answers sourced.2 with
      | none => none
      | some (left, written) => (sendAll channel sourced.1 rest left).map (written ++ ·)

/-- The documents a client should read for its requests: none for one that is accepted and has no
id, otherwise the version, its own id if it has one, and what the method or the server answered. -/
inductive Replies (surroundings : Nat → Surroundings) :
    Nat → List (Request cfg) → List (List UInt8) → Prop where
  | done (call : Nat) : Replies surroundings call [] []
  | silent {call : Nat} {request : Request cfg} {rest : List (Request cfg)}
      {documents : List (List UInt8)}
      (accepted : ¬Rejected request.content) (anonymous : first keyId request.content = none)
      (later : Replies surroundings (call + 1) rest documents) :
      Replies surroundings call (request :: rest) documents
  | reply {call : Nat} {request : Request cfg} {rest : List (Request cfg)}
      {documents : List (List UInt8)}
      (replied : Rejected request.content ∨ first keyId request.content ≠ none)
      {input : Mem} (held : HoldsDocument input 0 request.content) {key : CString} {value : Value}
      (member : Member (answer (surroundings call).methods request.content input) key value)
      (later : Replies surroundings (call + 1) rest documents) :
      Replies surroundings call (request :: rest)
        (documentBytes (replyOf (first keyId request.content) key value).encode :: documents)

/-- What the service relies on in each call: its methods are synchronous, and the reply can be
allocated. -/
structure Ready (requests : List (Request cfg)) (meets : Surroundings) : Prop where
  synchronous : ∀ entry ∈ meets.methods, Synchronous entry
  granted : ∀ attempt size, size < 2 ^ 31 → (meets.malloc attempt size).isSome
  room : ∀ request ∈ requests, ∀ input key value,
    Member (answer meets.methods request.content input) key value →
      (replyOf (first keyId request.content) key value).encode.length + 5 < 2 ^ 31

/-- One call: nothing, or the document of the reply. -/
theorem service_sends {requests : List (Request cfg)} {meets : Surroundings}
    (ready : Ready requests meets) {request : Request cfg} (member : request ∈ requests)
    {input : Mem} (held : HoldsDocument input 0 request.content) :
    (¬Rejected request.content ∧ first keyId request.content = none ∧
      sources (peridotRpcServerService meets.malloc meets.methods meets.buffer meets.stale
        (some input)) = []) ∨
    ((Rejected request.content ∨ first keyId request.content ≠ none) ∧
      ∃ key value output, Member (answer meets.methods request.content input) key value ∧
        HoldsDocument output 0 (replyOf (first keyId request.content) key value) ∧
        sources (peridotRpcServerService meets.malloc meets.methods meets.buffer meets.stale
          (some input)) =
          [(output,
            ((replyOf (first keyId request.content) key value).encode.length : Int) + 5)]) := by
  have judged := judge_answer ready.synchronous held meets.stale
  obtain ⟨key, value, last⟩ := member_exists ready.synchronous request.content input
  have fits := ready.room request member input key value last
  by_cases replied : Rejected request.content ∨ first keyId request.content ≠ none
  · refine .inr ⟨replied, key, value, ?_⟩
    generalize answer meets.methods request.content input = outcome at judged last ⊢
    obtain ⟨result, errno⟩ := outcome
    have measured := (reply_built held last fits meets.buffer meets.buffer).2
    have small : unsigned (measureReply meets.buffer input (position request.content keyId) result
        (if result.isSome then 0 else errno)) < 2 ^ 31 := by
      rw [measured, unsigned_of_nonneg (by omega) (by omega)]
      omega
    obtain ⟨block, given⟩ := Option.isSome_iff_exists.mp (ready.granted 0 _ small)
    obtain ⟨output, size⟩ := reply_built held last fits block meets.buffer
    refine ⟨_, last, output, ?_⟩
    simp only [peridotRpcServerService, judged, if_pos replied]
    rw [sources_sendReply given, size]
  · refine .inl ⟨fun rejected => replied (.inl rejected), ?_, ?_⟩
    · exact Classical.not_not.mp fun named => replied (.inr named)
    · simp only [peridotRpcServerService, judged, if_neg replied, sources_append,
        sources_onResult_free]
      rfl

/-- A document handed to the source with its length is sent as it is. -/
theorem slice_reply {output : Mem} {content : Elements} (held : HoldsDocument output 0 content) :
    slice output 0 ((content.encode.length : Int) + 5).toNat = documentBytes content.encode := by
  have length : ((content.encode.length : Int) + 5).toNat =
      (documentBytes content.encode).length := by
    rw [length_documentBytes]
    omega
  rw [length]
  exact slice_eq_of_holds held.1

theorem documentBytes_ne_nil (elements : List UInt8) : documentBytes elements ≠ [] := by
  intro empty
  have long := length_documentBytes elements
  rw [empty] at long
  cases long

/-- A reply is read as one packet, and leaves its channel selected. -/
theorem decode_reply {bridge : BridgeState δ} {selected : Option UInt8}
    (agree : Agree bridge selected) (channel : HostbridgeChannel δ) (content : Elements) :
    decode (resting selected) (peridotSwHostbridgeGen2Source bridge channel
        (documentBytes content.encode) hostbridgeGen2SourcePacketized).2.flatten =
      (resting (some channel.number),
        [.packet (some channel.number) (documentBytes content.encode)]) ∧
    Agree (peridotSwHostbridgeGen2Source bridge channel (documentBytes content.encode)
      hostbridgeGen2SourcePacketized).1 (some channel.number) := by
  have packet : hostbridgeGen2SourcePacketized &&& hostbridgeGen2SourcePacketized ≠ 0 := by decide
  have sourced := decode_emitted agree ⟨channel, documentBytes content.encode,
    hostbridgeGen2SourcePacketized, documentBytes_ne_nil _, .inl packet⟩
  simp only [SourceCall.items, if_pos packet] at sourced
  exact sourced

/-- With enough answers of `write` all replies are written. -/
theorem sendAll_returns (channel : HostbridgeChannel δ) (bridge : BridgeState δ)
    (replies : List (Mem × Int)) :
    ∃ answers written, sendAll channel bridge replies answers = some written := by
  induction replies generalizing bridge with
  | nil => exact ⟨[], [], rfl⟩
  | cons reply rest ih =>
      obtain ⟨answers, written, later⟩ := ih (peridotSwHostbridgeGen2Source bridge channel
        (slice reply.1 0 reply.2.toNat) hostbridgeGen2SourcePacketized).1
      obtain ⟨enough, here⟩ := writeBlocks_returns answers (peridotSwHostbridgeGen2Source bridge
        channel (slice reply.1 0 reply.2.toNat) hostbridgeGen2SourcePacketized).2
      refine ⟨enough ++ answers, ?_⟩
      simp only [sendAll, here]
      exact ⟨_, Option.map_eq_some_iff.mpr ⟨written, later, rfl⟩⟩

theorem sendAll_cons {channel : HostbridgeChannel δ} {bridge : BridgeState δ} {output : Mem}
    {length : Int} {rest : List (Mem × Int)} {answers : List Int} {written : List UInt8}
    (sent : sendAll channel bridge ((output, length) :: rest) answers = some written) :
    ∃ left tail, written = (peridotSwHostbridgeGen2Source bridge channel
        (slice output 0 length.toNat) hostbridgeGen2SourcePacketized).2.flatten ++ tail ∧
      sendAll channel (peridotSwHostbridgeGen2Source bridge channel
        (slice output 0 length.toNat) hostbridgeGen2SourcePacketized).1 rest left = some tail := by
  rw [sendAll] at sent
  split at sent
  · cases sent
  · rename_i left front wrote
    obtain ⟨tail, found, same⟩ := Option.map_eq_some_iff.mp sent
    cases same
    exact ⟨left, tail, by rw [writeBlocks_eq wrote], found⟩

/-- The jobs answered one after the other: what is written is read as the replies. -/
theorem decode_repliesTo {surroundings : Nat → Surroundings} {requests : List (Request cfg)}
    (ready : ∀ call, Ready requests (surroundings call)) (channel : HostbridgeChannel δ)
    {rest : List (Request cfg)} (inside : ∀ request ∈ rest, request ∈ requests) {inputs : List Mem}
    (held : List.Forall₂ (fun input (request : Request cfg) =>
      HoldsDocument input 0 request.content) inputs rest)
    (call : Nat) {bridge : BridgeState δ} {selected : Option UInt8}
    (agree : Agree bridge selected) :
    ∃ documents, Replies surroundings call rest documents ∧
      ∀ answers written, sendAll channel bridge (repliesTo surroundings call inputs) answers =
          some written →
        ∃ last, decode (resting selected) written =
          (resting last, documents.map (.packet (some channel.number))) := by
  induction held generalizing call bridge selected with
  | nil =>
      refine ⟨[], .done call, fun answers written sent => ?_⟩
      cases sent
      exact ⟨selected, rfl⟩
  | @cons input request inputs rest here later ih =>
      have inside' : ∀ other ∈ rest, other ∈ requests := fun other listed =>
        inside other (.tail _ listed)
      rcases service_sends (ready call) (inside request (.head _)) here with
        ⟨accepted, anonymous, nothing⟩ | ⟨replied, key, value, output, last, document, sends⟩
      · obtain ⟨documents, replies, read⟩ := ih inside' (call + 1) agree
        simp only [repliesTo, nothing, List.nil_append]
        exact ⟨documents, .silent accepted anonymous replies, read⟩
      · obtain ⟨packet, selects⟩ := decode_reply agree channel
          (replyOf (first keyId request.content) key value)
        obtain ⟨documents, replies, read⟩ := ih inside' (call + 1) selects
        simp only [repliesTo, sends, List.cons_append, List.nil_append]
        refine ⟨_, .reply replied here last replies, fun answers written sent => ?_⟩
        obtain ⟨left, tail, rfl, found⟩ := sendAll_cons sent
        rw [slice_reply document] at found ⊢
        obtain ⟨final, onward⟩ := read left tail found
        refine ⟨final, ?_⟩
        rw [decode_append, packet]
        dsimp only
        rw [onward]
        rfl

/-! ## Conversations -/

theorem jobs_taken (mallocs : ∀ count size, (malloc count size).isSome)
    (fair : ∀ time, ∃ later, time ≤ later ∧ schedule later = true)
    (number : UInt8) (client : Registry SinkFunction) {registry : Registry SinkFunction}
    (member : rpcChannel cfg malloc schedule number ∈ registry.channels)
    (payloads : List (Payload cfg)) {reads : List (List UInt8)}
    (cut : CutOf reads (emittedAll (rpcChannel cfg malloc schedule number)
      hostbridgeGen2SourcePacketized (freshBridge client) (payloads.map Payload.bytes))) :
    ∃ fuel final log, deliver (fun sink => sink) fuel freshWorld
        (serve (freshBridge registry) reads).2 = some (final, log) ∧
      ∃ looks, ((tick schedule)^[looks] final).taken.map jobPayload =
        payloads.map Payload.bytes := by
  have nonempty : ∀ payload ∈ payloads.map Payload.bytes, payload ≠ [] := by
    intro payload inside
    obtain ⟨one, -, rfl⟩ := List.mem_map.mp inside
    exact Payload.ne_nil one
  have stream := cut.flatten
  rw [emittedAll_fresh client _ nonempty, List.flatMap_map] at stream
  have given : Given (rpcChannel cfg malloc schedule number)
      (serve (freshBridge registry) reads).2 (payloads.flatMap Payload.packet) := by
    cases payloads with
    | nil =>
        rw [serve_silent _ stream]
        exact given_nil _
    | cons payload rest =>
        rw [if_neg (by simp)] at stream
        have noPrefix := prefix_not_mem_packets ((payload :: rest).map Payload.bytes)
        rw [List.flatMap_map] at noPrefix
        exact serve_given member rfl noPrefix stream
  have expects := expects_fresh payloads
  rw [← given.all, ← List.append_nil (bytesFor _ _)] at expects
  obtain ⟨fuel, ⟨final, log⟩, ended, nothing⟩ := deliver_feeds (fun sink => sink)
    (rpcSinkFeeds cfg malloc mallocs fair payloads) given.only freshWorld [] expects
  exact ⟨fuel, final, log, ended, exists_taken fair nothing⟩

theorem forall₂_held {jobs : List RpcsrvJob} {requests : List (Request cfg)}
    (same : jobs.map jobPayload = (requests.map Request.payload).map Payload.bytes) :
    List.Forall₂ (fun input (request : Request cfg) => HoldsDocument input 0 request.content)
      (jobs.map RpcsrvJob.data) requests := by
  induction jobs generalizing requests with
  | nil =>
      cases requests with
      | nil => exact .nil
      | cons request rest => cases same
  | cons job jobs ih =>
      cases requests with
      | nil => cases same
      | cons request rest =>
          obtain ⟨here, later⟩ := List.cons.inj same
          exact .cons (job_holds here) (ih later)

/-- A client that sends requests one behind the other, as packets on the channel of the server,
reads the replies to them: whatever the pieces in which the stream is read, whenever the
service takes the jobs, whatever `write` takes of the replies at a time, on a link on which
nothing has been sent before. -/
theorem conversation (mallocs : ∀ count size, (malloc count size).isSome)
    (fair : ∀ time, ∃ later, time ≤ later ∧ schedule later = true)
    (number : UInt8) (client : Registry SinkFunction) {registry : Registry SinkFunction}
    (member : rpcChannel cfg malloc schedule number ∈ registry.channels)
    (requests : List (Request cfg)) {surroundings : Nat → Surroundings}
    (ready : ∀ call, Ready requests (surroundings call)) {reads : List (List UInt8)}
    (cut : CutOf reads (emittedAll (rpcChannel cfg malloc schedule number)
      hostbridgeGen2SourcePacketized (freshBridge client)
      ((requests.map Request.payload).map Payload.bytes))) :
    ∃ fuel final log looks, deliver (fun sink => sink) fuel freshWorld
        (serve (freshBridge registry) reads).2 = some (final, log) ∧
      let jobs := (((tick schedule)^[looks] final).taken).map RpcsrvJob.data
      let send := sendAll (rpcChannel cfg malloc schedule number)
        (serve (freshBridge registry) reads).1 (repliesTo surroundings 0 jobs)
      (∃ answers written, send answers = some written) ∧
        ∃ documents, Replies surroundings 0 requests documents ∧
          ∀ answers written, send answers = some written →
            ∃ last, decode (resting none) written =
              (resting last, documents.map (.packet (some number))) := by
  obtain ⟨fuel, final, log, ended, looks, jobs⟩ :=
    jobs_taken mallocs fair number client member (requests.map Request.payload) cut
  refine ⟨fuel, final, log, looks, ended, sendAll_returns _ _ _, ?_⟩
  exact decode_repliesTo ready (rpcChannel cfg malloc schedule number) (fun _ listed => listed)
    (forall₂_held jobs) 0 (serve_source _ reads)

def pingRequest : Request defaultConfig where
  content := ping
  fits := by decide

def pongSurroundings : Surroundings := ⟨plenty, [pong], fun _ => 0xcc, fun _ => 99⟩

theorem pong_ready : Ready [pingRequest] pongSurroundings where
  synchronous entry listed := by
    rw [List.mem_singleton.mp listed]
    exact ⟨_, rfl, fun _ _ _ returned => by cases returned⟩
  granted _ _ _ := rfl
  room request listed input key value member := by
    rw [List.mem_singleton.mp listed] at member ⊢
    have answered : answer pongSurroundings.methods pingRequest.content input = (none, 0) := rfl
    rw [answered] at member
    cases member with
    | null => decide
    | error failed => exact absurd rfl failed

def pingStream : List UInt8 :=
  emittedAll eagerChannel hostbridgeGen2SourcePacketized (freshBridge Registry.empty)
    [documentBytes ping.encode]

theorem conversation_ping :
    ∃ fuel final log looks, deliver (fun sink => sink) fuel freshWorld
        (serve (freshBridge ⟨[eagerChannel], by simp⟩) [pingStream]).2 = some (final, log) ∧
      let jobs := (((tick fun _ => true)^[looks] final).taken).map RpcsrvJob.data
      let send := sendAll eagerChannel
        (serve (freshBridge ⟨[eagerChannel], by simp⟩) [pingStream]).1
        (repliesTo (fun _ => pongSurroundings) 0 jobs)
      (∃ answers written, send answers = some written) ∧
        ∃ documents, Replies (fun _ => pongSurroundings) 0 [pingRequest] documents ∧
          ∀ answers written, send answers = some written →
            ∃ last, decode (resting none) written =
              (resting last, documents.map (.packet (some 1))) :=
  conversation (fun _ _ => rfl) (fun time => ⟨time, Nat.le_refl time, rfl⟩) 1 Registry.empty
    (.head _) [pingRequest] (fun _ => pong_ready)
    ⟨List.append_nil _, by
      intro read listed
      rw [List.mem_singleton.mp listed]
      decide⟩

end PeridotSw.Rpc.Conversation
