import PeridotSw.Bridge.Hearing
import PeridotSw.Rpc.PacketSink

/-!
# The round trip of packets

What the source puts on the link for a list of requests, the service takes off it
again and hands to the RPC sink, whatever the reads and whenever the jobs are taken.
-/

namespace PeridotSw.Rpc.PacketRoundTrip

open PeridotSw.Stream.Ast
open PeridotSw.Stream.Encoding
open PeridotSw.Bridge.Channel
open PeridotSw.Bridge.Service
open PeridotSw.Bridge.Hearing
open PeridotSw.Bridge.Source
open PeridotSw.Rpc.Sink
open PeridotSw.Rpc.PacketSink

abbrev SinkFunction := World → List UInt8 → World × Int

/-- The channel `peridot_rpc_server_init` registers. -/
def rpcChannel (cfg : Config) (malloc : Allocator) (schedule : Nat → Bool) (number : UInt8) :
    HostbridgeChannel SinkFunction where
  number := number
  packetized := true
  dest := rpcSink cfg malloc schedule

variable {cfg : Config} {malloc : Allocator} {schedule : Nat → Bool}

theorem Payload.ne_nil (payload : Payload cfg) : payload.bytes ≠ [] := by
  intro empty
  have long := payload.long
  rw [empty] at long
  exact absurd long (by decide)

theorem prefix_not_mem_packets (payloads : List (List UInt8)) :
    astChannelPrefix ∉ payloads.flatMap packetBytes := by
  rw [List.mem_flatMap]
  rintro ⟨payload, -, inside⟩
  rcases List.mem_cons.mp inside with same | inside
  · exact absurd same (by decide)
  · exact prefix_not_mem_encodeBytes true payload inside

theorem escapeByte_ne_nil (byte : UInt8) : escapeByte byte ≠ [] := by
  unfold escapeByte
  split <;> exact List.cons_ne_nil _ _

theorem restOfPacket_ne_nil (escaped marked : Bool) (byte : UInt8) (after : List UInt8) :
    restOfPacket escaped marked byte after ≠ [] := by
  unfold restOfPacket
  split
  · exact List.cons_ne_nil _ _
  · split
    · intro empty
      exact escapeByte_ne_nil byte (List.append_eq_nil_iff.mp empty).1
    · intro empty
      rw [encodeBytes] at empty
      have parts := List.append_eq_nil_iff.mp empty
      exact escapeByte_ne_nil byte (List.append_eq_nil_iff.mp parts.1).2

/-- When nothing is to come everything has been published. -/
theorem settled_of_expects {goal : List (Payload cfg)} {world : World}
    (expects : Expects goal [] world) : Settled world goal := by
  generalize stream : ([] : List UInt8) = rest at expects
  cases expects with
  | between _ done todo split settled closed jobless =>
      cases todo with
      | nil =>
          rw [List.append_nil] at split
          exact split ▸ settled
      | cons payload todo => cases stream
  | inside _ done payload todo split settled free before byte after bytes filling =>
      exact absurd (List.append_eq_nil_iff.mp stream.symm).1 (restOfPacket_ne_nil _ _ byte after)

/-- A fair schedule takes the last job after some more looks. -/
theorem exists_taken (fair : ∀ time, ∃ later, time ≤ later ∧ schedule later = true)
    {goal : List (Payload cfg)} {world : World} (expects : Expects goal [] world) :
    ∃ looks, ((tick schedule)^[looks] world).taken.map jobPayload = goal.map Payload.bytes := by
  induction wait : waiting schedule fair world using Nat.strongRecOn generalizing world with
  | ind wait sooner =>
      cases awake : schedule world.time with
      | true =>
          refine ⟨1, ?_⟩
          have settled := settled_of_expects (expects.tick schedule)
          have jobs := settled.jobs
          rw [tick_awake expects awake] at jobs
          simpa using jobs
      | false =>
          have closer := waiting_tick fair (tick_time schedule world) awake
          obtain ⟨looks, all⟩ := sooner _ (wait ▸ closer) (expects.tick schedule) rfl
          exact ⟨looks + 1, all⟩

/-- A fresh sink expects any sequence of packets. -/
theorem expects_fresh (goal : List (Payload cfg)) :
    Expects goal (goal.flatMap Payload.packet) freshWorld :=
  .between freshWorld [] goal rfl ⟨rfl, rfl⟩ rfl rfl

/-- Requests sent through a fresh bridge on the RPC channel arrive as jobs in order,
none lost, duplicated or altered, however the stream is read and whenever the jobs are
taken: all calls of the sink end, the jobs taken then, with the pending one, are the
requests, and the pending one is taken later. -/
theorem packets_roundTrip (mallocs : ∀ count size, (malloc count size).isSome)
    (fair : ∀ time, ∃ later, time ≤ later ∧ schedule later = true)
    (number : UInt8) (sender : Registry SinkFunction) {registry : Registry SinkFunction}
    (member : rpcChannel cfg malloc schedule number ∈ registry.channels)
    (requests : List (Payload cfg)) {reads : List (List UInt8)}
    (cut : CutOf reads (emittedAll (rpcChannel cfg malloc schedule number)
      hostbridgeGen2SourcePacketized (freshBridge sender) (requests.map Payload.bytes))) :
    (∃ fuel, (deliver (fun sink => sink) fuel freshWorld
      (serve (freshBridge registry) reads).2).isSome) ∧
    ∀ fuel final log, deliver (fun sink => sink) fuel freshWorld
        (serve (freshBridge registry) reads).2 = some (final, log) →
      (final.taken ++ final.sink.pendingJob.toList).map jobPayload =
          requests.map Payload.bytes ∧
        ∃ looks, ((tick schedule)^[looks] final).taken.map jobPayload =
          requests.map Payload.bytes := by
  have nonempty : ∀ payload ∈ requests.map Payload.bytes, payload ≠ [] := by
    intro payload inside
    obtain ⟨request, -, rfl⟩ := List.mem_map.mp inside
    exact Payload.ne_nil request
  have stream := cut.flatten
  rw [emittedAll_fresh sender _ nonempty, List.flatMap_map] at stream
  have given : Given (rpcChannel cfg malloc schedule number)
      (serve (freshBridge registry) reads).2 (requests.flatMap Payload.packet) := by
    cases requests with
    | nil =>
        rw [serve_silent _ stream]
        exact given_nil _
    | cons request rest =>
        rw [if_neg (by simp)] at stream
        have noPrefix := prefix_not_mem_packets ((request :: rest).map Payload.bytes)
        rw [List.flatMap_map] at noPrefix
        exact serve_given member rfl noPrefix stream
  have expects := expects_fresh requests
  rw [← given.all, ← List.append_nil (bytesFor _ _)] at expects
  obtain ⟨enough, outcome, ended, nothing⟩ := deliver_feeds (fun sink => sink)
    (rpcSinkFeeds cfg malloc mallocs fair requests) given.only freshWorld [] expects
  refine ⟨⟨enough, by rw [ended]; rfl⟩, fun fuel final log result => ?_⟩
  cases deliver_unique result ended
  exact ⟨(settled_of_expects nothing).jobs, exists_taken fair nothing⟩

def shortest : Payload defaultConfig := shortestPayload

def eagerChannel : HostbridgeChannel SinkFunction :=
  rpcChannel defaultConfig (fun _ _ => some fun _ => 0) (fun _ => true) 1

theorem packets_roundTrip_shortest :
    (∃ fuel, (deliver (fun sink => sink) fuel freshWorld
      (serve (freshBridge ⟨[eagerChannel], by simp⟩)
        [[0x7c, 1, 0x7a, 5, 0], [0, 0, 0x7b], [0]]).2).isSome) ∧
    ∀ fuel final log, deliver (fun sink => sink) fuel freshWorld
        (serve (freshBridge ⟨[eagerChannel], by simp⟩)
          [[0x7c, 1, 0x7a, 5, 0], [0, 0, 0x7b], [0]]).2 = some (final, log) →
      (final.taken ++ final.sink.pendingJob.toList).map jobPayload =
          [shortest].map Payload.bytes ∧
        ∃ looks, ((tick fun _ => true)^[looks] final).taken.map jobPayload =
          [shortest].map Payload.bytes :=
  packets_roundTrip (fun _ _ => rfl)
    (fun time => ⟨time, Nat.le_refl time, rfl⟩) 1 Registry.empty (.head _) [shortest]
    ⟨by decide, by decide⟩

end PeridotSw.Rpc.PacketRoundTrip
