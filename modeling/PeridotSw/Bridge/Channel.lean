import PeridotSw.Stream.Ast

/-!
# Channels of the host bridge

Channels are registered once and never removed; a number that is already taken
is refused.  The type of destinations is a parameter: a destination is either a
file descriptor or a sink function.
-/

namespace PeridotSw.Bridge.Channel

/-- `hostbridge_channel`; `dest` stands for the union `dest` and `use_fd`. -/
structure HostbridgeChannel (δ : Type) where
  number : UInt8
  packetized : Bool
  dest : δ

variable {δ : Type}

/-- The linked list `state.channels`, in which every number is found once. -/
structure Registry (δ : Type) where
  channels : List (HostbridgeChannel δ)
  distinct : (channels.map HostbridgeChannel.number).Nodup

def Registry.empty : Registry δ where
  channels := []
  distinct := List.nodup_nil

def findChannel (registry : Registry δ) (number : UInt8) : Option (HostbridgeChannel δ) :=
  registry.channels.find? fun channel => channel.number == number

theorem findChannel_number {registry : Registry δ} {number : UInt8}
    {channel : HostbridgeChannel δ} (found : findChannel registry number = some channel) :
    channel.number = number := by
  have same := List.find?_some found
  simpa using same

theorem findChannel_mem {registry : Registry δ} {number : UInt8}
    {channel : HostbridgeChannel δ} (found : findChannel registry number = some channel) :
    channel ∈ registry.channels :=
  List.mem_of_find?_eq_some found

/-- The first channel with a number is the only one. -/
theorem findChannel_of_mem {registry : Registry δ} {channel : HostbridgeChannel δ}
    (member : channel ∈ registry.channels) :
    findChannel registry channel.number = some channel := by
  obtain ⟨channels, distinct⟩ := registry
  unfold findChannel
  simp only at member ⊢
  induction channels with
  | nil => cases member
  | cons first rest ih =>
      rw [List.map_cons, List.nodup_cons] at distinct
      rw [List.find?_cons]
      rcases List.mem_cons.mp member with here | later
      · rw [here]
        simp
      · have differs : first.number ≠ channel.number := by
          intro same
          exact distinct.1 (List.mem_map.mpr ⟨channel, later, same.symm⟩)
        simp only [beq_eq_false_iff_ne.mpr differs]
        exact ih distinct.2 later

/-- `peridot_sw_hostbridge_gen2_register_channel`: `none` for `-EEXIST`, otherwise
the list with the channel at its end. -/
def peridotSwHostbridgeGen2RegisterChannel (registry : Registry δ)
    (channel : HostbridgeChannel δ) : Option (Registry δ) :=
  if taken : channel.number ∈ registry.channels.map HostbridgeChannel.number then
    none
  else
    some
      { channels := registry.channels ++ [channel]
        distinct := by
          rw [List.map_append, List.nodup_append]
          refine ⟨registry.distinct, by simp, ?_⟩
          intro number earlier other last same
          simp only [List.map_cons, List.map_nil, List.mem_singleton] at last
          exact taken (last ▸ same ▸ earlier) }

/-- A registered channel is the one found under its number. -/
theorem findChannel_register {registry next : Registry δ} {channel : HostbridgeChannel δ}
    (registered : peridotSwHostbridgeGen2RegisterChannel registry channel = some next) :
    findChannel next channel.number = some channel := by
  apply findChannel_of_mem
  unfold peridotSwHostbridgeGen2RegisterChannel at registered
  split at registered
  · cases registered
  · cases registered
    simp

/-- The state of the bridge, `peridot_sw_hostbridge_gen2_state_s`. -/
structure BridgeState (δ : Type) where
  registry : Registry δ
  sinkChannel : Option (HostbridgeChannel δ)
  sourceChannelNumber : Int
  channelPrefix : Bool
  escapePrefix : Bool

/-- The bridge after `peridot_sw_hostbridge_gen2_init` and some registrations. -/
def freshBridge (registry : Registry δ) : BridgeState δ where
  registry := registry
  sinkChannel := none
  sourceChannelNumber := -1
  channelPrefix := false
  escapePrefix := false

end PeridotSw.Bridge.Channel
