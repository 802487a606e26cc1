import Mathlib.Logic.Function.Basic
import PeridotSw.Machine.Roundup
import PeridotSw.Machine.Transition
import PeridotSw.Machine.Word
import PeridotSw.Bridge.RawChannel

/-!
# Registration of pipes

`peridot_sw_hostbridge_gen2_mkpipe` registers the channel of a pipe.  When only the output
side is wanted it leaves the destination of the channel as `memset` has made it: no
descriptor, and a sink that is `NULL`.
-/

namespace PeridotSw.Bridge.Mkpipe

open PeridotSw.Machine.Roundup
open PeridotSw.Machine.Transition
open PeridotSw.Machine.Word
open PeridotSw.Stream.Ast
open PeridotSw.Stream.Encoding
open PeridotSw.Bridge.Channel
open PeridotSw.Bridge.Service
open PeridotSw.Bridge.Hearing
open PeridotSw.Bridge.RawChannel

/-! ## Constants -/

def enomem : Int := 12
def eexist : Int := 17
def einval : Int := 22

def oRdonly : Nat := 0
def oWronly : Nat := 1
def oRdwr : Nat := 2

/-! ## Channels and descriptors -/

/-- A sink function: that of pipes, with the block of the pipe and its capacity, or one of
another service. -/
inductive SinkFunction where
  | hostbridgePipeSink (pipe capacity : Nat)
  | other (name : Nat)

/-- The union `dest`, according to `use_fd`; a sink may be `NULL`. -/
inductive Dest where
  | fd (fd : Int)
  | sink (function : Option SinkFunction)

def Dest.Present : Dest → Prop
  | .fd _ => True
  | .sink function => function.isSome

/-- A channel that is registered directly: it has a sink or a descriptor. -/
structure OwnChannel where
  channel : HostbridgeChannel Dest
  present : channel.dest.Present

/-- The `dev` of an entry of `alt_fd_list`. -/
inductive AltDev where
  | hostbridgePipeDev
  | other (name : Nat)

/-- An entry of `alt_fd_list`; `priv` is the block of a pipe. -/
structure AltFd where
  dev : Option AltDev
  priv : Nat
  fdFlags : Nat

/-- The bridge, the descriptors, the calls of `close`, and the calls of `write_to_channel`
with something to write. -/
structure State where
  bridge : BridgeState Dest
  altFdList : Int → AltFd
  closed : List Int
  writes : List (Delivery Dest)

/-- Nothing is registered, whatever the descriptors are. -/
def initial (altFdList : Int → AltFd) : State where
  bridge := freshBridge Registry.empty
  altFdList := altFdList
  closed := []
  writes := []

def roundupPow2 (x : Nat) : Nat := unsigned (smear (unsigned ((x : Int) - 1)) + 1)

def attach (state : State) (fd : Int) (pipe fdFlags : Nat) : State :=
  { state with
    closed := if (state.altFdList fd).dev.isSome then state.closed ++ [fd] else state.closed
    altFdList := Function.update state.altFdList fd
      { dev := some .hostbridgePipeDev
        priv := pipe
        fdFlags := fdFlags } }

def pipeChannel (channel : UInt8) (inputFd : Int) (pipe capacity : Nat) :
    HostbridgeChannel Dest where
  number := channel
  packetized := false
  dest := .sink (if 0 ≤ inputFd then some (.hostbridgePipeSink pipe capacity) else none)

/-- `peridot_sw_hostbridge_gen2_mkpipe`, `pipe` being what `malloc` returns. -/
def peridotSwHostbridgeGen2Mkpipe (state : State) (channel : UInt8) (outputFd inputFd : Int)
    (inputCapacity : Nat) (pipe : Option Nat) : State × Int :=
  if inputFd < 0 ∧ outputFd < 0 then (state, -einval)
  else
    match pipe with
    | none => (state, -enomem)
    | some pipe =>
        let registered := peridotSwHostbridgeGen2RegisterChannel state.bridge.registry
          (pipeChannel channel inputFd pipe (roundupPow2 inputCapacity))
        match registered with
        | none => (state, -eexist)
        | some registry =>
            let known := { state with bridge := { state.bridge with registry := registry } }
            let output :=
              if 0 ≤ outputFd then
                attach known outputFd pipe (if inputFd = outputFd then oRdwr else oWronly)
              else known
            let input :=
              if 0 ≤ inputFd ∧ inputFd ≠ outputFd then attach output inputFd pipe oRdonly
              else output
            (input, 0)

/-! ## Runs -/

/-- A call that registers a channel. -/
inductive Call where
  | mkpipe (channel : UInt8) (outputFd inputFd : Int) (inputCapacity : Nat) (pipe : Option Nat)
  | register (own : OwnChannel)

/-- A successful call, or the service with what it has read. -/
inductive Action where
  | call (call : Call)
  | service (read : List UInt8)

def Call.perform (state : State) : Call → Option State
  | .mkpipe channel outputFd inputFd inputCapacity pipe =>
      let called := peridotSwHostbridgeGen2Mkpipe state channel outputFd inputFd inputCapacity pipe
      if 0 ≤ called.2 then some called.1 else none
  | .register own =>
      (peridotSwHostbridgeGen2RegisterChannel state.bridge.registry own.channel).map
        fun registry => { state with bridge := { state.bridge with registry := registry } }

def step (state : State) : Action → Option State
  | .call call => call.perform state
  | .service read =>
      if read.length ≤ readBufferLen then
        let served := peridotSwHostbridgeGen2Service state.bridge read
        some { state with bridge := served.1, writes := state.writes ++ served.2 }
      else none

def calls (actions : List Action) : List Call :=
  actions.filterMap fun action =>
    match action with
    | .call call => some call
    | .service _ => none

/-- Whenever `write_to_channel` writes, its channel has a destination. -/
def NoNullSink (state : State) : Prop :=
  ∀ delivery ∈ state.writes, delivery.channel.dest.Present

/-- The call does not ask for a pipe without input. -/
def Call.HasInput : Call → Prop
  | .mkpipe _ _ inputFd _ _ => 0 ≤ inputFd
  | .register _ => True

/-! ## Properties of all channels -/

section Channels

variable {δ : Type} {good : HostbridgeChannel δ → Prop}

/-- The channels of a bridge have a property. -/
structure AllGood (good : HostbridgeChannel δ → Prop) (state : BridgeState δ) : Prop where
  registry : ∀ channel ∈ state.registry.channels, good channel
  sink : ∀ channel, state.sinkChannel = some channel → good channel

theorem writeToChannel_good {channel : Option (HostbridgeChannel δ)}
    (sink : ∀ found, channel = some found → good found) (buffer : List UInt8)
    (start stop : Int) :
    ∀ delivery ∈ writeToChannel channel buffer start stop, good delivery.channel := by
  unfold writeToChannel
  cases channel with
  | none => nofun
  | some found =>
      intro delivery inside
      dsimp only at inside
      split at inside
      · rw [List.mem_singleton.mp inside]
        exact sink found rfl
      · cases inside

/-- The channels a scan has to do with have the property. -/
def ScanGood (good : HostbridgeChannel δ → Prop) (scan : Scan δ) : Prop :=
  AllGood good scan.state ∧ ∀ delivery ∈ scan.writes, good delivery.channel

theorem scanByte_good {scan : Scan δ} (holds : ScanGood good scan) :
    ScanGood good (scanByte scan) := by
  obtain ⟨⟨registry, sink⟩, writes⟩ := holds
  unfold scanByte
  dsimp only
  split
  · exact ⟨⟨registry, sink⟩, writes⟩
  · split
    · split <;> exact ⟨⟨registry, sink⟩, writes⟩
    · split
      · refine ⟨⟨registry, fun channel found => registry channel (findChannel_mem found)⟩, ?_⟩
        intro delivery inside
        rcases List.mem_append.mp inside with earlier | here
        · exact writes delivery earlier
        · exact writeToChannel_good sink _ _ _ delivery here
      · split <;> exact ⟨⟨registry, sink⟩, writes⟩

theorem scanBytes_good {count : Nat} {scan : Scan δ} (holds : ScanGood good scan) :
    ScanGood good (scanBytes count scan) := by
  induction count generalizing scan with
  | zero => exact holds
  | succ count ih =>
      unfold scanBytes
      split
      · exact ih (scanByte_good holds)
      · exact holds

theorem service_good {state : BridgeState δ} (holds : AllGood good state) (read : List UInt8) :
    AllGood good (peridotSwHostbridgeGen2Service state read).1 ∧
      ∀ delivery ∈ (peridotSwHostbridgeGen2Service state read).2, good delivery.channel := by
  have scanned : ScanGood good (scanBytes read.length
      { state := state, buffer := read, index := 0, head := 0, readLen := read.length,
        writes := [] }) := scanBytes_good ⟨holds, nofun⟩
  refine ⟨scanned.1, fun delivery inside => ?_⟩
  rcases List.mem_append.mp inside with earlier | last
  · exact scanned.2 delivery earlier
  · exact writeToChannel_good scanned.1.sink _ _ _ delivery last

theorem register_channels {registry next : Registry δ} {channel : HostbridgeChannel δ}
    (registered : peridotSwHostbridgeGen2RegisterChannel registry channel = some next) :
    next.channels = registry.channels ++ [channel] := by
  unfold peridotSwHostbridgeGen2RegisterChannel at registered
  split at registered
  · cases registered
  · cases registered
    rfl

end Channels

/-! ## What a call registers -/

def Call.channel : Call → HostbridgeChannel Dest
  | .mkpipe channel _ inputFd inputCapacity pipe =>
      pipeChannel channel inputFd (pipe.getD 0) (roundupPow2 inputCapacity)
  | .register own => own.channel

theorem channel_present (call : Call) : call.channel.dest.Present ↔ call.HasInput := by
  cases call with
  | mkpipe channel outputFd inputFd inputCapacity pipe =>
      by_cases input : 0 ≤ inputFd <;>
        simp [Call.channel, pipeChannel, Dest.Present, Call.HasInput, input]
  | register own => exact iff_of_true own.present trivial

theorem perform_bridge {state next : State} {call : Call}
    (performed : call.perform state = some next) :
    ∃ registry,
      peridotSwHostbridgeGen2RegisterChannel state.bridge.registry call.channel =
          some registry ∧
        next.bridge = { state.bridge with registry := registry } ∧
        next.writes = state.writes := by
  cases call with
  | mkpipe channel outputFd inputFd inputCapacity pipe =>
      obtain ⟨success, same⟩ := Option.ite_none_right_eq_some.mp performed
      unfold peridotSwHostbridgeGen2Mkpipe at success same
      split at success
      · cases success
      · rename_i ends
        rw [if_neg ends] at same
        cases pipe with
        | none => cases success
        | some pipe =>
            dsimp only at success same
            cases registered : peridotSwHostbridgeGen2RegisterChannel state.bridge.registry
                (pipeChannel channel inputFd pipe (roundupPow2 inputCapacity)) with
            | none =>
                rw [registered] at success
                cases success
            | some registry =>
                rw [registered] at same
                cases same
                refine ⟨registry, registered, ?_⟩
                dsimp only
                split <;> split <;> exact ⟨rfl, rfl⟩
  | register own =>
      obtain ⟨registry, registered, rfl⟩ := Option.map_eq_some_iff.mp performed
      exact ⟨registry, registered, rfl, rfl⟩

/-! ## Runs without a missing sink -/

/-- Every channel the bridge knows or has written to has a destination. -/
def Healthy (state : State) : Prop :=
  AllGood (fun channel => channel.dest.Present) state.bridge ∧ NoNullSink state

theorem healthy_initial (altFdList : Int → AltFd) : Healthy (initial altFdList) :=
  ⟨⟨nofun, nofun⟩, nofun⟩

def Action.HasInput : Action → Prop
  | .call made => made.HasInput
  | .service _ => True

theorem step_healthy (state : State) (action : Action) (next : State) (healthy : Healthy state)
    (input : action.HasInput) (taken : step state action = some next) : Healthy next := by
  obtain ⟨⟨registry, sink⟩, writes⟩ := healthy
  cases action with
  | call call =>
      obtain ⟨registry', registered, bridge, same⟩ := perform_bridge taken
      refine ⟨⟨?_, ?_⟩, ?_⟩
      · intro channel inside
        have known : next.bridge.registry.channels =
            state.bridge.registry.channels ++ [call.channel] := by
          rw [bridge]
          exact register_channels registered
        rw [known] at inside
        rcases List.mem_append.mp inside with earlier | last
        · exact registry channel earlier
        · rw [List.mem_singleton.mp last]
          exact (channel_present call).mpr input
      · rw [bridge]
        exact sink
      · unfold NoNullSink
        rw [same]
        exact writes
  | service read =>
      obtain ⟨-, ⟨⟩⟩ := Option.ite_none_right_eq_some.mp taken
      obtain ⟨after, given⟩ := service_good ⟨registry, sink⟩ read
      refine ⟨after, fun delivery inside => ?_⟩
      rcases List.mem_append.mp inside with earlier | here
      · exact writes delivery earlier
      · exact given delivery here

theorem each_hasInput {actions : List Action} (input : ∀ call ∈ calls actions, call.HasInput)
    (state : State) : Each step (fun _ action => action.HasInput) state actions := by
  induction actions generalizing state with
  | nil => exact trivial
  | cons action rest ih =>
      intro next taken
      cases action with
      | call call =>
          exact ⟨input call (.head _), ih (fun other inside => input other (.tail _ inside)) next⟩
      | service read => exact ⟨trivial, ih input next⟩

/-! ## A run with one -/

/-- After the registrations the bridge is fresh, and knows their channels. -/
theorem run_calls {registrations : List Call} {state final : State}
    (start : state.bridge = freshBridge state.bridge.registry)
    (arrives : run step state (registrations.map Action.call) = some final) :
    final.bridge = freshBridge final.bridge.registry ∧
      (∀ channel ∈ state.bridge.registry.channels, channel ∈ final.bridge.registry.channels) ∧
      ∀ call ∈ registrations, call.channel ∈ final.bridge.registry.channels := by
  induction registrations generalizing state with
  | nil =>
      cases arrives
      exact ⟨start, fun _ inside => inside, nofun⟩
  | cons call rest ih =>
      rw [List.map_cons, run] at arrives
      cases performed : step state (.call call) with
      | none =>
          rw [performed] at arrives
          cases arrives
      | some next =>
          rw [performed] at arrives
          obtain ⟨registry, registered, bridge, -⟩ := perform_bridge performed
          have known : next.bridge.registry.channels =
              state.bridge.registry.channels ++ [call.channel] := by
            rw [bridge]
            exact register_channels registered
          have fresh : next.bridge = freshBridge next.bridge.registry := by
            rw [bridge, start]
            rfl
          obtain ⟨still, kept, later⟩ := ih fresh arrives
          refine ⟨still, fun channel inside => kept channel ?_, ?_⟩
          · rw [known]
            exact List.mem_append_left _ inside
          · rw [List.forall_mem_cons]
            refine ⟨kept call.channel ?_, later⟩
            rw [known]
            exact List.mem_append_right _ (.head _)

/-- The host selects a channel and sends it one byte. -/
def selectAndSend (number : UInt8) : List UInt8 :=
  astChannelPrefix :: escapeByte number ++ [0]

theorem selectAndSend_length (number : UInt8) :
    (selectAndSend number).length ≤ readBufferLen := by
  unfold selectAndSend escapeByte readBufferLen
  split <;> simp

theorem service_selectAndSend {registry : Registry Dest} {channel : HostbridgeChannel Dest}
    (member : channel ∈ registry.channels) (raw : channel.packetized = false) :
    ∃ delivery ∈ (peridotSwHostbridgeGen2Service (freshBridge registry)
      (selectAndSend channel.number)).2, delivery.channel = channel := by
  have quiet : ∀ byte ∈ [(0 : UInt8)], astNeedsEscape byte = false :=
    List.forall_mem_singleton.mpr rfl
  have unmarked : ∀ byte ∈ [(0 : UInt8)], byte ≠ astSop ∧ byte ≠ astEopPrefix :=
    List.forall_mem_singleton.mpr (by decide)
  have stream : [selectAndSend channel.number].flatten =
      astChannelPrefix :: escapeByte channel.number ++ [0].flatMap escapeByte := List.append_nil _
  have given := (header_serve member raw stream (escapesEnd_plain _ _ quiet) unmarked).2
  have served : (serve (freshBridge registry) [selectAndSend channel.number]).2 =
      (peridotSwHostbridgeGen2Service (freshBridge registry)
        (selectAndSend channel.number)).2 := List.append_nil _
  rw [served] at given
  obtain ⟨delivery, rest, delivers⟩ := List.exists_cons_of_ne_nil
    (l := (peridotSwHostbridgeGen2Service (freshBridge registry)
      (selectAndSend channel.number)).2) (by
        intro nothing
        have all := given.all
        rw [nothing] at all
        cases all)
  have inside : delivery ∈ (peridotSwHostbridgeGen2Service (freshBridge registry)
      (selectAndSend channel.number)).2 := by
    rw [delivers]
    exact .head _
  exact ⟨delivery, inside, given.only delivery inside⟩

theorem calls_map (registrations : List Call) (read : List UInt8) :
    calls (registrations.map Action.call ++ [.service read]) = registrations := by
  have plain : calls (registrations.map Action.call) = registrations := by
    unfold calls
    rw [List.filterMap_map]
    exact List.filterMap_some
  rw [calls, List.filterMap_append]
  exact (List.append_nil _).trans plain

/-- Registrations are harmless for all streams, whenever they are made, exactly when every
pipe among them has an input. -/
theorem noNullSink_iff_hasInput (altFdList : Int → AltFd) (registrations : List Call)
    (success : (run step (initial altFdList) (registrations.map Action.call)).isSome) :
    (∀ actions, calls actions = registrations →
        Always step NoNullSink (initial altFdList) actions) ↔
      ∀ call ∈ registrations, call.HasInput := by
  constructor
  · intro harmless call inside
    rw [← channel_present]
    obtain ⟨final, arrives⟩ := Option.isSome_iff_exists.mp success
    obtain ⟨fresh, -, known⟩ := run_calls rfl arrives
    by_contra missing
    have raw : call.channel.packetized = false := by
      cases call with
      | mkpipe channel outputFd inputFd inputCapacity pipe => rfl
      | register own => exact absurd own.present missing
    obtain ⟨delivery, given, same⟩ := service_selectAndSend (known call inside) raw
    rw [← fresh] at given
    have all := (always_iff _ _).mp (harmless _ (calls_map registrations
      (selectAndSend call.channel.number))) _ (List.prefix_refl _) _
      ((run_append arrives _).trans (by rw [run, step, if_pos (selectAndSend_length _)]; rfl))
    exact missing (same ▸ all delivery (List.mem_append_right _ given))
  · rintro input actions rfl
    exact (always_of_each step_healthy (healthy_initial altFdList)
      (each_hasInput input _)).mono fun _ healthy => healthy.2

def closedFds : Int → AltFd := fun _ => ⟨none, 0, 0⟩

/-- A pipe for both directions. -/
theorem noNullSink_iff_hasInput_both :
    (∀ actions, calls actions = [.mkpipe 1 3 3 16 (some 0)] →
        Always step NoNullSink (initial closedFds) actions) ↔
      ∀ call ∈ [Call.mkpipe 1 3 3 16 (some 0)], call.HasInput :=
  noNullSink_iff_hasInput closedFds [.mkpipe 1 3 3 16 (some 0)] rfl

/-- A pipe for output only, on which the host sends a byte. -/
theorem noNullSink_fails :
    ¬∀ (altFdList : Int → AltFd) (registrations : List Call),
      (run step (initial altFdList) (registrations.map Action.call)).isSome →
        ∀ actions, calls actions = registrations →
          Always step NoNullSink (initial altFdList) actions := by
  intro all
  have always := all closedFds [.mkpipe 1 3 (-1) 0 (some 0)] rfl
    [.call (.mkpipe 1 3 (-1) 0 (some 0)), .service [0x7c, 1, 0]] rfl
  have noNull := (always_iff _ _).mp always _ (List.prefix_refl _) _ rfl
  have present := noNull ⟨pipeChannel 1 (-1) 0 (roundupPow2 0), [0]⟩ (.head _)
  exact Bool.false_ne_true present

end PeridotSw.Bridge.Mkpipe
