import PeridotSw.Bridge.Hearing
import PeridotSw.Stream.Encoding

/-!
# Demultiplexing packetized channels

A stream for packetized channels is a sequence of segments, each a channel prefix
sequence and the bytes for the channel it selects.  Two things can go wrong with
it.  A prefix byte whose read ends before the number, and the prefix byte of any
escaped number, is handed to the channel that was selected before; and a number
that directly follows an escape prefix left open by the data is taken with its
escape bit flipped.  The bytes arrive as they should exactly when neither shows.
-/

namespace PeridotSw.Bridge.Demux

open PeridotSw.Stream.Ast
open PeridotSw.Stream.Encoding
open PeridotSw.Bridge.Channel
open PeridotSw.Bridge.Service
open PeridotSw.Bridge.Hearing

variable {δ : Type}

/-- A channel prefix sequence with the bytes up to the next one. -/
structure Segment where
  number : UInt8
  data : List UInt8
  noPrefix : astChannelPrefix ∉ data

def Segment.encode (segment : Segment) : List UInt8 :=
  astChannelPrefix :: escapeByte segment.number ++ segment.data

/-- The bytes of the segments for one channel, in order. -/
def demux (number : UInt8) (segments : List Segment) : List UInt8 :=
  segments.flatMap fun segment => if segment.number = number then segment.data else []

/-- The segments as they are understood, with their numbers so changed. -/
def heardSegments : Bool → List Segment → List Segment
  | _, [] => []
  | opened, segment :: rest =>
      { segment with number := heardNumber opened segment.number } ::
        heardSegments (escapeOpen false segment.data) rest

def selectedAfter (registry : Registry δ) :
    Option (HostbridgeChannel δ) → Bool → List Segment → Option (HostbridgeChannel δ)
  | selected, _, [] => selected
  | _, opened, segment :: rest =>
      selectedAfter registry (findChannel registry (heardNumber opened segment.number))
        (escapeOpen false segment.data) rest

/-- No prefix sequence that arrives while a channel is selected has an escaped
number or is cut behind its first byte. -/
def Undisturbed (registry : Registry δ) (reads : List (List UInt8))
    (selected : Option (HostbridgeChannel δ)) (opened : Bool) (heard : List UInt8)
    (segments : List Segment) : Prop :=
  ∀ before segment after, segments = before ++ segment :: after →
    (selectedAfter registry selected opened before).isSome →
    astNeedsEscape segment.number = false ∧
      ¬ReadEndsAfter reads (heard ++ before.flatMap Segment.encode ++ [astChannelPrefix])

/-! ## What a channel has been given -/

/-- The part of a hand-over that concerns one channel number. -/
def forChannel (number : UInt8) (channel : Option (HostbridgeChannel δ))
    (bytes : List UInt8) : List UInt8 :=
  match channel with
  | none => []
  | some found => if found.number = number then bytes else []

def heardFor (number : UInt8) (heard : Listener δ) : List UInt8 :=
  bytesFor number heard.writes ++
    forChannel number heard.state.sinkChannel heard.pending

theorem forChannel_append (number : UInt8) (channel : Option (HostbridgeChannel δ))
    (first second : List UInt8) :
    forChannel number channel (first ++ second) =
      forChannel number channel first ++ forChannel number channel second := by
  unfold forChannel
  split
  · rfl
  · split <;> rfl

@[simp] theorem forChannel_nil (number : UInt8) (channel : Option (HostbridgeChannel δ)) :
    forChannel number channel [] = [] := by
  unfold forChannel
  split
  · rfl
  · split <;> rfl

theorem bytesFor_handOver (number : UInt8) (channel : Option (HostbridgeChannel δ))
    (bytes : List UInt8) :
    bytesFor number (handOver channel bytes) = forChannel number channel bytes := by
  unfold handOver forChannel
  cases channel with
  | none => rfl
  | some found =>
      dsimp only
      split
      · rename_i empty
        rw [empty]
        split <;> rfl
      · simp [bytesFor]

@[simp] theorem heardFor_between (number : UInt8) (state : BridgeState δ)
    (writes : List (Delivery δ)) :
    heardFor number (between state writes) = bytesFor number writes := by
  simp [heardFor, between]

@[simp] theorem heardFor_endRead (number : UInt8) (heard : Listener δ) :
    heardFor number (endRead heard) = heardFor number heard := by
  simp [heardFor, endRead, bytesFor_handOver]

theorem heardFor_hear (number : UInt8) (heard : Listener δ) (token : Token) :
    heardFor number (hear heard token) = heardFor number (hearByte heard token.byte) := by
  unfold hear
  split
  · exact heardFor_endRead number _
  · rfl

/-- A byte that completes no prefix sequence goes to the selected channel. -/
theorem heardFor_waits (number : UInt8) {heard : Listener δ} {token : Token}
    (waits : completes heard.state token.byte = false) :
    heardFor number (hear heard token) =
      heardFor number heard ++
        forChannel number heard.state.sinkChannel [token.byte] := by
  rw [heardFor_hear, hearByte_waits waits, heardFor, heardFor]
  dsimp only
  rw [heed_sinkChannel waits, forChannel_append, List.append_assoc]

/-- A number takes back the byte before it, unless a read ended between them. -/
theorem heardFor_number (number : UInt8) {heard : Listener δ} {before last : Token}
    (waits : completes heard.state before.byte = false)
    (complete : completes (heed heard.state before.byte) last.byte = true) :
    heardFor number (hear (hear heard before) last) =
      heardFor number heard ++ forChannel number heard.state.sinkChannel
        (if before.last then [before.byte] else []) := by
  have first := hearByte_waits waits
  rw [heardFor_hear, hearByte_completes (by rw [hear_state]; exact complete)]
  simp only [heardFor, forChannel_nil, List.append_nil, bytesFor_append, bytesFor_handOver,
    hear_state, heed_sinkChannel waits]
  unfold hear
  cases before.last with
  | false =>
      simp [first]
  | true =>
      simp [first, endRead, heed_sinkChannel waits, bytesFor_handOver, forChannel_append]

/-! ## Listening to segments -/

/-- The bytes of a segment go to the channel selected. -/
theorem hears_data (number : UInt8) {heard : Listener δ} {stream : List Token}
    {data : List UInt8} (bytes : stream.map Token.byte = data)
    (idle : heard.state.channelPrefix = false) (noPrefix : astChannelPrefix ∉ data) :
    heardFor number (stream.foldl hear heard) =
      heardFor number heard ++ forChannel number heard.state.sinkChannel data := by
  induction stream generalizing heard data with
  | nil =>
      cases bytes
      simp
  | cons token rest ih =>
      cases bytes
      rw [List.map_cons, List.mem_cons, not_or] at noPrefix
      have waits : completes heard.state token.byte = false := by simp [completes, idle]
      have next : heed heard.state token.byte =
          { heard.state with escapePrefix := token.byte == astEscapePrefix } :=
        heed_data idle (show astChannelPrefix ∉ [token.byte] by simpa using noPrefix.1)
      have step := heardFor_waits number waits
      rw [List.foldl_cons, ih rfl (by rw [hear_state, next]; exact idle) noPrefix.2, step,
        hear_state, heed_sinkChannel waits, List.append_assoc, ← forChannel_append]
      rfl

/-- What a prefix sequence adds to the channel selected before: nothing if the number
needs no escape and no read ends behind the first byte, and otherwise that byte. -/
theorem hears_header {heard : Listener δ} {first : Token} {stream : List Token}
    {number : UInt8} (start : first.byte = astChannelPrefix)
    (bytes : stream.map Token.byte = escapeByte number)
    (idle : heard.state.channelPrefix = false) :
    ∃ stray : List UInt8, (∀ other, heardFor other ((first :: stream).foldl hear heard) =
        heardFor other heard ++ forChannel other heard.state.sinkChannel stray) ∧
      (stray = [] ↔ astNeedsEscape number = false ∧ first.last = false) ∧
      (stray ≠ [] → astChannelPrefix ∈ stray) := by
  have waits : completes heard.state first.byte = false := by simp [completes, idle]
  cases special : astNeedsEscape number with
  | false =>
      obtain ⟨-, -, notPrefix, notEscape⟩ := ne_of_not_needsEscape special
      rw [escapeByte, if_neg (by simp [special])] at bytes
      obtain ⟨last, others, rfl, same, nothing⟩ := List.map_eq_cons_iff.mp bytes
      cases List.map_eq_nil_iff.mp nothing
      have complete : completes (heed heard.state first.byte) last.byte = true := by
        simp [start, heed_channelMark, completes, same, notPrefix, notEscape]
      refine ⟨if first.last then [first.byte] else [], ?_, ?_, ?_⟩
      · intro other
        exact heardFor_number other waits complete
      · cases first.last <;> simp
      · cases first.last <;> simp [start]
  | true =>
      obtain ⟨-, -, notPrefix, notEscape⟩ :=
        ne_of_not_needsEscape (xor_escape_not_marker special)
      rw [escapeByte, if_pos special] at bytes
      obtain ⟨escape, others, rfl, opens, more⟩ := List.map_eq_cons_iff.mp bytes
      obtain ⟨last, others, rfl, same, nothing⟩ := List.map_eq_cons_iff.mp more
      cases List.map_eq_nil_iff.mp nothing
      have waits' : completes (hear heard first).state escape.byte = false := by
        simp [completes, opens]
      have complete :
          completes (heed (hear heard first).state escape.byte) last.byte = true := by
        rw [hear_state, start, opens, same, heed_channelMark, heed_escape]
        simp [completes, notPrefix, notEscape]
      refine ⟨first.byte :: (if escape.last then [escape.byte] else []), ?_, by simp,
        by simp [start]⟩
      intro other
      have end' := heardFor_number other waits' complete
      have begin' := heardFor_waits other waits
      rw [hear_state, heed_sinkChannel waits, begin'] at end'
      rw [List.append_assoc, ← forChannel_append] at end'
      exact end'

theorem heed_segment {state : BridgeState δ} (segment : Segment) :
    segment.encode.foldl heed state =
      { state with
        sinkChannel :=
          findChannel state.registry (heardNumber state.escapePrefix segment.number)
        channelPrefix := false
        escapePrefix := escapeOpen false segment.data } := by
  rw [Segment.encode, List.foldl_append, heed_header, heed_data rfl segment.noPrefix]

/-- A segment goes to the channel it selects, and what its prefix sequence leaves
behind to the channel before. -/
theorem hears_segment {heard : Listener δ} {stream : List Token} {segment : Segment}
    (bytes : stream.map Token.byte = segment.encode)
    (idle : heard.state.channelPrefix = false) :
    ∃ first rest, ∃ stray : List UInt8,
      stream = first :: rest ∧ first.byte = astChannelPrefix ∧
      (∀ other, heardFor other (stream.foldl hear heard) =
        heardFor other heard ++ forChannel other heard.state.sinkChannel stray ++
          forChannel other (findChannel heard.state.registry
            (heardNumber heard.state.escapePrefix segment.number)) segment.data) ∧
      (stray = [] ↔ astNeedsEscape segment.number = false ∧ first.last = false) ∧
      (stray ≠ [] → astChannelPrefix ∈ stray) := by
  obtain ⟨header, payload, rfl, headerBytes, payloadBytes⟩ := List.map_eq_append_iff.mp bytes
  obtain ⟨first, rest, rfl, start, numberBytes⟩ := List.map_eq_cons_iff.mp headerBytes
  obtain ⟨stray, begin', right, marked⟩ := hears_header start numberBytes idle
  refine ⟨first, rest ++ payload, stray, rfl, start, ?_, right, marked⟩
  intro other
  have state := foldl_hear_state heard (first :: rest)
  rw [headerBytes, heed_header] at state
  rw [List.foldl_append, hears_data other payloadBytes (by rw [state]) segment.noPrefix,
    begin', state]

variable {registry : Registry δ} {reads : List (List UInt8)}

theorem undisturbed_cons (selected : Option (HostbridgeChannel δ)) (opened : Bool)
    (heard : List UInt8) (segment : Segment) (rest : List Segment) :
    Undisturbed registry reads selected opened heard (segment :: rest) ↔
      (selected.isSome → astNeedsEscape segment.number = false ∧
        ¬ReadEndsAfter reads (heard ++ [astChannelPrefix])) ∧
      Undisturbed registry reads
        (findChannel registry (heardNumber opened segment.number))
        (escapeOpen false segment.data) (heard ++ segment.encode) rest := by
  constructor
  · intro all
    refine ⟨fun active => by simpa using all [] segment rest rfl active, ?_⟩
    intro before other after split active
    have here := all (segment :: before) other after (by rw [split]; rfl) active
    simpa [List.append_assoc] using here
  · rintro ⟨here, later⟩ before other after split active
    cases before with
    | nil =>
        obtain ⟨rfl, rfl⟩ := List.cons.inj split
        simpa using here active
    | cons first before =>
        obtain ⟨rfl, rfl⟩ := List.cons.inj split
        simpa [List.append_assoc] using later before other after rfl active

/-- The part of the understood segments that goes to one channel number. -/
def heardData (registry : Registry δ) (number : UInt8) (segments : List Segment) :
    List UInt8 :=
  segments.flatMap fun segment =>
    forChannel number (findChannel registry segment.number) segment.data

/-- Segments from any point of a stream: undisturbed they arrive as understood, and
disturbed they leave a prefix byte in the data of some channel. -/
theorem hears_segments {front stream : List Token} {heard : Listener δ}
    {segments : List Segment} (whole : tokens reads = front ++ stream)
    (bytes : stream.map Token.byte = segments.flatMap Segment.encode)
    (idle : heard.state.channelPrefix = false) (known : heard.state.registry = registry)
    (registered : ∀ channel, heard.state.sinkChannel = some channel →
      channel ∈ registry.channels) :
    (Undisturbed registry reads heard.state.sinkChannel heard.state.escapePrefix
        (front.map Token.byte) segments →
      ∀ number, heardFor number (stream.foldl hear heard) = heardFor number heard ++
        heardData registry number (heardSegments heard.state.escapePrefix segments)) ∧
    (¬Undisturbed registry reads heard.state.sinkChannel heard.state.escapePrefix
        (front.map Token.byte) segments →
      ∃ channel ∈ registry.channels,
        astChannelPrefix ∈ heardFor channel.number (stream.foldl hear heard)) ∧
    ∀ number, heardFor number heard <+: heardFor number (stream.foldl hear heard) := by
  induction segments generalizing front stream heard with
  | nil =>
      cases List.map_eq_nil_iff.mp bytes
      refine ⟨fun _ number => by simp [heardData, heardSegments], fun disturbed => ?_,
        fun number => List.prefix_refl _⟩
      refine absurd ?_ disturbed
      intro before segment after split
      cases before <;> cases split
  | cons segment rest ih =>
      obtain ⟨mine, others, rfl, myBytes, otherBytes⟩ := List.map_eq_append_iff.mp bytes
      obtain ⟨first, back, stray, shape, start, parts, clean, marked⟩ :=
        hears_segment myBytes idle
      have state := foldl_hear_state heard mine
      rw [myBytes, heed_segment] at state
      rw [known] at state parts
      have spotless : stray = [] ↔ astNeedsEscape segment.number = false ∧
          ¬ReadEndsAfter reads (front.map Token.byte ++ [astChannelPrefix]) := by
        have place : tokens reads = front ++ first :: (back ++ others) := by
          rw [whole, shape]
          rfl
        rw [clean, ← start, ← last_iff place, Bool.not_eq_true]
      have known' : (mine.foldl hear heard).state.registry = registry := by rw [state]
      have onwards : tokens reads = front ++ mine ++ others := by
        rw [whole, List.append_assoc]
      have later := ih onwards otherBytes (by rw [state]) known' (by
        rw [state]
        exact fun channel found => findChannel_mem found)
      rw [state, List.map_append, myBytes] at later
      dsimp only at later
      rw [undisturbed_cons, List.foldl_append]
      obtain ⟨arrives, leaves, grows⟩ := later
      refine ⟨?_, ?_, ?_⟩
      · rintro ⟨here, after⟩ number
        have nothing : forChannel number heard.state.sinkChannel stray = [] := by
          cases selected : heard.state.sinkChannel with
          | none => rfl
          | some channel =>
              have cleared : stray = [] := spotless.mpr (here (by rw [selected]; rfl))
              rw [cleared, forChannel_nil]
        rw [arrives after number, parts, nothing, List.append_nil, List.append_assoc]
        simp only [heardSegments, heardData, List.flatMap_cons]
      · intro disturbed
        by_cases after : Undisturbed registry reads
            (findChannel registry (heardNumber heard.state.escapePrefix segment.number))
            (escapeOpen false segment.data) (front.map Token.byte ++ segment.encode) rest
        · have here : ¬(heard.state.sinkChannel.isSome →
              astNeedsEscape segment.number = false ∧
                ¬ReadEndsAfter reads (front.map Token.byte ++ [astChannelPrefix])) :=
            fun quiet => disturbed ⟨quiet, after⟩
          cases selected : heard.state.sinkChannel with
          | none => exact absurd (fun active => by simp [selected] at active) here
          | some channel =>
              have left : stray ≠ [] := fun cleared => here fun _ => spotless.mp cleared
              refine ⟨channel, registered channel selected, (grows channel.number).subset ?_⟩
              rw [parts, selected]
              simp [forChannel, marked left]
        · exact leaves after
      · intro number
        refine List.IsPrefix.trans ?_ (grows number)
        rw [parts, List.append_assoc]
        exact List.prefix_append _ _

/-! ## The whole stream -/

/-- Every channel is given its segments and nothing else. -/
def Demultiplexed (registry : Registry δ) (segments : List Segment)
    (reads : List (List UInt8)) : Prop :=
  ∀ channel ∈ registry.channels,
    bytesFor channel.number (serve (freshBridge registry) reads).2 =
      demux channel.number segments

/-- For a registered number the understood segments with that number arrive. -/
theorem heardData_eq {channel : HostbridgeChannel δ} (member : channel ∈ registry.channels)
    (segments : List Segment) :
    heardData registry channel.number segments = demux channel.number segments := by
  unfold heardData demux
  congr 1
  funext segment
  by_cases same : segment.number = channel.number
  · rw [if_pos same, same, findChannel_of_mem member]
    simp [forChannel]
  · rw [if_neg same]
    cases found : findChannel registry segment.number with
    | none => rfl
    | some other =>
        have number := findChannel_number found
        simp [forChannel, number, same]

theorem prefix_not_mem_demux (number : UInt8) (segments : List Segment) :
    astChannelPrefix ∉ demux number segments := by
  unfold demux
  rw [List.mem_flatMap]
  rintro ⟨segment, -, inside⟩
  split at inside
  · exact segment.noPrefix inside
  · cases inside

/-- With packetized channels only, none is ever selected that is not. -/
theorem rawSink_heed {state : BridgeState δ} (stream : List UInt8)
    (packetized : ∀ channel ∈ state.registry.channels, channel.packetized = true)
    (packets : rawSink state = false) :
    rawSink (stream.foldl heed state) = false := by
  induction stream generalizing state with
  | nil => exact packets
  | cons byte rest ih =>
      rw [List.foldl_cons]
      refine ih (by rw [heed_registry]; exact packetized) ?_
      unfold heed
      split
      · exact packets
      · split
        · exact packets
        · split
          · rw [rawSink]
            cases found : findChannel state.registry (unescape state.escapePrefix byte) with
            | none => rfl
            | some channel =>
                have kind := packetized channel (findChannel_mem found)
                simp [kind]
          · exact packets

/-- A stream is demultiplexed exactly when no prefix sequence that arrives while a
channel is selected has an escaped number or is cut behind its first byte, and taking
each plain number that follows an open escape with its escape bit flipped makes no
difference to any channel. -/
theorem demultiplexed_iff {registry : Registry δ}
    (packetized : ∀ channel ∈ registry.channels, channel.packetized = true)
    {lead : List UInt8} (noPrefix : astChannelPrefix ∉ lead) {segments : List Segment}
    {reads : List (List UInt8)}
    (stream : reads.flatten = lead ++ segments.flatMap Segment.encode) :
    Demultiplexed registry segments reads ↔
      Undisturbed registry reads none (escapeOpen false lead) lead segments ∧
        ∀ channel ∈ registry.channels,
          demux channel.number (heardSegments (escapeOpen false lead) segments) =
            demux channel.number segments := by
  have heard := serve_hears (freshBridge registry) [] reads fun front _ =>
    rawSink_heed front packetized rfl
  have bytes := map_byte_tokens reads
  rw [stream] at bytes
  obtain ⟨front, rest, split, leadBytes, segmentBytes⟩ := List.map_eq_append_iff.mp bytes
  have idle : (between (freshBridge registry) []).state.channelPrefix = false := rfl
  have state := foldl_hear_state (between (freshBridge registry) []) front
  rw [leadBytes, heed_data idle noPrefix] at state
  have nothing (number : UInt8) :
      heardFor number (front.foldl hear (between (freshBridge registry) [])) = [] := by
    rw [hears_data number leadBytes idle noPrefix]
    rfl
  have known : (front.foldl hear (between (freshBridge registry) [])).state.registry =
      registry := by rw [state]; rfl
  have run := hears_segments split segmentBytes (by rw [state]; rfl) known
    (by rw [state]; intro channel chosen; cases chosen)
  rw [← List.foldl_append, ← split, heard, state, leadBytes] at run
  simp only [heardFor_between, nothing, List.nil_append] at run
  obtain ⟨arrives, leaves, -⟩ := run
  by_cases quiet : Undisturbed registry reads none (escapeOpen false lead) lead segments
  · have given := arrives quiet
    constructor
    · intro right
      refine ⟨quiet, fun channel member => ?_⟩
      rw [← right channel member, given channel.number]
      exact (heardData_eq member _).symm
    · rintro ⟨-, same⟩ channel member
      rw [given channel.number, ← same channel member]
      exact heardData_eq member _
  · constructor
    · intro right
      obtain ⟨channel, member, inside⟩ := leaves quiet
      rw [right channel member] at inside
      exact absurd inside (prefix_not_mem_demux channel.number segments)
    · rintro ⟨quiet', -⟩
      exact absurd quiet' quiet

def twoChannels : Registry Unit where
  channels := [⟨5, true, ()⟩, ⟨6, true, ()⟩]
  distinct := by decide

def twoSegments : List Segment :=
  [⟨5, [0x41], by decide⟩, ⟨6, [0x42], by decide⟩]

theorem demultiplexed_iff_twoSegments :
    Demultiplexed twoChannels twoSegments [[0x7c, 5, 0x41, 0x7c], [6, 0x42]] ↔
      Undisturbed twoChannels [[0x7c, 5, 0x41, 0x7c], [6, 0x42]] none false [] twoSegments ∧
        ∀ channel ∈ twoChannels.channels,
          demux channel.number (heardSegments false twoSegments) =
            demux channel.number twoSegments :=
  demultiplexed_iff (by decide) (show astChannelPrefix ∉ [] by decide) rfl

/-- A read that ends between `7c` and `06` gives the prefix byte to channel 5. -/
theorem not_demultiplexed_cut :
    [[0x7c, 5, 0x41, 0x7c], [6, 0x42]].flatten = twoSegments.flatMap Segment.encode ∧
      ¬Demultiplexed twoChannels twoSegments [[0x7c, 5, 0x41, 0x7c], [6, 0x42]] := by
  refine ⟨by decide, fun all => ?_⟩
  have wrong := all ⟨5, true, ()⟩ (.head _)
  revert wrong
  decide

end PeridotSw.Bridge.Demux
