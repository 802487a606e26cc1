import PeridotSw.Bridge.Service
import PeridotSw.Stream.Encoding

/-!
# What the bridge hears on a stream for packetized channels

As long as no channel without packets is selected, the service never changes its
read buffer, and its indices can be forgotten: the bytes between `head` and
`index` are those heard since the last hand-over.  `hear` is the service seen
this way, one byte after the other, each byte carrying the information whether
its read ends after it.
-/

namespace PeridotSw.Bridge.Hearing

open PeridotSw.Stream.Ast
open PeridotSw.Stream.Encoding
open PeridotSw.Bridge.Channel
open PeridotSw.Bridge.Service

variable {δ : Type}

/-- A byte of the stream; `last` tells whether its read ends after it. -/
structure Token where
  byte : UInt8
  last : Bool

def tokensOfRead : List UInt8 → List Token
  | [] => []
  | [byte] => [⟨byte, true⟩]
  | byte :: next :: rest => ⟨byte, false⟩ :: tokensOfRead (next :: rest)

/-- The stream with the ends of the reads marked. -/
def tokens (reads : List (List UInt8)) : List Token := reads.flatMap tokensOfRead

/-- How one byte changes the bridge. -/
def heed (state : BridgeState δ) (byte : UInt8) : BridgeState δ :=
  if byte = astChannelPrefix then
    { state with channelPrefix := true }
  else if byte = astEscapePrefix then
    { state with escapePrefix := true }
  else if state.channelPrefix then
    { state with
      sinkChannel := findChannel state.registry (unescape state.escapePrefix byte)
      channelPrefix := false
      escapePrefix := false }
  else
    { state with escapePrefix := false }

/-- The bridge inside a read: `pending` are the bytes not handed over yet. -/
structure Listener (δ : Type) where
  state : BridgeState δ
  pending : List UInt8
  writes : List (Delivery δ)

/-- One `write_to_channel`, which does nothing for no bytes. -/
def handOver (channel : Option (HostbridgeChannel δ)) (bytes : List UInt8) :
    List (Delivery δ) :=
  match channel with
  | none => []
  | some found => if bytes = [] then [] else [⟨found, bytes⟩]

/-- The byte is the number that completes a channel prefix sequence. -/
def completes (state : BridgeState δ) (byte : UInt8) : Bool :=
  state.channelPrefix && byte != astChannelPrefix && byte != astEscapePrefix

/-- One byte inside a read.  A completed channel prefix sequence hands over all
that is pending but the last byte, whatever that byte is. -/
def hearByte (heard : Listener δ) (byte : UInt8) : Listener δ :=
  if completes heard.state byte then
    { state := heed heard.state byte
      pending := []
      writes := heard.writes ++ handOver heard.state.sinkChannel heard.pending.dropLast }
  else
    { state := heed heard.state byte
      pending := heard.pending ++ [byte]
      writes := heard.writes }

def endRead (heard : Listener δ) : Listener δ :=
  { state := heard.state
    pending := []
    writes := heard.writes ++ handOver heard.state.sinkChannel heard.pending }

def hear (heard : Listener δ) (token : Token) : Listener δ :=
  if token.last then endRead (hearByte heard token.byte) else hearByte heard token.byte

/-- Between two reads nothing is pending. -/
def between (state : BridgeState δ) (writes : List (Delivery δ)) : Listener δ :=
  ⟨state, [], writes⟩

@[simp] theorem handOver_nil (channel : Option (HostbridgeChannel δ)) :
    handOver channel [] = [] := by
  cases channel <;> simp [handOver]

@[simp] theorem hearByte_state (heard : Listener δ) (byte : UInt8) :
    (hearByte heard byte).state = heed heard.state byte := by
  unfold hearByte
  split <;> rfl

theorem hearByte_waits {heard : Listener δ} {byte : UInt8}
    (waits : completes heard.state byte = false) :
    hearByte heard byte =
      { state := heed heard.state byte
        pending := heard.pending ++ [byte]
        writes := heard.writes } := by
  rw [hearByte, if_neg (by simp [waits])]

theorem hearByte_completes {heard : Listener δ} {byte : UInt8}
    (complete : completes heard.state byte = true) :
    hearByte heard byte =
      { state := heed heard.state byte
        pending := []
        writes := heard.writes ++ handOver heard.state.sinkChannel heard.pending.dropLast } :=
  if_pos complete

@[simp] theorem hear_state (heard : Listener δ) (token : Token) :
    (hear heard token).state = heed heard.state token.byte := by
  unfold hear
  split
  · exact hearByte_state heard token.byte
  · exact hearByte_state heard token.byte

theorem foldl_hear_state (heard : Listener δ) (stream : List Token) :
    (stream.foldl hear heard).state =
      (stream.map Token.byte).foldl heed heard.state := by
  induction stream generalizing heard with
  | nil => rfl
  | cons token rest ih => simpa using ih (hear heard token)

@[simp] theorem heed_registry (state : BridgeState δ) (byte : UInt8) :
    (heed state byte).registry = state.registry := by
  unfold heed
  split
  · rfl
  · split
    · rfl
    · split <;> rfl

/-- Only a completed prefix sequence changes the selection. -/
theorem heed_sinkChannel {state : BridgeState δ} {byte : UInt8}
    (waits : completes state byte = false) :
    (heed state byte).sinkChannel = state.sinkChannel := by
  unfold heed
  split
  · rfl
  · split
    · rfl
    · rename_i notPrefix notEscape
      have idle : state.channelPrefix = false := by
        simpa [completes, notPrefix, notEscape] using waits
      rw [idle]
      rfl

/-! ## Whole sequences -/

def escapeOpen (opened : Bool) : List UInt8 → Bool
  | [] => opened
  | byte :: rest => escapeOpen (byte == astEscapePrefix) rest

def heardNumber (opened : Bool) (number : UInt8) : UInt8 :=
  if opened && !astNeedsEscape number then number ^^^ astEscapeXor else number

/-- Data leaves at most an open escape behind. -/
theorem heed_data {state : BridgeState δ} {data : List UInt8}
    (idle : state.channelPrefix = false) (noPrefix : astChannelPrefix ∉ data) :
    data.foldl heed state =
      { state with escapePrefix := escapeOpen state.escapePrefix data } := by
  induction data generalizing state with
  | nil => rfl
  | cons byte rest ih =>
      rw [List.mem_cons, not_or] at noPrefix
      have next : heed state byte =
          { state with escapePrefix := byte == astEscapePrefix } := by
        unfold heed
        rw [if_neg (Ne.symm noPrefix.1)]
        by_cases escape : byte = astEscapePrefix
        · simp [escape]
        · simp [escape, idle]
      rw [List.foldl_cons, next, ih (by exact idle) noPrefix.2]
      rfl

theorem heed_channelMark (state : BridgeState δ) :
    heed state astChannelPrefix = { state with channelPrefix := true } := by
  simp [heed]

theorem heed_escape (state : BridgeState δ) :
    heed state astEscapePrefix = { state with escapePrefix := true } := by
  have differs : ¬astEscapePrefix = astChannelPrefix := by decide
  simp [heed, differs]

theorem heed_number {state : BridgeState δ} {byte : UInt8}
    (started : state.channelPrefix = true) (notPrefix : byte ≠ astChannelPrefix)
    (notEscape : byte ≠ astEscapePrefix) :
    heed state byte =
      { state with
        sinkChannel := findChannel state.registry (unescape state.escapePrefix byte)
        channelPrefix := false
        escapePrefix := false } := by
  rw [heed, if_neg notPrefix, if_neg notEscape, if_pos started]

/-- A whole prefix sequence selects the channel whose number is understood. -/
theorem heed_header (state : BridgeState δ) (number : UInt8) :
    (astChannelPrefix :: escapeByte number).foldl heed state =
      { state with
        sinkChannel := findChannel state.registry (heardNumber state.escapePrefix number)
        channelPrefix := false
        escapePrefix := false } := by
  unfold escapeByte heardNumber
  cases special : astNeedsEscape number with
  | true =>
      obtain ⟨-, -, notPrefix, notEscape⟩ :=
        ne_of_not_needsEscape (xor_escape_not_marker special)
      simp only [if_true, List.foldl_cons, List.foldl_nil]
      rw [heed_channelMark, heed_escape, heed_number rfl notPrefix notEscape]
      simp [unescape]
  | false =>
      obtain ⟨-, -, notPrefix, notEscape⟩ := ne_of_not_needsEscape special
      simp only [Bool.false_eq_true, if_false, List.foldl_cons, List.foldl_nil]
      rw [heed_channelMark, heed_number rfl notPrefix notEscape]
      simp [unescape]

/-- A prefix sequence is its number's last byte behind one or two reserved bytes. -/
theorem header_concat (number : UInt8) :
    ∃ marks last, astChannelPrefix :: escapeByte number = marks ++ [last] ∧
      (∀ byte ∈ marks, byte = astChannelPrefix ∨ byte = astEscapePrefix) ∧
      (∀ state : BridgeState δ, (marks.foldl heed state).channelPrefix = true) ∧
      last ≠ astChannelPrefix ∧ last ≠ astEscapePrefix := by
  unfold escapeByte
  cases special : astNeedsEscape number with
  | true =>
      obtain ⟨-, -, notPrefix, notEscape⟩ :=
        ne_of_not_needsEscape (xor_escape_not_marker special)
      refine ⟨[astChannelPrefix, astEscapePrefix], _, rfl, by simp, ?_, notPrefix, notEscape⟩
      intro state
      simp only [List.foldl_cons, List.foldl_nil]
      rw [heed_channelMark, heed_escape]
  | false =>
      obtain ⟨-, -, notPrefix, notEscape⟩ := ne_of_not_needsEscape special
      refine ⟨[astChannelPrefix], _, rfl, by simp, ?_, notPrefix, notEscape⟩
      intro state
      simp only [List.foldl_cons, List.foldl_nil]
      rw [heed_channelMark]

theorem heed_mark {state : BridgeState δ} {byte : UInt8}
    (mark : byte = astChannelPrefix ∨ byte = astEscapePrefix) :
    (heed state byte).sinkChannel = state.sinkChannel := by
  rcases mark with rfl | rfl
  · rw [heed_channelMark]
  · rw [heed_escape]

theorem heed_marks {state : BridgeState δ} {marks : List UInt8}
    (all : ∀ byte ∈ marks, byte = astChannelPrefix ∨ byte = astEscapePrefix) :
    (marks.foldl heed state).sinkChannel = state.sinkChannel := by
  induction marks generalizing state with
  | nil => rfl
  | cons byte rest ih =>
      rw [List.foldl_cons, ih fun other inside => all other (.tail _ inside),
        heed_mark (all byte (.head _))]

/-- While no channel is selected nothing is written. -/
theorem hearByte_unselected {heard : Listener δ} (unselected : heard.state.sinkChannel = none)
    (byte : UInt8) : (hearByte heard byte).writes = heard.writes := by
  unfold hearByte
  split
  · simp [unselected, handOver]
  · rfl

/-- A number that arrives while no channel is selected leaves nothing behind. -/
theorem hearByte_number {heard : Listener δ} {byte : UInt8}
    (complete : completes heard.state byte = true) (unselected : heard.state.sinkChannel = none)
    (quiet : heard.writes = []) :
    hearByte heard byte = between (heed heard.state byte) [] := by
  rw [hearByte_completes complete, unselected, quiet]
  rfl

theorem hearByte_marks {heard : Listener δ} {marks : List UInt8}
    (unselected : heard.state.sinkChannel = none)
    (all : ∀ byte ∈ marks, byte = astChannelPrefix ∨ byte = astEscapePrefix) :
    (marks.foldl hearByte heard).writes = heard.writes ∧
      (marks.foldl hearByte heard).state = marks.foldl heed heard.state := by
  induction marks generalizing heard with
  | nil => exact ⟨rfl, rfl⟩
  | cons byte rest ih =>
      have next : (hearByte heard byte).state.sinkChannel = none := by
        rw [hearByte_state, heed_mark (all byte (.head _)), unselected]
      have later := ih next fun other inside => all other (.tail _ inside)
      rw [hearByte_unselected unselected, hearByte_state] at later
      exact later

theorem hear_marks {heard : Listener δ} {stream : List Token}
    (unselected : heard.state.sinkChannel = none)
    (all : ∀ token ∈ stream, token.byte = astChannelPrefix ∨ token.byte = astEscapePrefix) :
    (stream.foldl hear heard).writes = heard.writes := by
  induction stream generalizing heard with
  | nil => rfl
  | cons token rest ih =>
      have mark := all token (.head _)
      have next : (hear heard token).state.sinkChannel = none := by
        rw [hear_state, heed_mark mark, unselected]
      rw [List.foldl_cons, ih next fun other inside => all other (.tail _ inside)]
      unfold hear
      split
      · rw [endRead]
        rw [hearByte_state, heed_mark mark, unselected]
        simp [handOver, hearByte_unselected unselected]
      · exact hearByte_unselected unselected token.byte

/-! ## The ends of the reads -/

theorem map_byte_tokensOfRead (read : List UInt8) :
    (tokensOfRead read).map Token.byte = read := by
  induction read using tokensOfRead.induct with
  | case1 => rfl
  | case2 byte => rfl
  | case3 byte next rest ih => simp [tokensOfRead, ih]

theorem map_byte_tokens (reads : List (List UInt8)) :
    (tokens reads).map Token.byte = reads.flatten := by
  induction reads with
  | nil => rfl
  | cons read rest ih =>
      rw [tokens, List.flatMap_cons, List.map_append, map_byte_tokensOfRead]
      exact congrArg (read ++ ·) ih

/-- Some read ends after exactly these bytes. -/
def ReadEndsAfter (reads : List (List UInt8)) (heard : List UInt8) : Prop :=
  ∃ front back, reads = front ++ back ∧ front.flatten = heard

theorem readEndsAfter_cons {read : List UInt8} {rest : List (List UInt8)}
    {heard : List UInt8} (nonempty : heard ≠ []) :
    ReadEndsAfter (read :: rest) heard ↔
      ∃ later, heard = read ++ later ∧ ReadEndsAfter rest later := by
  constructor
  · rintro ⟨front, back, split, ends⟩
    cases front with
    | nil => exact absurd ends.symm nonempty
    | cons first front =>
        cases split
        exact ⟨front.flatten, ends.symm, front, back, rfl, rfl⟩
  · rintro ⟨later, rfl, front, back, rfl, ends⟩
    exact ⟨read :: front, back, rfl, by simp [ends]⟩

/-- Only the last token of a read is marked. -/
theorem tokensOfRead_last {read : List UInt8} {front back : List Token} {token : Token}
    (split : tokensOfRead read = front ++ token :: back) :
    token.last = back.isEmpty := by
  induction read using tokensOfRead.induct generalizing front with
  | case1 => simp [tokensOfRead] at split
  | case2 byte =>
      cases front with
      | nil => cases split; rfl
      | cons first front => simp [tokensOfRead] at split
  | case3 byte next rest ih =>
      cases front with
      | nil =>
          simp only [tokensOfRead, List.nil_append, List.cons.injEq] at split
          have shape := congrArg List.length split.2
          have size := congrArg List.length (map_byte_tokensOfRead (next :: rest))
          rw [List.length_map] at size
          obtain ⟨rfl, behind⟩ := split
          cases back with
          | nil => rw [behind] at size; cases size
          | cons other back => rfl
      | cons first front =>
          simp only [tokensOfRead, List.cons_append, List.cons.injEq] at split
          exact ih split.2

/-- A token is marked exactly when a read ends after the bytes up to it. -/
theorem last_iff {reads : List (List UInt8)} {front back : List Token} {token : Token}
    (split : tokens reads = front ++ token :: back) :
    token.last = true ↔ ReadEndsAfter reads (front.map Token.byte ++ [token.byte]) := by
  induction reads generalizing front with
  | nil => simp [tokens] at split
  | cons read rest ih =>
      rw [readEndsAfter_cons (by simp)]
      rw [tokens, List.flatMap_cons] at split
      rcases List.append_eq_append_iff.mp split with
        ⟨middle, inFront, inRest⟩ | ⟨middle, inRead, inRest⟩
      · rw [ih inRest, inFront, List.map_append, map_byte_tokensOfRead]
        constructor
        · intro ends
          exact ⟨_, List.append_assoc _ _ _, ends⟩
        · rintro ⟨later, same, ends⟩
          rw [List.append_assoc, List.append_cancel_left_eq] at same
          rw [same]
          exact ends
      · cases middle with
        | nil =>
            rw [List.append_nil] at inRead
            rw [List.nil_append] at inRest
            have here := ih (show tokens rest = [] ++ token :: back from inRest.symm)
            rw [here, ← inRead, map_byte_tokensOfRead]
            constructor
            · intro ends
              exact ⟨_, rfl, ends⟩
            · rintro ⟨later, same, ends⟩
              rw [List.append_cancel_left_eq] at same
              simpa [same] using ends
        | cons first middle =>
            obtain ⟨rfl, rfl⟩ := List.cons.inj inRest
            rw [tokensOfRead_last inRead]
            have bytes := congrArg (List.map Token.byte) inRead
            rw [map_byte_tokensOfRead, List.map_append, List.map_cons] at bytes
            constructor
            · intro final
              rw [List.isEmpty_iff] at final
              refine ⟨[], ?_, [], rest, rfl, rfl⟩
              rw [bytes, final]
              simp
            · rintro ⟨later, same, -⟩
              rw [bytes] at same
              have size := congrArg List.length same
              simp only [List.length_append, List.length_cons, List.length_nil,
                List.length_map] at size
              rw [List.isEmpty_iff_length_eq_zero]
              omega

/-! ## The service is heard this way -/

/-- The loop over a read, seen as a hearing. -/
structure Follows (earlier : List (Delivery δ)) (read : List UInt8) (scan : Scan δ)
    (heard : Listener δ) : Prop where
  state : scan.state = heard.state
  writes : earlier ++ scan.writes = heard.writes
  buffer : scan.buffer = read
  readLen : scan.readLen = read.length
  head_le : scan.head ≤ scan.index
  index_le : scan.index ≤ read.length
  pending : heard.pending = (read.take scan.index).drop scan.head

/-- With nothing pending the loop stands at its head. -/
theorem Follows.caughtUp {read : List UInt8} {scan : Scan δ} {state : BridgeState δ}
    (follows : Follows [] read scan (between state [])) :
    scan =
      { state := state
        buffer := read
        index := scan.index
        head := scan.index
        readLen := read.length
        writes := [] } := by
  obtain ⟨state', writes, buffer, readLen, head_le, index_le, pending⟩ := follows
  have size := congrArg List.length pending
  simp only [between, List.length_nil, List.length_drop, List.length_take] at size
  have atHead : scan.head = scan.index := by omega
  rw [List.nil_append] at writes
  obtain ⟨scanState, scanBuffer, index, head, scanLen, scanWrites⟩ := scan
  dsimp only [between] at *
  rw [state', writes, buffer, readLen, atHead]

theorem writeToChannel_eq (channel : Option (HostbridgeChannel δ)) (buffer : List UInt8)
    {start stop : Nat} (bound : stop ≤ buffer.length) :
    writeToChannel channel buffer start stop =
      handOver channel ((buffer.take stop).drop start) := by
  cases channel with
  | none => rfl
  | some found =>
      unfold writeToChannel handOver
      by_cases forward : start < stop
      · have full : (buffer.take stop).drop start ≠ [] := by
          intro empty
          have size := congrArg List.length empty
          simp only [List.length_drop, List.length_take, List.length_nil] at size
          omega
        simp only [full, if_false, Int.toNat_natCast]
        rw [if_pos (by omega)]
      · have empty : (buffer.take stop).drop start = [] := by
          rw [List.drop_eq_nil_iff, List.length_take]
          omega
        simp only [empty, if_true]
        rw [if_neg (by omega)]

/-- The hand-over at a channel number leaves out the byte before it. -/
theorem writeToChannel_number (channel : Option (HostbridgeChannel δ))
    (buffer : List UInt8) {head index : Nat} (le : head ≤ index)
    (bound : index ≤ buffer.length) :
    writeToChannel channel buffer head ((index : Int) - 1) =
      handOver channel ((buffer.take index).drop head).dropLast := by
  cases index with
  | zero =>
      cases channel with
      | none => rfl
      | some found =>
          simp only [writeToChannel]
          rw [if_neg (by omega)]
          simp
  | succ index =>
      have shift : ((index + 1 : Nat) : Int) - 1 = (index : Nat) := by omega
      have shorter : ((buffer.take (index + 1)).drop head).dropLast =
          (buffer.take index).drop head := by
        rw [List.dropLast_eq_take, List.length_drop, List.length_take,
          Nat.min_eq_left bound, List.take_drop, List.take_take]
        rcases Nat.lt_or_ge head (index + 1) with inside | all
        · congr 2
          omega
        · rw [List.drop_eq_nil_of_le (by rw [List.length_take]; omega),
            List.drop_eq_nil_of_le (by rw [List.length_take]; omega)]
      rw [shift, writeToChannel_eq channel buffer (Nat.le_of_succ_le bound), shorter]

section Scanning

variable {scan : Scan δ} {byte : UInt8}

/-- Every byte takes the index one step on, dropped or not. -/
theorem scanByte_index (scan : Scan δ) : (scanByte scan).index = scan.index + 1 := by
  unfold scanByte
  dsimp only
  split
  · rfl
  · split
    · split <;> rfl
    · split
      · rfl
      · split <;> rfl

theorem scanByte_channelMark (fetched : scan.buffer.getD scan.index 0 = astChannelPrefix) :
    scanByte scan =
      advance { scan with state := { scan.state with channelPrefix := true } } := by
  unfold scanByte
  simp only [fetched, if_true]

theorem scanByte_escape (fetched : scan.buffer.getD scan.index 0 = astEscapePrefix)
    (packets : rawSink scan.state = false) :
    scanByte scan =
      advance { scan with state := { scan.state with escapePrefix := true } } := by
  have differs : ¬astEscapePrefix = astChannelPrefix := by decide
  unfold scanByte
  simp only [fetched, differs, packets, if_false, if_true, Bool.false_eq_true]

/-- The number of a channel prefix sequence selects the channel. -/
theorem scanByte_number (fetched : scan.buffer.getD scan.index 0 = byte)
    (packets : rawSink scan.state = false) (notPrefix : byte ≠ astChannelPrefix)
    (notEscape : byte ≠ astEscapePrefix) (started : scan.state.channelPrefix = true) :
    scanByte scan = advance
      { scan with
        head := scan.index + 1
        state := heed scan.state byte
        writes := scan.writes ++
          writeToChannel scan.state.sinkChannel scan.buffer scan.head
            ((scan.index : Int) - 1) } := by
  unfold scanByte
  simp only [fetched, notPrefix, notEscape, packets, started, heed, Bool.and_false,
    Bool.false_eq_true, if_false, if_true]

theorem scanByte_plain (fetched : scan.buffer.getD scan.index 0 = byte)
    (packets : rawSink scan.state = false) (notPrefix : byte ≠ astChannelPrefix)
    (notEscape : byte ≠ astEscapePrefix) (waits : scan.state.channelPrefix = false) :
    scanByte scan =
      advance { scan with state := { scan.state with escapePrefix := false } } := by
  have raw (started : Bool) :
      rawSink { scan.state with channelPrefix := started, escapePrefix := false } = false :=
    packets
  unfold scanByte
  simp only [fetched, notPrefix, notEscape, packets, waits, raw, Bool.and_false,
    Bool.false_and, Bool.false_eq_true, if_false]

end Scanning

theorem Follows.step {earlier : List (Delivery δ)} {read : List UInt8} {scan : Scan δ}
    {heard : Listener δ} (follows : Follows earlier read scan heard)
    (packets : rawSink scan.state = false) (inside : scan.index < read.length) :
    Follows earlier read (scanByte scan) (hearByte heard (read[scan.index])) := by
  obtain ⟨state, writes, buffer, readLen, head_le, index_le, pending⟩ := follows
  have fetched : scan.buffer.getD scan.index 0 = read[scan.index] := by
    rw [buffer]
    simp [inside]
  have longer : heard.pending ++ [read[scan.index]] =
      (read.take (scan.index + 1)).drop scan.head := by
    rw [pending, List.take_add_one, List.getElem?_eq_getElem inside, Option.toList_some,
      List.drop_append_of_le_length (by rw [List.length_take]; omega)]
  generalize read[scan.index] = byte at longer fetched
  by_cases isPrefix : byte = astChannelPrefix
  · subst isPrefix
    have waits : completes heard.state astChannelPrefix = false := by simp [completes]
    rw [scanByte_channelMark fetched, hearByte_waits waits]
    exact ⟨by rw [← state]; rfl, writes, buffer, readLen, Nat.le_succ_of_le head_le,
      inside, longer⟩
  by_cases isEscape : byte = astEscapePrefix
  · subst isEscape
    have waits : completes heard.state astEscapePrefix = false := by simp [completes]
    rw [scanByte_escape fetched packets, hearByte_waits waits]
    exact ⟨by rw [← state]; rfl, writes, buffer, readLen, Nat.le_succ_of_le head_le,
      inside, longer⟩
  cases started : scan.state.channelPrefix with
  | false =>
      have waits : completes heard.state byte = false := by
        simp [completes, ← state, started]
      rw [scanByte_plain fetched packets isPrefix isEscape started, hearByte_waits waits]
      refine ⟨?_, writes, buffer, readLen, Nat.le_succ_of_le head_le, inside, longer⟩
      simp [advance, heed, isPrefix, isEscape, ← state, started]
  | true =>
      have complete : completes heard.state byte = true := by
        simp [completes, ← state, started, isPrefix, isEscape]
      rw [scanByte_number fetched packets isPrefix isEscape started, hearByte,
        if_pos complete]
      refine ⟨by rw [state]; rfl, ?_, buffer, readLen, Nat.le_refl _, inside, ?_⟩
      · simp only [advance]
        rw [← List.append_assoc, writes, buffer,
          writeToChannel_number _ read head_le index_le, ← pending, state]
      · simp only [advance]
        rw [List.drop_eq_nil_of_le (by rw [List.length_take]; omega)]

theorem Follows.loop {earlier : List (Delivery δ)} {read : List UInt8} {scan : Scan δ}
    {heard : Listener δ} (follows : Follows earlier read scan heard)
    {rest more : List UInt8} (left : read.drop scan.index = rest ++ more)
    (packets : ∀ front byte, front ++ [byte] <+: rest →
      rawSink (front.foldl heed scan.state) = false) :
    Follows earlier read (scanBytes rest.length scan) (rest.foldl hearByte heard) ∧
      (scanBytes rest.length scan).index = scan.index + rest.length := by
  induction rest generalizing scan heard with
  | nil => exact ⟨follows, rfl⟩
  | cons byte rest ih =>
      have inside : scan.index < read.length := by
        refine Nat.lt_of_not_le fun outside => ?_
        rw [List.drop_eq_nil_of_le outside] at left
        cases left
      rw [List.drop_eq_getElem_cons inside] at left
      obtain ⟨here, after⟩ := List.cons.inj left
      have begins : [] ++ [byte] <+: byte :: rest := ⟨rest, rfl⟩
      have next := follows.step (packets [] byte begins) inside
      rw [here] at next
      have state : (scanByte scan).state = heed scan.state byte := by
        rw [next.state, hearByte_state, follows.state]
      have bound : scan.index < scan.readLen := follows.readLen ▸ inside
      have later := ih next (by rw [scanByte_index]; exact after) (by
        intro front other start
        rw [state]
        exact packets (byte :: front) other (List.cons_prefix_cons.mpr ⟨rfl, start⟩))
      rw [List.length_cons, scanBytes, if_pos bound, List.foldl_cons]
      refine ⟨later.1, ?_⟩
      rw [later.2, scanByte_index]
      omega

theorem service_hears (state : BridgeState δ) (earlier : List (Delivery δ))
    (read : List UInt8)
    (packets : ∀ front, front <+: read → rawSink (front.foldl heed state) = false) :
    endRead (read.foldl hearByte (between state earlier)) =
      between (peridotSwHostbridgeGen2Service state read).1
        (earlier ++ (peridotSwHostbridgeGen2Service state read).2) := by
  have start : Follows earlier read
      { state := state, buffer := read, index := 0, head := 0, readLen := read.length,
        writes := [] } (between state earlier) :=
    ⟨rfl, List.append_nil _, rfl, rfl, Nat.le_refl _, Nat.zero_le _, rfl⟩
  obtain ⟨follows, all⟩ := start.loop (List.append_nil read).symm fun front byte begins =>
    packets front ((List.prefix_append front [byte]).trans begins)
  rw [Nat.zero_add] at all
  unfold peridotSwHostbridgeGen2Service
  dsimp only
  generalize scanBytes read.length _ = scan at *
  generalize read.foldl hearByte _ = heard at *
  have whole : heard.pending = (read.take read.length).drop scan.head := by
    rw [follows.pending, all]
  rw [endRead, between, follows.state, follows.buffer, follows.readLen,
    writeToChannel_eq _ read (Nat.le_refl _), ← whole, ← follows.writes, List.append_assoc]

/-- A read of at least one byte is heard byte by byte up to its marked end. -/
theorem foldl_hear_tokensOfRead (heard : Listener δ) (byte : UInt8) (rest : List UInt8) :
    (tokensOfRead (byte :: rest)).foldl hear heard =
      endRead ((byte :: rest).foldl hearByte heard) := by
  induction rest generalizing heard byte with
  | nil => simp [tokensOfRead, hear]
  | cons next rest ih =>
      rw [tokensOfRead, List.foldl_cons, ih]
      rfl

theorem serve_hears (state : BridgeState δ) (earlier : List (Delivery δ))
    (reads : List (List UInt8))
    (packets : ∀ front, front <+: reads.flatten →
      rawSink (front.foldl heed state) = false) :
    (tokens reads).foldl hear (between state earlier) =
      between (serve state reads).1 (earlier ++ (serve state reads).2) := by
  induction reads generalizing state earlier with
  | nil => simp [tokens, serve]
  | cons read rest ih =>
      rw [tokens, List.flatMap_cons, List.foldl_append]
      have first := service_hears state earlier read fun front start =>
        packets front (start.trans (List.prefix_append _ _))
      have same : (tokensOfRead read).foldl hear (between state earlier) =
          endRead (read.foldl hearByte (between state earlier)) := by
        cases read with
        | nil => simp [tokensOfRead, endRead, between]
        | cons byte read => exact foldl_hear_tokensOfRead _ byte read
      have reached : (peridotSwHostbridgeGen2Service state read).1 =
          read.foldl heed state := by
        have states := congrArg Listener.state first
        rw [endRead] at states
        have followed := foldl_hear_state (between state earlier) (tokensOfRead read)
        rw [same, map_byte_tokensOfRead] at followed
        exact states.symm.trans followed
      rw [same, first]
      have later := ih (peridotSwHostbridgeGen2Service state read).1
        (earlier ++ (peridotSwHostbridgeGen2Service state read).2) (by
          intro front start
          rw [reached, ← List.foldl_append]
          exact packets (read ++ front) ((List.prefix_append_right_inj read).mpr start))
      rw [tokens] at later
      rw [later, serve, List.append_assoc]

/-! ## One channel -/

/-- These deliveries are for one channel and make up the given bytes. -/
structure Given (channel : HostbridgeChannel δ) (deliveries : List (Delivery δ))
    (bytes : List UInt8) : Prop where
  only : ∀ delivery ∈ deliveries, delivery.channel = channel
  all : bytesFor channel.number deliveries = bytes

theorem given_nil (channel : HostbridgeChannel δ) : Given channel [] [] :=
  ⟨fun _ inside => (List.not_mem_nil inside).elim, rfl⟩

theorem given_handOver (channel : HostbridgeChannel δ) (bytes : List UInt8) :
    Given channel (handOver (some channel) bytes) bytes := by
  unfold handOver
  dsimp only
  split
  · rename_i empty
    rw [empty]
    exact given_nil channel
  · exact ⟨fun delivery inside => by simp [List.mem_singleton.mp inside],
      by simp [bytesFor]⟩

theorem Given.append {channel : HostbridgeChannel δ} {first second : List (Delivery δ)}
    {before after : List UInt8} (one : Given channel first before)
    (two : Given channel second after) : Given channel (first ++ second) (before ++ after) := by
  refine ⟨fun delivery inside => ?_, by rw [bytesFor_append, one.all, two.all]⟩
  rcases List.mem_append.mp inside with here | there
  · exact one.only delivery here
  · exact two.only delivery there

theorem service_nil (state : BridgeState δ) :
    peridotSwHostbridgeGen2Service state [] = (state, []) := by
  unfold peridotSwHostbridgeGen2Service
  dsimp only [List.length_nil, scanBytes, List.nil_append]
  rw [writeToChannel_eq state.sinkChannel [] (Nat.le_refl 0)]
  simp

/-- Reads without bytes do nothing. -/
theorem serve_silent (state : BridgeState δ) {reads : List (List UInt8)}
    (silent : reads.flatten = []) : serve state reads = (state, []) := by
  induction reads generalizing state with
  | nil => rfl
  | cons read rest ih =>
      rw [List.flatten_cons, List.append_eq_nil_iff] at silent
      rw [serve, silent.1, service_nil, ih state silent.2]
      rfl

/-- A byte that completes nothing is added to what is pending. -/
theorem hear_waits {heard : Listener δ} {token : Token}
    (waits : completes heard.state token.byte = false) :
    (hear heard token).writes ++
        handOver heard.state.sinkChannel (hear heard token).pending =
      heard.writes ++ handOver heard.state.sinkChannel (heard.pending ++ [token.byte]) := by
  unfold hear
  rw [hearByte_waits waits]
  split
  · rw [endRead]
    dsimp only
    rw [heed_sinkChannel waits, handOver_nil, List.append_nil]
  · rfl

theorem Given.more {channel : HostbridgeChannel δ} {writes : List (Delivery δ)}
    {pending bytes : List UInt8}
    (given : Given channel (writes ++ handOver (some channel) pending) bytes)
    (byte : UInt8) :
    Given channel (writes ++ handOver (some channel) (pending ++ [byte])) (bytes ++ [byte]) := by
  have all := given.all
  rw [bytesFor_append, (given_handOver channel pending).all] at all
  refine ⟨fun delivery inside => ?_, ?_⟩
  · rcases List.mem_append.mp inside with earlier | last
    · exact given.only delivery (List.mem_append_left _ earlier)
    · exact (given_handOver channel _).only delivery last
  · rw [bytesFor_append, (given_handOver channel _).all, ← all, List.append_assoc]

/-- A channel that is selected stays so on bytes that begin no prefix sequence, and is
given all of them. -/
theorem hear_given {channel : HostbridgeChannel δ} {heard : Listener δ} {stream : List Token}
    {data bytes : List UInt8} (spelled : stream.map Token.byte = data)
    (sink : heard.state.sinkChannel = some channel) (idle : heard.state.channelPrefix = false)
    (noPrefix : astChannelPrefix ∉ data)
    (given : Given channel (heard.writes ++ handOver (some channel) heard.pending) bytes) :
    Given channel ((stream.foldl hear heard).writes ++
        handOver (some channel) (stream.foldl hear heard).pending) (bytes ++ data) := by
  induction stream generalizing heard data bytes with
  | nil =>
      cases spelled
      simpa using given
  | cons token rest ih =>
      cases spelled
      rw [List.map_cons, List.mem_cons, not_or] at noPrefix
      have waits : completes heard.state token.byte = false := by simp [completes, idle]
      have next : heed heard.state token.byte =
          { heard.state with escapePrefix := token.byte == astEscapePrefix } :=
        heed_data idle (show astChannelPrefix ∉ [token.byte] by simpa using noPrefix.1)
      have same := hear_waits waits
      have one := given.more token.byte
      rw [← sink, ← same, sink] at one
      have later := ih rfl (by rw [hear_state, next]; exact sink)
        (by rw [hear_state, next]; exact idle) noPrefix.2 one
      rw [List.append_assoc] at later
      exact later

variable {registry : Registry δ} {channel : HostbridgeChannel δ}

def selecting (registry : Registry δ) (channel : HostbridgeChannel δ) : BridgeState δ :=
  { freshBridge registry with sinkChannel := some channel }

theorem heed_selects (member : channel ∈ registry.channels) :
    (astChannelPrefix :: escapeByte channel.number).foldl heed (freshBridge registry) =
      selecting registry channel := by
  rw [heed_header]
  have found : findChannel registry (heardNumber false channel.number) = some channel :=
    findChannel_of_mem member
  exact congrArg (fun sink => { freshBridge registry with sinkChannel := sink }) found

theorem hears_selects (member : channel ∈ registry.channels) {stream : List Token}
    (bytes : stream.map Token.byte = astChannelPrefix :: escapeByte channel.number) :
    stream.foldl hear (between (freshBridge registry) []) =
      between (selecting registry channel) [] := by
  obtain ⟨marks, last, shape, reserved, begins, notPrefix, notEscape⟩ :=
    header_concat (δ := δ) channel.number
  have state := foldl_hear_state (between (freshBridge registry) []) stream
  rw [bytes] at state
  have selected := state.trans (heed_selects member)
  rw [shape] at bytes
  obtain ⟨front, final, rfl, markBytes, finalBytes⟩ := List.map_eq_append_iff.mp bytes
  obtain ⟨token, others, rfl, same, nothing⟩ := List.map_eq_cons_iff.mp finalBytes
  cases List.map_eq_nil_iff.mp nothing
  have unselected : (between (freshBridge registry) []).state.sinkChannel = none := rfl
  have quiet := hear_marks unselected fun other inside => reserved other.byte (by
    rw [← markBytes]
    exact List.mem_map_of_mem inside)
  rw [List.foldl_append, List.foldl_cons, List.foldl_nil] at selected ⊢
  have reached := foldl_hear_state (between (freshBridge registry) []) front
  rw [markBytes] at reached
  generalize front.foldl hear _ = heard at *
  have waiting : heard.state.sinkChannel = none := by
    rw [reached, heed_marks reserved]
    rfl
  have complete : completes heard.state token.byte = true := by
    simp [completes, reached, begins, same, notPrefix, notEscape]
  rw [hear_state] at selected
  unfold hear
  rw [hearByte_number complete waiting quiet, selected]
  split
  · rw [endRead]
    simp [between]
  · rfl

/-- While a packetized channel is the only one selected the service can be heard. -/
theorem rawSink_one (member : channel ∈ registry.channels)
    (packetized : channel.packetized = true) {front data : List UInt8}
    (noPrefix : astChannelPrefix ∉ data)
    (start : front <+: astChannelPrefix :: escapeByte channel.number ++ data) :
    rawSink (front.foldl heed (freshBridge registry)) = false := by
  obtain ⟨marks, last, shape, reserved, -⟩ := header_concat (δ := δ) channel.number
  have afterHeader {more : List UInt8} (part : more <+: data) :
      rawSink ((astChannelPrefix :: escapeByte channel.number ++ more).foldl heed
        (freshBridge registry)) = false := by
    rw [List.foldl_append, heed_selects member,
      heed_data rfl fun inside => noPrefix (part.subset inside)]
    simp [rawSink, selecting, packetized]
  obtain ⟨rest, whole⟩ := start
  rcases List.append_eq_append_iff.mp whole with ⟨more, early, -⟩ | ⟨more, rfl, late⟩
  · rw [shape] at early
    rcases List.prefix_concat_iff.mp ⟨more, early.symm⟩ with all | part
    · rw [all, ← shape]
      simpa using afterHeader (List.nil_prefix)
    · rw [rawSink, heed_marks fun byte inside => reserved byte (part.subset inside)]
      rfl
  · exact afterHeader ⟨rest, late.symm⟩

/-- A fresh bridge on a stream for one packetized channel. -/
theorem serve_given (member : channel ∈ registry.channels)
    (packetized : channel.packetized = true) {data : List UInt8}
    (noPrefix : astChannelPrefix ∉ data) {reads : List (List UInt8)}
    (stream : reads.flatten = astChannelPrefix :: escapeByte channel.number ++ data) :
    Given channel (serve (freshBridge registry) reads).2 data := by
  have heard := serve_hears (freshBridge registry) [] reads fun front start =>
    rawSink_one member packetized noPrefix (stream ▸ start)
  have bytes := map_byte_tokens reads
  rw [stream] at bytes
  obtain ⟨front, rest, split, headerBytes, dataBytes⟩ := List.map_eq_append_iff.mp bytes
  rw [split, List.foldl_append, hears_selects member headerBytes] at heard
  have nothing : Given channel
      ((between (selecting registry channel) []).writes ++
        handOver (some channel) (between (selecting registry channel) []).pending) [] := by
    rw [between, handOver_nil]
    exact given_nil channel
  have given := hear_given dataBytes (show (between (selecting registry channel) []).state.sinkChannel
    = some channel from rfl) rfl noPrefix nothing
  rw [heard, between, handOver_nil, List.append_nil, List.nil_append, List.nil_append] at given
  exact given

end PeridotSw.Bridge.Hearing
