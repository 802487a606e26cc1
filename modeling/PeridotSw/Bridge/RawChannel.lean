import PeridotSw.Bridge.Hearing
import PeridotSw.Bridge.Source

/-!
# The round trip on a channel without packets

For such a channel the service removes escape prefixes and markers from its read
buffer by moving the beginning of the buffer, not the part behind the byte, one
place down, and it goes on behind the byte that has taken the removed one's place.
That is harmless in one situation only, when the escape prefix is the last byte of
its read.  A read that goes on behind an escape prefix delivers the wrong bytes.
-/

namespace PeridotSw.Bridge.RawChannel

open PeridotSw.Stream.Ast
open PeridotSw.Stream.Encoding
open PeridotSw.Bridge.Channel
open PeridotSw.Bridge.Service
open PeridotSw.Bridge.Hearing
open PeridotSw.Bridge.Source

variable {δ : Type}

/-- Every escape prefix in the data that follows `heard` is the last byte of its read. -/
def EscapesEnd (reads : List (List UInt8)) (heard data : List UInt8) : Prop :=
  ∀ front back, data = front ++ astEscapePrefix :: back →
    ReadEndsAfter reads (heard ++ front ++ [astEscapePrefix])

/-- The stream that lies ahead when a payload is still to come; if an escape is open
the prefix of its first byte is already behind. -/
def Ahead : Bool → List UInt8 → List UInt8 → Prop
  | false, payload, stream => stream = payload.flatMap escapeByte
  | true, payload, stream => ∃ byte rest, payload = byte :: rest ∧
      astNeedsEscape byte = true ∧ stream = (byte ^^^ astEscapeXor) :: rest.flatMap escapeByte

def openEnd (opened : Bool) : List UInt8 := if opened then [astEscapePrefix] else []

/-- A read of encoded data in which nothing follows an escape prefix. -/
theorem read_shape {payload read later : List UInt8}
    (split : payload.flatMap escapeByte = read ++ later)
    (ends : ∀ front back, read = front ++ astEscapePrefix :: back → back = []) :
    ∃ plain rest opened, payload = plain ++ rest ∧
      (∀ byte ∈ plain, astNeedsEscape byte = false) ∧
      read = plain ++ openEnd opened ∧ Ahead opened rest later := by
  induction payload generalizing read with
  | nil =>
      obtain ⟨rfl, rfl⟩ := List.append_eq_nil_iff.mp split.symm
      exact ⟨[], [], false, rfl, by simp, rfl, rfl⟩
  | cons byte payload ih =>
      cases read with
      | nil =>
          exact ⟨[], byte :: payload, false, rfl, by simp, rfl, split.symm⟩
      | cons first read =>
          rw [List.flatMap_cons, List.cons_append] at split
          unfold escapeByte at split
          cases special : astNeedsEscape byte with
          | true =>
              rw [special] at split
              obtain ⟨rfl, more⟩ := List.cons.inj split
              cases ends [] read rfl
              exact ⟨[], byte :: payload, true, rfl, by simp, rfl, byte, payload, rfl,
                special, more.symm⟩
          | false =>
              rw [special] at split
              obtain ⟨rfl, more⟩ := List.cons.inj split
              obtain ⟨plain, rest, opened, rfl, quiet, rfl, ahead⟩ :=
                ih more fun front back same => ends (byte :: front) back (by rw [same]; rfl)
              refine ⟨byte :: plain, rest, opened, rfl, ?_, rfl, ahead⟩
              intro other member
              rcases List.mem_cons.mp member with rfl | inside
              · exact special
              · exact quiet other inside

theorem escapesEnd_cons {read : List UInt8} {rest : List (List UInt8)}
    (ends : EscapesEnd (read :: rest) [] (read ++ rest.flatten)) :
    (∀ front back, read = front ++ astEscapePrefix :: back → back = []) ∧
      EscapesEnd rest [] rest.flatten := by
  constructor
  · intro front back same
    have here := ends front (back ++ rest.flatten) (by rw [same]; simp)
    obtain ⟨later, shape, -⟩ := (readEndsAfter_cons (by simp)).mp here
    rw [same] at shape
    have size := congrArg List.length shape
    simp only [List.length_append, List.length_cons, List.length_nil] at size
    exact List.length_eq_zero_iff.mp (by omega)
  · intro front back same
    have here := ends (read ++ front) back (by rw [same, List.append_assoc])
    obtain ⟨later, shape, after⟩ := (readEndsAfter_cons (by simp)).mp here
    rw [List.nil_append, List.append_assoc, List.append_cancel_left_eq] at shape
    rwa [List.nil_append, shape]

/-! ## One read -/

section OneRead

variable {scan : Scan δ} {channel : HostbridgeChannel δ} {byte : UInt8}

/-- A channel without packets is selected and no prefix sequence has begun. -/
structure Selected (state : BridgeState δ) (channel : HostbridgeChannel δ) : Prop where
  sink : state.sinkChannel = some channel
  raw : channel.packetized = false
  idle : state.channelPrefix = false

theorem Selected.rawSink {state : BridgeState δ} (selected : Selected state channel) :
    rawSink state = true := by
  simp [Service.rawSink, selected.sink, selected.raw]

theorem Selected.escape {state : BridgeState δ} (selected : Selected state channel)
    (opened : Bool) : Selected { state with escapePrefix := opened } channel :=
  ⟨selected.sink, selected.raw, selected.idle⟩

theorem scanByte_rawPlain (selected : Selected scan.state channel)
    (fetched : scan.buffer.getD scan.index 0 = byte)
    (closed : scan.state.escapePrefix = false) (plain : astNeedsEscape byte = false) :
    scanByte scan = advance scan := by
  obtain ⟨notSop, notEop, notPrefix, notEscape⟩ := ne_of_not_needsEscape plain
  obtain ⟨⟨registry, sink, source, begun, escape⟩, buffer, index, head, readLen, writes⟩ := scan
  cases closed
  cases selected.idle
  dsimp only at fetched
  unfold scanByte
  simp only [fetched, notPrefix, notEscape, if_false]
  simp [notSop, notEop, unescape]

/-- An escape prefix that ends its read is only taken off the end. -/
theorem scanByte_rawEscape (selected : Selected scan.state channel)
    (fetched : scan.buffer.getD scan.index 0 = astEscapePrefix)
    (last : scan.index + 1 = scan.readLen) :
    scanByte scan = advance
      { scan with
        state := { scan.state with escapePrefix := true }
        readLen := scan.readLen - 1 } := by
  have differs : ¬astEscapePrefix = astChannelPrefix := by decide
  have left : scan.readLen - 1 - scan.index = 0 := by omega
  unfold scanByte
  simp only [fetched, differs, selected.rawSink, if_false, if_true, dropByte, left]
  simp [memmoveDown]

/-- The byte of an open escape, unless it is a marker then. -/
theorem scanByte_rawEscaped (selected : Selected scan.state channel)
    (fetched : scan.buffer.getD scan.index 0 = byte ^^^ astEscapeXor)
    (opened : scan.state.escapePrefix = true) (special : astNeedsEscape byte = true)
    (notSop : byte ≠ astSop) (notEop : byte ≠ astEopPrefix) :
    scanByte scan = advance
      { scan with
        state := { scan.state with escapePrefix := false }
        buffer := scan.buffer.set scan.index byte } := by
  obtain ⟨-, -, notPrefix, notEscape⟩ := ne_of_not_needsEscape (xor_escape_not_marker special)
  have raw := selected.rawSink
  have idle := selected.idle
  unfold scanByte
  simp only [fetched, notPrefix, notEscape, if_false]
  simp [notSop, notEop, unescape, opened, raw, idle]

/-- The rest of a read when no escape is open: the bytes are left where they are. -/
theorem rawLoop (selected : Selected scan.state channel)
    (closed : scan.state.escapePrefix = false) {plain : List UInt8} {opened : Bool}
    (quiet : ∀ byte ∈ plain, astNeedsEscape byte = false)
    (left : scan.buffer.drop scan.index = plain ++ openEnd opened)
    (full : scan.readLen = scan.buffer.length) :
    scanBytes (plain ++ openEnd opened).length scan =
      { scan with
        state := { scan.state with escapePrefix := opened }
        index := scan.index + (plain ++ openEnd opened).length
        readLen := scan.readLen - (openEnd opened).length } := by
  induction plain generalizing scan with
  | nil =>
      cases opened with
      | false =>
          obtain ⟨⟨registry, sink, source, begun, escape⟩, buffer, index, head, readLen,
            writes⟩ := scan
          cases closed
          rfl
      | true =>
          have size := congrArg List.length left
          simp only [List.length_drop, openEnd, if_true, List.nil_append,
            List.length_singleton] at size
          have fetched : scan.buffer.getD scan.index 0 = astEscapePrefix := by
            have here := congrArg List.head? left
            rw [List.head?_drop] at here
            simp [List.getD_eq_getElem?_getD, here, openEnd]
          simp only [openEnd, if_true, List.nil_append, List.length_singleton, scanBytes]
          rw [if_pos (by omega), scanByte_rawEscape selected fetched (by omega)]
          rfl
  | cons byte plain ih =>
      have fetched : scan.buffer.getD scan.index 0 = byte := by
        have here := congrArg List.head? left
        rw [List.head?_drop] at here
        simp [List.getD_eq_getElem?_getD, here]
      have size := congrArg List.length left
      simp only [List.length_drop, List.cons_append, List.length_cons] at size
      have after : scan.buffer.drop (scan.index + 1) = plain ++ openEnd opened := by
        have tails := congrArg List.tail left
        rw [List.tail_drop] at tails
        exact tails
      rw [List.cons_append, List.length_cons, scanBytes, if_pos (by omega),
        scanByte_rawPlain selected fetched closed (quiet byte (.head _))]
      have onwards : Selected (advance scan).state channel := selected
      rw [ih onwards closed (fun other member => quiet other (.tail _ member)) after full]
      simp only [advance]
      congr 1
      omega

theorem handOver_rest (target : Option (HostbridgeChannel δ)) {buffer plain : List UInt8}
    {start : Nat} {opened : Bool} (inside : start ≤ buffer.length)
    (left : buffer.drop start = plain ++ openEnd opened) :
    writeToChannel target buffer start
        ((buffer.length - (openEnd opened).length : Nat) : Int) =
      handOver target plain := by
  have size := congrArg List.length left
  simp only [List.length_drop, List.length_append] at size
  have count : buffer.length - (openEnd opened).length - start = plain.length := by omega
  rw [writeToChannel_eq target buffer (Nat.sub_le _ _), List.drop_take, left, count,
    List.take_left]

variable {state : BridgeState δ} {plain : List UInt8} {opened : Bool}

theorem service_closed (selected : Selected state channel)
    (closed : state.escapePrefix = false)
    (quiet : ∀ byte ∈ plain, astNeedsEscape byte = false) :
    peridotSwHostbridgeGen2Service state (plain ++ openEnd opened) =
      ({ state with escapePrefix := opened }, handOver (some channel) plain) := by
  unfold peridotSwHostbridgeGen2Service
  dsimp only
  rw [rawLoop (by exact selected) (by exact closed) quiet rfl rfl]
  dsimp only
  rw [selected.sink]
  congr 1
  exact handOver_rest (some channel) (Nat.zero_le _) rfl

theorem service_opened (selected : Selected state channel)
    (begun : state.escapePrefix = true)
    (quiet : ∀ byte ∈ plain, astNeedsEscape byte = false)
    (special : astNeedsEscape byte = true) (notSop : byte ≠ astSop)
    (notEop : byte ≠ astEopPrefix) :
    peridotSwHostbridgeGen2Service state
        ((byte ^^^ astEscapeXor) :: (plain ++ openEnd opened)) =
      ({ state with escapePrefix := opened }, handOver (some channel) (byte :: plain)) := by
  have first := scanByte_rawEscaped
    (show Selected (Scan.mk state ((byte ^^^ astEscapeXor) :: (plain ++ openEnd opened)) 0 0
      ((plain ++ openEnd opened).length + 1) []).state channel from selected)
    rfl begun special notSop notEop
  unfold peridotSwHostbridgeGen2Service
  dsimp only
  rw [List.length_cons, scanBytes, if_pos (Nat.zero_lt_succ _), first]
  have onwards := selected.escape false
  rw [rawLoop (by exact onwards) rfl quiet rfl (by simp [advance])]
  simp only [advance, selected.sink, List.set_cons_zero, List.nil_append]
  congr 1
  exact handOver_rest (some channel) (Nat.zero_le _)
    (show byte :: (plain ++ openEnd opened) = (byte :: plain) ++ openEnd opened from rfl)

end OneRead

/-! ## All reads -/

/-- With every escape prefix at the end of its read the payload arrives. -/
theorem raw_serve {channel : HostbridgeChannel δ} {state : BridgeState δ}
    (selected : Selected state channel) {payload : List UInt8} {reads : List (List UInt8)}
    (ahead : Ahead state.escapePrefix payload reads.flatten)
    (ends : EscapesEnd reads [] reads.flatten)
    (unmarked : ∀ byte ∈ payload, byte ≠ astSop ∧ byte ≠ astEopPrefix) :
    (serve state reads).1 = { state with escapePrefix := false } ∧
      Given channel (serve state reads).2 payload := by
  induction reads generalizing state payload with
  | nil =>
      cases opened : state.escapePrefix with
      | false =>
          rw [opened] at ahead
          cases payload with
          | nil => exact ⟨by rw [← opened]; rfl, given_nil channel⟩
          | cons byte rest =>
              have size := congrArg List.length ahead
              rw [List.flatMap_cons, escapeByte] at size
              split at size <;> simp at size
      | true =>
          rw [opened] at ahead
          obtain ⟨byte, rest, -, -, nothing⟩ := ahead
          cases nothing
  | cons read rest ih =>
      rw [List.flatten_cons] at ahead ends
      obtain ⟨last, later⟩ := escapesEnd_cons ends
      have next {remaining front : List UInt8} {opened : Bool}
          (service : peridotSwHostbridgeGen2Service state read =
            ({ state with escapePrefix := opened }, handOver (some channel) front))
          (split : payload = front ++ remaining)
          (onwards : Ahead opened remaining rest.flatten) :
          (serve state (read :: rest)).1 = { state with escapePrefix := false } ∧
            Given channel (serve state (read :: rest)).2 payload := by
        have tail := ih (selected.escape opened) onwards later fun byte inside =>
          unmarked byte (by rw [split]; exact List.mem_append_right _ inside)
        rw [serve, service]
        dsimp only
        exact ⟨tail.1, split ▸ (given_handOver channel front).append tail.2⟩
      cases begun : state.escapePrefix with
      | false =>
          rw [begun] at ahead
          obtain ⟨plain, remaining, opened, split, quiet, rfl, onwards⟩ :=
            read_shape ahead.symm last
          exact next (service_closed selected begun quiet) split onwards
      | true =>
          rw [begun] at ahead
          obtain ⟨byte, payload, rfl, special, stream⟩ := ahead
          cases read with
          | nil =>
              rw [serve, service_nil]
              exact ih selected (by rw [begun]; exact ⟨byte, payload, rfl, special, stream⟩)
                later unmarked
          | cons first more =>
              obtain ⟨rfl, split⟩ := List.cons.inj stream
              obtain ⟨plain, remaining, opened, rfl, quiet, rfl, onwards⟩ :=
                read_shape split.symm fun front back same =>
                  last ((byte ^^^ astEscapeXor) :: front) back (by rw [same]; rfl)
              have marks := unmarked byte (.head _)
              exact next (service_opened selected begun quiet special marks.1 marks.2) rfl
                onwards

/-! ## The prefix sequence -/

theorem serve_append (state : BridgeState δ) (first second : List (List UInt8)) :
    serve state (first ++ second) =
      ((serve (serve state first).1 second).1,
        (serve state first).2 ++ (serve (serve state first).1 second).2) := by
  induction first generalizing state with
  | nil => rfl
  | cons read rest ih =>
      rw [List.cons_append, serve, ih]
      simp [serve]

theorem exists_split {reads : List (List UInt8)} {front back : List UInt8}
    (nonempty : front ≠ []) (stream : reads.flatten = front ++ back) :
    ∃ before first second after, reads = before ++ (first ++ second) :: after ∧
      before.flatten ++ first = front ∧ first ≠ [] ∧ second ++ after.flatten = back := by
  induction reads generalizing front with
  | nil =>
      rw [List.flatten_nil] at stream
      exact absurd (List.append_eq_nil_iff.mp stream.symm).1 nonempty
  | cons read rest ih =>
      rw [List.flatten_cons] at stream
      rcases List.append_eq_append_iff.mp stream with
        ⟨more, rfl, others⟩ | ⟨more, rfl, rfl⟩
      · by_cases all : more = []
        · rw [all, List.append_nil] at nonempty
          rw [all, List.nil_append] at others
          exact ⟨[], read, [], rest, by simp, by simp [all], nonempty, others⟩
        · obtain ⟨before, first, second, after, rfl, same, left, right⟩ := ih all others
          exact ⟨read :: before, first, second, after, rfl, by simp [← same], left, right⟩
      · exact ⟨[], front, more, rest, rfl, rfl, nonempty, rfl⟩

/-- Reads that end before the number. -/
theorem serve_marks (registry : Registry δ) {reads : List (List UInt8)}
    (all : ∀ byte ∈ reads.flatten, byte = astChannelPrefix ∨ byte = astEscapePrefix) :
    serve (freshBridge registry) reads =
      (reads.flatten.foldl heed (freshBridge registry), []) := by
  have heard := serve_hears (freshBridge registry) [] reads fun front start => by
    rw [rawSink, heed_marks fun byte inside => all byte (start.subset inside)]
    rfl
  have states := foldl_hear_state (between (freshBridge registry) []) (tokens reads)
  have marks (token : Token) (inside : token ∈ tokens reads) :
      token.byte = astChannelPrefix ∨ token.byte = astEscapePrefix := by
    refine all token.byte ?_
    rw [← map_byte_tokens]
    exact List.mem_map_of_mem inside
  have unselected : (between (freshBridge registry) []).state.sinkChannel = none := rfl
  have writes := hear_marks unselected marks
  rw [heard] at states writes
  rw [map_byte_tokens] at states
  exact Prod.ext states writes

variable {registry : Registry δ} {channel : HostbridgeChannel δ}

/-- The last part of a prefix sequence: reserved bytes and the number's last byte. -/
theorem header_suffix {number : UInt8} {before first : List UInt8}
    (header : before ++ first = astChannelPrefix :: escapeByte number) (nonempty : first ≠ []) :
    ∃ front last, first = front ++ [last] ∧
      (∀ byte ∈ before ++ front, byte = astChannelPrefix ∨ byte = astEscapePrefix) ∧
      (∀ state : BridgeState δ, ((before ++ front).foldl heed state).channelPrefix = true) ∧
      last ≠ astChannelPrefix ∧ last ≠ astEscapePrefix := by
  obtain ⟨marks, last, shape, reserved, begins, number'⟩ := header_concat (δ := δ) number
  obtain ⟨front, final, rfl⟩ : ∃ front final, first = front ++ [final] :=
    ⟨_, _, (List.dropLast_concat_getLast nonempty).symm⟩
  have whole := header.trans shape
  rw [← List.append_assoc] at whole
  obtain ⟨rfl, same⟩ := List.append_inj' whole rfl
  cases same
  exact ⟨front, last, rfl, reserved, begins, number'⟩

/-- Scanning the last part of a prefix sequence inside a read. -/
theorem scan_header (member : channel ∈ registry.channels) {before first second : List UInt8}
    (header : before ++ first = astChannelPrefix :: escapeByte channel.number)
    (nonempty : first ≠ []) :
    scanBytes first.length
        { state := before.foldl heed (freshBridge registry)
          buffer := first ++ second
          index := 0
          head := 0
          readLen := (first ++ second).length
          writes := [] } =
      { state := selecting registry channel
        buffer := first ++ second
        index := first.length
        head := first.length
        readLen := (first ++ second).length
        writes := [] } := by
  obtain ⟨front, last, rfl, reserved, begins, notPrefix, notEscape⟩ :=
    header_suffix (δ := δ) header nonempty
  have all := heed_selects member
  rw [← header, List.foldl_append, List.foldl_append, List.foldl_cons, List.foldl_nil] at all
  generalize begun : before.foldl heed (freshBridge registry) = start at all ⊢
  have frontMarks (byte : UInt8) (inside : byte ∈ front) :=
    reserved byte (List.mem_append_right _ inside)
  have unselected : start.sinkChannel = none := by
    rw [← begun, heed_marks fun byte inside => reserved byte (List.mem_append_left _ inside)]
    rfl
  have follows : Follows [] (front ++ [last] ++ second)
      { state := start
        buffer := front ++ [last] ++ second
        index := 0
        head := 0
        readLen := (front ++ [last] ++ second).length
        writes := [] } (between start []) :=
    ⟨rfl, rfl, rfl, rfl, Nat.le_refl _, Nat.zero_le _, rfl⟩
  have left : (front ++ [last] ++ second).drop 0 = (front ++ [last]) ++ second := rfl
  obtain ⟨follows, reached⟩ := follows.loop left (by
    intro early byte begins
    have inFront : early <+: front := by
      rcases List.prefix_concat_iff.mp begins with same | shorter
      · exact (List.append_inj' same rfl).1 ▸ List.prefix_rfl
      · exact (List.prefix_append early [byte]).trans shorter
    rw [rawSink, heed_marks fun other inside => frontMarks other (inFront.subset inside),
      unselected])
  obtain ⟨quiet, state⟩ := hearByte_marks
    (show (between start []).state.sinkChannel = none from unselected) frontMarks
  rw [List.foldl_append, List.foldl_cons, List.foldl_nil] at follows
  generalize front.foldl hearByte _ = heard at follows quiet state
  have complete : completes heard.state last = true := by
    have inside := begins (freshBridge registry)
    rw [List.foldl_append, begun] at inside
    simp [completes, state, between, inside, notPrefix, notEscape]
  have nothing : heard.state.sinkChannel = none := by
    rw [state, heed_marks frontMarks]
    exact unselected
  rw [hearByte_number complete nothing quiet, state] at follows
  change Follows [] _ _ (between (heed (front.foldl heed start) last) []) at follows
  rw [all] at follows
  rw [Nat.zero_add] at reached
  rw [follows.caughtUp, reached]

theorem scanBytes_add (first second : Nat) (scan : Scan δ) :
    scanBytes (first + second) scan = scanBytes second (scanBytes first scan) := by
  induction first generalizing scan with
  | zero => rw [Nat.zero_add]; rfl
  | succ first ih =>
      rw [Nat.succ_add, scanBytes, scanBytes]
      by_cases more : scan.index < scan.readLen
      · rw [if_pos more, if_pos more, ih]
      · rw [if_neg more, if_neg more]
        cases second with
        | zero => rfl
        | succ second => rw [scanBytes, if_neg more]

theorem selected_selecting (registry : Registry δ) (raw : channel.packetized = false)
    (opened : Bool) :
    Selected { selecting registry channel with escapePrefix := opened } channel :=
  ⟨rfl, raw, rfl⟩

/-- The read in which the prefix sequence ends. -/
theorem service_header (member : channel ∈ registry.channels)
    (raw : channel.packetized = false) {before first plain : List UInt8} {opened : Bool}
    (header : before ++ first = astChannelPrefix :: escapeByte channel.number)
    (nonempty : first ≠ []) (quiet : ∀ byte ∈ plain, astNeedsEscape byte = false) :
    peridotSwHostbridgeGen2Service (before.foldl heed (freshBridge registry))
        (first ++ (plain ++ openEnd opened)) =
      ({ selecting registry channel with escapePrefix := opened },
        handOver (some channel) plain) := by
  have left : (first ++ (plain ++ openEnd opened)).drop first.length =
      plain ++ openEnd opened := List.drop_left
  have selected : Selected (selecting registry channel) channel := selected_selecting registry raw false
  unfold peridotSwHostbridgeGen2Service
  dsimp only
  rw [List.length_append, scanBytes_add, ← List.length_append, scan_header member header nonempty,
    rawLoop (by exact selected) rfl quiet left rfl]
  dsimp only
  congr 1
  exact handOver_rest (some channel) (by simp) left

theorem readEndsAfter_append {before reads : List (List UInt8)} {later : List UInt8}
    (nonempty : later ≠ []) :
    ReadEndsAfter (before ++ reads) (before.flatten ++ later) ↔ ReadEndsAfter reads later := by
  induction before with
  | nil => rfl
  | cons read before ih =>
      rw [List.cons_append, readEndsAfter_cons (by simp [nonempty]), List.flatten_cons]
      constructor
      · rintro ⟨rest, same, ends⟩
        rw [List.append_assoc, List.append_cancel_left_eq] at same
        rw [← same] at ends
        exact ih.mp ends
      · intro ends
        exact ⟨_, List.append_assoc _ _ _, ih.mpr ends⟩

/-- What is asked of the data does not depend on where the prefix sequence is cut. -/
theorem escapesEnd_data {before after : List (List UInt8)} {first second : List UInt8}
    (ends : EscapesEnd (before ++ (first ++ second) :: after) (before.flatten ++ first)
      (second ++ after.flatten)) :
    EscapesEnd (second :: after) [] (second ++ after.flatten) := by
  intro front back same
  have here := ends front back same
  rw [List.append_assoc, List.append_assoc, readEndsAfter_append (by simp),
    readEndsAfter_cons (by simp)] at here
  obtain ⟨later, shape, rest⟩ := here
  rw [List.append_assoc, List.append_cancel_left_eq] at shape
  rw [List.nil_append, readEndsAfter_cons (by simp)]
  exact ⟨later, shape, rest⟩

/-- From the fresh bridge on, with every escape prefix of the data at the end of its
read. -/
theorem header_serve (member : channel ∈ registry.channels)
    (raw : channel.packetized = false) {payload : List UInt8} {reads : List (List UInt8)}
    (stream : reads.flatten =
      astChannelPrefix :: escapeByte channel.number ++ payload.flatMap escapeByte)
    (ends : EscapesEnd reads (astChannelPrefix :: escapeByte channel.number)
      (payload.flatMap escapeByte))
    (unmarked : ∀ byte ∈ payload, byte ≠ astSop ∧ byte ≠ astEopPrefix) :
    (serve (freshBridge registry) reads).1 = selecting registry channel ∧
      Given channel (serve (freshBridge registry) reads).2 payload := by
  obtain ⟨before, first, second, after, rfl, header, nonempty, data⟩ :=
    exists_split (List.cons_ne_nil _ _) stream
  obtain ⟨marks, last, shape, reserved, -⟩ := header_concat (δ := δ) channel.number
  have marked (byte : UInt8) (inside : byte ∈ before.flatten) :
      byte = astChannelPrefix ∨ byte = astEscapePrefix := by
    have split : before.flatten ++ first.dropLast ++ [first.getLast nonempty] = marks ++ [last] := by
      rw [List.append_assoc, List.dropLast_concat_getLast, header, shape]
    have front := (List.append_inj' split rfl).1
    exact reserved byte (by rw [← front]; exact List.mem_append_left _ inside)
  rw [← header, ← data] at ends
  obtain ⟨alone, later⟩ := escapesEnd_cons (escapesEnd_data ends)
  obtain ⟨plain, rest, opened, rfl, quiet, rfl, ahead⟩ := read_shape data.symm alone
  have tail := raw_serve (selected_selecting registry raw opened) ahead later fun byte inside =>
    unmarked byte (List.mem_append_right _ inside)
  rw [serve_append, serve_marks registry marked]
  dsimp only
  rw [serve, service_header member raw header nonempty quiet]
  dsimp only
  refine ⟨tail.1, ?_⟩
  rw [List.nil_append]
  exact (given_handOver channel plain).append tail.2

/-! ## The round trip -/

variable {σ : Type}

/-- The channel's destination is given exactly the payload, after finitely many calls
of `write_to_channel`. -/
def Arrives (dispatch : δ → σ → List UInt8 → σ × Int) (registry : Registry δ) (world : σ)
    (channel : HostbridgeChannel δ) (payload : List UInt8) (reads : List (List UInt8)) :
    Prop :=
  ∃ fuel final log,
    deliver dispatch fuel world (serve (freshBridge registry) reads).2 = some (final, log) ∧
      bytesFor channel.number log = payload

theorem emitted_raw (raw : channel.packetized = false) (payload : List UInt8) :
    emitted (freshBridge registry) channel payload 0 =
      astChannelPrefix :: escapeByte channel.number ++ payload.flatMap escapeByte := by
  have other : (channel.number.toNat : Int) ≠ (freshBridge registry).sourceChannelNumber := by
    simp only [freshBridge]
    omega
  rw [emitted_eq, if_pos (.inl other)]
  simp [raw, encodeBytes_false]

theorem arrives_of_given {dispatch : δ → σ → List UInt8 → σ × Int}
    (works : Works (dispatch channel.dest)) {world : σ} {payload : List UInt8}
    {reads : List (List UInt8)}
    (given : Given channel (serve (freshBridge registry) reads).2 payload) :
    Arrives dispatch registry world channel payload reads := by
  obtain ⟨fuel, ⟨final, log⟩, ended, -⟩ :=
    deliver_feeds dispatch works given.only world [] trivial
  exact ⟨fuel, final, log, ended, by rw [deliver_taken ended, given.all]⟩

theorem flatMap_escapeByte_plain {payload : List UInt8}
    (quiet : ∀ byte ∈ payload, astNeedsEscape byte = false) :
    payload.flatMap escapeByte = payload := by
  induction payload with
  | nil => rfl
  | cons byte rest ih =>
      rw [List.flatMap_cons, ih fun other inside => quiet other (.tail _ inside), escapeByte,
        quiet byte (.head _)]
      rfl

theorem escapesEnd_plain (reads : List (List UInt8)) (heard : List UInt8)
    {payload : List UInt8} (quiet : ∀ byte ∈ payload, astNeedsEscape byte = false) :
    EscapesEnd reads heard (payload.flatMap escapeByte) := by
  rw [flatMap_escapeByte_plain quiet]
  intro front back same
  have special := quiet astEscapePrefix (by simp [same])
  exact absurd special (by decide)

/-- A payload that needs escapes, split at the first byte that does. -/
theorem exists_special {payload : List UInt8}
    (escaped : ¬∀ byte ∈ payload, astNeedsEscape byte = false) :
    ∃ plain byte rest, payload = plain ++ byte :: rest ∧
      (∀ other ∈ plain, astNeedsEscape other = false) ∧ astNeedsEscape byte = true := by
  induction payload with
  | nil => exact absurd (fun _ inside => (List.not_mem_nil inside).elim) escaped
  | cons first payload ih =>
      cases special : astNeedsEscape first with
      | true => exact ⟨[], first, payload, rfl, by simp, special⟩
      | false =>
          have later : ¬∀ byte ∈ payload, astNeedsEscape byte = false := by
            intro quiet
            exact escaped (List.forall_mem_cons.mpr ⟨special, quiet⟩)
          obtain ⟨plain, byte, rest, rfl, quiet, marked⟩ := ih later
          exact ⟨first :: plain, byte, rest, rfl, List.forall_mem_cons.mpr ⟨special, quiet⟩,
            marked⟩

/-- An escape pair in a read of its own: the second byte is delivered as it is. -/
theorem service_pair {state : BridgeState δ} (selected : Selected state channel)
    {byte : UInt8} :
    peridotSwHostbridgeGen2Service state [astEscapePrefix, byte] =
      ({ state with escapePrefix := true }, handOver (some channel) [byte]) := by
  have differs : ¬astEscapePrefix = astChannelPrefix := by decide
  have raw := selected.rawSink
  have first : scanByte
      { state := state, buffer := [astEscapePrefix, byte], index := 0, head := 0, readLen := 2,
        writes := [] } =
      { state := { state with escapePrefix := true }, buffer := [byte, byte], index := 1,
        head := 0, readLen := 1, writes := [] } := by
    unfold scanByte
    simp [differs, raw, dropByte, advance, memmoveDown]
  unfold peridotSwHostbridgeGen2Service
  simp only [List.length_cons, List.length_nil, Nat.zero_add, Nat.reduceAdd]
  rw [scanBytes, if_pos (show 0 < 2 by decide), first, scanBytes,
    if_neg (show ¬1 < 1 by decide)]
  dsimp only
  rw [selected.sink]
  rfl

theorem flatten_singletons (bytes : List UInt8) :
    (bytes.map fun byte => [byte]).flatten = bytes := by
  induction bytes with
  | nil => rfl
  | cons byte rest ih => rw [List.map_cons, List.flatten_cons, ih]; rfl

/-- The stream cut so that the first escape pair has a read of its own. -/
def pairAlone (number : UInt8) (plain : List UInt8) (byte : UInt8) (rest : List UInt8) :
    List (List UInt8) :=
  (astChannelPrefix :: escapeByte number ++ plain).map (fun one => [one]) ++
    [astEscapePrefix, byte ^^^ astEscapeXor] ::
      (rest.flatMap escapeByte).map fun one => [one]

theorem pairAlone_cut (number : UInt8) {plain rest : List UInt8} {byte : UInt8}
    (quiet : ∀ other ∈ plain, astNeedsEscape other = false)
    (special : astNeedsEscape byte = true) :
    CutOf (pairAlone number plain byte rest)
      (astChannelPrefix :: escapeByte number ++ (plain ++ byte :: rest).flatMap escapeByte) := by
  constructor
  · rw [pairAlone, List.flatten_append, List.flatten_cons, flatten_singletons,
      flatten_singletons, List.flatMap_append, List.flatMap_cons,
      flatMap_escapeByte_plain quiet, List.append_assoc]
    simp [escapeByte, special]
  · intro read inside
    unfold pairAlone readBufferLen at *
    rcases List.mem_append.mp inside with alone | others
    · obtain ⟨one, -, rfl⟩ := List.mem_map.mp alone
      exact Nat.le_of_ble_eq_true rfl
    · rcases List.mem_cons.mp others with rfl | alone
      · exact Nat.le_of_ble_eq_true rfl
      · obtain ⟨one, -, rfl⟩ := List.mem_map.mp alone
        exact Nat.le_of_ble_eq_true rfl

/-- Cut this way the byte arrives with its escape bit flipped. -/
theorem not_arrives_pairAlone {dispatch : δ → σ → List UInt8 → σ × Int} {world : σ}
    (member : channel ∈ registry.channels) (raw : channel.packetized = false)
    {plain rest : List UInt8} {byte : UInt8}
    (quiet : ∀ other ∈ plain, astNeedsEscape other = false)
    (special : astNeedsEscape byte = true) :
    ¬Arrives dispatch registry world channel (plain ++ byte :: rest)
      (pairAlone channel.number plain byte rest) := by
  rintro ⟨fuel, final, log, ended, same⟩
  have stream : ((astChannelPrefix :: escapeByte channel.number ++ plain).map
      fun one => [one]).flatten =
      astChannelPrefix :: escapeByte channel.number ++ plain.flatMap escapeByte := by
    rw [flatten_singletons, flatMap_escapeByte_plain quiet]
  obtain ⟨state, given⟩ := header_serve member raw stream (escapesEnd_plain _ _ quiet)
    fun other inside => by
      have marks := ne_of_not_needsEscape (quiet other inside)
      exact ⟨marks.1, marks.2.1⟩
  have selected : Selected (selecting registry channel) channel :=
    selected_selecting registry raw false
  rw [deliver_taken ended, pairAlone, serve_append, state, serve, service_pair selected] at same
  dsimp only at same
  rw [bytesFor_append, bytesFor_append, given.all, (given_handOver channel _).all,
    List.append_cancel_left_eq] at same
  have flipped := (List.cons.inj same).1
  have plainByte := xor_escape_not_marker special
  rw [flipped, special] at plainByte
  cases plainByte

/-- Over all ways of reading, a payload arrives exactly when none of its bytes needs an
escape.  Read so that every escape prefix is the last byte of its read, any payload
without packet markers arrives. -/
theorem arrives_iff {dispatch : δ → σ → List UInt8 → σ × Int}
    (member : channel ∈ registry.channels) (raw : channel.packetized = false)
    (works : Works (dispatch channel.dest)) (world : σ) (payload : List UInt8) :
    ((∀ reads, CutOf reads (emitted (freshBridge registry) channel payload 0) →
        Arrives dispatch registry world channel payload reads) ↔
      ∀ byte ∈ payload, astNeedsEscape byte = false) ∧
    ∀ reads, CutOf reads (emitted (freshBridge registry) channel payload 0) →
      EscapesEnd reads (astChannelPrefix :: escapeByte channel.number)
        (payload.flatMap escapeByte) →
      (∀ byte ∈ payload, byte ≠ astSop ∧ byte ≠ astEopPrefix) →
      Arrives dispatch registry world channel payload reads := by
  have sufficient (reads : List (List UInt8))
      (cut : CutOf reads (emitted (freshBridge registry) channel payload 0))
      (ends : EscapesEnd reads (astChannelPrefix :: escapeByte channel.number)
        (payload.flatMap escapeByte))
      (unmarked : ∀ byte ∈ payload, byte ≠ astSop ∧ byte ≠ astEopPrefix) :
      Arrives dispatch registry world channel payload reads :=
    arrives_of_given works
      (header_serve member raw (cut.flatten.trans (emitted_raw raw payload)) ends unmarked).2
  refine ⟨⟨fun arrives => ?_, fun quiet reads cut => ?_⟩, sufficient⟩
  · refine Classical.byContradiction fun escaped => ?_
    obtain ⟨plain, byte, rest, rfl, quiet, special⟩ := exists_special escaped
    refine not_arrives_pairAlone member raw quiet special (arrives _ ?_)
    rw [emitted_raw raw]
    exact pairAlone_cut channel.number quiet special
  · refine sufficient reads cut (escapesEnd_plain reads _ quiet) fun byte inside => ?_
    have plain := ne_of_not_needsEscape (quiet byte inside)
    exact ⟨plain.1, plain.2.1⟩

def oneRaw : Registry Unit where
  channels := [⟨5, false, ()⟩]
  distinct := by decide

def takeAll (_ : Unit) (taken bytes : List UInt8) : List UInt8 × Int :=
  (taken ++ bytes, bytes.length)

def takeAllWorks : Works (takeAll ()) where
  rank := fun _ _ => 0
  step := fun taken byte rest _ _ => .inl ⟨by simp only [takeAll, List.length_cons]; omega,
    by simp [takeAll], trivial⟩

theorem arrives_iff_takeAll :
    ((∀ reads, CutOf reads (emitted (freshBridge oneRaw) ⟨5, false, ()⟩ [0x7c] 0) →
        Arrives takeAll oneRaw [] ⟨5, false, ()⟩ [0x7c] reads) ↔
      ∀ byte ∈ [(0x7c : UInt8)], astNeedsEscape byte = false) ∧
    ∀ reads, CutOf reads (emitted (freshBridge oneRaw) ⟨5, false, ()⟩ [0x7c] 0) →
      EscapesEnd reads (astChannelPrefix :: escapeByte 5) ([0x7c].flatMap escapeByte) →
      (∀ byte ∈ [(0x7c : UInt8)], byte ≠ astSop ∧ byte ≠ astEopPrefix) →
      Arrives takeAll oneRaw [] ⟨5, false, ()⟩ [0x7c] reads :=
  arrives_iff (.head _) rfl takeAllWorks [] [0x7c]

/-- The payload `7c`, read at once with its prefix sequence, arrives as `7d`. -/
theorem not_arrives_escaped :
    CutOf [[0x7c, 5, 0x7d, 0x5c]] (emitted (freshBridge oneRaw) ⟨5, false, ()⟩ [0x7c] 0) ∧
      ¬Arrives takeAll oneRaw [] ⟨5, false, ()⟩ [0x7c] [[0x7c, 5, 0x7d, 0x5c]] := by
  refine ⟨⟨by decide, by decide⟩, ?_⟩
  rintro ⟨fuel, final, log, ended, same⟩
  rw [deliver_taken ended] at same
  revert same
  decide

end PeridotSw.Bridge.RawChannel
