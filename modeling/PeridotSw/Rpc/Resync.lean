import PeridotSw.Rpc.PacketSink

/-!
# A packet after anything

A start of packet finds whatever earlier bytes have left behind.  It resets the offset, the
end mark and `inside_packet`; a job that was being filled is replaced with the fourth byte.
An escape prefix that is still open is the one thing that stays: it is applied to the first
byte of the packet, unless that byte is escaped itself.
-/

namespace PeridotSw.Rpc.Resync

open PeridotSw.Machine.Word
open PeridotSw.Stream.Ast
open PeridotSw.Stream.Encoding
open PeridotSw.Bridge.Source
open PeridotSw.Rpc.Sink
open PeridotSw.Rpc.SinkRun
open PeridotSw.Rpc.PacketSink

variable {cfg : Config} {malloc : Allocator}

/-- The sink takes the whole packet and has its payload as the pending job. -/
def Delivers (malloc : Allocator) (state : State) (payload : Payload cfg) : Prop :=
  let call := peridotRpcServerSink cfg malloc state payload.packet
  call.2 = payload.packet.length ∧
    ∃ job, call.1.1.pendingJob = some job ∧ jobPayload job = payload.bytes

/-- The last byte that is neither a start of packet nor an end mark is an escape prefix. -/
def OpenEscape (bytes : List UInt8) : Prop :=
  (bytes.filter fun byte => byte != astSop && byte != astEopPrefix).getLast? =
    some astEscapePrefix

instance (bytes : List UInt8) : Decidable (OpenEscape bytes) := by
  unfold OpenEscape
  infer_instance

/-! ## The escape prefix along a run -/

theorem finishByte_escapePrefix (state : State) :
    (finishByte state).1.escapePrefix = state.escapePrefix := by
  unfold finishByte
  split
  · rfl
  · split <;> rfl

theorem payloadByte_escapePrefix (state : State) (byte : UInt8) :
    (payloadByte cfg malloc state byte).1.escapePrefix = state.escapePrefix := by
  cases payloadCase state with
  | short low => rw [payloadByte_short low, finishByte_escapePrefix]; rfl
  | fourth last =>
      rw [payloadByte_fourth last, Outcome.andThen, finishByte_escapePrefix]
      obtain ⟨job, count, same⟩ := allocateJob_state cfg malloc (storeLengthByte state byte)
      rw [same]
      rfl
  | beyond high full => rw [payloadByte_beyond high full]; rfl
  | data high room job held =>
      rw [payloadByte_data high room held, Outcome.andThen, finishByte_escapePrefix]
      rfl
  | skip high room jobless => rw [payloadByte_skip high room jobless, finishByte_escapePrefix]

theorem openEscape_marker (bytes : List UInt8) {raw : UInt8}
    (marker : raw = astSop ∨ raw = astEopPrefix) :
    OpenEscape (bytes ++ [raw]) ↔ OpenEscape bytes := by
  unfold OpenEscape
  rcases marker with rfl | rfl <;> simp [List.filter_append]

theorem openEscape_other (bytes : List UInt8) {raw : UInt8} (notSop : raw ≠ astSop)
    (notEop : raw ≠ astEopPrefix) :
    OpenEscape (bytes ++ [raw]) ↔ raw = astEscapePrefix := by
  unfold OpenEscape
  simp [List.filter_append, notSop, notEop]

theorem sinkByte_escapePrefix {history : List UInt8} {state : State}
    (known : state.escapePrefix = true ↔ OpenEscape history) (raw : UInt8) :
    (sinkByte cfg malloc state raw).1.escapePrefix = true ↔ OpenEscape (history ++ [raw]) := by
  cases byteCase state raw with
  | sop marker =>
      rw [openEscape_marker history (.inl marker), marker]
      exact known
  | eop marker =>
      rw [openEscape_marker history (.inr marker), marker]
      exact known
  | escape marker =>
      rw [marker, openEscape_other history (by decide) (by decide)]
      exact iff_of_true rfl rfl
  | outside notSop notEop notEscape outside =>
      rw [sinkByte_outside notSop notEop notEscape outside,
        openEscape_other history notSop notEop]
      exact iff_of_false nofun notEscape
  | payload notSop notEop notEscape inside =>
      rw [sinkByte_payload notSop notEop notEscape inside, payloadByte_escapePrefix,
        openEscape_other history notSop notEop]
      exact iff_of_false nofun notEscape

/-- The flag says what the bytes taken so far end in. -/
theorem run_escapePrefix (cfg : Config) (malloc : Allocator) (actions : List Action) :
    (run cfg malloc initial actions).1.escapePrefix = true ↔
      OpenEscape (consumed (run cfg malloc initial actions).2) := by
  have rule : StepRule cfg malloc
      (fun history state => state.escapePrefix = true ↔ OpenEscape history)
      (fun _ _ => True) (fun _ _ => True) := {
    taken := fun _ _ => trivial
    exact := fun _ _ _ _ _ => iff_of_true trivial fun _ _ => trivial
    preserved := fun _ _ byte known _ _ => sinkByte_escapePrefix known byte
    service := by
      intro history state next job known taken
      obtain ⟨-, same⟩ := Option.ite_none_left_eq_some.mp taken
      cases same
      exact known }
  have start : initial.escapePrefix = true ↔ OpenEscape [] := iff_of_false nofun (by decide)
  have whole := rule.run [] start actions
  exact whole.2 (whole.1.mpr ((effectsHave_iff [] _).mpr fun _ _ _ _ => trivial))

/-! ## Steps of a packet -/

/-- The sink takes the whole stream and is then in the state `final`. -/
def Reaches (cfg : Config) (malloc : Allocator) (state : State) (stream : List UInt8)
    (final : State) : Prop :=
  (peridotRpcServerSink cfg malloc state stream).2 = stream.length ∧
    (peridotRpcServerSink cfg malloc state stream).1.1 = final

theorem reaches_nil (state : State) : Reaches cfg malloc state [] state := ⟨rfl, rfl⟩

theorem reaches_cons {state final : State} {byte : UInt8} {rest : List UInt8}
    (free : state.pendingJob = none)
    (later : Reaches cfg malloc (sinkByte cfg malloc state byte).1 rest final) :
    Reaches cfg malloc state (byte :: rest) final := by
  unfold Reaches
  rw [peridotRpcServerSink, free]
  exact ⟨congrArg (· + 1) later.1, later.2⟩

theorem sinkByte_escaped {state : State} {byte : UInt8} (inside : state.insidePacket = true)
    (special : astNeedsEscape byte = true) :
    sinkByte cfg malloc (sinkByte cfg malloc state astEscapePrefix).1 (byte ^^^ astEscapeXor) =
      payloadByte cfg malloc (unescaped state) byte := by
  obtain ⟨notSop, notEop, -, notEscape⟩ :=
    ne_of_not_needsEscape (xor_escape_not_marker special)
  have inside' : (sinkByte cfg malloc state astEscapePrefix).1.insidePacket = true := inside
  rw [sinkByte_payload notSop notEop notEscape inside', sinkByte_escape, unescape, if_pos rfl,
    xor_escape_xor]
  rfl

theorem sinkByte_escaped_outside {state : State} {byte : UInt8}
    (outside : state.insidePacket = false) (special : astNeedsEscape byte = true) :
    sinkByte cfg malloc (sinkByte cfg malloc state astEscapePrefix).1 (byte ^^^ astEscapeXor) =
      (unescaped state, []) := by
  obtain ⟨notSop, notEop, -, notEscape⟩ :=
    ne_of_not_needsEscape (xor_escape_not_marker special)
  have outside' : (sinkByte cfg malloc state astEscapePrefix).1.insidePacket = false := outside
  rw [sinkByte_outside notSop notEop notEscape outside']
  rfl

/-- A data byte of the packet, escaped or not, arrives. -/
theorem reaches_escapeByte {state final : State} {byte : UInt8} {rest : List UInt8}
    (free : state.pendingJob = none) (inside : state.insidePacket = true)
    (clean : state.escapePrefix = false ∨ astNeedsEscape byte = true)
    (later : Reaches cfg malloc (payloadByte cfg malloc (unescaped state) byte).1 rest final) :
    Reaches cfg malloc state (escapeByte byte ++ rest) final := by
  unfold escapeByte
  cases special : astNeedsEscape byte with
  | true =>
      refine reaches_cons free (reaches_cons free ?_)
      rw [sinkByte_escaped inside special]
      exact later
  | false =>
      obtain ⟨notSop, notEop, -, notEscape⟩ := ne_of_not_needsEscape special
      have closed : state.escapePrefix = false := by
        rw [special] at clean
        simpa using clean
      refine reaches_cons free ?_
      rw [sinkByte_payload notSop notEop notEscape inside, closed]
      exact later

/-- A plain byte behind an open escape prefix. -/
theorem reaches_flipped {state final : State} {byte : UInt8} {rest : List UInt8}
    (free : state.pendingJob = none) (inside : state.insidePacket = true)
    (opened : state.escapePrefix = true) (plain : astNeedsEscape byte = false)
    (later : Reaches cfg malloc
      (payloadByte cfg malloc (unescaped state) (byte ^^^ astEscapeXor)).1 rest final) :
    Reaches cfg malloc state (escapeByte byte ++ rest) final := by
  obtain ⟨notSop, notEop, -, notEscape⟩ := ne_of_not_needsEscape plain
  unfold escapeByte
  rw [plain]
  refine reaches_cons free ?_
  rw [sinkByte_payload notSop notEop notEscape inside, opened]
  exact later

theorem reaches_outside {state final : State} {byte : UInt8} {rest : List UInt8}
    (free : state.pendingJob = none) (outside : state.insidePacket = false)
    (later : Reaches cfg malloc (unescaped state) rest final) :
    Reaches cfg malloc state (escapeByte byte ++ rest) final := by
  unfold escapeByte
  cases special : astNeedsEscape byte with
  | true =>
      refine reaches_cons free (reaches_cons free ?_)
      rw [sinkByte_escaped_outside outside special]
      exact later
  | false =>
      obtain ⟨notSop, notEop, -, notEscape⟩ := ne_of_not_needsEscape special
      refine reaches_cons free ?_
      rw [sinkByte_outside notSop notEop notEscape outside]
      exact later

/-! ## The first four bytes -/

/-- The state without the job that an earlier packet has left. -/
def forget (state : State) : State := { state with incomingJob := none }

/-- Up to three bytes have been stored since the start of the packet. -/
structure Opening (state : State) (payload : Payload cfg) (stored : List UInt8) : Prop where
  filling : Filling (forget state) payload stored
  open' : state.eopPrefix = false
  free : state.pendingJob = none

variable {state : State} {payload : Payload cfg} {stored before after : List UInt8} {byte : UInt8}

theorem Opening.inside (opening : Opening state payload stored) : state.insidePacket = true :=
  opening.filling.inside

theorem Opening.unescaped (opening : Opening state payload stored) :
    Opening (unescaped state) payload stored :=
  ⟨opening.filling.frame rfl, opening.open', opening.free⟩

theorem opening_sop (free : state.pendingJob = none) :
    Opening (sinkByte cfg malloc state astSop).1 payload [] := by
  refine ⟨⟨rfl, rfl, fun _ => ⟨rfl, fun _ bound => absurd bound (Nat.not_lt_zero _)⟩,
    fun high => absurd high (by decide)⟩, rfl, free⟩

/-- What is left of an earlier packet does not matter for the first three bytes. -/
theorem forget_short (low : state.offset < 3) (opened : state.eopPrefix = false) :
    (payloadByte cfg malloc (forget state) byte).1 =
      forget (payloadByte cfg malloc state byte).1 := by
  have low' : (forget state).offset < 3 := low
  have opened' : (storeLengthByte state byte).eopPrefix = false := opened
  have forgotten : (storeLengthByte (forget state) byte).eopPrefix = false := opened
  rw [payloadByte_short low, payloadByte_short low', finishByte_open opened',
    finishByte_open forgotten]
  rfl

theorem Opening.next (opening : Opening state payload stored) (low : stored.length < 3)
    (byte : UInt8) :
    Opening (payloadByte cfg malloc state byte).1 payload (stored ++ [byte]) := by
  have offset : state.offset < 3 := by
    have here : state.offset = stored.length := opening.filling.offset
    omega
  have filled : Filling (payloadByte cfg malloc (forget state) byte).1 payload
        (stored ++ [byte]) ∧
      SameOutside (forget state) (payloadByte cfg malloc (forget state) byte).1 :=
    fill_short opening.filling low opening.open'
  rw [forget_short offset opening.open'] at filled
  obtain ⟨filled, same⟩ := filled
  exact ⟨filled, same.eop.trans opening.open', same.pending.trans opening.free⟩

/-- The fourth byte replaces the job that is left by a new one. -/
theorem forget_fourth (last : state.offset = 3)
    (fits : signed (storeLengthByte state byte).lengthWord ≤ cfg.maxRequestLength)
    (mallocs : ∀ count size, (malloc count size).isSome) :
    payloadByte cfg malloc (forget state) byte = payloadByte cfg malloc state byte := by
  have forgotten : signed (storeLengthByte (forget state) byte).lengthWord ≤
      cfg.maxRequestLength := fits
  have same : allocateJob cfg malloc (storeLengthByte (forget state) byte) =
      allocateJob cfg malloc (storeLengthByte state byte) := by
    unfold allocateJob
    rw [if_pos fits, if_pos forgotten]
    obtain ⟨block, found⟩ := Option.isSome_iff_exists.mp (mallocs state.mallocs
      (unsigned (sizeofRpcsrvJob + signed (storeLengthByte state byte).lengthWord)))
    have found' : malloc (storeLengthByte state byte).mallocs
        (unsigned (sizeofRpcsrvJob + signed (storeLengthByte state byte).lengthWord)) =
          some block := found
    dsimp only
    rw [found']
    have again : malloc (storeLengthByte (forget state) byte).mallocs
        (unsigned (sizeofRpcsrvJob +
          signed (storeLengthByte (forget state) byte).lengthWord)) = some block := found
    rw [again]
    rfl
  have last' : (forget state).offset = 3 := last
  rw [payloadByte_fourth last, payloadByte_fourth last', same]

theorem Opening.fourth {malloc : Allocator} (opening : Opening state payload before)
    (last : before.length = 3)
    (bytes : payload.bytes = before ++ byte :: after)
    (mallocs : ∀ count size, (malloc count size).isSome) :
    Filling (payloadByte cfg malloc state byte).1 payload (before ++ [byte]) ∧
      SameOutside state (payloadByte cfg malloc state byte).1 := by
  obtain ⟨length, -⟩ := lengthWord_fourth opening.filling last bytes
  have fits : signed (storeLengthByte state byte).lengthWord ≤ cfg.maxRequestLength := by
    have same : (storeLengthByte state byte).lengthWord = payload.bytes.length := length
    rw [same, signed_eq_of_lt payload.length_lt]
    exact_mod_cast payload.fits
  have offset : state.offset = 3 := opening.filling.offset.trans last
  have filled : Filling (payloadByte cfg malloc (forget state) byte).1 payload
        (before ++ [byte]) ∧
      SameOutside (forget state) (payloadByte cfg malloc (forget state) byte).1 :=
    fill_fourth opening.filling last bytes opening.open' mallocs
  rw [forget_fourth offset fits mallocs] at filled
  exact ⟨filled.1, filled.2.escape, filled.2.eop, filled.2.pending, filled.2.sem⟩

theorem reaches_second_third (cfg : Config) (malloc : Allocator) {payload : Payload cfg}
    {first : UInt8} (second third : UInt8) (opening : Opening state payload [first])
    (closed : state.escapePrefix = false) :
    ∃ middle, Opening middle payload [first, second, third] ∧ middle.escapePrefix = false ∧
      ∀ rest final, Reaches cfg malloc middle rest final →
        Reaches cfg malloc state (escapeByte second ++ (escapeByte third ++ rest)) final := by
  let between := (payloadByte cfg malloc (unescaped state) second).1
  have opening' : Opening between payload [first, second] :=
    opening.unescaped.next (by simp) second
  have closed' : between.escapePrefix = false := payloadByte_escapePrefix _ _
  refine ⟨(payloadByte cfg malloc (unescaped between) third).1,
    opening'.unescaped.next (by simp) third, payloadByte_escapePrefix _ _, ?_⟩
  intro rest final later
  exact reaches_escapeByte opening.free opening.inside (.inl closed)
    (reaches_escapeByte opening'.free opening'.inside (.inl closed') later)

/-! ## A packet that is read right -/

/-- Behind the length the bytes go where they belong. -/
theorem reaches_filled (mallocs : ∀ count size, (malloc count size).isSome)
    (filling : Filling state payload before) (closed : state.escapePrefix = false)
    (opened : state.eopPrefix = false) (free : state.pendingJob = none)
    (more : after ≠ []) (bytes : payload.bytes = before ++ after) :
    ∃ final job, Reaches cfg malloc state (encodeBytes true after) final ∧
      final.pendingJob = some job ∧ jobPayload job = payload.bytes := by
  induction after generalizing state before with
  | nil => exact absurd rfl more
  | cons byte after ih =>
      cases after with
      | nil =>
          rw [encodeBytes_singleton]
          have marked : Filling (unescaped { state with eopPrefix := true }) payload before :=
            filling.frame rfl
          obtain ⟨job, holds, pending, -⟩ := fill_last malloc marked bytes rfl
          refine ⟨_, job, reaches_cons free ?_, pending, holds⟩
          rw [sinkByte_eop, ← List.append_nil (escapeByte byte)]
          exact reaches_escapeByte free filling.inside (.inl closed) (reaches_nil _)
      | cons next after =>
          rw [encodeBytes_cons_cons]
          have unescaped' : Filling (unescaped state) payload before := filling.frame rfl
          obtain ⟨filled, same⟩ := fill_more unescaped' bytes opened mallocs
          obtain ⟨final, job, later, pending, holds⟩ := ih filled same.escape
            (same.eop.trans opened) (same.pending.trans free) (List.cons_ne_nil _ _)
            (by rw [bytes, List.append_assoc]; rfl)
          exact ⟨final, job, reaches_escapeByte free filling.inside (.inl closed) later,
            pending, holds⟩

/-! ## A packet that is read wrong -/

/-- The sink has dropped the packet, or believes in another length. -/
structure Misread (state : State) (payload : Payload cfg) (count : Nat) : Prop where
  closed : state.escapePrefix = false
  free : state.pendingJob = none
  wrong : state.insidePacket = true →
    state.eopPrefix = false ∧ state.lengthWord ≠ payload.bytes.length ∧ 4 ≤ state.offset ∧
      (state.offset = count ∨ state.incomingJob = none)

theorem Misread.outside {next : State} {count later : Nat} (misread : Misread state payload count)
    (escape : next.escapePrefix = false) (pending : next.pendingJob = state.pendingJob)
    (outside : next.insidePacket = false) : Misread next payload later where
  closed := escape
  free := pending.trans misread.free
  wrong inside := by
    rw [outside] at inside
    cases inside

theorem Misread.next {count : Nat} (misread : Misread state payload count)
    (inside : state.insidePacket = true) (byte : UInt8) :
    Misread (payloadByte cfg malloc (unescaped state) byte).1 payload (count + 1) := by
  obtain ⟨opened, length, high, place⟩ := misread.wrong inside
  have high' : 4 ≤ (unescaped state).offset := high
  have opened' : (unescaped state).eopPrefix = false := opened
  rcases payloadCase (unescaped state) with low | last | ⟨-, full⟩ | ⟨-, room, job, held⟩ |
    ⟨-, room, jobless⟩
  · omega
  · omega
  · rw [payloadByte_beyond high' full]
    exact misread.outside rfl rfl rfl
  · rw [payloadByte_data high' room held, Outcome.andThen, finishByte_open (by exact opened)]
    refine ⟨rfl, misread.free, fun _ => ⟨opened, length, ?_, .inl ?_⟩⟩
    · exact Nat.le_succ_of_le high
    · rcases place with here | jobless
      · exact congrArg (· + 1) here
      · exact absurd (held.symm.trans jobless) (Option.some_ne_none job)
  · rw [payloadByte_skip high' room jobless, finishByte_open opened']
    exact ⟨rfl, misread.free, fun _ => ⟨opened, length, high, .inr jobless⟩⟩

/-- The last byte: the offset is not the length that was read. -/
theorem Misread.last {count : Nat} (misread : Misread state payload count)
    (inside : state.insidePacket = true) (last : count + 1 = payload.bytes.length)
    (byte : UInt8) :
    (payloadByte cfg malloc (unescaped { state with eopPrefix := true }) byte).1.pendingJob =
      none := by
  obtain ⟨opened, length, high, place⟩ := misread.wrong inside
  have drops {ended : State} (marked : ended.eopPrefix = true)
      (differs : ended.offset ≠ ended.lengthWord) (pending : ended.pendingJob = none) :
      (finishByte ended).1.pendingJob = none := by
    rw [finishByte, if_neg (by rw [marked]; decide), if_pos differs]
    exact pending
  have high' : 4 ≤ (unescaped { state with eopPrefix := true }).offset := high
  rcases payloadCase (unescaped { state with eopPrefix := true }) with low | last' |
    ⟨-, full⟩ | ⟨-, room, job, held⟩ | ⟨-, room, jobless⟩
  · omega
  · omega
  · rw [payloadByte_beyond high' full]
    exact misread.free
  · rw [payloadByte_data high' room held]
    refine drops rfl ?_ misread.free
    rcases place with here | jobless
    · intro same
      have complete : state.offset + 1 = state.lengthWord := same
      omega
    · exact absurd (held.symm.trans jobless) (Option.some_ne_none job)
  · rw [payloadByte_skip high' room jobless]
    exact drops rfl (Nat.ne_of_lt room) misread.free

/-- Nothing is published by the rest of such a packet. -/
theorem reaches_misread {count : Nat} (misread : Misread state payload count)
    (size : count + after.length = payload.bytes.length) (more : after ≠ []) :
    ∃ final, Reaches cfg malloc state (encodeBytes true after) final ∧
      final.pendingJob = none := by
  induction after generalizing state count with
  | nil => exact absurd rfl more
  | cons byte after ih =>
      rw [List.length_cons] at size
      cases after with
      | nil =>
          rw [encodeBytes_singleton, ← List.append_nil (escapeByte byte)]
          cases inside : state.insidePacket with
          | true =>
              refine ⟨_, reaches_cons misread.free (reaches_escapeByte misread.free inside
                (.inl misread.closed) (reaches_nil _)), ?_⟩
              exact misread.last inside size byte
          | false =>
              exact ⟨_, reaches_cons misread.free
                (reaches_outside misread.free inside (reaches_nil _)), misread.free⟩
      | cons next after =>
          rw [encodeBytes_cons_cons]
          have size' : count + 1 + (next :: after).length = payload.bytes.length := by omega
          cases inside : state.insidePacket with
          | true =>
              obtain ⟨final, later, unpublished⟩ :=
                ih (misread.next inside byte) size' (List.cons_ne_nil _ _)
              exact ⟨final, reaches_escapeByte misread.free inside (.inl misread.closed) later,
                unpublished⟩
          | false =>
              have same : Misread (unescaped state) payload (count + 1) :=
                misread.outside rfl rfl inside
              obtain ⟨final, later, unpublished⟩ := ih same size' (List.cons_ne_nil _ _)
              exact ⟨final, reaches_outside misread.free inside later, unpublished⟩

/-- The fourth byte behind a first byte that has been changed. -/
theorem misread_fourth (malloc : Allocator) {wrong first second third fourth : UInt8}
    (opening : Opening state payload [wrong, second, third])
    (bytes : payload.bytes = [first, second, third, fourth] ++ after) (differs : wrong ≠ first) :
    Misread (payloadByte cfg malloc (unescaped state) fourth).1 payload 4 := by
  have offset : (unescaped state).offset = 3 := opening.filling.offset
  obtain ⟨-, stored⟩ := opening.filling.start (by simp)
  have length : (storeLengthByte (unescaped state) fourth).lengthWord =
      le32 wrong second third fourth := by
    have b0 : state.length 0 = wrong := stored 0 (by simp)
    have b1 : state.length 1 = second := stored 1 (by simp)
    have b2 : state.length 2 = third := stored 2 (by simp)
    simp only [State.lengthWord, storeLengthByte, offset]
    change le32 (state.length 0) (state.length 1) (state.length 2) fourth = _
    rw [b0, b1, b2]
  have opened : (allocateJob cfg malloc (storeLengthByte (unescaped state) fourth)).1.eopPrefix =
      false := by
    rw [allocateJob_eopPrefix]
    exact opening.open'
  rw [payloadByte_fourth offset, Outcome.andThen, finishByte_open opened]
  obtain ⟨job, count, same⟩ :=
    allocateJob_state cfg malloc (storeLengthByte (unescaped state) fourth)
  rw [same]
  refine ⟨rfl, opening.free, fun _ => ⟨opening.open', ?_, ?_, .inl ?_⟩⟩
  · intro equal
    have word : le32 wrong second third fourth = payload.bytes.length := length.symm.trans equal
    have declared := payload.declared
    rw [← word, bytes32_le32, bytes] at declared
    exact differs (List.cons.inj declared).1.symm
  · exact Nat.le_of_eq (congrArg (· + 1) offset.symm)
  · exact congrArg (· + 1) offset

/-! ## Packets behind any stream -/

/-- A request begins with the four bytes of its length and has more. -/
theorem Payload.split (payload : Payload cfg) :
    ∃ first second third fourth rest, rest ≠ [] ∧
      payload.bytes = [first, second, third, fourth] ++ rest := by
  have long := payload.long
  match bytes : payload.bytes with
  | [] | [_] | [_, _] | [_, _, _] | [_, _, _, _] =>
      rw [bytes] at long
      simp at long
  | first :: second :: third :: fourth :: fifth :: rest =>
      exact ⟨first, second, third, fourth, fifth :: rest, List.cons_ne_nil _ _, rfl⟩

theorem Payload.packet_eq {first second third fourth : UInt8} {rest : List UInt8}
    (more : rest ≠ []) (bytes : payload.bytes = [first, second, third, fourth] ++ rest) :
    payload.packet = astSop :: (escapeByte first ++ (escapeByte second ++
      (escapeByte third ++ (escapeByte fourth ++ encodeBytes true rest)))) := by
  obtain ⟨fifth, rest, rfl⟩ := List.exists_cons_of_ne_nil more
  rw [Payload.packet, packetBytes, bytes]
  simp only [List.cons_append, List.nil_append, encodeBytes_cons_cons]

theorem Reaches.delivers_iff {final : State}
    (reaches : Reaches cfg malloc state payload.packet final) :
    Delivers malloc state payload ↔
      ∃ job, final.pendingJob = some job ∧ jobPayload job = payload.bytes := by
  unfold Delivers
  dsimp only
  rw [reaches.1, reaches.2]
  exact and_iff_right rfl

theorem delivers_of_clean (mallocs : ∀ count size, (malloc count size).isSome)
    (free : state.pendingJob = none)
    (clean : state.escapePrefix = false ∨ astNeedsEscape (payload.bytes.headD 0) = true) :
    Delivers malloc state payload := by
  obtain ⟨first, second, third, fourth, rest, more, bytes⟩ := Payload.split payload
  rw [bytes, List.cons_append, List.headD_cons] at clean
  let start := (sinkByte cfg malloc state astSop).1
  have opening : Opening start payload [] := opening_sop free
  have stored : Opening (payloadByte cfg malloc (unescaped start) first).1 payload [first] :=
    opening.unescaped.next (by simp) first
  obtain ⟨middle, opening', closed, continues⟩ :=
    reaches_second_third cfg malloc second third stored (payloadByte_escapePrefix _ _)
  obtain ⟨filling, same⟩ := opening'.unescaped.fourth (by simp) bytes mallocs
  obtain ⟨final, job, later, holds⟩ := reaches_filled mallocs filling same.escape
    (same.eop.trans opening'.open') (same.pending.trans opening'.free) more bytes
  have reaches : Reaches cfg malloc state payload.packet final := by
    rw [Payload.packet_eq more bytes]
    exact reaches_cons free (reaches_escapeByte free rfl clean (continues _ _
      (reaches_escapeByte opening'.free opening'.inside (.inl closed) later)))
  exact reaches.delivers_iff.mpr ⟨job, holds⟩

theorem not_delivers_of_flipped (malloc : Allocator) (free : state.pendingJob = none)
    (opened : state.escapePrefix = true)
    (plain : astNeedsEscape (payload.bytes.headD 0) = false) :
    ¬Delivers malloc state payload := by
  obtain ⟨first, second, third, fourth, rest, more, bytes⟩ := Payload.split payload
  rw [bytes, List.cons_append, List.headD_cons] at plain
  let start := (sinkByte cfg malloc state astSop).1
  have opening : Opening start payload [] := opening_sop free
  have stored : Opening (payloadByte cfg malloc (unescaped start) (first ^^^ astEscapeXor)).1
      payload [first ^^^ astEscapeXor] := opening.unescaped.next (by simp) _
  obtain ⟨middle, opening', closed, continues⟩ :=
    reaches_second_third cfg malloc second third stored (payloadByte_escapePrefix _ _)
  have size : 4 + rest.length = payload.bytes.length := by
    rw [bytes, List.length_append]
    rfl
  obtain ⟨final, later, unpublished⟩ :=
    reaches_misread (misread_fourth malloc opening' bytes (xor_escape_ne first)) size more
  have reaches : Reaches cfg malloc state payload.packet final := by
    rw [Payload.packet_eq more bytes]
    exact reaches_cons free (reaches_flipped free rfl opened plain (continues _ _
      (reaches_escapeByte opening'.free opening'.inside (.inl closed) later)))
  rw [reaches.delivers_iff]
  rintro ⟨job, pending, -⟩
  rw [unpublished] at pending
  cases pending

/-- Behind any run that leaves no job pending, a packet is delivered exactly when no escape
prefix is open or its first byte travels escaped. -/
theorem delivers_iff_not_openEscape {cfg : Config} (earlier : Allocator) (actions : List Action)
    (free : (run cfg earlier initial actions).1.pendingJob = none) {malloc : Allocator}
    (mallocs : ∀ count size, (malloc count size).isSome) (payload : Payload cfg) :
    Delivers malloc (run cfg earlier initial actions).1 payload ↔
      ¬OpenEscape (consumed (run cfg earlier initial actions).2) ∨
        astNeedsEscape (payload.bytes.headD 0) = true := by
  rw [← run_escapePrefix, Bool.not_eq_true]
  constructor
  · intro delivers
    by_contra flipped
    rw [not_or, Bool.not_eq_false, Bool.not_eq_true] at flipped
    exact not_delivers_of_flipped malloc free flipped.1 flipped.2 delivers
  · exact delivers_of_clean mallocs free

def shortestRequest : Payload defaultConfig := shortestPayload

theorem delivers_iff_truncated :
    Delivers (fun _ _ => some fun _ => 0)
        (run defaultConfig (fun _ _ => none) initial [.sink [astSop, 1, 2]]).1 shortestRequest ↔
      ¬OpenEscape [astSop, 1, 2] ∨ astNeedsEscape 5 = true :=
  delivers_iff_not_openEscape (fun _ _ => none) [.sink [astSop, 1, 2]] rfl (fun _ _ => rfl)
    shortestRequest

/-- A lone escape prefix before the packet. -/
theorem delivers_fails :
    ¬∀ (cfg : Config) (earlier malloc : Allocator) (actions : List Action)
      (payload : Payload cfg), (run cfg earlier initial actions).1.pendingJob = none →
        (∀ count size, (malloc count size).isSome) →
          Delivers malloc (run cfg earlier initial actions).1 payload := by
  intro all
  have delivers := all defaultConfig (fun _ _ => none) (fun _ _ => some fun _ => 0)
    [.sink [astEscapePrefix]] shortestRequest rfl fun _ _ => rfl
  obtain ⟨-, job, pending, -⟩ := delivers
  cases pending

end PeridotSw.Rpc.Resync
