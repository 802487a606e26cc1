import PeridotSw.Machine.Memory
import PeridotSw.Machine.Noted
import PeridotSw.Bridge.Source

/-!
# The staging buffer of the source side

`peridot_sw_hostbridge_gen2_source` taken step by step, with the bytes it reads from the
payload, its stores to the staging buffer and its calls of `write_to_host`.  The fill level is
compared with `WRITE_BUFFER_LEN` once for every source byte, which is then stored as three bytes
at most; the buffer is two bytes longer than that.
-/

namespace PeridotSw.Bridge.Staging

open PeridotSw.Machine.Memory
open PeridotSw.Machine.Noted
open PeridotSw.Stream.Ast
open PeridotSw.Stream.Encoding
open PeridotSw.Bridge.Channel
open PeridotSw.Bridge.Source

/-! ## Steps -/

/-- `*src` at an offset from `ptr`, a store to the staging buffer, or a call of
`write_to_host`. -/
inductive Effect where
  | load (offset : Nat)
  | store (index : Nat) (byte : UInt8)
  | writeToHost (block : List UInt8)

/-- In front of the channel prefix, at the raw write, at the head of either loop, or behind
them. -/
inductive Place where
  | select
  | raw
  | outer
  | inner
  | past
  deriving DecidableEq

/-- The bridge and the variables of the call; `src` is counted from `ptr`. -/
structure Locals (δ : Type) where
  place : Place
  state : BridgeState δ
  buffer : Mem
  writeLen : Nat
  packetize : Int
  src : Nat
  len : Int

variable {δ : Type}

def Locals.staged (locals : Locals δ) : List UInt8 := slice locals.buffer 0 locals.writeLen

def Locals.unread (ptr : Mem) (locals : Locals δ) : List UInt8 :=
  slice ptr locals.src locals.len.toNat

/-- `buffer[write_len++] = byte`. -/
def put (byte : UInt8) (locals : Locals δ) : Noting Effect (Locals δ) := do
  Noting.note (.store locals.writeLen byte)
  pure { locals with
    buffer := write locals.buffer locals.writeLen [byte]
    writeLen := locals.writeLen + 1 }

/-- The marker in front of the last byte of a packet. -/
def putEop (locals : Locals δ) : Noting Effect (Locals δ) :=
  if locals.packetize ≠ 0 ∧ locals.len = 1 then put astEopPrefix locals else pure locals

/-- A source byte, escaped if need be. -/
def putByte (byte : UInt8) (locals : Locals δ) : Noting Effect (Locals δ) :=
  if astNeedsEscape byte then do
    let escaped ← put astEscapePrefix locals
    put (byte ^^^ astEscapeXor) escaped
  else
    put byte locals

/-- The body of the inner loop. -/
def passByte (ptr : Mem) (locals : Locals δ) : Noting Effect (Locals δ) := do
  Noting.note (.load locals.src)
  let marked ← putEop { locals with src := locals.src + 1 }
  let stored ← putByte (ptr locals.src) marked
  pure { stored with len := stored.len - 1 }

/-- The channel prefix, when the channel changes or a reset is asked for. -/
def selectChannel (channel : HostbridgeChannel δ) (flags : Nat) (locals : Locals δ) :
    Noting Effect (Locals δ) :=
  if (channel.number.toNat : Int) ≠ locals.state.sourceChannelNumber ∨
      flags &&& hostbridgeGen2SourceReset ≠ 0 then do
    Noting.note (.writeToHost (channelPrefixBytes channel.number))
    pure { locals with
      state := { locals.state with sourceChannelNumber := channel.number.toNat } }
  else
    pure locals

/-- The choice between the raw write and the loops. -/
def select (channel : HostbridgeChannel δ) (flags : Nat) (locals : Locals δ) :
    Noting Effect (Locals δ) := do
  let selected ← selectChannel channel flags locals
  pure { selected with
    place := if channel.packetized ∧ selected.packetize = 0 then .raw else .outer }

/-- Another turn of the outer loop up to the inner one, or the end. -/
def turn (locals : Locals δ) : Noting Effect (Locals δ) :=
  if 0 < locals.len then
    let started := { locals with place := .inner, writeLen := 0 }
    if 0 < locals.packetize then do
      let marked ← put astSop started
      pure { marked with packetize := -1 }
    else
      pure started
  else
    pure { locals with place := .past }

/-- Another turn of the inner loop, or the staged block and back to the outer one. -/
def fill (ptr : Mem) (locals : Locals δ) : Noting Effect (Locals δ) :=
  if locals.writeLen < writeBufferLen ∧ 0 < locals.len then
    passByte ptr locals
  else do
    Noting.note (.writeToHost locals.staged)
    pure { locals with place := .outer }

/-- A step of `peridot_sw_hostbridge_gen2_source`. -/
def step (channel : HostbridgeChannel δ) (ptr : Mem) (flags : Nat) (locals : Locals δ) :
    Noting Effect (Locals δ) :=
  match locals.place with
  | .select => select channel flags locals
  | .raw => do
      Noting.note (.writeToHost (locals.unread ptr))
      pure { locals with place := .past }
  | .outer => turn locals
  | .inner => fill ptr locals
  | .past => pure locals

def enter (state : BridgeState δ) (buffer : Mem) (len : Int) (flags : Nat) : Locals δ where
  place := .select
  state := state
  buffer := buffer
  writeLen := 0
  packetize := if flags &&& hostbridgeGen2SourcePacketized ≠ 0 then 1 else 0
  src := 0
  len := len

def callSteps (channel : HostbridgeChannel δ) (ptr : Mem) (flags : Nat) (state : BridgeState δ)
    (buffer : Mem) (len : Int) (count : Nat) : Noting Effect (Locals δ) :=
  Noting.repeated (step channel ptr flags) count (enter state buffer len flags)

def Effect.offset? : Effect → Option Nat
  | .load offset => some offset
  | _ => none

def Effect.block? : Effect → Option (List UInt8)
  | .writeToHost block => some block
  | _ => none

/-! ## Stores -/

def storesFrom : Nat → List UInt8 → List Effect
  | _, [] => []
  | index, byte :: rest => .store index byte :: storesFrom (index + 1) rest

theorem storesFrom_append (index : Nat) (front back : List UInt8) :
    storesFrom index (front ++ back) =
      storesFrom index front ++ storesFrom (index + front.length) back := by
  induction front generalizing index with
  | nil => rfl
  | cons byte rest ih =>
      rw [List.cons_append, storesFrom, ih, storesFrom, List.cons_append, List.length_cons,
        Nat.add_right_comm, Nat.add_assoc]

theorem offsets_storesFrom (index : Nat) (bytes : List UInt8) :
    (storesFrom index bytes).filterMap Effect.offset? = [] := by
  induction bytes generalizing index with
  | nil => rfl
  | cons byte rest ih => exact ih (index + 1)

theorem blocks_storesFrom (index : Nat) (bytes : List UInt8) :
    (storesFrom index bytes).filterMap Effect.block? = [] := by
  induction bytes generalizing index with
  | nil => rfl
  | cons byte rest ih => exact ih (index + 1)

/-- The bytes are stored behind what is staged, and nothing else is done. -/
structure Puts (bytes : List UInt8) (before : Locals δ) (result : Noting Effect (Locals δ)) :
    Prop where
  effects : result.notes = storesFrom before.writeLen bytes
  staged : result.value.staged = before.staged ++ bytes
  writeLen : result.value.writeLen = before.writeLen + bytes.length
  others : { result.value with buffer := before.buffer, writeLen := before.writeLen } = before

theorem puts_pure (before : Locals δ) : Puts [] before (pure before) where
  effects := rfl
  staged := (List.append_nil _).symm
  writeLen := rfl
  others := rfl

theorem puts_put (byte : UInt8) (before : Locals δ) : Puts [byte] before (put byte before) where
  effects := rfl
  staged := by
    have longer := slice_write_end before.buffer 0 before.writeLen byte
    rw [Nat.zero_add] at longer
    exact longer
  writeLen := rfl
  others := rfl

theorem Puts.bind {front back : List UInt8} {before : Locals δ}
    {first : Noting Effect (Locals δ)} {rest : Locals δ → Noting Effect (Locals δ)}
    (here : Puts front before first) (later : Puts back first.value (rest first.value)) :
    Puts (front ++ back) before (first >>= rest) where
  effects := by
    rw [Noting.notes_bind, here.effects, later.effects, here.writeLen, storesFrom_append]
  staged := by
    rw [Noting.value_bind, later.staged, here.staged, List.append_assoc]
  writeLen := by
    rw [Noting.value_bind, later.writeLen, here.writeLen, List.length_append, Nat.add_assoc]
  others :=
    (congrArg (fun locals : Locals δ =>
      { locals with buffer := before.buffer, writeLen := before.writeLen }) later.others).trans
        here.others

theorem puts_putEop (before : Locals δ) :
    Puts (if before.packetize ≠ 0 ∧ before.len = 1 then [astEopPrefix] else []) before
      (putEop before) := by
  unfold putEop
  split
  · exact puts_put _ _
  · exact puts_pure _

theorem puts_putByte (byte : UInt8) (before : Locals δ) :
    Puts (escapeByte byte) before (putByte byte before) := by
  unfold escapeByte putByte
  split
  · exact .bind (puts_put _ _) (puts_put _ _)
  · exact puts_put _ _

def stagedAs (locals : Locals δ) (byte : UInt8) : List UInt8 :=
  (if locals.packetize ≠ 0 ∧ locals.len = 1 then [astEopPrefix] else []) ++ escapeByte byte

theorem length_stagedAs (locals : Locals δ) (byte : UInt8) :
    0 < (stagedAs locals byte).length ∧ (stagedAs locals byte).length ≤ 3 := by
  unfold stagedAs escapeByte
  split <;> split <;> simp

/-- What a pass of the inner loop does. -/
structure Passed (ptr : Mem) (before : Locals δ) (result : Noting Effect (Locals δ)) : Prop where
  effects : result.notes =
    .load before.src :: storesFrom before.writeLen (stagedAs before (ptr before.src))
  staged : result.value.staged = before.staged ++ stagedAs before (ptr before.src)
  writeLen : result.value.writeLen = before.writeLen + (stagedAs before (ptr before.src)).length
  src : result.value.src = before.src + 1
  len : result.value.len = before.len - 1
  packetize : result.value.packetize = before.packetize
  place : result.value.place = before.place
  state : result.value.state = before.state

theorem passed_passByte (ptr : Mem) (before : Locals δ) :
    Passed ptr before (passByte ptr before) := by
  have puts := Puts.bind (puts_putEop { before with src := before.src + 1 })
    (puts_putByte (ptr before.src) _)
  have effects := puts.effects
  have others := puts.others
  rw [Noting.notes_bind] at effects
  exact
    { effects := by
        simp only [passByte, Noting.notes_bind, Noting.notes_note, Noting.notes_pure,
          List.append_nil, effects]
        rfl
      staged := puts.staged
      writeLen := puts.writeLen
      src := (congrArg Locals.src others :)
      len := (congrArg (fun locals => locals.len - 1) others :)
      packetize := (congrArg Locals.packetize others :)
      place := (congrArg Locals.place others :)
      state := (congrArg Locals.state others :) }

/-- What a turn of the outer loop puts in front of the first block of a packet. -/
def opening (locals : Locals δ) : List UInt8 := if 0 < locals.packetize then [astSop] else []

/-- What a turn of the outer loop does when there is something to read. -/
structure Turned (before : Locals δ) (result : Noting Effect (Locals δ)) : Prop where
  effects : result.notes = storesFrom 0 (opening before)
  staged : result.value.staged = opening before
  writeLen : result.value.writeLen = (opening before).length
  src : result.value.src = before.src
  len : result.value.len = before.len
  packetize : result.value.packetize = if 0 < before.packetize then -1 else before.packetize
  place : result.value.place = .inner
  state : result.value.state = before.state

theorem length_opening (locals : Locals δ) : (opening locals).length ≤ 1 := by
  unfold opening
  split <;> decide

theorem turned_turn {before : Locals δ} (positive : 0 < before.len) :
    Turned before (turn before) := by
  have turns : turn before = if 0 < before.packetize then do
        let marked ← put astSop { before with place := .inner, writeLen := 0 }
        pure { marked with packetize := -1 }
      else pure { before with place := .inner, writeLen := 0 } := if_pos positive
  rw [turns]
  by_cases packet : 0 < before.packetize
  · have puts := puts_put astSop { before with place := .inner, writeLen := 0 }
    have opens : opening before = [astSop] := if_pos packet
    rw [if_pos packet]
    exact
      { effects := by rw [opens]; rfl
        staged := by rw [opens]; exact puts.staged
        writeLen := by rw [opens]; rfl
        src := rfl
        len := rfl
        packetize := by rw [if_pos packet]; rfl
        place := rfl
        state := rfl }
  · have opens : opening before = [] := if_neg packet
    rw [if_neg packet]
    exact
      { effects := by rw [opens]; rfl
        staged := by rw [opens]; rfl
        writeLen := by rw [opens]; rfl
        src := rfl
        len := rfl
        packetize := by rw [if_neg packet]; rfl
        place := rfl
        state := rfl }

/-! ## The channel prefix -/

/-- The channel prefix is written. -/
def Selects (channel : HostbridgeChannel δ) (flags : Nat) (state : BridgeState δ) : Prop :=
  (channel.number.toNat : Int) ≠ state.sourceChannelNumber ∨
    flags &&& hostbridgeGen2SourceReset ≠ 0

instance (channel : HostbridgeChannel δ) (flags : Nat) (state : BridgeState δ) :
    Decidable (Selects channel flags state) :=
  inferInstanceAs (Decidable (_ ∨ _))

theorem select_eq (channel : HostbridgeChannel δ) (flags : Nat) (locals : Locals δ) :
    select channel flags locals =
      { notes := if Selects channel flags locals.state then
          [.writeToHost (channelPrefixBytes channel.number)] else []
        value := { locals with
          place := if channel.packetized ∧ locals.packetize = 0 then .raw else .outer
          state := if Selects channel flags locals.state then
              { locals.state with sourceChannelNumber := channel.number.toNat }
            else locals.state } } := by
  by_cases selects : Selects channel flags locals.state
  · have chosen : selectChannel channel flags locals = _ := if_pos selects
    rw [select, chosen, if_pos selects, if_pos selects]
    rfl
  · have chosen : selectChannel channel flags locals = _ := if_neg selects
    rw [select, chosen, if_neg selects, if_neg selects]
    rfl

/-! ## Termination -/

/-- The number of steps that are left, at most. -/
def remaining (locals : Locals δ) : Nat :=
  match locals.place with
  | .select => 3 * locals.len.toNat + 2
  | .raw => 1
  | .outer => 3 * locals.len.toNat + 1
  | .inner =>
      if locals.writeLen < writeBufferLen ∧ 0 < locals.len then 3 * locals.len.toNat
      else 3 * locals.len.toNat + 2
  | .past => 0

theorem remaining_falls (channel : HostbridgeChannel δ) (ptr : Mem) (flags : Nat)
    (locals : Locals δ) :
    locals.place = .past ∨ remaining (step channel ptr flags locals).value < remaining locals := by
  cases stands : locals.place with
  | past => exact .inl rfl
  | raw =>
      right
      simp [remaining, step, stands]
  | select =>
      right
      by_cases raw : channel.packetized ∧ locals.packetize = 0
      · simp [step, stands, select_eq, remaining, raw]
      · simp only [step, stands, select_eq, remaining, if_neg raw]
        omega
  | outer =>
      right
      simp only [step, stands]
      by_cases positive : 0 < locals.len
      · have turned := turned_turn positive
        have short := length_opening locals
        have room : (turn locals).value.writeLen < writeBufferLen ∧ 0 < (turn locals).value.len := by
          rw [turned.writeLen, turned.len]
          exact ⟨Nat.lt_of_le_of_lt short (by decide), positive⟩
        have left : remaining (turn locals).value = 3 * (turn locals).value.len.toNat := by
          rw [remaining, turned.place]
          exact if_pos room
        have here : remaining locals = 3 * locals.len.toNat + 1 := by rw [remaining, stands]
        rw [left, here, turned.len]
        exact Nat.lt_succ_self _
      · have ends : turn locals = pure { locals with place := .past } := if_neg positive
        rw [ends]
        simp [remaining, stands]
  | inner =>
      right
      simp only [step, stands, fill]
      by_cases more : locals.writeLen < writeBufferLen ∧ 0 < locals.len
      · have passed := passed_passByte ptr locals
        simp only [remaining, if_pos more, passed.place, stands, passed.len]
        split <;> omega
      · simp [remaining, stands, more]

theorem callSteps_past (channel : HostbridgeChannel δ) (ptr : Mem) (flags : Nat)
    (state : BridgeState δ) (buffer : Mem) {len : Int} {count : Nat}
    (enough : 3 * len.toNat + 2 ≤ count) :
    (callSteps channel ptr flags state buffer len count).value.place = .past := by
  refine @Noting.repeated_rests _ _ (step channel ptr flags) (fun locals => locals.place = .past)
    remaining ?_ (remaining_falls channel ptr flags) _ _ enough
  intro locals ended
  rw [step, ended]
  exact ended

/-! ## Blocks -/

/-- The blocks the loops still hand over. -/
def pending (channel : HostbridgeChannel δ) (ptr : Mem) (flags : Nat) (locals : Locals δ) :
    List (List UInt8) :=
  let unread := locals.unread ptr
  let blocks := stageBlocks unread.length locals.packetize unread
  match locals.place with
  | .select =>
      (if Selects channel flags locals.state then [channelPrefixBytes channel.number] else []) ++
        if channel.packetized ∧ locals.packetize = 0 then [unread] else blocks
  | .raw => [unread]
  | .outer => blocks
  | .inner =>
      let staged := stage locals.packetize unread locals.staged
      staged.1 :: stageBlocks staged.2.length locals.packetize staged.2
  | .past => []

variable {channel : HostbridgeChannel δ} {ptr : Mem} {flags : Nat} {locals : Locals δ}

theorem unread_cons (ptr : Mem) (positive : 0 < locals.len) :
    locals.unread ptr =
      ptr locals.src :: slice ptr (locals.src + 1) (locals.len - 1).toNat := by
  have succ : locals.len.toNat = (locals.len - 1).toNat + 1 := by omega
  rw [Locals.unread, succ, slice_cons]

theorem unread_nil (ptr : Mem) (none : ¬0 < locals.len) : locals.unread ptr = [] := by
  rw [Locals.unread, Int.toNat_of_nonpos (Int.not_lt.mp none)]
  rfl

theorem stage_unread (ptr : Mem) (room : locals.writeLen < writeBufferLen)
    (positive : 0 < locals.len) :
    stage locals.packetize (locals.unread ptr) locals.staged =
      stage locals.packetize (slice ptr (locals.src + 1) (locals.len - 1).toNat)
        (locals.staged ++ stagedAs locals (ptr locals.src)) := by
  have short : locals.staged.length < writeBufferLen := by
    rw [Locals.staged, length_slice]
    exact room
  have last : (slice ptr (locals.src + 1) (locals.len - 1).toNat).isEmpty = true ↔
      locals.len = 1 := by
    rw [List.isEmpty_iff_length_eq_zero, length_slice]
    omega
  rw [unread_cons ptr positive, stage, if_pos short]
  simp only [last, stagedAs, escapeByte]
  by_cases mark : locals.packetize ≠ 0 ∧ locals.len = 1 <;>
    by_cases special : astNeedsEscape (ptr locals.src) <;> simp [mark, special]

theorem stage_full (ptr : Mem) (full : ¬(locals.writeLen < writeBufferLen ∧ 0 < locals.len)) :
    stage locals.packetize (locals.unread ptr) locals.staged =
      (locals.staged, locals.unread ptr) := by
  by_cases positive : 0 < locals.len
  · have long : ¬locals.staged.length < writeBufferLen := by
      rw [Locals.staged, length_slice]
      exact fun room => full ⟨room, positive⟩
    rw [unread_cons ptr positive, stage, if_neg long]
  · rw [unread_nil ptr positive, stage]

theorem pending_turn (stands : locals.place = .outer) :
    (turn locals).notes.filterMap Effect.block? ++ pending channel ptr flags (turn locals).value =
      pending channel ptr flags locals := by
  by_cases positive : 0 < locals.len
  · have turned := turned_turn positive
    have same : (turn locals).value.unread ptr = locals.unread ptr := by
      rw [Locals.unread, turned.src, turned.len]
      rfl
    have room : (opening locals).length < writeBufferLen :=
      Nat.lt_of_le_of_lt (length_opening locals) (by decide)
    rw [turned.effects, blocks_storesFrom, List.nil_append]
    simp only [pending, turned.place, stands, same, turned.packetize, turned.staged]
    rw [unread_cons ptr positive, List.length_cons, stageBlocks]
    exact congrArg _ (stageBlocks_count _ (Nat.le_refl _) (stage_progress _ _ _ _ room))
  · have ends : turn locals = pure { locals with place := .past } := if_neg positive
    rw [ends]
    simp [pending, stands, unread_nil ptr positive, stageBlocks]

theorem pending_pass (stands : locals.place = .inner) (room : locals.writeLen < writeBufferLen)
    (positive : 0 < locals.len) :
    (passByte ptr locals).notes.filterMap Effect.block? ++
        pending channel ptr flags (passByte ptr locals).value =
      pending channel ptr flags locals := by
  have passed := passed_passByte ptr locals
  have rest : (passByte ptr locals).value.unread ptr =
      slice ptr (locals.src + 1) (locals.len - 1).toNat := by
    rw [Locals.unread, passed.src, passed.len]
  have none : (passByte ptr locals).notes.filterMap Effect.block? = [] := by
    rw [passed.effects]
    exact blocks_storesFrom _ _
  rw [none, List.nil_append]
  simp only [pending, passed.place, stands, passed.packetize, passed.staged, rest,
    stage_unread ptr room positive]

theorem pending_block (stands : locals.place = .inner)
    (full : ¬(locals.writeLen < writeBufferLen ∧ 0 < locals.len)) :
    locals.staged :: pending channel ptr flags { locals with place := .outer } =
      pending channel ptr flags locals := by
  simp only [pending, stands, stage_full ptr full]
  rfl

theorem pending_select (stands : locals.place = .select) :
    (select channel flags locals).notes.filterMap Effect.block? ++
        pending channel ptr flags (select channel flags locals).value =
      pending channel ptr flags locals := by
  rw [select_eq]
  by_cases raw : channel.packetized ∧ locals.packetize = 0 <;>
    by_cases selects : Selects channel flags locals.state <;>
    simp [pending, stands, raw, selects, Effect.block?, Locals.unread]

/-- The bridge as the call leaves it. -/
def settled (channel : HostbridgeChannel δ) (flags : Nat) (locals : Locals δ) : BridgeState δ :=
  if locals.place = .select ∧ Selects channel flags locals.state then
    { locals.state with sourceChannelNumber := channel.number.toNat }
  else locals.state

/-- A step hands over the first of the pending blocks or none, and leads to the same bridge. -/
theorem pending_step (channel : HostbridgeChannel δ) (ptr : Mem) (flags : Nat)
    (locals : Locals δ) :
    (step channel ptr flags locals).notes.filterMap Effect.block? ++
          pending channel ptr flags (step channel ptr flags locals).value =
        pending channel ptr flags locals ∧
      settled channel flags (step channel ptr flags locals).value =
        settled channel flags locals := by
  cases stands : locals.place with
  | select =>
      rw [step, stands]
      refine ⟨pending_select stands, ?_⟩
      dsimp only
      rw [select_eq]
      by_cases raw : channel.packetized ∧ locals.packetize = 0 <;> simp [settled, stands, raw]
  | raw =>
      rw [step, stands]
      simp [pending, settled, stands, Effect.block?]
  | outer =>
      rw [step, stands]
      refine ⟨pending_turn stands, ?_⟩
      dsimp only
      by_cases positive : 0 < locals.len
      · have turned := turned_turn positive
        simp [settled, stands, turned.place, turned.state]
      · simp [settled, stands, turn, positive]
  | inner =>
      rw [step, stands]
      dsimp only [fill]
      by_cases more : locals.writeLen < writeBufferLen ∧ 0 < locals.len
      · have passed := passed_passByte ptr locals
        rw [if_pos more]
        refine ⟨pending_pass stands more.1 more.2, ?_⟩
        simp [settled, stands, passed.place, passed.state]
      · rw [if_neg more]
        exact ⟨pending_block stands more, by simp [settled, stands]⟩
  | past =>
      rw [step, stands]
      exact ⟨rfl, rfl⟩

theorem pending_repeated (channel : HostbridgeChannel δ) (ptr : Mem) (flags : Nat)
    (locals : Locals δ) (count : Nat) :
    (Noting.repeated (step channel ptr flags) count locals).notes.filterMap Effect.block? ++
          pending channel ptr flags (Noting.repeated (step channel ptr flags) count locals).value =
        pending channel ptr flags locals ∧
      settled channel flags (Noting.repeated (step channel ptr flags) count locals).value =
        settled channel flags locals := by
  refine @Noting.repeated_keeps _ _ (step channel ptr flags)
    (fun effects next =>
      effects.filterMap Effect.block? ++ pending channel ptr flags next =
          pending channel ptr flags locals ∧
        settled channel flags next = settled channel flags locals)
    ?_ [] locals ⟨rfl, rfl⟩ count
  intro effects next same
  obtain ⟨blocks, settles⟩ := pending_step channel ptr flags next
  rw [List.filterMap_append, List.append_assoc, blocks, settles]
  exact same

/-- The steps do what `peridotSwHostbridgeGen2Source` says. -/
theorem callSteps_source (channel : HostbridgeChannel δ) (ptr : Mem) (flags : Nat)
    (state : BridgeState δ) (buffer : Mem) {len : Int} {count : Nat}
    (enough : 3 * len.toNat + 2 ≤ count) :
    ((callSteps channel ptr flags state buffer len count).value.state,
        (callSteps channel ptr flags state buffer len count).notes.filterMap Effect.block?) =
      peridotSwHostbridgeGen2Source state channel (slice ptr 0 len.toNat) flags := by
  have past := callSteps_past channel ptr flags state buffer enough
  obtain ⟨blocks, settles⟩ :=
    pending_repeated channel ptr flags (enter state buffer len flags) count
  change (callSteps channel ptr flags state buffer len count).notes.filterMap _ ++
    pending _ _ _ (callSteps channel ptr flags state buffer len count).value = _ at blocks
  change settled _ _ (callSteps channel ptr flags state buffer len count).value = _ at settles
  generalize callSteps channel ptr flags state buffer len count = call at *
  have noBlocks : pending channel ptr flags call.value = [] := by simp only [pending, past]
  have stays : settled channel flags call.value = call.value.state := by simp [settled, past]
  rw [noBlocks, List.append_nil] at blocks
  rw [stays] at settles
  rw [blocks, settles]
  simp only [pending, settled, enter, Locals.unread, Selects, peridotSwHostbridgeGen2Source,
    true_and]
  rfl

end PeridotSw.Bridge.Staging
