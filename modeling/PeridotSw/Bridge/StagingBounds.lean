import PeridotSw.Bridge.Staging

/-!
# The bounds of the staging buffer

On the escaping path every store lies within the staging buffer, no block is empty, and every
byte of the payload is read once.
-/

namespace PeridotSw.Bridge.StagingBounds

open PeridotSw.Machine.Memory
open PeridotSw.Machine.Noted
open PeridotSw.Bridge.Channel
open PeridotSw.Bridge.Source
open PeridotSw.Bridge.Staging

def Fits : Effect → Prop
  | .load _ => True
  | .store index _ => index < writeBufferLen + 2
  | .writeToHost block => block ≠ []

/-- All stores and blocks fit, and every byte of the payload is read once, in order. -/
structure Within (len : Int) (effects : List Effect) : Prop where
  fits : ∀ effect ∈ effects, Fits effect
  loads : effects.filterMap Effect.offset? = List.range len.toNat

theorem fits_storesFrom {index : Nat} {bytes : List UInt8}
    (room : index + bytes.length ≤ writeBufferLen + 2) :
    ∀ effect ∈ storesFrom index bytes, Fits effect := by
  induction bytes generalizing index with
  | nil => nofun
  | cons byte rest ih =>
      rw [List.length_cons] at room
      intro effect listed
      rcases List.mem_cons.mp listed with rfl | later
      · exact Nat.lt_of_lt_of_le (by omega) room
      · exact ih (by omega) effect later

variable {δ : Type}

/-- What has been done, and what the variables are, on the escaping path. -/
structure Escaping (channel : HostbridgeChannel δ) (total : Int) (effects : List Effect)
    (locals : Locals δ) : Prop where
  fits : ∀ effect ∈ effects, Fits effect
  loads : effects.filterMap Effect.offset? = List.range locals.src
  counted : locals.src + locals.len.toNat = total.toNat
  notRaw : locals.place ≠ .raw
  chosen : locals.place = .select → ¬(channel.packetized ∧ locals.packetize = 0)
  filled : locals.place = .inner → 0 < locals.writeLen ∨ 0 < locals.len
  ended : locals.place = .past → locals.len ≤ 0

variable {channel : HostbridgeChannel δ} {ptr : Mem} {flags : Nat} {total : Int}
  {effects : List Effect} {locals : Locals δ}

/-- A pass of the inner loop starts below `WRITE_BUFFER_LEN`, and stores three bytes at most. -/
theorem Escaping.pass (escaping : Escaping channel total effects locals)
    (stands : locals.place = .inner) (room : locals.writeLen < writeBufferLen)
    (positive : 0 < locals.len) :
    Escaping channel total (effects ++ (passByte ptr locals).notes) (passByte ptr locals).value := by
  have passed := passed_passByte ptr locals
  have length := length_stagedAs locals (ptr locals.src)
  have counted := escaping.counted
  have place : (passByte ptr locals).value.place = .inner := passed.place.trans stands
  exact
    { fits := by
        rw [passed.effects, List.forall_mem_append, List.forall_mem_cons]
        exact ⟨escaping.fits, trivial, fits_storesFrom (by omega)⟩
      loads := by
        rw [passed.effects, List.filterMap_append, escaping.loads, passed.src, List.range_succ]
        exact congrArg (fun tail => List.range locals.src ++ locals.src :: tail)
          (offsets_storesFrom _ _)
      counted := by
        rw [passed.src, passed.len]
        omega
      notRaw := fun raw => nomatch place.symm.trans raw
      chosen := fun select => nomatch place.symm.trans select
      filled := fun _ => .inl (by rw [passed.writeLen]; omega)
      ended := fun past => nomatch place.symm.trans past }

theorem Escaping.turn (escaping : Escaping channel total effects locals) :
    Escaping channel total (effects ++ (turn locals).notes) (turn locals).value := by
  by_cases positive : 0 < locals.len
  · have turned := turned_turn positive
    have short := length_opening locals
    exact
      { fits := by
          rw [turned.effects, List.forall_mem_append]
          exact ⟨escaping.fits, fits_storesFrom (by unfold writeBufferLen; omega)⟩
        loads := by
          rw [turned.effects, List.filterMap_append, escaping.loads, turned.src,
            offsets_storesFrom, List.append_nil]
        counted := by
          rw [turned.src, turned.len]
          exact escaping.counted
        notRaw := fun raw => nomatch turned.place.symm.trans raw
        chosen := fun select => nomatch turned.place.symm.trans select
        filled := fun _ => .inr (turned.len.symm ▸ positive)
        ended := fun past => nomatch turned.place.symm.trans past }
  · have ends : Staging.turn locals = pure { locals with place := .past } := if_neg positive
    rw [ends, Noting.notes_pure, List.append_nil]
    exact
      { fits := escaping.fits
        loads := escaping.loads
        counted := escaping.counted
        notRaw := nofun
        chosen := nofun
        filled := nofun
        ended := fun _ => Int.not_lt.mp positive }

/-- A block is handed over when something has been staged. -/
theorem Escaping.block (escaping : Escaping channel total effects locals)
    (stands : locals.place = .inner) (full : ¬(locals.writeLen < writeBufferLen ∧ 0 < locals.len)) :
    Escaping channel total (effects ++ [.writeToHost locals.staged])
      { locals with place := .outer } where
  fits := by
    have positive : 0 < locals.writeLen := by
      rcases escaping.filled stands with staged | more
      · exact staged
      · exact Nat.pos_of_ne_zero fun zero => full ⟨zero ▸ by decide, more⟩
    rw [List.forall_mem_append, List.forall_mem_singleton]
    refine ⟨escaping.fits, List.ne_nil_of_length_pos ?_⟩
    rw [Locals.staged, length_slice]
    exact positive
  loads := by
    rw [List.filterMap_append, escaping.loads]
    exact List.append_nil _
  counted := escaping.counted
  notRaw := nofun
  chosen := nofun
  filled := nofun
  ended := nofun

theorem Escaping.select (escaping : Escaping channel total effects locals)
    (stands : locals.place = .select) :
    Escaping channel total (effects ++ (select channel flags locals).notes)
      (select channel flags locals).value := by
  rw [select_eq, if_neg (escaping.chosen stands)]
  refine
    { fits := ?_
      loads := ?_
      counted := escaping.counted
      notRaw := nofun
      chosen := nofun
      filled := nofun
      ended := nofun }
  · rw [List.forall_mem_append]
    refine ⟨escaping.fits, ?_⟩
    split
    · rw [List.forall_mem_singleton, channelPrefixBytes_eq]
      exact List.cons_ne_nil _ _
    · nofun
  · rw [List.filterMap_append, escaping.loads]
    split <;> exact List.append_nil _

theorem Escaping.step (escaping : Escaping channel total effects locals) :
    Escaping channel total (effects ++ (step channel ptr flags locals).notes)
      (step channel ptr flags locals).value := by
  cases stands : locals.place with
  | select =>
      rw [Staging.step, stands]
      exact escaping.select stands
  | raw => exact absurd stands escaping.notRaw
  | outer =>
      rw [Staging.step, stands]
      exact escaping.turn
  | inner =>
      rw [Staging.step, stands]
      dsimp only [fill]
      by_cases more : locals.writeLen < writeBufferLen ∧ 0 < locals.len
      · rw [if_pos more]
        exact escaping.pass stands more.1 more.2
      · rw [if_neg more]
        exact escaping.block stands more
  | past =>
      rw [Staging.step, stands]
      dsimp only
      rw [Noting.notes_pure, List.append_nil]
      exact escaping

/-- The call ends, and its effects are within the bounds. -/
theorem within_of_escapes
    (escapes : ¬(channel.packetized ∧ flags &&& hostbridgeGen2SourcePacketized = 0))
    (state : BridgeState δ) (buffer : Mem) {len : Int} {count : Nat}
    (enough : 3 * len.toNat + 2 ≤ count) :
    (callSteps channel ptr flags state buffer len count).value.place = .past ∧
      Within len (callSteps channel ptr flags state buffer len count).notes := by
  have past := callSteps_past channel ptr flags state buffer enough
  have start : Escaping channel len [] (enter state buffer len flags) :=
    { fits := nofun
      loads := rfl
      counted := Nat.zero_add _
      notRaw := nofun
      chosen := fun _ both => escapes ⟨both.1, by
        by_contra packet
        exact absurd ((if_pos packet).symm.trans both.2) Int.one_ne_zero⟩
      filled := nofun
      ended := nofun }
  have kept := Noting.repeated_keeps
    (fun _ _ escaping => @Escaping.step _ _ ptr flags _ _ _ escaping) start count
  rw [List.nil_append] at kept
  have all := kept.counted
  have none := Int.toNat_of_nonpos (kept.ended past)
  rw [none, Nat.add_zero] at all
  exact ⟨past, kept.fits, all ▸ kept.loads⟩

theorem within_of_escapes_packet :
    ¬((⟨3, true, ()⟩ : HostbridgeChannel Unit).packetized ∧
        hostbridgeGen2SourcePacketized &&& hostbridgeGen2SourcePacketized = 0) ∧
      (callSteps (⟨3, true, ()⟩ : HostbridgeChannel Unit) (fun _ => 0x7b)
          hostbridgeGen2SourcePacketized (freshBridge .empty) (fun _ => 0) 200 602).value.place =
        .past ∧
      Within 200 (callSteps (⟨3, true, ()⟩ : HostbridgeChannel Unit) (fun _ => 0x7b)
          hostbridgeGen2SourcePacketized (freshBridge .empty) (fun _ => 0) 200 602).notes :=
  ⟨by decide, within_of_escapes (by decide) (freshBridge .empty) (fun _ => 0) (by decide)⟩

end PeridotSw.Bridge.StagingBounds
