import PeridotSw.Digests.Md5Standard
import PeridotSw.Machine.Ring
import PeridotSw.Rpc.Parameters

/-!
# Writing through the programmer

`rubic_agent_method_prog_write` hands data to the flash only after it has checked where it
goes, how much it is and what its digest is.  The block size of an area and the writer are
callbacks that may do anything but change the parameters, which they are given pointers into.
-/

namespace PeridotSw.Rubic.ProgWrite

open PeridotSw.Machine.Memory
open PeridotSw.Machine.Word
open PeridotSw.Machine.Ring (and_pred_eq_mod)
open PeridotSw.Bson.Read
open PeridotSw.Bson.Document
open PeridotSw.Bson.Walk (getBinary_lt)
open PeridotSw.Digests.Md5
open PeridotSw.Digests.Md5Standard (md5 digestMd5Calc_of_bits)
open PeridotSw.Rpc.Reply (offsetAt)
open PeridotSw.Rpc.ReplyLaw (first position getString_cases)
open PeridotSw.Rpc.Parameters

/-! ## Constants -/

def eio : Int32 := 5
def enodev : Int32 := 19
def einval : Int32 := 22
def eilseq : Int32 := 138

def keyArea : CString := .of [0x61, 0x72, 0x65, 0x61] rfl

def keyOffset : CString := .of [0x6f, 0x66, 0x66, 0x73, 0x65, 0x74] (Eq.refl true)

def keyData : CString := .of [0x64, 0x61, 0x74, 0x61] (Eq.refl true)

def keyHash : CString := .of [0x68, 0x61, 0x73, 0x68] (Eq.refl true)

/-! ## The method -/

/-- `state.prog`, as far as writing goes; the callbacks work on a world of their own. -/
structure Programmer (World : Type) where
  blksize : Nat → Nat → World → Int32 × World
  writer : Nat → Nat → Int → Nat → Int → World → Int32 × World
  userData : Nat

/-- A callback with its arguments and what it returns. -/
inductive Call where
  | blksize (area userData : Nat) (result : Int32)
  | writer (area userData : Nat) (offset : Int) (ptr : Nat) (len : Int) (result : Int32)
  deriving DecidableEq

def Call.Writes : Call → Prop
  | .blksize .. => False
  | .writer .. => True

/-- What the method has called and returned, and what it leaves. -/
structure Outcome (World : Type) where
  calls : List Call
  returned : Option Nat
  errno : Int32
  world : World

/-- A `digest_md5_t` in memory. -/
def hashBytes (hash : Vector UInt32 4) : List UInt8 :=
  hash.toList.flatMap fun word => bytes32 word.toNat

/-- `value & (block_size - 1)`. -/
def masked (value : Int) (blockSize : Int32) : Nat :=
  unsigned value &&& unsigned (blockSize.toInt - 1)

section

variable {World : Type} (prog : Programmer World) (mem : Mem)

/-- `NULL` is returned with this number before anything is written. -/
def refused (calls : List Call) (errno : Int32) (world : World) : Outcome World :=
  ⟨calls, none, errno, world⟩

/-- `rubic_agent_method_prog_write` from the digest on. -/
def writeChecked (calls : List Call) (area : Nat) (offset : Int) (dataPtr : Nat) (dataLen : Int)
    (hashPtr : Nat) (world : World) : Outcome World :=
  if hashBytes (digestMd5Calc (slice mem dataPtr dataLen.toNat)) ≠ slice mem hashPtr 16 then
    refused calls eilseq world
  else
    let written := prog.writer area prog.userData offset dataPtr dataLen world
    let calls := calls ++ [.writer area prog.userData offset dataPtr dataLen written.1]
    if written.1 < 0 then ⟨calls, none, eio, written.2⟩
    else ⟨calls, none, 0, written.2⟩

/-- `rubic_agent_method_prog_write` from the hash on. -/
def writePlaced (params : Nat) (offsets : List Param) (calls : List Call) (area : Nat)
    (offset : Int) (dataPtr : Nat) (dataLen : Int) (world : World) : Outcome World :=
  match (bsonGetBinary (some params) (offsetAt offsets 3)).eval mem with
  | none => refused calls einval world
  | some (hashPtr, hashLen) =>
      if hashLen ≠ 16 then refused calls einval world
      else writeChecked prog mem calls area offset dataPtr dataLen hashPtr world

/-- `rubic_agent_method_prog_write`, the block size of the area being known. -/
def writeArea (params : Nat) (offsets : List Param) (calls : List Call) (area : Nat)
    (blockSize : Int32) (world : World) : Outcome World :=
  let offset := (bsonGetInt32 (some params) (offsetAt offsets 1) (-1)).eval mem
  if offset < 0 ∨ masked offset blockSize ≠ 0 then
    refused calls einval world
  else
    match (bsonGetBinary (some params) (offsetAt offsets 2)).eval mem with
    | none => refused calls einval world
    | some (dataPtr, dataLen) =>
        if masked dataLen blockSize ≠ 0 then
          refused calls einval world
        else
          writePlaced prog mem params offsets calls area offset dataPtr dataLen world

/-- `rubic_agent_method_prog_write`; the variables of the keys hold anything. -/
def rubicAgentMethodProgWrite (stale : Fin 4 → Int) (params : Nat) (world : World) :
    Outcome World :=
  let props := (bsonGetProps params [⟨keyArea, stale 0⟩, ⟨keyOffset, stale 1⟩,
    ⟨keyData, stale 2⟩, ⟨keyHash, stale 3⟩]).eval mem
  if props.1 < 0 then
    refused [] einval world
  else
    match (bsonGetString (some params) (offsetAt props.2 0)).eval mem with
    | none => refused [] einval world
    | some area =>
        let reported := prog.blksize area prog.userData world
        let calls := [.blksize area prog.userData reported.1]
        if reported.1 ≤ 0 then
          refused calls enodev reported.2
        else
          writeArea prog mem params props.2 calls area reported.1 reported.2

end

/-! ## What may be written -/

/-- Data for whole blocks of an area with such blocks, and where it goes. -/
structure Placed (content : Elements) (blockSize : Int32) (offset : Int) (data : List UInt8) :
    Prop where
  place : ∃ number, first keyOffset content = some (.int32 number) ∧ number.toInt = offset
  nonneg : 0 ≤ offset
  aligned : blockSize.toInt ∣ offset
  bytes : ∃ subtype, first keyData content = some (.binary subtype data)
  nonempty : data ≠ []
  whole : blockSize.toInt ∣ data.length

/-- Data that may be written: the hash is its digest, which is that of the standard as long as
the number of bits is one of thirty-two bits. -/
structure Verified (content : Elements) (blockSize : Int32) (offset : Int) (data : List UInt8) :
    Prop extends Placed content blockSize offset data where
  digest : ∃ subtype,
    first keyHash content = some (.binary subtype (hashBytes (digestMd5Calc data)))
  standard : data.length < 2 ^ 29 →
    ∃ subtype, first keyHash content = some (.binary subtype (hashBytes (md5 data)))

/-- The data was written, and `errno` tells how that went. -/
def Accepted {World : Type} (prog : Programmer World) (mem : Mem) (content : Elements)
    (world : World) (outcome : Outcome World) : Prop :=
  ∃ text area offset data ptr,
    let reported := prog.blksize area prog.userData world
    let written := prog.writer area prog.userData offset ptr data.length reported.2
    first keyArea content = some (.string text) ∧ Holds mem area (text.bytes ++ [0]) ∧
      0 < reported.1 ∧ Verified content reported.1 offset data ∧ Holds mem ptr data ∧
        outcome.calls = [.blksize area prog.userData reported.1,
          .writer area prog.userData offset ptr data.length written.1] ∧
        outcome.errno = (if written.1 < 0 then eio else 0) ∧ outcome.world = written.2

/-- Nothing was written, as nothing may be. -/
structure Refused {World : Type} (prog : Programmer World) (mem : Mem) (content : Elements)
    (world : World) (outcome : Outcome World) : Prop where
  unwritten : ∀ call ∈ outcome.calls, ¬call.Writes
  errno : outcome.errno ≠ 0 ∧ outcome.errno ≠ eio
  left : outcome.world = world ∨
    ∃ area, outcome.world = (prog.blksize area prog.userData world).2
  unverified : ∀ text, first keyArea content = some (.string text) → ∃ area,
    let reported := prog.blksize area prog.userData world
    Holds mem area (text.bytes ++ [0]) ∧
      outcome.calls = [.blksize area prog.userData reported.1] ∧
        (0 < reported.1 → ∀ offset data, ¬Verified content reported.1 offset data)

/-- The areas have a power of two for their block size, if any. -/
def PowersOfTwo {World : Type} (prog : Programmer World) : Prop :=
  ∀ area world, 0 < (prog.blksize area prog.userData world).1 →
    ∃ log, (prog.blksize area prog.userData world).1.toInt = 2 ^ log

/-! ## The checks -/

theorem length_hashBytes (hash : Vector UInt32 4) : (hashBytes hash).length = 16 := by
  rw [hashBytes, List.length_flatMap]
  simp

/-- With a power of two for the block size, nothing masked is a multiple. -/
theorem masked_eq_zero {blockSize : Int32} {log : Nat} (power : blockSize.toInt = 2 ^ log)
    {value : Int} (nonneg : 0 ≤ value) (small : value < 2 ^ 31) :
    masked value blockSize = 0 ↔ blockSize.toInt ∣ value := by
  obtain ⟨count, rfl⟩ := Int.eq_ofNat_of_zero_le nonneg
  have size : blockSize.toInt = ((2 ^ log : Nat) : Int) := by
    rw [power]
    push_cast
    rfl
  have bound := Int32.toInt_lt blockSize
  have positive : 0 < 2 ^ log := Nat.two_pow_pos log
  have number : unsigned (count : Int) = count := unsigned_natCast (by omega)
  have mask : unsigned (blockSize.toInt - 1) = 2 ^ log - 1 := by
    rw [size, unsigned_of_nonneg (by omega) (by omega)]
    omega
  rw [masked, number, mask, and_pred_eq_mod rfl, size, Int.natCast_dvd_natCast]
  exact (Nat.dvd_iff_mod_eq_zero ..).symm

variable {World : Type} {prog : Programmer World} {mem : Mem} {content : Elements} {params : Nat}

def offsets (content : Elements) : List Param :=
  positions content [keyArea, keyOffset, keyData, keyHash]

section

variable {source : Mem} {sum : Int} {text : CString} {area log : Nat} {blockSize : Int32}

theorem Placed.offset_eq {offset : Int} {data : List UInt8}
    (placed : Placed content blockSize offset data) :
    offset = numberUnder content keyOffset (-1) :=
  (numberUnder_of_place placed.place).symm

theorem Placed.data_eq {offset : Int} {data given : List UInt8} {subtype : UInt8}
    (placed : Placed content blockSize offset data)
    (found : first keyData content = some (.binary subtype given)) : data = given := by
  obtain ⟨_, same⟩ := placed.bytes
  rw [found] at same
  cases same
  rfl

/-! ## An area that is named, and its block size -/

section

variable {world later : World} (named : first keyArea content = some (.string text))
  (path : Holds mem area (text.bytes ++ [0]))
  (reports : prog.blksize area prog.userData world = (blockSize, later))

include named path reports

theorem refused_of {errno : Int32} (failed : errno ≠ 0 ∧ errno ≠ eio)
    (unverified : 0 < blockSize → ∀ offset data, ¬Verified content blockSize offset data) :
    Refused prog mem content world
      (refused [.blksize area prog.userData blockSize] errno later) where
  unwritten call member := by
    rw [refused, List.mem_singleton] at member
    subst member
    exact not_false
  errno := failed
  left := .inr ⟨area, (congrArg Prod.snd reports).symm⟩
  unverified other same := by
    rw [named] at same
    cases same
    refine ⟨area, path, ?_⟩
    rw [reports]
    exact ⟨rfl, unverified⟩

/-- The writer is called if the hash is the digest of the data. -/
theorem writeChecked_cases {subtype : UInt8} {data hash : List UInt8} {offset : Int}
    {ptr hashPtr : Nat} (positive : 0 < blockSize) (placed : Placed content blockSize offset data)
    (bytes : Holds mem ptr data) (given : first keyHash content = some (.binary subtype hash))
    (size : hash.length = 16) (bytes' : Holds mem hashPtr hash) :
    let outcome := writeChecked prog mem [.blksize area prog.userData blockSize] area offset ptr
      data.length hashPtr later
    Accepted prog mem content world outcome ∨ Refused prog mem content world outcome := by
  have message : slice mem ptr (data.length : Int).toNat = data := slice_eq_of_holds bytes
  have expected : slice mem hashPtr 16 = hash := size ▸ slice_eq_of_holds bytes'
  dsimp only
  rw [writeChecked, message, expected]
  by_cases same : hashBytes (digestMd5Calc data) = hash
  · rw [if_neg (not_not.mpr same)]
    subst same
    have verified : Verified content blockSize offset data :=
      { placed with
        digest := ⟨subtype, given⟩
        standard := fun small => ⟨subtype, digestMd5Calc_of_bits data small ▸ given⟩ }
    left
    refine ⟨text, area, offset, data, ptr, ?_⟩
    rw [reports]
    refine ⟨named, path, positive, verified, bytes, ?_⟩
    dsimp only
    split <;> exact ⟨rfl, rfl, rfl⟩
  · rw [if_pos same]
    refine .inr (refused_of named path reports (by decide) ?_)
    rintro - offset' data' verified
    obtain ⟨_, given'⟩ := verified.digest
    rw [verified.data_eq placed.bytes.choose_spec, given] at given'
    cases given'
    exact same rfl

/-- What is placed is written if there is a hash for it that is its digest. -/
theorem writePlaced_cases (held : HoldsDocument mem params content) {data : List UInt8}
    {offset : Int} {ptr : Nat} (positive : 0 < blockSize)
    (placed : Placed content blockSize offset data) (bytes : Holds mem ptr data) :
    let outcome := writePlaced prog mem params (offsets content)
      [.blksize area prog.userData blockSize] area offset ptr data.length later
    Accepted prog mem content world outcome ∨ Refused prog mem content world outcome := by
  have fourth : offsetAt (offsets content) 3 = position content keyHash := rfl
  dsimp only
  rw [writePlaced, fourth]
  rcases getBinary_cases held keyHash with
    ⟨subtype, hash, hashPtr, given, -, got, bytes'⟩ | ⟨absent, got⟩
  case inr =>
    rw [got]
    refine .inr (refused_of named path reports (by decide) ?_)
    rintro - offset' data' verified
    obtain ⟨_, given⟩ := verified.digest
    exact absurd (length_hashBytes (digestMd5Calc data')) (by rw [absent _ _ given]; decide)
  simp only [got]
  by_cases size : (hash.length : Int) ≠ 16
  · rw [if_pos size]
    refine .inr (refused_of named path reports (by decide) ?_)
    rintro - offset' data' verified
    obtain ⟨_, digest⟩ := verified.digest
    rw [given] at digest
    cases digest
    exact size (by rw [length_hashBytes]; rfl)
  · rw [if_neg size]
    exact writeChecked_cases named path reports positive placed bytes given (by omega) bytes'

/-- What is not placed is refused, and the rest goes on to its digest. -/
theorem writeArea_cases (built : Built content source sum)
    (held : HoldsDocument mem params content) (positive : 0 < blockSize)
    (power : blockSize.toInt = 2 ^ log) :
    let outcome := writeArea prog mem params (offsets content)
      [.blksize area prog.userData blockSize] area blockSize later
    Accepted prog mem content world outcome ∨ Refused prog mem content world outcome := by
  have number : (bsonGetInt32 (some params) (offsetAt (offsets content) 1) (-1)).eval mem =
      numberUnder content keyOffset (-1) := getInt32_eq built held keyOffset (-1)
  have bound := numberUnder_lt content keyOffset
  dsimp only
  rw [writeArea, number]
  by_cases misplaced : numberUnder content keyOffset (-1) < 0 ∨
      masked (numberUnder content keyOffset (-1)) blockSize ≠ 0
  · rw [if_pos misplaced]
    refine .inr (refused_of named path reports (by decide) ?_)
    rintro - offset data verified
    have here := verified.offset_eq
    have nonneg := verified.nonneg
    have aligned := verified.aligned
    rw [here] at nonneg aligned
    exact misplaced.elim (Int.not_lt.mpr nonneg)
      (not_not.mpr ((masked_eq_zero power nonneg bound).mpr aligned))
  rw [if_neg misplaced]
  obtain ⟨placeable, unmasked⟩ := not_or.mp misplaced
  have nonneg := Int.not_lt.mp placeable
  have aligned := (masked_eq_zero power nonneg bound).mp (not_not.mp unmasked)
  have place := place_of_numberUnder (show numberUnder content keyOffset (-1) ≠ -1 by omega)
  have third : offsetAt (offsets content) 2 = position content keyData := rfl
  rw [third]
  rcases getBinary_cases held keyData with
    ⟨subtype, data, ptr, given, nonempty, got, bytes⟩ | ⟨absent, got⟩
  case inr =>
    rw [got]
    refine .inr (refused_of named path reports (by decide) ?_)
    rintro - offset data verified
    obtain ⟨_, given⟩ := verified.bytes
    exact verified.nonempty (absent _ _ given)
  have small : (data.length : Int) < 2 ^ 31 := (getBinary_lt got).2
  simp only [got]
  by_cases ragged : masked data.length blockSize ≠ 0
  · rw [if_pos ragged]
    refine .inr (refused_of named path reports (by decide) ?_)
    rintro - offset data' verified
    have whole := verified.whole
    rw [verified.data_eq given] at whole
    exact ragged ((masked_eq_zero power (Int.natCast_nonneg _) small).mpr whole)
  rw [if_neg ragged]
  have whole := (masked_eq_zero power (Int.natCast_nonneg _) small).mp (not_not.mp ragged)
  exact writePlaced_cases named path reports held positive
    ⟨place, nonneg, aligned, ⟨subtype, given⟩, nonempty, whole⟩ bytes

end

/-! ## All requests -/

/-- The method up to the block size of the area. -/
theorem progWrite_course (prog : Programmer World) (held : HoldsDocument mem params content)
    (stale : Fin 4 → Int) (world : World) :
    let outcome := rubicAgentMethodProgWrite prog mem stale params world
    ((∀ text, first keyArea content ≠ some (.string text)) ∧
      outcome = refused [] einval world) ∨
    ∃ text area, first keyArea content = some (.string text) ∧
      Holds mem area (text.bytes ++ [0]) ∧
        let reported := prog.blksize area prog.userData world
        let calls := [.blksize area prog.userData reported.1]
        (reported.1 ≤ 0 ∧ outcome = refused calls enodev reported.2 ∨
          0 < reported.1 ∧ outcome =
            writeArea prog mem params (offsets content) calls area reported.1 reported.2) := by
  have distinct : [keyArea, keyOffset, keyData, keyHash].Nodup := by decide
  obtain ⟨count, props⟩ := @eval_props _ _ _ held [⟨keyArea, stale 0⟩, ⟨keyOffset, stale 1⟩,
    ⟨keyData, stale 2⟩, ⟨keyHash, stale 3⟩] distinct
  have searched : [(⟨keyArea, stale 0⟩ : Param), ⟨keyOffset, stale 1⟩, ⟨keyData, stale 2⟩,
    ⟨keyHash, stale 3⟩].map Param.key = [keyArea, keyOffset, keyData, keyHash] := rfl
  have zeroth : offsetAt (offsets content) 0 = position content keyArea := rfl
  rw [searched, ← offsets] at props
  dsimp only
  rw [rubicAgentMethodProgWrite, props]
  simp only [zeroth]
  rw [if_neg (Int.not_lt.mpr (Int.natCast_nonneg count))]
  rcases getString_cases held keyArea with ⟨text, area, named, got, path⟩ | ⟨absent, got⟩
  · rw [got]
    refine .inr ⟨text, area, named, path, ?_⟩
    by_cases blockless : (prog.blksize area prog.userData world).1 ≤ 0
    · exact .inl ⟨blockless, if_pos blockless⟩
    · exact .inr ⟨Int32.not_le.mp blockless, if_neg blockless⟩
  · rw [got]
    exact .inl ⟨absent, rfl⟩

/-- The writer is called at most once, and only with data that is placed on whole blocks and
verified; in every other case nothing is written and `errno` is set. -/
theorem writes_verified (built : Built content source sum)
    (held : HoldsDocument mem params content) (powers : PowersOfTwo prog) (stale : Fin 4 → Int)
    (world : World) :
    let outcome := rubicAgentMethodProgWrite prog mem stale params world
    Accepted prog mem content world outcome ∨ Refused prog mem content world outcome := by
  dsimp only
  rcases progWrite_course prog held stale world with
    ⟨unnamed, course⟩ | ⟨text, area, named, path, ⟨blockless, course⟩ | ⟨positive, course⟩⟩
  · rw [course]
    exact .inr ⟨nofun, show einval ≠ 0 ∧ einval ≠ eio by decide, .inl rfl,
      fun text named => absurd named (unnamed text)⟩
  · rw [course]
    exact .inr (refused_of named path rfl (by decide) fun positive =>
      absurd positive (Int32.not_lt.mpr blockless))
  · rw [course]
    obtain ⟨log, power⟩ := powers area world positive
    exact writeArea_cases named path rfl built held positive power

end

def blocksOfFour : Programmer Unit where
  blksize _ _ _ := (4, ())
  writer _ _ _ _ _ _ := (0, ())
  userData := 0

def oneBlock : Elements :=
  .append (.append (.append (.append .empty keyArea (.string (.of [0x61] (Eq.refl true))))
    keyOffset (.int32 4)) keyData (.binary 0 [1, 2, 3, 4]))
    keyHash (.binary 0 (hashBytes (digestMd5Calc [1, 2, 3, 4])))

theorem writes_verified_oneBlock :
    ∃ source sum, Built oneBlock source sum ∧
      let outcome := rubicAgentMethodProgWrite blocksOfFour source (fun _ => 99) 0 ()
      Accepted blocksOfFour source oneBlock () outcome ∨
        Refused blocksOfFour source oneBlock () outcome := by
  have built : Built oneBlock _ _ :=
    .append (.append (.append (.append (.empty fun _ => 0xaa) (.string _) (by decide)) (.int32 4)
      (by decide)) (.binary [1, 2, 3, 4]) (by decide)) (.binary _) (by decide +kernel)
  exact ⟨_, _, built, writes_verified built built.holds.1 (fun _ _ _ => ⟨2, rfl⟩) _ ()⟩

/-- The four bytes are written. -/
example :
    let source : Mem := fun index => (documentBytes oneBlock.encode).getD index 0
    (rubicAgentMethodProgWrite blocksOfFour source (fun _ => 99) 0 ()).calls =
      [.blksize 14 0 4, .writer 14 0 4 39 4 0] := by decide +kernel

end PeridotSw.Rubic.ProgWrite
