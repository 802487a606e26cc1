import PeridotSw.Bson.Stores
import PeridotSw.Rubic.InfoCache
import PeridotSw.Rubic.ProgWrite

/-!
# Reading a digest through the programmer

`rubic_agent_method_prog_hash` has the reader fill a block that it allocates, and answers with
the digest of what is there then.  The block of the flash and the answer are allocated one after
the other, the first one being freed in between.
-/

namespace PeridotSw.Rubic.ProgHash

open PeridotSw.Machine.Memory
open PeridotSw.Machine.Word
open PeridotSw.Bson.Read
open PeridotSw.Bson.Write
open PeridotSw.Bson.Document
open PeridotSw.Bson.Footprint
open PeridotSw.Bson.Stores
open PeridotSw.Digests.Md5
open PeridotSw.Rpc.Sink (Allocator)
open PeridotSw.Rpc.Reply (into offsetAt)
open PeridotSw.Rpc.ReplyLaw (first position getString_cases)
open PeridotSw.Rpc.Parameters
open PeridotSw.Rubic.ProgWrite (Programmer PowersOfTwo hashBytes masked masked_eq_zero
  length_hashBytes keyArea keyOffset keyHash einval enodev eio)

def enomem : Int32 := 12

def keyLength : CString := .of [0x6c, 0x65, 0x6e, 0x67, 0x74, 0x68] (Eq.refl true)

/-! ## The method -/

/-- `state.prog`; the reader fills the memory it is given. -/
structure Device (World : Type) extends Programmer World where
  reader : Nat → Nat → Int → Mem → Int → World → Int32 × Mem × World

/-- The block of the flash, and the answer. -/
inductive Block where
  | buffer
  | answer
  deriving DecidableEq

inductive Action where
  | blksize (area userData : Nat) (result : Int32)
  | malloc (block : Block) (size : Nat) (granted : Bool)
  | reader (area userData : Nat) (offset len : Int) (result : Int32)
  | free (block : Block)
  deriving DecidableEq

/-- What is done and returned, the stores into the answer, and what is left. -/
structure Outcome (World : Type) where
  actions : List Action
  stores : List Store
  returned : Option Mem
  errno : Option Int32
  world : World

/-- `bson_empty_size + bson_measure_binary("hash", sizeof(hash)) +
bson_measure_int32("length")`. -/
def answerSize : Nat :=
  unsigned (wrap (wrap (bsonEmptySize + (bsonSetBinaryGeneric none keyHash 16).2.1) +
    (bsonSetInt32 none keyLength 0).2))

/-- The answer behind the hash that is copied into it. -/
def filled (block : Mem) (hash : List UInt8) : Mem :=
  let empty := bsonCreateEmptyDocument block
  let binary := bsonSetBinaryGeneric (some empty) keyHash 16
  write (binary.1.getD empty) (binary.2.2.getD 0) hash

def buildAnswer (block : Mem) (hash : List UInt8) (blockSize : Int32) : Mem :=
  into (filled block hash) (bsonSetInt32 (some (filled block hash)) keyLength blockSize)

def answerStores (block : Mem) (hash : List UInt8) (blockSize : Int32) : List Store :=
  let empty := bsonCreateEmptyDocument block
  createStores ++
    (appendStores empty keyHash 0x05 (bytes32 16 ++ 0 :: List.replicate 16 0) ++
      (⟨((bsonSetBinaryGeneric (some empty) keyHash 16).2.2.getD 0), hash⟩ ::
        appendStores (filled block hash) keyLength 0x10 (bytes32 (unsigned blockSize.toInt))))

section

variable {World : Type} (device : Device World) (malloc : Allocator) (mem : Mem)

def refused (actions : List Action) (errno : Int32) (world : World) : Outcome World :=
  ⟨actions, [], none, some errno, world⟩

/-- `rubic_agent_method_prog_hash` from the answer on. -/
def answerWith (actions : List Action) (hash : List UInt8) (blockSize : Int32) (world : World) :
    Outcome World :=
  match malloc 1 answerSize with
  | none => refused (actions ++ [.malloc .answer answerSize false]) enomem world
  | some block =>
      ⟨actions ++ [.malloc .answer answerSize true], answerStores block hash blockSize,
        some (buildAnswer block hash blockSize), none, world⟩

/-- `rubic_agent_method_prog_hash`, the block to read being known. -/
def readBlock (actions : List Action) (area : Nat) (offset : Int) (blockSize : Int32)
    (world : World) : Outcome World :=
  let size := unsigned blockSize.toInt
  match malloc 0 size with
  | none => refused (actions ++ [.malloc .buffer size false]) enomem world
  | some buffer =>
      let read := device.reader area device.userData offset buffer blockSize.toInt world
      let actions := actions ++ [.malloc .buffer size true,
        .reader area device.userData offset blockSize.toInt read.1, .free .buffer]
      if read.1 < 0 then refused actions eio read.2.2
      else
        answerWith malloc actions (hashBytes (digestMd5Calc (slice read.2.1 0 size))) blockSize
          read.2.2

/-- `rubic_agent_method_prog_hash`; the variables of the keys hold anything. -/
def rubicAgentMethodProgHash (stale : Fin 2 → Int) (params : Nat) (world : World) :
    Outcome World :=
  let props := (bsonGetProps params [⟨keyArea, stale 0⟩, ⟨keyOffset, stale 1⟩]).eval mem
  if props.1 < 0 then
    refused [] einval world
  else
    match (bsonGetString (some params) (offsetAt props.2 0)).eval mem with
    | none => refused [] einval world
    | some area =>
        let reported := device.blksize area device.userData world
        let actions := [.blksize area device.userData reported.1]
        if reported.1 ≤ 0 then
          refused actions enodev reported.2
        else
          let offset := (bsonGetInt32 (some params) (offsetAt props.2 1) (-1)).eval mem
          if offset < 0 ∨ masked offset reported.1 ≠ 0 then
            refused actions einval reported.2
          else
            readBlock device malloc actions area offset reported.1 reported.2

end

/-! ## The answer -/

def hashContent (hash : List UInt8) (blockSize : Int32) : Elements :=
  .append (.append .empty keyHash (.binary 0 hash)) keyLength (.int32 blockSize)

theorem answerSize_eq : answerSize = 44 := by decide

section

variable {hash : List UInt8}

theorem filled_eq (block : Mem) (size : hash.length = 16) :
    filled block hash = (Call.binary hash).apply (bsonCreateEmptyDocument block) keyHash := by
  simp only [filled, Call.apply, Call.set, size]
  rfl

theorem length_hash_encode (size : hash.length = 16) :
    (Elements.append .empty keyHash (.binary 0 hash)).encode.length = 27 := by
  rw [InfoCache.length_append_encode]
  simp only [Elements.encode, Value.encode, List.length_append, List.length_cons,
    length_bytes32, size]
  rfl

theorem length_hashContent (size : hash.length = 16) (blockSize : Int32) :
    (hashContent hash blockSize).encode.length = 39 := by
  rw [hashContent, InfoCache.length_append_encode, length_hash_encode size]
  rfl

theorem built_answer (block : Mem) (size : hash.length = 16) (blockSize : Int32) :
    ∃ sum, Built (hashContent hash blockSize) (buildAnswer block hash blockSize) sum := by
  have short := length_hash_encode size
  have long := length_hashContent size blockSize
  obtain ⟨sum, binary⟩ : ∃ sum,
      Built (.append .empty keyHash (.binary 0 hash)) (filled block hash) sum := by
    rw [filled_eq block size]
    exact ⟨_, .append (.empty block) (.binary hash) (by omega)⟩
  exact ⟨_, .append binary (.int32 blockSize) (by rw [← hashContent]; omega)⟩

/-- The answer is stored inside the block that is allocated for it. -/
theorem answer_inside (block : Mem) (size : hash.length = 16) (blockSize : Int32) :
    AllInside answerSize (answerStores block hash blockSize) := by
  have room : 5 + elementSize keyHash (16 + 5) < 2 ^ 31 := by decide
  obtain ⟨occupies, place⟩ := (occupies_create block).binary room
  have after : Occupies block (filled block hash) (5 + elementSize keyHash (16 + 5)) := by
    unfold filled
    dsimp only
    rw [show (16 : Int) = ((16 : Nat) : Int) from rfl, place, Option.getD_some]
    exact occupies.fill (by decide) (by rw [size]; decide)
  have start : (bsonSetBinaryGeneric (some (bsonCreateEmptyDocument block)) keyHash 16).2.2 =
      some (5 + keyHash.bytes.length + 6) := place
  rw [answerStores, allInside_append, allInside_append, allInside_create,
    allInside_appendStores (occupies_create block), answerSize_eq, start]
  refine ⟨by decide, by decide, List.forall_mem_cons.mpr ⟨?_, ?_⟩⟩
  · show 5 + keyHash.bytes.length + 6 + hash.length ≤ 44
    rw [size]
    decide
  · exact (allInside_appendStores after 0x10 _).mpr (by rw [length_bytes32]; decide)

/-- The stores leave the answer. -/
theorem applyStores_answer (block : Mem) (hash : List UInt8) (blockSize : Int32) :
    applyStores block (answerStores block hash blockSize) = buildAnswer block hash blockSize :=
  rfl

end

/-! ## What is answered -/

/-- The block of an area that a request is for, by the number of its first byte. -/
structure Addressed (content : Elements) (blockSize : Int32) (offset : Int) : Prop where
  place : ∃ number, first keyOffset content = some (.int32 number) ∧ number.toInt = offset
  nonneg : 0 ≤ offset
  aligned : blockSize.toInt ∣ offset

section

variable {World : Type} (device : Device World) (malloc : Allocator) (mem : Mem)
  (content : Elements) (world : World)

/-- The block of the flash and how it is read. -/
structure Reading where
  text : CString
  area : Nat
  offset : Int
  buffer : Mem

def Reading.asked (reading : Reading) : Int32 × World :=
  device.blksize reading.area device.userData world

def Reading.read (reading : Reading) : Int32 × Mem × World :=
  device.reader reading.area device.userData reading.offset reading.buffer
    (reading.asked device world).1.toInt (reading.asked device world).2

def Reading.hash (reading : Reading) : List UInt8 :=
  hashBytes (digestMd5Calc (slice (reading.read device world).2.1 0
    (unsigned (reading.asked device world).1.toInt)))

/-- The first actions of a request that names an area. -/
def Reading.asking (reading : Reading) : List Action :=
  [.blksize reading.area device.userData (reading.asked device world).1]

def Reading.reading (reading : Reading) : List Action :=
  reading.asking device world ++
    [.malloc .buffer (unsigned (reading.asked device world).1.toInt) true,
      .reader reading.area device.userData reading.offset
        (reading.asked device world).1.toInt (reading.read device world).1,
      .free .buffer]

/-- The request names the area. -/
structure Reading.Named (reading : Reading) : Prop where
  name : first keyArea content = some (.string reading.text)
  path : Holds mem reading.area (reading.text.bytes ++ [0])

/-- The block is in the area, and there is memory for it. -/
structure Reading.Ready (reading : Reading) : Prop extends reading.Named mem content where
  positive : 0 < (reading.asked device world).1
  addressed : Addressed content (reading.asked device world).1 reading.offset
  buffer : malloc 0 (unsigned (reading.asked device world).1.toInt) = some reading.buffer

/-- The course a request takes. -/
inductive Course : Outcome World → Prop where
  | unnamed (unnamed : ∀ text, first keyArea content ≠ some (.string text)) :
      Course (refused [] einval world)
  | missing (reading : Reading) (named : reading.Named mem content)
      (blockless : (reading.asked device world).1 ≤ 0) :
      Course (refused (reading.asking device world) enodev (reading.asked device world).2)
  | misplaced (reading : Reading) (named : reading.Named mem content)
      (positive : 0 < (reading.asked device world).1)
      (misplaced : ∀ offset, ¬Addressed content (reading.asked device world).1 offset) :
      Course (refused (reading.asking device world) einval (reading.asked device world).2)
  | crowded (reading : Reading) (named : reading.Named mem content)
      (positive : 0 < (reading.asked device world).1)
      (addressed : Addressed content (reading.asked device world).1 reading.offset)
      (ungranted : malloc 0 (unsigned (reading.asked device world).1.toInt) = none) :
      Course (refused (reading.asking device world ++
        [.malloc .buffer (unsigned (reading.asked device world).1.toInt) false]) enomem
        (reading.asked device world).2)
  | unread (reading : Reading) (ready : reading.Ready device malloc mem content world)
      (failed : (reading.read device world).1 < 0) :
      Course (refused (reading.reading device world) eio (reading.read device world).2.2)
  | unanswered (reading : Reading) (ready : reading.Ready device malloc mem content world)
      (read : 0 ≤ (reading.read device world).1) (ungranted : malloc 1 44 = none) :
      Course (refused (reading.reading device world ++ [.malloc .answer 44 false]) enomem
        (reading.read device world).2.2)
  | answered (reading : Reading) (ready : reading.Ready device malloc mem content world)
      (read : 0 ≤ (reading.read device world).1) {block : Mem} (granted : malloc 1 44 = some block)
      {doc : Mem} {sum : Int} {stores : List Store} (inside : AllInside 44 stores)
      (left : applyStores block stores = doc)
      (built : Built (hashContent (reading.hash device world) (reading.asked device world).1) doc
        sum) :
      Course ⟨reading.reading device world ++ [.malloc .answer 44 true], stores, some doc, none,
        (reading.read device world).2.2⟩

end

variable {World : Type} {device : Device World} {malloc : Allocator} {mem source : Mem}
  {content : Elements} {sum : Int} {params : Nat}

theorem not_addressed {blockSize : Int32} {log : Nat} (power : blockSize.toInt = 2 ^ log)
    (misplaced : numberUnder content keyOffset (-1) < 0 ∨
      masked (numberUnder content keyOffset (-1)) blockSize ≠ 0) (offset : Int) :
    ¬Addressed content blockSize offset := by
  rintro ⟨place, nonneg, aligned⟩
  have here : numberUnder content keyOffset (-1) = offset := numberUnder_of_place place
  have bound := numberUnder_lt content keyOffset
  rw [here] at misplaced bound
  exact misplaced.elim (Int.not_lt.mpr nonneg)
    (not_not.mpr ((masked_eq_zero power nonneg bound).mpr aligned))

theorem addressed_of_not {blockSize : Int32} {log : Nat} (power : blockSize.toInt = 2 ^ log)
    (placed : ¬(numberUnder content keyOffset (-1) < 0 ∨
      masked (numberUnder content keyOffset (-1)) blockSize ≠ 0)) :
    Addressed content blockSize (numberUnder content keyOffset (-1)) := by
  obtain ⟨placeable, unmasked⟩ := not_or.mp placed
  have nonneg := Int.not_lt.mp placeable
  have bound := numberUnder_lt content keyOffset
  exact ⟨place_of_numberUnder (by omega), nonneg,
    (masked_eq_zero power nonneg bound).mp (not_not.mp unmasked)⟩

theorem readBlock_course {world : World} {reading : Reading}
    (named : reading.Named mem content) (positive : 0 < (reading.asked device world).1)
    (addressed : Addressed content (reading.asked device world).1 reading.offset) :
    Course device malloc mem content world
      (readBlock device malloc (reading.asking device world) reading.area reading.offset
        (reading.asked device world).1 (reading.asked device world).2) := by
  rw [readBlock]
  dsimp only
  cases first : malloc 0 (unsigned (reading.asked device world).1.toInt) with
  | none => exact .crowded reading named positive addressed first
  | some buffer =>
      have ready : ({ reading with buffer := buffer } : Reading).Ready device malloc mem content
          world := ⟨⟨named.name, named.path⟩, positive, addressed, first⟩
      dsimp only
      by_cases failed : (({ reading with buffer := buffer } : Reading).read device world).1 < 0
      · exact (if_pos failed).symm ▸ Course.unread _ ready failed
      · have read := Int32.not_lt.mp failed
        refine (if_neg failed).symm ▸ ?_
        rw [answerWith, answerSize_eq]
        cases second : malloc 1 44 with
        | none => exact .unanswered _ ready read second
        | some block =>
            obtain ⟨sum, built⟩ := built_answer block (length_hashBytes _)
              (reading.asked device world).1
            exact .answered _ ready read second
              (answerSize_eq ▸ answer_inside block (length_hashBytes _) _)
              (applyStores_answer _ _ _) built

theorem progHash_course (built : Built content source sum)
    (held : HoldsDocument mem params content) (powers : PowersOfTwo device.toProgrammer)
    (stale : Fin 2 → Int) (world : World) :
    Course device malloc mem content world
      (rubicAgentMethodProgHash device malloc mem stale params world) := by
  have distinct : [keyArea, keyOffset].Nodup := by decide
  obtain ⟨count, props⟩ :=
    @eval_props _ _ _ held [⟨keyArea, stale 0⟩, ⟨keyOffset, stale 1⟩] distinct
  have zeroth : offsetAt (positions content [keyArea, keyOffset]) 0 = position content keyArea :=
    rfl
  have number : (bsonGetInt32 (some params) (offsetAt (positions content [keyArea, keyOffset]) 1)
      (-1)).eval mem = numberUnder content keyOffset (-1) := getInt32_eq built held keyOffset (-1)
  simp only [List.map_cons, List.map_nil] at props
  rw [rubicAgentMethodProgHash, props]
  dsimp only
  rw [zeroth, number, if_neg (Int.not_lt.mpr (Int.natCast_nonneg count))]
  rcases getString_cases held keyArea with ⟨text, area, name, got, path⟩ | ⟨absent, got⟩
  case inr =>
    rw [got]
    exact .unnamed absent
  rw [got]
  dsimp only
  let reading : Reading := ⟨text, area, numberUnder content keyOffset (-1), mem⟩
  have named : reading.Named mem content := ⟨name, path⟩
  by_cases blockless : (device.blksize area device.userData world).1 ≤ 0
  · exact (if_pos blockless).symm ▸ Course.missing reading named blockless
  refine (if_neg blockless).symm ▸ ?_
  have positive := Int32.not_le.mp blockless
  obtain ⟨log, power⟩ := powers area world positive
  by_cases misplaced : numberUnder content keyOffset (-1) < 0 ∨
      masked (numberUnder content keyOffset (-1)) (device.blksize area device.userData world).1 ≠ 0
  · exact (if_pos misplaced).symm ▸
      Course.misplaced reading named positive (not_addressed power misplaced)
  · exact (if_neg misplaced).symm ▸
      @readBlock_course _ _ _ _ _ _ reading named positive (addressed_of_not power misplaced)

/-! ## The blocks -/

def Action.granted : Action → Option Block
  | .malloc block _ true => some block
  | _ => none

def Action.freed : Action → Option Block
  | .free block => some block
  | _ => none

/-- Of the blocks that are allocated all are freed but the one that is returned. -/
def Settled (outcome : Outcome World) : Prop :=
  outcome.actions.filterMap Action.granted =
    outcome.actions.filterMap Action.freed ++ if outcome.returned.isSome then [.answer] else []

theorem Course.settled {world : World} {outcome : Outcome World}
    (course : Course device malloc mem content world outcome) : Settled outcome := by
  cases course <;> rfl

def zeros : Device Unit where
  blksize _ _ _ := (4, ())
  writer _ _ _ _ _ _ := (0, ())
  userData := 0
  reader _ _ _ _ _ _ := (4, fun _ => 0, ())

def secondBlock : Elements :=
  .append (.append .empty keyArea (.string (.of [0x61] (Eq.refl true)))) keyOffset (.int32 4)

/-- It is read and answered. -/
example :
    let source : Mem := fun index => (documentBytes secondBlock.encode).getD index 0
    (rubicAgentMethodProgHash zeros (fun _ _ => some fun _ => 0) source
      (fun _ => 99) 0 ()).actions =
      [.blksize 14 0 4, .malloc .buffer 4 true, .reader 14 0 4 4 4, .free .buffer,
        .malloc .answer 44 true] := by decide +kernel

end PeridotSw.Rubic.ProgHash
