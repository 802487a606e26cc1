import PeridotSw.Client.Constructions

/-!
# Results fit into what was measured for them

A result is measured before the call it reports on, with the length the host has asked
for, in thirty-two bits.  Whatever is asked for and whatever the calls answer, the
document stays inside its block at every moment, and in the end it is the one the
handler is said to return.
-/

namespace PeridotSw.Client.ResultRooms

open PeridotSw.Machine.Memory
open PeridotSw.Machine.Word
open PeridotSw.Machine.Noted
open PeridotSw.Bson.Read
open PeridotSw.Bson.Write
open PeridotSw.Bson.Walk
open PeridotSw.Bson.Document
open PeridotSw.Bson.Pointers
open PeridotSw.Bson.Footprint
open PeridotSw.Bson.Shrink
open PeridotSw.Client.Handlers
open PeridotSw.Client.Constructions
open PeridotSw.Rpc.Reply (into jsonrpcErrInvalidRequest offsetAt)
open PeridotSw.Rpc.Sink (Allocator)

/-! ## Documents inside a block -/

/-- A document lies inside the first bytes of a block, and nothing behind these differs from
what the block held. -/
structure Inside (size : Nat) (block doc : Mem) : Prop where
  length : bsonMeasureDocument doc ≤ (size : Int)
  untouched : ∀ index, size ≤ index → doc index = block index

/-- The result never extends past the size that was allocated for it. -/
def Fits (construction : Construction) : Prop :=
  ∀ stage ∈ construction.stages, Inside construction.size construction.block stage

/-- A document as the writers make it, in a block. -/
structure Stage (block doc : Mem) (content : Elements) : Prop where
  built : ∃ sum, Built content doc sum
  occupies : Occupies block doc (content.encode.length + 5)

theorem Inside.of_occupies {size total : Nat} {block doc : Mem}
    (occupies : Occupies block doc size) (room : size ≤ total) : Inside total block doc where
  length := by
    rw [occupies.declared]
    omega
  untouched index outside := occupies.behind index (by omega)

/-- What is built on from a document inside a block stays inside. -/
theorem Inside.trans {total : Nat} {block before doc : Mem} (inside : Inside total block before)
    (later : Inside total before doc) : Inside total block doc where
  length := later.length
  untouched index outside := (later.untouched index outside).trans (inside.untouched index outside)

namespace Stage

variable {block doc : Mem} {front : Elements} {key : CString}

theorem inside {total : Nat} (stage : Stage block doc front)
    (room : front.encode.length + 5 ≤ total) : Inside total block doc :=
  .of_occupies stage.occupies room

theorem empty (block : Mem) : Stage block (bsonCreateEmptyDocument block) .empty :=
  ⟨⟨0, .empty block⟩, occupies_create block⟩

theorem of_built {content : Elements} {sum : Int} (built : Built content doc sum) :
    Stage doc doc content := ⟨⟨sum, built⟩, built_occupies built⟩

theorem set {value : Value} {call : Call} (stage : Stage block doc front)
    (passes : Passes value call)
    (room : front.encode.length + 5 + elementSize key value.encode.length < 2 ^ 31) :
    Stage block (call.apply doc key) (.append front key value) := by
  obtain ⟨sum, built⟩ := stage.built
  have length := length_append front key value
  have size : front.encode.length + elementSize key value.encode.length + 5 =
    front.encode.length + 5 + elementSize key value.encode.length := by omega
  refine ⟨⟨_, .append built passes (by omega)⟩, ?_⟩
  rw [length, size]
  exact occupies_apply passes stage.occupies room

end Stage

/-! ## Binaries that are filled piece by piece -/

/-- Storing what is there already. -/
theorem write_held {mem : Mem} {base : Nat} {bytes : List UInt8} (held : Holds mem base bytes) :
    write mem base bytes = mem := by
  funext index
  by_cases inside : base ≤ index ∧ index < base + bytes.length
  · have stored := holds_write mem base bytes (index - base) (by omega)
    have before := held (index - base) (by omega)
    rw [Nat.add_sub_cancel' inside.1] at stored before
    rw [stored, before]
  · exact write_outside (by omega)

/-- The later of two stores to the same bytes counts. -/
theorem write_again {mem : Mem} {base : Nat} {first second : List UInt8}
    (size : first.length = second.length) :
    write (write mem base first) base second = write mem base second := by
  funext index
  by_cases inside : base ≤ index ∧ index < base + second.length
  · have stored := holds_write (write mem base first) base second (index - base) (by omega)
    have direct := holds_write mem base second (index - base) (by omega)
    rw [Nat.add_sub_cancel' inside.1] at stored direct
    rw [stored, direct]
  · rw [write_outside (by omega), write_outside (by omega), write_outside (by omega)]

/-- A store of bytes that are partly there already. -/
theorem write_padded {mem : Mem} {base : Nat} {bytes rest : List UInt8}
    (held : Holds mem (base + bytes.length) rest) :
    write mem base (bytes ++ rest) = write mem base bytes := by
  have parts : write mem base (bytes ++ rest) =
      write (write mem base bytes) (base + bytes.length) rest := by
    funext index
    unfold write
    by_cases before : base ≤ index
    · by_cases behind : base + bytes.length ≤ index
      · rw [if_pos before, if_pos behind, if_pos before,
          List.getElem?_append_right (by omega), @List.getElem?_eq_none _ bytes _ (by omega)]
        congr 2
        omega
      · rw [if_pos before, if_neg behind, if_pos before, List.getElem?_append_left (by omega)]
    · rw [if_neg before, if_neg (by omega), if_neg before]
  rw [parts]
  exact write_held (held.write_disjoint (.inl (Nat.le_refl _)))

section

variable {front : Elements} {doc : Mem} {sum : Int} {key : CString} {count : Nat}

/-- The content of a new binary is zero. -/
theorem holds_zeros (built : Built front doc sum)
    (room : front.encode.length + 5 + elementSize key (count + 5) < 2 ^ 31) :
    Holds ((bsonSetBinaryGeneric (some doc) key count).1.getD doc)
      (front.encode.length + key.bytes.length + 11) (List.replicate count 0) := by
  have nonneg : ¬ (count : Int) < 0 := by omega
  unfold elementSize at room
  have number : unsigned (count : Int) = count := unsigned_natCast (by omega)
  let element : Element := ⟨key, 0x05, bytes32 count ++ 0 :: List.replicate count 0⟩
  have length : element.bytes.length = key.bytes.length + count + 7 := by
    simp [element]
    omega
  have held := holds_appendElement element built.holds.1.1 (by omega)
  simp only [bsonSetBinaryGeneric, bsonSetBinary, if_neg nonneg, Option.map_some,
    Option.getD_some, Int.toNat_natCast, number]
  have parts : documentBytes (front.encode ++ element.bytes) =
      (bytes32 ((front.encode ++ element.bytes).length + 5) ++ lead front key ++
        bytes32 count ++ [0]) ++ (List.replicate count 0 ++ [0]) := by
    simp [documentBytes, element, Element.bytes, lead]
  rw [parts, holds_append] at held
  have place : 0 + (bytes32 ((front.encode ++ element.bytes).length + 5) ++ lead front key ++
      bytes32 count ++ [0]).length = front.encode.length + key.bytes.length + 11 := by
    simp only [List.length_append, length_bytes32, length_lead, List.length_singleton]
    omega
  rw [place] at held
  exact ((holds_append ..).mp held.2).1

theorem binary_place (built : Built front doc sum)
    (room : front.encode.length + 5 + elementSize key (count + 5) < 2 ^ 31) :
    (bsonSetBinaryGeneric (some doc) key count).2.2 =
      some (front.encode.length + key.bytes.length + 11) := by
  rw [((built_occupies built).binary room).2]
  congr 1
  omega

/-- A binary of which only the first bytes are filled in. -/
theorem filled_eq (built : Built front doc sum) {bytes : List UInt8} (short : bytes.length ≤ count)
    (room : front.encode.length + 5 + elementSize key (count + 5) < 2 ^ 31) :
    write ((bsonSetBinaryGeneric (some doc) key count).1.getD doc)
        ((bsonSetBinaryGeneric (some doc) key count).2.2.getD 0) bytes =
      (Call.binary (bytes ++ List.replicate (count - bytes.length) 0)).apply doc key := by
  have length : (bytes ++ List.replicate (count - bytes.length) (0 : UInt8)).length = count := by
    simp
    omega
  have zeros := holds_zeros built room
  have split : List.replicate count (0 : UInt8) =
      List.replicate bytes.length 0 ++ List.replicate (count - bytes.length) 0 := by
    rw [List.replicate_append_replicate, Nat.add_sub_cancel' short]
  rw [split, holds_append, List.length_replicate] at zeros
  simp only [Call.apply, Call.set, length]
  rw [binary_place built room, Option.getD_some]
  exact (write_padded zeros.2).symm

/-- A binary that is not filled in. -/
theorem made_eq (built : Built front doc sum)
    (room : front.encode.length + 5 + elementSize key (count + 5) < 2 ^ 31) :
    (bsonSetBinaryGeneric (some doc) key count).1.getD doc =
      (Call.binary (List.replicate count 0)).apply doc key := by
  have filled := @filled_eq front doc sum key count built [] (Nat.zero_le _) room
  rw [List.nil_append, List.length_nil, Nat.sub_zero] at filled
  rw [← filled, write_held (holds_nil _ _)]

end

/-- `bson_shrink_binary` stores nothing behind the new end of the document. -/
theorem shrink_behind {doc : Mem} {buf index : Nat} {binlen : Int} (after : 9 ≤ buf)
    (behind : (buf + binlen).toNat < index) (nonneg : 0 ≤ binlen) :
    (bsonShrinkBinary doc buf binlen).1 index = doc index := by
  simp only [bsonShrinkBinary]
  split
  case isTrue => rfl
  split
  case isTrue => rfl
  split
  case isTrue => rfl
  simp only []
  rw [write_outside (.inr (by rw [length_bytes32]; omega)),
    write_outside (.inr (by rw [length_bytes32]; omega)),
    write_outside (.inr (by rw [List.length_singleton]; omega))]

/-! ## Each result -/

/-- What a handler builds fits its block, and is in the end what it returns. -/
structure Sound (outcome : Outcome) (construction : Option Construction) : Prop where
  fits : ∀ made, construction = some made → Fits made
  returned : ∀ content errno, outcome = (some content, errno) →
    ∃ made final sum, construction = some made ∧ made.stages.getLast? = some final ∧
      Built content final sum

theorem sound_failed (errno : Int32) : Sound (failed errno) none where
  fits _ answered := nomatch answered
  returned _ _ same := by cases same

/-- The stages in a block, with the handler's outcome. -/
structure Good (size : Nat) (block : Mem) (stages : List Mem) (outcome : Outcome) : Prop where
  inside : ∀ stage ∈ stages, Inside size block stage
  returned : ∀ content errno, outcome = (some content, errno) →
    ∃ final sum, stages.getLast? = some final ∧ Built content final sum

/-- The allocator refuses what an `int` cannot express. -/
def Limited (heap : Allocator) : Prop :=
  ∀ attempt size, 2 ^ 31 ≤ size → heap attempt size = none

/-- Both descriptions of a handler are about the same allocations. -/
def Agrees (outside : Outside) (heap : Allocator) : Prop :=
  ∀ attempt size, outside.malloc attempt size = (heap attempt (unsigned size)).isSome

variable {outside : Outside} {heap : Allocator} {memories : Memories}

theorem sound_allocated (limited : Limited heap) (agrees : Agrees outside heap) {attempt : Nat}
    {asked : Int} {stages : Mem → List Mem} {outcome : Outcome}
    (good : unsigned asked < 2 ^ 31 → ∀ block, Good (unsigned asked) block (stages block) outcome) :
    Sound (if outside.malloc attempt asked = false then failed enomem else outcome)
      (allocated heap attempt asked stages) := by
  have granted := agrees attempt asked
  cases given : heap attempt (unsigned asked) with
  | none =>
      rw [given, Option.isSome_none] at granted
      simp only [allocated, given, Option.map_none]
      rw [if_pos granted]
      exact sound_failed enomem
  | some block =>
      have small : unsigned asked < 2 ^ 31 := by
        by_contra large
        rw [limited attempt _ (by omega)] at given
        cases given
      obtain ⟨inside, returned⟩ := good small block
      rw [given, Option.isSome_some] at granted
      simp only [allocated, given, Option.map_some]
      rw [granted, if_neg (by decide)]
      constructor
      · intro made same
        cases same
        exact inside
      · intro content errno same
        obtain ⟨final, sum, last, built⟩ := returned content errno same
        exact ⟨_, final, sum, rfl, last, built⟩

theorem good_nothing {size : Nat} {block : Mem} {stages : List Mem} (errno : Int32)
    (inside : ∀ stage ∈ stages, Inside size block stage) :
    Good size block stages (failed errno) where
  inside := inside
  returned _ _ same := by cases same

theorem good_number {size : Nat} {key : CString} (room : elementSize key 4 + 5 ≤ size)
    (small : size < 2 ^ 31) (value : Int32) (block : Mem) (errno : Int32) :
    Good size block (numberStages key value block) (some (int32Result key value), errno) := by
  have first := Stage.empty block
  have second := first.set (.int32 value) (show 0 + 5 + elementSize key 4 < 2 ^ 31 by omega)
  have length : (Elements.append .empty key (.int32 value)).encode.length = 0 + elementSize key 4 :=
    length_append .empty key (.int32 value)
  have nothing : Elements.empty.encode.length = 0 := rfl
  constructor
  · simp only [numberStages, List.mem_cons, List.not_mem_nil, or_false, forall_eq_or_imp,
      forall_eq]
    exact ⟨first.inside (by omega), second.inside (by omega)⟩
  · intro content errno same
    cases same
    obtain ⟨sum, built⟩ := second.built
    exact ⟨_, sum, rfl, built⟩

theorem measured_number {key : CString} (short : key.bytes.length < 2 ^ 16) :
    unsigned (wrap (bsonEmptySize + measureInt32 key)) = elementSize key 4 + 5 := by
  simp only [measureInt32, bsonSetInt32, setSubelement, bsonEmptySize, length_bytes32, elementSize]
  rw [stringSize_eq (by omega), unsigned_wrap, wrap_of_range (by omega) (by omega),
    unsigned_of_nonneg (by omega) (by omega)]
  omega

/-- A handler that reports one number, or fails once it has its block. -/
theorem sound_number (limited : Limited heap) (agrees : Agrees outside heap) {key : CString}
    (short : key.bytes.length < 2 ^ 16) (result : Except Int32 Int32) :
    Sound (if outside.malloc 0 (wrap (bsonEmptySize + measureInt32 key)) = false then failed enomem
        else match result with
          | .error errno => failed errno
          | .ok value => (some (int32Result key value), 0))
      (allocated heap 0 (wrap (bsonEmptySize + measureInt32 key)) fun block =>
        match result with
        | .error _ => []
        | .ok value => numberStages key value block) := by
  refine sound_allocated limited agrees fun small block => ?_
  rw [measured_number short] at small ⊢
  cases result with
  | error errno => exact good_nothing errno nofun
  | ok value => exact good_number (Nat.le_refl _) small value block 0

theorem measureInt32_eq {key : CString} (short : key.bytes.length < 2 ^ 16) :
    measureInt32 key = (elementSize key 4 : Nat) := by
  simp only [measureInt32, bsonSetInt32, setSubelement, length_bytes32, elementSize]
  rw [stringSize_eq (by omega), wrap_of_range (by omega) (by omega)]
  omega

theorem measureBinary_eq {key : CString} (short : key.bytes.length < 2 ^ 16) (count : Nat) :
    measureBinary key count = wrap (elementSize key (count + 5) : Nat) := by
  have nonneg : ¬ (count : Int) < 0 := by omega
  simp only [measureBinary, bsonSetBinaryGeneric, bsonSetBinary, if_neg nonneg, elementSize]
  rw [stringSize_eq (by omega)]
  congr 1
  omega

/-- A sum of sizes of which one may have left the range of `int`. -/
theorem unsigned_sum {before middle after : Int} {total : Nat}
    (sum : before + middle + after = (total : Int)) (room : total < 2 ^ 32) :
    unsigned (wrap (before + wrap middle + after)) = total := by
  rw [unsigned_wrap]
  unfold wrap signed unsigned
  split <;> omega

theorem length_single_binary (key : CString) (bytes : List UInt8) :
    (Elements.append .empty key (.binary 0 bytes)).encode.length =
      elementSize key (bytes.length + 5) := by
  rw [length_append]
  simp [Elements.encode, Value.encode, elementSize]
  omega

theorem stage_binary (block : Mem) {key : CString} {bytes : List UInt8}
    (room : 5 + elementSize key (bytes.length + 5) < 2 ^ 31) :
    Stage block ((Call.binary bytes).apply (bsonCreateEmptyDocument block) key)
      (.append .empty key (.binary 0 bytes)) := by
  have length := length_single_binary key bytes
  have appended : (Elements.append .empty key (.binary 0 bytes)).encode.length =
      0 + elementSize key (Value.binary 0 bytes).encode.length := length_append _ _ _
  exact (Stage.empty block).set (.binary bytes) (show 0 + 5 + _ < 2 ^ 31 by omega)

/-- The number of bytes read behind the bytes themselves. -/
def readResult (data : List UInt8) : Elements :=
  .append (.append .empty keyData (.binary 0 data)) keyLength (.int32 (Int32.ofNat data.length))

/-- The data in a binary of the length that was asked for. -/
def paddedData (count : Nat) (data : List UInt8) : List UInt8 :=
  data ++ List.replicate (count - data.length) 0

theorem length_paddedData {count : Nat} {data : List UInt8} (short : data.length ≤ count) :
    (paddedData count data).length = count := by
  rw [paddedData, List.length_append, List.length_replicate, Nat.add_sub_cancel' short]

theorem length_dataElement (data : List UInt8) :
    (Elements.append .empty keyData (.binary 0 data)).encode.length = data.length + 11 := by
  rw [length_single_binary]
  change 4 + (data.length + 5) + 2 = _
  omega

/-- The document with the whole binary, and with the one shrunk to what was read. -/
theorem shrunk_data {count : Nat} {data : List UInt8} (short : data.length ≤ count)
    (small : 28 + count < 2 ^ 31) (block : Mem) :
    let blank := bsonCreateEmptyDocument block
    let filled := (Call.binary (paddedData count data)).apply blank keyData
    let shrunk := (bsonShrinkBinary filled 15 data.length).1
    Inside (28 + count) block filled ∧ Inside (28 + count) block shrunk ∧
      Stage shrunk shrunk (.append .empty keyData (.binary 0 data)) := by
  intro blank filled shrunk
  have size := length_paddedData short
  have lengths := length_dataElement (paddedData count data)
  have filledStage := @stage_binary block keyData (paddedData count data)
    (show 5 + (4 + ((paddedData count data).length + 5) + 2) < 2 ^ 31 by omega)
  have front : (paddedData count data).take data.length = data := List.take_left
  obtain ⟨-, _, built⟩ := @built_shrunk .empty keyData (paddedData count data) 15 _ _ (.empty block)
    rfl (by omega) data.length (by omega)
  rw [front] at built
  have shrunkStage : Stage shrunk shrunk (.append .empty keyData (.binary 0 data)) :=
    .of_built built
  have insideFilled : Inside (28 + count) block filled := filledStage.inside (by omega)
  refine ⟨insideFilled, insideFilled.trans ⟨?_, fun index outside => ?_⟩, shrunkStage⟩
  · rw [shrunkStage.occupies.declared, length_dataElement]
    omega
  · exact shrink_behind (by omega) (by omega) (by omega)

/-- The documents of `peridot_client_fs_read`, each as a writer leaves it. -/
theorem readStages_ok {count : Nat} {data : List UInt8} (short : data.length ≤ count)
    (small : 28 + count < 2 ^ 31) (block : Mem) :
    let blank := bsonCreateEmptyDocument block
    let filled := (Call.binary (paddedData count data)).apply blank keyData
    let shrunk := (bsonShrinkBinary filled 15 data.length).1
    readStages count (.ok data) block =
      [blank, (Call.binary (List.replicate count 0)).apply blank keyData, filled, shrunk,
        (Call.int32 (Int32.ofNat data.length)).apply shrunk keyLength] := by
  have room : 0 + 5 + elementSize keyData (count + 5) < 2 ^ 31 := by
    change 0 + 5 + (4 + (count + 5) + 2) < _
    omega
  have place : (bsonSetBinaryGeneric (some (bsonCreateEmptyDocument block)) keyData count).2.2 =
      some 15 := @binary_place .empty _ _ keyData count (.empty block) room
  have filled := @filled_eq .empty _ 0 keyData count (.empty block) data short room
  have made := @made_eq .empty _ 0 keyData count (.empty block) room
  simp only [readStages]
  rw [filled, made, place]
  rfl

theorem good_read {count : Nat} {data : List UInt8} (short : data.length ≤ count)
    (small : 28 + count < 2 ^ 31) (block : Mem) :
    Good (28 + count) block (readStages count (.ok data) block) (some (readResult data), 0) := by
  have stages := readStages_ok short small block
  obtain ⟨insideFilled, insideShrunk, shrunk⟩ := shrunk_data short small block
  have empty := Stage.empty block
  have zeros : (List.replicate count (0 : UInt8)).length = count := List.length_replicate ..
  have lengths := length_dataElement (List.replicate count 0)
  have made := @stage_binary block keyData (List.replicate count 0)
    (show 5 + (4 + ((List.replicate count (0 : UInt8)).length + 5) + 2) < 2 ^ 31 by omega)
  have final := @Stage.set _ _ _ keyLength _ _ shrunk (.int32 (Int32.ofNat data.length)) (by
    rw [length_dataElement]
    change data.length + 11 + 5 + 12 < _
    omega)
  have length : (readResult data).encode.length = data.length + 23 := by
    have appended : (readResult data).encode.length = _ + elementSize keyLength 4 :=
      length_append _ _ _
    rw [appended, length_dataElement]
    rfl
  constructor
  · rw [stages]
    simp only [List.mem_cons, List.not_mem_nil, or_false, forall_eq_or_imp, forall_eq]
    exact ⟨empty.inside (show 0 + 5 ≤ _ by omega), made.inside (by omega), insideFilled,
      insideShrunk, insideShrunk.trans (final.inside (by rw [← readResult]; omega))⟩
  · intro content errno same
    cases same
    obtain ⟨sum, built⟩ := final.built
    exact ⟨_, sum, by rw [stages]; rfl, built⟩

theorem sound_read (limited : Limited heap) (agrees : Agrees outside heap) {fd : Int} {count : Nat}
    (short : count < 2 ^ 31)
    (reads : ∀ data, outside.read fd count = .ok data → data.length ≤ count) :
    Sound (readFile outside fd count) (readConstruction outside heap fd count) := by
  have data4 : keyData.bytes.length = 4 := rfl
  have length6 : keyLength.bytes.length = 6 := rfl
  have asked : unsigned (wrap (bsonEmptySize + measureBinary keyData count +
      measureInt32 keyLength)) = 28 + count := by
    rw [measureBinary_eq (by decide), measureInt32_eq (by decide)]
    refine unsigned_sum ?_ (by omega)
    simp only [bsonEmptySize, elementSize, data4, length6]
    omega
  refine sound_allocated limited agrees fun small block => ?_
  rw [asked] at small ⊢
  have empty := Stage.empty block
  cases outcome : outside.read fd count with
  | ok data => exact good_read (reads data outcome) small block
  | error errno =>
      have room : 0 + 5 + elementSize keyData (count + 5) < 2 ^ 31 := by
        rw [elementSize, data4]
        omega
      have zeros : (List.replicate count (0 : UInt8)).length = count := List.length_replicate ..
      have made := @stage_binary block keyData (List.replicate count 0) (by rw [zeros]; omega)
      have lengths := length_single_binary keyData (List.replicate count 0)
      have madeEq := @made_eq .empty _ 0 keyData count (.empty block) room
      rw [elementSize, data4] at lengths
      refine good_nothing errno ?_
      simp only [readStages, madeEq, List.mem_cons, List.not_mem_nil, or_false,
        forall_eq_or_imp, forall_eq]
      exact ⟨empty.inside (by change 0 + 5 ≤ _; omega), made.inside (by omega)⟩

/-- No digest is longer than what is measured for one. -/
theorem digest_length {method : Option Nat} {data hash : List UInt8}
    (found : digest outside memories method data = some hash) : hash.length ≤ 32 := by
  unfold digest at found
  split at found
  · cases found
    rw [List.length_flatMap]
    simp
  · split at found
    · cases found
      simp
    · cases found

def hashOutcome (value : Int32) : Option (List UInt8) → Outcome
  | none => failed jsonrpcErrInvalidParams
  | some hash => (some (.append (int32Result keyLength value) keyHash (.binary 0 hash)), 0)

/-- `peridot_client_fs_hash`, its parameters being read. -/
def hashFile (outside : Outside) (memories : Memories) (fd len : Int) (method : Option Nat) :
    Outcome :=
  if outside.malloc 0 len = false then failed enomem
  else
    match outside.read fd len with
    | .error errno => failed errno
    | .ok data =>
        if outside.malloc 1
            (wrap (bsonEmptySize + measureInt32 keyLength + measureBinary keyHash 32 + len)) =
            false then
          failed enomem
        else
          hashOutcome (Int32.ofNat data.length) (digest outside memories method data)

theorem length_hashElement (value : Int32) (bytes : List UInt8) :
    (Elements.append (int32Result keyLength value) keyHash (.binary 0 bytes)).encode.length =
      bytes.length + 23 := by
  have appended := length_append (int32Result keyLength value) keyHash (.binary 0 bytes)
  have content : (Value.binary 0 bytes).encode.length = bytes.length + 5 := by
    simp [Value.encode]
    omega
  rw [appended, content]
  change 12 + (4 + (bytes.length + 5) + 2) = _
  omega

/-- The documents of `peridot_client_fs_hash`, each as a writer leaves it. -/
theorem hashStages_some (value : Int32) {hash : List UInt8} (short : hash.length ≤ 32)
    (block : Mem) :
    let blank := bsonCreateEmptyDocument block
    let counted := (Call.int32 value).apply blank keyLength
    hashStages value (some hash) block =
      [blank, counted, (Call.binary (List.replicate hash.length 0)).apply counted keyHash,
        (Call.binary hash).apply counted keyHash] := by
  have counted := (Stage.empty block).set (.int32 value)
    (show 0 + 5 + elementSize keyLength 4 < 2 ^ 31 by decide)
  obtain ⟨_, built⟩ := counted.built
  have made := @made_eq _ _ _ keyHash hash.length built (by
    change 12 + 5 + (4 + (hash.length + 5) + 2) < _
    omega)
  simp only [hashStages]
  rw [← made]
  rfl

/-- The length read and behind it the digest, if there is one. -/
theorem good_hash {size : Nat} (room : 60 ≤ size) (value : Int32) {hash : Option (List UInt8)}
    (short : ∀ bytes, hash = some bytes → bytes.length ≤ 32) (block : Mem) :
    Good size block (hashStages value hash block) (hashOutcome value hash) := by
  have empty := Stage.empty block
  have counted : Stage block ((Call.int32 value).apply (bsonCreateEmptyDocument block) keyLength)
      (int32Result keyLength value) :=
    empty.set (.int32 value) (show 0 + 5 + elementSize keyLength 4 < 2 ^ 31 by decide)
  have insideEmpty := empty.inside (show 0 + 5 ≤ size by omega)
  have insideCounted := counted.inside (show 12 + 5 ≤ size by omega)
  cases hash with
  | none =>
      refine good_nothing _ ?_
      change ∀ stage ∈ [_, _], _
      simp only [List.mem_cons, List.not_mem_nil, or_false, forall_eq_or_imp, forall_eq]
      exact ⟨insideEmpty, insideCounted⟩
  | some hash =>
      have bound := short hash rfl
      have stages := hashStages_some value bound block
      have zeros : (List.replicate hash.length (0 : UInt8)).length = hash.length :=
        List.length_replicate ..
      have stage (bytes : List UInt8) (few : bytes.length ≤ 32) : Stage block
          ((Call.binary bytes).apply
            ((Call.int32 value).apply (bsonCreateEmptyDocument block) keyLength) keyHash)
          (.append (int32Result keyLength value) keyHash (.binary 0 bytes)) :=
        counted.set (.binary bytes) (by
          have length := length_hashElement value bytes
          rw [length_append] at length
          omega)
      have inside (bytes : List UInt8) (few : bytes.length ≤ 32) :=
        (stage bytes few).inside (show _ ≤ size by rw [length_hashElement]; omega)
      constructor
      · rw [stages]
        simp only [List.mem_cons, List.not_mem_nil, or_false, forall_eq_or_imp, forall_eq]
        exact ⟨insideEmpty, insideCounted, inside _ (zeros.le.trans bound),
          inside _ bound⟩
      · intro content errno same
        cases same
        obtain ⟨sum, built⟩ := (stage hash bound).built
        exact ⟨_, sum, by rw [stages]; rfl, built⟩

theorem sound_hash (limited : Limited heap) (agrees : Agrees outside heap) {fd : Int} {count : Nat}
    (short : count < 2 ^ 31) (method : Option Nat) :
    Sound (hashFile outside memories fd count method)
      (hashConstruction outside heap memories fd count method) := by
  have measured : measureBinary keyHash 32 = 43 := by decide
  have number : measureInt32 keyLength = 12 := by decide
  have asked : unsigned (wrap (bsonEmptySize + measureInt32 keyLength + measureBinary keyHash 32 +
      count)) = 60 + count := by
    rw [unsigned_wrap, measured, number, bsonEmptySize, unsigned_of_nonneg (by omega) (by omega)]
    omega
  have granted := agrees 0 count
  unfold hashFile hashConstruction
  cases given : heap 0 (unsigned (count : Int)) with
  | none =>
      rw [given, Option.isSome_none] at granted
      rw [if_pos granted]
      exact sound_failed enomem
  | some buffer =>
      rw [given, Option.isSome_some] at granted
      rw [granted, if_neg (by decide), Option.bind_some]
      cases outside.read fd count with
      | error errno => exact sound_failed errno
      | ok data =>
          refine sound_allocated limited agrees fun small block => ?_
          rw [asked] at small ⊢
          exact @good_hash (60 + count) (by omega) _ _ (fun _ => digest_length) block

def response (output : List UInt8) : Option (List UInt8) → Value
  | some _ => .binary 0 output
  | none => .null

def responseSize (arg : Option (List UInt8)) : Nat :=
  match arg with
  | some input => elementSize keyResponse (input.length + 5)
  | none => elementSize keyResponse 0

theorem stages_control {arg : Option (List UInt8)} (room : 5 + responseSize arg < 2 ^ 31)
    (block : Mem) :
    (∀ stage ∈ (controlStages arg block).1 ++ [(controlStages arg block).2],
        Inside (5 + responseSize arg) block stage) ∧
      ∀ output, (∀ input, arg = some input → output.length = input.length) →
        Stage block (modified arg output block)
          (.append .empty keyResponse (response output arg)) := by
  have empty := Stage.empty block
  cases arg with
  | none =>
      have null := @Stage.set _ _ _ keyResponse _ _ empty .null (by decide)
      have length : (Elements.append .empty keyResponse .null).encode.length = 10 := rfl
      have size : responseSize none = 10 := rfl
      refine ⟨?_, fun output _ => null⟩
      change ∀ stage ∈ [_, _], _
      simp only [List.mem_cons, List.not_mem_nil, or_false, forall_eq_or_imp, forall_eq]
      exact ⟨empty.inside (by change 0 + 5 ≤ _; omega), null.inside (by rw [length, size])⟩
  | some input =>
      have size : responseSize (some input) = elementSize keyResponse (input.length + 5) := rfl
      have zeros : (List.replicate input.length (0 : UInt8)).length = input.length :=
        List.length_replicate ..
      have fits : 0 + 5 + elementSize keyResponse (input.length + 5) < 2 ^ 31 := by omega
      have made := @stage_binary block keyResponse (List.replicate input.length 0)
        (by rw [zeros]; omega)
      have filled := @stage_binary block keyResponse input (by omega)
      have madeEq := @made_eq .empty _ 0 keyResponse input.length (.empty block) fits
      constructor
      · change ∀ stage ∈ [_, (bsonSetBinaryGeneric _ keyResponse input.length).1.getD _,
          (Call.binary input).apply (bsonCreateEmptyDocument block) keyResponse], _
        rw [madeEq]
        simp only [List.mem_cons, List.not_mem_nil, or_false, forall_eq_or_imp, forall_eq]
        exact ⟨empty.inside (by change 0 + 5 ≤ _; omega),
          made.inside (by rw [length_single_binary, zeros, size]; omega),
          filled.inside (by rw [length_single_binary, size]; omega)⟩
      · intro output sized
        have same := sized input rfl
        have after := @stage_binary block keyResponse output (by rw [same]; omega)
        have overwritten : modified (some input) output block =
            (Call.binary output).apply (bsonCreateEmptyDocument block) keyResponse := by
          simp only [modified, controlStages, Call.apply, Call.set, same]
          exact write_again same.symm
        rw [overwritten]
        exact after

theorem length_response {arg : Option (List UInt8)} {output : List UInt8}
    (sized : ∀ input, arg = some input → output.length = input.length) :
    (Elements.append .empty keyResponse (response output arg)).encode.length =
      responseSize arg := by
  cases arg with
  | none => rfl
  | some input => rw [response, length_single_binary, sized input rfl, responseSize]

/-- What is measured for the response. -/
def measureResponse : Option (List UInt8) → Int
  | some input => measureBinary keyResponse input.length
  | none => measureNull keyResponse

/-- The sum that is measured for the response and the number. -/
theorem measured_control {arg : Option (List UInt8)}
    (short : ∀ input, arg = some input → input.length < 2 ^ 31) :
    unsigned (wrap (bsonEmptySize + measureInt32 keyResult + measureResponse arg)) =
      5 + responseSize arg + 12 := by
  cases arg with
  | none => decide
  | some input =>
      have bound := short input rfl
      have number : measureInt32 keyResult = 12 := by decide
      have length8 : keyResponse.bytes.length = 8 := rfl
      simp only [number, measureResponse, responseSize, bsonEmptySize, elementSize, length8]
      rw [measureBinary_eq (by decide), elementSize, length8, unsigned_wrap]
      unfold wrap signed unsigned
      split <;> omega

theorem sound_control (limited : Limited heap) (agrees : Agrees outside heap) {fd req : Int}
    {arg : Option (List UInt8)} (short : ∀ input, arg = some input → input.length < 2 ^ 31)
    (keeps : ∀ input value output, arg = some input →
      outside.ioctl fd req arg = .ok (value, output) → output.length = input.length) :
    Sound (controlFile outside fd req arg) (controlConstruction outside heap fd req arg) := by
  have asked := measured_control short
  change Sound (if outside.malloc 0 (wrap (bsonEmptySize + measureInt32 keyResult +
      measureResponse arg)) = false then _ else _)
    (allocated heap 0 (wrap (bsonEmptySize + measureInt32 keyResult + measureResponse arg)) _)
  refine sound_allocated limited agrees fun small block => ?_
  rw [asked] at small ⊢
  obtain ⟨before, called⟩ := @stages_control arg (by omega) block
  have grow : ∀ {doc}, Inside (5 + responseSize arg) block doc →
      Inside (5 + responseSize arg + 12) block doc := fun inside =>
    ⟨by have length := inside.length; omega, fun index behind => inside.untouched index (by omega)⟩
  cases outcome : outside.ioctl fd req arg with
  | error errno => exact good_nothing errno fun stage listed => grow (before stage listed)
  | ok answer =>
      obtain ⟨value, output⟩ := answer
      have sized : ∀ input, arg = some input → output.length = input.length :=
        fun input same => keeps input value output same outcome
      have length := length_response sized
      have after := called output sized
      have final := @Stage.set _ _ _ keyResult _ _ after (.int32 value) (by
        rw [length]
        change _ + 5 + 12 < _
        omega)
      have lengths : (Elements.append (.append .empty keyResponse (response output arg)) keyResult
          (.int32 value)).encode.length = responseSize arg + 12 := by
        rw [length_append, length]
        rfl
      constructor
      · intro stage listed
        rcases List.mem_append.mp listed with first | rest
        · exact grow (before stage (List.mem_append_left _ first))
        · rw [List.mem_cons, List.mem_cons, List.mem_singleton] at rest
          rcases rest with rfl | rfl | rfl
          · exact grow (before _ (List.mem_append_right _ (.head _)))
          · exact after.inside (by omega)
          · exact final.inside (by omega)
      · intro content errno same
        obtain ⟨sum, built⟩ := final.built
        refine ⟨_, sum, List.getLast?_append_of_ne_nil _ (List.cons_ne_nil _ _), ?_⟩
        cases arg <;> cases same <;> exact built

/-! ## The handlers -/

/-- What the system promises: `read` gives no more than was asked for, and `ioctl` modifies the
bytes it is given. -/
structure Obliging (outside : Outside) : Prop where
  reads : ∀ fd (len : Nat) data, outside.read fd len = .ok data → data.length ≤ len
  keeps : ∀ fd req input value output,
    outside.ioctl fd req (some input) = .ok (value, output) → output.length = input.length

/-- What a handler returns. -/
def answer (outside : Outside) (memories : Memories) (stale : Fin 3 → Int) (params : Option Nat) :
    Builder → Through Outcome
  | .fsOpen => peridotClientFsOpen outside memories stale params
  | .fsRead => peridotClientFsRead outside memories stale params
  | .fsHash => peridotClientFsHash outside memories stale params
  | .fsWrite => peridotClientFsWrite outside memories stale params
  | .fsLseek => peridotClientFsLseek outside memories stale params
  | .fsIoctl => peridotClientFsIoctl outside memories stale params

variable {stale : Fin 3 → Int} {params : Option Nat}

/-- The handlers for open files, once they have their descriptor. -/
theorem sound_withFd {list : List Param} {rest : Int × List Param → Int × Int → Through Outcome}
    {built : Int × List Param → Int × Int → Through (Option Construction)}
    (later : ∀ props found, Sound (rest props found).value (built props found).value) :
    Sound (do
      let props ← getProps memories params list
      if props.1 < 0 then
        fails jsonrpcErrInvalidRequest
      else
        match ← peridotClientFsGetFd outside memories params (offsetAt props.2 0) with
        | .error errno => fails errno
        | .ok found => rest props found : Through Outcome).value
      (withFd outside memories params list built).value := by
  simp only [withFd, Noting.value_bind, Noting.value_ite]
  generalize (getProps memories params list).value = props
  split
  case isTrue => exact sound_failed _
  case isFalse =>
    cases (peridotClientFsGetFd outside memories params (offsetAt props.2 0)).value with
    | error errno => exact sound_failed errno
    | ok found => exact later props found

theorem sound_openPath (limited : Limited heap) (agrees : Agrees outside heap) (path : Nat)
    (flags mode : Int) :
    Sound (openPath outside path flags mode) (openConstruction outside heap path flags mode) := by
  unfold openPath openConstruction
  split
  case isTrue => exact sound_failed _
  case isFalse =>
    refine sound_allocated limited agrees fun small block => ?_
    rw [measured_number (by decide)] at small ⊢
    unfold openVfd
    cases outside.allocVfd with
    | none => exact good_nothing _ (List.forall_mem_nil _)
    | some vfd =>
        simp only []
        cases outside.openFile path flags mode with
        | error errno => exact good_nothing _ (List.forall_mem_nil _)
        | ok fd =>
            simp only []
            split
            case isTrue => exact good_nothing _ (List.forall_mem_nil _)
            case isFalse => exact good_number (Nat.le_refl _) small _ block 0

theorem sound_open (limited : Limited heap) (agrees : Agrees outside heap) :
    Sound (answer outside memories stale params .fsOpen).value
      (Builder.run outside heap memories stale params .fsOpen).value := by
  simp only [answer, peridotClientFsOpen, Builder.run, Noting.value_bind, Noting.value_ite]
  generalize (getProps memories params _).value = props
  split
  case isTrue => exact sound_failed _
  case isFalse =>
    cases (getString memories params (offsetAt props.2 0)).value with
    | none => exact sound_failed _
    | some path =>
        simp only [Noting.value_bind, Noting.value_ite]
        split
        case isTrue => exact sound_failed _
        case isFalse =>
          split
          case isTrue => exact sound_openPath limited agrees _ _ _
          case isFalse =>
            split
            case isTrue => exact sound_failed _
            case isFalse => exact sound_openPath limited agrees _ _ _

/-- The rest of `peridot_client_fs_hash`, as it reads the name of the digest. -/
theorem value_hash (fd len offMethod : Int) :
    (if outside.malloc 0 len = false then
        fails enomem
      else
        match outside.read fd len with
        | .error errno => fails errno
        | .ok data =>
            if outside.malloc 1
                (wrap (bsonEmptySize + measureInt32 keyLength + measureBinary keyHash 32 + len)) =
                false then
              fails enomem
            else do
              let method ← getString memories params offMethod
              match digest outside memories method data with
              | none => fails jsonrpcErrInvalidParams
              | some hash =>
                  pure (some (.append (int32Result keyLength (Int32.ofNat data.length)) keyHash
                    (.binary 0 hash)), 0) : Through Outcome).value =
      hashFile outside memories fd len (getString memories params offMethod).value := by
  unfold hashFile
  split
  case isTrue => rfl
  case isFalse =>
    cases outside.read fd len with
    | error errno => rfl
    | ok data =>
        simp only []
        split
        case isTrue => rfl
        case isFalse =>
          rw [Noting.value_bind]
          cases digest outside memories (getString memories params offMethod).value data <;> rfl

theorem sound_runRead (limited : Limited heap) (agrees : Agrees outside heap)
    (obliging : Obliging outside) :
    Sound (answer outside memories stale params .fsRead).value
      (Builder.run outside heap memories stale params .fsRead).value := by
  refine sound_withFd fun props found => ?_
  have bound : (getInt32 memories params (offsetAt props.2 1) (-1)).value < 2 ^ 31 :=
    getInt32_lt memories.input params _ (by decide)
  simp only [Noting.value_bind]
  generalize (getInt32 memories params (offsetAt props.2 1) (-1)).value = len at bound ⊢
  simp only [Noting.value_ite]
  split
  case isTrue => exact sound_failed _
  case isFalse nonneg =>
    obtain ⟨count, rfl⟩ := Int.eq_ofNat_of_zero_le (Int.not_lt.mp nonneg)
    exact sound_read limited agrees (by omega) fun data outcome =>
      obliging.reads found.2 count data outcome

theorem sound_runHash (limited : Limited heap) (agrees : Agrees outside heap) :
    Sound (answer outside memories stale params .fsHash).value
      (Builder.run outside heap memories stale params .fsHash).value := by
  refine sound_withFd fun props found => ?_
  have bound : (getInt32 memories params (offsetAt props.2 1) (-1)).value < 2 ^ 31 :=
    getInt32_lt memories.input params _ (by decide)
  simp only [Noting.value_bind]
  generalize (getInt32 memories params (offsetAt props.2 1) (-1)).value = len at bound ⊢
  simp only [Noting.value_ite]
  split
  case isTrue => exact sound_failed _
  case isFalse nonneg =>
    obtain ⟨count, rfl⟩ := Int.eq_ofNat_of_zero_le (Int.not_lt.mp nonneg)
    have whole := @sound_hash outside heap memories limited agrees found.2 count (by omega)
      (getString memories params (offsetAt props.2 2)).value
    rw [← value_hash, Noting.value_ite] at whole
    exact whole

theorem sound_runWrite (limited : Limited heap) (agrees : Agrees outside heap) :
    Sound (answer outside memories stale params .fsWrite).value
      (Builder.run outside heap memories stale params .fsWrite).value := by
  refine sound_withFd fun props found => ?_
  simp only [Noting.value_bind]
  cases (getBinary memories params (offsetAt props.2 1)).value with
  | none => exact sound_failed _
  | some binary => exact sound_number limited agrees (by decide) _

theorem sound_runLseek (limited : Limited heap) (agrees : Agrees outside heap) :
    Sound (answer outside memories stale params .fsLseek).value
      (Builder.run outside heap memories stale params .fsLseek).value := by
  refine sound_withFd fun props found => ?_
  simp only [Noting.value_bind, Noting.value_ite]
  split
  case isTrue => exact sound_failed _
  case isFalse => exact sound_number limited agrees (by decide) _

theorem sound_runIoctl (limited : Limited heap) (agrees : Agrees outside heap)
    (obliging : Obliging outside) :
    Sound (answer outside memories stale params .fsIoctl).value
      (Builder.run outside heap memories stale params .fsIoctl).value := by
  refine sound_withFd fun props found => ?_
  simp only [Noting.value_bind, Noting.value_ite]
  split
  case isTrue => exact sound_failed _
  case isFalse =>
    refine sound_control limited agrees ?_ ?_
    · intro input same
      obtain ⟨binary, found, rfl⟩ := Option.map_eq_some_iff.mp same
      have bound := getBinary_lt found
      rw [length_slice]
      omega
    · intro input value output same outcome
      rw [same] at outcome
      exact obliging.keeps _ _ input value output outcome

/-- Every handler builds what it returns inside the block it has allocated for it. -/
theorem sound_run (limited : Limited heap) (agrees : Agrees outside heap)
    (obliging : Obliging outside) (builder : Builder) :
    Sound (answer outside memories stale params builder).value
      (builder.run outside heap memories stale params).value := by
  cases builder with
  | fsOpen => exact sound_open limited agrees
  | fsRead => exact sound_runRead limited agrees obliging
  | fsHash => exact sound_runHash limited agrees
  | fsWrite => exact sound_runWrite limited agrees
  | fsLseek => exact sound_runLseek limited agrees
  | fsIoctl => exact sound_runIoctl limited agrees obliging

/-- The result documents of all handlers stay inside the size that was allocated for them, at
every moment, whatever the parameters hold and whatever the calls outside answer. -/
theorem results_fit (limited : Limited heap) (obliging : Obliging outside) (builder : Builder)
    (memories : Memories) (stale : Fin 3 → Int) (params : Option Nat) :
    ∀ made, (builder.run outside heap memories stale params).value = some made → Fits made := by
  let granting : Outside :=
    { outside with malloc := fun attempt size => (heap attempt (unsigned size)).isSome }
  have same : (builder.run outside heap memories stale params).value =
      (builder.run granting heap memories stale params).value := by
    cases builder <;> rfl
  rw [same]
  exact (@sound_run granting heap memories stale params limited (fun _ _ => rfl)
    ⟨obliging.reads, obliging.keeps⟩ builder).fits

def twoBytesLeft : Outside where
  hashMd5 := true
  hashCrc32 := true
  vfdList := [3]
  validatePath _ _ := true
  malloc _ _ := true
  allocVfd := some 0
  openFile _ _ _ := .ok 3
  canceled := false
  close _ := none
  read _ len := .ok ([0x61, 0x62].take len.toNat)
  write _ data := .ok (Int32.ofNat data.length)
  lseek _ _ _ := .ok 0
  ioctl _ _ input := .ok (0, input.getD [])

def granting : Allocator := fun _ size => if 2 ^ 31 ≤ size then none else some fun _ => 0xcc

def readFour : Memories where
  input := ((documentBytes (Elements.append (.append .empty keyFd (.int32 0)) keyLength
    (.int32 4)).encode).getD · 0)
  low _ := 0

theorem results_fit_readFour :
    ∃ made, (Builder.run twoBytesLeft granting readFour (fun _ => 99) (some 0) .fsRead).value =
      some made ∧ Fits made := by
  have ran : (Builder.run twoBytesLeft granting readFour (fun _ => 99) (some 0) .fsRead).value =
      some ⟨32, fun _ => 0xcc, readStages 4 (.ok [0x61, 0x62]) fun _ => 0xcc⟩ := rfl
  have obliging : Obliging twoBytesLeft := by
    constructor
    · intro fd len data read
      cases read
      rw [Int.toNat_natCast, List.length_take]
      exact Nat.min_le_left _ _
    · intro fd req input value output called
      cases called
      rfl
  exact ⟨_, ran, results_fit (fun _ _ large => if_pos large) obliging .fsRead readFour _ _ _ ran⟩

end PeridotSw.Client.ResultRooms
