import Mathlib.Data.List.GetD
import PeridotSw.Rubic.ProgHash

/-!
# A host that programs the flash

A host writes an area piece by piece and asks for the digests of its blocks.  From the requests
it has sent and the replies it has got it knows what the flash holds: what was written last,
unless a write has failed there.
-/

namespace PeridotSw.Rubic.Programming

open PeridotSw.Machine.Memory
open PeridotSw.Machine.Word
open PeridotSw.Bson.Document (Elements HoldsDocument Built)
open PeridotSw.Digests.Md5
open PeridotSw.Digests.Md5Standard (md5 digestMd5Calc_of_bits)
open PeridotSw.Rpc.Sink (Allocator)
open PeridotSw.Rpc.ReplyLaw (first)
open PeridotSw.Rpc.Parameters
open PeridotSw.Rubic.ProgWrite
open PeridotSw.Rubic.ProgHash (Device Addressed Course Reading hashContent
  rubicAgentMethodProgHash progHash_course)

/-! ## Bytes that are written over others -/

section

variable {Area Value : Type} [DecidableEq Area]

def overwrite (bytes : Area → Nat → Value) (area : Area) (offset : Nat) (data : List Value) :
    Area → Nat → Value :=
  fun other place =>
    if other = area ∧ offset ≤ place then data.getD (place - offset) (bytes other place)
    else bytes other place

theorem overwrite_of_not {bytes : Area → Nat → Value} {area other : Area} {offset place : Nat}
    {data : List Value}
    (outside : ¬(other = area ∧ offset ≤ place ∧ place < offset + data.length)) :
    overwrite bytes area offset data other place = bytes other place := by
  unfold overwrite
  split
  · rename_i here
    refine List.getD_eq_default _ _ (Nat.le_of_not_lt fun less => outside ⟨here.1, here.2, ?_⟩)
    omega
  · rfl

theorem overwrite_at (bytes : Area → Nat → Value) (area : Area) (offset : Nat)
    {data : List Value} {place : Nat} (after : offset ≤ place)
    (before : place - offset < data.length) :
    overwrite bytes area offset data area place = data[place - offset] := by
  rw [overwrite, if_pos ⟨rfl, after⟩, List.getD_eq_getElem]

end

/-! ## Flash -/

/-- The areas of a flash: the block size of each, if any, and what they hold. -/
structure Flash (World Area : Type) where
  areaOf : CString → Area
  blockSize : Area → Int32
  contents : World → Area → Nat → UInt8

/-- The callbacks, given the memory of the request, read and write the flash: the reader fills
the whole block, a writer that fails may leave anything in its range, and nothing else is
changed. -/
structure Drives {World Area : Type} [DecidableEq Area] (device : Mem → Device World)
    (flash : Flash World Area) : Prop where
  powers : ∀ mem, PowersOfTwo (device mem).toProgrammer
  blksize : ∀ mem area text world, Holds mem area (text.bytes ++ [0]) →
    ((device mem).blksize area (device mem).userData world).1 =
      flash.blockSize (flash.areaOf text)
  asks : ∀ mem area world, flash.contents
    ((device mem).blksize area (device mem).userData world).2 = flash.contents world
  reads : ∀ mem area offset buffer len world, flash.contents
    ((device mem).reader area (device mem).userData offset buffer len world).2.2 =
      flash.contents world
  reader : ∀ mem area text (offset : Nat) buffer (len : Nat) world,
    Holds mem area (text.bytes ++ [0]) →
      0 ≤ ((device mem).reader area (device mem).userData offset buffer len world).1 →
        slice ((device mem).reader area (device mem).userData offset buffer len world).2.1 0 len =
          (List.range len).map fun index =>
            flash.contents world (flash.areaOf text) (offset + index)
  writer : ∀ mem area text (offset : Nat) ptr data world, Holds mem area (text.bytes ++ [0]) →
    Holds mem ptr data →
      let written := (device mem).writer area (device mem).userData offset ptr data.length world
      0 ≤ written.1 → flash.contents written.2 =
        overwrite (flash.contents world) (flash.areaOf text) offset data
  confined : ∀ mem area text (offset : Nat) ptr (len : Nat) world,
    Holds mem area (text.bytes ++ [0]) →
      let written := (device mem).writer area (device mem).userData offset ptr len world
      ∀ other place, ¬(other = flash.areaOf text ∧ offset ≤ place ∧ place < offset + len) →
        flash.contents written.2 other place = flash.contents world other place

/-! ## The session -/

/-- Parameters in memory. -/
structure Params where
  content : Elements
  mem : Mem
  place : Nat
  source : Mem
  sum : Int
  built : Built content source sum
  held : HoldsDocument mem place content

/-- A request, with what the variables of its keys hold before. -/
inductive Request where
  | write (params : Params) (stale : Fin 4 → Int)
  | hash (params : Params) (stale : Fin 2 → Int) (malloc : Allocator)

/-- What the host sees of a request: the parameters it has sent, and the error number or the
answer. -/
inductive Exchange where
  | write (content : Elements) (errno : Int32)
  | hash (content : Elements) (answer : Option Mem)

section

variable {World : Type} (device : Mem → Device World)

def serve : Request → World → Exchange × World
  | .write params stale, world =>
      let outcome := rubicAgentMethodProgWrite (device params.mem).toProgrammer params.mem stale
        params.place world
      (.write params.content outcome.errno, outcome.world)
  | .hash params stale malloc, world =>
      let outcome := rubicAgentMethodProgHash (device params.mem) malloc params.mem stale
        params.place world
      (.hash params.content outcome.returned, outcome.world)

def session : List Request → World → List Exchange × World
  | [], world => ([], world)
  | request :: rest, world =>
      let served := serve device request world
      let later := session rest served.2
      (served.1 :: later.1, later.2)

end

/-! ## What the host knows -/

section

variable {World Area : Type} [DecidableEq Area] (flash : Flash World Area)

abbrev Known (Area : Type) := Area → Nat → Option UInt8

/-- Data that was accepted is known, and where a write has failed nothing is. -/
def learn (known : Known Area) : Exchange → Known Area
  | .write content errno =>
      match first keyArea content, first keyData content with
      | some (.string text), some (.binary _ data) =>
          let offset := (numberUnder content keyOffset (-1)).toNat
          if errno = 0 then overwrite known (flash.areaOf text) offset (data.map some)
          else if errno = eio then
            overwrite known (flash.areaOf text) offset (List.replicate data.length none)
          else known
      | _, _ => known
  | .hash _ _ => known

/-- What is known is so. -/
def Agrees (known : Known Area) (world : World) : Prop :=
  ∀ area place byte, known area place = some byte → flash.contents world area place = byte

/-- Data is accepted only as the digest that came with it says, and the digest that is answered
is that of a block that has all bytes that are known. -/
def Truthful (known : Known Area) : Exchange → Prop
  | .write content errno => errno = 0 →
      ∃ text offset data, first keyArea content = some (.string text) ∧
        Verified content (flash.blockSize (flash.areaOf text)) offset data
  | .hash content answer => ∀ doc, answer = some doc →
      ∃ text offset data sum, first keyArea content = some (.string text) ∧
        Addressed content (flash.blockSize (flash.areaOf text)) offset ∧
          (data.length : Int) = (flash.blockSize (flash.areaOf text)).toInt ∧
            (∀ (index : Nat) (bound : index < data.length) (byte : UInt8),
              known (flash.areaOf text) (offset.toNat + index) = some byte →
                data[index] = byte) ∧
              Built (hashContent (hashBytes (digestMd5Calc data))
                (flash.blockSize (flash.areaOf text))) doc sum ∧
                (data.length < 2 ^ 29 → digestMd5Calc data = md5 data)

/-- Every exchange of a session, by what is known before it. -/
def Sound : Known Area → List Exchange → Prop
  | _, [] => True
  | known, exchange :: rest => Truthful flash known exchange ∧ Sound (learn flash known exchange) rest

end

variable {World Area : Type} {flash : Flash World Area} {device : Mem → Device World}
  {known : Known Area} {world after : World}

theorem Agrees.kept (agrees : Agrees flash known world)
    (same : flash.contents after = flash.contents world) : Agrees flash known after := by
  intro area place byte is
  rw [same]
  exact agrees area place byte is

variable [DecidableEq Area]

theorem Agrees.written {area : Area} {offset : Nat} {data : List UInt8}
    (agrees : Agrees flash known world)
    (written : flash.contents after = overwrite (flash.contents world) area offset data) :
    Agrees flash (overwrite known area offset (data.map some)) after := by
  intro other place byte is
  rw [written]
  by_cases inside : other = area ∧ offset ≤ place ∧ place < offset + data.length
  · obtain ⟨rfl, low, high⟩ := inside
    rw [overwrite_at _ _ _ low (by rw [List.length_map]; omega), List.getElem_map] at is
    rw [overwrite_at _ _ _ low (by omega)]
    exact Option.some.inj is
  · rw [overwrite_of_not inside]
    rw [overwrite_of_not (by rwa [List.length_map])] at is
    exact agrees other place byte is

theorem Agrees.failed {area : Area} {offset count : Nat} (agrees : Agrees flash known world)
    (others : ∀ other place, ¬(other = area ∧ offset ≤ place ∧ place < offset + count) →
      flash.contents after other place = flash.contents world other place) :
    Agrees flash (overwrite known area offset (List.replicate count none)) after := by
  intro other place byte is
  by_cases inside : other = area ∧ offset ≤ place ∧ place < offset + count
  · obtain ⟨rfl, low, high⟩ := inside
    rw [overwrite_at _ _ _ low (by rw [List.length_replicate]; omega),
      List.getElem_replicate] at is
    cases is
  · rw [others other place inside]
    rw [overwrite_of_not (by rwa [List.length_replicate])] at is
    exact agrees other place byte is

/-! ## Writing -/

section

variable {prog : Programmer World} {mem source : Mem} {content : Elements} {sum : Int}
  {params : Nat}

/-- What a write request comes to. -/
inductive Written (prog : Programmer World) (mem : Mem) (content : Elements) (world : World) :
    Outcome World → Prop where
  | refused {outcome : Outcome World} (refusal : outcome.errno ≠ 0 ∧ outcome.errno ≠ eio)
      (left : outcome.world = world ∨
        ∃ area, outcome.world = (prog.blksize area prog.userData world).2) :
      Written prog mem content world outcome
  | tried {outcome : Outcome World} {text : CString} {area : Nat} {offset : Int}
      {data : List UInt8} {ptr : Nat} (named : first keyArea content = some (.string text))
      (path : Holds mem area (text.bytes ++ [0]))
      (verified : Verified content (prog.blksize area prog.userData world).1 offset data)
      (bytes : Holds mem ptr data)
      (left : outcome.world = (prog.writer area prog.userData offset ptr data.length
        (prog.blksize area prog.userData world).2).2)
      (errno : outcome.errno = if (prog.writer area prog.userData offset ptr data.length
        (prog.blksize area prog.userData world).2).1 < 0 then eio else 0) :
      Written prog mem content world outcome

theorem progWrite_written (built : Built content source sum)
    (held : HoldsDocument mem params content) (powers : PowersOfTwo prog) (stale : Fin 4 → Int)
    (world : World) :
    Written prog mem content world (rubicAgentMethodProgWrite prog mem stale params world) := by
  rcases progWrite_course prog held stale world with
    ⟨-, course⟩ | ⟨text, area, named, path, ⟨-, course⟩ | ⟨positive, course⟩⟩
  · rw [course]
    exact .refused (show einval ≠ 0 ∧ einval ≠ eio by decide) (.inl rfl)
  · rw [course]
    exact .refused (show enodev ≠ 0 ∧ enodev ≠ eio by decide) (.inr ⟨area, rfl⟩)
  · rw [course]
    obtain ⟨log, power⟩ := powers area world positive
    rcases writeArea_cases named path rfl built held positive power with
      ⟨text, area, offset, data, ptr, named, path, -, verified, bytes, -, errno, left⟩ | refused
    · exact .tried named path verified bytes left errno
    · exact .refused refused.errno refused.left

end

/-! ## Every exchange -/

theorem learn_refused {content : Elements} {errno : Int32}
    (refusal : errno ≠ 0 ∧ errno ≠ eio) : learn flash known (.write content errno) = known := by
  unfold learn
  dsimp only
  split
  · rw [if_neg refusal.1, if_neg refusal.2]
  · rfl

theorem learn_write {content : Elements} {text : CString} {subtype : UInt8} {data : List UInt8}
    (named : first keyArea content = some (.string text))
    (found : first keyData content = some (.binary subtype data)) (errno : Int32) :
    learn flash known (.write content errno) =
      if errno = 0 then
        overwrite known (flash.areaOf text) (numberUnder content keyOffset (-1)).toNat
          (data.map some)
      else if errno = eio then
        overwrite known (flash.areaOf text) (numberUnder content keyOffset (-1)).toNat
          (List.replicate data.length none)
      else known := by
  unfold learn
  dsimp only
  rw [named, found]

theorem write_sound (drives : Drives device flash) (agrees : Agrees flash known world)
    (params : Params) (stale : Fin 4 → Int) :
    let served := serve device (.write params stale) world
    Truthful flash known served.1 ∧ Agrees flash (learn flash known served.1) served.2 := by
  have written := progWrite_written params.built params.held (drives.powers params.mem) stale
    world
  dsimp only [serve]
  generalize rubicAgentMethodProgWrite (device params.mem).toProgrammer params.mem stale
    params.place world = outcome at written ⊢
  cases written with
  | refused refusal left =>
      refine ⟨fun done => absurd done refusal.1, ?_⟩
      rw [learn_refused refusal]
      rcases left with left | ⟨area, left⟩
      · rw [left]
        exact agrees
      · rw [left]
        exact agrees.kept (drives.asks params.mem area world)
  | @tried text area offset data ptr named path verified bytes left errno =>
      have size := drives.blksize params.mem area text world path
      rw [size] at verified
      obtain ⟨place, rfl⟩ := Int.eq_ofNat_of_zero_le verified.nonneg
      obtain ⟨subtype, found⟩ := verified.bytes
      have here : (numberUnder params.content keyOffset (-1)).toNat = place := by
        rw [← verified.offset_eq, Int.toNat_natCast]
      refine ⟨fun _ => ⟨text, place, data, named, verified⟩, ?_⟩
      rw [learn_write named found, here, errno, left]
      have asked := agrees.kept (drives.asks params.mem area world)
      have confined := drives.confined params.mem area text place ptr data.length
        ((device params.mem).blksize area (device params.mem).userData world).2 path
      have done := drives.writer params.mem area text place ptr data
        ((device params.mem).blksize area (device params.mem).userData world).2 path bytes
      by_cases failed : ((device params.mem).writer area (device params.mem).userData place ptr
          data.length ((device params.mem).blksize area (device params.mem).userData world).2).1 < 0
      · rw [if_pos failed, if_neg (by decide), if_pos rfl]
        exact asked.failed confined
      · rw [if_neg failed, if_pos rfl]
        exact asked.written (done (Int32.not_lt.mp failed))

/-- The digest is that of the bytes the block holds. -/
theorem hash_of_reading (drives : Drives device flash) {mem : Mem} {malloc : Allocator}
    {content : Elements} {reading : Reading}
    (ready : reading.Ready (device mem) malloc mem content world)
    (read : 0 ≤ (reading.read (device mem) world).1) :
    ∃ data : List UInt8, (data.length : Int) = (reading.asked (device mem) world).1.toInt ∧
      reading.hash (device mem) world = hashBytes (digestMd5Calc data) ∧
        ∀ (index : Nat) (bound : index < data.length), data[index] =
          flash.contents (reading.asked (device mem) world).2 (flash.areaOf reading.text)
            (reading.offset.toNat + index) := by
  obtain ⟨place, offset⟩ := Int.eq_ofNat_of_zero_le ready.addressed.nonneg
  obtain ⟨size, length⟩ := Int.eq_ofNat_of_zero_le (Int.le_of_lt
    (Int32.lt_iff_toInt_lt.mp ready.positive))
  have small := Int32.toInt_lt (reading.asked (device mem) world).1
  have number : unsigned (reading.asked (device mem) world).1.toInt = size := by
    rw [length]
    exact unsigned_natCast (by omega)
  have left := drives.reader mem reading.area reading.text place reading.buffer size
    (reading.asked (device mem) world).2 ready.path
  rw [← offset, ← length] at left
  refine ⟨(List.range size).map fun index => flash.contents (reading.asked (device mem) world).2
    (flash.areaOf reading.text) (place + index), ?_, ?_, ?_⟩
  · rw [List.length_map, List.length_range]
    exact length.symm
  · rw [Reading.hash, number]
    exact congrArg (fun bytes => hashBytes (digestMd5Calc bytes)) (left read)
  · intro index bound
    rw [List.getElem_map, List.getElem_range, offset, Int.toNat_natCast]

theorem hash_sound (drives : Drives device flash) (agrees : Agrees flash known world)
    (params : Params) (stale : Fin 2 → Int) (malloc : Allocator) :
    let served := serve device (.hash params stale malloc) world
    Truthful flash known served.1 ∧ Agrees flash (learn flash known served.1) served.2 := by
  have course := @progHash_course _ (device params.mem) malloc _ _ _ _ _ params.built params.held
    (drives.powers params.mem) stale world
  have asks : ∀ reading : Reading, flash.contents (reading.asked (device params.mem) world).2 =
      flash.contents world := fun reading => drives.asks params.mem reading.area world
  have reads : ∀ reading : Reading, flash.contents (reading.read (device params.mem) world).2.2 =
      flash.contents world := fun reading =>
    (drives.reads params.mem _ _ _ _ _).trans (asks reading)
  dsimp only [serve]
  generalize rubicAgentMethodProgHash (device params.mem) malloc params.mem stale params.place
    world = outcome at course ⊢
  cases course with
  | unnamed unnamed => exact ⟨nofun, agrees⟩
  | missing reading => exact ⟨nofun, agrees.kept (asks reading)⟩
  | misplaced reading => exact ⟨nofun, agrees.kept (asks reading)⟩
  | crowded reading => exact ⟨nofun, agrees.kept (asks reading)⟩
  | unread reading => exact ⟨nofun, agrees.kept (reads reading)⟩
  | unanswered reading => exact ⟨nofun, agrees.kept (reads reading)⟩
  | answered reading ready read granted inside left built =>
      refine ⟨?_, agrees.kept (reads reading)⟩
      rintro doc ⟨⟩
      have size := drives.blksize params.mem reading.area reading.text world ready.path
      obtain ⟨data, length, digest, holds⟩ := hash_of_reading drives ready read
      rw [digest, Reading.asked, size] at built
      rw [Reading.asked, size] at length
      have addressed := ready.addressed
      rw [Reading.asked, size] at addressed
      refine ⟨reading.text, reading.offset, data, _, ready.name, addressed, length, ?_, built,
        digestMd5Calc_of_bits data⟩
      intro index bound byte is
      rw [holds index bound, asks reading]
      exact agrees _ _ byte is

theorem serve_sound (drives : Drives device flash) (agrees : Agrees flash known world)
    (request : Request) :
    let served := serve device request world
    Truthful flash known served.1 ∧ Agrees flash (learn flash known served.1) served.2 := by
  cases request with
  | write params stale => exact write_sound drives agrees params stale
  | hash params stale malloc => exact hash_sound drives agrees params stale malloc

/-- In every session what the host has learned is so, and each digest it gets is that of a block
with the bytes that it knows. -/
theorem session_sound (drives : Drives device flash) (requests : List Request)
    (agrees : Agrees flash known world) :
    let done := session device requests world
    Sound flash known done.1 ∧ Agrees flash (done.1.foldl (learn flash) known) done.2 := by
  induction requests generalizing known world with
  | nil => exact ⟨trivial, agrees⟩
  | cons request rest ih =>
      obtain ⟨truthful, now⟩ := serve_sound drives agrees request
      obtain ⟨sound, agreed⟩ := ih now
      exact ⟨⟨truthful, sound⟩, agreed⟩

/-! ## A flash -/

def chip (mem : Mem) : Device Mem where
  blksize _ _ world := (4, world)
  writer _ _ offset ptr len world := (0, write world offset.toNat (slice mem ptr len.toNat))
  userData := 0
  reader _ _ offset _ _ world := (0, fun index => world (offset.toNat + index), world)

def oneArea : Flash Mem Unit where
  areaOf _ := ()
  blockSize _ := 4
  contents world _ := world

theorem drives_chip : Drives chip oneArea where
  powers _ _ _ _ := ⟨2, rfl⟩
  blksize _ _ _ _ _ := rfl
  asks _ _ _ := rfl
  reads _ _ _ _ _ _ := rfl
  reader _ _ _ offset _ len world _ _ := by
    simp only [chip, oneArea, slice, Int.toNat_natCast, Nat.zero_add]
  writer mem area text offset ptr data world _ holds := by
    intro written _
    have bytes : slice mem ptr (data.length : Int).toNat = data := slice_eq_of_holds holds
    funext other place
    show write world (offset : Int).toNat (slice mem ptr (data.length : Int).toNat) place = _
    rw [bytes, Int.toNat_natCast]
    simp [oneArea, overwrite, write, List.getD_eq_getElem?_getD]
  confined mem area text offset ptr len world _ := by
    intro written other place outside
    show write world (offset : Int).toNat (slice mem ptr (len : Int).toNat) place = world place
    rw [Int.toNat_natCast, Int.toNat_natCast]
    refine write_outside ?_
    rw [length_slice]
    by_contra inside
    exact outside ⟨rfl, by omega, by omega⟩

/-- A block is written and its digest asked for, the flash being unknown before. -/
theorem session_sound_oneBlock :
    ∃ written asked : Params, written.content = oneBlock ∧ asked.content = ProgHash.secondBlock ∧
      let done := session chip [.write written fun _ => 99,
        .hash asked (fun _ => 99) fun _ _ => some fun _ => 0] fun _ => 0xff
      Sound oneArea (fun _ _ => none) done.1 ∧
        Agrees oneArea (done.1.foldl (learn oneArea) fun _ _ => none) done.2 := by
  have first : Built oneBlock _ _ :=
    .append (.append (.append (.append (.empty fun _ => 0xaa) (.string _) (by decide)) (.int32 4)
      (by decide)) (.binary [1, 2, 3, 4]) (by decide)) (.binary _) (by decide +kernel)
  have second : Built ProgHash.secondBlock _ _ :=
    .append (.append (.empty fun _ => 0xaa) (.string _) (by decide)) (.int32 4) (by decide)
  exact ⟨⟨_, _, 0, _, _, first, first.holds.1⟩, ⟨_, _, 0, _, _, second, second.holds.1⟩, rfl, rfl,
    session_sound drives_chip _ fun _ _ _ unknown => nomatch unknown⟩

end PeridotSw.Rubic.Programming
