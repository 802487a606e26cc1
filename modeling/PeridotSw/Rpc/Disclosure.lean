import PeridotSw.Bson.Offsets
import PeridotSw.Rpc.Reply

/-!
# What the echoed id discloses

The reply copies the element with the id out of the request.  The request has any
content and lies in a buffer of as many bytes as it declares; what follows the buffer is
none of the host's business.  The copy is bounded by the length the element itself
declares, which is not compared with the end of the request.
-/

namespace PeridotSw.Rpc.Disclosure

open PeridotSw.Machine.Memory
open PeridotSw.Machine.Word
open PeridotSw.Bson.Read
open PeridotSw.Bson.Write
open PeridotSw.Bson.Walk
open PeridotSw.Bson.Offsets
open PeridotSw.Rpc.Reply
open PeridotSw.Rpc.Sink (Allocator)

/-- `bson_set_element` copies nothing and returns zero, or a range that ends at or before
the limit. -/
def CopiesInside (mem : Mem) (limit : Nat) (offset : Int) : Prop :=
  ((locateElement (some 0) offset).eval mem = none ∧
      ∀ doc key, bsonSetElement doc key mem (some 0) offset = (doc, 0)) ∨
    ∃ type data elmlen, (locateElement (some 0) offset).eval mem = some (type, data, elmlen) ∧
      data + elmlen ≤ limit

/-- Whatever follows the request in memory, `send_reply` does the same. -/
def SameReply (mem : Mem) (limit : Nat) (offset : Int) : Prop :=
  ∀ other : Mem, (∀ index < limit, other index = mem index) →
    ∀ malloc buffer result errno,
      sendReply malloc buffer other offset result errno =
        sendReply malloc buffer mem offset result errno

/-- Nothing behind the request is disclosed, whichever of its elements is the id. -/
def Discreet (mem : Mem) (limit : Nat) : Prop :=
  ∀ offset, Produced mem 0 offset → CopiesInside mem limit offset ∧ SameReply mem limit offset

/-- A value of a fixed size ends in the buffer; and so does one with a length field, with
the field, unless the length is negative or the size leaves the range of `int`. -/
def Contained (mem : Mem) (limit : Nat) (type : UInt8) (value : Nat) : Prop :=
  match layout type with
  | .fixed length => value + length ≤ limit
  | .counted header => value + 4 ≤ limit ∧
      (word mem value < 2 ^ 31 → word mem value + header < 2 ^ 31 →
        value + (word mem value + header) ≤ limit)
  | .regex => True
  | .unknown => True

variable {mem other : Mem} {limit : Nat}

/-! ## Containment is enough -/

/-- `send_reply` uses the request for the id only. -/
theorem sendReply_congr {offset : Int}
    (same : ∀ doc, bsonSetElement doc keyId other (some 0) offset =
      bsonSetElement doc keyId mem (some 0) offset)
    (malloc : Allocator) (buffer : Mem) (result : Option Mem) (errno : Int32) :
    sendReply malloc buffer other offset result errno =
      sendReply malloc buffer mem offset result errno := by
  have measured : measureHead other offset = measureHead mem offset := by
    simp only [measureHead, same]
  have built (block : Mem) : buildHead block other offset = buildHead block mem offset := by
    simp only [buildHead, same]
  simp only [sendReply, replyPass, measureReply, buildReply, measured, built]

/-- Two memories that agree where an element is located and copied give the same copy. -/
theorem bsonSetElement_congr {offset : Int}
    (agree : ∀ index < limit, other index = mem index)
    (within : (locateElement (some 0) offset).Within mem fun index => index < limit)
    (inside : ∀ type data elmlen,
      (locateElement (some 0) offset).eval mem = some (type, data, elmlen) →
        data + elmlen ≤ limit) (doc : Option Mem) (key : CString) :
    bsonSetElement doc key other (some 0) offset = bsonSetElement doc key mem (some 0) offset := by
  have located : (locateElement (some 0) offset).eval other =
      (locateElement (some 0) offset).eval mem :=
    within.eval_eq fun index below => (agree index below).symm
  unfold bsonSetElement
  rw [located]
  split
  case h_1 => rfl
  case h_2 type data elmlen found =>
    have bound := inside type data elmlen found
    have same : slice other data elmlen = slice mem data elmlen := by
      apply List.map_congr_left
      intro index listed
      have short := List.mem_range.mp listed
      exact agree (data + index) (by omega)
    rw [same]

theorem stop_eq_limit (declared : (readUnalignedInt 0).eval mem = (limit : Int)) {stop : Nat}
    (opens : Opens mem 0 stop) : stop = limit := by
  have same := opens.declared
  rw [eval_readUnalignedInt, signed_eq_of_lt opens.short] at declared
  omega

theorem extent_inside {type : UInt8} {value stop length : Nat}
    (contained : Contained mem limit type value) (region : stop ≤ limit)
    (extent : Extent mem type value stop length) : value + length ≤ limit := by
  cases form : layout type with
  | fixed size =>
      simp only [Contained, Extent, form] at contained extent
      omega
  | counted header =>
      simp only [Contained, Extent, form] at contained extent
      obtain ⟨positive, small, rfl⟩ := extent
      exact contained.2 positive small
  | regex =>
      simp only [Extent, form] at extent
      obtain ⟨pattern, options, name, following, rfl⟩ := extent
      have after := name.after
      have behind := following.after
      have inside := following.inside
      omega
  | unknown => simp only [Extent, form] at extent

theorem discreet_of_contained (declared : (readUnalignedInt 0).eval mem = (limit : Int))
    (contained : ∀ place value, IsElement mem 0 place value →
      Contained mem limit (mem place) value) : Discreet mem limit := by
  intro offset produced
  obtain ⟨place, value, stop, there, opens, leads, item⟩ := element_of_produced produced
  have region : stop ≤ limit := Nat.le_of_eq (stop_eq_limit declared opens)
  have room := contained place value ⟨stop, opens, leads, item⟩
  have field : ∀ header, layout (mem place) = .counted header → value + 4 ≤ limit := by
    intro header form
    simp only [Contained, form] at room
    exact room.1
  have copied : (∃ length, (locateElement (some 0) offset).eval mem =
        some (mem place, value, length) ∧ value + length ≤ limit) ∨
      (locateElement (some 0) offset).eval mem = none := by
    by_cases shaped : ∃ length, Extent mem (mem place) value stop length
    · obtain ⟨length, extent⟩ := shaped
      exact .inl ⟨length, locateElement_of_extent opens leads.le item there extent,
        extent_inside room region extent⟩
    · exact .inr (locateElement_eq_none opens leads.le item there (not_exists.mp shaped))
  constructor
  · rcases copied with ⟨length, located, bound⟩ | nothing
    · exact .inr ⟨_, _, _, located, bound⟩
    · refine .inl ⟨nothing, fun doc key => ?_⟩
      simp only [bsonSetElement, nothing]
  · intro other agree malloc buffer result errno
    refine sendReply_congr (fun doc => ?_) malloc buffer result errno
    refine bsonSetElement_congr agree
      (locateElement_within opens leads.le item there region field) ?_ doc keyId
    intro type data elmlen found
    rcases copied with ⟨length, located, bound⟩ | nothing
    · cases located.symm.trans found
      exact bound
    · cases nothing.symm.trans found

/-! ## Containment is needed -/

theorem word_congr {base : Nat} (agree : ∀ index < limit, other index = mem index)
    (room : base + 4 ≤ limit) : word other base = word mem base := by
  simp only [word]
  rw [agree base (by omega), agree (base + 1) (by omega), agree (base + 2) (by omega),
    agree (base + 3) (by omega)]

theorem opens_congr {stop : Nat} (agree : ∀ index < limit, other index = mem index)
    (opens : Opens mem 0 stop) (region : stop ≤ limit) : Opens other 0 stop := by
  have declared := opens.declared
  have long := opens.long
  have same : word other 0 = word mem 0 := word_congr agree (by omega)
  refine ⟨same ▸ declared, same ▸ long, same ▸ opens.short, ?_⟩
  rw [agree (stop - 1) (by omega)]
  exact opens.terminated

theorem item_congr {place value stop : Nat} (agree : ∀ index < limit, other index = mem index)
    (item : Item mem stop place value) (region : stop ≤ limit) : Item other stop place value := by
  have inside := item.inside
  have after := item.name.after
  have behind := item.name.inside
  refine ⟨inside, ?_, after, behind, ?_, fun index low high => ?_⟩
  · rw [agree place (by omega)]
    exact item.typed
  · rw [agree (value - 1) (by omega)]
    exact item.name.terminated
  · rw [agree index (by omega)]
    exact item.name.nulFree index low high

/-- The first allocation of a reply that can say how long the reply is. -/
theorem measureReply_of_same {first second buffer : Mem} {offset : Int}
    (same : sendReply (fun _ _ => some buffer) buffer first offset none 0 =
      sendReply (fun _ _ => some buffer) buffer second offset none 0) :
    unsigned (measureReply buffer first offset none 0) =
      unsigned (measureReply buffer second offset none 0) := by
  simp only [sendReply, replyPass, onResult, List.nil_append] at same
  injection same with _ behind
  injection behind with size _
  injection size

theorem unsigned_wrap_add (first second : Int) :
    unsigned (wrap first + second) = unsigned (first + second) := by
  unfold wrap signed unsigned
  split <;> omega

/-- The size of a reply without a document is that of the id and thirty bytes. -/
theorem unsigned_measureReply (buffer input : Mem) (offset : Int) :
    unsigned (measureReply buffer input offset none 0) =
      unsigned ((bsonSetElement none keyId input (some 0) offset).2 + 30) := by
  have version : wrap (bsonEmptySize + (bsonSetString none keyJsonrpc jsonrpcVer).2) = 22 := by
    decide
  have null : (bsonSetNull none keyResult).2 = 8 := by decide
  simp only [measureReply, measureHead, version, null, if_true]
  rw [unsigned_wrap, unsigned_wrap_add]
  congr 1
  omega

/-- A memory in which only the last byte of a length field differs. -/
theorem word_write_last (mem : Mem) (value : Nat) (byte : UInt8) :
    word (write mem (value + 3) [byte]) value =
      le32 (mem value) (mem (value + 1)) (mem (value + 2)) byte := by
  have kept (index : Nat) (low : index < value + 3) :
      write mem (value + 3) [byte] index = mem index := write_outside (.inl low)
  have stored : write mem (value + 3) [byte] (value + 3) = byte :=
    (holds_cons ..).mp (holds_write mem (value + 3) [byte]) |>.1
  simp only [word]
  rw [kept value (by omega), kept (value + 1) (by omega), kept (value + 2) (by omega), stored]

/-- A length field that reaches behind the buffer decides about the reply. -/
theorem field_of_sameReply {place value stop header : Nat} {offset : Int}
    (opens : Opens mem 0 stop) (after : 0 + 4 ≤ place) (item : Item mem stop place value)
    (there : offset = (place : Int) - (0 : Nat)) (region : stop ≤ limit)
    (form : layout (mem place) = .counted header) (same : SameReply mem limit offset) :
    value + 4 ≤ limit := by
  refine Nat.le_of_not_lt fun outside => ?_
  have agree (byte : UInt8) : ∀ index < limit, write mem (value + 3) [byte] index = mem index :=
    fun index below => write_outside (.inl (by omega))
  have kept (byte : UInt8) : write mem (value + 3) [byte] place = mem place :=
    agree byte place (Nat.lt_of_lt_of_le item.inside region)
  have small : header ≤ 16 := by
    have bound := constantSize_le (mem place)
    rwa [form] at bound
  have field (byte : UInt8) (digit : Nat) (spelled : byte.toNat = digit) :
      2 ^ 24 * digit ≤ word (write mem (value + 3) [byte]) value ∧
        word (write mem (value + 3) [byte]) value < 2 ^ 24 * (digit + 1) := by
    have h0 := (mem value).toNat_lt
    have h1 := (mem (value + 1)).toNat_lt
    have h2 := (mem (value + 2)).toNat_lt
    rw [word_write_last, le32, spelled]
    omega
  have high := (field 0x7e 126 rfl).2
  have sizes : unsigned ((bsonSetElement none keyId (write mem (value + 3) [0xff]) (some 0)
        offset).2 + 30) =
      unsigned ((bsonSetElement none keyId (write mem (value + 3) [0x7e]) (some 0)
        offset).2 + 30) := by
    rw [← unsigned_measureReply mem, ← unsigned_measureReply mem]
    exact measureReply_of_same ((same _ (agree 0xff) _ mem none 0).trans
      (same _ (agree 0x7e) _ mem none 0).symm)
  have negative : (locateElement (some 0) offset).eval (write mem (value + 3) [0xff]) = none := by
    refine locateElement_eq_none (opens_congr (agree 0xff) opens region) after
      (item_congr (agree 0xff) item region) there fun length extent => ?_
    rw [kept] at extent
    simp only [Extent, form] at extent
    have low := (field 0xff 255 rfl).1
    omega
  have positive : (locateElement (some 0) offset).eval (write mem (value + 3) [0x7e]) =
      some (mem place, value, word (write mem (value + 3) [0x7e]) value + header) := by
    rw [← kept 0x7e]
    refine locateElement_of_extent (opens_congr (agree 0x7e) opens region) after
      (item_congr (agree 0x7e) item region) there ?_
    rw [kept]
    simp only [Extent, form]
    exact ⟨by omega, by omega, trivial⟩
  have key : stringSize keyId = 3 := by decide
  simp only [bsonSetElement, negative, positive, setSubelement, length_slice, key] at sizes
  generalize word (write mem (value + 3) [0x7e]) value = count at high sizes
  rw [unsigned_wrap_add] at sizes
  unfold unsigned at sizes
  omega

theorem contained_of_discreet (declared : (readUnalignedInt 0).eval mem = (limit : Int))
    (discreet : Discreet mem limit) {place value : Nat} (element : IsElement mem 0 place value) :
    Contained mem limit (mem place) value := by
  obtain ⟨stop, opens, leads, item⟩ := element
  have region : stop ≤ limit := Nat.le_of_eq (stop_eq_limit declared opens)
  obtain ⟨copies, same⟩ :=
    discreet _ (produced_of_element ⟨place, value, stop, rfl, opens, leads, item⟩)
  have bound {length : Nat} (extent : Extent mem (mem place) value stop length) :
      value + length ≤ limit := by
    have located := locateElement_of_extent opens leads.le item rfl extent
    rcases copies with ⟨nothing, -⟩ | ⟨type, data, elmlen, found, inside⟩
    · cases located.symm.trans nothing
    · cases located.symm.trans found
      exact inside
  cases form : layout (mem place) with
  | fixed size =>
      simp only [Contained, form]
      exact bound (by simp only [Extent, form])
  | counted header =>
      simp only [Contained, form]
      refine ⟨field_of_sameReply opens leads.le item rfl region form same, ?_⟩
      intro positive small
      refine bound ?_
      simp only [Extent, form]
      exact ⟨positive, small, trivial⟩
  | regex => simp only [Contained, form]
  | unknown => simp only [Contained, form]

/-! ## The echoed id -/

/-- Nothing is disclosed exactly when every element of the request that can be the id ends
in the buffer, as far as its type and its length field say. -/
theorem discreet_iff (declared : (readUnalignedInt 0).eval mem = (limit : Int)) :
    Discreet mem limit ↔ ∀ place value, IsElement mem 0 place value →
      Contained mem limit (mem place) value :=
  ⟨fun discreet _ _ element => contained_of_discreet declared discreet element,
    discreet_of_contained declared⟩

/-- The request `{"id": …}` of thirteen bytes whose id is a string that claims to have a
hundred bytes. -/
def boastful : Mem := fun index =>
  [13, 0, 0, 0, 2, 0x69, 0x64, 0, 100, 0, 0, 0, 0].getD index 0xee

theorem discreet_iff_boastful :
    Discreet boastful 13 ↔ ∀ place value, IsElement boastful 0 place value →
      Contained boastful 13 (boastful place) value :=
  discreet_iff (by decide)

/-- The reply has the bytes behind the request in it. -/
theorem not_discreet_boastful :
    (readUnalignedInt 0).eval boastful = ((13 : Nat) : Int) ∧ ¬ Discreet boastful 13 := by
  refine ⟨by decide, fun discreet => ?_⟩
  have props : ((bsonGetProps 0 (keys [keyId])).eval boastful).2 = [⟨keyId, 4⟩] := rfl
  have produced : Produced boastful 0 4 :=
    ⟨[keyId], ⟨keyId, 4⟩, props ▸ List.mem_singleton_self _, rfl, by decide⟩
  have located : (locateElement (some 0) 4).eval boastful = some (2, 8, 104) := by decide
  rcases (discreet 4 produced).1 with ⟨nothing, -⟩ | ⟨type, data, elmlen, found, inside⟩
  · cases located.symm.trans nothing
  · cases located.symm.trans found
    exact absurd inside (by decide)

end PeridotSw.Rpc.Disclosure
