import PeridotSw.Bson.Dump
import PeridotSw.Machine.Checked

/-!
# The text of a dump

`bson_dump_append` formats a piece of text into an array of 128 bytes, and copies as many bytes
of it as the whole piece has to the end of a buffer, which it makes larger by doubling.
-/

namespace PeridotSw.Bson.DumpText

open PeridotSw.Machine.Memory
open PeridotSw.Machine.Word (signed unsigned wrap unsigned_natCast wrap_of_range)
open PeridotSw.Machine.Checked
open PeridotSw.Machine.Noted
open PeridotSw.Bson.Dump (Argument Note bsonDumpImpl)

/-! ## The block -/

/-- `bson_dump_block`; no buffer has been allocated yet when `buffer` is empty. -/
structure DumpBlock where
  length : Int
  capacity : Int
  buffer : List UInt8

def emptyBlock : DumpBlock := ⟨0, 0, []⟩

def tempSize : Nat := 128

/-- What `vsnprintf` returns for a text: its length, or an error when that is no `int`. -/
def printedLength (text : List UInt8) : Int := if text.length < 2 ^ 31 then text.length else -1

/-- `temp` behind `vsnprintf`, with what was in it before at its end. -/
def printed (stale : Mem) (text : List UInt8) : List UInt8 :=
  let shown := text.take (tempSize - 1)
  shown ++ 0 :: slice stale 0 (tempSize - 1 - shown.length)

/-- The loop that doubles the capacity, at most so many times. -/
def doubled : Nat → Int → Int → Except Stop Int
  | 0, _, _ => .error .endless
  | turns + 1, newLen, capacity =>
      if newLen ≥ capacity then doubled turns newLen (wrap (capacity * 2)) else .ok capacity

/-- The turns after which the capacity is 0, and stays so. -/
def allTurns : Nat := 33

/-- `realloc`, the new memory behind the old bytes having any content. -/
def realloc (stale : Mem) (buffer : List UInt8) (size : Nat) : List UInt8 :=
  buffer.take size ++ slice stale 0 (size - buffer.length)

/-- The part of `bson_dump_append` that makes room; `none` when `realloc` fails, for which
`room` is `none`. -/
def makeRoom (room : Option Mem) (block : DumpBlock) (newLen : Int) :
    Except Stop (Option DumpBlock) :=
  if newLen ≥ block.capacity then do
    let capacity ← doubled allTurns newLen (if block.capacity = 0 then tempSize else block.capacity)
    return room.map fun stale =>
      { block with buffer := realloc stale block.buffer (unsigned capacity), capacity := capacity }
  else
    return some block

/-- The bytes `memcpy` reads from the start of an array. -/
def copied (array : List UInt8) (count : Nat) : Except Stop (List UInt8) :=
  if count ≤ array.length then .ok (array.take count) else .error (.outside array.length)

/-- `bson_dump_append` for a piece of text. -/
def bsonDumpAppend (room : Option Mem) (stale : Mem) (block : DumpBlock) (text : List UInt8) :
    Except Stop DumpBlock := do
  let growth := printedLength text
  let newLen := wrap (block.length + growth)
  match ← makeRoom room block newLen with
  | none => return block
  | some block =>
      let bytes ← copied (printed stale text) (unsigned (growth + 1))
      let buffer ← storeAt block.buffer (unsigned block.length) bytes
      return { block with buffer := buffer, length := newLen }

/-! ## Sequences of pieces -/

/-- A piece of text, with what `temp` and newly allocated memory happen to hold. -/
structure Piece where
  text : List UInt8
  stale : Mem
  room : Mem

/-- `bson_dump_append` when allocations succeed. -/
def appendPiece (block : DumpBlock) (piece : Piece) : Except Stop DumpBlock :=
  bsonDumpAppend (some piece.room) piece.stale block piece.text

/-- The buffer of the block holds the text and a terminator, and the fields say so. -/
structure Texts (text : List UInt8) (block : DumpBlock) : Prop where
  length : block.length = text.length
  room : block.length < block.capacity
  whole : block.buffer.length = block.capacity
  held : block.buffer.take (text.length + 1) = text ++ [0]

/-- Every call stays inside `temp` and the buffer, and leaves all text so far in the buffer. -/
def Exact (block : DumpBlock) (text : List UInt8) : List Piece → Prop
  | [] => True
  | piece :: rest => ∃ next, appendPiece block piece = .ok next ∧
      Texts (text ++ piece.text) next ∧ Exact next (text ++ piece.text) rest

def textOf (pieces : List Piece) : List UInt8 := pieces.flatMap Piece.text

/-! ## Doubling -/

variable {newLen : Int} {log turns : Nat}

theorem pow_le_top (small : log ≤ 30) : 2 ^ log ≤ 2 ^ 30 := Nat.pow_le_pow_right (by decide) small

theorem wrap_double (small : log < 30) :
    wrap (((2 ^ log : Nat) : Int) * 2) = ((2 ^ (log + 1) : Nat) : Int) := by
  have top := pow_le_top (Nat.succ_le_of_lt small)
  have next : 2 ^ (log + 1) = 2 ^ log * 2 := Nat.pow_succ 2 log
  rw [wrap_of_range (by omega) (by omega)]
  omega

/-- Up to `2 ^ 30` the doubling ends at a power of two above the length. -/
theorem doubled_ends (low : newLen < 2 ^ 30) (small : log ≤ 30) (enough : 30 < turns + log) :
    ∃ reached, log ≤ reached ∧ reached ≤ 30 ∧ newLen < ((2 ^ reached : Nat) : Int) ∧
      doubled turns newLen ((2 ^ log : Nat) : Int) = .ok ((2 ^ reached : Nat) : Int) := by
  induction turns generalizing log with
  | zero => omega
  | succ turns ih =>
      by_cases more : newLen ≥ ((2 ^ log : Nat) : Int)
      · have less : log < 30 := by
          by_contra top
          obtain rfl : log = 30 := by omega
          omega
        obtain ⟨reached, further, most, above, ends⟩ := ih (Nat.succ_le_of_lt less) (by omega)
        refine ⟨reached, by omega, most, above, ?_⟩
        rw [doubled, if_pos more, wrap_double less, ends]
      · exact ⟨log, Nat.le_refl log, small, Int.not_le.mp more, if_neg more⟩

theorem doubled_zero (high : 0 ≤ newLen) (turns : Nat) :
    doubled turns newLen 0 = .error .endless := by
  induction turns with
  | zero => rfl
  | succ turns ih =>
      rw [doubled, if_pos high]
      exact ih

/-- From `2 ^ 30` on it overflows, and goes on with 0 for ever. -/
theorem doubled_endless (high : 2 ^ 30 ≤ newLen) (small : log ≤ 30) (turns : Nat) :
    doubled turns newLen ((2 ^ log : Nat) : Int) = .error .endless := by
  induction turns generalizing log with
  | zero => rfl
  | succ turns ih =>
      have top := pow_le_top small
      rw [doubled, if_pos (by omega)]
      by_cases less : log < 30
      · rw [wrap_double less]
        exact ih less
      obtain rfl : log = 30 := by omega
      cases turns with
      | zero => rfl
      | succ turns =>
          rw [doubled, if_pos (by
            change (-2 ^ 31 : Int) ≤ newLen
            omega)]
          exact doubled_zero (by omega) turns

/-! ## Making room -/

variable {text : List UInt8} {block next : DumpBlock} {piece : Piece}

/-- A block that holds a text, whether it ends in a terminator or not. -/
structure Kept (text : List UInt8) (block : DumpBlock) : Prop where
  short : text.length < 2 ^ 30
  length : block.length = text.length
  whole : block.buffer.length = block.capacity
  held : block.buffer.take text.length = text
  power : block.capacity = 0 ∨ ∃ log, log ≤ 30 ∧ block.capacity = ((2 ^ log : Nat) : Int)

theorem kept_emptyBlock : Kept [] emptyBlock := ⟨by decide, rfl, rfl, rfl, .inl rfl⟩

theorem Kept.inside (kept : Kept text block) : text.length ≤ block.buffer.length := by
  have lengths := congrArg List.length kept.held
  rw [List.length_take] at lengths
  omega

/-- The capacity the doubling starts from is a power of two. -/
theorem Kept.start (kept : Kept text block) : ∃ log, log ≤ 30 ∧
    (if block.capacity = 0 then (tempSize : Int) else block.capacity) = ((2 ^ log : Nat) : Int) := by
  by_cases fresh : block.capacity = 0
  · exact ⟨7, by decide, if_pos fresh⟩
  · rcases kept.power with zero | power
    · exact absurd zero fresh
    · rw [if_neg fresh]
      exact power

theorem length_realloc (stale : Mem) (buffer : List UInt8) (size : Nat) :
    (realloc stale buffer size).length = size := by
  rw [realloc, List.length_append, List.length_take, length_slice]
  omega

theorem realloc_take (stale : Mem) {buffer : List UInt8} {size count : Nat} (fits : count ≤ size)
    (inside : count ≤ buffer.length) :
    (realloc stale buffer size).take count = buffer.take count := by
  rw [realloc, List.take_append_of_le_length (by rw [List.length_take]; omega), List.take_take,
    Nat.min_eq_left fits]

/-- Below `2 ^ 30` there is room, and the text stays. -/
theorem Kept.makeRoom (kept : Kept text block) (stale : Mem) (behind : text.length ≤ newLen)
    (low : newLen < 2 ^ 30) : ∃ grown, makeRoom (some stale) block newLen = .ok (some grown) ∧
      Kept text grown ∧ newLen < grown.capacity := by
  by_cases full : newLen ≥ block.capacity
  swap
  · exact ⟨block, if_neg full, kept, Int.not_le.mp full⟩
  obtain ⟨log, small, start⟩ := kept.start
  obtain ⟨reached, -, most, above, ends⟩ := @doubled_ends newLen log allTurns low small
    (show 30 < 33 + log by omega)
  have top := pow_le_top most
  have size : unsigned ((2 ^ reached : Nat) : Int) = 2 ^ reached := unsigned_natCast (by omega)
  let grown : DumpBlock :=
    ⟨block.length, ((2 ^ reached : Nat) : Int), realloc stale block.buffer (2 ^ reached)⟩
  have whole : (grown.buffer.length : Int) = grown.capacity :=
    congrArg _ (length_realloc stale block.buffer (2 ^ reached))
  have held : grown.buffer.take text.length = text :=
    (realloc_take stale (by omega) kept.inside).trans kept.held
  refine ⟨grown, ?_, ⟨kept.short, kept.length, whole, held, .inr ⟨reached, most, rfl⟩⟩, above⟩
  rw [DumpText.makeRoom, if_pos full, start, ends, ok_bind, size]
  rfl

/-- From `2 ^ 30` on the loop that makes it never ends. -/
theorem Kept.makeRoom_endless (kept : Kept text block) (room : Option Mem)
    (high : 2 ^ 30 ≤ newLen) : DumpText.makeRoom room block newLen = .error .endless := by
  obtain ⟨log, small, start⟩ := kept.start
  have top := pow_le_top small
  have full : newLen ≥ block.capacity := by
    rcases kept.power with zero | ⟨other, little, power⟩
    · omega
    · have top' := pow_le_top little
      omega
  rw [DumpText.makeRoom, if_pos full, start, doubled_endless high small]
  rfl

/-! ## One piece -/

theorem length_printed (stale : Mem) (text : List UInt8) :
    (printed stale text).length = tempSize := by
  have shown := List.length_take_le (tempSize - 1) text
  simp only [printed, List.length_append, List.length_cons, length_slice]
  unfold tempSize at shown ⊢
  omega

/-- A text that fits is copied whole, with its terminator. -/
theorem copied_printed (stale : Mem) (fits : text.length ≤ 127) :
    copied (printed stale text) (unsigned (printedLength text + 1)) = .ok (text ++ [0]) := by
  have growth : unsigned (printedLength text + 1) = text.length + 1 := by
    rw [printedLength, if_pos (by omega)]
    exact unsigned_natCast (show text.length + 1 < 2 ^ 32 by omega)
  have whole : text.take (tempSize - 1) = text := List.take_of_length_le fits
  rw [copied, growth, length_printed,
    if_pos (show text.length + 1 ≤ tempSize from Nat.succ_le_succ fits), printed, whole,
    List.append_cons, List.take_left' (by rw [List.length_append]; rfl)]

/-- Of a longer one more than the array is read. -/
theorem copied_outside (stale : Mem) (long : 127 < text.length) (int : text.length < 2 ^ 31) :
    copied (printed stale text) (unsigned (printedLength text + 1)) = .error (.outside tempSize) := by
  have growth : unsigned (printedLength text + 1) = text.length + 1 := by
    rw [printedLength, if_pos int]
    exact unsigned_natCast (show text.length + 1 < 2 ^ 32 by omega)
  rw [copied, growth, length_printed,
    if_neg (show ¬text.length + 1 ≤ tempSize from Nat.not_le.mpr (Nat.succ_lt_succ long))]

/-- A piece that fits, as long as the whole text is short enough. -/
theorem Kept.append (kept : Kept text block) (fits : piece.text.length ≤ 127)
    (low : text.length + piece.text.length < 2 ^ 30) :
    ∃ next, appendPiece block piece = .ok next ∧ Texts (text ++ piece.text) next ∧
      Kept (text ++ piece.text) next := by
  have newLen : wrap (block.length + printedLength piece.text) =
      ((text.length + piece.text.length : Nat) : Int) := by
    rw [printedLength, if_pos (by omega), kept.length, wrap_of_range (by omega) (by omega)]
    omega
  obtain ⟨grown, made, kept', above⟩ := kept.makeRoom piece.room
    (show (text.length : Int) ≤ ((text.length + piece.text.length : Nat) : Int) by omega) (by omega)
  have place : unsigned grown.length = text.length := by
    rw [kept'.length]
    exact unsigned_natCast (by omega)
  have whole := kept'.whole
  have inside : text.length + (piece.text ++ [0]).length ≤ grown.buffer.length := by
    rw [List.length_append, List.length_singleton]
    omega
  have stored := storeAt_inside inside
  rw [kept'.held] at stored
  let after : DumpBlock := ⟨((text.length + piece.text.length : Nat) : Int), grown.capacity,
    text ++ (piece.text ++ [0]) ++ grown.buffer.drop (text.length + (piece.text ++ [0]).length)⟩
  have returns : appendPiece block piece = .ok after := by
    rw [appendPiece, bsonDumpAppend]
    simp only [newLen, made, ok_bind, copied_printed piece.stale fits, place, stored]
    rfl
  have length : (text ++ piece.text).length = text.length + piece.text.length :=
    List.length_append
  have size : (after.buffer.length : Int) = after.capacity := by
    rw [← whole]
    simp only [after, List.length_append, List.length_drop] at inside ⊢
    omega
  have held : after.buffer.take ((text ++ piece.text).length + 1) = text ++ piece.text ++ [0] := by
    simp only [after]
    rw [← List.append_assoc, List.take_left' (by rw [List.length_append]; rfl)]
  refine ⟨after, returns, ⟨?_, above, size, held⟩, ⟨?_, ?_, size, ?_, kept'.power⟩⟩
  · rw [length]
  · rw [length]
    exact low
  · rw [length]
  · have shorter := congrArg (List.take (text ++ piece.text).length) held
    rw [List.take_take, Nat.min_eq_left (Nat.le_succ _), List.take_left] at shorter
    exact shorter

/-- What a call that returns has done. -/
theorem appendPiece_cases (returns : appendPiece block piece = .ok next) :
    ∃ grown bytes, DumpText.makeRoom (some piece.room) block
        (wrap (block.length + printedLength piece.text)) = .ok (some grown) ∧
      copied (printed piece.stale piece.text) (unsigned (printedLength piece.text + 1)) =
        .ok bytes ∧ next.length = wrap (block.length + printedLength piece.text) := by
  rw [appendPiece, bsonDumpAppend] at returns
  cases made : DumpText.makeRoom (some piece.room) block
      (wrap (block.length + printedLength piece.text)) with
  | error stop =>
      rw [made] at returns
      cases returns
  | ok grown =>
      rw [made, ok_bind] at returns
      cases grown with
      | none =>
          unfold DumpText.makeRoom at made
          split at made
          · cases ended : doubled allTurns (wrap (block.length + printedLength piece.text))
              (if block.capacity = 0 then tempSize else block.capacity) with
            | error stop =>
                rw [ended] at made
                cases made
            | ok capacity =>
                rw [ended] at made
                cases made
          · cases made
      | some grown =>
          simp only [] at returns
          cases read : copied (printed piece.stale piece.text)
              (unsigned (printedLength piece.text + 1)) with
          | error stop =>
              rw [read] at returns
              cases returns
          | ok bytes =>
              rw [read, ok_bind] at returns
              refine ⟨grown, bytes, rfl, rfl, ?_⟩
              cases stored : storeAt grown.buffer (unsigned grown.length) bytes with
              | error stop =>
                  rw [stored] at returns
                  cases returns
              | ok buffer =>
                  rw [stored] at returns
                  cases returns
                  rfl

/-- A piece that does not fit, or makes the text too long. -/
theorem Kept.not_texts (kept : Kept text block)
    (unfit : ¬(piece.text.length ≤ 127 ∧ text.length + piece.text.length < 2 ^ 30))
    (returns : appendPiece block piece = .ok next) : ¬Texts (text ++ piece.text) next := by
  intro texts
  obtain ⟨grown, bytes, made, read, length⟩ := appendPiece_cases returns
  have short := kept.short
  have whole := texts.length
  rw [List.length_append] at whole
  by_cases int : piece.text.length < 2 ^ 31
  swap
  · rw [printedLength, if_neg int, kept.length, wrap_of_range (by omega) (by omega)] at length
    omega
  by_cases fits : piece.text.length ≤ 127
  · have high := not_lt.mp (not_and.mp unfit fits)
    rw [printedLength, if_pos int, kept.length, wrap_of_range (by omega) (by omega)] at made
    rw [kept.makeRoom_endless _ (by omega)] at made
    cases made
  · rw [copied_outside piece.stale (Nat.not_le.mp fits) int] at read
    cases read

/-! ## All pieces -/

theorem exact_iff (kept : Kept text block) (pieces : List Piece) :
    Exact block text pieces ↔ (∀ piece ∈ pieces, piece.text.length ≤ 127) ∧
      text.length + (textOf pieces).length < 2 ^ 30 := by
  induction pieces generalizing block text with
  | nil => exact iff_of_true trivial ⟨nofun, kept.short⟩
  | cons piece rest ih =>
      have size : text.length + (textOf (piece :: rest)).length =
          (text ++ piece.text).length + (textOf rest).length := by
        rw [textOf, List.flatMap_cons, List.length_append, List.length_append, textOf]
        omega
      rw [size]
      by_cases fits : piece.text.length ≤ 127 ∧ text.length + piece.text.length < 2 ^ 30
      · obtain ⟨next, returns, texts, kept'⟩ := kept.append fits.1 fits.2
        rw [List.forall_mem_cons, and_iff_right fits.1, ← ih kept']
        constructor
        · rintro ⟨other, same, -, right⟩
          cases returns.symm.trans same
          exact right
        · exact fun right => ⟨next, returns, texts, right⟩
      · refine iff_of_false ?_ ?_
        · rintro ⟨next, returns, texts, -⟩
          exact kept.not_texts fits returns texts
        · rintro ⟨all, low⟩
          rw [List.length_append] at low
          exact fits ⟨all piece (.head _), by omega⟩

/-- The calls are right exactly when no piece is longer than the array has room for, and the
text is not too long for a capacity that is an `int`. -/
theorem appends_exact_iff (pieces : List Piece) :
    Exact emptyBlock [] pieces ↔ (∀ piece ∈ pieces, piece.text.length ≤ 127) ∧
      (textOf pieces).length < 2 ^ 30 := by
  rw [exact_iff kept_emptyBlock, List.length_nil, Nat.zero_add]

theorem Exact.texts {pieces : List Piece} (right : Exact block text pieces)
    (nonempty : pieces ≠ []) :
    ∃ last, pieces.foldlM appendPiece block = .ok last ∧ Texts (text ++ textOf pieces) last := by
  induction pieces generalizing block text with
  | nil => exact absurd rfl nonempty
  | cons piece rest ih =>
      obtain ⟨next, returns, texts, later⟩ := right
      rw [List.foldlM_cons, returns, ok_bind, textOf, List.flatMap_cons, ← List.append_assoc]
      cases rest with
      | nil =>
          refine ⟨next, rfl, ?_⟩
          rw [List.flatMap_nil, List.append_nil]
          exact texts
      | cons second others => exact ih later (List.cons_ne_nil second others)

/-- One piece of 128 bytes. -/
theorem not_exact_long :
    ¬Exact emptyBlock [] [⟨List.replicate 128 0x61, fun _ => 0, fun _ => 0⟩] := by
  rintro ⟨next, returns, texts, -⟩
  exact kept_emptyBlock.not_texts (by simp) returns texts

/-! ## Dumps of documents -/

def outputOf : Note → Option (String × List Argument)
  | .output format arguments => some (format, arguments)
  | .turn _ _ => none

/-- The pieces that a dump hands to `bson_dump_append`.  `print` is the formatting of `vsnprintf`,
and `stale` and `room` give what `temp` and new memory hold in each call. -/
def piecesOf (print : String → List Argument → List UInt8) (stale room : Nat → Mem)
    (notes : List Note) : List Piece :=
  (notes.filterMap outputOf).zipIdx.map fun call =>
    ⟨print call.1.1 call.1.2, stale call.2, room call.2⟩

/-- `bson_dump` when allocations succeed: the buffer it returns, as far as the dump has come. -/
def bsonDump (print : String → List Argument → List UInt8) (stale room : Nat → Mem)
    (memory : List UInt8) (indent bound : Nat) (doc : Option Int) : Except Stop (List UInt8) := do
  let dumping := bsonDumpImpl memory indent bound doc false 0
  return (← (piecesOf print stale room (Stopping.notes dumping)).foldlM appendPiece emptyBlock).buffer

/-- While all that is printed is short, the buffer holds it and a terminator. -/
theorem bsonDump_text (print : String → List Argument → List UInt8) (stale room : Nat → Mem)
    (memory : List UInt8) (indent bound : Nat) (doc : Option Int) {pieces : List Piece}
    (calls : piecesOf print stale room
      (Stopping.notes (bsonDumpImpl memory indent bound doc false 0)) = pieces)
    (nonempty : pieces ≠ []) (fits : ∀ piece ∈ pieces, piece.text.length ≤ 127)
    (low : (textOf pieces).length < 2 ^ 30) :
    ∃ buffer, bsonDump print stale room memory indent bound doc = .ok buffer ∧
      buffer.take ((textOf pieces).length + 1) = textOf pieces ++ [0] := by
  have right : Exact emptyBlock [] pieces :=
    (exact_iff kept_emptyBlock pieces).mpr ⟨fits, (Nat.zero_add _).symm ▸ low⟩
  obtain ⟨last, folded, texts⟩ := right.texts nonempty
  refine ⟨last.buffer, ?_, texts.held⟩
  rw [bsonDump]
  simp only [calls, folded, ok_bind]
  rfl

end PeridotSw.Bson.DumpText
