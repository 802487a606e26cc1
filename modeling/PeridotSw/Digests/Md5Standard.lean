import PeridotSw.Digests.Md5
import PeridotSw.Machine.Sine

/-!
# MD5 by its definition

The message is padded to whole blocks, and every block is put into four registers by four
rounds of sixteen operations.  The constants are the first bits of sines.
-/

namespace PeridotSw.Digests.Md5Standard

open PeridotSw.Machine.Word
open PeridotSw.Machine.Sine
open PeridotSw.Digests.Md5

/-! ## The definition -/

/-- The four auxiliary functions. -/
inductive Auxiliary where
  | f
  | g
  | h
  | i
  deriving DecidableEq

def Auxiliary.apply (x y z : UInt32) : Auxiliary → UInt32
  | .f => (x &&& y) ||| (~~~x &&& z)
  | .g => (x &&& z) ||| (y &&& ~~~z)
  | .h => x ^^^ y ^^^ z
  | .i => y ^^^ (x ||| ~~~z)

/-- `T[i]`: the integer part of `4294967296` times `abs(sin(i))`. -/
noncomputable def sineConstant (i : Nat) : UInt32 :=
  UInt32.ofNat ⌊((2 ^ 32 : Nat) : ℝ) * |Real.sin i|⌋₊

/-- The numbers in `[abcd k s i]`. -/
structure Operation where
  k : Nat
  s : Nat
  i : Nat
  deriving DecidableEq

/-- `a = b + ((a + F(b,c,d) + X[k] + T[i]) <<< s)`, the new value of `a`. -/
noncomputable def operate (block : Nat → UInt32) (auxiliary : Auxiliary) (operation : Operation)
    (a b c d : UInt32) : UInt32 :=
  b + UInt32.ofBitVec (BitVec.rotateLeft
    (a + auxiliary.apply b c d + block operation.k + sineConstant operation.i).toBitVec
      operation.s)

/-- Four operations, which give `A`, `D`, `C` and `B` a new value in turn. -/
structure Row where
  auxiliary : Auxiliary
  first : Operation
  second : Operation
  third : Operation
  fourth : Operation

noncomputable def Row.apply (block : Nat → UInt32) (words : Words) (row : Row) : Words :=
  let a := operate block row.auxiliary row.first words.a words.b words.c words.d
  let d := operate block row.auxiliary row.second words.d a words.b words.c
  let c := operate block row.auxiliary row.third words.c d a words.b
  let b := operate block row.auxiliary row.fourth words.b c d a
  ⟨a, b, c, d⟩

def rows : List Row := [
  ⟨.f, ⟨0, 7, 1⟩, ⟨1, 12, 2⟩, ⟨2, 17, 3⟩, ⟨3, 22, 4⟩⟩,
  ⟨.f, ⟨4, 7, 5⟩, ⟨5, 12, 6⟩, ⟨6, 17, 7⟩, ⟨7, 22, 8⟩⟩,
  ⟨.f, ⟨8, 7, 9⟩, ⟨9, 12, 10⟩, ⟨10, 17, 11⟩, ⟨11, 22, 12⟩⟩,
  ⟨.f, ⟨12, 7, 13⟩, ⟨13, 12, 14⟩, ⟨14, 17, 15⟩, ⟨15, 22, 16⟩⟩,
  ⟨.g, ⟨1, 5, 17⟩, ⟨6, 9, 18⟩, ⟨11, 14, 19⟩, ⟨0, 20, 20⟩⟩,
  ⟨.g, ⟨5, 5, 21⟩, ⟨10, 9, 22⟩, ⟨15, 14, 23⟩, ⟨4, 20, 24⟩⟩,
  ⟨.g, ⟨9, 5, 25⟩, ⟨14, 9, 26⟩, ⟨3, 14, 27⟩, ⟨8, 20, 28⟩⟩,
  ⟨.g, ⟨13, 5, 29⟩, ⟨2, 9, 30⟩, ⟨7, 14, 31⟩, ⟨12, 20, 32⟩⟩,
  ⟨.h, ⟨5, 4, 33⟩, ⟨8, 11, 34⟩, ⟨11, 16, 35⟩, ⟨14, 23, 36⟩⟩,
  ⟨.h, ⟨1, 4, 37⟩, ⟨4, 11, 38⟩, ⟨7, 16, 39⟩, ⟨10, 23, 40⟩⟩,
  ⟨.h, ⟨13, 4, 41⟩, ⟨0, 11, 42⟩, ⟨3, 16, 43⟩, ⟨6, 23, 44⟩⟩,
  ⟨.h, ⟨9, 4, 45⟩, ⟨12, 11, 46⟩, ⟨15, 16, 47⟩, ⟨2, 23, 48⟩⟩,
  ⟨.i, ⟨0, 6, 49⟩, ⟨7, 10, 50⟩, ⟨14, 15, 51⟩, ⟨5, 21, 52⟩⟩,
  ⟨.i, ⟨12, 6, 53⟩, ⟨3, 10, 54⟩, ⟨10, 15, 55⟩, ⟨1, 21, 56⟩⟩,
  ⟨.i, ⟨8, 6, 57⟩, ⟨15, 10, 58⟩, ⟨6, 15, 59⟩, ⟨13, 21, 60⟩⟩,
  ⟨.i, ⟨4, 6, 61⟩, ⟨11, 10, 62⟩, ⟨2, 15, 63⟩, ⟨9, 21, 64⟩⟩]

def blockWord (block : List UInt8) (k : Nat) : UInt32 :=
  UInt32.ofNat (le32 (block.getD (4 * k) 0) (block.getD (4 * k + 1) 0) (block.getD (4 * k + 2) 0)
    (block.getD (4 * k + 3) 0))

noncomputable def processBlock (words : Words) (block : List UInt8) : Words :=
  let last := rows.foldl (Row.apply (blockWord block)) words
  ⟨words.a + last.a, words.b + last.b, words.c + last.c, words.d + last.d⟩

/-- The blocks of a number of bytes, one after the other. -/
noncomputable def processBlocks : Nat → List UInt8 → Words → Words
  | 0, _, words => words
  | count + 1, bytes, words =>
      processBlocks count (bytes.drop 64) (processBlock words (bytes.take 64))

/-- The zeros that leave eight bytes to a whole number of blocks. -/
def zeroCount (length : Nat) : Nat := (119 - length % 64) % 64

/-- The number of bits in eight bytes, the lowest first. -/
def lengthBytes (length : Nat) : List UInt8 := (List.range 8).map (byteAt (8 * length))

def padding (length : Nat) : List UInt8 :=
  0x80 :: (List.replicate (zeroCount length) 0 ++ lengthBytes length)

def padded (message : List UInt8) : List UInt8 := message ++ padding message.length

noncomputable def md5 (message : List UInt8) : Vector UInt32 4 :=
  let words := processBlocks ((padded message).length / 64) (padded message)
    ⟨0x67452301, 0xefcdab89, 0x98badcfe, 0x10325476⟩
  #v[words.a, words.b, words.c, words.d]

theorem length_padding (length : Nat) : (padding length).length = zeroCount length + 9 := by
  simp [padding, lengthBytes]

/-! ## The constants -/

/-- The sines of the table lie where the integers say. -/
theorem sineConstant_eq (i : Fin 64) : sineConstant (i + 1) = md5Table2.get i := by
  have inside : ∀ i : Fin 64,
      md5Table2[i].toNat * fineScale + 2 ^ 32 * wholeError (i + 1) ≤
          2 ^ 32 * (whole (i + 1)).sin.natAbs ∧
        2 ^ 32 * (whole (i + 1)).sin.natAbs + 2 ^ 32 * wholeError (i + 1) <
          (md5Table2[i].toNat + 1) * fineScale := by
    decide +kernel
  rw [sineConstant, (near_whole (i + 1)).floor_sin fineScale_pos (inside i).1 (inside i).2,
    UInt32.ofNat_toNat]
  rfl

/-! ## One chunk -/

theorem leftRotate_eq (value : UInt32) {shift : UInt8} (low : 0 < shift.toNat)
    (high : shift.toNat < 32) :
    leftRotate value shift = UInt32.ofBitVec (BitVec.rotateLeft value.toBitVec shift.toNat) := by
  have wide : shift.toUInt32.toNat = shift.toNat := UInt8.toNat_toUInt32 shift
  have left : shift.toUInt32.toBitVec.toNat = shift.toNat := wide
  have right : (32 - shift.toUInt32).toBitVec.toNat = 32 - shift.toNat := by
    have difference : (32 - shift.toUInt32).toNat = (32 : UInt32).toNat - shift.toUInt32.toNat :=
      UInt32.toNat_sub_of_le _ _ (by rw [UInt32.le_iff_toNat_le, wide]; exact high.le)
    rw [wide] at difference
    exact difference
  have modulus : (32 : BitVec 32).toNat = 32 := rfl
  apply UInt32.toBitVec_inj.mp
  rw [leftRotate, UInt32.toBitVec_or, UInt32.toBitVec_shiftLeft, UInt32.toBitVec_shiftRight,
    BitVec.shiftLeft_eq', BitVec.ushiftRight_eq', BitVec.toNat_umod, BitVec.toNat_umod, left,
    right, modulus, Nat.mod_eq_of_lt high, Nat.mod_eq_of_lt (by omega), BitVec.rotateLeft_def,
    Nat.mod_eq_of_lt high]

theorem inputWord_eq (block : List UInt8) (g : Nat) : inputWord block g = blockWord block g := by
  rw [inputWord, blockWord, or_shift_eq_le32, Nat.mul_comm g 4]
  rfl

noncomputable def turn (block : Nat → UInt32) (words : Words)
    (step : Auxiliary × Operation) : Words where
  a := words.d
  b := operate block step.1 step.2 words.a words.b words.c words.d
  c := words.b
  d := words.c

def auxiliaryOf (i : Nat) : Auxiliary :=
  if i < 16 then .f else if i < 32 then .g else if i < 48 then .h else .i

theorem mixed_eq (i : Nat) (B C D : UInt32) : mixed i B C D = (auxiliaryOf i).apply B C D := by
  unfold mixed auxiliaryOf
  split
  · rfl
  · split
    · rw [Auxiliary.apply, UInt32.and_comm D B, UInt32.and_comm (~~~D) C]
    · split <;> rfl

def stepOf (i : Fin 64) : Auxiliary × Operation :=
  (auxiliaryOf i, ⟨chosen i, (md5Table1.get i).toNat, i + 1⟩)

theorem calcStep_eq_turn (block : List UInt8) (words : Words) (i : Fin 64) :
    calcStep block words i = turn (blockWord block) words (stepOf i) := by
  have range : ∀ i : Fin 64, 0 < md5Table1[i].toNat ∧ md5Table1[i].toNat < 32 := by
    decide +kernel
  unfold calcStep turn operate stepOf
  dsimp only
  rw [leftRotate_eq _ (range i).1 (range i).2, mixed_eq, inputWord_eq, sineConstant_eq,
    UInt32.add_assoc (_ + _) md5Table2[i], UInt32.add_comm md5Table2[i], ← UInt32.add_assoc]
  rfl

def Row.steps (row : Row) : List (Auxiliary × Operation) :=
  [(row.auxiliary, row.first), (row.auxiliary, row.second), (row.auxiliary, row.third),
    (row.auxiliary, row.fourth)]

theorem row_apply_eq (block : Nat → UInt32) (words : Words) (row : Row) :
    row.apply block words = row.steps.foldl (turn block) words := rfl

theorem rows_apply_eq (block : Nat → UInt32) (rows : List Row) (words : Words) :
    rows.foldl (Row.apply block) words = (rows.flatMap Row.steps).foldl (turn block) words := by
  induction rows generalizing words with
  | nil => rfl
  | cons row rest ih => rw [List.foldl_cons, ih, List.flatMap_cons, List.foldl_append, row_apply_eq]

/-- The code makes the steps of the four rounds in order. -/
theorem rows_steps : rows.flatMap Row.steps = (List.finRange 64).map stepOf := by
  decide +kernel

theorem calcChunk_eq (words : Words) (block : List UInt8) :
    calcChunk words block = processBlock words block := by
  have steps : calcStep block = fun words i => turn (blockWord block) words (stepOf i) := by
    funext words i
    exact calcStep_eq_turn block words i
  rw [calcChunk, processBlock, rows_apply_eq, rows_steps, List.foldl_map, steps]

/-! ## The padding -/

theorem set_length_bytes (front : List UInt8) (full : front.length = 56) (b0 b1 b2 b3 : UInt8) :
    ((((front ++ List.replicate 8 0).set 56 b0).set 57 b1).set 58 b2).set 59 b3 =
      front ++ [b0, b1, b2, b3, 0, 0, 0, 0] := by
  rw [List.set_append_right _ _ (by omega), List.set_append_right _ _ (by omega),
    List.set_append_right _ _ (by omega), List.set_append_right _ _ (by omega), full]
  rfl

/-- The rest of the message with the mark behind it, and zeros to the end of the chunk. -/
theorem copied_eq {buf : List UInt8} (short : buf.length < 64) :
    (buf.take buf.length ++ (List.replicate 64 0).drop buf.length).set buf.length 0x80 =
      buf ++ 0x80 :: List.replicate (63 - buf.length) 0 := by
  have zeros : 64 - buf.length = 63 - buf.length + 1 := by omega
  rw [List.take_length, List.drop_replicate, List.set_append_right _ _ (Nat.le_refl _),
    Nat.sub_self, zeros, List.replicate_succ, List.set_cons_zero]

variable {total : Nat} {totalBits : Int}

theorem lengthBytes_eq (small : total < 2 ^ 29) :
    lengthBytes total = bytes32 (8 * total) ++ [0, 0, 0, 0] := by
  have high (index : Nat) (above : 4 ≤ index) : byteAt (8 * total) index = 0 := by
    have gone : (8 * total) >>> (8 * index) = 0 := by
      rw [Nat.shiftRight_eq_zero]
      calc 8 * total < 2 ^ 32 := by omega
        _ ≤ 2 ^ (8 * index) := Nat.pow_le_pow_right (by decide) (by omega)
    rw [byteAt, gone]
    rfl
  simp only [lengthBytes, List.range, List.range.loop, List.map_cons, List.map_nil, bytes32,
    high 4 (by decide), high 5 (by decide), high 6 (by decide), high 7 (by decide),
    List.cons_append, List.nil_append]

/-- A chunk with the mark and the length. -/
theorem tailChunk_short {buf : List UInt8} (bits : unsigned totalBits = 8 * total)
    (small : total < 2 ^ 29) (short : buf.length < 56) :
    tailChunk buf buf.length totalBits =
      buf ++ 0x80 :: (List.replicate (55 - buf.length) 0 ++ lengthBytes total) := by
  have zeros : 63 - buf.length = 55 - buf.length + 8 := by omega
  have split : buf ++ 0x80 :: List.replicate (63 - buf.length) 0 =
      (buf ++ 0x80 :: List.replicate (55 - buf.length) (0 : UInt8)) ++ List.replicate 8 0 := by
    rw [zeros, List.replicate_add, List.append_assoc, List.cons_append]
  rw [tailChunk, if_pos (by omega), if_pos (by omega), Int.toNat_natCast,
    copied_eq (by omega), split, set_length_bytes _ (by simp; omega), bits, lengthBytes_eq small,
    List.append_assoc]
  rfl

/-- A chunk with the mark, the length of which is in the next one. -/
theorem tailChunk_middle {buf : List UInt8} (low : 56 ≤ buf.length) (high : buf.length < 64) :
    tailChunk buf buf.length totalBits = buf ++ 0x80 :: List.replicate (63 - buf.length) 0 := by
  rw [tailChunk, if_neg (by omega), if_pos (by omega), Int.toNat_natCast, copied_eq high]

theorem tailChunk_last {len : Int} (buf : List UInt8) (bits : unsigned totalBits = 8 * total)
    (small : total < 2 ^ 29) (negative : len < 0) :
    tailChunk buf len totalBits = List.replicate 56 0 ++ lengthBytes total := by
  have split : List.replicate 64 (0 : UInt8) = List.replicate 56 0 ++ List.replicate 8 0 := rfl
  rw [tailChunk, if_pos (by omega), if_neg (by omega), split, set_length_bytes _ rfl, bits,
    lengthBytes_eq small]
  rfl

theorem processBlocks_single {block : List UInt8} (full : block.length = 64) (words : Words) :
    processBlocks 1 block words = processBlock words block := by
  rw [processBlocks, processBlocks, List.take_of_length_le (by omega)]

theorem processBlocks_append {first : List UInt8} (full : first.length = 64) (count : Nat)
    (rest : List UInt8) (words : Words) :
    processBlocks (count + 1) (first ++ rest) words =
      processBlocks count rest (processBlock words first) := by
  rw [processBlocks, List.drop_left' full, List.take_left' full]

theorem length_append_padding (buf : List UInt8) :
    (buf ++ padding total).length = buf.length + ((119 - total % 64) % 64 + 9) := by
  rw [List.length_append, length_padding, zeroCount]

theorem calcChunks_short (bits : unsigned totalBits = 8 * total) (small : total < 2 ^ 29)
    {buf : List UInt8} (rest : buf.length % 64 = total % 64) (short : buf.length < 56)
    (words : Words) :
    calcChunks totalBits ((buf.length + 72) / 64) buf.length buf words =
      processBlocks ((buf ++ padding total).length / 64) (buf ++ padding total) words := by
  have zeros : zeroCount total = 55 - buf.length := by
    unfold zeroCount
    omega
  have chunks : (buf.length + 72) / 64 = 1 := by omega
  have blocks : (buf ++ padding total).length / 64 = 1 := by
    rw [length_append_padding]
    omega
  have block : (buf ++ padding total).length = 64 := by
    rw [length_append_padding]
    omega
  rw [chunks, blocks, calcChunks, if_neg (by omega), calcChunks, tailChunk_short bits small short,
    calcChunk_eq, processBlocks_single block, padding, zeros]

/-- Two blocks are left, the second without a byte of the message. -/
theorem calcChunks_middle (bits : unsigned totalBits = 8 * total) (small : total < 2 ^ 29)
    {buf : List UInt8} (rest : buf.length % 64 = total % 64) (low : 56 ≤ buf.length)
    (high : buf.length < 64) (words : Words) :
    calcChunks totalBits ((buf.length + 72) / 64) buf.length buf words =
      processBlocks ((buf ++ padding total).length / 64) (buf ++ padding total) words := by
  have zeros : zeroCount total = 63 - buf.length + 56 := by
    unfold zeroCount
    omega
  have chunks : (buf.length + 72) / 64 = 2 := by omega
  have blocks : (buf ++ padding total).length / 64 = 2 := by
    rw [length_append_padding]
    omega
  have split : buf ++ padding total =
      (buf ++ 0x80 :: List.replicate (63 - buf.length) 0) ++
        (List.replicate 56 0 ++ lengthBytes total) := by
    rw [padding, zeros, List.replicate_add]
    simp
  rw [chunks, blocks, split, calcChunks, if_neg (by omega), calcChunks, if_neg (by omega),
    calcChunks, tailChunk_middle low high, tailChunk_last buf bits small (by omega), calcChunk_eq,
    calcChunk_eq, processBlocks_append (by simp; omega), processBlocks_single rfl]

/-- The chunks of the code are the blocks of what is left of the padded message. -/
theorem calcChunks_eq (bits : unsigned totalBits = 8 * total) (small : total < 2 ^ 29)
    (buf : List UInt8) (rest : buf.length % 64 = total % 64) (words : Words) :
    calcChunks totalBits ((buf.length + 72) / 64) buf.length buf words =
      processBlocks ((buf ++ padding total).length / 64) (buf ++ padding total) words := by
  induction size : buf.length using Nat.strongRecOn generalizing buf words with
  | ind length shorter =>
      subst size
      rcases Nat.lt_or_ge buf.length 64 with last | full
      · rcases Nat.lt_or_ge buf.length 56 with short | middle
        · exact calcChunks_short bits small rest short words
        · exact calcChunks_middle bits small rest middle last words
      · have left : (buf.drop 64).length = buf.length - 64 := List.length_drop
        have later := shorter (buf.drop 64).length (by omega) (buf.drop 64) (by omega)
          (processBlock words (buf.take 64)) rfl
        have chunks : (buf.length + 72) / 64 = ((buf.drop 64).length + 72) / 64 + 1 := by omega
        have blocks : (buf ++ padding total).length / 64 =
            (buf.drop 64 ++ padding total).length / 64 + 1 := by
          rw [length_append_padding, length_append_padding]
          omega
        have split : buf ++ padding total = buf.take 64 ++ (buf.drop 64 ++ padding total) := by
          rw [← List.append_assoc, List.take_append_drop]
        have len : (buf.length : Int) - 64 = ((buf.drop 64).length : Int) := by omega
        have first : (buf.take 64).length = 64 := by
          rw [List.length_take]
          omega
        rw [chunks, blocks, calcChunks, if_pos (by omega), len, calcChunk_eq, later, split,
          processBlocks_append first]

/-- The digest is that of MD5 as long as the number of bits is one of thirty-two bits. -/
theorem digestMd5Calc_of_bits (message : List UInt8) (small : message.length < 2 ^ 29) :
    digestMd5Calc message = md5 message := by
  have count : wrap ((message.length : Int) + 8 + 64) = message.length + 72 := by
    rw [wrap_of_range (by omega) (by omega)]
    omega
  have chunks : (wrap ((message.length : Int) + 8 + 64) >>> (6 : Nat)).toNat =
      (message.length + 72) / 64 := by
    rw [count, Int.shiftRight_eq_div_pow]
    omega
  have bits : unsigned (wrap ((message.length : Int) <<< (3 : Nat))) = 8 * message.length := by
    have shifted : (message.length : Int) <<< (3 : Nat) = ((8 * message.length : Nat) : Int) := by
      rw [Int.shiftLeft_eq]
      push_cast
      omega
    rw [unsigned_wrap, shifted, unsigned_natCast (by omega)]
  have words := calcChunks_eq bits small message rfl initialWords
  unfold digestMd5Calc md5 padded
  dsimp only
  rw [chunks, words]
  rfl

/-- `digest_md5_calc` computes MD5. -/
theorem digestMd5Calc_eq_md5 (message : List UInt8) (small : message.length < 2 ^ 28) :
    digestMd5Calc message = md5 message :=
  digestMd5Calc_of_bits message (Nat.lt_trans small (by decide))

/-- The message `"abc"`. -/
theorem digestMd5Calc_eq_md5_abc :
    digestMd5Calc [0x61, 0x62, 0x63] = md5 [0x61, 0x62, 0x63] :=
  digestMd5Calc_eq_md5 [0x61, 0x62, 0x63] (by decide)

/-- The digest of the empty message. -/
example : digestMd5Calc [] = #v[0xd98c1dd4, 0x04b2008f, 0x980980e9, 0x7e42f8ec] := by
  decide +kernel

end PeridotSw.Digests.Md5Standard
