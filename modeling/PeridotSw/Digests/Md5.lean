import Mathlib.Data.List.FinRange
import PeridotSw.Machine.Word

/-!
# The MD5 digest

`digest_md5_calc` takes whole chunks from the message and makes up the one or two chunks of
padding from what is left of the length, which becomes negative in the last one.
-/

namespace PeridotSw.Digests.Md5

open PeridotSw.Machine.Word

def md5Table1 : Vector UInt8 64 :=
  #v[
    7, 12, 17, 22,  7, 12, 17, 22,  7, 12, 17, 22,  7, 12, 17, 22,
    5,  9, 14, 20,  5,  9, 14, 20,  5,  9, 14, 20,  5,  9, 14, 20,
    4, 11, 16, 23,  4, 11, 16, 23,  4, 11, 16, 23,  4, 11, 16, 23,
    6, 10, 15, 21,  6, 10, 15, 21,  6, 10, 15, 21,  6, 10, 15, 21]

/-- `md5_table2` with `DIGESTS_MD5_STATIC_TABLE`. -/
def md5Table2 : Vector UInt32 64 :=
  #v[
    0xd76aa478, 0xe8c7b756, 0x242070db, 0xc1bdceee,
    0xf57c0faf, 0x4787c62a, 0xa8304613, 0xfd469501,
    0x698098d8, 0x8b44f7af, 0xffff5bb1, 0x895cd7be,
    0x6b901122, 0xfd987193, 0xa679438e, 0x49b40821,
    0xf61e2562, 0xc040b340, 0x265e5a51, 0xe9b6c7aa,
    0xd62f105d, 0x02441453, 0xd8a1e681, 0xe7d3fbc8,
    0x21e1cde6, 0xc33707d6, 0xf4d50d87, 0x455a14ed,
    0xa9e3e905, 0xfcefa3f8, 0x676f02d9, 0x8d2a4c8a,
    0xfffa3942, 0x8771f681, 0x6d9d6122, 0xfde5380c,
    0xa4beea44, 0x4bdecfa9, 0xf6bb4b60, 0xbebfbc70,
    0x289b7ec6, 0xeaa127fa, 0xd4ef3085, 0x04881d05,
    0xd9d4d039, 0xe6db99e5, 0x1fa27cf8, 0xc4ac5665,
    0xf4292244, 0x432aff97, 0xab9423a7, 0xfc93a039,
    0x655b59c3, 0x8f0ccc92, 0xffeff47d, 0x85845dd1,
    0x6fa87e4f, 0xfe2ce6e0, 0xa3014314, 0x4e0811a1,
    0xf7537e82, 0xbd3af235, 0x2ad7d2bb, 0xeb86d391]

def leftRotate (value : UInt32) (shift : UInt8) : UInt32 :=
  (value <<< shift.toUInt32) ||| (value >>> (32 - shift.toUInt32))

/-- Four words, as `a0` to `d0` or `A` to `D`. -/
structure Words where
  a : UInt32
  b : UInt32
  c : UInt32
  d : UInt32
  deriving DecidableEq

/-- `F` in step `i`. -/
def mixed (i : Nat) (B C D : UInt32) : UInt32 :=
  if i < 16 then (B &&& C) ||| (~~~B &&& D)
  else if i < 32 then (D &&& B) ||| (~~~D &&& C)
  else if i < 48 then B ^^^ C ^^^ D
  else C ^^^ (B ||| ~~~D)

/-- `g` in step `i`. -/
def chosen (i : Nat) : Nat :=
  if i < 16 then i
  else if i < 32 then (5 * i + 1) &&& 15
  else if i < 48 then (3 * i + 5) &&& 15
  else (7 * i) &&& 15

/-- `input`, the word of the chunk with number `g`. -/
def inputWord (inputBytes : List UInt8) (g : Nat) : UInt32 :=
  UInt32.ofNat ((inputBytes.getD (g * 4 + 0) 0).toNat |||
    (inputBytes.getD (g * 4 + 1) 0).toNat <<< 8 |||
    (inputBytes.getD (g * 4 + 2) 0).toNat <<< 16 |||
    (inputBytes.getD (g * 4 + 3) 0).toNat <<< 24)

/-- The inner loop body. -/
def calcStep (inputBytes : List UInt8) (words : Words) (i : Fin 64) : Words where
  a := words.d
  b := words.b + leftRotate
    (words.a + mixed i words.b words.c words.d + md5Table2[i] + inputWord inputBytes (chosen i))
    md5Table1[i]
  c := words.b
  d := words.c

/-- A chunk is added to the words. -/
def calcChunk (words : Words) (inputBytes : List UInt8) : Words :=
  let last := (List.finRange 64).foldl (calcStep inputBytes) words
  { a := words.a + last.a
    b := words.b + last.b
    c := words.c + last.c
    d := words.d + last.d }

/-- `temp`, for `len` below `64`. -/
def tailChunk (buf : List UInt8) (len totalBits : Int) : List UInt8 :=
  let cleared := List.replicate 64 0
  let copied :=
    if 0 ≤ len then (buf.take len.toNat ++ cleared.drop len.toNat).set len.toNat 0x80
    else cleared
  if len < 56 then
    (((copied.set 56 (byteAt (unsigned totalBits) 0)).set 57 (byteAt (unsigned totalBits) 1)).set
      58 (byteAt (unsigned totalBits) 2)).set 59 (byteAt (unsigned totalBits) 3)
  else copied

/-- The outer loop, with the number of chunks to go. -/
def calcChunks (totalBits : Int) : Nat → Int → List UInt8 → Words → Words
  | 0, _, _, words => words
  | chunks + 1, len, buf, words =>
      if 64 ≤ len then
        calcChunks totalBits chunks (len - 64) (buf.drop 64) (calcChunk words (buf.take 64))
      else
        calcChunks totalBits chunks (len - 64) buf
          (calcChunk words (tailChunk buf len totalBits))

def initialWords : Words where
  a := 0x67452301
  b := 0xefcdab89
  c := 0x98badcfe
  d := 0x10325476

/-- `digest_md5_calc`, `ptr` and `len` being those of the message. -/
def digestMd5Calc (message : List UInt8) : Vector UInt32 4 :=
  let len : Int := message.length
  let chunks := wrap (len + 8 + 64) >>> (6 : Nat)
  let totalBits := wrap (len <<< (3 : Nat))
  let words := calcChunks totalBits chunks.toNat len message initialWords
  #v[words.a, words.b, words.c, words.d]

end PeridotSw.Digests.Md5
