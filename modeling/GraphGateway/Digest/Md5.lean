/-!
This module contains the MD5 digest of a text: 128 bits, computed from its UTF-8
bytes in blocks of 64.
-/

namespace GraphGateway
namespace Md5

/-- The integer parts of `2 ^ 32 * |sin i|` for `i` from 1 to 64. -/
def sines : List UInt32 :=
  [ 0xd76aa478, 0xe8c7b756, 0x242070db, 0xc1bdceee, 0xf57c0faf, 0x4787c62a,
    0xa8304613, 0xfd469501, 0x698098d8, 0x8b44f7af, 0xffff5bb1, 0x895cd7be,
    0x6b901122, 0xfd987193, 0xa679438e, 0x49b40821, 0xf61e2562, 0xc040b340,
    0x265e5a51, 0xe9b6c7aa, 0xd62f105d, 0x02441453, 0xd8a1e681, 0xe7d3fbc8,
    0x21e1cde6, 0xc33707d6, 0xf4d50d87, 0x455a14ed, 0xa9e3e905, 0xfcefa3f8,
    0x676f02d9, 0x8d2a4c8a, 0xfffa3942, 0x8771f681, 0x6d9d6122, 0xfde5380c,
    0xa4beea44, 0x4bdecfa9, 0xf6bb4b60, 0xbebfbc70, 0x289b7ec6, 0xeaa127fa,
    0xd4ef3085, 0x04881d05, 0xd9d4d039, 0xe6db99e5, 0x1fa27cf8, 0xc4ac5665,
    0xf4292244, 0x432aff97, 0xab9423a7, 0xfc93a039, 0x655b59c3, 0x8f0ccc92,
    0xffeff47d, 0x85845dd1, 0x6fa87e4f, 0xfe2ce6e0, 0xa3014314, 0x4e0811a1,
    0xf7537e82, 0xbd3af235, 0x2ad7d2bb, 0xeb86d391
  ]

/-- By how many bits a step rotates, in groups of four for every sixteen steps. -/
def rotations : List (List UInt32) :=
  [[7, 12, 17, 22], [5, 9, 14, 20], [4, 11, 16, 23], [6, 10, 15, 21]]

structure State where
  a : UInt32
  b : UInt32
  c : UInt32
  d : UInt32
deriving DecidableEq, Repr

namespace State

def initial : State :=
  ⟨0x67452301, 0xefcdab89, 0x98badcfe, 0x10325476⟩

def add (s t : State) : State :=
  ⟨s.a + t.a, s.b + t.b, s.c + t.c, s.d + t.d⟩

end State

def rotateLeft (x count : UInt32) : UInt32 :=
  (x <<< count) ||| (x >>> (32 - count))

def mix (step : Nat) (s : State) : UInt32 × Nat :=
  if step < 16 then ((s.b &&& s.c) ||| (~~~s.b &&& s.d), step)
  else if step < 32 then ((s.d &&& s.b) ||| (~~~s.d &&& s.c), (5 * step + 1) % 16)
  else if step < 48 then (s.b ^^^ s.c ^^^ s.d, (3 * step + 5) % 16)
  else (s.c ^^^ (s.b ||| ~~~s.d), (7 * step) % 16)

def step (words : List UInt32) (s : State) (constant : UInt32 × Nat) : State :=
  let (sine, number) := constant
  let (mixed, word) := mix number s
  let rotation := ((rotations.getD (number / 16) []).getD (number % 4) 0)
  let sum := s.a + mixed + sine + words.getD word 0
  ⟨s.d, s.b + rotateLeft sum rotation, s.b, s.c⟩

def block (s : State) (words : List UInt32) : State :=
  s.add (sines.zipIdx.foldl (step words) s)

def littleEndian (n count : Nat) : List UInt8 :=
  (List.range count).map fun i => UInt8.ofNat (n / Nat.pow 256 i)

/-- A text is followed by a one bit, zeros and its length in bits, so that blocks come out even. -/
def padded (bytes : List UInt8) : List UInt8 :=
  let zeros := (119 - bytes.length % 64) % 64
  bytes ++ [0x80] ++ List.replicate zeros 0 ++ littleEndian (8 * bytes.length % UInt64.size) 8

def chunks {α : Type} (size : Nat) (xs : List α) : List (List α) :=
  go xs.length xs
where
  go : Nat → List α → List (List α)
    | 0, _ => []
    | left + 1, xs => if xs.isEmpty then [] else xs.take size :: go left (xs.drop size)

def word (bytes : List UInt8) : UInt32 :=
  bytes.foldr (fun byte n => (n <<< 8) ||| byte.toUInt32) 0

def digest (bytes : List UInt8) : List UInt8 :=
  let blocks := (chunks 64 (padded bytes)).map fun bytes => (chunks 4 bytes).map word
  let s := blocks.foldl block .initial
  [s.a, s.b, s.c, s.d].flatMap fun x => littleEndian x.toNat 4

def hex (text : String) : String :=
  String.ofList ((digest text.toUTF8.toList).flatMap fun byte =>
    [Nat.digitChar (byte.toNat / 16), Nat.digitChar (byte.toNat % 16)])

end Md5
end GraphGateway
