import Mathlib

/-! The MD5 digest of a byte string. -/

namespace Md5

/-- How far the four steps rotate that each of the four rounds repeats. -/
def rotations : List Nat := [7, 12, 17, 22, 5, 9, 14, 20, 4, 11, 16, 23, 6, 10, 15, 21]

/-- The first 32 bits of the fractions of the sines of 1, …, 64. -/
def constants : List Nat := [
  0xd76aa478, 0xe8c7b756, 0x242070db, 0xc1bdceee, 0xf57c0faf, 0x4787c62a, 0xa8304613, 0xfd469501,
  0x698098d8, 0x8b44f7af, 0xffff5bb1, 0x895cd7be, 0x6b901122, 0xfd987193, 0xa679438e, 0x49b40821,
  0xf61e2562, 0xc040b340, 0x265e5a51, 0xe9b6c7aa, 0xd62f105d, 0x02441453, 0xd8a1e681, 0xe7d3fbc8,
  0x21e1cde6, 0xc33707d6, 0xf4d50d87, 0x455a14ed, 0xa9e3e905, 0xfcefa3f8, 0x676f02d9, 0x8d2a4c8a,
  0xfffa3942, 0x8771f681, 0x6d9d6122, 0xfde5380c, 0xa4beea44, 0x4bdecfa9, 0xf6bb4b60, 0xbebfbc70,
  0x289b7ec6, 0xeaa127fa, 0xd4ef3085, 0x04881d05, 0xd9d4d039, 0xe6db99e5, 0x1fa27cf8, 0xc4ac5665,
  0xf4292244, 0x432aff97, 0xab9423a7, 0xfc93a039, 0x655b59c3, 0x8f0ccc92, 0xffeff47d, 0x85845dd1,
  0x6fa87e4f, 0xfe2ce6e0, 0xa3014314, 0x4e0811a1, 0xf7537e82, 0xbd3af235, 0x2ad7d2bb, 0xeb86d391]

def rotl (n k : Nat) : Nat := (n <<< k ||| n >>> (32 - k)) % 2 ^ 32

/-- The function of three words a round uses. -/
def mix (round b c d : Nat) : Nat :=
  match round with
  | 0 => b &&& c ||| (b ^^^ 0xffffffff) &&& d
  | 1 => b &&& d ||| c &&& (d ^^^ 0xffffffff)
  | 2 => b ^^^ c ^^^ d
  | _ => c ^^^ (b ||| d ^^^ 0xffffffff)

/-- The word of the block a step reads. -/
def wordIndex (round i : Nat) : Nat :=
  match round with
  | 0 => i % 16
  | 1 => (5 * i + 1) % 16
  | 2 => (3 * i + 5) % 16
  | _ => 7 * i % 16

/-- The steps of one block that are left, with the constants of these steps. -/
def steps (words : List Nat) : (constants : List Nat) → (i a b c d : Nat) → Nat × Nat × Nat × Nat
  | [], _, a, b, c, d => (a, b, c, d)
  | t :: rest, i, a, b, c, d =>
    let sum := (a + mix (i / 16) b c d + t + words.getD (wordIndex (i / 16) i) 0) % 2 ^ 32
    steps words rest (i + 1) d ((b + rotl sum (rotations.getD (i / 16 * 4 + i % 4) 0)) % 2 ^ 32) b c

/-- The lowest `n` bytes of a number. -/
def littleEndian : (n : Nat) → Nat → List UInt8
  | 0, _ => []
  | n + 1, v => UInt8.ofNat (v % 256) :: littleEndian n (v / 256)

def words : List UInt8 → List Nat
  | a :: b :: c :: d :: rest => (a.toNat + 256 * (b.toNat + 256 * (c.toNat + 256 * d.toNat))) :: words rest
  | _ => []

def pad (data : List UInt8) : List UInt8 :=
  data ++ 0x80 :: List.replicate ((119 - data.length % 64) % 64) 0 ++ littleEndian 8 (data.length * 8)

def blocks : (n : Nat) → List Nat → (a b c d : Nat) → Nat × Nat × Nat × Nat
  | 0, _, a, b, c, d => (a, b, c, d)
  | n + 1, ws, a, b, c, d =>
    let (a', b', c', d') := steps (ws.take 16) constants 0 a b c d
    blocks n (ws.drop 16) ((a + a') % 2 ^ 32) ((b + b') % 2 ^ 32) ((c + c') % 2 ^ 32) ((d + d') % 2 ^ 32)

def digest (data : List UInt8) : List UInt8 :=
  let ws := words (pad data)
  let (a, b, c, d) := blocks (ws.length / 16) ws 0x67452301 0xefcdab89 0x98badcfe 0x10325476
  littleEndian 4 a ++ littleEndian 4 b ++ littleEndian 4 c ++ littleEndian 4 d

@[simp] theorem length_littleEndian (n v : Nat) : (littleEndian n v).length = n := by
  induction n generalizing v with
  | zero => rfl
  | succ n ih => simp [littleEndian, ih]

theorem length_digest (data : List UInt8) : (digest data).length = 16 := by
  simp [digest]

example : digest "abc".toUTF8.toList = [0x90, 0x01, 0x50, 0x98, 0x3c, 0xd2, 0x4f, 0xb0,
    0xd6, 0x96, 0x3f, 0x7d, 0x28, 0xe1, 0x7f, 0x72] := by decide +kernel

end Md5
