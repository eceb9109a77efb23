import Mathlib

/-! Unsigned integers in network byte order. -/

namespace Octets

def be16 (n : Nat) : List UInt8 := [UInt8.ofNat (n / 256), UInt8.ofNat n]

def be32 (n : Nat) : List UInt8 := be16 (n / 65536) ++ be16 n

def read8 : List UInt8 → Option Nat
  | a :: _ => some a.toNat
  | [] => none

def read16 : List UInt8 → Option Nat
  | a :: b :: _ => some (a.toNat * 256 + b.toNat)
  | _ => none

def read32 : List UInt8 → Option Nat
  | a :: b :: c :: d :: _ => some (((a.toNat * 256 + b.toNat) * 256 + c.toNat) * 256 + d.toNat)
  | _ => none

@[simp] theorem length_be16 (n : Nat) : (be16 n).length = 2 := rfl

@[simp] theorem length_be32 (n : Nat) : (be32 n).length = 4 := rfl

@[simp] theorem read8_cons (a : UInt8) (rest : List UInt8) : read8 (a :: rest) = some a.toNat := rfl

@[simp] theorem read16_be16 (n : Nat) (rest : List UInt8) :
    read16 (be16 n ++ rest) = some (n % 65536) := by
  simp only [be16, List.cons_append, List.nil_append, read16, UInt8.toNat_ofNat']
  congr 1
  omega

@[simp] theorem read32_be32 (n : Nat) (rest : List UInt8) :
    read32 (be32 n ++ rest) = some (n % 4294967296) := by
  simp only [be32, be16, List.cons_append, List.nil_append, read32, UInt8.toNat_ofNat']
  congr 1
  omega

theorem read8_cases (bytes : List UInt8) :
    (bytes.length < 1 ∧ read8 bytes = none) ∨ (1 ≤ bytes.length ∧ ∃ n, read8 bytes = some n) := by
  cases bytes <;> simp [read8]

theorem read16_cases (bytes : List UInt8) :
    (bytes.length < 2 ∧ read16 bytes = none) ∨ (2 ≤ bytes.length ∧ ∃ n, read16 bytes = some n) := by
  rcases bytes with _ | ⟨a, _ | ⟨b, rest⟩⟩ <;> simp [read16]

theorem read32_cases (bytes : List UInt8) :
    (bytes.length < 4 ∧ read32 bytes = none) ∨ (4 ≤ bytes.length ∧ ∃ n, read32 bytes = some n) := by
  rcases bytes with _ | ⟨a, _ | ⟨b, _ | ⟨c, _ | ⟨d, rest⟩⟩⟩⟩ <;> simp [read32]

theorem read16_lt {bytes : List UInt8} {n : Nat} (h : read16 bytes = some n) : n < 65536 := by
  match bytes, h with
  | a :: b :: _, h =>
    have high := a.toNat_lt
    have low := b.toNat_lt
    simp only [read16, Option.some.injEq] at h
    omega

/-- The number that bytes stand for in network byte order. -/
def bigEndian (bytes : List UInt8) : Nat := bytes.foldl (fun n b => n * 256 + b.toNat) 0

theorem bigEndian_concat (bytes : List UInt8) (b : UInt8) : bigEndian (bytes ++ [b]) = bigEndian bytes * 256 + b.toNat := by
  rw [bigEndian, List.foldl_append]
  rfl

/-- Different bytes, as many of them, are different numbers. -/
theorem bigEndian_inj {a b : List UInt8} (length : a.length = b.length) (same : bigEndian a = bigEndian b) :
    a = b := by
  induction a using List.reverseRecOn generalizing b with
  | nil => exact (List.length_eq_zero_iff.mp length.symm).symm
  | append_singleton front last ih =>
    rcases List.eq_nil_or_concat b with rfl | ⟨others, other, rfl⟩
    · simp at length
    · rw [List.concat_eq_append] at length same ⊢
      rw [bigEndian_concat, bigEndian_concat] at same
      have small := last.toNat_lt
      have small' := other.toNat_lt
      have equal : last = other := UInt8.toNat_inj.mp (by omega)
      rw [ih (by simpa using length) (by omega), equal]

theorem read16_bigEndian {bytes : List UInt8} {n : Nat} (read : read16 bytes = some n) :
    bigEndian (bytes.take 2) = n := by
  match bytes, read with
  | a :: b :: _, read =>
    obtain rfl := Option.some.inj read
    simp [bigEndian]

theorem read32_bigEndian {bytes : List UInt8} {n : Nat} (read : read32 bytes = some n) :
    bigEndian (bytes.take 4) = n := by
  match bytes, read with
  | a :: b :: c :: d :: _, read =>
    obtain rfl := Option.some.inj read
    simp [bigEndian]

theorem read32_lt {bytes : List UInt8} {n : Nat} (read : read32 bytes = some n) : n < 2 ^ 32 := by
  match bytes, read with
  | a :: b :: c :: d :: _, read =>
    obtain rfl := Option.some.inj read
    have := a.toNat_lt
    have := b.toNat_lt
    have := c.toNat_lt
    have := d.toNat_lt
    omega

theorem bigEndian_append (front back : List UInt8) :
    bigEndian (front ++ back) = bigEndian front * 256 ^ back.length + bigEndian back := by
  induction back using List.reverseRecOn with
  | nil => simp [bigEndian]
  | append_singleton back last ih =>
    rw [← List.append_assoc, bigEndian_concat, ih, bigEndian_concat, List.length_append, List.length_singleton]
    ring

theorem bigEndian_eq_zero {bytes : List UInt8} : bigEndian bytes = 0 ↔ ∀ b ∈ bytes, b = 0 := by
  induction bytes using List.reverseRecOn with
  | nil => simp [bigEndian]
  | append_singleton front last ih =>
    rw [bigEndian_concat, Nat.add_eq_zero_iff, Nat.mul_eq_zero, or_iff_left (by decide), ih,
      show last.toNat = 0 ↔ last = 0 from UInt8.toNat_inj (b := 0)]
    simp [List.mem_append, or_imp, forall_and]

end Octets
