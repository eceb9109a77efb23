import Libflute.Library.Octets

/-! Ones'-complement sums of 16-bit words in network byte order. -/

namespace OnesComplement

/-- The words of some bytes; a last odd byte is the upper half of a word. -/
def words : List UInt8 → List Nat
  | a :: b :: rest => (a.toNat * 256 + b.toNat) :: words rest
  | [a] => [a.toNat * 256]
  | [] => []

/-- Addition of words with the carry added again. -/
def add (a b : Nat) : Nat := if a + b < 2 ^ 16 then a + b else a + b - (2 ^ 16 - 1)

def sum (bytes : List UInt8) : Nat := (words bytes).foldl add 0

/-- What a number is as a word; zero and `2 ^ 16 - 1` stay apart. -/
def residue (n : Nat) : Nat := if n = 0 then 0 else (n - 1) % (2 ^ 16 - 1) + 1

theorem residue_lt (n : Nat) : residue n < 2 ^ 16 := by
  unfold residue
  split <;> omega

theorem residue_of_lt {n : Nat} (small : n < 2 ^ 16) : residue n = n := by
  unfold residue
  split <;> omega

theorem residue_eq_max {n : Nat} : residue n = 2 ^ 16 - 1 ↔ 0 < n ∧ 2 ^ 16 - 1 ∣ n := by
  unfold residue
  split <;> omega

theorem add_eq_residue {a b : Nat} (smallA : a < 2 ^ 16) (smallB : b < 2 ^ 16) : add a b = residue (a + b) := by
  unfold add residue
  split <;> split <;> omega

theorem residue_add (n b : Nat) : residue (residue n + b) = residue (n + b) := by
  unfold residue
  split <;> split <;> split <;> omega

/-- A number and the complement of its residue make up a word of ones. -/
theorem residue_add_complement {n : Nat} (positive : 0 < n) :
    residue (n + (2 ^ 16 - 1 - residue n)) = 2 ^ 16 - 1 := by
  unfold residue
  split <;> split <;> omega

theorem words_lt {bytes : List UInt8} : ∀ w ∈ words bytes, w < 2 ^ 16 := by
  induction bytes using words.induct with
  | case1 a b rest ih =>
    have := a.toNat_lt
    have := b.toNat_lt
    intro w member
    rcases List.mem_cons.mp member with rfl | later
    · omega
    · exact ih w later
  | case2 a =>
    have := a.toNat_lt
    intro w member
    obtain rfl := List.mem_singleton.mp member
    omega
  | case3 => simp [words]

theorem foldl_add {l : List Nat} (small : ∀ w ∈ l, w < 2 ^ 16) (n : Nat) :
    l.foldl add (residue n) = residue (n + l.sum) := by
  induction l generalizing n with
  | nil => rfl
  | cons w rest ih =>
    rw [List.foldl_cons, add_eq_residue (residue_lt n) (small w (by simp)), residue_add,
      ih fun v member => small v (by simp [member]), List.sum_cons, Nat.add_assoc]

/-- The sum is the residue of the plain sum of the words. -/
theorem sum_eq_residue (bytes : List UInt8) : sum bytes = residue (words bytes).sum := by
  have fold : (words bytes).foldl add (residue 0) = _ := foldl_add words_lt 0
  rwa [Nat.zero_add] at fold

/-- Words do not straddle the end of an even number of bytes. -/
theorem words_append {front : List UInt8} (even : 2 ∣ front.length) (back : List UInt8) :
    words (front ++ back) = words front ++ words back := by
  induction front using words.induct with
  | case1 a b rest ih =>
    simp only [List.length_cons] at even
    rw [List.cons_append, List.cons_append, words, words, ih (by omega), List.cons_append]
  | case2 a => simp at even
  | case3 => rfl

theorem sum_words_le (bytes : List UInt8) : (words bytes).sum ≤ (bytes.length + 1) / 2 * (2 ^ 16 - 1) := by
  induction bytes using words.induct with
  | case1 a b rest ih =>
    have := a.toNat_lt
    have := b.toNat_lt
    rw [words, List.sum_cons, List.length_cons, List.length_cons]
    omega
  | case2 a =>
    have := a.toNat_lt
    rw [words, List.sum_singleton, List.length_singleton]
    omega
  | case3 => exact Nat.zero_le _

theorem words_be16 (n : Nat) : words (Octets.be16 n) = [n % 2 ^ 16] := by
  simp only [Octets.be16, words, UInt8.toNat_ofNat']
  congr 1
  omega

theorem sum_words_be16 {front : List UInt8} (even : 2 ∣ front.length) (n : Nat) (back : List UInt8) :
    (words (front ++ (Octets.be16 n ++ back))).sum = (words front).sum + n % 2 ^ 16 + (words back).sum := by
  rw [words_append even, words_append (by simp), words_be16, List.sum_append, List.sum_append, List.sum_singleton,
    Nat.add_assoc]

/-- The complement of the sum, put where a zero was, makes the sum a word of ones. -/
theorem sum_checksum {front : List UInt8} (even : 2 ∣ front.length) (back : List UInt8)
    (positive : 0 < (words (front ++ (Octets.be16 0 ++ back))).sum) :
    sum (front ++ (Octets.be16 (2 ^ 16 - 1 - residue (words (front ++ (Octets.be16 0 ++ back))).sum) ++ back)) =
      2 ^ 16 - 1 := by
  rw [sum_eq_residue]
  set total := (words (front ++ (Octets.be16 0 ++ back))).sum with isTotal
  rw [sum_words_be16 even] at isTotal ⊢
  refine Eq.trans (congrArg residue ?_) (residue_add_complement positive)
  omega

end OnesComplement
