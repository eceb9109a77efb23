import Mathlib

/-! Pieces of a range of numbers, each given by its start and its length. -/

/-- Pieces that follow each other, from one number up to another. -/
inductive Tiles : Nat → List (Nat × Nat) → Nat → Prop
  | nil (a : Nat) : Tiles a [] a
  | cons {a length b : Nat} {rest : List (Nat × Nat)} :
      Tiles (a + length) rest b → Tiles a ((a, length) :: rest) b

/-- Pieces of one length up to the end of a range, where the last piece may be shorter. -/
def cutPieces (first size length : Nat) (count : Nat) : List (Nat × Nat) :=
  (List.range count).map fun k => (first + k * length, min (size - k * length) length)

namespace Tiles

theorem append {a b c : Nat} {front back : List (Nat × Nat)} (tiles : Tiles a front b) (later : Tiles b back c) :
    Tiles a (front ++ back) c := by
  induction tiles with
  | nil => exact later
  | cons _ ih => exact .cons (ih later)

/-- As many pieces as it takes cover the range. -/
theorem of_cutPieces (first size : Nat) {length count : Nat} (inside : ∀ k < count, k * length ≤ size) :
    Tiles first (cutPieces first size length count) (first + min size (count * length)) := by
  induction count with
  | zero =>
    rw [Nat.zero_mul, Nat.min_zero]
    exact .nil first
  | succ count ih =>
    have here := inside count (Nat.lt_succ_self count)
    have earlier := ih fun k before => inside k (by omega)
    rw [min_eq_right here] at earlier
    rw [cutPieces, List.range_succ, List.map_append]
    refine earlier.append ?_
    have last : first + min size ((count + 1) * length) =
        first + count * length + min (size - count * length) length := by
      rw [Nat.succ_mul]
      omega
    rw [last]
    exact .cons (.nil _)

theorem total {a b : Nat} {pieces : List (Nat × Nat)} (tiles : Tiles a pieces b) :
    a + (pieces.map Prod.snd).sum = b := by
  induction tiles with
  | nil => rfl
  | cons _ ih =>
    rw [List.map_cons, List.sum_cons, ← Nat.add_assoc]
    exact ih

end Tiles
