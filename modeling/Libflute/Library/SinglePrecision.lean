import Mathlib

/-! Numbers of 24 significant bits: whole numbers converted to them and quotients
of them rounded up. The exponents are unbounded, so nothing overflows or underflows. -/

theorem lt_ceilDiv_iff {a b k : Nat} (positive : 0 < b) : k < a ⌈/⌉ b ↔ k * b < a := by
  rw [← not_le, ceilDiv_le_iff_le_mul positive, not_le, Nat.mul_comm]

namespace SinglePrecision

/-- The whole number nearest to `p / q`, of two the even one. -/
def roundEven (p q : Nat) : Nat :=
  if 2 * (p % q) < q ∨ 2 * (p % q) = q ∧ p / q % 2 = 0 then p / q else p / q + 1

/-- The number that a whole number is converted to. -/
def ofNat (n : Nat) : Nat :=
  if n ≤ 2 ^ 24 then n
  else
    let exponent := n.log2 - 23
    roundEven n (2 ^ exponent) * 2 ^ exponent

/-- The quotient of two such numbers, itself rounded to one, and then rounded up. -/
def ceilQuotient (p q : Nat) : Nat :=
  if 2 ^ 24 * q ≤ p then
    let exponent := (p / q).log2 - 23
    roundEven p (q * 2 ^ exponent) * 2 ^ exponent
  else
    let digits := if q ≤ p then 23 - (p / q).log2 else 24 + (q / p).log2
    roundEven (p * 2 ^ digits) q ⌈/⌉ 2 ^ digits

/-- The quotient of two whole numbers, taken with 24 significant bits and rounded up. -/
def ceilDivide (a b : Nat) : Nat := ceilQuotient (ofNat a) (ofNat b)

variable {p p' q k n a b : Nat}

theorem roundEven_mul (positive : 0 < q) (k : Nat) : roundEven (k * q) q = k := by
  rw [roundEven, Nat.mul_mod_left, Nat.mul_div_cancel k positive]
  exact if_pos (Or.inl (by omega))

/-- Rounding moves a number up by half of the unit at most. -/
theorem roundEven_le_add (p q : Nat) : 2 * (roundEven p q * q) ≤ 2 * p + q := by
  have parts := Nat.div_add_mod p q
  rw [Nat.mul_comm] at parts
  unfold roundEven
  split
  · omega
  · rw [Nat.add_mul, Nat.one_mul]
    omega

/-- Rounding moves a number down by half of the unit at most. -/
theorem le_roundEven_add (positive : 0 < q) (p : Nat) : 2 * p ≤ 2 * (roundEven p q * q) + q := by
  have parts := Nat.div_add_mod p q
  have rest := Nat.mod_lt p positive
  rw [Nat.mul_comm] at parts
  unfold roundEven
  split
  · omega
  · rw [Nat.add_mul, Nat.one_mul]
    omega

theorem le_roundEven (positive : 0 < q) (below : k * q ≤ p) : k ≤ roundEven p q := by
  have floor : k ≤ p / q := (Nat.le_div_iff_mul_le positive).mpr below
  unfold roundEven
  split <;> omega

theorem roundEven_le (positive : 0 < q) (above : p ≤ k * q) : roundEven p q ≤ k := by
  by_contra more
  have step : (k + 1) * q ≤ roundEven p q * q := Nat.mul_le_mul_right q (by omega)
  rw [Nat.add_mul, Nat.one_mul] at step
  have near := roundEven_le_add p q
  -- only `k` units would be moved so far, and they are not moved at all
  obtain rfl : p = k * q := by omega
  rw [roundEven_mul positive] at more
  omega

theorem roundEven_mono (le : p ≤ p') : roundEven p q ≤ roundEven p' q := by
  have quotients : p / q ≤ p' / q := Nat.div_le_div_right le
  have parts := Nat.div_add_mod p q
  have parts' := Nat.div_add_mod p' q
  unfold roundEven
  rcases quotients.eq_or_lt with same | less
  · rw [same] at parts ⊢
    split <;> split <;> omega
  · split <;> split <;> omega

theorem lt_roundEven (positive : 0 < q) (past : 2 * (k * q) + q < 2 * p) : k < roundEven p q := by
  by_contra less
  have step : roundEven p q * q ≤ k * q := Nat.mul_le_mul_right q (by omega)
  have near := le_roundEven_add positive p
  omega

theorem ofNat_of_le (small : n ≤ 2 ^ 24) : ofNat n = n := if_pos small

/-- Converting a whole number moves it by one part in `2 ^ 24` at most. -/
theorem ofNat_near (n : Nat) : 2 ^ 24 * ofNat n ≤ 2 ^ 24 * n + n ∧ 2 ^ 24 * n ≤ 2 ^ 24 * ofNat n + n := by
  by_cases small : n ≤ 2 ^ 24
  · rw [ofNat_of_le small]
    omega
  have unit : 2 ^ 23 * 2 ^ (n.log2 - 23) ≤ n := by
    have long : 24 ≤ n.log2 := (Nat.le_log2 (by omega)).mpr (by omega)
    rw [← Nat.pow_add, Nat.add_sub_cancel' (by omega)]
    exact Nat.log2_self_le (by omega)
  have up := roundEven_le_add n (2 ^ (n.log2 - 23))
  have down := le_roundEven_add (Nat.two_pow_pos (n.log2 - 23)) n
  rw [ofNat, if_neg small]
  dsimp only
  omega

theorem ofNat_pos (positive : 0 < n) : 0 < ofNat n := by
  have := (ofNat_near n).2
  omega

theorem le_ofNat (large : 2 ^ 24 ≤ n) : 2 ^ 24 ≤ ofNat n := by
  by_cases small : n ≤ 2 ^ 24
  · rw [ofNat_of_le small]
    exact large
  have long : 24 ≤ n.log2 := (Nat.le_log2 (by omega)).mpr large
  have unit : 2 ^ 23 * 2 ^ (n.log2 - 23) ≤ n := by
    rw [← Nat.pow_add, Nat.add_sub_cancel' (by omega)]
    exact Nat.log2_self_le (by omega)
  rw [ofNat, if_neg small]
  calc 2 ^ 24 = 2 ^ 23 * 2 ^ 1 := by norm_num
    _ ≤ roundEven n (2 ^ (n.log2 - 23)) * 2 ^ (n.log2 - 23) :=
      Nat.mul_le_mul (le_roundEven (Nat.two_pow_pos _) unit) (Nat.pow_le_pow_right (by decide) (by omega))

theorem ofNat_mono {m : Nat} (le : n ≤ m) : ofNat n ≤ ofNat m := by
  by_cases small : m ≤ 2 ^ 24
  · rwa [ofNat_of_le small, ofNat_of_le (le.trans small)]
  by_cases smaller : n ≤ 2 ^ 24
  · rw [ofNat_of_le smaller]
    exact smaller.trans (le_ofNat (by omega))
  have bounds : ∀ i, 2 ^ 24 < i → 2 ^ 23 * 2 ^ (i.log2 - 23) ≤ i ∧ i ≤ 2 ^ 24 * 2 ^ (i.log2 - 23) := by
    intro i large
    have long : 24 ≤ i.log2 := (Nat.le_log2 (by omega)).mpr (by omega)
    have below := Nat.log2_self_le (show i ≠ 0 by omega)
    have above : i < 2 ^ (i.log2 + 1) := Nat.lt_log2_self
    rw [← Nat.pow_add, ← Nat.pow_add, Nat.add_sub_cancel' (by omega)]
    exact ⟨below, above.le.trans_eq (by congr 1; omega)⟩
  obtain ⟨_, above⟩ := bounds n (by omega)
  obtain ⟨below, _⟩ := bounds m (by omega)
  have order : n.log2 ≤ m.log2 :=
    (Nat.le_log2 (by omega)).mpr ((Nat.log2_self_le (show n ≠ 0 by omega)).trans le)
  rw [ofNat, if_neg smaller, ofNat, if_neg small]
  rcases order.eq_or_lt with same | lower
  · rw [← same]
    exact Nat.mul_le_mul_right _ (roundEven_mono le)
  · calc roundEven n (2 ^ (n.log2 - 23)) * 2 ^ (n.log2 - 23)
        ≤ 2 ^ 24 * 2 ^ (n.log2 - 23) := Nat.mul_le_mul_right _ (roundEven_le (Nat.two_pow_pos _) above)
      _ = 2 ^ 23 * 2 ^ (n.log2 - 23 + 1) := by ring
      _ ≤ 2 ^ 23 * 2 ^ (m.log2 - 23) := Nat.mul_le_mul_left _ (Nat.pow_le_pow_right (by decide) (by
        have : 24 ≤ n.log2 := (Nat.le_log2 (by omega)).mpr (by omega)
        omega))
      _ ≤ roundEven m (2 ^ (m.log2 - 23)) * 2 ^ (m.log2 - 23) :=
        Nat.mul_le_mul_right _ (le_roundEven (Nat.two_pow_pos _) below)

/-- A quotient that is at least half a unit past `k` is rounded up past it. -/
theorem lt_ceilQuotient (positive : 0 < q) (few : k < 2 ^ 23) (half : (2 * k + 1) * q ≤ 2 * p) :
    k < ceilQuotient p q := by
  unfold ceilQuotient
  split
  · next large =>
    have floor : 2 ^ 24 ≤ p / q := (Nat.le_div_iff_mul_le positive).mpr large
    have long : 24 ≤ (p / q).log2 := (Nat.le_log2 (by omega)).mpr floor
    have unit : 2 ^ 23 * 2 ^ ((p / q).log2 - 23) ≤ p / q := by
      rw [← Nat.pow_add, Nat.add_sub_cancel' (by omega)]
      exact Nat.log2_self_le (by omega)
    have rounded : 2 ^ 23 ≤ roundEven p (q * 2 ^ ((p / q).log2 - 23)) := by
      refine le_roundEven (Nat.mul_pos positive (Nat.two_pow_pos _)) ?_
      calc 2 ^ 23 * (q * 2 ^ ((p / q).log2 - 23)) = 2 ^ 23 * 2 ^ ((p / q).log2 - 23) * q := by ring
        _ ≤ p / q * q := Nat.mul_le_mul_right _ unit
        _ ≤ p := Nat.div_mul_le_self p q
    exact few.trans_le (rounded.trans (Nat.le_mul_of_pos_right _ (Nat.two_pow_pos _)))
  · dsimp only
    generalize isDigits : (if q ≤ p then 23 - (p / q).log2 else 24 + (q / p).log2) = digits
    rw [lt_ceilDiv_iff (Nat.two_pow_pos _)]
    cases digits with
    | zero =>
      -- no digits behind the point: the quotient is `2 ^ 23` at least
      split at isDigits
      · next le =>
        have some : 1 ≤ p / q := (Nat.le_div_iff_mul_le positive).mpr (by omega)
        have floor := (Nat.le_log2 (show p / q ≠ 0 by omega)).mp (show 23 ≤ (p / q).log2 by omega)
        refine (Nat.lt_succ_self _).trans_le (le_roundEven positive ?_)
        rw [Nat.pow_zero, Nat.mul_one, Nat.mul_one]
        exact (Nat.le_div_iff_mul_le positive).mp (by omega)
      · omega
    | succ digits =>
      have rounded : (2 * k + 1) * 2 ^ digits ≤ roundEven (p * 2 ^ (digits + 1)) q := by
        refine le_roundEven positive ?_
        calc (2 * k + 1) * 2 ^ digits * q = (2 * k + 1) * q * 2 ^ digits := by ring
          _ ≤ 2 * p * 2 ^ digits := Nat.mul_le_mul_right _ half
          _ = p * 2 ^ (digits + 1) := by ring
      refine lt_of_lt_of_le ?_ rounded
      calc k * 2 ^ (digits + 1) = 2 * k * 2 ^ digits := by ring
        _ < (2 * k + 1) * 2 ^ digits := Nat.mul_lt_mul_of_pos_right (by omega) (Nat.two_pow_pos _)

/-- Rounding up a quotient that does not exceed a number of 24 bits does not exceed it. -/
theorem ceilQuotient_le (positive : 0 < q) (few : k ≤ 2 ^ 24) (above : p ≤ k * q) : ceilQuotient p q ≤ k := by
  unfold ceilQuotient
  split
  · next large =>
    obtain rfl : k = 2 ^ 24 := le_antisymm few (Nat.le_of_mul_le_mul_right (large.trans above) positive)
    obtain rfl : p = 2 ^ 24 * q := le_antisymm above large
    have exact : roundEven (2 ^ 23 * (q * 2)) (q * 2) = 2 ^ 23 := roundEven_mul (by omega) _
    rw [Nat.mul_div_cancel _ positive, Nat.log2_two_pow, show 2 ^ 24 * q = 2 ^ 23 * (q * 2) by ring]
    change roundEven (2 ^ 23 * (q * 2)) (q * 2) * 2 ≤ 2 ^ 24
    rw [exact]
    decide
  · dsimp only
    rw [ceilDiv_le_iff_le_mul (Nat.two_pow_pos _)]
    refine roundEven_le positive ?_
    calc p * 2 ^ _ ≤ k * q * 2 ^ _ := Nat.mul_le_mul_right _ above
      _ = 2 ^ _ * k * q := by ring

/-- Quotients of numbers up to `2 ^ 24` are rounded up as if they were exact. -/
theorem ceilQuotient_of_le (positive : 0 < q) (le : q ≤ p) (small : p ≤ 2 ^ 24) :
    ceilQuotient p q = p ⌈/⌉ q := by
  have enclosed : p ≤ p ⌈/⌉ q * q := by
    rw [Nat.mul_comm]
    exact (ceilDiv_le_iff_le_mul positive).mp le_rfl
  have fewer : p ⌈/⌉ q ≤ 2 ^ 24 := by
    rw [ceilDiv_le_iff_le_mul positive]
    exact small.trans (Nat.le_mul_of_pos_left _ positive)
  refine le_antisymm (ceilQuotient_le positive fewer enclosed) ?_
  unfold ceilQuotient
  split
  · next large =>
    obtain rfl : q = 1 := by omega
    obtain rfl : p = 2 ^ 24 := by omega
    decide
  · next below =>
    dsimp only
    have some : 1 ≤ p / q := (Nat.le_div_iff_mul_le positive).mpr (by omega)
    have floor := Nat.log2_self_le (show p / q ≠ 0 by omega)
    have short : (p / q).log2 ≤ 23 := by
      have quotient : p / q < 2 ^ 24 := (Nat.div_lt_iff_lt_mul positive).mpr (by omega)
      exact Nat.le_of_lt_succ ((Nat.log2_lt (by omega)).mpr quotient)
    generalize isDigits : 23 - (p / q).log2 = digits
    refine Nat.le_of_pred_lt ((lt_ceilDiv_iff (Nat.two_pow_pos _)).mpr (lt_roundEven positive ?_))
    set k := (p ⌈/⌉ q).pred with isK
    have inside : k * q < p := (lt_ceilDiv_iff positive).mp (Nat.pred_lt (by
      have := (lt_ceilDiv_iff (k := 0) positive).mpr (show 0 * q < p by omega)
      omega))
    by_cases whole : p < (k + 1) * q
    · -- the rest is less than a unit, and the unit less than two at the last digit
      have unit : q < 2 * 2 ^ digits := by
        have quotient : p / q = k := Nat.div_eq_of_lt_le inside.le whole
        refine Nat.lt_of_mul_lt_mul_right (a := 2 ^ (p / q).log2) ?_
        calc q * 2 ^ (p / q).log2 ≤ q * k := Nat.mul_le_mul_left q (floor.trans_eq quotient)
          _ = k * q := Nat.mul_comm q k
          _ < 2 ^ 24 := inside.trans_le small
          _ = 2 * 2 ^ digits * 2 ^ (p / q).log2 := by
            rw [← isDigits, Nat.mul_assoc, ← Nat.pow_add, Nat.sub_add_cancel short]
            rfl
      calc 2 * (k * 2 ^ digits * q) + q < 2 * (k * q + 1) * 2 ^ digits := by ring_nf; omega
        _ ≤ 2 * p * 2 ^ digits := Nat.mul_le_mul_right _ (Nat.mul_le_mul_left _ inside)
        _ = 2 * (p * 2 ^ digits) := by ring
    · calc 2 * (k * 2 ^ digits * q) + q < 2 * (k * q + q) * 2 ^ digits := by
            have := Nat.mul_le_mul_left q (Nat.one_le_two_pow (n := digits))
            ring_nf at this ⊢
            omega
        _ ≤ 2 * p * 2 ^ digits := Nat.mul_le_mul_right _ (by rw [Nat.add_mul] at whole; omega)
        _ = 2 * (p * 2 ^ digits) := by ring

theorem ceilQuotient_pos (positive : 0 < q) (some : 0 < p) : 0 < ceilQuotient p q := by
  by_cases le : q ≤ p
  · exact lt_ceilQuotient positive (by decide) (by omega)
  unfold ceilQuotient
  rw [if_neg (by omega)]
  dsimp only
  rw [if_neg le, lt_ceilDiv_iff (Nat.two_pow_pos _), Nat.zero_mul]
  refine Nat.pos_of_ne_zero (Nat.one_le_iff_ne_zero.mp (le_roundEven positive ?_))
  have scaled : q / p < 2 ^ ((q / p).log2 + 1) := Nat.lt_log2_self
  calc 1 * q ≤ p * 2 ^ ((q / p).log2 + 1) := by
        rw [Nat.one_mul, Nat.mul_comm]
        exact ((Nat.div_lt_iff_lt_mul some).mp scaled).le
    _ ≤ p * 2 ^ (24 + (q / p).log2) := Nat.mul_le_mul_left p (Nat.pow_le_pow_right (by decide) (by omega))

theorem ceilDivide_of_le_divisor (some : 0 < a) (le : a ≤ b) : ceilDivide a b = 1 := by
  have order := ofNat_mono le
  have positive := ofNat_pos some
  exact le_antisymm (ceilQuotient_le (positive.trans_le order) (by decide) (by omega))
    (ceilQuotient_pos (positive.trans_le order) positive)

theorem ceilDivide_short (positive : 0 < b) (le : a ≤ b) : ceilDivide a b = a ⌈/⌉ b := by
  rcases Nat.eq_zero_or_pos a with rfl | some
  · have none : ceilDivide 0 b ≤ 0 := ceilQuotient_le (ofNat_pos positive) (by decide) (by simp [ofNat])
    rw [Nat.le_zero.mp none, zero_ceilDiv]
  · rw [ceilDivide_of_le_divisor some le]
    exact le_antisymm ((lt_ceilDiv_iff positive).mpr (by omega)) ((ceilDiv_le_iff_le_mul positive).mpr (by omega))

/-- Up to `2 ^ 24` a number is divided by any other as if the quotient were exact. -/
theorem ceilDivide_of_le (positive : 0 < b) (small : a ≤ 2 ^ 24) : ceilDivide a b = a ⌈/⌉ b := by
  rcases Nat.le_total a b with le | le
  · exact ceilDivide_short positive le
  · rw [ceilDivide, ofNat_of_le small, ofNat_of_le (le.trans small), ceilQuotient_of_le positive le small]

example : ceilDivide 16777217 1 = 16777216 ∧ ceilDivide 67114572 1428 = 47000 ∧ 67114572 ⌈/⌉ 1428 = 46999 := by
  decide +kernel

/-- Rounding loses nothing of a quotient of at most `2 ^ 22`. -/
theorem le_ceilDivide_mul (positive : 0 < b) (few : k ≤ 2 ^ 22) : k ≤ ceilDivide (k * b) b := by
  cases k with
  | zero => exact Nat.zero_le _
  | succ k =>
    refine lt_ceilQuotient (ofNat_pos positive) (by omega) ?_
    have up := (ofNat_near b).1
    have down := (ofNat_near ((k + 1) * b)).2
    have room : 4 * k * b + 3 * b ≤ 2 ^ 24 * b := by
      rw [← Nat.add_mul]
      exact Nat.mul_le_mul_right b (by omega)
    have scaled := Nat.mul_le_mul_left (2 * k + 1) up
    ring_nf at up down room scaled ⊢
    omega

theorem ceilDivide_le (positive : 0 < b) (few : k ≤ 2 ^ 22) (le : a ≤ k * b) : ceilDivide a b ≤ k + 1 := by
  refine ceilQuotient_le (ofNat_pos positive) (by omega) ((ofNat_mono le).trans ?_)
  have up := (ofNat_near (k * b)).1
  have down := (ofNat_near b).2
  have room : 2 * (k * b) + b ≤ 2 ^ 24 * b := by
    rw [← Nat.mul_assoc, ← Nat.succ_mul]
    exact Nat.mul_le_mul_right b (by omega)
  have scaled := Nat.mul_le_mul_left (k + 1) down
  ring_nf at up down room scaled ⊢
  omega

end SinglePrecision
