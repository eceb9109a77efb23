import Libflute.File

namespace Libflute

/-- The object parameters for which no count leaves its width: the symbols fit
`uint32_t`, the blocks and the symbols of a block fit the 16-bit map keys. -/
structure FecOti.Tileable (fecOti : FecOti) : Prop where
  symbol_pos : 0 < fecOti.encodingSymbolLength
  block_pos : 0 < fecOti.maxSourceBlockLength
  block_le : fecOti.maxSourceBlockLength ≤ 2 ^ 16
  symbols_lt : fecOti.transferLength ⌈/⌉ fecOti.encodingSymbolLength < 2 ^ 32
  blocks_le : fecOti.transferLength ⌈/⌉ fecOti.encodingSymbolLength ⌈/⌉ fecOti.maxSourceBlockLength ≤ 2 ^ 16

/-- The same with the length of the blocks there are, not the length they may have. -/
structure FecOti.Narrow (fecOti : FecOti) : Prop where
  symbol_pos : 0 < fecOti.encodingSymbolLength
  block_pos : 0 < fecOti.maxSourceBlockLength
  symbols_lt : fecOti.transferLength ⌈/⌉ fecOti.encodingSymbolLength < 2 ^ 32
  blocks_le : fecOti.transferLength ⌈/⌉ fecOti.encodingSymbolLength ⌈/⌉ fecOti.maxSourceBlockLength ≤ 2 ^ 16
  length_le : (fecOti.transferLength ⌈/⌉ fecOti.encodingSymbolLength) ⌈/⌉
    (fecOti.transferLength ⌈/⌉ fecOti.encodingSymbolLength ⌈/⌉ fecOti.maxSourceBlockLength) ≤ 2 ^ 16

theorem le_mul_ceilDiv {a b : Nat} (positive : 0 < b) : a ≤ b * (a ⌈/⌉ b) :=
  (ceilDiv_le_iff_le_mul positive).mp le_rfl

theorem ceilDiv_eq_div_add {a b : Nat} (positive : 0 < b) :
    a ⌈/⌉ b = a / b + if a % b = 0 then 0 else 1 := by
  have split := Nat.div_add_mod a b
  have small := Nat.mod_lt a positive
  rw [Nat.ceilDiv_eq_add_pred_div]
  split_ifs with exact
  · have whole : a + b - 1 = b - 1 + b * (a / b) := by omega
    rw [whole, Nat.add_mul_div_left _ _ positive, Nat.div_eq_of_lt (by omega)]
    omega
  · have more : a + b - 1 = a % b - 1 + b * (a / b + 1) := by rw [Nat.mul_add]; omega
    rw [more, Nat.add_mul_div_left _ _ positive, Nat.div_eq_of_lt (by omega)]
    omega

theorem FecOti.Tileable.narrow {fecOti : FecOti} (tile : fecOti.Tileable) : fecOti.Narrow := by
  refine ⟨tile.symbol_pos, tile.block_pos, tile.symbols_lt, tile.blocks_le, ?_⟩
  set N := fecOti.transferLength ⌈/⌉ fecOti.encodingSymbolLength
  rcases Nat.eq_zero_or_pos (N ⌈/⌉ fecOti.maxSourceBlockLength) with none | some
  · rw [none, ceilDiv_zero]
    exact Nat.zero_le _
  · refine le_trans ?_ tile.block_le
    rw [ceilDiv_le_iff_le_mul some, Nat.mul_comm]
    exact le_mul_ceilDiv tile.block_pos

namespace Partitioning

/-- The symbols in the blocks before block `n`. -/
def blockStart (p : Partitioning) (n : Nat) : Nat :=
  n * p.smallSourceBlockLength + min n p.nofLargeSourceBlocks

/-- Large blocks hold one symbol more than small ones, and there are fewer of
them than blocks. -/
structure Balanced (p : Partitioning) : Prop where
  small_pos : 0 < p.smallSourceBlockLength
  large : p.nofLargeSourceBlocks = 0 ∨ p.largeSourceBlockLength = p.smallSourceBlockLength + 1
  total : p.nofSourceSymbols = p.nofSourceBlocks * p.smallSourceBlockLength + p.nofLargeSourceBlocks
  some_small : p.nofLargeSourceBlocks < p.nofSourceBlocks

variable {p : Partitioning}

theorem Balanced.blockLength_pos (h : p.Balanced) (n : Nat) : 0 < p.blockLength n := by
  have small := h.small_pos
  have large := h.large
  unfold blockLength
  split <;> omega

theorem Balanced.blockStart_succ (h : p.Balanced) (n : Nat) :
    p.blockStart (n + 1) = p.blockStart n + p.blockLength n := by
  have large := h.large
  unfold blockStart blockLength
  rw [Nat.succ_mul]
  split <;> omega

theorem Balanced.blockStart_total (h : p.Balanced) : p.blockStart p.nofSourceBlocks = p.nofSourceSymbols := by
  have few := h.some_small
  rw [h.total, blockStart]
  omega

theorem Balanced.blockStart_mono (h : p.Balanced) : StrictMono p.blockStart :=
  strictMono_nat_of_lt_succ fun n => by
    have next := h.blockStart_succ n
    have positive := h.blockLength_pos n
    omega

/-- Symbol `i` of block `n` is one of the symbols there are. -/
theorem Balanced.index_lt (h : p.Balanced) {n i : Nat} (block : n < p.nofSourceBlocks)
    (within : i < p.blockLength n) : p.blockStart n + i < p.nofSourceSymbols := by
  have next := h.blockStart_succ n
  have last := h.blockStart_mono.monotone (show n + 1 ≤ p.nofSourceBlocks from block)
  rw [h.blockStart_total] at last
  omega

/-- Every symbol there is lies in exactly one block. -/
theorem Balanced.exists_index (h : p.Balanced) {k : Nat} (within : k < p.nofSourceSymbols) :
    ∃ n i, n < p.nofSourceBlocks ∧ i < p.blockLength n ∧ p.blockStart n + i = k := by
  rw [← h.blockStart_total] at within
  generalize p.nofSourceBlocks = blocks at within
  induction blocks with
  | zero => simp [blockStart] at within
  | succ m ih =>
    by_cases earlier : k < p.blockStart m
    · obtain ⟨n, i, block, rest⟩ := ih earlier
      exact ⟨n, i, by omega, rest⟩
    · have next := h.blockStart_succ m
      exact ⟨m, k - p.blockStart m, by omega, by omega, by omega⟩

theorem Balanced.index_unique (h : p.Balanced) {n n' i i' : Nat} (within : i < p.blockLength n)
    (within' : i' < p.blockLength n') (same : p.blockStart n + i = p.blockStart n' + i') :
    n = n' ∧ i = i' := by
  have next := h.blockStart_succ n
  have next' := h.blockStart_succ n'
  rcases lt_trichotomy n n' with before | rfl | after
  · have order := h.blockStart_mono.monotone (show n + 1 ≤ n' from before)
    omega
  · exact ⟨rfl, by omega⟩
  · have order := h.blockStart_mono.monotone (show n' + 1 ≤ n from after)
    omega

end Partitioning

variable {fecOti : FecOti}

theorem largeSourceBlockLength_eq (fecOti : FecOti) :
    (calculatePartitioning fecOti).largeSourceBlockLength =
      (calculatePartitioning fecOti).nofSourceSymbols ⌈/⌉ (calculatePartitioning fecOti).nofSourceBlocks := rfl

theorem smallSourceBlockLength_eq (fecOti : FecOti) :
    (calculatePartitioning fecOti).smallSourceBlockLength =
      (calculatePartitioning fecOti).nofSourceSymbols / (calculatePartitioning fecOti).nofSourceBlocks := rfl

theorem FecOti.Narrow.nofSourceSymbols (tile : fecOti.Narrow) :
    (calculatePartitioning fecOti).nofSourceSymbols =
      fecOti.transferLength ⌈/⌉ fecOti.encodingSymbolLength :=
  Nat.mod_eq_of_lt tile.symbols_lt

theorem FecOti.Narrow.nofSourceBlocks (tile : fecOti.Narrow) :
    (calculatePartitioning fecOti).nofSourceBlocks =
      fecOti.transferLength ⌈/⌉ fecOti.encodingSymbolLength ⌈/⌉ fecOti.maxSourceBlockLength := by
  have bound := tile.blocks_le
  have symbols := tile.nofSourceSymbols
  change toU32 ((calculatePartitioning fecOti).nofSourceSymbols ⌈/⌉ _) = _
  rw [symbols]
  exact Nat.mod_eq_of_lt (by omega)

theorem FecOti.Narrow.symbols_pos (tile : fecOti.Narrow) (nonempty : 0 < fecOti.transferLength) :
    0 < (calculatePartitioning fecOti).nofSourceSymbols := by
  rw [tile.nofSourceSymbols, lt_ceilDiv_iff tile.symbol_pos]
  omega

/-- The partitioning of an object that is not empty is balanced. -/
theorem FecOti.Narrow.balanced (tile : fecOti.Narrow) (nonempty : 0 < fecOti.transferLength) :
    (calculatePartitioning fecOti).Balanced := by
  have symbols := tile.symbols_pos nonempty
  have count := tile.nofSourceBlocks
  rw [← tile.nofSourceSymbols] at count
  set N := (calculatePartitioning fecOti).nofSourceSymbols with hN
  set Z := (calculatePartitioning fecOti).nofSourceBlocks with hZ
  have blocks : 0 < Z := by
    rw [count, lt_ceilDiv_iff tile.block_pos]
    omega
  have fewer : Z ≤ N := by
    rw [count, ceilDiv_le_iff_le_mul tile.block_pos]
    exact Nat.le_mul_of_pos_left _ tile.block_pos
  have small : (calculatePartitioning fecOti).smallSourceBlockLength = N / Z := smallSourceBlockLength_eq fecOti
  have large : (calculatePartitioning fecOti).largeSourceBlockLength = N ⌈/⌉ Z := largeSourceBlockLength_eq fecOti
  have nofLarge : (calculatePartitioning fecOti).nofLargeSourceBlocks = N % Z := by
    change N - N / Z * Z = N % Z
    have split := Nat.div_add_mod N Z
    rw [Nat.mul_comm] at split
    omega
  refine ⟨?_, ?_, ?_, ?_⟩
  · rw [small]
    exact Nat.div_pos fewer blocks
  · rw [nofLarge, large, small, ceilDiv_eq_div_add blocks]
    by_cases exact : N % Z = 0
    · exact Or.inl exact
    · exact Or.inr (by rw [if_neg exact])
  · rw [← hN, ← hZ, nofLarge, small]
    exact (Nat.div_add_mod N Z).symm
  · rw [nofLarge, ← hZ]
    exact Nat.mod_lt N blocks

/-- Either no block has a symbol or every block has one. -/
theorem Partitioning.blockLength_zero_or_pos (fecOti : FecOti) :
    (∀ n, (calculatePartitioning fecOti).blockLength n = 0) ∨
      ∀ n, 0 < (calculatePartitioning fecOti).blockLength n := by
  have small := smallSourceBlockLength_eq fecOti
  have large := largeSourceBlockLength_eq fecOti
  have blocks : (calculatePartitioning fecOti).nofSourceBlocks =
      toU32 ((calculatePartitioning fecOti).nofSourceSymbols ⌈/⌉ fecOti.maxSourceBlockLength) := rfl
  set p := calculatePartitioning fecOti
  by_cases none : p.nofSourceBlocks = 0
  · refine Or.inl fun n => ?_
    rw [none, Nat.div_zero] at small
    rw [none, ceilDiv_zero] at large
    unfold Partitioning.blockLength
    split <;> assumption
  · have fewer : p.nofSourceBlocks ≤ p.nofSourceSymbols ⌈/⌉ fecOti.maxSourceBlockLength := by
      rw [blocks]
      exact Nat.mod_le _ _
    have positive : 0 < fecOti.maxSourceBlockLength := by
      by_contra zero
      rw [show fecOti.maxSourceBlockLength = 0 by omega, ceilDiv_zero] at fewer
      omega
    have symbols : p.nofSourceBlocks ≤ p.nofSourceSymbols := by
      refine fewer.trans ?_
      rw [ceilDiv_le_iff_le_mul positive]
      exact Nat.le_mul_of_pos_left _ positive
    refine Or.inr fun n => ?_
    have somePos : 0 < p.smallSourceBlockLength := by
      rw [small]
      exact Nat.div_pos symbols (by omega)
    have morePos : 0 < p.largeSourceBlockLength := by
      rw [large, lt_ceilDiv_iff (by omega)]
      omega
    unfold Partitioning.blockLength
    split <;> assumption

theorem FecOti.Narrow.large_le (tile : fecOti.Narrow) (nonempty : 0 < fecOti.transferLength) (n : Nat) :
    (calculatePartitioning fecOti).blockLength n ≤ (calculatePartitioning fecOti).largeSourceBlockLength := by
  have blocks : 0 < (calculatePartitioning fecOti).nofSourceBlocks :=
    (Nat.zero_le _).trans_lt (tile.balanced nonempty).some_small
  have small : (calculatePartitioning fecOti).smallSourceBlockLength ≤
      (calculatePartitioning fecOti).largeSourceBlockLength := by
    rw [largeSourceBlockLength_eq, smallSourceBlockLength_eq, ceilDiv_eq_div_add blocks]
    omega
  unfold Partitioning.blockLength
  split
  · exact le_rfl
  · exact small

/-- No block is longer than the maximum source block length. -/
theorem FecOti.Narrow.blockLength_le (tile : fecOti.Narrow) (nonempty : 0 < fecOti.transferLength)
    (n : Nat) : (calculatePartitioning fecOti).blockLength n ≤ fecOti.maxSourceBlockLength := by
  have count := tile.nofSourceBlocks
  rw [← tile.nofSourceSymbols] at count
  have blocks : 0 < (calculatePartitioning fecOti).nofSourceBlocks :=
    (Nat.zero_le _).trans_lt (tile.balanced nonempty).some_small
  refine (tile.large_le nonempty n).trans ?_
  rw [largeSourceBlockLength_eq, ceilDiv_le_iff_le_mul blocks, Nat.mul_comm, count]
  exact le_mul_ceilDiv tile.block_pos

/-- The IDs of the symbols of a block fit into 16 bits. -/
theorem FecOti.Narrow.blockLength_narrow (tile : fecOti.Narrow) (nonempty : 0 < fecOti.transferLength)
    (n : Nat) : (calculatePartitioning fecOti).blockLength n ≤ 2 ^ 16 := by
  refine (tile.large_le nonempty n).trans ?_
  rw [largeSourceBlockLength_eq, tile.nofSourceBlocks, tile.nofSourceSymbols]
  exact tile.length_le

end Libflute
