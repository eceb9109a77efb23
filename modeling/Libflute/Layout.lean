import Libflute.Partitioning

namespace Libflute

/-- The `k`-th symbol of an object, counted over all blocks, as `create_blocks`
makes it: the next `encodingSymbolLength` bytes, or what is left of them. -/
def FecOti.slot (fecOti : FecOti) (k : Nat) : Symbol where
  data := some (k * fecOti.encodingSymbolLength)
  length := min (fecOti.transferLength - k * fecOti.encodingSymbolLength) fecOti.encodingSymbolLength

/-- Block `n` of an object with some of its symbols complete. -/
def FecOti.blockAt (fecOti : FecOti) (done : Nat → Nat → Bool) (n : Nat) : SourceBlock :=
  let p := calculatePartitioning fecOti
  { complete := (List.range (p.blockLength n)).all (done n)
    symbols := .ofRange (p.blockLength n) fun i =>
      { fecOti.slot (p.blockStart n + i) with complete := done n i } }

/-- The blocks of an object, with exactly the given symbols complete. -/
def FecOti.blocksAt (fecOti : FecOti) (done : Nat → Nat → Bool) : SortedMap Nat SourceBlock :=
  .ofRange (calculatePartitioning fecOti).nofSourceBlocks (fecOti.blockAt done)

variable {fecOti : FecOti}

theorem createSymbols_layout (fecOti : FecOti) (first count : Nat) (j : Nat) (keys : j + count ≤ 2 ^ 16)
    (room : ∀ i < count, (first + j + i) * fecOti.encodingSymbolLength < fecOti.transferLength) :
    createSymbols fecOti.encodingSymbolLength count j
      (min fecOti.transferLength ((first + j) * fecOti.encodingSymbolLength))
      (fecOti.transferLength - (first + j) * fecOti.encodingSymbolLength)
      (.ofRange j fun i => fecOti.slot (first + i)) =
    (.ofRange (j + count) fun i => fecOti.slot (first + i),
      min fecOti.transferLength ((first + j + count) * fecOti.encodingSymbolLength),
      fecOti.transferLength - (first + j + count) * fecOti.encodingSymbolLength) := by
  induction count generalizing j with
  | zero => rfl
  | succ count ih =>
    have here : (first + j) * fecOti.encodingSymbolLength < fecOti.transferLength := room 0 (by omega)
    have step : (first + (j + 1)) * fecOti.encodingSymbolLength =
        (first + j) * fecOti.encodingSymbolLength + fecOti.encodingSymbolLength := by
      rw [← Nat.add_assoc, Nat.succ_mul]
    have shift : first + j + (count + 1) = first + (j + 1) + count := by omega
    have next : createSymbols fecOti.encodingSymbolLength count (j + 1)
        (min fecOti.transferLength ((first + (j + 1)) * fecOti.encodingSymbolLength))
        (fecOti.transferLength - (first + (j + 1)) * fecOti.encodingSymbolLength)
        (.ofRange (j + 1) fun i => fecOti.slot (first + i)) = _ :=
      ih (j + 1) (by omega) fun i within => by
        have later := room (i + 1) (by omega)
        rwa [show first + (j + 1) + i = first + j + (i + 1) by omega]
    have symbol : (Symbol.mk (some (min fecOti.transferLength ((first + j) * fecOti.encodingSymbolLength)))
        (min (fecOti.transferLength - (first + j) * fecOti.encodingSymbolLength)
          fecOti.encodingSymbolLength) false false) = fecOti.slot (first + j) := by
      simp [FecOti.slot, min_eq_right here.le]
    have pointer : min fecOti.transferLength ((first + j) * fecOti.encodingSymbolLength) +
        min (fecOti.transferLength - (first + j) * fecOti.encodingSymbolLength) fecOti.encodingSymbolLength =
        min fecOti.transferLength ((first + (j + 1)) * fecOti.encodingSymbolLength) := by omega
    have remaining : fecOti.transferLength - (first + j) * fecOti.encodingSymbolLength -
        min (fecOti.transferLength - (first + j) * fecOti.encodingSymbolLength) fecOti.encodingSymbolLength =
        fecOti.transferLength - (first + (j + 1)) * fecOti.encodingSymbolLength := by omega
    simp only [createSymbols]
    rw [Nat.mod_eq_of_lt (show j < 2 ^ 16 by omega), symbol,
      SortedMap.insertOrAssign_ofRange_end j fun i => fecOti.slot (first + i), pointer, remaining]
    split_ifs with last
    · have noMore : count = 0 := by
        by_contra more
        have later := room 1 (by omega)
        rw [Nat.add_assoc] at later
        omega
      subst noMore
      rfl
    · rw [next, shift, show j + 1 + count = j + (count + 1) by omega]

/-- The outer loop lays out block after block until nothing remains. -/
theorem createBlocksFrom_layout (tile : fecOti.Narrow) (nonempty : 0 < fecOti.transferLength)
    {fuel n : Nat} (block : n ≤ (calculatePartitioning fecOti).nofSourceBlocks)
    (enough : (calculatePartitioning fecOti).nofSourceBlocks ≤ n + fuel) :
    createBlocksFrom fecOti.encodingSymbolLength (calculatePartitioning fecOti) fuel n
      (min fecOti.transferLength
        ((calculatePartitioning fecOti).blockStart n * fecOti.encodingSymbolLength))
      (fecOti.transferLength - (calculatePartitioning fecOti).blockStart n * fecOti.encodingSymbolLength)
      (.ofRange n (fecOti.blockAt fun _ _ => false)) = .ok (fecOti.blocksAt fun _ _ => false) := by
  have balanced := tile.balanced nonempty
  have count := tile.nofSourceSymbols
  have more : ∀ k, k < (calculatePartitioning fecOti).nofSourceSymbols ↔
      k * fecOti.encodingSymbolLength < fecOti.transferLength := fun k => by
    rw [count, lt_ceilDiv_iff tile.symbol_pos]
  have narrow : (calculatePartitioning fecOti).nofSourceBlocks ≤ 2 ^ 16 := by
    rw [tile.nofSourceBlocks]
    exact tile.blocks_le
  set p := calculatePartitioning fecOti with hp
  induction fuel generalizing n with
  | zero =>
    obtain rfl : n = p.nofSourceBlocks := by omega
    have none : fecOti.transferLength - p.blockStart p.nofSourceBlocks * fecOti.encodingSymbolLength = 0 := by
      have done := mt (more (p.blockStart p.nofSourceBlocks)).mpr
      rw [balanced.blockStart_total] at done ⊢
      have := done (lt_irrefl _)
      omega
    rw [none]
    simp [createBlocksFrom, FecOti.blocksAt, hp]
  | succ fuel ih =>
    by_cases last : n = p.nofSourceBlocks
    · subst last
      have none : fecOti.transferLength - p.blockStart p.nofSourceBlocks * fecOti.encodingSymbolLength = 0 := by
        have done := mt (more (p.blockStart p.nofSourceBlocks)).mpr
        rw [balanced.blockStart_total] at done ⊢
        have := done (lt_irrefl _)
        omega
      rw [none]
      simp [createBlocksFrom, FecOti.blocksAt, hp]
    · have before : n < p.nofSourceBlocks := by omega
      have inside : p.blockStart n * fecOti.encodingSymbolLength < fecOti.transferLength := by
        rw [← more]
        simpa using balanced.index_lt before (balanced.blockLength_pos n)
      have length : p.blockLength n ≤ 2 ^ 16 := tile.blockLength_narrow nonempty n
      have symbols := createSymbols_layout fecOti (p.blockStart n) (p.blockLength n) 0 (by omega)
        fun i within => by
          rw [Nat.add_zero, ← more]
          exact balanced.index_lt before within
      simp only [Nat.add_zero, Nat.zero_add, SortedMap.ofRange_zero] at symbols
      have fresh : ({ symbols := .ofRange (p.blockLength n) fun i => fecOti.slot (p.blockStart n + i) } :
          SourceBlock) = fecOti.blockAt (fun _ _ => false) n := by
        have notAll : ((List.range (p.blockLength n)).all fun _ => false) = false := by
          have positive := balanced.blockLength_pos n
          rw [List.all_eq_false]
          exact ⟨0, List.mem_range.mpr positive, by simp⟩
        simp only [FecOti.blockAt, ← hp, notAll]
        rfl
      rw [createBlocksFrom, if_neg (by omega), symbols]
      simp only
      rw [Nat.mod_eq_of_lt (show n + 1 < 2 ^ 32 by omega), Nat.mod_eq_of_lt (show n < 2 ^ 16 by omega), fresh,
        SortedMap.insertOrAssign_ofRange_end, ← balanced.blockStart_succ]
      exact ih before (by omega)

/-- `create_blocks` tiles the object: block after block, symbol after symbol. -/
theorem createBlocks_layout (tile : fecOti.Narrow) (nonempty : 0 < fecOti.transferLength) :
    createBlocks fecOti = .ok (fecOti.blocksAt fun _ _ => false) := by
  have balanced := tile.balanced nonempty
  have fewer : (calculatePartitioning fecOti).nofSourceBlocks ≤ fecOti.transferLength := by
    have blocks : (calculatePartitioning fecOti).nofSourceBlocks ≤
        (calculatePartitioning fecOti).nofSourceSymbols := by
      rw [balanced.total]
      exact (Nat.le_mul_of_pos_right _ balanced.small_pos).trans (Nat.le_add_right _ _)
    have symbols : (calculatePartitioning fecOti).nofSourceSymbols ≤ fecOti.transferLength := by
      rw [tile.nofSourceSymbols, ceilDiv_le_iff_le_mul tile.symbol_pos]
      exact Nat.le_mul_of_pos_left _ tile.symbol_pos
    exact blocks.trans symbols
  have run := createBlocksFrom_layout tile nonempty (n := 0) (Nat.zero_le _)
    (show (calculatePartitioning fecOti).nofSourceBlocks ≤ 0 + fecOti.transferLength by omega)
  have first : (calculatePartitioning fecOti).blockStart 0 * fecOti.encodingSymbolLength = 0 := by
    simp [Partitioning.blockStart]
  rwa [first, Nat.min_zero, Nat.sub_zero, SortedMap.ofRange_zero] at run

end Libflute
