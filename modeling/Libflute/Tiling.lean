import Libflute.AlcPacket
import Libflute.ContentCoding
import Libflute.Layout
import Libflute.Library.Tiling

/-! For which objects `create_blocks` tiles the object. -/

namespace Libflute

namespace FecOti

/-- The symbols an object needs. -/
def symbolCount (fecOti : FecOti) : Nat := fecOti.transferLength ⌈/⌉ fecOti.encodingSymbolLength

/-- The blocks these symbols need. -/
def blockCount (fecOti : FecOti) : Nat := fecOti.symbolCount ⌈/⌉ fecOti.maxSourceBlockLength

/-- The symbols of block `n`, when the first blocks have one more than the others. -/
def symbolsOf (fecOti : FecOti) (n : Nat) : Nat :=
  if n < fecOti.symbolCount - fecOti.symbolCount / fecOti.blockCount * fecOti.blockCount then
    fecOti.symbolCount ⌈/⌉ fecOti.blockCount
  else fecOti.symbolCount / fecOti.blockCount

end FecOti

/-- Where the symbols of a file lie, in the order of their blocks and IDs. -/
def slotsOf (blocks : SortedMap Nat SourceBlock) : List (Option Nat × Nat) :=
  blocks.entries.flatMap fun block => block.2.symbols.entries.map fun symbol => (symbol.2.data, symbol.2.length)

/-- The blocks are numbered without a gap, and so are the symbols of each; the
slots follow each other through the whole object, all of full length but the last. -/
structure FecOti.TiledBy (fecOti : FecOti) (blocks : SortedMap Nat SourceBlock) : Prop where
  numbers : blocks.keys = List.range fecOti.blockCount
  ids : ∀ n block, blocks.find? n = some block → block.symbols.keys = List.range (fecOti.symbolsOf n) ∧
    fecOti.symbolsOf n ≤ fecOti.maxSourceBlockLength
  slots : ∃ pieces, slotsOf blocks = pieces.map (fun piece => (some piece.1, piece.2)) ∧
    pieces.length = fecOti.symbolCount ∧ Tiles 0 pieces fecOti.transferLength ∧
    (∀ piece ∈ pieces.dropLast, piece.2 = fecOti.encodingSymbolLength) ∧
    ∀ piece ∈ pieces, piece.2 ≤ fecOti.encodingSymbolLength

namespace Partitioning
variable {p : Partitioning}

/-- Counting the symbols block by block is counting all of them. -/
theorem Balanced.flatMap_range {α : Type} (h : p.Balanced) (g : Nat → α) (blocks : Nat) :
    ((List.range blocks).flatMap fun n => (List.range (p.blockLength n)).map fun i => g (p.blockStart n + i)) =
      (List.range (p.blockStart blocks)).map g := by
  induction blocks with
  | zero => simp [blockStart]
  | succ blocks ih =>
    rw [List.range_succ, List.flatMap_append, ih, h.blockStart_succ, List.range_add, List.map_append]
    simp [Function.comp_def]

end Partitioning

variable {fecOti : FecOti}

theorem FecOti.Narrow.symbolsOf_eq (tile : fecOti.Narrow) (n : Nat) :
    (calculatePartitioning fecOti).blockLength n = fecOti.symbolsOf n := by
  have symbols : (calculatePartitioning fecOti).nofSourceSymbols = fecOti.symbolCount := tile.nofSourceSymbols
  have blocks : (calculatePartitioning fecOti).nofSourceBlocks = fecOti.blockCount := tile.nofSourceBlocks
  have nofLarge : (calculatePartitioning fecOti).nofLargeSourceBlocks =
      (calculatePartitioning fecOti).nofSourceSymbols - (calculatePartitioning fecOti).nofSourceSymbols /
        (calculatePartitioning fecOti).nofSourceBlocks * (calculatePartitioning fecOti).nofSourceBlocks := rfl
  rw [Partitioning.blockLength, nofLarge, largeSourceBlockLength_eq, smallSourceBlockLength_eq, symbols, blocks]
  rfl

theorem slotsOf_blocksAt (tile : fecOti.Narrow) (nonempty : 0 < fecOti.transferLength) (done : Nat → Nat → Bool) :
    slotsOf (fecOti.blocksAt done) =
      (cutPieces 0 fecOti.transferLength fecOti.encodingSymbolLength fecOti.symbolCount).map
        fun piece => (some piece.1, piece.2) := by
  have balanced := tile.balanced nonempty
  have total := balanced.flatMap_range (fun k => ((fecOti.slot k).data, (fecOti.slot k).length))
    (calculatePartitioning fecOti).nofSourceBlocks
  rw [balanced.blockStart_total, tile.nofSourceSymbols] at total
  have flat : slotsOf (fecOti.blocksAt done) =
      (List.range (calculatePartitioning fecOti).nofSourceBlocks).flatMap fun n =>
        (List.range ((calculatePartitioning fecOti).blockLength n)).map fun i =>
          ((fecOti.slot ((calculatePartitioning fecOti).blockStart n + i)).data,
            (fecOti.slot ((calculatePartitioning fecOti).blockStart n + i)).length) := by
    simp only [slotsOf, FecOti.blocksAt, FecOti.blockAt, SortedMap.ofRange, List.flatMap_map, List.map_map]
    rfl
  rw [flat, total, cutPieces, List.map_map]
  refine List.map_congr_left fun k _ => ?_
  simp [FecOti.slot]

/-- `create_blocks` tiles an object whose counts and indices fit their widths. -/
theorem FecOti.Narrow.tiledBy (tile : fecOti.Narrow) :
    ∃ blocks, createBlocks fecOti = .ok blocks ∧ fecOti.TiledBy blocks := by
  have inside : ∀ k < fecOti.symbolCount, k * fecOti.encodingSymbolLength < fecOti.transferLength := fun k before =>
    (lt_ceilDiv_iff tile.symbol_pos).mp before
  have whole : min fecOti.transferLength (fecOti.symbolCount * fecOti.encodingSymbolLength) =
      fecOti.transferLength := by
    rw [Nat.mul_comm]
    exact min_eq_left (le_mul_ceilDiv tile.symbol_pos)
  have tiles := Tiles.of_cutPieces 0 fecOti.transferLength fun k before => (inside k before).le
  rw [whole, Nat.zero_add] at tiles
  have full : ∀ piece ∈ (cutPieces 0 fecOti.transferLength fecOti.encodingSymbolLength fecOti.symbolCount).dropLast,
      piece.2 = fecOti.encodingSymbolLength := by
    intro piece member
    cases count : fecOti.symbolCount with
    | zero => simp [count, cutPieces] at member
    | succ last =>
      rw [count, cutPieces, List.range_succ, List.map_append, List.map_singleton, List.dropLast_concat] at member
      obtain ⟨k, before, rfl⟩ := List.mem_map.mp member
      have next := inside (k + 1) (by rw [count]; have := List.mem_range.mp before; omega)
      rw [Nat.succ_mul] at next
      exact min_eq_right (by omega)
  have short : ∀ piece ∈ cutPieces 0 fecOti.transferLength fecOti.encodingSymbolLength fecOti.symbolCount,
      piece.2 ≤ fecOti.encodingSymbolLength := by
    intro piece member
    obtain ⟨k, _, rfl⟩ := List.mem_map.mp member
    exact min_le_right _ _
  rcases Nat.eq_zero_or_pos fecOti.transferLength with empty | nonempty
  · have none : fecOti.symbolCount = 0 := by rw [symbolCount, empty, zero_ceilDiv]
    refine ⟨.empty, ?_, ?_, ?_, [], rfl, ?_, ?_, ?_, ?_⟩
    · rw [createBlocks, empty, createBlocksFrom, if_pos rfl]
    · rw [blockCount, none, zero_ceilDiv]
      rfl
    · simp
    · exact none.symm
    · rw [empty]
      exact .nil 0
    · simp
    · simp
  · refine ⟨_, createBlocks_layout tile nonempty, ?_, fun n block found => ?_, _,
      slotsOf_blocksAt tile nonempty _, by simp [cutPieces], tiles, full, short⟩
    · rw [blocksAt, SortedMap.keys_ofRange, tile.nofSourceBlocks]
      rfl
    · rw [blocksAt, SortedMap.find?_ofRange] at found
      split at found
      · obtain rfl := Option.some.inj found
        rw [← tile.symbolsOf_eq]
        exact ⟨SortedMap.keys_ofRange _ _, tile.blockLength_le nonempty n⟩
      · cases found

/-- Map keys of 16 bits and counts of 32 bits number no more blocks and symbols than that. -/
theorem FecOti.TiledBy.narrow {blocks : SortedMap Nat SourceBlock} (symbol : 0 < fecOti.encodingSymbolLength)
    (block : 0 < fecOti.maxSourceBlockLength) (run : createBlocks fecOti = .ok blocks)
    (tiled : fecOti.TiledBy blocks) : fecOti.Narrow := by
  obtain ⟨fresh, _, _⟩ := createBlocks_fresh run
  have blockCount : fecOti.blockCount ≤ 2 ^ 16 := by
    by_contra many
    have member : 2 ^ 16 ∈ blocks.keys := by
      rw [tiled.numbers, List.mem_range]
      omega
    obtain ⟨last, found⟩ := SortedMap.mem_keys.mp member
    exact absurd (fresh _ last found).1 (lt_irrefl _)
  have length : fecOti.symbolCount ⌈/⌉ fecOti.blockCount ≤ 2 ^ 16 := by
    rcases Nat.eq_zero_or_pos fecOti.blockCount with none | some
    · rw [none, ceilDiv_zero]
      exact Nat.zero_le _
    by_contra long
    have first : (0 : Nat) ∈ blocks.keys := by
      rw [tiled.numbers, List.mem_range]
      exact some
    obtain ⟨head, found⟩ := SortedMap.mem_keys.mp first
    have whole : fecOti.symbolsOf 0 = fecOti.symbolCount ⌈/⌉ fecOti.blockCount := by
      have split := Nat.div_add_mod fecOti.symbolCount fecOti.blockCount
      rw [Nat.mul_comm] at split
      rw [symbolsOf, ceilDiv_eq_div_add some]
      split_ifs <;> omega
    have member : 2 ^ 16 ∈ head.symbols.keys := by
      rw [(tiled.ids 0 head found).1, whole, List.mem_range]
      omega
    obtain ⟨last, inBlock⟩ := SortedMap.mem_keys.mp member
    exact absurd ((fresh 0 head found).2.symbols _ last inBlock).1 (lt_irrefl _)
  refine ⟨symbol, block, ?_, blockCount, length⟩
  have most : fecOti.symbolCount ≤ 2 ^ 16 * 2 ^ 16 := by
    rcases Nat.eq_zero_or_pos fecOti.blockCount with none | some
    · have fits : fecOti.symbolCount ≤ fecOti.maxSourceBlockLength * fecOti.blockCount := le_mul_ceilDiv block
      rw [none] at fits
      omega
    · exact (le_mul_ceilDiv some).trans (Nat.mul_le_mul blockCount length)
  rcases Nat.lt_or_eq_of_le most with less | all
  · exact less
  -- with 2 ^ 32 symbols the count is 0, and no block gets a symbol
  · exfalso
    have nonempty : 0 < fecOti.transferLength := by
      by_contra empty
      rw [symbolCount, show fecOti.transferLength = 0 by omega, zero_ceilDiv] at all
      omega
    have symbols : (calculatePartitioning fecOti).nofSourceSymbols = 0 := by
      change toU32 fecOti.symbolCount = 0
      rw [all]
      rfl
    rcases Partitioning.blockLength_zero_or_pos fecOti with none | lengths
    · rw [createBlocks, createBlocksFrom_hangs none nonempty] at run
      cases run
    · have first := lengths 0
      rw [Partitioning.blockLength, smallSourceBlockLength_eq, largeSourceBlockLength_eq, symbols, zero_ceilDiv,
        Nat.zero_div, ite_self] at first
      omega

/-- `create_blocks` tiles the object exactly when the symbols can be counted in
32 bits, and the blocks and the symbols of a block numbered in 16. -/
theorem FecOti.tiled_iff (fecOti : FecOti) (symbol : 0 < fecOti.encodingSymbolLength)
    (block : 0 < fecOti.maxSourceBlockLength) :
    (∃ blocks, createBlocks fecOti = .ok blocks ∧ fecOti.TiledBy blocks) ↔
      fecOti.symbolCount < 2 ^ 32 ∧ fecOti.blockCount ≤ 2 ^ 16 ∧
        fecOti.symbolCount ⌈/⌉ fecOti.blockCount ≤ 2 ^ 16 := by
  constructor
  · rintro ⟨blocks, run, tiled⟩
    have narrow := tiled.narrow symbol block run
    exact ⟨narrow.symbols_lt, narrow.blocks_le, narrow.length_le⟩
  · rintro ⟨symbols, blocks, length⟩
    exact (FecOti.Narrow.mk symbol block symbols blocks length).tiledBy

/-- A block of three symbols and two of two, the last symbol one byte short. -/
theorem tiled_iff_thirteen :
    ∃ blocks, createBlocks { transferLength := 13, encodingSymbolLength := 2, maxSourceBlockLength := 3 } = .ok blocks ∧
      FecOti.TiledBy { transferLength := 13, encodingSymbolLength := 2, maxSourceBlockLength := 3 } blocks :=
  (FecOti.tiled_iff _ (by decide) (by decide)).mpr ⟨by decide +kernel, by decide +kernel, by decide +kernel⟩

/-- The last of 65537 blocks is stored in the place of the first. -/
theorem not_tiled : ¬ ∀ fecOti : FecOti, fecOti.transferLength < 2 ^ 48 → 0 < fecOti.encodingSymbolLength →
    fecOti.encodingSymbolLength < 2 ^ 16 → 0 < fecOti.maxSourceBlockLength → fecOti.maxSourceBlockLength < 2 ^ 32 →
      ∃ blocks, createBlocks fecOti = .ok blocks ∧ fecOti.TiledBy blocks := by
  intro claim
  obtain ⟨blocks, run, tiled⟩ := claim
    { transferLength := 65537, encodingSymbolLength := 1, maxSourceBlockLength := 1 }
    (by decide) (by decide) (by decide) (by decide) (by decide)
  have many := (tiled.narrow (by decide) (by decide) run).blocks_le
  exact absurd many (by decide +kernel)

/-- Every quotient of `calculate_partitioning` has a divisor, and when it is
rounded it fits the `uint32_t` it is converted to. -/
structure FecOti.Calculates (fecOti : FecOti) : Prop where
  symbols : fecOti.encodingSymbolLength ≠ 0 ∧ fecOti.transferLength ⌈/⌉ fecOti.encodingSymbolLength < 2 ^ 32
  blocks : fecOti.maxSourceBlockLength ≠ 0 ∧
    (calculatePartitioning fecOti).nofSourceSymbols ⌈/⌉ fecOti.maxSourceBlockLength < 2 ^ 32
  lengths : (calculatePartitioning fecOti).nofSourceBlocks ≠ 0 ∧
    (calculatePartitioning fecOti).nofSourceSymbols ⌈/⌉ (calculatePartitioning fecOti).nofSourceBlocks < 2 ^ 32

/-- The constructor rejects an entry, or it ends after defined arithmetic with no
more symbols than the object has. -/
def File.Created (env : Env) (entry : FileEntry) : Prop :=
  match File.ofEntry env entry with
  | .ok f => entry.fecOti.Calculates ∧ (slotsOf f.sourceBlocks).length ≤ entry.fecOti.symbolCount
  | .error (.throws _) => True
  | .error _ => False

section counting
variable {E : Nat}

/-- What some symbols take of the object, with what remains of it; only the last may be short. -/
def Uses (E total symbols remaining : Nat) : Prop :=
  symbols * E < total + E ∧ (0 < remaining → symbols * E + remaining ≤ total)

theorem createSymbols_uses (count : Nat) {total others symbolId bufferPtr remainingSize : Nat}
    {symbols : SortedMap Nat Symbol} (more : 0 < remainingSize)
    (uses : Uses E total (others + symbols.size) remainingSize) :
    let result := createSymbols E count symbolId bufferPtr remainingSize symbols
    Uses E total (others + result.1.size) result.2.2 := by
  induction count generalizing symbolId bufferPtr remainingSize symbols with
  | zero => exact uses
  | succ count ih =>
    have room := uses.2 more
    have grown : Uses E total (others + (symbols.insertOrAssign (symbolId % 2 ^ 16)
        { data := some bufferPtr, length := min remainingSize E }).size)
        (remainingSize - min remainingSize E) := by
      have size := SortedMap.size_insertOrAssign_le symbols (symbolId % 2 ^ 16)
        { data := some bufferPtr, length := min remainingSize E }
      have atMost : (others + (symbols.insertOrAssign (symbolId % 2 ^ 16)
          { data := some bufferPtr, length := min remainingSize E }).size) * E ≤
          (others + symbols.size) * E + E := by
        rw [← Nat.succ_mul]
        exact Nat.mul_le_mul_right _ (by omega)
      constructor
      · omega
      · intro left
        omega
    simp only [createSymbols]
    split
    · exact grown
    · exact ih (by omega) grown

theorem slotsOf_insertOrAssign_le (blocks : SortedMap Nat SourceBlock) (n : Nat) (block : SourceBlock) :
    (slotsOf (blocks.insertOrAssign n block)).length ≤ (slotsOf blocks).length + block.symbols.size := by
  simp only [slotsOf, List.length_flatMap, List.length_map]
  exact SortedMap.sum_insertOrAssign_le blocks n block fun block => block.symbols.size

theorem createBlocksFrom_uses {p : Partitioning} {fuel total number bufferPtr remainingSize : Nat}
    {blocks result : SortedMap Nat SourceBlock} (uses : Uses E total (slotsOf blocks).length remainingSize)
    (run : createBlocksFrom E p fuel number bufferPtr remainingSize blocks = .ok result) :
    (slotsOf result).length * E < total + E := by
  induction fuel generalizing number bufferPtr remainingSize blocks with
  | zero =>
    rw [createBlocksFrom] at run
    split at run
    · obtain rfl := Except.ok.inj run
      exact uses.1
    · cases run
  | succ fuel ih =>
    rw [createBlocksFrom] at run
    split at run
    · obtain rfl := Except.ok.inj run
      exact uses.1
    · next more =>
      have grown := @createSymbols_uses _ (p.blockLength number) total (slotsOf blocks).length 0 bufferPtr
        remainingSize .empty (Nat.pos_of_ne_zero more) uses
      refine ih ?_ run
      have size := slotsOf_insertOrAssign_le blocks (number % 2 ^ 16)
        { symbols := (createSymbols E (p.blockLength number) 0 bufferPtr remainingSize .empty).1 }
      refine ⟨lt_of_le_of_lt (Nat.mul_le_mul_right _ size) grown.1, fun left => ?_⟩
      exact (Nat.add_le_add_right (Nat.mul_le_mul_right _ size) _).trans (grown.2 left)

theorem createBlocks_count {fecOti : FecOti} {blocks : SortedMap Nat SourceBlock}
    (positive : 0 < fecOti.encodingSymbolLength) (run : createBlocks fecOti = .ok blocks) :
    (slotsOf blocks).length ≤ fecOti.symbolCount := by
  have used : (slotsOf blocks).length * fecOti.encodingSymbolLength <
      fecOti.transferLength + fecOti.encodingSymbolLength := by
    refine createBlocksFrom_uses ⟨?_, fun _ => ?_⟩ run <;>
    · simp only [slotsOf, SortedMap.empty, List.flatMap_nil, List.length_nil, Nat.zero_mul]
      omega
  by_contra more
  have last : fecOti.symbolCount * fecOti.encodingSymbolLength + fecOti.encodingSymbolLength ≤
      (slotsOf blocks).length * fecOti.encodingSymbolLength := by
    rw [← Nat.succ_mul]
    exact Nat.mul_le_mul_right _ (by omega)
  have all : fecOti.transferLength ≤ fecOti.symbolCount * fecOti.encodingSymbolLength := by
    rw [Nat.mul_comm]
    exact le_mul_ceilDiv positive
  omega

end counting

theorem createBlocks_error {fecOti : FecOti} {e : Abort} (run : createBlocks fecOti = .error e) : e = .hangs := by
  have loop : ∀ fuel number bufferPtr remainingSize blocks, createBlocksFrom fecOti.encodingSymbolLength
      (calculatePartitioning fecOti) fuel number bufferPtr remainingSize blocks = .error e → e = .hangs := by
    intro fuel
    induction fuel with
    | zero =>
      intro number bufferPtr remainingSize blocks run
      rw [createBlocksFrom] at run
      split at run
      · cases run
      · exact (Except.error.inj run).symm
    | succ fuel ih =>
      intro number bufferPtr remainingSize blocks run
      rw [createBlocksFrom] at run
      split at run
      · cases run
      · exact ih _ _ _ _ run
  exact loop _ _ _ _ _ run

/-- The constructor of a received file ends well exactly when it gets no memory,
or the object is not empty and has symbols that can be counted, and blocks. -/
theorem File.created_iff (env : Env) (entry : FileEntry) : File.Created env entry ↔
    env.malloc entry.fecOti.transferLength = false ∨
      0 < entry.fecOti.transferLength ∧ 0 < entry.fecOti.encodingSymbolLength ∧
        0 < entry.fecOti.maxSourceBlockLength ∧ entry.fecOti.symbolCount < 2 ^ 32 := by
  unfold Created
  rw [File.ofEntry]
  cases memory : env.malloc entry.fecOti.transferLength with
  | false => exact iff_of_true trivial (Or.inl rfl)
  | true =>
    rw [if_pos rfl]
    simp only [Bool.true_eq_false, false_or]
    rw [File.withBlocks, File.fecOti]
    constructor
    · intro created
      cases run : createBlocks entry.fecOti with
      | error e =>
        obtain rfl := createBlocks_error run
        rw [run] at created
        exact created.elim
      | ok blocks =>
        rw [run] at created
        obtain ⟨⟨symbol, few⟩, ⟨block, _⟩, some, _⟩ := created.1
        refine ⟨?_, Nat.pos_of_ne_zero symbol, Nat.pos_of_ne_zero block, few⟩
        by_contra empty
        refine some ?_
        change toU32 (toU32 (entry.fecOti.transferLength ⌈/⌉ _) ⌈/⌉ _) = 0
        rw [show entry.fecOti.transferLength = 0 by omega, zero_ceilDiv,
          show toU32 0 = 0 from rfl, zero_ceilDiv]
        rfl
    · rintro ⟨nonempty, symbol, block, few⟩
      obtain ⟨blocks, run⟩ := createBlocks_ends_of_few symbol block few
      obtain ⟨count, some, fewer, bound⟩ := calculatePartitioning_counts symbol block nonempty few
      rw [run]
      refine ⟨⟨⟨symbol.ne', few⟩, ⟨block.ne', ?_⟩, ⟨some.ne', ?_⟩⟩, createBlocks_count symbol run⟩
      · rw [← count]
        exact fewer.trans_lt bound
      · refine lt_of_le_of_lt ?_ bound
        rw [ceilDiv_le_iff_le_mul some]
        exact Nat.le_mul_of_pos_left _ some

/-- An FDT packet that announces symbols of no bytes keeps the constructor in its loop. -/
theorem not_created : ¬ ∀ (env : Env) (data : List UInt8) (len : Nat) (alc : AlcPacket),
    AlcPacket.parse data len = .ok alc → alc.toi = 0 →
      File.Created env { contentLength := toU32 alc.fecOti.transferLength, fecOti := alc.fecOti } := by
  intro claim
  have parsed : AlcPacket.parse
      (AlcPacket.header 7 0 { transferLength := 5, maxSourceBlockLength := 1 } 1 ++ [0, 0, 0, 0]) 36 =
        .ok {
          tsi := 7
          fdtInstanceId := 1
          fecOti := { transferLength := 5, maxSourceBlockLength := 1 }
          lctHeaderLen := 8 } := by
    decide +kernel
  have hangs : createBlocks { transferLength := 5, maxSourceBlockLength := 1 } = .error .hangs := by decide +kernel
  have created := claim (sampleEnv [] []) _ _ _ parsed rfl
  have memory : (sampleEnv [] []).malloc 5 = true := by decide +kernel
  rw [File.Created, File.ofEntry, if_pos memory, File.withBlocks, File.fecOti, hangs] at created
  exact created

end Libflute
