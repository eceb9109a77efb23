import Libflute.FileMarking
import Libflute.Partitioning

/-! The files the constructors make. -/

namespace Libflute

/-- A symbol as `create_blocks` makes it for an object of `size` bytes. -/
structure Symbol.Fresh (encodingSymbolLength size : Nat) (symbol : Symbol) : Prop where
  incomplete : symbol.complete = false
  unqueued : symbol.queued = false
  positive : 0 < symbol.length
  short : symbol.length ≤ encodingSymbolLength
  inside : ∃ offset, symbol.data = some offset ∧ offset + symbol.length ≤ size

/-- A block as `create_blocks` makes it. -/
structure SourceBlock.Fresh (encodingSymbolLength size : Nat) (block : SourceBlock) : Prop where
  incomplete : block.complete = false
  some : ∃ i symbol, block.symbols.find? i = some symbol
  symbols : ∀ i symbol, block.symbols.find? i = Option.some symbol →
    i < 2 ^ 16 ∧ symbol.Fresh encodingSymbolLength size

variable {E size : Nat}

theorem createSymbols_fresh (positive : 0 < E) (count symbolId : Nat) {bufferPtr remainingSize : Nat}
    (symbols : SortedMap Nat Symbol) (more : 0 < remainingSize) (fits : bufferPtr + remainingSize = size)
    (before : ∀ i symbol, symbols.find? i = some symbol → i < 2 ^ 16 ∧ symbol.Fresh E size) :
    ∃ symbols' bufferPtr' remainingSize',
      createSymbols E count symbolId bufferPtr remainingSize symbols = (symbols', bufferPtr', remainingSize') ∧
      bufferPtr' + remainingSize' = size ∧ (0 < count → ∃ i symbol, symbols'.find? i = some symbol) ∧
      ∀ i symbol, symbols'.find? i = some symbol → i < 2 ^ 16 ∧ symbol.Fresh E size := by
  induction count generalizing symbolId bufferPtr remainingSize symbols with
  | zero => exact ⟨symbols, bufferPtr, remainingSize, rfl, fits, by omega, before⟩
  | succ count ih =>
    have fresh : ({ data := some bufferPtr, length := min remainingSize E } : Symbol).Fresh E size := by
      refine ⟨rfl, rfl, ?_, min_le_right _ _, bufferPtr, rfl, ?_⟩ <;> simp only <;> omega
    have now : ∀ i symbol, (symbols.insertOrAssign (symbolId % 2 ^ 16)
        { data := some bufferPtr, length := min remainingSize E }).find? i = some symbol →
        i < 2 ^ 16 ∧ symbol.Fresh E size := by
      intro i symbol found
      rw [SortedMap.find?_insertOrAssign] at found
      split at found
      · next here =>
        obtain rfl := Option.some.inj found
        exact ⟨by omega, fresh⟩
      · exact before i symbol found
    have here : ∃ i symbol, (symbols.insertOrAssign (symbolId % 2 ^ 16)
        { data := some bufferPtr, length := min remainingSize E }).find? i = some symbol :=
      ⟨symbolId % 2 ^ 16, _, by rw [SortedMap.find?_insertOrAssign, if_pos rfl]⟩
    simp only [createSymbols]
    split_ifs with last
    · exact ⟨_, _, _, rfl, by omega, fun _ => here, now⟩
    · obtain ⟨symbols', bufferPtr', remainingSize', run, total, later, all⟩ :=
        ih (symbolId + 1) _ (show 0 < remainingSize - min remainingSize E by omega)
          (show bufferPtr + min remainingSize E + (remainingSize - min remainingSize E) = size by omega) now
      refine ⟨symbols', bufferPtr', remainingSize', run, total, fun _ => ?_, all⟩
      by_cases noMore : count = 0
      · subst noMore
        obtain ⟨rfl, -⟩ := Prod.mk.inj run
        exact here
      · exact later (by omega)

/-- Blocks without symbols consume nothing: the loop never ends. -/
theorem createBlocksFrom_hangs {p : Partitioning} (none : ∀ n, p.blockLength n = 0)
    {fuel number bufferPtr remainingSize : Nat} {blocks : SortedMap Nat SourceBlock}
    (more : 0 < remainingSize) :
    createBlocksFrom E p fuel number bufferPtr remainingSize blocks = .error .hangs := by
  induction fuel generalizing number blocks with
  | zero => rw [createBlocksFrom, if_neg (by omega)]
  | succ fuel ih =>
    rw [createBlocksFrom, if_neg (by omega), none]
    exact ih

theorem createBlocksFrom_fresh (positive : 0 < E) {p : Partitioning} (lengths : ∀ n, 0 < p.blockLength n)
    {fuel number bufferPtr remainingSize : Nat} {blocks result : SortedMap Nat SourceBlock}
    (fits : bufferPtr + remainingSize = size)
    (before : ∀ n block, blocks.find? n = some block → n < 2 ^ 16 ∧ block.Fresh E size)
    (run : createBlocksFrom E p fuel number bufferPtr remainingSize blocks = .ok result) :
    (∀ n block, result.find? n = some block → n < 2 ^ 16 ∧ block.Fresh E size) ∧
      ((0 < remainingSize ∨ ∃ n block, blocks.find? n = some block) →
        ∃ n block, result.find? n = some block) := by
  induction fuel generalizing number bufferPtr remainingSize blocks with
  | zero =>
    rw [createBlocksFrom] at run
    split_ifs at run with done
    obtain rfl := Except.ok.inj run
    exact ⟨before, fun some => some.resolve_left (by omega)⟩
  | succ fuel ih =>
    rw [createBlocksFrom] at run
    split_ifs at run with done
    · obtain rfl := Except.ok.inj run
      exact ⟨before, fun some => some.resolve_left (by omega)⟩
    · obtain ⟨symbols, bufferPtr', remainingSize', step, total, some, all⟩ :=
        createSymbols_fresh positive (p.blockLength number) 0 .empty (show 0 < remainingSize by omega) fits
          (by simp)
      rw [step] at run
      have here : ∃ n block, (blocks.insertOrAssign (number % 2 ^ 16)
          { symbols := symbols : SourceBlock }).find? n = Option.some block :=
        ⟨number % 2 ^ 16, _, by rw [SortedMap.find?_insertOrAssign, if_pos rfl]⟩
      obtain ⟨fresh, nonempty⟩ := ih total (fun n block found => by
        rw [SortedMap.find?_insertOrAssign] at found
        split at found
        · next same =>
          obtain rfl := Option.some.inj found
          exact ⟨by omega, rfl, some (lengths number), all⟩
        · exact before n block found) run
      exact ⟨fresh, fun _ => nonempty (Or.inr here)⟩

/-- What `create_blocks` makes when it returns. -/
theorem createBlocks_fresh {fecOti : FecOti} {blocks : SortedMap Nat SourceBlock}
    (run : createBlocks fecOti = .ok blocks) :
    (∀ n block, blocks.find? n = some block →
      n < 2 ^ 16 ∧ block.Fresh fecOti.encodingSymbolLength fecOti.transferLength) ∧
    (0 < fecOti.transferLength → ∃ n block, blocks.find? n = some block) ∧
    (fecOti.transferLength = 0 → blocks = .empty) := by
  unfold createBlocks at run
  by_cases empty : fecOti.transferLength = 0
  · rw [empty, createBlocksFrom, if_pos rfl] at run
    obtain rfl := Except.ok.inj run
    exact ⟨by simp, by omega, fun _ => rfl⟩
  rcases Partitioning.blockLength_zero_or_pos fecOti with none | lengths
  · rw [createBlocksFrom_hangs none (by omega)] at run
    cases run
  · have positive : 0 < fecOti.encodingSymbolLength := by
      by_contra zero
      have symbols : (calculatePartitioning fecOti).nofSourceSymbols = 0 := by
        change toU32 (_ ⌈/⌉ fecOti.encodingSymbolLength) = 0
        rw [show fecOti.encodingSymbolLength = 0 by omega, ceilDiv_zero]
        rfl
      have blocks : (calculatePartitioning fecOti).smallSourceBlockLength = 0 := by
        rw [smallSourceBlockLength_eq, symbols, Nat.zero_div]
      have large : (calculatePartitioning fecOti).largeSourceBlockLength = 0 := by
        rw [largeSourceBlockLength_eq, symbols, zero_ceilDiv]
      have first := lengths 0
      unfold Partitioning.blockLength at first
      split at first <;> omega
    obtain ⟨fresh, nonempty⟩ := createBlocksFrom_fresh positive lengths (Nat.zero_add _) (by simp) run
    exact ⟨fresh, fun more => nonempty (Or.inl more), fun none => absurd none empty⟩

namespace File

/-- A file nothing has happened to since its blocks were made. -/
structure New (f : File) : Prop where
  sound : f.Sound
  incomplete : f.complete = false
  idle : ∀ key, ¬ f.Queued key
  undone : ∀ key, ¬ f.Done key
  nonempty : 0 < f.fecOti.transferLength → ∃ key, f.Holds key

theorem withBlocks_new {f g : File} (run : f.withBlocks = .ok g) (scheme : f.fecOti.encodingId = .compactNoCode)
    (plain : f.beenDecoded = false) (whole : f.buffer.length = f.fecOti.transferLength)
    (digest : f.entry.contentMd5 = "" ∨ ∃ md5, md5.length = 16 ∧ f.entry.contentMd5 = base64Encode md5)
    (incomplete : f.complete = false) : g.New ∧ ∃ blocks, createBlocks f.fecOti = .ok blocks ∧
      g = { f with sourceBlocks := blocks } := by
  obtain ⟨blocks, made, result⟩ := bind_eq_ok.mp run
  obtain rfl := Except.ok.inj result
  obtain ⟨fresh, nonempty, empty⟩ := createBlocks_fresh made
  have symbolFresh : ∀ n i symbol, ({ f with sourceBlocks := blocks } : File).symbol? n i = Option.some symbol →
      i < 2 ^ 16 ∧ symbol.Fresh f.fecOti.encodingSymbolLength f.fecOti.transferLength := by
    intro n i symbol found
    obtain ⟨block, inFile, inBlock⟩ := symbol?_eq_some.mp found
    exact (fresh n block inFile).2.symbols i symbol inBlock
  have someSymbol : ∀ n block, blocks.find? n = Option.some block →
      ∃ i symbol, ({ f with sourceBlocks := blocks } : File).symbol? n i = Option.some symbol := by
    intro n block inFile
    obtain ⟨i, symbol, inBlock⟩ := (fresh n block inFile).2.some
    exact ⟨i, symbol, symbol?_eq_some.mpr ⟨block, inFile, inBlock⟩⟩
  refine ⟨⟨⟨scheme, plain, whole, digest, ?_, ?_, ?_, ?_⟩, incomplete, ?_, ?_, ?_⟩, blocks, made, rfl⟩
  · intro n shape found
    rw [find?_shape, Option.map_eq_some_iff] at found
    obtain ⟨block, inFile, rfl⟩ := found
    obtain ⟨small, blockFresh⟩ := fresh n block inFile
    obtain ⟨i, symbol, inBlock⟩ := blockFresh.some
    refine ⟨small, ⟨i, (symbol.data, symbol.length), by rw [find?_blockShape, inBlock, Option.map_some]⟩, ?_⟩
    intro j data length slot
    rw [find?_blockShape, Option.map_eq_some_iff] at slot
    obtain ⟨other, found, same⟩ := slot
    obtain ⟨rfl, rfl⟩ := Prod.mk.inj same
    obtain ⟨smallId, symbolFresh⟩ := blockFresh.symbols j other found
    exact ⟨smallId, whole ▸ symbolFresh.inside, symbolFresh.positive, symbolFresh.short⟩
  · exact fun n i symbol found _ => (symbolFresh n i symbol found).2.unqueued
  · intro n block inFile
    obtain ⟨i, symbol, inBlock⟩ := (fresh n block inFile).2.some
    rw [(fresh n block inFile).2.incomplete]
    refine (Bool.eq_false_iff.mpr fun every => ?_).symm
    have complete := SortedMap.all_eq_true.mp every i symbol inBlock
    rw [((fresh n block inFile).2.symbols i symbol inBlock).2.incomplete] at complete
    exact absurd complete (by simp)
  · refine iff_of_false (by simp [incomplete]) ?_
    rintro ⟨⟨n, block, inFile⟩, every⟩
    obtain ⟨i, symbol, found⟩ := someSymbol n block inFile
    have complete := every n i symbol found
    rw [(symbolFresh n i symbol found).2.incomplete] at complete
    exact absurd complete (by simp)
  · rintro key ⟨symbol, found, queued⟩
    rw [(symbolFresh _ _ symbol found).2.unqueued] at queued
    exact absurd queued (by simp)
  · rintro key ⟨symbol, found, complete⟩
    rw [(symbolFresh _ _ symbol found).2.incomplete] at complete
    exact absurd complete (by simp)
  · intro more
    obtain ⟨n, block, inFile⟩ := nonempty more
    obtain ⟨i, symbol, found⟩ := someSymbol n block inFile
    exact ⟨(n, i), symbol, found⟩

theorem ofData_new {env : Env} {toi expires : Nat} {fecOti : FecOti} {contentLocation contentType : String}
    {data : List UInt8} {copyData : Bool} {f : File}
    (run : ofData env toi fecOti contentLocation contentType expires data copyData = .ok f) :
    f.New ∧ f.DigestHolds env ∧ f.buffer = data ∧ f.fdtInstanceId = 0 ∧ f.freed = false ∧
      f.entry = {
        toi := toi
        contentLocation := contentLocation
        contentType := contentType
        contentLength := toU32 data.length
        contentMd5 := base64Encode (env.md5 data)
        expires := expires
        fecOti := { fecOti with transferLength := data.length } } := by
  unfold ofData at run
  split_ifs at run with memory scheme
  · cases run
  · obtain ⟨new, blocks, made, rfl⟩ :=
      withBlocks_new run scheme rfl rfl (Or.inr ⟨env.md5 data, env.md5_length data, rfl⟩) rfl
    exact ⟨new, fun _ _ => rfl, rfl, rfl, rfl, rfl⟩
  · cases run

theorem encode_spec {env : Env} {f g : File} (run : encode env f = .ok g)
    (whole : f.buffer.length = f.fecOti.transferLength) :
    g.buffer.length = g.fecOti.transferLength ∧ g.entry.toi = f.entry.toi ∧
      g.fecOti.encodingId = f.fecOti.encodingId ∧
      g.fecOti.encodingSymbolLength = f.fecOti.encodingSymbolLength ∧
      g.entry.contentMd5 = f.entry.contentMd5 ∧ g.entry.contentEncoding = f.entry.contentEncoding ∧
      (f.beenDecoded = false → g.beenDecoded = false) ∧ g.complete = f.complete ∧
      g.fdtInstanceId = f.fdtInstanceId ∧ (f.entry.contentEncoding = "" → g = f) ∧
      (f.entry.contentEncoding ≠ "" → f.beenEncoded = false → 0 < g.fecOti.transferLength) := by
  unfold encode at run
  split_ifs at run with skip known
  · obtain rfl := Except.ok.inj run
    refine ⟨whole, rfl, rfl, rfl, rfl, rfl, id, rfl, rfl, fun _ => rfl, fun some new => ?_⟩
    exact absurd (skip.resolve_left (by simp [new])) some
  · obtain ⟨input, _, rest⟩ := bind_eq_ok.mp run
    split at rest
    · next chunk finish =>
      obtain rfl := Except.ok.inj rest
      refine ⟨rfl, rfl, rfl, rfl, rfl, rfl, fun _ => rfl, rfl, rfl, fun none => ?_, fun _ _ => ?_⟩
      · rw [none] at known
        exact absurd known (by decide)
      · obtain ⟨rfl, _⟩ := Prod.mk.inj finish
        have stream := List.length_pos_of_ne_nil (env.deflate_ne_nil input)
        change 0 < ((env.deflate input).take zlibChunk).length
        rw [List.length_take]
        exact Nat.lt_min.mpr ⟨by decide, stream⟩
    · cases rest
  · cases run

theorem ofDescription_new {env : Env} {fd : FileDescription} {f : File}
    (run : ofDescription env fd = .ok f) :
    f.New ∧ f.fdtInstanceId = 0 ∧ f.entry.toi = fd.entry.toi ∧
      f.fecOti.encodingSymbolLength = fd.entry.fecOti.encodingSymbolLength ∧
      f.entry.contentMd5 = fd.entry.contentMd5 ∧ f.entry.contentEncoding = fd.entry.contentEncoding ∧
      (fd.entry.contentEncoding = "" → f.buffer = fd.data ∧ f.entry =
        { fd.entry with fecOti := { fd.entry.fecOti with transferLength := fd.data.length } }) ∧
      (fd.entry.contentEncoding ≠ "" → 0 < f.fecOti.transferLength) := by
  unfold ofDescription at run
  split_ifs at run with memory scheme
  · obtain ⟨g, encoded, rest⟩ := bind_eq_ok.mp run
    obtain ⟨whole, toi, sameScheme, symbolLength, md5, encoding, plain, complete, fdt, unencoded, encodedSome⟩ :=
      encode_spec encoded rfl
    have digest : g.entry.contentMd5 = "" ∨ ∃ md5, md5.length = 16 ∧ g.entry.contentMd5 = base64Encode md5 := by
      rw [md5]
      exact fd.digest
    obtain ⟨new, blocks, made, rfl⟩ :=
      withBlocks_new rest (sameScheme.trans scheme) (plain rfl) whole digest complete
    refine ⟨new, fdt, toi, symbolLength, md5, encoding, fun none => ?_, fun some => encodedSome some rfl⟩
    obtain rfl := unencoded none
    exact ⟨rfl, rfl⟩
  · cases run
  · cases run

end File
end Libflute
