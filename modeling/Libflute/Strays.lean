import Libflute.Reception

/-! Symbols that no block of the file holds. -/

namespace Libflute
namespace File
variable {env : Env} {f g : File} {symbol : EncodingSymbol}

/-- Whether the file has a slot for a symbol. -/
def inRange (f : File) (symbol : EncodingSymbol) : Bool :=
  (f.symbol? symbol.sourceBlockNumber symbol.id).isSome

/-- The symbols that the two checks of `put_symbol` turn away. -/
def Rejects (f : File) (symbol : EncodingSymbol) : Prop :=
  f.sourceBlocks.size < symbol.sourceBlockNumber ∨
    ∃ block, f.sourceBlocks.find? (symbol.sourceBlockNumber % 2 ^ 16) = some block ∧ block.symbols.size < symbol.id

/-- `put_symbol` throws and leaves the blocks, the flags and the buffer as they were. -/
def NoTrace (env : Env) (f : File) (symbol : EncodingSymbol) : Prop :=
  (∃ what, (f.putSymbol env symbol).2 = .error (.throws what)) ∧
    (f.putSymbol env symbol).1.sourceBlocks = f.sourceBlocks ∧
    (f.putSymbol env symbol).1.complete = f.complete ∧ (f.putSymbol env symbol).1.buffer = f.buffer

/-- The file after symbols that came one after the other, whatever `put_symbol` made of each. -/
def received (env : Env) (f : File) (symbols : List EncodingSymbol) : File :=
  symbols.foldl (fun f symbol => (f.putSymbol env symbol).1) f

theorem putSymbol_rejected (env : Env) (rejects : f.Rejects symbol) :
    ∃ what, f.putSymbol env symbol = (f, .error (.throws what)) := by
  unfold putSymbol
  split
  · exact ⟨_, rfl⟩
  · next high =>
    rcases rejects with number | ⟨block, inFile, number⟩
    · exact absurd number high
    · simp only [inFile, Option.getD_some, setBlock_self inFile, if_pos number]
      exact ⟨_, rfl⟩

theorem readBytes_error {memory : List UInt8} {n : Nat} {e : Abort} (run : readBytes memory n = .error e) :
    e = .undefined := by
  unfold readBytes at run
  split at run
  · cases run
  · exact (Except.error.inj run).symm

/-- What stops the copying of a symbol is no exception. -/
theorem decode_error {length : Nat} {data : Option Nat} {e : Abort}
    (run : (symbol.decodeTo length >>= f.copyTo data) = .error e) : e = .undefined := by
  rcases bind_eq_error.mp run with decoded | ⟨bytes, _, copied⟩
  · unfold EncodingSymbol.decodeTo at decoded
    split at decoded
    · exact readBytes_error decoded
    · cases decoded
  · unfold copyTo at copied
    split at copied
    · cases copied
    · split at copied
      · exact (Except.error.inj copied).symm
      · split at copied
        · exact (Except.error.inj copied).symm
        · cases copied

theorem checkDigest_error {e : Abort} (run : (f.checkDigest env).2 = .error e) : (f.checkDigest env).1 = f := by
  unfold checkDigest at run ⊢
  split
  · next checked =>
    rw [if_pos checked] at run
    cases digest : md5Matches env f with
    | error => rfl
    | ok same =>
      rw [digest] at run
      cases same <;> cases run
  · rfl

/-- A symbol leaves no trace exactly when a check turns it away. Otherwise it
has made a block or has completed a slot, also where the digest check throws. -/
theorem noTrace_iff : f.NoTrace env symbol ↔ f.Rejects symbol := by
  constructor
  · rintro ⟨⟨what, throws⟩, same, _, _⟩
    by_contra accepted
    obtain ⟨number, blocks⟩ := not_or.mp accepted
    rw [putSymbol, if_neg number] at throws same
    dsimp only at throws same
    set n := symbol.sourceBlockNumber % 2 ^ 16
    set i := symbol.id % 2 ^ 16
    have kept : ∀ {blocks : SortedMap Nat SourceBlock} {block : SourceBlock},
        blocks.insertOrAssign n block = f.sourceBlocks → f.sourceBlocks.find? n = some block := by
      intro blocks block kept
      rw [← kept, SortedMap.find?_insertOrAssign, if_pos rfl]
    split at same
    · next high =>
      cases inFile : f.sourceBlocks.find? n with
      | none =>
        have made := kept same
        rw [inFile] at made
        cases made
      | some block =>
        rw [inFile, Option.getD_some] at high
        exact blocks ⟨block, inFile, high⟩
    · next low =>
      rw [if_neg low] at throws
      split at same
      · next done =>
        rw [if_pos done] at throws
        cases throws
      · next fresh =>
        rw [if_neg fresh] at throws
        split at same
        · next e stopped =>
          rw [stopped] at throws
          obtain rfl := decode_error stopped
          cases throws
        · next buffer copied =>
          rw [copied] at throws
          have checked := checkDigest_error throws
          rw [checkFileCompletion, checked] at same
          have inFile := kept same
          set block := (f.sourceBlocks.find? n).getD {}
          set target := (block.symbols.find? i).getD {}
          have here : block = SourceBlock.checkCompletion { block with
              symbols := block.symbols.insertOrAssign i { target with complete := true } } := by
            change (f.sourceBlocks.find? n).getD {} = _
            rw [inFile, Option.getD_some]
          have slot : block.symbols.find? i = some { target with complete := true } := by
            refine (congrArg (fun b => b.symbols.find? i) here).trans ?_
            rw [SourceBlock.checkCompletion, SortedMap.find?_insertOrAssign, if_pos rfl]
          refine fresh ?_
          change ((block.symbols.find? i).getD {}).complete = true
          rw [slot, Option.getD_some]
  · intro rejects
    obtain ⟨what, run⟩ := putSymbol_rejected env rejects
    rw [NoTrace, run]
    exact ⟨⟨what, rfl⟩, rfl, rfl, rfl⟩

theorem NoTrace.same (noTrace : f.NoTrace env symbol) : (f.putSymbol env symbol).1 = f := by
  obtain ⟨what, run⟩ := putSymbol_rejected env (noTrace_iff.mp noTrace)
  rw [run]

section shapes
variable (same : g.shape = f.shape)
include same

theorem inRange_congr : g.inRange symbol = f.inRange symbol := by
  have slot : g.slot? (symbol.sourceBlockNumber, symbol.id) = f.slot? _ := slot?_congr same
  rw [slot?_eq, slot?_eq] at slot
  rw [inRange, inRange, ← Option.isSome_map, slot, Option.isSome_map]

theorem rejects_congr : g.Rejects symbol ↔ f.Rejects symbol := by
  have blocks : ∀ h : File, h.Rejects symbol ↔ h.shape.size < symbol.sourceBlockNumber ∨
      ∃ block, h.shape.find? (symbol.sourceBlockNumber % 2 ^ 16) = some block ∧ block.size < symbol.id := by
    intro h
    rw [Rejects, size_shape, find?_shape]
    cases h.sourceBlocks.find? (symbol.sourceBlockNumber % 2 ^ 16) with
    | none => simp
    | some block => simp [size_blockShape]
  rw [blocks, blocks, same]

end shapes

theorem shape_setBlock {n : Nat} {block other : SourceBlock} (inFile : f.sourceBlocks.find? n = some block)
    (same : other.shape = block.shape) : (f.setBlock n other).shape = f.shape := by
  refine SortedMap.ext_find? fun m => ?_
  rw [find?_shape, find?_shape, setBlock, SortedMap.find?_insertOrAssign]
  split
  · next here => rw [here, inFile, Option.map_some, Option.map_some, same]
  · rfl

/-- A symbol for a slot of the file adds no block and no slot. -/
theorem putSymbol_shape (inRange : f.inRange symbol = true) (smallBlock : symbol.sourceBlockNumber < 2 ^ 16)
    (smallId : symbol.id < 2 ^ 16) : (f.putSymbol env symbol).1.shape = f.shape := by
  obtain ⟨slot, found⟩ := Option.isSome_iff_exists.mp inRange
  obtain ⟨block, inFile, inBlock⟩ := symbol?_eq_some.mp found
  by_cases rejects : f.Rejects symbol
  · obtain ⟨what, run⟩ := putSymbol_rejected env rejects
    rw [run]
  · obtain ⟨number, blocks⟩ := not_or.mp rejects
    have someIds : symbol.id ≤ block.symbols.size := by
      by_contra high
      exact blocks ⟨block, by rwa [Nat.mod_eq_of_lt smallBlock], not_le.mp high⟩
    rw [putSymbol_eq symbol inFile inBlock smallBlock smallId (not_lt.mp number) someIds]
    split
    · rfl
    · split
      · rfl
      · next buffer copied =>
        have places : (SourceBlock.checkCompletion { block with
            symbols := block.symbols.insertOrAssign symbol.id { slot with complete := true } }).shape =
            block.shape := by
          refine SortedMap.ext_find? fun j => ?_
          rw [find?_blockShape, find?_blockShape, SourceBlock.checkCompletion, SortedMap.find?_insertOrAssign]
          split
          · next here => rw [here, inBlock, Option.map_some, Option.map_some]
          · rfl
        rw [checkFileCompletion]
        refine Eq.trans ?_ (shape_setBlock inFile places)
        rcases checkDigest_fst env _ with kept | discarded
        · rw [kept]
          rfl
        · rw [discarded, shape_reset]
          rfl

theorem received_append (symbols more : List EncodingSymbol) :
    f.received env (symbols ++ more) = (f.received env symbols).received env more := List.foldl_append

/-- The numbers of the slots that `create_blocks` makes fit the map keys. -/
theorem withBlocks_small (made : g.withBlocks = .ok f) (inRange : f.inRange symbol = true) :
    symbol.sourceBlockNumber < 2 ^ 16 ∧ symbol.id < 2 ^ 16 := by
  obtain ⟨blocks, created, rfl⟩ := withBlocks_eq_ok.mp made
  obtain ⟨slot, found⟩ := Option.isSome_iff_exists.mp inRange
  obtain ⟨block, inFile, inBlock⟩ := symbol?_eq_some.mp found
  obtain ⟨smallBlock, fresh⟩ := (createBlocks_fresh created).1 _ block inFile
  exact ⟨smallBlock, (fresh.symbols _ slot inBlock).1⟩

/-- Where every stray symbol is turned away the file keeps its shape, and only
the symbols that have slots count. -/
theorem received_shape (env : Env) (made : g.withBlocks = .ok f) {symbols : List EncodingSymbol}
    (known : ∀ symbol ∈ symbols, f.inRange symbol = true ∨ f.Rejects symbol) :
    (f.received env symbols).shape = f.shape ∧
      f.received env symbols = f.received env (symbols.filter f.inRange) := by
  induction symbols using List.reverseRecOn with
  | nil => exact ⟨rfl, rfl⟩
  | append_singleton symbols last ih =>
    obtain ⟨shape, filtered⟩ := ih fun symbol member => known symbol (List.mem_append_left _ member)
    rw [received_append, List.filter_append, received_append, ← filtered]
    change ((f.received env symbols).putSymbol env last).1.shape = f.shape ∧
      ((f.received env symbols).putSymbol env last).1 = _
    cases inRange : f.inRange last with
    | true =>
      obtain ⟨smallBlock, smallId⟩ := withBlocks_small made inRange
      refine ⟨(putSymbol_shape ((inRange_congr shape).trans inRange) smallBlock smallId).trans shape, ?_⟩
      rw [List.filter_cons_of_pos inRange]
      rfl
    | false =>
      have rejects : f.Rejects last := by
        rcases known last (by simp) with member | rejects
        · rw [inRange] at member
          cases member
        · exact rejects
      obtain ⟨what, run⟩ := putSymbol_rejected env ((rejects_congr shape).mpr rejects)
      rw [run, List.filter_cons_of_neg (by simp [inRange])]
      exact ⟨shape, rfl⟩

/-- In a run every stray symbol leaves no trace, so that the file is what the
others make of it, exactly when the bounds exclude every stray symbol of the run. -/
theorem strays_iff (env : Env) {base f₀ : File} (made : base.withBlocks = .ok f₀) (symbols : List EncodingSymbol) :
    ((∀ early stray late, symbols = early ++ stray :: late → f₀.inRange stray = false →
        (f₀.received env early).NoTrace env stray) ∧
      f₀.received env symbols = f₀.received env (symbols.filter f₀.inRange)) ↔
    ∀ symbol ∈ symbols, f₀.inRange symbol = true ∨ f₀.Rejects symbol := by
  constructor
  · rintro ⟨strays, -⟩
    induction symbols using List.reverseRecOn with
    | nil => simp
    | append_singleton symbols last ih =>
      have known := ih fun early stray late split => strays early stray (late ++ [last]) (by simp [split])
      intro symbol member
      rcases List.mem_append.mp member with before | here
      · exact known symbol before
      · obtain rfl := List.mem_singleton.mp here
        cases inRange : f₀.inRange symbol with
        | true => exact Or.inl rfl
        | false =>
          have rejects := noTrace_iff.mp (strays symbols symbol [] rfl inRange)
          exact Or.inr ((rejects_congr (received_shape env made known).1).mp rejects)
  · intro known
    refine ⟨?_, (received_shape env made known).2⟩
    rintro early stray late rfl inRange
    have shape := (received_shape env made fun symbol member =>
      known symbol (List.mem_append_left _ member)).1
    refine noTrace_iff.mpr ((rejects_congr shape).mpr ?_)
    rcases known stray (by simp) with member | rejects
    · rw [inRange] at member
      cases member
    · exact rejects

theorem shortFile_blocks : File.withBlocks { entry := shortEntry, buffer := [0, 0, 0] } = .ok shortFile :=
  withBlocks_eq_ok.mpr ⟨_, createBlocks_layout shortEntry_tileable.narrow (by decide), rfl⟩

theorem strays_iff_short :
    ((∀ early stray late, [looseSymbol 1 [99], looseSymbol 7 []] = early ++ stray :: late →
        shortFile.inRange stray = false → (shortFile.received (sampleEnv [] []) early).NoTrace (sampleEnv [] []) stray) ∧
      shortFile.received (sampleEnv [] []) [looseSymbol 1 [99], looseSymbol 7 []] =
        shortFile.received (sampleEnv [] []) ([looseSymbol 1 [99], looseSymbol 7 []].filter shortFile.inRange)) ∧
    shortFile.inRange (looseSymbol 7 []) = false := by
  refine ⟨(strays_iff (sampleEnv [] []) shortFile_blocks _).mpr ?_, by decide +kernel⟩
  intro symbol member
  rcases List.mem_cons.mp member with rfl | member
  · exact Or.inl (by decide +kernel)
  · obtain rfl := List.mem_singleton.mp member
    refine Or.inr (Or.inr ⟨(shortFile.sourceBlocks.find? 0).getD {}, ?_, ?_⟩) <;> decide +kernel

/-- A symbol of the block just behind the last is not turned away. -/
theorem not_strays : ¬ ∀ (env : Env) (base f₀ : File), base.withBlocks = .ok f₀ → ∀ (symbols : List EncodingSymbol)
    (stray : EncodingSymbol), f₀.inRange stray = false → (f₀.received env symbols).NoTrace env stray := by
  intro claim
  obtain ⟨⟨what, throws⟩, _⟩ := claim (sampleEnv [] []) _ _ shortFile_blocks []
    { looseSymbol 0 [] with sourceBlockNumber := 1 } (by decide +kernel)
  have accepted : (shortFile.putSymbol (sampleEnv [] [])
      { looseSymbol 0 [] with sourceBlockNumber := 1 }).2 = .ok () := by decide +kernel
  cases accepted.symm.trans throws

end File
end Libflute
