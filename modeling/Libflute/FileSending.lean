import Libflute.FileSymbols

/-! A file as the sender sees it: the symbols it holds, the queued ones and the
completed ones. -/

namespace Libflute

def SourceBlock.shape (block : SourceBlock) : SortedMap Nat (Option Nat × Nat) :=
  block.symbols.map fun _ symbol => (symbol.data, symbol.length)

def EncodingSymbol.key (symbol : EncodingSymbol) : Nat × Nat := (symbol.sourceBlockNumber, symbol.id)

namespace File

/-- Where the symbols lie in the buffer. Sending changes only their flags. -/
def shape (f : File) : SortedMap Nat (SortedMap Nat (Option Nat × Nat)) :=
  f.sourceBlocks.map fun _ block => block.shape

def Holds (f : File) (key : Nat × Nat) : Prop := ∃ symbol, f.symbol? key.1 key.2 = some symbol

def Queued (f : File) (key : Nat × Nat) : Prop :=
  ∃ symbol, f.symbol? key.1 key.2 = some symbol ∧ symbol.queued = true

def Done (f : File) (key : Nat × Nat) : Prop :=
  ∃ symbol, f.symbol? key.1 key.2 = some symbol ∧ symbol.complete = true

/-- The blocks are not empty, their numbers and the IDs of their symbols have 16
bits, and the symbols have bytes, no more than `symbolLength` and all inside `size`. -/
def ShapeWithin (shape : SortedMap Nat (SortedMap Nat (Option Nat × Nat))) (symbolLength size : Nat) : Prop :=
  ∀ n block, shape.find? n = some block → n < 2 ^ 16 ∧ (∃ i slot, block.find? i = some slot) ∧
    ∀ i data length, block.find? i = some (data, length) → i < 2 ^ 16 ∧
      (∃ offset, data = some offset ∧ offset + length ≤ size) ∧ 0 < length ∧ length ≤ symbolLength

/-- What holds of every file that is sent, and of one received until it is decoded. -/
structure Sound (f : File) : Prop where
  scheme : f.fecOti.encodingId = .compactNoCode
  plain : f.beenDecoded = false
  whole : f.buffer.length = f.fecOti.transferLength
  digest : f.entry.contentMd5 = "" ∨ ∃ md5, md5.length = 16 ∧ f.entry.contentMd5 = base64Encode md5
  shape : ShapeWithin f.shape f.fecOti.encodingSymbolLength f.buffer.length
  exclusive : ∀ n i symbol, f.symbol? n i = some symbol → symbol.complete = true → symbol.queued = false
  blockComplete : ∀ n block, f.sourceBlocks.find? n = some block →
    block.complete = block.symbols.all Symbol.complete
  complete_iff : f.complete = true ↔ (∃ n block, f.sourceBlocks.find? n = some block) ∧
    ∀ n i symbol, f.symbol? n i = some symbol → symbol.complete = true

theorem Queued.holds {f : File} {key : Nat × Nat} (queued : f.Queued key) : f.Holds key := by
  obtain ⟨symbol, found, _⟩ := queued
  exact ⟨symbol, found⟩

theorem Sound.not_queued_of_done {f : File} (sound : f.Sound) {key : Nat × Nat} (done : f.Done key) :
    ¬ f.Queued key := by
  obtain ⟨symbol, found, complete⟩ := done
  rintro ⟨other, again, queued⟩
  obtain rfl : symbol = other := Option.some.inj (found.symm.trans again)
  rw [sound.exclusive _ _ _ found complete] at queued
  exact absurd queued (by simp)

theorem find?_shape (f : File) (n : Nat) :
    f.shape.find? n = (f.sourceBlocks.find? n).map SourceBlock.shape := by
  rw [shape, SortedMap.find?_map]

theorem find?_blockShape (block : SourceBlock) (i : Nat) :
    block.shape.find? i = (block.symbols.find? i).map fun symbol => (symbol.data, symbol.length) := by
  rw [SourceBlock.shape, SortedMap.find?_map]

theorem size_shape (f : File) : f.shape.size = f.sourceBlocks.size := SortedMap.size_map _ _

theorem size_blockShape (block : SourceBlock) : block.shape.size = block.symbols.size :=
  SortedMap.size_map _ _

theorem Sound.symbol_spec {f : File} (sound : f.Sound) {n i : Nat} {symbol : Symbol}
    (found : f.symbol? n i = some symbol) : n < 2 ^ 16 ∧ i < 2 ^ 16 ∧
      (∃ offset, symbol.data = some offset ∧ offset + symbol.length ≤ f.buffer.length) ∧
      0 < symbol.length ∧ symbol.length ≤ f.fecOti.encodingSymbolLength := by
  obtain ⟨block, inFile, inBlock⟩ := symbol?_eq_some.mp found
  obtain ⟨small, _, slots⟩ := sound.shape n block.shape (by rw [find?_shape, inFile, Option.map_some])
  have slot := slots i symbol.data symbol.length (by rw [find?_blockShape, inBlock, Option.map_some])
  exact ⟨small, slot.1, slot.2⟩

theorem Sound.block_nonempty {f : File} (sound : f.Sound) {n : Nat} {block : SourceBlock}
    (inFile : f.sourceBlocks.find? n = some block) : ∃ i symbol, block.symbols.find? i = some symbol := by
  obtain ⟨_, ⟨i, slot, some⟩, _⟩ := sound.shape n block.shape (by rw [find?_shape, inFile, Option.map_some])
  rw [find?_blockShape, Option.map_eq_some_iff] at some
  obtain ⟨symbol, found, _⟩ := some
  exact ⟨i, symbol, found⟩

/-- A file whose symbols are all complete is complete, and conversely. -/
theorem Sound.done_of_complete {f : File} (sound : f.Sound) (complete : f.complete = true)
    {key : Nat × Nat} (holds : f.Holds key) : f.Done key := by
  obtain ⟨symbol, found⟩ := holds
  exact ⟨symbol, found, (sound.complete_iff.mp complete).2 _ _ _ found⟩

theorem Sound.exists_not_done {f : File} (sound : f.Sound) (incomplete : f.complete = false)
    {key : Nat × Nat} (some : f.Holds key) : ∃ key, f.Holds key ∧ ¬ f.Done key := by
  by_contra every
  push Not at every
  have complete : f.complete = true := by
    obtain ⟨symbol, found⟩ := some
    obtain ⟨block, inFile, _⟩ := symbol?_eq_some.mp found
    refine sound.complete_iff.mpr ⟨⟨_, block, inFile⟩, fun n i other here => ?_⟩
    obtain ⟨same, again, complete⟩ := every (n, i) ⟨other, here⟩
    obtain rfl : other = same := Option.some.inj (here.symm.trans again)
    exact complete
  rw [incomplete] at complete
  exact absurd complete (by simp)

/-- A file that is not complete and has nothing queued has something to send. -/
theorem Sound.unsent_ne_nil {f : File} (sound : f.Sound) (incomplete : f.complete = false)
    {key : Nat × Nat} (some : f.Holds key) (idle : ∀ key, ¬ f.Queued key) : f.unsent ≠ [] := by
  obtain ⟨key, ⟨symbol, found⟩, pending⟩ := sound.exists_not_done incomplete some
  obtain ⟨block, inFile, inBlock⟩ := symbol?_eq_some.mp found
  have fresh : symbol.complete = false ∧ symbol.queued = false := by
    constructor
    · exact Bool.eq_false_iff.mpr fun complete => pending ⟨symbol, found, complete⟩
    · exact Bool.eq_false_iff.mpr fun queued => idle key ⟨symbol, found, queued⟩
  have blockOpen : block.complete = false := by
    rw [sound.blockComplete _ _ inFile, Bool.eq_false_iff]
    intro every
    have complete := SortedMap.all_eq_true.mp every _ _ inBlock
    rw [fresh.1] at complete
    exact absurd complete (by simp)
  have member : (⟨key.1, key.2, symbol⟩ : Placed) ∈ f.unsent :=
    mem_unsent.mpr ⟨block, inFile, blockOpen, inBlock, by simp [Symbol.unsent, fresh]⟩
  exact List.ne_nil_of_mem member

@[simp] theorem shape_queue (f : File) (keys : List (Nat × Nat)) : (f.queue keys).shape = f.shape := by
  simp only [shape, queue, SortedMap.map_map]
  congr 1
  funext n block
  simp only [SourceBlock.shape, SourceBlock.queue, SortedMap.map_map]
  rfl

theorem holds_queue {f : File} {keys : List (Nat × Nat)} {key : Nat × Nat} :
    (f.queue keys).Holds key ↔ f.Holds key := by
  simp [Holds, Option.map_eq_some_iff]

theorem done_queue {f : File} {keys : List (Nat × Nat)} {key : Nat × Nat} :
    (f.queue keys).Done key ↔ f.Done key := by
  simp [Done, Option.map_eq_some_iff, Symbol.queueIf]

theorem queued_queue {f : File} {keys : List (Nat × Nat)} (held : ∀ key ∈ keys, f.Holds key)
    {key : Nat × Nat} : (f.queue keys).Queued key ↔ f.Queued key ∨ key ∈ keys := by
  simp only [Queued, symbol?_queue, Option.map_eq_some_iff, Symbol.queueIf]
  constructor
  · rintro ⟨_, ⟨symbol, found, rfl⟩, queued⟩
    rcases Bool.or_eq_true_iff.mp queued with before | now
    · exact Or.inl ⟨symbol, found, before⟩
    · exact Or.inr (by simpa using now)
  · rintro (⟨symbol, found, before⟩ | now)
    · exact ⟨_, ⟨symbol, found, rfl⟩, by simp [before]⟩
    · obtain ⟨symbol, found⟩ := held key now
      exact ⟨_, ⟨symbol, found, rfl⟩, by simp [now]⟩

/-- Queueing symbols that are not complete keeps the file sound. -/
theorem Sound.queue {f : File} (sound : f.Sound) {keys : List (Nat × Nat)}
    (pending : ∀ key ∈ keys, ¬ f.Done key) : (f.queue keys).Sound where
  scheme := sound.scheme
  plain := sound.plain
  whole := sound.whole
  digest := sound.digest
  shape := by
    rw [shape_queue]
    exact sound.shape
  exclusive := by
    intro n i symbol found complete
    rw [symbol?_queue, Option.map_eq_some_iff] at found
    obtain ⟨old, before, rfl⟩ := found
    have fresh : (n, i) ∉ keys := fun member => pending _ member ⟨old, before, complete⟩
    simpa [Symbol.queueIf, fresh] using sound.exclusive n i old before complete
  blockComplete := by
    intro n block found
    simp only [File.queue, SortedMap.find?_map, Option.map_eq_some_iff] at found
    obtain ⟨old, before, rfl⟩ := found
    have same : (old.queue fun i => decide ((n, i) ∈ keys)).symbols.all Symbol.complete =
        old.symbols.all Symbol.complete := by
      simp [SourceBlock.queue, SortedMap.all, SortedMap.map, Function.comp_def, Symbol.queueIf]
    rw [same]
    exact sound.blockComplete n old before
  complete_iff := by
    refine sound.complete_iff.trans (and_congr ?_ ?_)
    · simp only [File.queue, SortedMap.find?_map, Option.map_eq_some_iff]
      constructor
      · rintro ⟨n, block, found⟩
        exact ⟨n, _, block, found, rfl⟩
      · rintro ⟨n, _, block, found, _⟩
        exact ⟨n, block, found⟩
    · simp only [symbol?_queue, Option.map_eq_some_iff]
      constructor
      · rintro every n i _ ⟨old, before, rfl⟩
        exact every n i old before
      · intro every n i old before
        have complete := every n i _ ⟨old, before, rfl⟩
        exact complete

/-- What taking symbols out of a sound file gives: symbols of the file that
were neither queued nor complete, now queued. -/
structure Taken (f f' : File) (symbols : List EncodingSymbol) : Prop where
  sound : f'.Sound
  entry : f'.entry = f.entry
  buffer : f'.buffer = f.buffer
  shape : f'.shape = f.shape
  fdtInstanceId : f'.fdtInstanceId = f.fdtInstanceId
  complete : f'.complete = f.complete
  holds : ∀ key, f'.Holds key ↔ f.Holds key
  done : ∀ key, f'.Done key ↔ f.Done key
  queued : ∀ key, f'.Queued key ↔ f.Queued key ∨ key ∈ symbols.map EncodingSymbol.key
  distinct : (symbols.map EncodingSymbol.key).Nodup
  fresh : ∀ symbol ∈ symbols, ∃ placed ∈ f.unsent, symbol = f.encoded placed

theorem Sound.taken {f : File} (sound : f.Sound) (nofSymbols : Nat) :
    Taken f (f.queue ((f.unsent.take nofSymbols).map Placed.key))
      ((f.unsent.take nofSymbols).map f.encoded) := by
  have keys : ((f.unsent.take nofSymbols).map f.encoded).map EncodingSymbol.key =
      (f.unsent.take nofSymbols).map Placed.key := by
    rw [List.map_map]
    rfl
  have unsentKey : ∀ key ∈ (f.unsent.take nofSymbols).map Placed.key, f.Holds key ∧ ¬ f.Done key := by
    intro key member
    obtain ⟨placed, inTake, rfl⟩ := List.mem_map.mp member
    obtain ⟨found, incomplete, _⟩ := symbol?_of_mem_unsent (List.mem_of_mem_take inTake)
    refine ⟨⟨_, found⟩, ?_⟩
    rintro ⟨other, again, complete⟩
    obtain rfl : placed.symbol = other := Option.some.inj (found.symm.trans again)
    rw [incomplete] at complete
    exact absurd complete (by simp)
  exact {
    sound := sound.queue fun key member => (unsentKey key member).2
    entry := rfl
    buffer := rfl
    shape := shape_queue _ _
    fdtInstanceId := rfl
    complete := rfl
    holds := fun _ => holds_queue
    done := fun _ => done_queue
    queued := fun key => by
      rw [keys]
      exact queued_queue fun key member => (unsentKey key member).1
    distinct := by
      rw [keys]
      exact (nodup_unsent f).sublist ((List.take_sublist _ _).map Placed.key)
    fresh := by
      intro symbol member
      obtain ⟨placed, inTake, rfl⟩ := List.mem_map.mp member
      exact ⟨placed, List.mem_of_mem_take inTake, rfl⟩ }

end File
end Libflute
