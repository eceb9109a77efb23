import Libflute.ContentCoding
import Libflute.Library.Run
import Libflute.Transfer

/-! Putting symbols of any length into a file, in any order. -/

namespace Libflute

/-- What `put_symbol` does with a symbol for an incomplete slot: it copies bytes
to where the slot lies, and it may find the digest wrong and start again. -/
inductive SlotEvent
  | copied (offset length : Nat) (bytes : List UInt8)
  | reset
  deriving DecidableEq, Repr

/-- A slot was filled with as many bytes as it has, after the last reset. -/
def Symbol.FilledIn (slot : Symbol) (log : List SlotEvent) : Prop :=
  ∃ early offset bytes late, log = early ++ SlotEvent.copied offset slot.length bytes :: late ∧
    slot.data = some offset ∧ bytes.length = slot.length ∧ SlotEvent.reset ∉ late

theorem Symbol.FilledIn.append {slot : Symbol} {log more : List SlotEvent} (filled : slot.FilledIn log)
    (none : SlotEvent.reset ∉ more) : slot.FilledIn (log ++ more) := by
  obtain ⟨early, offset, bytes, late, rfl, data, length, since⟩ := filled
  refine ⟨early, offset, bytes, late ++ more, by simp, data, length, fun member => ?_⟩
  rcases List.mem_append.mp member with before | after
  · exact since before
  · exact none after

namespace File
variable {env : Env} {f f₀ : File}

/-- What is seen of putting a symbol into a file. -/
def slotEvents (env : Env) (f : File) (symbol : EncodingSymbol) : List SlotEvent :=
  match f.symbol? symbol.sourceBlockNumber symbol.id with
  | none => []
  | some slot =>
    if slot.complete then []
    else
      match slot.data, symbol.decodeTo slot.length with
      | some offset, .ok bytes =>
        .copied offset slot.length bytes ::
          if ((f.putSymbol env symbol).1.symbol? symbol.sourceBlockNumber symbol.id).any Symbol.complete then []
          else [.reset]
      | _, _ => []

/-- A symbol for a slot the file has, with numbers that pass the checks of `put_symbol`. -/
def Addresses (f : File) (symbol : EncodingSymbol) : Prop :=
  ∃ block slot, f.sourceBlocks.find? symbol.sourceBlockNumber = some block ∧
    symbol.sourceBlockNumber ≤ f.sourceBlocks.size ∧ block.symbols.find? symbol.id = some slot ∧
    symbol.id ≤ block.symbols.size

/-- A symbol for an incomplete slot is as long as the slot. -/
def Fills (f : File) (symbol : EncodingSymbol) : Prop :=
  ∀ slot, f.symbol? symbol.sourceBlockNumber symbol.id = some slot → slot.complete = false →
    symbol.dataLen = slot.length

/-- Every byte of a complete file was written since the last reset by a symbol
as long as its slot, and so was every slot that is complete. -/
structure WhollyReceived (f : File) (log : List SlotEvent) : Prop where
  bytes : f.complete = true → ∀ p < f.fecOti.transferLength, ∃ early offset bytes late,
    log = early ++ SlotEvent.copied offset bytes.length bytes :: late ∧ offset ≤ p ∧ p < offset + bytes.length ∧
      SlotEvent.reset ∉ late
  slots : ∀ n i slot, f.symbol? n i = some slot → slot.complete = true → slot.FilledIn log

/-- A file made from an FDT entry, with some of its slots filled. -/
structure Filling (f₀ f : File) (log : List SlotEvent) : Prop where
  entry : f.entry = f₀.entry
  shape : f.shape = f₀.shape
  room : f.buffer.length = f₀.buffer.length
  owned : f.freed = false
  unqueued : ∀ n i slot, f.symbol? n i = some slot → slot.queued = false
  blockComplete : ∀ n block, f.sourceBlocks.find? n = some block →
    block.complete = block.symbols.all Symbol.complete
  complete : f.complete = true → ∀ n i slot, f.symbol? n i = some slot → slot.complete = true
  filled : ∀ n i slot, f.symbol? n i = some slot → slot.complete = true → slot.FilledIn log

theorem checkDigest_fst (env : Env) (f : File) : (f.checkDigest env).1 = f ∨ (f.checkDigest env).1 = f.reset := by
  unfold checkDigest
  split
  · split
    · exact Or.inl rfl
    · exact Or.inl rfl
    · exact Or.inr rfl
  · exact Or.inl rfl

section steps
variable {log : List SlotEvent} (within : ShapeWithin f₀.shape f₀.fecOti.encodingSymbolLength f₀.buffer.length)
include within

theorem Filling.slot_spec (filling : Filling f₀ f log) {n : Nat} {block : SourceBlock}
    (inFile : f.sourceBlocks.find? n = some block) : n < 2 ^ 16 ∧
      (∃ i slot, block.symbols.find? i = some slot) ∧
      ∀ i slot, block.symbols.find? i = some slot → i < 2 ^ 16 ∧ 0 < slot.length ∧
        ∃ offset, slot.data = some offset ∧ offset + slot.length ≤ f.buffer.length := by
  rw [← filling.shape, ← filling.room] at within
  obtain ⟨small, ⟨i, place, found⟩, slots⟩ := within n block.shape (by rw [find?_shape, inFile, Option.map_some])
  rw [find?_blockShape, Option.map_eq_some_iff] at found
  obtain ⟨slot, inBlock, _⟩ := found
  refine ⟨small, ⟨i, slot, inBlock⟩, fun j other inSame => ?_⟩
  obtain ⟨smallId, inside, positive, _⟩ := slots j other.data other.length
    (by rw [find?_blockShape, inSame, Option.map_some])
  exact ⟨smallId, positive, inside⟩

/-- After a wrong digest no slot is complete. -/
theorem Filling.reset (filling : Filling f₀ f log) (later : List SlotEvent) : Filling f₀ f.reset later := by
  have incomplete : ∀ n i slot, f.reset.symbol? n i = some slot → slot.complete = false := by
    intro n i slot found
    rw [symbol?_reset, Option.map_eq_some_iff] at found
    obtain ⟨old, _, rfl⟩ := found
    rfl
  refine ⟨filling.entry, shape_reset.trans filling.shape, filling.room, filling.owned, ?_, ?_, ?_, ?_⟩
  · intro n i slot found
    rw [symbol?_reset, Option.map_eq_some_iff] at found
    obtain ⟨old, before, rfl⟩ := found
    exact filling.unqueued n i old before
  · intro n block found
    simp only [File.reset, SortedMap.find?_map, Option.map_eq_some_iff] at found
    obtain ⟨old, inFile, rfl⟩ := found
    obtain ⟨_, ⟨i, slot, inBlock⟩, _⟩ := filling.slot_spec within inFile
    refine (Bool.eq_false_iff.mpr fun every => ?_).symm
    have complete := SortedMap.all_eq_true.mp every i { slot with complete := false }
      (by rw [SortedMap.find?_map, inBlock, Option.map_some])
    exact absurd complete (by simp)
  · exact fun complete => absurd complete (by simp [File.reset])
  · intro n i slot found complete
    rw [incomplete n i slot found] at complete
    exact absurd complete (by simp)

/-- A slot is filled by a symbol that is as long as it. -/
theorem Filling.stored (filling : Filling f₀ f log) {n i offset : Nat} {block : SourceBlock} {slot : Symbol}
    {bytes : List UInt8} (inFile : f.sourceBlocks.find? n = some block) (inBlock : block.symbols.find? i = some slot)
    (data : slot.data = some offset) (length : bytes.length = slot.length) :
    Filling f₀ (f.stored (n, i) block offset bytes) (log ++ [.copied offset slot.length bytes]) := by
  set patched : File :=
    { f with buffer := f.buffer.take offset ++ bytes ++ f.buffer.drop (offset + bytes.length) }
  have inPatched : patched.sourceBlocks.find? n = some block := inFile
  have found : f.symbol? n i = some slot := symbol?_eq_some.mpr ⟨block, inFile, inBlock⟩
  have slots : ∀ m j other, (f.stored (n, i) block offset bytes).symbol? m j = some other →
      other = { slot with queued := false, complete := true } ∧ (m, j) = (n, i) ∨
        f.symbol? m j = some other := by
    intro m j other here
    rw [File.stored, symbol?_settled inPatched] at here
    split at here
    · next same =>
      rw [show patched.symbol? n i = some slot from found, Option.map_some] at here
      exact Or.inl ⟨(Option.some.inj here).symm, same⟩
    · exact Or.inr here
  have blockComplete : ∀ m other, (f.stored (n, i) block offset bytes).sourceBlocks.find? m = some other →
      other.complete = other.symbols.all Symbol.complete := by
    intro m other here
    rw [File.stored, find?_settled] at here
    split at here
    · obtain rfl := Option.some.inj here
      rfl
    · exact filling.blockComplete m other here
  refine ⟨filling.entry, (shape_settled inPatched).trans filling.shape, ?_, filling.owned, ?_, blockComplete, ?_, ?_⟩
  · obtain ⟨_, _, slotSpec⟩ := filling.slot_spec within inFile
    obtain ⟨_, _, other, sameData, inside⟩ := slotSpec i slot inBlock
    obtain rfl : other = offset := Option.some.inj (sameData.symm.trans data)
    change (f.buffer.take other ++ bytes ++ f.buffer.drop (other + bytes.length)).length = _
    rw [← filling.room]
    simp only [List.length_append, List.length_take, List.length_drop]
    omega
  · intro m j other here
    rcases slots m j other here with ⟨rfl, _⟩ | before
    · rfl
    · exact filling.unqueued m j other before
  · exact (all_blocks_iff blockComplete).mp
  · intro m j other here complete
    rcases slots m j other here with ⟨rfl, _⟩ | before
    · exact ⟨log, offset, bytes, [], rfl, data, length, by simp⟩
    · exact (filling.filled m j other before complete).append (by simp)

end steps

theorem stored_symbol? {n i offset : Nat} {block : SourceBlock} {slot : Symbol} {bytes : List UInt8}
    (inFile : f.sourceBlocks.find? n = some block) (inBlock : block.symbols.find? i = some slot) :
    (f.stored (n, i) block offset bytes).symbol? n i = some { slot with queued := false, complete := true } := by
  have found : f.symbol? n i = some slot := symbol?_eq_some.mpr ⟨block, inFile, inBlock⟩
  have inPatched : ({ f with
      buffer := f.buffer.take offset ++ bytes ++ f.buffer.drop (offset + bytes.length) } : File).sourceBlocks.find? n =
      some block := inFile
  rw [File.stored, symbol?_settled inPatched, if_pos rfl]
  change (f.symbol? n i).map _ = _
  rw [found]
  rfl

/-- Putting a symbol that fits into a file keeps what is known of its slots. -/
theorem Filling.putSymbol {log : List SlotEvent}
    (within : ShapeWithin f₀.shape f₀.fecOti.encodingSymbolLength f₀.buffer.length) (filling : Filling f₀ f log)
    {symbol : EncodingSymbol} (whole : symbol.Whole) (addresses : f.Addresses symbol) (fills : f.Fills symbol) :
    Filling f₀ (f.putSymbol env symbol).1 (log ++ f.slotEvents env symbol) := by
  obtain ⟨block, slot, inFile, someBlocks, inBlock, someIds⟩ := addresses
  obtain ⟨smallBlock, _, slotSpec⟩ := filling.slot_spec within inFile
  obtain ⟨smallId, positive, offset, data, inside⟩ := slotSpec symbol.id slot inBlock
  have found : f.symbol? symbol.sourceBlockNumber symbol.id = some slot :=
    symbol?_eq_some.mpr ⟨block, inFile, inBlock⟩
  by_cases fresh : slot.complete = true
  · have same : f.putSymbol env symbol = (f, .ok ()) := by
      rw [putSymbol_eq symbol inFile inBlock smallBlock smallId someBlocks someIds, if_pos fresh]
    have nothing : f.slotEvents env symbol = [] := by
      simp only [slotEvents, found, if_pos fresh]
    rw [same, nothing, List.append_nil]
    exact filling
  · rw [Bool.not_eq_true] at fresh
    have exact : symbol.dataLen = slot.length := fills slot found fresh
    have length : symbol.bytes.length = slot.length := whole.length_bytes.trans exact
    have run := @putSymbol_stored f env symbol _ _ _ inFile inBlock smallBlock smallId someBlocks someIds fresh
      (filling.unqueued _ _ slot found) data whole exact positive inside filling.owned
    have decode : symbol.decodeTo slot.length = .ok symbol.bytes := by
      rw [EncodingSymbol.decodeTo, if_pos ⟨whole.scheme, exact.le⟩, readBytes_eq_ok]
      exact ⟨whole.within, rfl⟩
    have stored := filling.stored within inFile inBlock data length
    have events : f.slotEvents env symbol = .copied offset slot.length symbol.bytes ::
        if ((f.putSymbol env symbol).1.symbol? symbol.sourceBlockNumber symbol.id).any Symbol.complete then []
        else [.reset] := by
      simp only [slotEvents, found, fresh, Bool.false_eq_true, if_false, data, decode]
    rw [events, run]
    rcases checkDigest_fst env
      (f.stored (symbol.sourceBlockNumber, symbol.id) block offset symbol.bytes) with kept | discarded
    · rw [kept, stored_symbol? inFile inBlock]
      exact stored
    · rw [discarded]
      exact stored.reset within _

/-- A file made from an FDT entry has slots inside its buffer, none of them complete. -/
theorem ofEntry_filling {entry : FileEntry} (run : ofEntry env entry = .ok f) : f.entry = entry ∧
    ShapeWithin f.shape f.fecOti.encodingSymbolLength f.buffer.length ∧ Filling f f [] := by
  unfold ofEntry at run
  split at run
  swap
  · cases run
  obtain ⟨blocks, made, rfl⟩ := withBlocks_eq_ok.mp run
  obtain ⟨fresh, _, _⟩ := createBlocks_fresh made
  have slotFresh : ∀ n i slot, ({
      entry := entry
      buffer := env.fresh entry.fecOti.transferLength
      sourceBlocks := blocks } : File).symbol? n i = some slot →
      slot.Fresh entry.fecOti.encodingSymbolLength entry.fecOti.transferLength := by
    intro n i slot found
    obtain ⟨block, inFile, inBlock⟩ := symbol?_eq_some.mp found
    exact ((fresh n block inFile).2.symbols i slot inBlock).2
  have nothing : ∀ {n i slot}, ({
      entry := entry
      buffer := env.fresh entry.fecOti.transferLength
      sourceBlocks := blocks } : File).symbol? n i = some slot → slot.complete = true → False := by
    intro n i slot found complete
    rw [(slotFresh n i slot found).incomplete] at complete
    exact absurd complete (by simp)
  refine ⟨rfl, ?_, rfl, rfl, rfl, rfl, ?_, ?_, ?_, ?_⟩
  · intro n shape found
    rw [find?_shape, Option.map_eq_some_iff] at found
    obtain ⟨block, inFile, rfl⟩ := found
    obtain ⟨small, blockFresh⟩ := fresh n block inFile
    obtain ⟨i, slot, inBlock⟩ := blockFresh.some
    refine ⟨small, ⟨i, (slot.data, slot.length), by rw [find?_blockShape, inBlock, Option.map_some]⟩, ?_⟩
    intro j data length place
    rw [find?_blockShape, Option.map_eq_some_iff] at place
    obtain ⟨other, found, same⟩ := place
    obtain ⟨rfl, rfl⟩ := Prod.mk.inj same
    obtain ⟨smallId, symbolFresh⟩ := blockFresh.symbols j other found
    obtain ⟨offset, data, inside⟩ := symbolFresh.inside
    exact ⟨smallId, ⟨offset, data, inside.trans_eq (env.fresh_length _).symm⟩, symbolFresh.positive,
      symbolFresh.short⟩
  · exact fun n i slot found => (slotFresh n i slot found).unqueued
  · intro n block inFile
    obtain ⟨_, blockFresh⟩ := fresh n block inFile
    obtain ⟨i, slot, inBlock⟩ := blockFresh.some
    rw [blockFresh.incomplete]
    refine (Bool.eq_false_iff.mpr fun every => ?_).symm
    exact nothing (symbol?_eq_some.mpr ⟨block, inFile, inBlock⟩) (SortedMap.all_eq_true.mp every i slot inBlock)
  · exact fun complete => absurd complete (by simp)
  · exact fun n i slot found complete => (nothing found complete).elim

theorem Filling.slot {log : List SlotEvent} (filling : Filling f₀ f log) {n i : Nat} {slot : Symbol}
    (found : f₀.symbol? n i = some slot) :
    ∃ now, f.symbol? n i = some now ∧ now.data = slot.data ∧ now.length = slot.length := by
  have same : f.slot? (n, i) = f₀.slot? (n, i) := slot?_congr filling.shape
  rw [slot?_eq, slot?_of_symbol? (show f₀.symbol? (n, i).1 (n, i).2 = _ from found), Option.map_eq_some_iff] at same
  obtain ⟨now, here, equal⟩ := same
  obtain ⟨data, length⟩ := Prod.mk.inj equal
  exact ⟨now, here, data, length⟩

/-- The slots of a file that is made to be received are those of the layout. -/
theorem ofEntry_blocks {entry : FileEntry} (tile : entry.fecOti.Tileable) (nonempty : 0 < entry.fecOti.transferLength)
    (run : ofEntry env entry = .ok f) : f.sourceBlocks = entry.fecOti.blocksAt fun _ _ => false := by
  unfold ofEntry at run
  split at run
  · obtain ⟨blocks, made, rfl⟩ := withBlocks_eq_ok.mp run
    have layout := createBlocks_layout tile.narrow nonempty
    exact Except.ok.inj (made.symm.trans layout)
  · cases run

theorem ofEntry_covered {entry : FileEntry} (tile : entry.fecOti.Tileable) (run : ofEntry env entry = .ok f) :
    f.Covered := by
  obtain ⟨rfl, _, _⟩ := ofEntry_filling run
  rcases Nat.eq_zero_or_pos f.fecOti.transferLength with empty | nonempty
  · intro p inside
    omega
  · exact FecOti.Tileable.covered tile (ofEntry_blocks tile nonempty run)

/-- Where slots cover the object, a file that is complete was wholly received. -/
theorem Filling.whollyReceived {log : List SlotEvent} (filling : Filling f₀ f log) (covered : f₀.Covered) :
    f.WhollyReceived log := by
  refine ⟨fun complete p inside => ?_, filling.filled⟩
  have sameLength : f.fecOti.transferLength = f₀.fecOti.transferLength := by rw [fecOti, filling.entry, fecOti]
  obtain ⟨n, i, slot, offset, found, data, before, behind⟩ := covered p (sameLength ▸ inside)
  obtain ⟨now, here, sameData, sameSlot⟩ := filling.slot found
  obtain ⟨early, place, bytes, late, written, at', length, since⟩ :=
    filling.filled n i now here (filling.complete complete n i now here)
  obtain rfl : offset = place := by
    rw [sameData, data] at at'
    exact Option.some.inj at'
  exact ⟨early, offset, bytes, late, by rw [length]; exact written, before, by omega, since⟩

end File

/-- A file for reception and the calls of `put_symbol` on it. -/
def reception (env : Env) (entry : FileEntry) : Machine File EncodingSymbol SlotEvent where
  init f := File.ofEntry env entry = .ok f
  step f symbol := some ((f.putSymbol env symbol).1, f.slotEvents env symbol)

/-- In every run in which the symbols that arrive at incomplete slots are as long
as these, a complete file has been wholly received. -/
theorem File.wholly_received (env : Env) (entry : FileEntry)
    (covered : ∀ f, File.ofEntry env entry = .ok f → f.Covered) (f : File) (log : List SlotEvent)
    (reach : (reception env entry).Reach (fun f _ symbol => symbol.Whole ∧ f.Addresses symbol ∧ f.Fills symbol)
      f log) : f.WhollyReceived log := by
  have filling : ∃ f₀, File.ofEntry env entry = .ok f₀ ∧ File.Filling f₀ f log := by
    refine reach.invariant (I := fun f log => ∃ f₀, File.ofEntry env entry = .ok f₀ ∧ File.Filling f₀ f log) ?_ ?_
    · exact fun f₀ made => ⟨f₀, made, (File.ofEntry_filling made).2.2⟩
    · rintro f log symbol f' out ⟨f₀, made, filling⟩ ⟨whole, addresses, fills⟩ step
      obtain ⟨rfl, rfl⟩ := Prod.mk.inj (Option.some.inj step)
      exact ⟨f₀, made, filling.putSymbol (File.ofEntry_filling made).2.1 whole addresses fills⟩
  obtain ⟨f₀, made, filling⟩ := filling
  exact filling.whollyReceived (covered f₀ made)

/-- An object of three bytes in two symbols. -/
def shortEntry : FileEntry where
  toi := 1
  contentLocation := "f"
  contentLength := 3
  fecOti := { transferLength := 3, encodingSymbolLength := 2, maxSourceBlockLength := 64 }

/-- The symbol of some bytes with an ID in the first block. -/
def looseSymbol (id : Nat) (bytes : List UInt8) : EncodingSymbol where
  id := id
  sourceBlockNumber := 0
  fecScheme := .compactNoCode
  encodedData := bytes
  dataLen := bytes.length

theorem shortEntry_tileable : shortEntry.fecOti.Tileable :=
  ⟨by decide, by decide, by decide, by decide +kernel, by decide +kernel⟩

instance (symbol : EncodingSymbol) : Decidable symbol.Whole :=
  decidable_of_iff (symbol.fecScheme = .compactNoCode ∧ symbol.dataLen ≤ symbol.encodedData.length)
    ⟨fun ⟨scheme, within⟩ => ⟨scheme, within⟩, fun whole => ⟨whole.scheme, whole.within⟩⟩

/-- Whether a symbol is for a slot of the file. -/
def File.addresses (f : File) (symbol : EncodingSymbol) : Bool :=
  match f.sourceBlocks.find? symbol.sourceBlockNumber with
  | none => false
  | some block => decide (symbol.sourceBlockNumber ≤ f.sourceBlocks.size) &&
    (block.symbols.find? symbol.id).isSome && decide (symbol.id ≤ block.symbols.size)

theorem File.addresses_iff {f : File} {symbol : EncodingSymbol} : f.addresses symbol = true ↔ f.Addresses symbol := by
  unfold addresses Addresses
  cases f.sourceBlocks.find? symbol.sourceBlockNumber with
  | none => simp
  | some block => simp [Option.isSome_iff_exists, and_assoc]

/-- Whether a symbol is as long as its slot. -/
def File.fills (f : File) (symbol : EncodingSymbol) : Bool :=
  match f.symbol? symbol.sourceBlockNumber symbol.id with
  | none => true
  | some slot => slot.complete || symbol.dataLen == slot.length

theorem File.fills_iff {f : File} {symbol : EncodingSymbol} : f.fills symbol = true ↔ f.Fills symbol := by
  unfold fills Fills
  cases f.symbol? symbol.sourceBlockNumber symbol.id with
  | none => simp
  | some slot => cases complete : slot.complete <;> simp [complete]

def shortFile : File where
  entry := shortEntry
  buffer := [0, 0, 0]
  sourceBlocks := shortEntry.fecOti.blocksAt fun _ _ => false

theorem ofEntry_shortEntry : File.ofEntry (sampleEnv [] []) shortEntry = .ok shortFile := by
  have memory : (sampleEnv [] []).malloc shortEntry.fecOti.transferLength = true := rfl
  rw [File.ofEntry, if_pos memory]
  exact File.withBlocks_eq_ok.mpr ⟨_, createBlocks_layout shortEntry_tileable.narrow (by decide), rfl⟩

theorem wholly_received_two : ∃ f log,
    (reception (sampleEnv [] []) shortEntry).Reach
      (fun f _ symbol => symbol.Whole ∧ f.Addresses symbol ∧ f.Fills symbol) f log ∧
    f.complete = true ∧ f.WhollyReceived log := by
  obtain ⟨f, log, reach, complete⟩ := Machine.exists_reach (M := reception (sampleEnv [] []) shortEntry)
    (fun f _ symbol => symbol.Whole ∧ f.Addresses symbol ∧ f.Fills symbol)
    (fun f symbol => decide symbol.Whole && f.addresses symbol && f.fills symbol) shortFile
    [looseSymbol 1 [99], looseSymbol 0 [97, 98]] (fun r => r.1.complete)
    (fun f _ symbol meets => by
      simp only [Bool.and_eq_true, decide_eq_true_eq, File.addresses_iff, File.fills_iff] at meets
      exact ⟨meets.1.1, meets.1.2, meets.2⟩)
    ofEntry_shortEntry (by decide +kernel)
  exact ⟨f, log, reach, complete, File.wholly_received _ _ (fun f made => File.ofEntry_covered shortEntry_tileable made)
    f log reach⟩

/-- Symbols longer than their slots are not copied, but they complete the file. -/
theorem not_wholly_received : ¬ ∀ (env : Env) (entry : FileEntry) (f : File) (log : List SlotEvent),
    (reception env entry).Reach (fun f _ symbol => symbol.Whole ∧ f.Addresses symbol) f log →
    f.WhollyReceived log := by
  intro claim
  obtain ⟨f, log, reach, checked⟩ : ∃ f log, (reception (sampleEnv [] []) shortEntry).Reach
      (fun f _ symbol => symbol.Whole ∧ f.Addresses symbol) f log ∧
      (f.complete && log == [.copied 0 2 [], .copied 2 1 []] && f.fecOti.transferLength == 3) = true := by
    refine Machine.exists_reach (M := reception (sampleEnv [] []) shortEntry) _
      (fun f symbol => decide symbol.Whole && f.addresses symbol) shortFile
      [looseSymbol 0 [97, 98, 99], looseSymbol 1 [97, 98]]
      (fun r => r.1.complete && r.2 == [.copied 0 2 [], .copied 2 1 []] && r.1.fecOti.transferLength == 3)
      (fun f _ symbol meets => ?_) ofEntry_shortEntry ?_
    · simpa only [Bool.and_eq_true, decide_eq_true_eq, File.addresses_iff] using meets
    · decide +kernel
  simp only [Bool.and_eq_true, beq_iff_eq] at checked
  obtain ⟨⟨complete, same⟩, size⟩ := checked
  obtain ⟨early, offset, bytes, late, split, _, behind, _⟩ := (claim _ _ f log reach).bytes complete 0 (by omega)
  have member : SlotEvent.copied offset bytes.length bytes ∈ log := by simp [split]
  rw [same] at member
  simp only [List.mem_cons, SlotEvent.copied.injEq, List.not_mem_nil, or_false] at member
  rcases member with ⟨_, length, rfl⟩ | ⟨_, length, rfl⟩ <;> simp at length

end Libflute
