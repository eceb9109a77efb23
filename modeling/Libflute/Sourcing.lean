import Libflute.HeldFiles

/-! Which symbols the bytes of a file that is being received are from. -/

namespace Libflute

instance (fecOti : FecOti) : Decidable fecOti.Tileable :=
  decidable_of_iff (0 < fecOti.encodingSymbolLength ∧ 0 < fecOti.maxSourceBlockLength ∧
      fecOti.maxSourceBlockLength ≤ 2 ^ 16 ∧ fecOti.transferLength ⌈/⌉ fecOti.encodingSymbolLength < 2 ^ 32 ∧
      fecOti.transferLength ⌈/⌉ fecOti.encodingSymbolLength ⌈/⌉ fecOti.maxSourceBlockLength ≤ 2 ^ 16)
    ⟨fun ⟨a, b, c, d, e⟩ => ⟨a, b, c, d, e⟩, fun tile =>
      ⟨tile.symbol_pos, tile.block_pos, tile.block_le, tile.symbols_lt, tile.blocks_le⟩⟩

namespace File
variable {env : Env} {f : File} {sent : EncodingSymbol → Prop}

/-- A file that is being received: it has not been decoded, and has the buffer
its constructor gave it. -/
structure Receiving (f : File) : Prop where
  undecoded : f.beenDecoded = false
  room : f.buffer.length = f.fecOti.transferLength

/-- One of the symbols that were sent has these numbers, and these bytes and no more. -/
def Carried (sent : EncodingSymbol → Prop) (n i : Nat) (bytes : List UInt8) : Prop :=
  ∃ symbol, sent symbol ∧ symbol.sourceBlockNumber = n ∧ symbol.id = i ∧ symbol.dataLen = bytes.length ∧
    symbol.bytes = bytes

/-- Every complete slot has the bytes of a symbol with its numbers. -/
def Provided (sent : EncodingSymbol → Prop) (f : File) : Prop :=
  ∀ n i slot offset, f.symbol? n i = some slot → slot.complete = true → slot.data = some offset →
    Carried sent n i ((f.buffer.drop offset).take slot.length)

/-- No two slots have a byte in common. -/
def Apart (f : File) : Prop :=
  ∀ key other offset place length size, f.slot? key = some (some offset, length) →
    f.slot? other = some (some place, size) → key ≠ other → place + size ≤ offset ∨ offset + length ≤ place

/-- Symbols that each have a slot when they are put, and are as long as it. -/
def FitsAll (env : Env) : File → List EncodingSymbol → Prop
  | _, [] => True
  | f, symbol :: rest => (symbol.Whole ∧ f.Addresses symbol ∧ f.Fills symbol) ∧ FitsAll env (f.putSymbol env symbol).1 rest

/-- `FitsAll` as it is evaluated in a run. -/
def fitsAll (env : Env) : File → List EncodingSymbol → Bool
  | _, [] => true
  | f, symbol :: rest => (decide symbol.Whole && f.addresses symbol && f.fills symbol) &&
      fitsAll env (f.putSymbol env symbol).1 rest

theorem fitsAll_iff {symbols : List EncodingSymbol} : f.fitsAll env symbols = true ↔ f.FitsAll env symbols := by
  induction symbols generalizing f with
  | nil => exact iff_of_true rfl trivial
  | cons symbol rest ih =>
    simp only [fitsAll, FitsAll, Bool.and_eq_true, ih, decide_eq_true_eq, addresses_iff, fills_iff, and_assoc]

/-- A file that was made to be received, with the bytes of symbols that were sent
in those of its slots that are complete. -/
structure Sourced (env : Env) (sent : EncodingSymbol → Prop) (f : File) : Prop where
  made : ∃ f₀ log, ofEntry env f.entry = .ok f₀ ∧ Filling f₀ f log
  provided : f.Provided sent

/-- The bytes a file was put together of: each slot has those of a symbol with its
numbers and of its length, and the slots cover them all. -/
structure AssembledFrom (sent : EncodingSymbol → Prop) (f : File) (bytes : List UInt8) : Prop where
  length : bytes.length = f.fecOti.transferLength
  covered : f.Covered
  slots : ∀ n i slot offset, f.symbol? n i = some slot → slot.data = some offset →
    ((bytes.drop offset).take slot.length).length = slot.length ∧
      Carried sent n i ((bytes.drop offset).take slot.length)

theorem ofEntry_receiving {entry : FileEntry} (run : ofEntry env entry = .ok f) : f.Receiving := by
  unfold ofEntry at run
  split at run
  · obtain ⟨blocks, _, rfl⟩ := withBlocks_eq_ok.mp run
    exact ⟨rfl, env.fresh_length _⟩
  · cases run

/-- What `memcpy` leaves has the size it had. -/
theorem copyTo_length {data : Option Nat} {bytes buffer : List UInt8} (run : f.copyTo data bytes = .ok buffer) :
    buffer.length = f.buffer.length := by
  unfold copyTo at run
  split at run
  · rw [← Except.ok.inj run]
  · split at run
    · cases run
    · next offset =>
      split at run
      · cases run
      · next inside =>
        rw [← Except.ok.inj run, List.length_append, List.length_append, List.length_take, List.length_drop]
        omega

theorem Receiving.checkFileCompletion (receiving : f.Receiving) : (f.checkFileCompletion env).1.Receiving := by
  rcases checkDigest_fst env { f with complete := f.sourceBlocks.all SourceBlock.complete } with same | reset
  · rw [File.checkFileCompletion, same]
    exact ⟨receiving.undecoded, receiving.room⟩
  · rw [File.checkFileCompletion, reset]
    exact ⟨receiving.undecoded, receiving.room⟩

theorem Receiving.putSymbol (receiving : f.Receiving) (env : Env) (symbol : EncodingSymbol) :
    (f.putSymbol env symbol).1.Receiving := by
  have kept : ∀ n block, (f.setBlock n block).Receiving := fun _ _ => ⟨receiving.undecoded, receiving.room⟩
  unfold File.putSymbol
  split
  · exact receiving
  dsimp only
  split
  · exact kept _ _
  split
  · exact ⟨receiving.undecoded, receiving.room⟩
  split
  · exact ⟨receiving.undecoded, receiving.room⟩
  · next buffer stored =>
    obtain ⟨bytes, _, copied⟩ := bind_eq_ok.mp stored
    have stored : Receiving { f with buffer := buffer } :=
      ⟨receiving.undecoded, (copyTo_length copied).trans receiving.room⟩
    exact Receiving.checkFileCompletion ⟨stored.undecoded, stored.room⟩

theorem Receiving.putSymbols (receiving : f.Receiving) (env : Env) (symbols : List EncodingSymbol) :
    (f.putSymbols env symbols).1.Receiving := by
  induction symbols generalizing f with
  | nil => exact receiving
  | cons symbol rest ih =>
    rw [File.putSymbols]
    have one := receiving.putSymbol env symbol
    split
    · next g run =>
      rw [run] at one
      exact ih one
    · next g e run =>
      rw [run] at one
      exact one

theorem ofEntry_apart {entry : FileEntry} (tile : entry.fecOti.Tileable) (run : ofEntry env entry = .ok f) : f.Apart := by
  rcases Nat.eq_zero_or_pos entry.fecOti.transferLength with empty | nonempty
  · -- an empty object has no slots
    obtain ⟨rfl, within, _⟩ := ofEntry_filling run
    intro key _ offset _ length _ slot
    obtain ⟨block, inFile, inBlock⟩ := Option.bind_eq_some_iff.mp slot
    obtain ⟨_, ⟨_, _, inside⟩, positive, _⟩ := (within _ _ inFile).2.2 _ _ _ inBlock
    rw [(ofEntry_receiving run).room] at inside
    change _ ≤ f.entry.fecOti.transferLength at inside
    omega
  set p := calculatePartitioning entry.fecOti
  set E := entry.fecOti.encodingSymbolLength
  have places : ∀ key offset length, f.slot? key = some (some offset, length) → key.2 < p.blockLength key.1 ∧
      offset = (p.blockStart key.1 + key.2) * E ∧ length ≤ E := by
    intro key offset length slot
    rw [slot?_eq, Option.map_eq_some_iff] at slot
    obtain ⟨symbol, found, place⟩ := slot
    obtain ⟨block, inFile, inBlock⟩ := symbol?_eq_some.mp found
    rw [ofEntry_blocks tile nonempty run, find?_blocksAt] at inFile
    split at inFile
    · obtain rfl := Option.some.inj inFile
      rw [find?_blockAt] at inBlock
      split at inBlock
      · next within =>
        obtain rfl := Option.some.inj inBlock
        obtain ⟨data, rfl⟩ := Prod.mk.inj place
        exact ⟨within, (Option.some.inj data).symm, min_le_right _ _⟩
      · cases inBlock
    · cases inFile
  intro key other offset place length size slot slot' different
  obtain ⟨within, rfl, short⟩ := places key offset length slot
  obtain ⟨within', rfl, short'⟩ := places other place size slot'
  have index : p.blockStart key.1 + key.2 ≠ p.blockStart other.1 + other.2 := fun same =>
    different (Prod.ext_iff.mpr ((tile.narrow.balanced nonempty).index_unique within within' same))
  rcases Nat.lt_or_gt_of_ne index with before | behind
  · have next := Nat.mul_le_mul_right E (show _ + 1 ≤ _ from before)
    rw [Nat.succ_mul] at next
    omega
  · have next := Nat.mul_le_mul_right E (show _ + 1 ≤ _ from behind)
    rw [Nat.succ_mul] at next
    omega

/-- What lies in other bytes is not changed by a patch. -/
theorem slice_patch {buffer bytes : List UInt8} {offset place size : Nat} (inside : offset + bytes.length ≤ buffer.length)
    (apart : place + size ≤ offset ∨ offset + bytes.length ≤ place) :
    ((buffer.take offset ++ bytes ++ buffer.drop (offset + bytes.length)).drop place).take size =
      (buffer.drop place).take size := by
  refine List.ext_getElem? fun p => ?_
  rw [List.getElem?_take, List.getElem?_take, List.getElem?_drop, List.getElem?_drop, getElem?_patch inside]
  split
  · rw [if_neg (by omega)]
  · rfl

theorem slice_patched {buffer bytes : List UInt8} {offset : Nat} (inside : offset + bytes.length ≤ buffer.length) :
    ((buffer.take offset ++ bytes ++ buffer.drop (offset + bytes.length)).drop offset).take bytes.length = bytes := by
  have front : (buffer.take offset).length = offset := List.length_take_of_le (by omega)
  rw [List.append_assoc, List.drop_append_of_le_length front.ge, List.drop_of_length_le front.le, List.nil_append,
    List.take_left]

theorem Provided.reset : f.reset.Provided sent := by
  intro n i slot offset found complete
  rw [symbol?_reset, Option.map_eq_some_iff] at found
  obtain ⟨old, _, rfl⟩ := found
  cases complete

/-- A symbol that fills its slot leaves what the other slots have. -/
theorem Provided.stored (provided : f.Provided sent) (apart : f.Apart) {n i offset : Nat} {block : SourceBlock}
    {slot : Symbol} {bytes : List UInt8} (inFile : f.sourceBlocks.find? n = some block)
    (inBlock : block.symbols.find? i = some slot) (data : slot.data = some offset) (length : bytes.length = slot.length)
    (inside : offset + bytes.length ≤ f.buffer.length) (carried : Carried sent n i bytes) :
    (f.stored (n, i) block offset bytes).Provided sent := by
  have isSlot : f.symbol? n i = some slot := symbol?_eq_some.mpr ⟨block, inFile, inBlock⟩
  set patched : File :=
    { f with buffer := f.buffer.take offset ++ bytes ++ f.buffer.drop (offset + bytes.length) }
  have inPatched : patched.sourceBlocks.find? n = some block := inFile
  intro m j other place found complete at'
  change Carried sent m j ((patched.buffer.drop place).take other.length)
  rw [File.stored, symbol?_settled inPatched] at found
  split at found
  · next same =>
    obtain ⟨rfl, rfl⟩ := Prod.mk.inj same
    rw [show patched.symbol? m j = some slot from isSlot, Option.map_some] at found
    obtain rfl := Option.some.inj found
    obtain rfl : offset = place := Option.some.inj (data.symm.trans at')
    change Carried sent m j ((patched.buffer.drop offset).take slot.length)
    rw [← length, slice_patched inside]
    exact carried
  · next different =>
    have isOther : f.symbol? m j = some other := found
    have free := apart (n, i) (m, j) offset place slot.length other.length
      ((slot?_of_symbol? isSlot).trans (by rw [data])) ((slot?_of_symbol? isOther).trans (by rw [at'])) (Ne.symm different)
    rw [slice_patch inside (by rwa [length])]
    exact provided m j other place isOther complete at'

namespace Sourced
variable (sourced : f.Sourced env sent)
include sourced

theorem mono {later : EncodingSymbol → Prop} (imp : ∀ s, sent s → later s) : f.Sourced env later :=
  ⟨sourced.made, fun n i slot offset found complete data => by
    obtain ⟨symbol, was, rest⟩ := sourced.provided n i slot offset found complete data
    exact ⟨symbol, imp symbol was, rest⟩⟩

theorem room : f.buffer.length = f.fecOti.transferLength := by
  obtain ⟨f₀, log, run, filling⟩ := sourced.made
  rw [filling.room, (ofEntry_receiving run).room, fecOti, fecOti, ← filling.entry]

theorem covered (tile : f.fecOti.Tileable) : f.Covered := by
  obtain ⟨f₀, log, run, filling⟩ := sourced.made
  intro p inside
  rw [fecOti, filling.entry] at inside
  obtain ⟨n, i, slot, offset, found, data, before, behind⟩ := ofEntry_covered tile run p inside
  obtain ⟨now, isNow, sameData, sameLength⟩ := filling.slot found
  exact ⟨n, i, now, offset, isNow, sameData.trans data, before, by omega⟩

theorem putSymbol (tile : f.fecOti.Tileable) {symbol : EncodingSymbol} (whole : symbol.Whole)
    (addresses : f.Addresses symbol) (fills : f.Fills symbol) (was : sent symbol) :
    (f.putSymbol env symbol).1.Sourced env sent := by
  obtain ⟨f₀, log, run, filling⟩ := sourced.made
  obtain ⟨_, within, _⟩ := ofEntry_filling run
  refine ⟨⟨f₀, _, by rw [putSymbol_entry]; exact run, filling.putSymbol within whole addresses fills⟩, ?_⟩
  have apart : f.Apart := by
    intro key other offset place length size slot slot'
    rw [slot?_congr filling.shape] at slot slot'
    exact ofEntry_apart tile run key other offset place length size slot slot'
  obtain ⟨block, slot, inFile, someBlocks, inBlock, someIds⟩ := addresses
  obtain ⟨smallBlock, _, slotSpec⟩ := filling.slot_spec within inFile
  obtain ⟨smallId, positive, offset, data, inside⟩ := slotSpec symbol.id slot inBlock
  have found : f.symbol? symbol.sourceBlockNumber symbol.id = some slot :=
    symbol?_eq_some.mpr ⟨block, inFile, inBlock⟩
  by_cases fresh : slot.complete = true
  · rw [putSymbol_eq symbol inFile inBlock smallBlock smallId someBlocks someIds, if_pos fresh]
    exact sourced.provided
  · rw [Bool.not_eq_true] at fresh
    have exact : symbol.dataLen = slot.length := fills slot found fresh
    have length : symbol.bytes.length = slot.length := whole.length_bytes.trans exact
    rw [putSymbol_stored symbol inFile inBlock smallBlock smallId someBlocks someIds fresh
      (filling.unqueued _ _ slot found) data whole exact positive inside filling.owned]
    rcases checkDigest_fst env
      (f.stored (symbol.sourceBlockNumber, symbol.id) block offset symbol.bytes) with kept | discarded
    · rw [kept]
      exact sourced.provided.stored apart inFile inBlock data length (by rwa [length])
        ⟨symbol, was, rfl, rfl, whole.length_bytes.symm, rfl⟩
    · rw [discarded]
      exact Provided.reset

theorem putSymbols (tile : f.fecOti.Tileable) {symbols : List EncodingSymbol} (fits : f.FitsAll env symbols)
    (were : ∀ s ∈ symbols, sent s) : (f.putSymbols env symbols).1.Sourced env sent := by
  induction symbols generalizing f with
  | nil => exact sourced
  | cons symbol rest ih =>
    obtain ⟨⟨whole, addresses, fills⟩, later⟩ := fits
    rw [List.forall_mem_cons] at were
    have one := sourced.putSymbol tile whole addresses fills were.1
    have entry := putSymbol_entry env f symbol
    rw [File.putSymbols]
    split
    · next g run =>
      rw [run] at one later entry
      exact ih one (by rw [fecOti, entry]; exact tile) later were.2
    · next g e run =>
      rw [run] at one
      exact one

/-- A complete file is put together of symbols that were sent. -/
theorem assembledFrom (tile : f.fecOti.Tileable) (complete : f.complete = true) : f.AssembledFrom sent f.buffer := by
  obtain ⟨f₀, log, run, filling⟩ := sourced.made
  obtain ⟨_, within, _⟩ := ofEntry_filling run
  refine ⟨sourced.room, sourced.covered tile, fun n i slot offset found data => ⟨?_, ?_⟩⟩
  · obtain ⟨block, inFile, inBlock⟩ := symbol?_eq_some.mp found
    obtain ⟨_, _, place, same, inside⟩ := (filling.slot_spec within inFile).2.2 i slot inBlock
    obtain rfl := Option.some.inj (data.symm.trans same)
    rw [List.length_take, List.length_drop]
    omega
  · exact sourced.provided n i slot offset found (filling.complete complete n i slot found) data

end Sourced

theorem AssembledFrom.mono {later : EncodingSymbol → Prop} {bytes : List UInt8} (assembled : f.AssembledFrom sent bytes)
    (imp : ∀ s, sent s → later s) : f.AssembledFrom later bytes := by
  refine ⟨assembled.length, assembled.covered, fun n i slot offset found data => ?_⟩
  obtain ⟨length, symbol, was, rest⟩ := assembled.slots n i slot offset found data
  exact ⟨length, symbol, imp symbol was, rest⟩

/-- Every byte of what a file is put together of was in a symbol that was sent. -/
theorem AssembledFrom.mem {bytes : List UInt8} (assembled : f.AssembledFrom sent bytes) {b : UInt8} (member : b ∈ bytes) :
    ∃ symbol, sent symbol ∧ b ∈ symbol.bytes := by
  obtain ⟨p, inside, rfl⟩ := List.mem_iff_getElem.mp member
  obtain ⟨n, i, slot, offset, found, data, before, behind⟩ := assembled.covered p (assembled.length ▸ inside)
  obtain ⟨_, symbol, was, _, _, _, content⟩ := assembled.slots n i slot offset found data
  refine ⟨symbol, was, List.mem_iff_getElem?.mpr ⟨p - offset, ?_⟩⟩
  rw [content, List.getElem?_take_of_lt (by omega), List.getElem?_drop, Nat.add_sub_cancel' before,
    List.getElem?_eq_getElem inside]

theorem ofEntry_sourced {entry : FileEntry} (run : ofEntry env entry = .ok f) : f.Sourced env sent := by
  obtain ⟨rfl, _, filling⟩ := ofEntry_filling run
  refine ⟨⟨f, [], run, filling⟩, fun n i slot offset found complete => ?_⟩
  obtain ⟨_, _, _, _, never, _⟩ := filling.filled n i slot found complete
  simp at never

end File

namespace Receiver
variable {env : Env} {r : Receiver}

/-- A test of a packet that is put into its file, as it is evaluated in a run. -/
def putsMeet (env : Env) (r : Receiver) (datagram : List UInt8)
    (test : AlcPacket → File → List EncodingSymbol → Bool) : Bool :=
  match AlcPacket.parse (r.arrived datagram).data (min maxDatagram datagram.length) with
  | .error _ => true
  | .ok alc =>
    let started := (startFdt env (r.arrived datagram) alc).state
    (started.files.find? alc.toi).all fun f =>
      (EncodingSymbol.fromPayload (started.data.drop alc.headerLength)
        (subSize (min maxDatagram datagram.length) alc.headerLength) f.fecOti alc.contentEncoding).toOption.all
          (test alc f)

theorem meets_of_puts {datagram : List UInt8} {alc : AlcPacket} {before after : File}
    {symbols : List EncodingSymbol} {stored : Outcome Unit} {test : AlcPacket → File → List EncodingSymbol → Bool}
    (meet : r.putsMeet env datagram test = true)
    (puts : Puts env r datagram alc before after symbols stored) : test alc before symbols = true := by
  unfold putsMeet at meet
  rw [puts.parsed] at meet
  simpa only [puts.stores.found, Option.all_some, puts.stores.payload, Except.toOption] using meet

end Receiver
end Libflute
