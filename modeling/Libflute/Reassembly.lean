import Libflute.Draining

/-! Receiving the packets of a file, each carrying one symbol. -/

namespace Libflute

/-- The symbols a packet carries for an object. -/
def cutPacket (fecOti : FecOti) (data : List UInt8) (len : Nat) : Outcome (List EncodingSymbol) := do
  let alc ← AlcPacket.parse data len
  EncodingSymbol.fromPayload (data.drop alc.headerLength) (subSize len alc.headerLength) fecOti
    alc.contentEncoding

/-- Parsing a packet, cutting its payload and putting the symbols into a file. -/
def receivePacket (env : Env) (r : File) (data : List UInt8) (len : Nat) : File × Outcome Unit :=
  match cutPacket r.fecOti data len with
  | .error e => (r, .error e)
  | .ok symbols => r.putSymbols env symbols

/-- Receiving packets one after the other, each followed in memory by other bytes. -/
def receivePackets (env : Env) : File → List (List UInt8 × List UInt8) → File × Outcome Unit
  | r, [] => (r, .ok ())
  | r, (packet, tail) :: rest =>
    match receivePacket env r (packet ++ tail) packet.length with
    | (r, .ok ()) => receivePackets env r rest
    | (r, .error e) => (r, .error e)

/-- The header of any packet the transmitter builds is passed over. -/
theorem cutPacket_header {fecOti : FecOti} (sbn esi : Nat) {data : List UInt8}
    (scheme : fecOti.encodingId = .compactNoCode) (positive : 0 < fecOti.encodingSymbolLength)
    (small : data.length < 2 ^ 63) (few : SinglePrecision.ceilDivide data.length fecOti.encodingSymbolLength < 2 ^ 31)
    (tsi toi fdtInstanceId : Nat) (rest : List UInt8) :
    cutPacket fecOti (AlcPacket.header tsi toi fecOti fdtInstanceId ++
        (Octets.be16 sbn ++ Octets.be16 esi ++ data ++ rest))
        ((AlcPacket.header tsi toi fecOti fdtInstanceId).length + (data.length + 4)) =
      .ok ((List.range (SinglePrecision.ceilDivide data.length fecOti.encodingSymbolLength)).map fun i =>
        { id := esi % 65536 + i
          sourceBlockNumber := sbn % 65536
          fecScheme := .compactNoCode
          encodedData := (data ++ rest).drop (i * fecOti.encodingSymbolLength)
          dataLen := min data.length fecOti.encodingSymbolLength }) := by
  have cut := EncodingSymbol.fromPayload_of_header sbn esi rest scheme positive small few
  have headerLength := AlcPacket.length_header tsi toi fecOti fdtInstanceId
  have left : ∀ n, n < 2 ^ 6 → subSize (n + (data.length + 4)) n = data.length + 4 := fun n less => by
    rw [subSize_of_le (by omega) (by omega)]
    omega
  by_cases fdt : toi % 2 ^ 16 = 0
  · rw [if_pos fdt] at headerLength
    rw [cutPacket, AlcPacket.parse_header_fdt fdt (by omega), ok_bind]
    simp only [AlcPacket.headerLength]
    rw [headerLength, left _ (by decide), ← cut, List.drop_left' headerLength]
  · rw [if_neg fdt] at headerLength
    rw [cutPacket, AlcPacket.parse_header_data fdt (by omega), ok_bind]
    simp only [AlcPacket.headerLength]
    rw [headerLength, left _ (by decide), ← cut, List.drop_left' headerLength]

namespace File
variable {f r : File} {env : Env} {key : Nat × Nat}

/-- A packet with one symbol gives back this symbol. -/
theorem Sound.cutPacket_packet (sound : f.Sound) {offset length : Nat}
    (slot : f.slot? key = some (some offset, length)) (small : length < 2 ^ 63) (tsi : Nat) (tail : List UInt8) :
    cutPacket f.fecOti (f.packet tsi key ++ tail) (f.packet tsi key).length =
      .ok [{
        id := key.2
        sourceBlockNumber := key.1
        fecScheme := .compactNoCode
        encodedData := f.slotBytes key ++ tail
        dataLen := length }] := by
  obtain ⟨_, bytesLength, _⟩ := sound.slotBytes_spec slot
  obtain ⟨positive, short⟩ := sound.slot_lengths slot
  obtain ⟨symbol, found⟩ := holds_iff_slot.mpr ⟨_, slot⟩
  obtain ⟨smallBlock, smallId, _⟩ := sound.symbol_spec found
  have count := SinglePrecision.ceilDivide_of_le_divisor positive short
  have cut := cutPacket_header key.1 key.2 sound.scheme (show 0 < f.fecOti.encodingSymbolLength by omega)
    (show (f.slotBytes key).length < 2 ^ 63 by omega) (by rw [bytesLength]; omega) tsi f.entry.toi f.fdtInstanceId tail
  have packet : f.packet tsi key = AlcPacket.header tsi f.entry.toi f.fecOti f.fdtInstanceId ++
      (Octets.be16 key.1 ++ Octets.be16 key.2 ++ f.slotBytes key) := rfl
  have packetLength : (f.packet tsi key).length = (AlcPacket.header tsi f.entry.toi f.fecOti
      f.fdtInstanceId).length + ((f.slotBytes key).length + 4) := by
    simp only [packet, List.length_append, Octets.length_be16]
    omega
  rw [packetLength, packet, List.append_assoc, cut, bytesLength, count, Nat.mod_eq_of_lt (by omega),
    Nat.mod_eq_of_lt (by omega), min_eq_left short]
  simp only [List.range_one, List.map_cons, List.map_nil, Nat.zero_mul, Nat.add_zero, List.drop_zero]

/-- Writing a symbol where it lies and marking it complete. -/
def stored (r : File) (key : Nat × Nat) (block : SourceBlock) (offset : Nat) (bytes : List UInt8) : File :=
  { r with buffer := r.buffer.take offset ++ bytes ++ r.buffer.drop (offset + bytes.length) }.settled
    key.1 key.2 block

theorem setBlock_self {n : Nat} {block : SourceBlock} (inFile : r.sourceBlocks.find? n = some block) :
    r.setBlock n block = r := by
  have same : r.sourceBlocks.insertOrAssign n block = r.sourceBlocks := by
    refine SortedMap.ext_find? fun m => ?_
    rw [SortedMap.find?_insertOrAssign]
    split
    · next here => rw [here, inFile]
    · rfl
  rw [setBlock, same]

theorem insertOrAssign_self {symbols : SortedMap Nat Symbol} {i : Nat} {symbol : Symbol}
    (inBlock : symbols.find? i = some symbol) : symbols.insertOrAssign i symbol = symbols := by
  refine SortedMap.ext_find? fun j => ?_
  rw [SortedMap.find?_insertOrAssign]
  split
  · next here => rw [here, inBlock]
  · rfl

/-- `put_symbol` of a symbol the file has. -/
theorem putSymbol_eq (symbol : EncodingSymbol) {block : SourceBlock} {target : Symbol}
    (inFile : r.sourceBlocks.find? symbol.sourceBlockNumber = some block)
    (inBlock : block.symbols.find? symbol.id = some target)
    (smallBlock : symbol.sourceBlockNumber < 2 ^ 16) (smallId : symbol.id < 2 ^ 16)
    (someBlocks : symbol.sourceBlockNumber ≤ r.sourceBlocks.size) (someIds : symbol.id ≤ block.symbols.size) :
    r.putSymbol env symbol =
      if target.complete then (r, .ok ())
      else match symbol.decodeTo target.length >>= r.copyTo target.data with
        | .error e => (r, .error e)
        | .ok buffer =>
          let done := block.symbols.insertOrAssign symbol.id { target with complete := true }
          checkFileCompletion env
            { r.setBlock symbol.sourceBlockNumber { block with symbols := done }.checkCompletion with
              buffer := buffer } := by
  simp only [putSymbol, Nat.mod_eq_of_lt smallBlock, Nat.mod_eq_of_lt smallId, inFile, Option.getD_some,
    setBlock_self inFile, inBlock, insertOrAssign_self inBlock, if_neg (not_lt.mpr someBlocks)]
  exact if_neg (not_lt.mpr someIds)

theorem putSymbol_stored (symbol : EncodingSymbol) {block : SourceBlock} {target : Symbol} {offset : Nat}
    (inFile : r.sourceBlocks.find? symbol.sourceBlockNumber = some block)
    (inBlock : block.symbols.find? symbol.id = some target)
    (smallBlock : symbol.sourceBlockNumber < 2 ^ 16) (smallId : symbol.id < 2 ^ 16)
    (someBlocks : symbol.sourceBlockNumber ≤ r.sourceBlocks.size) (someIds : symbol.id ≤ block.symbols.size)
    (fresh : target.complete = false) (unqueued : target.queued = false) (data : target.data = some offset)
    (whole : symbol.Whole) (fills : symbol.dataLen = target.length) (positive : 0 < target.length)
    (inside : offset + target.length ≤ r.buffer.length) (owned : r.freed = false) :
    r.putSymbol env symbol =
      (r.stored (symbol.sourceBlockNumber, symbol.id) block offset symbol.bytes).checkDigest env := by
  have length : symbol.bytes.length = target.length := whole.length_bytes.trans fills
  have decode : symbol.decodeTo target.length = .ok symbol.bytes := by
    rw [EncodingSymbol.decodeTo, if_pos ⟨whole.scheme, fills.le⟩, readBytes_eq_ok]
    exact ⟨whole.within, rfl⟩
  have copy : r.copyTo target.data symbol.bytes =
      .ok (r.buffer.take offset ++ symbol.bytes ++ r.buffer.drop (offset + symbol.bytes.length)) := by
    have nonempty : symbol.bytes ≠ [] := List.ne_nil_of_length_pos (by omega)
    simp only [copyTo, if_neg nonempty, data, owned, length, Bool.false_eq_true, false_or,
      if_neg (not_lt.mpr inside)]
  have done : block.symbols.insertOrAssign symbol.id { target with complete := true } =
      block.symbols.modify symbol.id fun s => { s with queued := false, complete := true } := by
    refine SortedMap.ext_find? fun j => ?_
    rw [SortedMap.find?_insertOrAssign, SortedMap.find?_modify, inBlock, Option.map_some]
    rw [unqueued]
  rw [putSymbol_eq symbol inFile inBlock smallBlock smallId someBlocks someIds, if_neg (by simp [fresh]), decode,
    ok_bind, copy, done]
  rfl

theorem getElem?_patch {buffer bytes : List UInt8} {offset : Nat} (inside : offset + bytes.length ≤ buffer.length)
    (p : Nat) : (buffer.take offset ++ bytes ++ buffer.drop (offset + bytes.length))[p]? =
      if offset ≤ p ∧ p < offset + bytes.length then bytes[p - offset]? else buffer[p]? := by
  have front : (buffer.take offset).length = offset := List.length_take_of_le (by omega)
  rw [List.append_assoc, List.getElem?_append, front]
  split_ifs with before within within
  · omega
  · rw [List.getElem?_take_of_lt before]
  · rw [List.getElem?_append_left (by omega)]
  · rw [List.getElem?_append_right (by omega), List.getElem?_drop]
    congr 1
    omega

theorem Sound.patch (sound : r.Sound) {offset : Nat} {bytes : List UInt8}
    (inside : offset + bytes.length ≤ r.buffer.length) :
    ({ r with buffer := r.buffer.take offset ++ bytes ++ r.buffer.drop (offset + bytes.length) } : File).Sound := by
  have same : (r.buffer.take offset ++ bytes ++ r.buffer.drop (offset + bytes.length)).length =
      r.buffer.length := by
    simp only [List.length_append, List.length_take, List.length_drop]
    omega
  refine ⟨sound.scheme, sound.plain, same.trans sound.whole, sound.digest, ?_, sound.exclusive,
    sound.blockComplete, sound.complete_iff⟩
  change ShapeWithin r.shape r.fecOti.encodingSymbolLength _
  rw [same]
  exact sound.shape

/-- The symbols of a file cover its buffer, and no index is beyond the sizes of the maps. -/
structure Tiled (f : File) : Prop where
  sound : f.Sound
  blocks : ∀ n block, f.shape.find? n = some block → n ≤ f.shape.size ∧
    ∀ i slot, block.find? i = some slot → i ≤ block.size
  small : f.fecOti.encodingSymbolLength < 2 ^ 31
  cover : ∀ p < f.buffer.length, ∃ key offset length,
    f.slot? key = some (some offset, length) ∧ offset ≤ p ∧ p < offset + length

/-- A file with the metadata of `f` that has the given symbols of `f`. -/
structure Holding (f : File) (received : List (Nat × Nat)) (r : File) : Prop where
  sound : r.Sound
  entry : r.entry = f.entry
  shape : r.shape = f.shape
  owned : r.freed = false
  unqueued : ∀ key, ¬ r.Queued key
  done : ∀ key, r.Done key ↔ f.Holds key ∧ key ∈ received
  copied : ∀ key ∈ received, ∀ offset length, f.slot? key = some (some offset, length) →
    ∀ p, offset ≤ p → p < offset + length → r.buffer[p]? = f.buffer[p]?

theorem Holding.holds_iff {received : List (Nat × Nat)} (holding : Holding f received r) :
    r.Holds key ↔ f.Holds key := by
  rw [holds_iff_slot, holds_iff_slot, slot?_congr holding.shape]

/-- A complete file has the content. -/
theorem Holding.buffer_eq {received : List (Nat × Nat)} (holding : Holding f received r) (tiled : f.Tiled)
    (all : ∀ key, f.Holds key → key ∈ received) : r.buffer = f.buffer := by
  have length : r.buffer.length = f.buffer.length := by
    rw [holding.sound.whole, tiled.sound.whole, fecOti, fecOti, holding.entry]
  refine List.ext_getElem? fun p => ?_
  by_cases inside : p < f.buffer.length
  · obtain ⟨key, offset, size, slot, after, before⟩ := tiled.cover p inside
    exact holding.copied key (all key (holds_iff_slot.mpr ⟨_, slot⟩)) offset size slot p after before
  · rw [List.getElem?_eq_none (by omega), List.getElem?_eq_none (by omega)]

/-- What receiving the packet of a symbol does. -/
theorem Holding.receivePacket_eq {received : List (Nat × Nat)} (holding : Holding f received r)
    (tiled : f.Tiled) {block : SourceBlock} {target : Symbol} {offset : Nat}
    (inFile : r.sourceBlocks.find? key.1 = some block) (inBlock : block.symbols.find? key.2 = some target)
    (start : target.data = some offset) (tsi : Nat) (tail : List UInt8) :
    Libflute.receivePacket env r (f.packet tsi key ++ tail) (f.packet tsi key).length =
      if target.complete then (r, .ok ())
      else (r.stored key block offset (f.slotBytes key)).checkDigest env := by
  have found : r.symbol? key.1 key.2 = some target := symbol?_eq_some.mpr ⟨block, inFile, inBlock⟩
  obtain ⟨smallBlock, smallId, ⟨offset', start', inside⟩, positive, short⟩ := holding.sound.symbol_spec found
  obtain rfl : offset' = offset := Option.some.inj (start'.symm.trans start)
  have slot : f.slot? key = some (some offset', target.length) := by
    rw [← slot?_congr holding.shape, slot?_of_symbol? found, start]
  rw [show r.fecOti = f.fecOti by rw [fecOti, fecOti, holding.entry]] at short
  obtain ⟨bytes, bytesLength, _⟩ := tiled.sound.slotBytes_spec slot
  have cut := tiled.sound.cutPacket_packet slot (by have := tiled.small; omega) tsi tail
  rw [← show r.fecOti = f.fecOti by rw [fecOti, fecOti, holding.entry]] at cut
  set symbol : EncodingSymbol := {
    id := key.2
    sourceBlockNumber := key.1
    fecScheme := .compactNoCode
    encodedData := f.slotBytes key ++ tail
    dataLen := target.length } with hsymbol
  have symbolBytes : symbol.bytes = f.slotBytes key := by
    rw [EncodingSymbol.bytes, hsymbol]
    simp only [← bytesLength, List.take_left]
  have whole : symbol.Whole := ⟨rfl, by
    simp only [hsymbol, List.length_append, bytesLength]
    omega⟩
  obtain ⟨someBlocks, someIds⟩ := tiled.blocks key.1 block.shape
    (by rw [← holding.shape, find?_shape, inFile, Option.map_some])
  have someIds := someIds key.2 _ (by rw [find?_blockShape, inBlock, Option.map_some])
  rw [← holding.shape, size_shape] at someBlocks
  rw [size_blockShape] at someIds
  have unfolded : Libflute.receivePacket env r (f.packet tsi key ++ tail) (f.packet tsi key).length =
      r.putSymbols env [symbol] := by
    simp only [Libflute.receivePacket, cut]
  rw [unfolded, putSymbols]
  by_cases complete : target.complete = true
  · rw [putSymbol_eq symbol inFile inBlock smallBlock smallId someBlocks someIds, if_pos complete,
      if_pos complete]
    rfl
  · have unqueued : target.queued = false :=
      Bool.eq_false_iff.mpr fun queued => holding.unqueued key ⟨target, found, queued⟩
    rw [putSymbol_stored symbol inFile inBlock smallBlock smallId someBlocks someIds
      (by simpa using complete) unqueued start whole rfl positive inside holding.owned, symbolBytes,
      if_neg complete]
    rcases checkDigest env (r.stored key block offset' (f.slotBytes key)) with ⟨r', _ | _⟩ <;> rfl

/-- Writing a symbol that is not there yet. -/
theorem Holding.store (env : Env) {received : List (Nat × Nat)} (holding : Holding f received r) (tiled : f.Tiled)
    {block : SourceBlock} {target : Symbol} {offset : Nat}
    (inFile : r.sourceBlocks.find? key.1 = some block) (inBlock : block.symbols.find? key.2 = some target)
    (start : target.data = some offset) :
    Holding f (key :: received) (r.stored key block offset (f.slotBytes key)) := by
  have found : r.symbol? key.1 key.2 = some target := symbol?_eq_some.mpr ⟨block, inFile, inBlock⟩
  have slot : f.slot? key = some (some offset, target.length) := by
    rw [← slot?_congr holding.shape, slot?_of_symbol? found, start]
  obtain ⟨bytes, bytesLength, inside⟩ := tiled.sound.slotBytes_spec slot
  have length : r.buffer.length = f.buffer.length := by
    rw [holding.sound.whole, tiled.sound.whole, fecOti, fecOti, holding.entry]
  have fits : offset + (f.slotBytes key).length ≤ r.buffer.length := by omega
  have marked : Marked env _ (r.stored key block offset (f.slotBytes key)) [key] :=
    (holding.sound.patch fits).marked_settled inFile ⟨target, found⟩
  refine ⟨marked.sound, marked.entry.trans holding.entry, marked.shape.trans holding.shape, holding.owned,
    fun k queued => holding.unqueued k ((marked.queued k).mp queued).1, fun k => ?_, ?_⟩
  · have before : r.Done k ∨ k = key ↔ (r.stored key block offset (f.slotBytes key)).Done k :=
      (done_settled (i := key.2) inFile ⟨target, found⟩ k).symm
    have held : f.Holds key := holding.holds_iff.mp ⟨target, found⟩
    rw [← before, holding.done, List.mem_cons]
    constructor
    · rintro (⟨holds, member⟩ | rfl)
      · exact ⟨holds, Or.inr member⟩
      · exact ⟨held, Or.inl rfl⟩
    · rintro ⟨holds, rfl | member⟩
      · exact Or.inr rfl
      · exact Or.inl ⟨holds, member⟩
  · intro k member start' length' slot' p after below
    rw [show (r.stored key block offset (f.slotBytes key)).buffer = r.buffer.take offset ++ f.slotBytes key ++
      r.buffer.drop (offset + (f.slotBytes key).length) from rfl, getElem?_patch fits, bytesLength]
    split_ifs with here
    · rw [bytes, List.getElem?_take_of_lt (by omega), List.getElem?_drop]
      congr 1
      omega
    · rcases List.mem_cons.mp member with rfl | old
      · obtain ⟨same, rfl⟩ := Prod.mk.inj (Option.some.inj (slot'.symm.trans slot))
        obtain rfl := Option.some.inj same
        exact absurd ⟨after, below⟩ here
      · exact holding.copied k old start' length' slot' p after below

/-- A file is complete when it has every symbol. -/
theorem Holding.complete_iff {received : List (Nat × Nat)} (holding : Holding f received r)
    (some : ∃ key, f.Holds key) : r.complete = true ↔ ∀ key, f.Holds key → key ∈ received := by
  constructor
  · intro complete key holds
    exact ((holding.done key).mp (holding.sound.done_of_complete complete (holding.holds_iff.mpr holds))).2
  · intro all
    by_contra incomplete
    obtain ⟨key, holds⟩ := some
    obtain ⟨other, otherHolds, pending⟩ := holding.sound.exists_not_done (by simpa using incomplete)
      (holding.holds_iff.mpr holds)
    have held := holding.holds_iff.mp otherHolds
    exact pending ((holding.done other).mpr ⟨held, all other held⟩)

/-- The digest of a complete file is the one of the content. -/
theorem Holding.checkDigest {received : List (Nat × Nat)} (holding : Holding f received r) (tiled : f.Tiled)
    (some : ∃ key, f.Holds key) (digest : f.DigestHolds env) : r.checkDigest env = (r, .ok ()) := by
  by_cases complete : r.complete = true
  · have content := holding.buffer_eq tiled ((holding.complete_iff some).mp complete)
    obtain ⟨r', run, _, same⟩ := holding.sound.checkDigest env
    rw [run, same]
    rw [DigestHolds, holding.entry, content]
    exact digest
  · rw [File.checkDigest, if_neg (by simp [complete])]

/-- Receiving a packet adds its symbol. -/
theorem Holding.receivePacket {received : List (Nat × Nat)} (holding : Holding f received r) (tiled : f.Tiled)
    (digest : f.DigestHolds env) (held : f.Holds key) (tsi : Nat)
    (tail : List UInt8) :
    ∃ r', Libflute.receivePacket env r (f.packet tsi key ++ tail) (f.packet tsi key).length = (r', .ok ()) ∧
      Holding f (key :: received) r' := by
  obtain ⟨target, found⟩ := holding.holds_iff.mpr held
  obtain ⟨block, inFile, inBlock⟩ := symbol?_eq_some.mp found
  obtain ⟨_, _, ⟨offset, start, _⟩, _⟩ := holding.sound.symbol_spec found
  rw [holding.receivePacket_eq tiled inFile inBlock start tsi tail]
  split_ifs with complete
  · have known : key ∈ received := ((holding.done key).mp ⟨target, found, complete⟩).2
    have same : ∀ k, k ∈ key :: received ↔ k ∈ received := fun k => by
      rw [List.mem_cons, or_iff_right_of_imp]
      rintro rfl
      exact known
    exact ⟨r, rfl, holding.sound, holding.entry, holding.shape, holding.owned, holding.unqueued,
      fun k => by rw [holding.done, same], fun k member => holding.copied k ((same k).mp member)⟩
  · have after := holding.store env tiled inFile inBlock start
    exact ⟨_, after.checkDigest tiled ⟨key, held⟩ digest, after⟩

/-- Different symbols travel in different packets. -/
theorem Sound.packet_injective (sound : f.Sound) {tsi : Nat} {key other : Nat × Nat} (held : f.Holds key)
    (otherHeld : f.Holds other) (same : f.packet tsi key = f.packet tsi other) : key = other := by
  obtain ⟨_, found⟩ := held
  obtain ⟨_, otherFound⟩ := otherHeld
  obtain ⟨smallBlock, smallId, _⟩ := sound.symbol_spec found
  obtain ⟨otherBlock, otherId, _⟩ := sound.symbol_spec otherFound
  have payload := List.append_cancel_left same
  rw [List.append_assoc, List.append_assoc] at payload
  have block := congrArg Octets.read16 payload
  have id := congrArg (fun bytes => Octets.read16 (bytes.drop 2)) payload
  have behind : ∀ (n : Nat) (bytes : List UInt8), (Octets.be16 n ++ bytes).drop 2 = bytes := fun _ _ => rfl
  simp only [behind, Octets.read16_be16, Option.some.injEq] at block id
  exact Prod.ext (by omega) (by omega)

/-- Receiving packets in any order, with any repetitions, adds their symbols. -/
theorem Holding.receivePackets {received : List (Nat × Nat)} (holding : Holding f received r) (tiled : f.Tiled)
    (digest : f.DigestHolds env) (tsi : Nat)
    {arriving : List (List UInt8 × List UInt8)}
    (sent : ∀ arrival ∈ arriving, ∃ key, f.Holds key ∧ arrival.1 = f.packet tsi key) :
    ∃ r' received', Libflute.receivePackets env r arriving = (r', .ok ()) ∧ Holding f received' r' ∧
      ∀ key, f.Holds key → (key ∈ received' ↔ key ∈ received ∨ f.packet tsi key ∈ arriving.map Prod.fst) := by
  induction arriving generalizing r received with
  | nil => exact ⟨r, received, rfl, holding, by simp⟩
  | cons arrival rest ih =>
    obtain ⟨packet, tail⟩ := arrival
    obtain ⟨key, held, rfl⟩ := sent (packet, tail) (by simp)
    obtain ⟨r₁, step, now⟩ := holding.receivePacket tiled digest held tsi tail
    obtain ⟨r', received', run, later, all⟩ := ih now fun arrival member =>
      sent arrival (List.mem_cons_of_mem _ member)
    refine ⟨r', received', ?_, later, fun k holds => ?_⟩
    · rw [Libflute.receivePackets, step]
      exact run
    · have same : f.packet tsi k = f.packet tsi key ↔ k = key :=
        ⟨tiled.sound.packet_injective holds held, fun same => by rw [same]⟩
      rw [all k holds, List.mem_cons, List.map_cons, List.mem_cons, same, or_left_comm, ← or_assoc]

end File
end Libflute
