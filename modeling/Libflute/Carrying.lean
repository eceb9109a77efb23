import Libflute.Handed

/-! Which packets give back every symbol they are made of. -/

namespace Libflute

namespace File

/-- The symbols taken for one packet fit into it, follow each other in one
block and, if there are several, all have the full length. -/
def FitsTogether (f : File) (maxPayload nofSymbols : Nat) : Prop :=
  let taken := f.unsent.take nofSymbols
  (taken.map fun placed => placed.symbol.length).sum ≤ maxPayload ∧
  (∀ i < taken.length, taken[i]?.map Placed.key = taken[0]?.map fun first => (first.block, first.id + i)) ∧
  (taken.length = 1 ∨ ∀ placed ∈ taken, placed.symbol.length = f.fecOti.encodingSymbolLength)

instance (f : File) (maxPayload nofSymbols : Nat) : Decidable (f.FitsTogether maxPayload nofSymbols) :=
  inferInstanceAs (Decidable (_ ∧ _ ∧ _))

/-- The payload of a packet, cut with the parameters of the file, gives a symbol
with this number and ID and with all of its bytes. -/
def CarriedBy (f : File) (packet : List UInt8) (key : Nat × Nat) : Prop :=
  ∃ cut, cutPacket f.fecOti packet packet.length = .ok cut ∧ ∃ symbol ∈ cut, symbol.key = key ∧
    symbol.dataLen = (f.slotBytes key).length ∧ symbol.bytes = f.slotBytes key

theorem Later.carriedBy {f g : File} (later : f.Later g) : g.CarriedBy = f.CarriedBy := by
  funext packet key
  simp only [CarriedBy, later.fecOti, later.slotBytes]

end File

theorem take_drop_flatMap {α β : Type} {f : α → List β} {n : Nat} {l : List α}
    (all : ∀ a ∈ l, (f a).length = n) {i : Nat} {a : α} (here : l[i]? = some a) :
    ((l.flatMap f).drop (i * n)).take n = f a := by
  induction l generalizing i with
  | nil => simp at here
  | cons b rest ih =>
    have first := all b (by simp)
    cases i with
    | zero =>
      obtain rfl : b = a := by simpa using here
      rw [Nat.zero_mul, List.drop_zero, List.flatMap_cons, List.take_left' first]
    | succ i =>
      rw [List.flatMap_cons, show (i + 1) * n = (f b).length + i * n by rw [first]; ring, ← List.drop_drop,
        List.drop_left]
      exact ih (fun c member => all c (List.mem_cons_of_mem _ member)) (by simpa using here)

/-- The payload of a packet made of symbols of one length gives back each of them. -/
theorem cutPacket_uniform {symbols : List EncodingSymbol} {fecOti : FecOti} {L : Nat} (sbn esi : Nat)
    (scheme : fecOti.encodingId = .compactNoCode) (whole : ∀ s ∈ symbols, s.Whole ∧ s.dataLen = L)
    (positive : 0 < L) (short : L ≤ fecOti.encodingSymbolLength)
    (alone : symbols.length = 1 ∨ L = fecOti.encodingSymbolLength) (few : symbols.length ≤ 2 ^ 16)
    (small : (symbols.flatMap EncodingSymbol.bytes).length < 2 ^ 63) (tsi toi fdtInstanceId : Nat) :
    ∃ cut, cutPacket fecOti
        (AlcPacket.header tsi toi fecOti fdtInstanceId ++
          (Octets.be16 sbn ++ Octets.be16 esi ++ symbols.flatMap EncodingSymbol.bytes))
        (AlcPacket.header tsi toi fecOti fdtInstanceId ++
          (Octets.be16 sbn ++ Octets.be16 esi ++ symbols.flatMap EncodingSymbol.bytes)).length = .ok cut ∧
      ∀ i symbol, symbols[i]? = some symbol → ∃ back ∈ cut, back.key = (sbn % 65536, esi % 65536 + i) ∧
        back.dataLen = L ∧ back.bytes = symbol.bytes := by
  set data := symbols.flatMap EncodingSymbol.bytes with isData
  set E := fecOti.encodingSymbolLength
  have each : ∀ s ∈ symbols, s.bytes.length = L := fun s member =>
    (whole s member).1.length_bytes.trans (whole s member).2
  have total : data.length = symbols.length * L := by
    rw [isData, List.length_flatMap, List.map_congr_left each, List.map_const', List.sum_replicate, smul_eq_mul]
  have count : SinglePrecision.ceilDivide data.length E ≤ symbols.length + 1 :=
    SinglePrecision.ceilDivide_le (positive.trans_le short) (by omega) (total ▸ Nat.mul_le_mul_left _ short)
  have cut := cutPacket_header sbn esi scheme (positive.trans_le short) small
    (count.trans_lt (by omega)) tsi toi fdtInstanceId []
  have length : (AlcPacket.header tsi toi fecOti fdtInstanceId).length + (data.length + 4) =
      (AlcPacket.header tsi toi fecOti fdtInstanceId ++
        (Octets.be16 sbn ++ Octets.be16 esi ++ data)).length := by
    simp only [List.length_append, Octets.length_be16]
    omega
  rw [List.append_nil, length] at cut
  refine ⟨_, cut, fun i symbol here => ?_⟩
  obtain ⟨inside, rfl⟩ := List.getElem?_eq_some_iff.mp here
  have long : L ≤ data.length := by
    rw [total]
    exact Nat.le_mul_of_pos_left L (by omega)
  have enough : i < SinglePrecision.ceilDivide data.length E := by
    rcases alone with single | full
    · rw [total, single, Nat.one_mul, SinglePrecision.ceilDivide_of_le_divisor positive short]
      omega
    · rw [total, full]
      exact inside.trans_le (SinglePrecision.le_ceilDivide_mul (positive.trans_le short) (by omega))
  have offset : i * E = i * L := by
    rcases alone with single | full
    · rw [show i = 0 by omega, Nat.zero_mul, Nat.zero_mul]
    · rw [full]
  have dataLen : min data.length E = L := by
    rcases alone with single | full
    · rw [total, single, Nat.one_mul, min_eq_left short]
    · rw [← full, min_eq_right long]
  refine ⟨_, List.mem_map_of_mem (List.mem_range.mpr enough), rfl, dataLen, ?_⟩
  simp only [EncodingSymbol.bytes]
  rw [dataLen, offset, List.append_nil, isData, take_drop_flatMap each here]
  rfl

namespace File
variable {f : File}

/-- A packet made of symbols that fit together carries each of them. -/
theorem Sound.carriedBy (sound : f.Sound) {maxPayload n tsi : Nat} {packet : List UInt8}
    (small : maxPayload < 2 ^ 32) (fits : f.FitsTogether maxPayload n)
    (build : AlcPacket.build tsi f.entry.toi f.fecOti ((f.unsent.take n).map f.encoded) maxPayload
      f.fdtInstanceId = .ok packet) {placed : Placed} (member : placed ∈ f.unsent.take n) :
    f.CarriedBy packet placed.key := by
  obtain ⟨room, consecutive, full⟩ := fits
  have atMost : (f.unsent.take n).length ≤ n := List.length_take_le _ _
  have specs : ∀ p ∈ f.unsent.take n, (f.encoded p).Whole ∧ (f.encoded p).bytes = f.slotBytes p.key ∧
      p.block < 2 ^ 16 ∧ p.id < 2 ^ 16 ∧ 0 < p.symbol.length ∧
      p.symbol.length ≤ f.fecOti.encodingSymbolLength := by
    intro p inTaken
    obtain ⟨whole, bytes⟩ := sound.encoded_spec (List.mem_of_mem_take inTaken)
    obtain ⟨smallBlock, smallId, _, lengths⟩ :=
      sound.symbol_spec (symbol?_of_mem_unsent (List.mem_of_mem_take inTaken)).1
    exact ⟨whole, bytes, smallBlock, smallId, lengths⟩
  generalize f.unsent.take n = taken at *
  obtain ⟨first, rest, rfl⟩ := List.exists_cons_of_ne_nil (List.ne_nil_of_mem member)
  obtain ⟨i, inside, here⟩ := List.mem_iff_getElem.mp member
  have atIndex : (first :: rest)[i]? = some placed := by rw [List.getElem?_eq_getElem inside, here]
  have follows := consecutive i inside
  rw [atIndex, List.getElem?_cons_zero, Option.map_some, Option.map_some, Option.some.injEq] at follows
  -- the IDs of the symbols are numbers of 16 bits
  have few : (first :: rest).length ≤ 2 ^ 16 := by
    obtain ⟨last, here⟩ : ∃ last, (first :: rest)[rest.length]? = some last :=
      ⟨_, List.getElem?_eq_getElem (by simp)⟩
    have numbered := consecutive rest.length (by simp)
    rw [here, List.getElem?_cons_zero, Option.map_some, Option.map_some, Option.some.injEq] at numbered
    have smallId := (specs last (List.mem_of_getElem? here)).2.2.2.1
    rw [show last.id = first.id + rest.length from congrArg Prod.snd numbered] at smallId
    rw [List.length_cons]
    omega
  -- all symbols have one length, the full one unless there is only one symbol
  obtain ⟨L, lengths, alone⟩ : ∃ L, (∀ p ∈ first :: rest, p.symbol.length = L) ∧
      (((first :: rest).map f.encoded).length = 1 ∨ L = f.fecOti.encodingSymbolLength) := by
    rw [List.length_map]
    rcases full with single | full
    · refine ⟨first.symbol.length, fun p inTaken => ?_, Or.inl single⟩
      rw [List.length_cons] at single
      rw [List.length_eq_zero_iff.mp (show rest.length = 0 by omega), List.mem_singleton] at inTaken
      rw [inTaken]
    · exact ⟨_, full, Or.inr rfl⟩
  have whole : ∀ s ∈ (first :: rest).map f.encoded, s.Whole ∧ s.dataLen = L := by
    intro s inList
    obtain ⟨p, inTaken, rfl⟩ := List.mem_map.mp inList
    exact ⟨(specs p inTaken).1, lengths p inTaken⟩
  have sum : (((first :: rest).map f.encoded).map EncodingSymbol.dataLen).sum ≤ maxPayload := by
    rw [List.map_map]
    exact room
  have size : (((first :: rest).map f.encoded).flatMap EncodingSymbol.bytes).length ≤ maxPayload := by
    rw [List.length_flatMap, List.map_congr_left fun s inList => (whole s inList).1.length_bytes]
    exact sum
  have packed := EncodingSymbol.toPayload_of_fits sound.scheme
    (fun s (inList : s ∈ f.encoded first :: rest.map f.encoded) => (whole s inList).1) sum
  obtain ⟨_, bytes, smallBlock, smallId, positive, short⟩ := specs placed member
  obtain ⟨_, _, firstBlock, firstId, _⟩ := specs first (by simp)
  rw [lengths placed member] at positive short
  obtain ⟨cut, run, back⟩ := cutPacket_uniform first.block first.id sound.scheme whole positive
    short alone (by rw [List.length_map]; exact few) (by omega) tsi f.entry.toi f.fdtInstanceId
  obtain ⟨symbol, inCut, key, dataLen, same⟩ := back i (f.encoded placed) (by rw [List.getElem?_map, atIndex]; rfl)
  have payload : packet = AlcPacket.header tsi f.entry.toi f.fecOti f.fdtInstanceId ++
      (Octets.be16 first.block ++ Octets.be16 first.id ++
        ((first :: rest).map f.encoded).flatMap EncodingSymbol.bytes) := by
    rw [AlcPacket.build, List.map_cons, packed, ok_bind] at build
    exact (Except.ok.inj build).symm
  refine ⟨cut, by rw [payload]; exact run, symbol, inCut, ?_, ?_, same.trans bytes⟩
  · rw [key, follows, Nat.mod_eq_of_lt (show first.block < 65536 from firstBlock),
      Nat.mod_eq_of_lt (show first.id < 65536 from firstId)]
  · rw [dataLen, ← bytes, (specs placed member).1.length_bytes]
    exact (lengths placed member).symm

end File
end Libflute
