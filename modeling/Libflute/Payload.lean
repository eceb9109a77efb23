import Libflute.Carrying
import Libflute.Library.Tiling

/-! For which payloads `from_payload` cuts out all of the data and no more. -/

namespace Libflute
namespace EncodingSymbol

/-- Symbols of one block with consecutive IDs. Their slices follow each other
through the data of the payload, and only the last may be short. -/
def CutExactly (memory : List UInt8) (n symbolLength : Nat) (symbols : List EncodingSymbol) : Prop :=
  ∃ number first pieces, Tiles 4 pieces n ∧ (∀ piece ∈ pieces.dropLast, piece.2 = symbolLength) ∧
    symbols = pieces.mapIdx fun i piece => {
      id := first + i
      sourceBlockNumber := number
      fecScheme := .compactNoCode
      encodedData := memory.drop piece.1
      dataLen := piece.2 }

/-- `from_payload` throws, or it cuts the `n` bytes exactly. -/
def CutsExactly (memory : List UInt8) (n : Nat) (fecOti : FecOti) (encoding : ContentEncoding) : Prop :=
  match fromPayload memory n fecOti encoding with
  | .ok symbols => CutExactly memory n fecOti.encodingSymbolLength symbols
  | .error (.throws _) => True
  | .error _ => False

variable {memory : List UInt8} {n : Nat} {fecOti : FecOti} {encoding : ContentEncoding}

/-- What `from_payload` makes of a payload whose header is there. -/
theorem fromPayload_slices (header : 4 ≤ memory.length) (supported : encoding = .none ∨ encoding = .gzip)
    (scheme : fecOti.encodingId = .compactNoCode) (n : Nat) :
    ∃ number first, Octets.read16 memory = some number ∧ Octets.read16 (memory.drop 2) = some first ∧
      fromPayload memory n fecOti encoding =
        (ceilInt (subSize n 4) fecOti.encodingSymbolLength >>= fun count => .ok ((List.range count).map fun i => {
          id := first + i
          sourceBlockNumber := number
          fecScheme := .compactNoCode
          encodedData := memory.drop (4 + i * fecOti.encodingSymbolLength)
          dataLen := min (subSize n 4) fecOti.encodingSymbolLength })) := by
  obtain ⟨number, readNumber⟩ := (Octets.read16_cases memory).resolve_left (by omega) |>.2
  obtain ⟨first, readFirst⟩ := (Octets.read16_cases (memory.drop 2)).resolve_left
    (by rw [List.length_drop]; omega) |>.2
  have known : ¬ (encoding ≠ .none ∧ encoding ≠ .gzip) := by
    rcases supported with rfl | rfl <;> simp
  refine ⟨number, first, readNumber, readFirst, ?_⟩
  rw [fromPayload, if_neg known, if_neg (by simp [scheme]), readNumber, readFirst]
  simp only [inBounds_some, ok_bind, List.drop_drop, scheme]
  rfl

/-- Behind its two checks `from_payload` throws nothing. -/
theorem fromPayload_error (supported : encoding = .none ∨ encoding = .gzip)
    (scheme : fecOti.encodingId = .compactNoCode) {e : Abort}
    (run : fromPayload memory n fecOti encoding = .error e) : e = .undefined := by
  have known : ¬ (encoding ≠ .none ∧ encoding ≠ .gzip) := by
    rcases supported with rfl | rfl <;> simp
  rw [fromPayload, if_neg known, if_neg (by simp [scheme])] at run
  rcases bind_eq_error.mp run with number | ⟨number, _, run⟩
  · exact inBounds_error number
  rcases bind_eq_error.mp run with first | ⟨first, _, run⟩
  · exact inBounds_error first
  rcases bind_eq_error.mp run with counted | ⟨count, _, run⟩
  · exact ceilInt_error counted
  · cases run

theorem map_range_eq_mapIdx {α β : Type} (count : Nat) (piece : Nat → α) (make : Nat → α → β) :
    ((List.range count).map fun i => make i (piece i)) = ((List.range count).map piece).mapIdx make := by
  refine List.ext_getElem (by simp) fun i inside _ => ?_
  simp

/-- A multiple of the symbol length whose quotient neither single precision nor
`int` changes. -/
def Countable (length symbolLength : Nat) : Prop :=
  symbolLength ∣ length ∧ length / symbolLength < 2 ^ 31 ∧
    SinglePrecision.ceilDivide length symbolLength = length / symbolLength

instance (length symbolLength : Nat) : Decidable (Countable length symbolLength) :=
  inferInstanceAs (Decidable (_ ∧ _ ∧ _))

theorem countable_mul {symbolLength : Nat} (positive : 0 < symbolLength) (count : Nat) :
    Countable (count * symbolLength) symbolLength ↔
      count < 2 ^ 31 ∧ SinglePrecision.ceilDivide (count * symbolLength) symbolLength = count := by
  rw [Countable, Nat.mul_div_cancel count positive]
  exact and_iff_right (Nat.dvd_mul_left _ _)

/-- Every multiple of the symbol length up to `2 ^ 24` is countable. -/
theorem countable_of_small {length symbolLength : Nat} (positive : 0 < symbolLength) (small : length ≤ 2 ^ 24)
    (whole : symbolLength ∣ length) : Countable length symbolLength := by
  obtain ⟨count, rfl⟩ := whole
  have fewer : count ≤ symbolLength * count := Nat.le_mul_of_pos_left count positive
  refine ⟨Nat.dvd_mul_right _ _, ?_, ?_⟩
  · rw [Nat.mul_div_cancel_left count positive]
    omega
  · rw [SinglePrecision.ceilDivide_of_le positive small, Nat.mul_div_cancel_left count positive]
    exact smul_ceilDiv positive count

/-- Slices of one length, all but the last of full length, follow each other to the
end of the data exactly when the data is one slice or as many whole slices as there are. -/
theorem cutExactly_slices_iff (enough : 4 ≤ n) {length : Nat} (positive : 0 < length) (number first : Nat)
    {count : Nat} (short : n - 4 ≤ length → count = (n - 4) ⌈/⌉ length) :
    CutExactly memory n length ((List.range count).map fun i => {
      id := first + i
      sourceBlockNumber := number
      fecScheme := .compactNoCode
      encodedData := memory.drop (4 + i * length)
      dataLen := min (n - 4) length }) ↔ n - 4 ≤ length ∨ n - 4 = count * length := by
  constructor
  · rintro ⟨_, _, pieces, tiles, _, same⟩
    by_cases long : n - 4 ≤ length
    · exact Or.inl long
    have lengths : pieces.map Prod.snd = List.replicate count length := by
      have dataLens := congrArg (List.map dataLen) same
      rw [List.map_map, min_eq_right (by omega)] at dataLens
      rw [← List.length_range (n := count), ← List.map_const']
      refine Eq.trans ?_ dataLens.symm
      refine List.ext_getElem (by simp) fun i _ _ => ?_
      simp
    have total := tiles.total
    rw [lengths, List.sum_replicate, smul_eq_mul] at total
    exact Or.inr (by omega)
  · intro fits
    have isCount : count = (n - 4) ⌈/⌉ length := by
      rcases fits with less | whole
      · exact short less
      · rw [whole, Nat.mul_comm]
        exact (smul_ceilDiv positive count).symm
    have inside : ∀ k < count, k * length < n - 4 := fun k before => (lt_ceilDiv_iff positive).mp (isCount ▸ before)
    have enclosed : n - 4 ≤ count * length := by
      rw [Nat.mul_comm, isCount]
      exact le_mul_ceilDiv positive
    have pieces : ((List.range count).map fun k => (4 + k * length, min (n - 4) length)) =
        cutPieces 4 (n - 4) length count := by
      refine List.map_congr_left fun k member => Prod.ext rfl ?_
      have before := inside k (List.mem_range.mp member)
      rcases fits with short | whole
      · have firstOnly : k = 0 := by
          by_contra later
          have := Nat.le_mul_of_pos_left length (Nat.pos_of_ne_zero later)
          omega
        rw [firstOnly, Nat.zero_mul, Nat.sub_zero]
      · have room : k * length + length ≤ n - 4 := by
          rw [whole] at before ⊢
          rw [← Nat.succ_mul]
          exact Nat.mul_le_mul_right _ (Nat.lt_of_mul_lt_mul_right before)
        change min (n - 4) length = min (n - 4 - k * length) length
        omega
    have tiles := Tiles.of_cutPieces 4 (n - 4) fun k before => (inside k before).le
    rw [min_eq_left enclosed, Nat.add_sub_cancel' enough, ← pieces] at tiles
    refine ⟨number, first, _, tiles, ?_, by rw [← map_range_eq_mapIdx]⟩
    intro piece member
    rw [← List.map_dropLast] at member
    obtain ⟨k, early, rfl⟩ := List.mem_map.mp member
    have two : 1 < count := by
      have some := List.length_pos_of_mem early
      rw [List.length_dropLast, List.length_range] at some
      omega
    have second := inside 1 two
    exact min_eq_right (by omega)

/-- `from_payload` cuts a payload exactly where it throws, and where there is a
header, and behind it one symbol at most or a countable number of whole symbols. -/
theorem cutsExactly_iff (within : n ≤ memory.length) (size : memory.length < 2 ^ 64) :
    CutsExactly memory n fecOti encoding ↔ (encoding ≠ .none ∧ encoding ≠ .gzip) ∨
      fecOti.encodingId ≠ .compactNoCode ∨
      4 ≤ n ∧ 0 < fecOti.encodingSymbolLength ∧
        (n - 4 ≤ fecOti.encodingSymbolLength ∨ Countable (n - 4) fecOti.encodingSymbolLength) := by
  by_cases unsupported : encoding ≠ .none ∧ encoding ≠ .gzip
  · rw [CutsExactly, fromPayload, if_pos unsupported]
    exact iff_of_true trivial (Or.inl unsupported)
  by_cases scheme : fecOti.encodingId = .compactNoCode
  swap
  · rw [CutsExactly, fromPayload, if_neg unsupported, if_pos scheme]
    exact iff_of_true trivial (Or.inr (Or.inl scheme))
  simp only [unsupported, scheme, ne_eq, not_true_eq_false, false_or]
  have supported : encoding = .none ∨ encoding = .gzip := by
    by_contra neither
    exact unsupported (not_or.mp neither)
  by_cases enough : 4 ≤ n
  · obtain ⟨number, first, _, _, run⟩ := fromPayload_slices (enough.trans within) supported scheme n
    rw [subSize_of_le enough (within.trans_lt size)] at run
    rw [CutsExactly, run]
    set E := fecOti.encodingSymbolLength
    have one : 0 < E → n - 4 ≤ E → SinglePrecision.ceilDivide (n - 4) E < 2 ^ 31 := fun positive less => by
      have fewer := SinglePrecision.ceilDivide_le (k := 1) positive (by decide) (less.trans_eq (Nat.one_mul E).symm)
      omega
    cases counted : ceilInt (n - 4) E with
    | error e =>
      obtain rfl := ceilInt_error counted
      refine iff_of_false (fun undefined => undefined) ?_
      rintro ⟨_, positive, fits⟩
      have few : SinglePrecision.ceilDivide (n - 4) E < 2 ^ 31 := by
        rcases fits with less | ⟨_, few, same⟩
        · exact one positive less
        · omega
      rw [ceilInt_eq_ok.mpr ⟨positive, few, rfl⟩] at counted
      cases counted
    | ok count =>
      obtain ⟨positive, few, rfl⟩ := ceilInt_eq_ok.mp counted
      rw [ok_bind]
      simp only [enough, positive, true_and]
      rw [cutExactly_slices_iff enough positive number first fun less =>
        SinglePrecision.ceilDivide_short positive less]
      refine or_congr_right ⟨fun whole => ?_, fun counts => ?_⟩
      · have quotient := Nat.div_eq_of_eq_mul_left positive whole
        exact ⟨⟨_, whole.trans (Nat.mul_comm _ _)⟩, by rw [quotient]; exact few, quotient.symm⟩
      · rw [counts.2.2, Nat.div_mul_cancel counts.1]
  · refine iff_of_false ?_ fun meets => enough meets.1
    intro cuts
    unfold CutsExactly at cuts
    split at cuts
    · obtain ⟨_, _, _, tiles, _⟩ := cuts
      have := tiles.total
      omega
    · next what thrown => cases fromPayload_error supported scheme thrown
    · exact cuts

/-- Symbols of one block with consecutive IDs, all of them full but the last,
which may be shorter. -/
structure Consecutive (symbolLength number first : Nat) (symbols : List EncodingSymbol) : Prop where
  whole : ∀ symbol ∈ symbols, symbol.Whole
  numbered : ∀ i symbol, symbols[i]? = some symbol → symbol.sourceBlockNumber = number ∧ symbol.id = first + i
  full : ∀ symbol ∈ symbols.dropLast, symbol.dataLen = symbolLength
  short : ∀ symbol ∈ symbols, symbol.dataLen ≤ symbolLength

/-- What a symbol says: its numbers, its length and its data. -/
def seen (symbol : EncodingSymbol) : Nat × Nat × Nat × List UInt8 :=
  (symbol.sourceBlockNumber, symbol.id, symbol.dataLen, symbol.bytes)

/-- `to_payload` writes symbols, and `from_payload` reads the same symbols from what was written. -/
def ReadBack (symbols : List EncodingSymbol) (room : Nat) (fecOti : FecOti) (encoding : ContentEncoding)
    (behind : List UInt8) : Prop :=
  ∃ payload back, toPayload symbols room fecOti = .ok payload ∧
    fromPayload (payload ++ behind) payload.length fecOti encoding = .ok back ∧ back.map seen = symbols.map seen

variable {symbols : List EncodingSymbol} {number first room : Nat} {behind : List UInt8}

theorem length_flatMap_bytes (whole : ∀ symbol ∈ symbols, symbol.Whole) :
    (symbols.flatMap bytes).length = (symbols.map dataLen).sum := by
  rw [List.length_flatMap]
  exact congrArg _ (List.map_congr_left fun symbol member => (whole symbol member).length_bytes)

/-- What `from_payload` makes of the bytes that `to_payload` wrote. -/
theorem readBack_run (some : symbols ≠ []) (consecutive : Consecutive fecOti.encodingSymbolLength number first symbols)
    (scheme : fecOti.encodingId = .compactNoCode) (supported : encoding = .none ∨ encoding = .gzip)
    (fits : (symbols.map dataLen).sum + 4 ≤ room) (size : room < 2 ^ 64) :
    ReadBack symbols room fecOti encoding behind ↔ ∃ count,
      ceilInt (symbols.map dataLen).sum fecOti.encodingSymbolLength = .ok count ∧
      ((List.range count).map fun i => (number % 2 ^ 16, first % 2 ^ 16 + i,
        min (symbols.map dataLen).sum fecOti.encodingSymbolLength,
        ((symbols.flatMap bytes ++ behind).drop (i * fecOti.encodingSymbolLength)).take
          (min (symbols.map dataLen).sum fecOti.encodingSymbolLength))) = symbols.map seen := by
  obtain ⟨head, tail, rfl⟩ := List.exists_cons_of_ne_nil some
  obtain ⟨rfl, isFirst⟩ := consecutive.numbered 0 head rfl
  rw [Nat.add_zero] at isFirst
  subst isFirst
  obtain ⟨room, rfl⟩ := Nat.exists_eq_add_of_le' (show 4 ≤ room by omega)
  have written : toPayload (head :: tail) (room + 4) fecOti = .ok (Octets.be16 head.sourceBlockNumber ++
      Octets.be16 head.id ++ (head :: tail).flatMap bytes) :=
    toPayload_of_fits scheme consecutive.whole (by omega)
  set data := (head :: tail).flatMap bytes with isData
  set total := ((head :: tail).map dataLen).sum with isTotal
  have length : (Octets.be16 head.sourceBlockNumber ++ Octets.be16 head.id ++ data).length = total + 4 := by
    rw [List.length_append, List.length_append, Octets.length_be16, Octets.length_be16,
      length_flatMap_bytes consecutive.whole, Nat.add_comm]
  have memory : Octets.be16 head.sourceBlockNumber ++ Octets.be16 head.id ++ data ++ behind =
      Octets.be16 head.sourceBlockNumber ++ (Octets.be16 head.id ++ (data ++ behind)) := by simp
  have enough : 4 ≤ (Octets.be16 head.sourceBlockNumber ++ Octets.be16 head.id ++ data ++ behind).length := by
    rw [List.length_append, length]
    omega
  obtain ⟨n, i, readNumber, readFirst, run⟩ := fromPayload_slices enough supported scheme (total + 4)
  rw [memory, Octets.read16_be16, Option.some.injEq] at readNumber
  rw [memory, show (Octets.be16 head.sourceBlockNumber ++ (Octets.be16 head.id ++ (data ++ behind))).drop 2 =
    Octets.be16 head.id ++ (data ++ behind) from rfl, Octets.read16_be16, Option.some.injEq] at readFirst
  rw [subSize_of_le (by omega) (by omega), Nat.add_sub_cancel] at run
  subst readNumber readFirst
  have slices : ∀ count, (((List.range count).map fun i => ({
        id := head.id % 65536 + i
        sourceBlockNumber := head.sourceBlockNumber % 65536
        fecScheme := .compactNoCode
        encodedData := (Octets.be16 head.sourceBlockNumber ++ Octets.be16 head.id ++ data ++ behind).drop
          (4 + i * fecOti.encodingSymbolLength)
        dataLen := min total fecOti.encodingSymbolLength } : EncodingSymbol)).map seen) =
      (List.range count).map fun i => (head.sourceBlockNumber % 2 ^ 16, head.id % 2 ^ 16 + i,
        min total fecOti.encodingSymbolLength,
        ((data ++ behind).drop (i * fecOti.encodingSymbolLength)).take
          (min total fecOti.encodingSymbolLength)) := by
    intro count
    rw [List.map_map]
    refine List.map_congr_left fun i _ => ?_
    simp only [Function.comp_apply, seen, bytes, ← List.drop_drop]
    rw [memory]
    rfl
  constructor
  · rintro ⟨payload, back, wrote, read, same⟩
    obtain rfl := Except.ok.inj (written.symm.trans wrote)
    rw [length, run] at read
    obtain ⟨count, counted, made⟩ := bind_eq_ok.mp read
    obtain rfl := Except.ok.inj made
    exact ⟨count, counted, (slices count).symm.trans same⟩
  · rintro ⟨count, counted, same⟩
    refine ⟨_, _, written, ?_, (slices count).trans same⟩
    rw [length, run, counted, ok_bind]

/-- Symbols of one length that slices of a payload have: a single one, or a countable
number of full ones. -/
structure EvenlyLong (symbolLength length : Nat) (symbols : List EncodingSymbol) : Prop where
  positive : 0 < length
  short : length ≤ symbolLength
  lengths : ∀ symbol ∈ symbols, symbol.dataLen = length
  alone : symbols.length = 1 ∨ length = symbolLength ∧ Countable (symbols.length * symbolLength) symbolLength

namespace EvenlyLong
variable {E L : Nat} (even : EvenlyLong E L symbols)
include even

theorem sum : (symbols.map dataLen).sum = symbols.length * L := by
  rw [List.map_congr_left even.lengths, List.map_const', List.sum_replicate, smul_eq_mul]

theorem min_sum (some : symbols ≠ []) : min (symbols.map dataLen).sum E = L := by
  rw [even.sum]
  rcases even.alone with single | ⟨full, _⟩
  · rw [single, Nat.one_mul, min_eq_left even.short]
  · rw [← full]
    exact min_eq_right (Nat.le_mul_of_pos_left _ (List.length_pos_of_ne_nil some))

/-- There are as many slices as symbols. -/
theorem count : ceilInt (symbols.map dataLen).sum E = .ok symbols.length := by
  have positive : 0 < E := even.positive.trans_le even.short
  rw [ceilInt_eq_ok, even.sum]
  rcases even.alone with single | ⟨full, counts⟩
  · rw [single, Nat.one_mul, SinglePrecision.ceilDivide_of_le_divisor even.positive even.short]
    exact ⟨positive, by decide, rfl⟩
  · obtain ⟨few, divides⟩ := (countable_mul positive _).mp counts
    rw [full, divides]
    exact ⟨positive, few, rfl⟩

/-- The slice in the place of a symbol has its bytes. -/
theorem slice (whole : ∀ symbol ∈ symbols, symbol.Whole) (behind : List UInt8) {i : Nat} {symbol : EncodingSymbol}
    (here : symbols[i]? = some symbol) : ((symbols.flatMap bytes ++ behind).drop (i * E)).take L = symbol.bytes := by
  have inside : i < symbols.length := (List.getElem?_eq_some_iff.mp here).1
  have bytesLength : ∀ symbol ∈ symbols, symbol.bytes.length = L := fun symbol member =>
    (whole symbol member).length_bytes.trans (even.lengths symbol member)
  have offset : i * E = i * L := by
    rcases even.alone with single | ⟨full, _⟩
    · rw [show i = 0 by omega, Nat.zero_mul, Nat.zero_mul]
    · rw [full]
  have room : i * L + L ≤ (symbols.flatMap bytes).length := by
    rw [length_flatMap_bytes whole, even.sum, ← Nat.succ_mul]
    exact Nat.mul_le_mul_right _ inside
  rw [offset, List.drop_append_of_le_length (by omega),
    List.take_append_of_le_length (by rw [List.length_drop]; omega), take_drop_flatMap bytesLength here]

end EvenlyLong

theorem Consecutive.evenlyLong_iff {E : Nat} (consecutive : Consecutive E number first symbols) (some : symbols ≠ []) :
    (∃ L, EvenlyLong E L symbols) ↔ (∀ symbol ∈ symbols, 0 < symbol.dataLen) ∧ (symbols.length = 1 ∨
      (∀ symbol ∈ symbols, symbol.dataLen = E) ∧ Countable (symbols.length * E) E) := by
  constructor
  · rintro ⟨L, even⟩
    refine ⟨fun symbol member => by rw [even.lengths symbol member]; exact even.positive, ?_⟩
    exact even.alone.imp_right fun ⟨full, counts⟩ =>
      ⟨fun symbol member => (even.lengths symbol member).trans full, counts⟩
  · rintro ⟨each, alone⟩
    obtain ⟨head, tail, rfl⟩ := List.exists_cons_of_ne_nil some
    have front : head ∈ head :: tail := List.mem_cons_self
    refine ⟨head.dataLen, each head front, consecutive.short head front, fun symbol member => ?_,
      alone.imp_right fun ⟨full, counts⟩ => ⟨full head front, counts⟩⟩
    rcases alone with single | ⟨full, _⟩
    · obtain rfl := List.length_eq_zero_iff.mp (show tail.length = 0 by simpa using single)
      rw [List.mem_singleton.mp member]
    · rw [full symbol member, full head front]

/-- Where every symbol has the length of the slices, and there are as many of these. -/
theorem Consecutive.evenlyLong_of_count {E : Nat} (consecutive : Consecutive E number first symbols) (some : symbols ≠ [])
    (counted : ceilInt (symbols.map dataLen).sum E = .ok symbols.length)
    (lengths : ∀ symbol ∈ symbols, min (symbols.map dataLen).sum E = symbol.dataLen) :
    EvenlyLong E (min (symbols.map dataLen).sum E) symbols := by
  obtain ⟨positive, few, count⟩ := ceilInt_eq_ok.mp counted
  have atLeastOne := List.length_pos_of_ne_nil some
  have nonempty : 0 < (symbols.map dataLen).sum := by
    by_contra empty
    rw [Nat.eq_zero_of_not_pos empty, SinglePrecision.ceilDivide_short positive (Nat.zero_le E), zero_ceilDiv] at count
    omega
  refine ⟨lt_min nonempty positive, min_le_right _ _, fun symbol member => (lengths symbol member).symm, ?_⟩
  by_cases single : symbols.length = 1
  · exact Or.inl single
  -- a symbol before the last one is full, and all have its length
  have early : 0 < symbols.dropLast.length := by
    rw [List.length_dropLast]
    omega
  have inFront := List.getElem_mem early
  have full := (lengths _ (List.mem_of_mem_dropLast inFront)).trans (consecutive.full _ inFront)
  have sum : (symbols.map dataLen).sum = symbols.length * E := by
    rw [List.map_congr_left fun symbol member => (lengths symbol member).symm.trans full, List.map_const',
      List.sum_replicate, smul_eq_mul]
  rw [sum] at few count
  exact Or.inr ⟨full, (countable_mul positive _).mpr ⟨by omega, count.symm⟩⟩

/-- Symbols read back as they were written exactly when their numbers fit the header
of the payload and there is one symbol, or a countable number of full ones. -/
theorem readBack_iff (consecutive : Consecutive fecOti.encodingSymbolLength number first symbols)
    (scheme : fecOti.encodingId = .compactNoCode) (supported : encoding = .none ∨ encoding = .gzip)
    (fits : (symbols.map dataLen).sum + 4 ≤ room) (size : room < 2 ^ 64) :
    ReadBack symbols room fecOti encoding behind ↔ symbols ≠ [] ∧ number < 2 ^ 16 ∧ first < 2 ^ 16 ∧
      (∀ symbol ∈ symbols, 0 < symbol.dataLen) ∧ (symbols.length = 1 ∨
        (∀ symbol ∈ symbols, symbol.dataLen = fecOti.encodingSymbolLength) ∧
          Countable (symbols.length * fecOti.encodingSymbolLength) fecOti.encodingSymbolLength) := by
  by_cases none : symbols = []
  · subst none
    refine iff_of_false ?_ fun some => some.1 rfl
    rintro ⟨payload, back, wrote, _⟩
    unfold toPayload at wrote
    split at wrote <;> cases wrote
  rw [readBack_run none consecutive scheme supported fits size, ← consecutive.evenlyLong_iff none]
  constructor
  · rintro ⟨count, counted, same⟩
    obtain rfl : count = symbols.length := by simpa using congrArg List.length same
    have each : ∀ i symbol, symbols[i]? = some symbol → number % 2 ^ 16 = symbol.sourceBlockNumber ∧
        first % 2 ^ 16 + i = symbol.id ∧ min (symbols.map dataLen).sum fecOti.encodingSymbolLength = symbol.dataLen := by
      intro i symbol here
      have inside : i < symbols.length := (List.getElem?_eq_some_iff.mp here).1
      have entry := congrArg (fun l => l[i]?) same
      simp only [List.getElem?_map, here, List.getElem?_range inside, Option.map_some, Option.some.injEq, seen,
        Prod.mk.injEq] at entry
      exact ⟨entry.1, entry.2.1, entry.2.2.1⟩
    have atStart := List.getElem?_eq_getElem (List.length_pos_of_ne_nil none)
    obtain ⟨sameNumber, sameFirst, _⟩ := each 0 _ atStart
    obtain ⟨isNumber, isFirst⟩ := consecutive.numbered 0 _ atStart
    refine ⟨none, by omega, by omega, _, consecutive.evenlyLong_of_count none counted fun symbol member => ?_⟩
    obtain ⟨i, _, here⟩ := List.getElem_of_mem member
    exact (each i symbol (List.getElem?_eq_some_iff.mpr ⟨_, here⟩)).2.2
  · rintro ⟨_, smallNumber, smallFirst, L, even⟩
    refine ⟨symbols.length, even.count, ?_⟩
    rw [even.min_sum none]
    refine List.ext_getElem (by simp) fun i inRange _ => ?_
    have inside : i < symbols.length := by simpa using inRange
    have here := List.getElem?_eq_getElem inside
    obtain ⟨sameNumber, sameId⟩ := consecutive.numbered i _ here
    simp only [List.getElem_map, List.getElem_range, seen, even.slice consecutive.whole behind here,
      Nat.mod_eq_of_lt smallNumber, Nat.mod_eq_of_lt smallFirst, sameNumber, sameId,
      even.lengths _ (List.getElem_mem inside)]

/-- For which payloads `from_payload` keeps to the data, and for which symbols it
reads what `to_payload` wrote. -/
theorem payload_iff (fecOti : FecOti) (encoding : ContentEncoding) :
    (∀ (memory : List UInt8) (n : Nat), n ≤ memory.length → memory.length < 2 ^ 64 →
      (CutsExactly memory n fecOti encoding ↔ (encoding ≠ .none ∧ encoding ≠ .gzip) ∨
        fecOti.encodingId ≠ .compactNoCode ∨
        4 ≤ n ∧ 0 < fecOti.encodingSymbolLength ∧
          (n - 4 ≤ fecOti.encodingSymbolLength ∨ Countable (n - 4) fecOti.encodingSymbolLength))) ∧
    (∀ (symbols : List EncodingSymbol) (number first room : Nat) (behind : List UInt8),
      Consecutive fecOti.encodingSymbolLength number first symbols →
      fecOti.encodingId = .compactNoCode → encoding = .none ∨ encoding = .gzip →
      (symbols.map dataLen).sum + 4 ≤ room → room < 2 ^ 64 →
      (ReadBack symbols room fecOti encoding behind ↔ symbols ≠ [] ∧ number < 2 ^ 16 ∧ first < 2 ^ 16 ∧
        (∀ symbol ∈ symbols, 0 < symbol.dataLen) ∧ (symbols.length = 1 ∨
          (∀ symbol ∈ symbols, symbol.dataLen = fecOti.encodingSymbolLength) ∧
            Countable (symbols.length * fecOti.encodingSymbolLength) fecOti.encodingSymbolLength))) ∧
    ∀ length, length ≤ 2 ^ 24 → 0 < fecOti.encodingSymbolLength →
      (Countable length fecOti.encodingSymbolLength ↔ fecOti.encodingSymbolLength ∣ length) :=
  ⟨fun _ _ within size => cutsExactly_iff within size,
    fun _ _ _ _ _ consecutive scheme supported fits size =>
      readBack_iff consecutive scheme supported fits size,
    fun _ small positive => ⟨And.left, countable_of_small positive small⟩⟩

theorem payload_iff_small : CutsExactly [0, 0, 0, 0, 1, 2, 3, 4] 8 { encodingSymbolLength := 2 } .none ∧
    ReadBack [⟨7, 3, .compactNoCode, [1, 2], 2⟩, ⟨8, 3, .compactNoCode, [3, 4], 2⟩] 100
      { encodingSymbolLength := 2 } .none [] ∧ Countable 6 2 := by
  obtain ⟨cuts, reads, counts⟩ := payload_iff { encodingSymbolLength := 2 } .none
  refine ⟨(cuts _ 8 (by decide) (by decide)).mpr ?_,
    (reads _ 3 7 100 [] ?_ rfl (Or.inl rfl) (by decide) (by decide)).mpr ?_,
    (counts 6 (by decide) (by decide)).mpr ⟨3, rfl⟩⟩
  · exact Or.inr (Or.inr ⟨by decide, by decide, Or.inr (by decide +kernel)⟩)
  · refine ⟨?_, ?_, by decide, by decide⟩
    · simp only [List.mem_cons, List.not_mem_nil, or_false, forall_eq_or_imp, forall_eq]
      exact ⟨⟨rfl, by decide⟩, ⟨rfl, by decide⟩⟩
    · rintro (_ | _ | i) symbol here
      · obtain rfl := Option.some.inj here
        exact ⟨rfl, rfl⟩
      · obtain rfl := Option.some.inj here
        exact ⟨rfl, rfl⟩
      · simp at here
  · decide +kernel

/-- The second of two symbols reaches behind a payload that ends with a short one. -/
theorem not_payload : ¬ ∀ (memory : List UInt8) (n : Nat) (fecOti : FecOti) (encoding : ContentEncoding),
    n ≤ memory.length → memory.length < 2 ^ 64 → CutsExactly memory n fecOti encoding := by
  intro claim
  have cuts := claim [0, 0, 0, 0, 1, 2, 3] 7 { encodingSymbolLength := 2 } .none (by decide) (by decide)
  rw [cutsExactly_iff (by decide) (by decide)] at cuts
  revert cuts
  decide +kernel

end EncodingSymbol
end Libflute
