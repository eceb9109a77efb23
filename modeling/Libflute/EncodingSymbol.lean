import Libflute.Types
import Libflute.Library.Octets

namespace Libflute

/-- A `char*` is the list of bytes from where it points to the end of the memory
it points into, so that a symbol knows more bytes than are its own. -/
structure EncodingSymbol where
  id : Nat
  sourceBlockNumber : Nat
  fecScheme : FecScheme
  encodedData : List UInt8
  dataLen : Nat
  deriving DecidableEq, Repr

/-- A read of `n` bytes, which must not run past the end of the memory. -/
def readBytes (memory : List UInt8) (n : Nat) : Outcome (List UInt8) :=
  if n ≤ memory.length then .ok (memory.take n) else .error .undefined

theorem readBytes_eq_ok {memory bytes : List UInt8} {n : Nat} :
    readBytes memory n = .ok bytes ↔ n ≤ memory.length ∧ bytes = memory.take n := by
  unfold readBytes
  split
  · next within => simp [within, eq_comm]
  · next beyond => simp [beyond]

/-- Subtraction on `size_t`. -/
def subSize (a b : Nat) : Nat := (a + 2 ^ 64 - b) % 2 ^ 64

theorem subSize_of_le {a b : Nat} (le : b ≤ a) (small : a < 2 ^ 64) : subSize a b = a - b := by
  unfold subSize
  omega

namespace EncodingSymbol

def bytes (symbol : EncodingSymbol) : List UInt8 := symbol.encodedData.take symbol.dataLen

/-- The length of every slice is bounded by the whole of the data, which does
not shrink as the loop advances. -/
def fromPayload (encodedData : List UInt8) (dataLen : Nat) (fecOti : FecOti)
    (encoding : ContentEncoding) : Outcome (List EncodingSymbol) :=
  if encoding ≠ .none ∧ encoding ≠ .gzip then
    throwLiteral "Only unencoded or gzipped content is supported"
  else if fecOti.encodingId ≠ .compactNoCode then
    throwLiteral "Only compact no-code FEC is supported"
  else do
    let sourceBlockNumber ← inBounds (Octets.read16 encodedData)
    let encodingSymbolId ← inBounds (Octets.read16 (encodedData.drop 2))
    let dataLen := subSize dataLen 4
    let nofSymbols ← ceilInt dataLen fecOti.encodingSymbolLength
    pure ((List.range nofSymbols).map fun i =>
      { id := encodingSymbolId + i
        sourceBlockNumber := sourceBlockNumber
        fecScheme := fecOti.encodingId
        encodedData := (encodedData.drop 4).drop (i * fecOti.encodingSymbolLength)
        dataLen := min dataLen fecOti.encodingSymbolLength })

/-- What `encode_to` copies into a buffer with room for `maxLength` bytes. -/
def encodeTo (symbol : EncodingSymbol) (maxLength : Nat) : Outcome (List UInt8) :=
  if symbol.fecScheme = .compactNoCode ∧ symbol.dataLen ≤ maxLength then
    readBytes symbol.encodedData symbol.dataLen
  else .ok []

/-- What `decode_to` copies over the first bytes of a slot of `maxLength` bytes. -/
def decodeTo (symbol : EncodingSymbol) (maxLength : Nat) : Outcome (List UInt8) :=
  if symbol.fecScheme = .compactNoCode ∧ symbol.dataLen ≤ maxLength then
    readBytes symbol.encodedData symbol.dataLen
  else .ok []

/-- The loop of `to_payload`: it stops at the first symbol that does not fit. -/
def packSymbols : List EncodingSymbol → Nat → Outcome (List UInt8)
  | [], _ => .ok []
  | symbol :: rest, dataLen =>
    if symbol.dataLen ≤ dataLen then do
      let written ← symbol.encodeTo dataLen
      let later ← packSymbols rest (dataLen - written.length)
      pure (written ++ later)
    else .ok []

/-- The payload names the block and the ID of its first symbol only. -/
def toPayload (symbols : List EncodingSymbol) (dataLen : Nat) (fecOti : FecOti) : Outcome (List UInt8) :=
  if fecOti.encodingId = .compactNoCode ∧ 4 ≤ dataLen then
    match symbols with
    | [] => .error .undefined
    | first :: rest => do
      let data ← packSymbols (first :: rest) (dataLen - 4)
      pure (Octets.be16 first.sourceBlockNumber ++ Octets.be16 first.id ++ data)
  else throwLiteral "Only compact no-code FEC is supported"

/-- A symbol the sender made: its bytes are all there. -/
structure Whole (symbol : EncodingSymbol) : Prop where
  scheme : symbol.fecScheme = .compactNoCode
  within : symbol.dataLen ≤ symbol.encodedData.length

theorem Whole.length_bytes {symbol : EncodingSymbol} (whole : symbol.Whole) :
    symbol.bytes.length = symbol.dataLen := by
  simp [bytes, whole.within]

theorem Whole.encodeTo {symbol : EncodingSymbol} (whole : symbol.Whole) {room : Nat}
    (fits : symbol.dataLen ≤ room) : symbol.encodeTo room = .ok symbol.bytes := by
  rw [EncodingSymbol.encodeTo, if_pos ⟨whole.scheme, fits⟩, readBytes_eq_ok]
  exact ⟨whole.within, rfl⟩

/-- Symbols that fit together are packed one after the other. -/
theorem packSymbols_of_fits {symbols : List EncodingSymbol} {room : Nat}
    (whole : ∀ s ∈ symbols, s.Whole) (fits : (symbols.map dataLen).sum ≤ room) :
    packSymbols symbols room = .ok (symbols.flatMap bytes) := by
  induction symbols generalizing room with
  | nil => rfl
  | cons first rest ih =>
    simp only [List.map_cons, List.sum_cons] at fits
    have firstWhole := whole first (by simp)
    have tail : packSymbols rest (room - first.dataLen) = .ok (rest.flatMap bytes) :=
      ih (fun s member => whole s (by simp [member])) (by omega)
    rw [packSymbols, if_pos (by omega), firstWhole.encodeTo (by omega), ok_bind,
      firstWhole.length_bytes, tail]
    rfl

theorem toPayload_of_fits {first : EncodingSymbol} {rest : List EncodingSymbol} {room : Nat}
    {fecOti : FecOti} (scheme : fecOti.encodingId = .compactNoCode)
    (whole : ∀ s ∈ first :: rest, s.Whole) (fits : ((first :: rest).map dataLen).sum ≤ room) :
    toPayload (first :: rest) (room + 4) fecOti = .ok (Octets.be16 first.sourceBlockNumber ++
      Octets.be16 first.id ++ (first :: rest).flatMap bytes) := by
  rw [toPayload, if_pos ⟨scheme, by omega⟩]
  simp only [Nat.add_sub_cancel, packSymbols_of_fits whole fits, ok_bind]
  rfl

/-- Packing symbols whose bytes are all there cannot fail. -/
theorem packSymbols_ok {symbols : List EncodingSymbol} (whole : ∀ s ∈ symbols, s.Whole) (room : Nat) :
    ∃ data, packSymbols symbols room = .ok data := by
  induction symbols generalizing room with
  | nil => exact ⟨[], rfl⟩
  | cons first rest ih =>
    rw [packSymbols]
    split_ifs with fits
    · have firstWhole := whole first (by simp)
      obtain ⟨later, run⟩ := ih (fun s member => whole s (by simp [member])) (room - first.bytes.length)
      exact ⟨first.bytes ++ later, by rw [firstWhole.encodeTo fits, ok_bind, run]; rfl⟩
    · exact ⟨[], rfl⟩

theorem toPayload_ok {symbols : List EncodingSymbol} {fecOti : FecOti}
    (scheme : fecOti.encodingId = .compactNoCode) (whole : ∀ s ∈ symbols, s.Whole) (some : symbols ≠ [])
    (room : Nat) : ∃ payload, toPayload symbols (room + 4) fecOti = .ok payload := by
  cases symbols with
  | nil => exact absurd rfl some
  | cons first rest =>
    obtain ⟨data, packed⟩ := packSymbols_ok whole (room + 4 - 4)
    exact ⟨_, by rw [toPayload, if_pos ⟨scheme, by omega⟩]; simp only [packed, ok_bind]; rfl⟩

/-- What `from_payload` cuts out of a payload with room for at least one byte. -/
theorem fromPayload_of_header (sbn esi : Nat) {data : List UInt8} (rest : List UInt8) {fecOti : FecOti}
    (scheme : fecOti.encodingId = .compactNoCode) (positive : 0 < fecOti.encodingSymbolLength)
    (small : data.length < 2 ^ 63) (few : SinglePrecision.ceilDivide data.length fecOti.encodingSymbolLength < 2 ^ 31) :
    fromPayload (Octets.be16 sbn ++ Octets.be16 esi ++ data ++ rest) (data.length + 4) fecOti .none =
      .ok ((List.range (SinglePrecision.ceilDivide data.length fecOti.encodingSymbolLength)).map fun i =>
        { id := esi % 65536 + i
          sourceBlockNumber := sbn % 65536
          fecScheme := .compactNoCode
          encodedData := (data ++ rest).drop (i * fecOti.encodingSymbolLength)
          dataLen := min data.length fecOti.encodingSymbolLength }) := by
  have head : Octets.be16 sbn ++ Octets.be16 esi ++ data ++ rest =
      Octets.be16 sbn ++ (Octets.be16 esi ++ (data ++ rest)) := by simp
  have second : (Octets.be16 sbn ++ (Octets.be16 esi ++ (data ++ rest))).drop 2 =
      Octets.be16 esi ++ (data ++ rest) := rfl
  have tail : (Octets.be16 sbn ++ (Octets.be16 esi ++ (data ++ rest))).drop 4 = data ++ rest := rfl
  have length : subSize (data.length + 4) 4 = data.length := by
    rw [subSize_of_le (by omega) (by omega)]; omega
  have count : ceilInt data.length fecOti.encodingSymbolLength =
      .ok (SinglePrecision.ceilDivide data.length fecOti.encodingSymbolLength) :=
    ceilInt_eq_ok.mpr ⟨positive, few, rfl⟩
  rw [fromPayload, if_neg (by simp), if_neg (by simp [scheme]), head, second, tail]
  simp only [Octets.read16_be16, inBounds_some, ok_bind, length, count, scheme]
  rfl

end EncodingSymbol
end Libflute
