import Libflute.TransmitterSpec

/-! What the parsing constructor gets back of a packet that `send_next_packet` built. -/

namespace Libflute

/-- The packet `send_next_packet` builds of symbols of a file. -/
def Transmitter.packet (t : Transmitter) (f : File) (symbols : List EncodingSymbol) : Outcome (List UInt8) :=
  AlcPacket.build t.tsi f.entry.toi f.fecOti symbols t.maxPayload f.fdtInstanceId

theorem Transmitter.Hands.packet_eq {t : Transmitter} {k o n : Nat} {f : File} {packet : List UInt8}
    (hands : t.Hands k o f n packet) : t.packet f ((f.unsent.take n).map f.encoded) = .ok packet := hands.build

namespace AlcPacket

/-- Every field a packet was built from is in what was parsed, the FDT instance
and the FEC parameters in a packet of the FDT, and the payload starts behind the
header. -/
structure GivesBack (alc : AlcPacket) (packet : List UInt8) (tsi toi : Nat) (fecOti : FecOti)
    (fdtInstanceId : Nat) (payload : List UInt8) : Prop where
  sameTsi : alc.tsi = tsi
  sameToi : alc.toi = toi
  sameInstance : toi = 0 → alc.fdtInstanceId = fdtInstanceId
  sameTransferLength : toi = 0 → alc.fecOti.transferLength = fecOti.transferLength
  sameSymbolLength : toi = 0 → alc.fecOti.encodingSymbolLength = fecOti.encodingSymbolLength
  sameBlockLength : toi = 0 → alc.fecOti.maxSourceBlockLength = fecOti.maxSourceBlockLength
  payloadBehind : packet.drop alc.headerLength = payload

/-- The packet of these symbols of a file that got an instance ID is built, and parsing
all of its bytes gives back what it was built from. -/
def RoundTrips (t : Transmitter) (f : File) (fdtInstanceId : Nat) (symbols : List EncodingSymbol) : Prop :=
  ∃ payload packet alc,
    EncodingSymbol.toPayload symbols (t.maxPayload + 4) f.fecOti = .ok payload ∧
    t.packet (f.setFdtInstanceId fdtInstanceId) symbols = .ok packet ∧
    parse packet packet.length = .ok alc ∧
    alc.GivesBack packet t.tsi f.entry.toi f.fecOti fdtInstanceId payload

/-- What parsing gives back, whatever went into the header. -/
def parsedHeader (tsi toi : Nat) (fecOti : FecOti) (fdtInstanceId : Nat) : AlcPacket :=
  if toi % 2 ^ 16 = 0 then
    { tsi := tsi % 2 ^ 16, toi := 0, fdtInstanceId := fdtInstanceId % 2 ^ 20, lctHeaderLen := 8,
      fecOti := { transferLength := fecOti.transferLength % 2 ^ 16,
                  encodingSymbolLength := fecOti.encodingSymbolLength % 2 ^ 16,
                  maxSourceBlockLength := fecOti.maxSourceBlockLength % 2 ^ 32 } }
  else { tsi := tsi % 2 ^ 16, toi := toi % 2 ^ 16, lctHeaderLen := 3 }

theorem parse_header (tsi toi : Nat) (fecOti : FecOti) (fdtInstanceId : Nat) (payload : List UInt8) :
    parse (header tsi toi fecOti fdtInstanceId ++ payload)
      (header tsi toi fecOti fdtInstanceId ++ payload).length =
      .ok (parsedHeader tsi toi fecOti fdtInstanceId) := by
  have long : 4 ≤ (header tsi toi fecOti fdtInstanceId ++ payload).length := by
    rw [List.length_append, length_header]
    split <;> omega
  unfold parsedHeader
  split
  · next fdt => exact parse_header_fdt fdt long payload
  · next data => exact parse_header_data data long payload

theorem drop_headerLength (tsi toi : Nat) (fecOti : FecOti) (fdtInstanceId : Nat) (payload : List UInt8) :
    (header tsi toi fecOti fdtInstanceId ++ payload).drop
      (parsedHeader tsi toi fecOti fdtInstanceId).headerLength = payload := by
  have length : (parsedHeader tsi toi fecOti fdtInstanceId).headerLength =
      (header tsi toi fecOti fdtInstanceId).length := by
    rw [length_header]
    unfold parsedHeader headerLength
    split <;> rfl
  rw [length, List.drop_left]

theorem build_of_toPayload {tsi toi maxEncodingSymbolSize fdtInstanceId : Nat} {fecOti : FecOti}
    {symbols : List EncodingSymbol} {payload : List UInt8}
    (written : EncodingSymbol.toPayload symbols (maxEncodingSymbolSize + 4) fecOti = .ok payload) :
    build tsi toi fecOti symbols maxEncodingSymbolSize fdtInstanceId =
      .ok (header tsi toi fecOti fdtInstanceId ++ payload) := by
  rw [build, written, ok_bind]
  rfl

variable {t : Transmitter} {f : File} {fdtInstanceId : Nat} {symbols : List EncodingSymbol}

/-- A round trip is a matter of the header alone. -/
theorem roundTrips_iff_parsedHeader {payload : List UInt8}
    (written : EncodingSymbol.toPayload symbols (t.maxPayload + 4) f.fecOti = .ok payload) :
    RoundTrips t f fdtInstanceId symbols ↔
      (parsedHeader t.tsi f.entry.toi f.fecOti (fdtInstanceId % 2 ^ 16)).GivesBack
        (header t.tsi f.entry.toi f.fecOti (fdtInstanceId % 2 ^ 16) ++ payload)
        t.tsi f.entry.toi f.fecOti fdtInstanceId payload := by
  have built : t.packet (f.setFdtInstanceId fdtInstanceId) symbols =
      .ok (header t.tsi f.entry.toi f.fecOti (fdtInstanceId % 2 ^ 16) ++ payload) := build_of_toPayload written
  constructor
  · rintro ⟨payload', packet, alc, written', built', parsed, back⟩
    rw [written, Except.ok.injEq] at written'
    rw [built, Except.ok.injEq] at built'
    subst written' built'
    rw [parse_header, Except.ok.injEq] at parsed
    rw [parsed]
    exact back
  · intro back
    exact ⟨payload, _, _, written, built, parse_header _ _ _ _ _, back⟩

/-- A TSI of more than 16 bits, or an instance ID or a transfer length of more than
16 bits in an FDT packet, is all that is lost on the way. -/
theorem round_trips_iff (toi16 : f.entry.toi < 2 ^ 16) (noCode : f.fecOti.encodingId = .compactNoCode)
    (length16 : f.fecOti.encodingSymbolLength < 2 ^ 16) (block32 : f.fecOti.maxSourceBlockLength < 2 ^ 32)
    (instance20 : fdtInstanceId < 2 ^ 20) (nonempty : symbols ≠ []) (whole : ∀ s ∈ symbols, s.Whole)
    (fits : (symbols.map EncodingSymbol.dataLen).sum ≤ t.maxPayload) :
    RoundTrips t f fdtInstanceId symbols ↔ t.tsi < 2 ^ 16 ∧
      (f.entry.toi = 0 → f.fecOti.transferLength < 2 ^ 16 ∧ fdtInstanceId < 2 ^ 16) := by
  obtain ⟨first, rest, rfl⟩ := List.exists_cons_of_ne_nil nonempty
  rw [roundTrips_iff_parsedHeader (EncodingSymbol.toPayload_of_fits noCode whole fits)]
  have sameToi : f.entry.toi % 2 ^ 16 = f.entry.toi := Nat.mod_eq_of_lt toi16
  constructor
  · intro back
    have tsi16 := back.sameTsi
    have transfer16 := back.sameTransferLength
    have instance16 := back.sameInstance
    unfold parsedHeader at tsi16 transfer16 instance16
    rw [sameToi] at tsi16 transfer16 instance16
    split at tsi16
    · next fdt =>
      simp only [fdt, if_true, forall_const] at tsi16 transfer16 instance16
      exact ⟨by omega, fun _ => ⟨by omega, by omega⟩⟩
    · next data => exact ⟨by simp only at tsi16; omega, fun fdt => absurd fdt data⟩
  · rintro ⟨tsi16, small⟩
    refine ⟨?_, ?_, ?_, ?_, ?_, ?_, drop_headerLength _ _ _ _ _⟩
    all_goals unfold parsedHeader; rw [sameToi]
    · split <;> simp only <;> omega
    · split
      · next fdt => exact fdt.symm
      · rfl
    all_goals
      intro fdt
      obtain ⟨transfer16, instance16⟩ := small fdt
      simp only [fdt, if_true]
      omega

/-- An FDT file of two symbols, the last one short. -/
def fdtOfFive : File where
  entry := { fecOti := { transferLength := 5, encodingSymbolLength := 3, maxSourceBlockLength := 64 } }
  buffer := [97, 98, 99, 100, 101]

def symbolsOfFive : List EncodingSymbol :=
  [⟨0, 0, .compactNoCode, [97, 98, 99], 3⟩, ⟨1, 0, .compactNoCode, [100, 101], 2⟩]

theorem symbolsOfFive_whole : ∀ s ∈ symbolsOfFive, s.Whole := by
  simp only [symbolsOfFive, List.mem_cons, List.not_mem_nil, or_false, forall_eq_or_imp, forall_eq]
  exact ⟨⟨rfl, by decide⟩, rfl, by decide⟩

def sender (tsi : Nat) : Transmitter := .create tsi 1500 ⟨0xe8000001, 5000⟩ none none 0 .none true

theorem round_trips_iff_five :
    RoundTrips (sender 16) fdtOfFive 65535 symbolsOfFive ↔ 16 < 2 ^ 16 ∧ (0 = 0 → 5 < 2 ^ 16 ∧ 65535 < 2 ^ 16) :=
  round_trips_iff (t := sender 16) (f := fdtOfFive) (by decide) rfl (by decide) (by decide) (by decide) (by decide)
    symbolsOfFive_whole (by decide)

/-- A TSI of 2^16 is sent and read back as 0. -/
theorem not_round_trips : ¬ ∀ (t : Transmitter) (f : File) (fdtInstanceId : Nat) (symbols : List EncodingSymbol),
    t.tsi < 2 ^ 64 → f.entry.toi < 2 ^ 16 → f.fecOti.encodingId = .compactNoCode →
    f.fecOti.transferLength < 2 ^ 48 → f.fecOti.encodingSymbolLength < 2 ^ 16 →
    f.fecOti.maxSourceBlockLength < 2 ^ 32 → fdtInstanceId < 2 ^ 20 → symbols ≠ [] →
    (∀ s ∈ symbols, s.Whole) → (symbols.map EncodingSymbol.dataLen).sum ≤ t.maxPayload →
    RoundTrips t f fdtInstanceId symbols := by
  intro claim
  have back := claim (sender (2 ^ 16)) fdtOfFive 1 symbolsOfFive (by decide) (by decide) rfl (by decide) (by decide)
    (by decide) (by decide) (by decide) symbolsOfFive_whole (by decide)
  have written : EncodingSymbol.toPayload symbolsOfFive ((sender (2 ^ 16)).maxPayload + 4) fdtOfFive.fecOti =
      .ok [0, 0, 0, 0, 97, 98, 99, 100, 101] := by decide +kernel
  rw [roundTrips_iff_parsedHeader written] at back
  exact absurd back.sameTsi (by decide)

end AlcPacket
end Libflute
