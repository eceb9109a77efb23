import Libflute.EncodingSymbol

namespace Libflute

/-- What the parsing constructor reads out of a packet. -/
structure AlcPacket where
  tsi : Nat := 0
  toi : Nat := 0
  fdtInstanceId : Nat := 0
  contentEncoding : ContentEncoding := .none
  fecOti : FecOti := {}
  lctHeaderLen : Nat := 0
  deriving DecidableEq, Repr

/-- The four octets of RFC 5651 5.1 that every LCT header starts with. -/
structure LctHeader where
  version : Nat
  congestionControlFlag : Nat
  tsiFlag : Nat
  toiFlag : Nat
  halfWordFlag : Nat
  closeSessionFlag : Nat
  lctHeaderLen : Nat
  codepoint : Nat
  deriving DecidableEq, Repr

def LctHeader.ofOctets (b0 b1 b2 b3 : Nat) : LctHeader where
  version := b0 / 16
  congestionControlFlag := b0 / 4 % 4
  tsiFlag := b1 / 128
  toiFlag := b1 / 32 % 4
  halfWordFlag := b1 / 16 % 2
  closeSessionFlag := b1 / 2 % 2
  lctHeaderLen := b2
  codepoint := b3

namespace AlcPacket

def headerLength (alc : AlcPacket) : Nat := alc.lctHeaderLen * 4

/-- The TSI and what follows it. The 32-bit part is shifted as a `uint32_t`. -/
def parseTsi (lct : LctHeader) (hdr : List UInt8) : Outcome (Nat × List UInt8) :=
  if lct.halfWordFlag = 0 ∧ lct.tsiFlag = 0 then throwLiteral "TSI field not present"
  else do
    let (tsi, tsiShift, hdr) ←
      if lct.halfWordFlag = 1 then do
        let half ← inBounds (Octets.read16 hdr)
        pure (half, 16, hdr.drop 2)
      else pure (0, 0, hdr)
    if lct.tsiFlag = 1 then do
      let word ← inBounds (Octets.read32 hdr)
      pure (tsi ||| (word <<< tsiShift) % 2 ^ 32, hdr.drop 4)
    else pure (tsi, hdr)

/-- The TOI and what follows it. -/
def parseToi (lct : LctHeader) (hdr : List UInt8) : Outcome (Nat × List UInt8) :=
  if lct.closeSessionFlag = 0 ∧ lct.halfWordFlag = 0 ∧ lct.toiFlag = 0 then
    throwLiteral "TOI field not present"
  else do
    let (toi, toiShift, hdr) ←
      if lct.halfWordFlag = 1 then do
        let half ← inBounds (Octets.read16 hdr)
        pure (half, 16, hdr.drop 2)
      else pure (0, 0, hdr)
    match lct.toiFlag with
    | 0 => pure (toi, hdr)
    | 1 => do
      let word ← inBounds (Octets.read32 hdr)
      pure (toi ||| (word <<< toiShift) % 2 ^ 32, hdr.drop 4)
    | 2 =>
      if 0 < toiShift then throwLiteral "TOI fields over 64 bits in length are not supported"
      else do
        let low ← inBounds (Octets.read32 hdr)
        let high ← inBounds (Octets.read32 (hdr.drop 4))
        pure (low ||| high <<< 32, hdr.drop 8)
    | _ => throwLiteral "TOI fields over 64 bits in length are not supported"

/-- The `switch` on the header extension type, with `extPtr` behind HET and HEL. -/
def parseExtension (het hel : Nat) (extPtr : List UInt8) (alc : AlcPacket) : Outcome AlcPacket :=
  match het with
  | 64 => -- EXT_FTI
    if hel ≠ 4 then throwLiteral "Invalid length for EXT_FTI header extension"
    else do
      let high ← inBounds (Octets.read16 extPtr)
      let low ← inBounds (Octets.read32 (extPtr.drop 2))
      let encodingSymbolLength ← inBounds (Octets.read16 (extPtr.drop 8))
      let maxSourceBlockLength ← inBounds (Octets.read32 (extPtr.drop 10))
      pure { alc with fecOti := { alc.fecOti with
        transferLength := high <<< 32 ||| low
        encodingSymbolLength := encodingSymbolLength
        maxSourceBlockLength := maxSourceBlockLength } }
  | 192 => do -- EXT_FDT
    let first ← inBounds (Octets.read8 extPtr)
    if 2 < first / 16 then throwLiteral "Unsupported FLUTE version"
    else do
      let low ← inBounds (Octets.read16 (extPtr.drop 1))
      pure { alc with fdtInstanceId := (first % 16) <<< 16 ||| low }
  | 193 => do -- EXT_CENC
    let encoding ← inBounds (Octets.read8 extPtr)
    match encoding with
    | 0 => pure { alc with contentEncoding := .none }
    | 1 => pure { alc with contentEncoding := .zlib }
    | 2 => pure { alc with contentEncoding := .deflate }
    | 3 => pure { alc with contentEncoding := .gzip }
    | _ => pure alc
  | _ => pure alc

/-- The extension loop. Every pass that ends has read a byte and left at least
four behind, so the bytes of `hdr` bound the passes; a pass over an extension
of length zero changes nothing and is repeated forever. What it leaves is the
packet and the pointer behind the last extension. -/
def parseExtensions (fuel : Nat) (hdr : List UInt8) (extHeaderLen : Nat) (alc : AlcPacket) :
    Outcome (AlcPacket × List UInt8) :=
  if extHeaderLen = 0 then .ok (alc, hdr)
  else match fuel with
    | 0 => .error .undefined
    | fuel + 1 => do
      let het ← inBounds (Octets.read8 hdr)
      let hel ← if het ≤ 127 then inBounds (Octets.read8 (hdr.drop 1)) else pure 0
      let extLen := if het ≤ 127 then hel * 4 else 4
      let extPtr := if het ≤ 127 then hdr.drop 2 else hdr.drop 1
      if extHeaderLen < extLen then
        throwLiteral "Header extension length exceeds remaining header length"
      else do
        let alc ← parseExtension het hel extPtr alc
        if extLen = 0 then .error .hangs
        else parseExtensions fuel (hdr.drop extLen) (extHeaderLen - extLen) alc

/-- `expected_header_len` is subtracted as an `int`; the difference then becomes a `size_t`. -/
def extHeaderLength (lct : LctHeader) : Nat :=
  (((lct.lctHeaderLen : Int) - (2 + lct.congestionControlFlag + lct.halfWordFlag + lct.tsiFlag +
    lct.toiFlag : Nat)) * 4 % 2 ^ 64).toNat

/-- The body of the constructor from received data, with `hdr_ptr` as it ends.
`len` bounds only the first test: what follows is read from whatever memory
`data` points into. -/
def parseHeader (data : List UInt8) (len : Nat) : Outcome (AlcPacket × List UInt8) :=
  if len < 4 then throwLiteral "Packet too short"
  else do
    let b0 ← inBounds (Octets.read8 data)
    let b1 ← inBounds (Octets.read8 (data.drop 1))
    let b2 ← inBounds (Octets.read8 (data.drop 2))
    let b3 ← inBounds (Octets.read8 (data.drop 3))
    let lct := LctHeader.ofOctets b0 b1 b2 b3
    if lct.version ≠ 1 then throwLiteral "Unsupported LCT version"
    else if lct.congestionControlFlag ≠ 0 then throwLiteral "Unsupported CCI field length"
    else do
      let (tsi, hdr) ← parseTsi lct (data.drop 8)
      let (toi, hdr) ← parseToi lct hdr
      if lct.codepoint ≠ 0 then throwLiteral "Only Compact No-Code FEC is supported"
      else
        parseExtensions hdr.length hdr (extHeaderLength lct)
          { tsi := tsi, toi := toi, lctHeaderLen := lct.lctHeaderLen }

/-- The constructor from received data. -/
def parse (data : List UInt8) (len : Nat) : Outcome AlcPacket := do
  let (alc, _) ← parseHeader data len
  pure alc

def extFdt (fdtInstanceId : Nat) : List UInt8 :=
  192 :: UInt8.ofNat (1 <<< 4 ||| (fdtInstanceId &&& 0x000F0000) >>> 16) ::
    Octets.be16 (fdtInstanceId &&& 0x0000FFFF)

/-- The mask and the shift of the upper half of the transfer length leave
nothing of it, and the other mask keeps 16 bits. -/
def extFti (fecOti : FecOti) : List UInt8 :=
  64 :: 4 :: (Octets.be16 ((fecOti.transferLength &&& 0x00FF0000) >>> 32) ++
    (Octets.be32 (fecOti.transferLength &&& 0x0000FFFF) ++ ((0 : UInt8) :: 0 ::
      (Octets.be16 fecOti.encodingSymbolLength ++ Octets.be32 fecOti.maxSourceBlockLength))))

/-- The extensions of an FDT packet. -/
def fdtExtensions (fecOti : FecOti) (fdtInstanceId : Nat) : List UInt8 :=
  extFdt fdtInstanceId ++ extFti fecOti

/-- The header in front of the payload; `tsi` and `toi` are `uint16_t`. -/
def header (tsi toi : Nat) (fecOti : FecOti) (fdtInstanceId : Nat) : List UInt8 :=
  0x10 :: 0x10 :: (if toi % 2 ^ 16 = 0 then 8 else 3) :: 0 :: 0 :: 0 :: 0 :: 0 ::
    (Octets.be16 tsi ++ (Octets.be16 toi ++
      if toi % 2 ^ 16 = 0 then fdtExtensions fecOti fdtInstanceId else []))

/-- The constructor from encoding symbols: the bytes of the packet. -/
def build (tsi toi : Nat) (fecOti : FecOti) (symbols : List EncodingSymbol)
    (maxEncodingSymbolSize fdtInstanceId : Nat) : Outcome (List UInt8) := do
  let payload ← EncodingSymbol.toPayload symbols (maxEncodingSymbolSize + 4) fecOti
  pure (header tsi toi fecOti fdtInstanceId ++ payload)

theorem length_fdtExtensions (fecOti : FecOti) (fdtInstanceId : Nat) :
    (fdtExtensions fecOti fdtInstanceId).length = 20 := by
  simp [fdtExtensions, extFdt, extFti]

theorem length_header (tsi toi : Nat) (fecOti : FecOti) (fdtInstanceId : Nat) :
    (header tsi toi fecOti fdtInstanceId).length = if toi % 2 ^ 16 = 0 then 32 else 12 := by
  unfold header
  split <;> simp [length_fdtExtensions]

theorem parseTsi_half {lct : LctHeader} (half : lct.halfWordFlag = 1) (noWord : lct.tsiFlag = 0)
    (tsi : Nat) (rest : List UInt8) :
    parseTsi lct (Octets.be16 tsi ++ rest) = .ok (tsi % 2 ^ 16, rest) := by
  simp only [parseTsi, half, noWord, Octets.read16_be16, inBounds_some, ok_bind]
  rfl

theorem parseToi_half {lct : LctHeader} (half : lct.halfWordFlag = 1) (noWord : lct.toiFlag = 0)
    (toi : Nat) (rest : List UInt8) :
    parseToi lct (Octets.be16 toi ++ rest) = .ok (toi % 2 ^ 16, rest) := by
  simp only [parseToi, half, noWord, Octets.read16_be16, inBounds_some, ok_bind]
  rw [if_neg (by simp)]
  rfl

/-- The header of a packet without extensions is read back whole. -/
theorem parseHeader_header_data {tsi toi : Nat} {fecOti : FecOti} {fdtInstanceId len : Nat}
    (data : toi % 2 ^ 16 ≠ 0) (long : 4 ≤ len) (rest : List UInt8) :
    parseHeader (header tsi toi fecOti fdtInstanceId ++ rest) len =
      .ok ({ tsi := tsi % 2 ^ 16, toi := toi % 2 ^ 16, lctHeaderLen := 3 }, rest) := by
  have bytes : header tsi toi fecOti fdtInstanceId ++ rest =
      0x10 :: 0x10 :: 3 :: 0 :: 0 :: 0 :: 0 :: 0 :: (Octets.be16 tsi ++ (Octets.be16 toi ++ rest)) := by
    simp only [header, if_neg data, List.cons_append, List.append_assoc, List.nil_append]
  rw [bytes, parseHeader, if_neg (by omega)]
  simp only [Octets.read8_cons, List.drop_succ_cons, List.drop_zero, inBounds_some, ok_bind]
  have lct : LctHeader.ofOctets (0x10 : UInt8).toNat (0x10 : UInt8).toNat (3 : UInt8).toNat
      (0 : UInt8).toNat = ⟨1, 0, 0, 0, 1, 0, 3, 0⟩ := rfl
  rw [lct, if_neg (by simp), if_neg (by simp), parseTsi_half rfl rfl, ok_bind, parseToi_half rfl rfl, ok_bind,
    if_neg (by simp)]
  have none : extHeaderLength ⟨1, 0, 0, 0, 1, 0, 3, 0⟩ = 0 := rfl
  rw [none]
  cases rest <;> rfl

theorem parse_header_data {tsi toi : Nat} {fecOti : FecOti} {fdtInstanceId len : Nat}
    (data : toi % 2 ^ 16 ≠ 0) (long : 4 ≤ len) (rest : List UInt8) :
    parse (header tsi toi fecOti fdtInstanceId ++ rest) len =
      .ok { tsi := tsi % 2 ^ 16, toi := toi % 2 ^ 16, lctHeaderLen := 3 } := by
  rw [parse, parseHeader_header_data data long, ok_bind]
  rfl

/-- One pass of the extension loop over an extension with a positive length. -/
theorem parseExtensions_pass {fuel extLen extHeaderLen : Nat} (het hel : Nat) {hdr extPtr : List UInt8}
    {alc next : AlcPacket} (type : Octets.read8 hdr = some het)
    (length : (het ≤ 127 ∧ Octets.read8 (hdr.drop 1) = some hel ∧ extLen = hel * 4 ∧ extPtr = hdr.drop 2) ∨
      (127 < het ∧ hel = 0 ∧ extLen = 4 ∧ extPtr = hdr.drop 1))
    (positive : 0 < extLen) (within : extLen ≤ extHeaderLen)
    (content : parseExtension het hel extPtr alc = .ok next) :
    parseExtensions (fuel + 1) hdr extHeaderLen alc =
      parseExtensions fuel (hdr.drop extLen) (extHeaderLen - extLen) next := by
  rw [parseExtensions, if_neg (by omega)]
  simp only [type, inBounds_some, ok_bind]
  rcases length with ⟨small, hasLength, rfl, rfl⟩ | ⟨large, rfl, rfl, rfl⟩
  · simp only [if_pos small, hasLength, inBounds_some, ok_bind, if_neg (not_lt.mpr within), content,
      if_neg (show hel * 4 ≠ 0 by omega)]
  · simp only [if_neg (not_le.mpr large), pure, Except.pure, ok_bind, if_neg (not_lt.mpr within), content,
      if_neg (show 4 ≠ 0 by omega)]

theorem extFdt_version (fdtInstanceId : Nat) :
    (UInt8.ofNat (1 <<< 4 ||| (fdtInstanceId &&& 0x000F0000) >>> 16)).toNat =
      16 + fdtInstanceId / 2 ^ 16 % 16 := by
  have high : (fdtInstanceId &&& 0x000F0000) >>> 16 = fdtInstanceId / 2 ^ 16 % 16 := by
    rw [Nat.shiftRight_and_distrib, Nat.shiftRight_eq_div_pow]
    exact Nat.and_two_pow_sub_one_eq_mod (fdtInstanceId / 2 ^ 16) 4
  rw [high, ← Nat.shiftLeft_add_eq_or_of_lt (i := 4) (by omega), UInt8.toNat_ofNat']
  omega

theorem and_0xFFFF (n : Nat) : n &&& 0x0000FFFF = n % 2 ^ 16 := Nat.and_two_pow_sub_one_eq_mod n 16

/-- EXT_FDT gives back 20 bits of the instance ID. -/
theorem parseExtensions_extFdt {fuel extHeaderLen fdtInstanceId : Nat} {alc : AlcPacket}
    (within : 4 ≤ extHeaderLen) (rest : List UInt8) :
    parseExtensions (fuel + 1) (extFdt fdtInstanceId ++ rest) extHeaderLen alc =
      parseExtensions fuel rest (extHeaderLen - 4) { alc with fdtInstanceId := fdtInstanceId % 2 ^ 20 } := by
  refine parseExtensions_pass 192 0 rfl (Or.inr ⟨by omega, rfl, rfl, rfl⟩)
    (by omega) within ?_
  have low : ((16 + fdtInstanceId / 2 ^ 16 % 16) % 16) <<< 16 ||| fdtInstanceId % 2 ^ 16 =
      fdtInstanceId % 2 ^ 20 := by
    rw [← Nat.shiftLeft_add_eq_or_of_lt (by omega), Nat.shiftLeft_eq]
    omega
  have tail : (extFdt fdtInstanceId ++ rest).drop 1 =
      UInt8.ofNat (1 <<< 4 ||| (fdtInstanceId &&& 0x000F0000) >>> 16) ::
        (Octets.be16 (fdtInstanceId &&& 0x0000FFFF) ++ rest) := rfl
  rw [tail]
  simp only [parseExtension, Octets.read8_cons, inBounds_some, ok_bind, extFdt_version, List.drop_succ_cons,
    List.drop_zero, Octets.read16_be16, and_0xFFFF]
  rw [if_neg (by omega), show fdtInstanceId % 2 ^ 16 % 65536 = fdtInstanceId % 2 ^ 16 by omega, low]
  rfl

/-- EXT_FTI gives back 16 bits of the transfer length. -/
theorem parseExtensions_extFti {fuel extHeaderLen : Nat} {fecOti : FecOti} {alc : AlcPacket}
    (within : 16 ≤ extHeaderLen) (rest : List UInt8) :
    parseExtensions (fuel + 1) (extFti fecOti ++ rest) extHeaderLen alc =
      parseExtensions fuel rest (extHeaderLen - 16) { alc with
        fecOti := { alc.fecOti with
          transferLength := fecOti.transferLength % 2 ^ 16
          encodingSymbolLength := fecOti.encodingSymbolLength % 2 ^ 16
          maxSourceBlockLength := fecOti.maxSourceBlockLength % 2 ^ 32 } } := by
  refine parseExtensions_pass 64 4 rfl (Or.inl ⟨by omega, rfl, rfl, rfl⟩)
    (by omega) within ?_
  have topHalf : (fecOti.transferLength &&& 0x00FF0000) >>> 32 = 0 := by
    have bound : fecOti.transferLength &&& 0x00FF0000 ≤ 0x00FF0000 := Nat.and_le_right
    rw [Nat.shiftRight_eq_div_pow]
    omega
  have tail : (extFti fecOti ++ rest).drop 2 =
      Octets.be16 ((fecOti.transferLength &&& 0x00FF0000) >>> 32) ++
        (Octets.be32 (fecOti.transferLength &&& 0x0000FFFF) ++ ((0 : UInt8) :: 0 ::
          (Octets.be16 fecOti.encodingSymbolLength ++ (Octets.be32 fecOti.maxSourceBlockLength ++ rest)))) := by
    simp [extFti]
  have after16 : ∀ (n : Nat) (bytes : List UInt8), (Octets.be16 n ++ bytes).drop 2 = bytes := fun _ _ => rfl
  have after48 : ∀ (m n : Nat) (a b : UInt8) (bytes : List UInt8),
      (Octets.be16 m ++ (Octets.be32 n ++ a :: b :: bytes)).drop 8 = bytes := fun _ _ _ _ _ => rfl
  have after64 : ∀ (m n k : Nat) (a b : UInt8) (bytes : List UInt8),
      (Octets.be16 m ++ (Octets.be32 n ++ a :: b :: (Octets.be16 k ++ bytes))).drop 10 = bytes :=
    fun _ _ _ _ _ _ => rfl
  rw [tail, parseExtension, if_neg (by simp)]
  simp only [after16, after48, after64, Octets.read16_be16, Octets.read32_be32, inBounds_some, ok_bind,
    topHalf, and_0xFFFF]
  rw [show fecOti.transferLength % 2 ^ 16 % 4294967296 = fecOti.transferLength % 2 ^ 16 by omega]
  simp [pure, Except.pure]

/-- The header of an FDT packet is read back with its extensions. -/
theorem parseHeader_header_fdt {tsi toi : Nat} {fecOti : FecOti} {fdtInstanceId len : Nat}
    (fdt : toi % 2 ^ 16 = 0) (long : 4 ≤ len) (rest : List UInt8) :
    parseHeader (header tsi toi fecOti fdtInstanceId ++ rest) len =
      .ok ({ tsi := tsi % 2 ^ 16, toi := 0, fdtInstanceId := fdtInstanceId % 2 ^ 20, lctHeaderLen := 8,
             fecOti := { transferLength := fecOti.transferLength % 2 ^ 16,
                         encodingSymbolLength := fecOti.encodingSymbolLength % 2 ^ 16,
                         maxSourceBlockLength := fecOti.maxSourceBlockLength % 2 ^ 32 } }, rest) := by
  have bytes : header tsi toi fecOti fdtInstanceId ++ rest =
      0x10 :: 0x10 :: 8 :: 0 :: 0 :: 0 :: 0 :: 0 :: (Octets.be16 tsi ++ (Octets.be16 toi ++
        (extFdt fdtInstanceId ++ (extFti fecOti ++ rest)))) := by
    simp only [header, if_pos fdt, fdtExtensions, List.cons_append, List.append_assoc]
  rw [bytes, parseHeader, if_neg (by omega)]
  simp only [Octets.read8_cons, List.drop_succ_cons, List.drop_zero, inBounds_some, ok_bind]
  have lct : LctHeader.ofOctets (0x10 : UInt8).toNat (0x10 : UInt8).toNat (8 : UInt8).toNat
      (0 : UInt8).toNat = ⟨1, 0, 0, 0, 1, 0, 8, 0⟩ := rfl
  rw [lct, if_neg (by simp), if_neg (by simp), parseTsi_half rfl rfl, ok_bind, parseToi_half rfl rfl, ok_bind,
    if_neg (by simp), fdt]
  have extensions : extHeaderLength ⟨1, 0, 0, 0, 1, 0, 8, 0⟩ = 20 := rfl
  have fuel : (extFdt fdtInstanceId ++ (extFti fecOti ++ rest)).length = rest.length + 18 + 1 + 1 := by
    simp [extFdt, extFti]
    omega
  rw [extensions, fuel, parseExtensions_extFdt (by omega), parseExtensions_extFti (by omega)]
  rw [parseExtensions, if_pos (by omega)]

theorem parse_header_fdt {tsi toi : Nat} {fecOti : FecOti} {fdtInstanceId len : Nat}
    (fdt : toi % 2 ^ 16 = 0) (long : 4 ≤ len) (rest : List UInt8) :
    parse (header tsi toi fecOti fdtInstanceId ++ rest) len =
      .ok { tsi := tsi % 2 ^ 16, toi := 0, fdtInstanceId := fdtInstanceId % 2 ^ 20, lctHeaderLen := 8,
            fecOti := { transferLength := fecOti.transferLength % 2 ^ 16,
                        encodingSymbolLength := fecOti.encodingSymbolLength % 2 ^ 16,
                        maxSourceBlockLength := fecOti.maxSourceBlockLength % 2 ^ 32 } } := by
  rw [parse, parseHeader_header_fdt fdt long, ok_bind]
  rfl

end AlcPacket
end Libflute
