import Libflute.AlcSafety

/-! What becomes of the TSI and TOI fields of a header. -/

namespace Libflute
namespace AlcPacket

/-- A half word before a word shifted by 16 bits as a `uint32_t`. -/
theorem half_or_word {half : Nat} (small : half < 2 ^ 16) (word : Nat) :
    half ||| (word <<< 16) % 2 ^ 32 = half + word % 2 ^ 16 * 2 ^ 16 := by
  have shifted : (word <<< 16) % 2 ^ 32 = (word % 2 ^ 16) <<< 16 := by
    rw [Nat.shiftLeft_eq, Nat.shiftLeft_eq]
    omega
  rw [shifted, Nat.lor_comm, ← Nat.shiftLeft_add_eq_or_of_lt small, Nat.shiftLeft_eq, Nat.add_comm]

theorem low_or_high {low : Nat} (small : low < 2 ^ 32) (high : Nat) :
    low ||| high <<< 32 = low + high * 2 ^ 32 := by
  rw [Nat.lor_comm, ← Nat.shiftLeft_add_eq_or_of_lt small, Nat.shiftLeft_eq, Nat.add_comm]

theorem length_word {hdr : List UInt8} {word : Nat} (read : Octets.read32 hdr = some word) :
    (hdr.take 4).length = 4 := by
  rcases Octets.read32_cases hdr with ⟨_, none⟩ | ⟨long, _⟩
  · rw [none] at read
    cases read
  · exact List.length_take_of_le long

/-- The half word of a 48-bit field and the word behind it survive only as zeros. -/
theorem half_word_iff {hdr : List UInt8} {half word : Nat} (readHalf : Octets.read16 hdr = some half)
    (readWord : Octets.read32 (hdr.drop 2) = some word) :
    half ||| (word <<< 16) % 2 ^ 32 = Octets.bigEndian (hdr.take 6) ↔ ∀ octet ∈ hdr.take 6, octet = 0 := by
  have cut : hdr.take (2 + 4) = hdr.take 2 ++ (hdr.drop 2).take 4 := List.take_add
  have length : ((hdr.drop 2).take 4).length = 4 := length_word readWord
  have value : Octets.bigEndian (hdr.take 6) = half * 2 ^ 32 + word := by
    rw [cut, Octets.bigEndian_append, length, Octets.read16_bigEndian readHalf, Octets.read32_bigEndian readWord]
    norm_num
  have smallHalf := Octets.read16_lt readHalf
  have smallWord := Octets.read32_lt readWord
  rw [half_or_word smallHalf, ← Octets.bigEndian_eq_zero, value]
  constructor
  · intro same
    have equal : half = word % 2 ^ 16 := by omega
    omega
  · omega

/-- Two words that are taken in the wrong order are the number they stand for if they are equal. -/
theorem two_words_iff {hdr : List UInt8} {low high : Nat} (readLow : Octets.read32 hdr = some low)
    (readHigh : Octets.read32 (hdr.drop 4) = some high) :
    low + high * 2 ^ 32 = Octets.bigEndian (hdr.take 8) ↔ (hdr.take 8).take 4 = (hdr.take 8).drop 4 := by
  have cut : hdr.take (4 + 4) = hdr.take 4 ++ (hdr.drop 4).take 4 := List.take_add
  have first : (hdr.take 4).length = 4 := length_word readLow
  have second : ((hdr.drop 4).take 4).length = 4 := length_word readHigh
  have isLow := Octets.read32_bigEndian readLow
  have isHigh := Octets.read32_bigEndian readHigh
  have value : Octets.bigEndian (hdr.take 8) = low * 2 ^ 32 + high := by
    rw [cut, Octets.bigEndian_append, second, isLow, isHigh]
    norm_num
  have smallLow := Octets.read32_lt readLow
  have smallHigh := Octets.read32_lt readHigh
  rw [value, cut, List.take_left' first, List.drop_left' first]
  constructor
  · intro same
    exact Octets.bigEndian_inj (first.trans second.symm) (by rw [isLow, isHigh]; omega)
  · intro same
    rw [same, isHigh] at isLow
    omega

end AlcPacket

namespace LctHeader

/-- A TSI field that is not 48 bits wide, or is zero. -/
def KeepsTsi (lct : LctHeader) (field : List UInt8) : Prop :=
  lct.tsiFlag = 1 → lct.halfWordFlag = 1 → ∀ octet ∈ field, octet = 0

/-- A TOI field of 32 bits at most, or of 48 bits that are zero, or of two equal words. -/
def KeepsToi (lct : LctHeader) (field : List UInt8) : Prop :=
  (lct.toiFlag = 1 → lct.halfWordFlag = 1 → ∀ octet ∈ field, octet = 0) ∧
    (lct.toiFlag = 2 → field.take 4 = field.drop 4)

end LctHeader

namespace AlcPacket

theorem parseTsi_value {lct : LctHeader} (narrow : lct.Narrow) {hdr rest : List UInt8} {tsi : Nat}
    (run : parseTsi lct hdr = .ok (tsi, rest)) : rest = hdr.drop lct.tsiOctets ∧
      (tsi = Octets.bigEndian (hdr.take lct.tsiOctets) ↔ lct.KeepsTsi (hdr.take lct.tsiOctets)) := by
  have tsiFlag := narrow.tsiFlag
  have halfWordFlag := narrow.halfWordFlag
  unfold parseTsi at run
  unfold LctHeader.KeepsTsi LctHeader.tsiOctets
  split at run
  · cases run
  by_cases half : lct.halfWordFlag = 1
  · rw [if_pos half] at run
    obtain ⟨low, readLow, run⟩ := bind_eq_ok.mp run
    have readLow' := inBounds_eq_ok.mp readLow
    simp only [pure, Except.pure, ok_bind] at run
    by_cases word : lct.tsiFlag = 1
    · simp only [word, if_true] at run
      obtain ⟨high, readWord, same⟩ := bind_eq_ok.mp run
      obtain ⟨rfl, rfl⟩ := Prod.mk.inj (Except.ok.inj same)
      rw [List.drop_drop, half, word]
      refine ⟨rfl, (half_word_iff readLow' (inBounds_eq_ok.mp readWord)).trans ?_⟩
      simp
    · simp only [word, if_false] at run
      obtain ⟨rfl, rfl⟩ := Prod.mk.inj (Except.ok.inj run)
      have none : lct.tsiFlag = 0 := by omega
      rw [half, none]
      exact ⟨rfl, iff_of_true (Octets.read16_bigEndian readLow').symm (by simp)⟩
  · rw [if_neg half] at run
    have noHalf : lct.halfWordFlag = 0 := by omega
    have word : lct.tsiFlag = 1 := by omega
    simp only [word, if_true, ok_bind, pure, Except.pure] at run
    obtain ⟨high, readWord, same⟩ := bind_eq_ok.mp run
    obtain ⟨rfl, rfl⟩ := Prod.mk.inj (Except.ok.inj same)
    have small := Octets.read32_lt (inBounds_eq_ok.mp readWord)
    have value := Octets.read32_bigEndian (inBounds_eq_ok.mp readWord)
    refine ⟨by rw [noHalf, word], iff_of_true ?_ fun _ one => absurd one half⟩
    rw [Nat.shiftLeft_zero, Nat.mod_eq_of_lt small, Nat.zero_or, ← value, noHalf, word]

theorem parseToi_value {lct : LctHeader} (narrow : lct.Narrow) {hdr rest : List UInt8} {toi : Nat}
    (run : parseToi lct hdr = .ok (toi, rest)) :
    toi = Octets.bigEndian (hdr.take lct.toiOctets) ↔ lct.KeepsToi (hdr.take lct.toiOctets) := by
  have toiFlag := narrow.toiFlag
  have halfWordFlag := narrow.halfWordFlag
  have accepts : ¬ lct.RefusesToi := by
    intro refuses
    rcases parseToi_refused narrow hdr refuses with ⟨_, what, refused⟩ | ⟨_, refused⟩ <;>
    · rw [refused] at run
      cases run
  rw [LctHeader.toiOctets, if_neg accepts]
  unfold LctHeader.RefusesToi at accepts
  unfold parseToi at run
  unfold LctHeader.KeepsToi
  split at run
  · cases run
  by_cases half : lct.halfWordFlag = 1
  · rw [if_pos half] at run
    obtain ⟨low, readLow, run⟩ := bind_eq_ok.mp run
    have readLow' := inBounds_eq_ok.mp readLow
    simp only [pure, Except.pure, ok_bind] at run
    have words : lct.toiFlag = 0 ∨ lct.toiFlag = 1 := by omega
    rcases words with zero | one
    · simp only [zero] at run
      obtain ⟨rfl, rfl⟩ := Prod.mk.inj (Except.ok.inj run)
      rw [half, zero]
      exact iff_of_true (Octets.read16_bigEndian readLow').symm (by simp)
    · simp only [one] at run
      obtain ⟨high, readWord, same⟩ := bind_eq_ok.mp run
      obtain ⟨rfl, rfl⟩ := Prod.mk.inj (Except.ok.inj same)
      rw [half, one]
      refine (half_word_iff readLow' (inBounds_eq_ok.mp readWord)).trans ?_
      simp
  · rw [if_neg half] at run
    have noHalf : lct.halfWordFlag = 0 := by omega
    simp only [ok_bind, pure, Except.pure] at run
    have words : lct.toiFlag = 0 ∨ lct.toiFlag = 1 ∨ lct.toiFlag = 2 := by omega
    rcases words with zero | one | two
    · simp only [zero] at run
      obtain ⟨rfl, rfl⟩ := Prod.mk.inj (Except.ok.inj run)
      rw [noHalf, zero]
      exact iff_of_true (by simp [Octets.bigEndian]) (by simp)
    · simp only [one] at run
      obtain ⟨word, readWord, same⟩ := bind_eq_ok.mp run
      obtain ⟨rfl, rfl⟩ := Prod.mk.inj (Except.ok.inj same)
      have small := Octets.read32_lt (inBounds_eq_ok.mp readWord)
      have value := Octets.read32_bigEndian (inBounds_eq_ok.mp readWord)
      rw [noHalf, one]
      refine iff_of_true ?_ (by simp)
      rw [Nat.shiftLeft_zero, Nat.mod_eq_of_lt small, Nat.zero_or, ← value]
    · simp only [two, Nat.lt_irrefl, if_false] at run
      obtain ⟨low, readLow, run⟩ := bind_eq_ok.mp run
      obtain ⟨high, readHigh, same⟩ := bind_eq_ok.mp run
      obtain ⟨rfl, rfl⟩ := Prod.mk.inj (Except.ok.inj same)
      rw [noHalf, two, low_or_high (Octets.read32_lt (inBounds_eq_ok.mp readLow))]
      exact (two_words_iff (inBounds_eq_ok.mp readLow) (inBounds_eq_ok.mp readHigh)).trans (by simp)

/-- No header extension touches the TSI or the TOI. -/
theorem parseExtension_keeps {het hel : Nat} {extPtr : List UInt8} {alc alc' : AlcPacket}
    (run : parseExtension het hel extPtr alc = .ok alc') : alc'.tsi = alc.tsi ∧ alc'.toi = alc.toi := by
  unfold parseExtension at run
  split at run
  · split at run
    · cases run
    · obtain ⟨_, _, run⟩ := bind_eq_ok.mp run
      obtain ⟨_, _, run⟩ := bind_eq_ok.mp run
      obtain ⟨_, _, run⟩ := bind_eq_ok.mp run
      obtain ⟨_, _, run⟩ := bind_eq_ok.mp run
      obtain rfl := Except.ok.inj run
      exact ⟨rfl, rfl⟩
  · obtain ⟨_, _, run⟩ := bind_eq_ok.mp run
    split at run
    · cases run
    · obtain ⟨_, _, run⟩ := bind_eq_ok.mp run
      obtain rfl := Except.ok.inj run
      exact ⟨rfl, rfl⟩
  · obtain ⟨_, _, run⟩ := bind_eq_ok.mp run
    split at run <;>
    · obtain rfl := Except.ok.inj run
      exact ⟨rfl, rfl⟩
  · obtain rfl := Except.ok.inj run
    exact ⟨rfl, rfl⟩

theorem parseExtensions_keeps {fuel left : Nat} {hdr rest : List UInt8} {alc alc' : AlcPacket}
    (run : parseExtensions fuel hdr left alc = .ok (alc', rest)) : alc'.tsi = alc.tsi ∧ alc'.toi = alc.toi := by
  induction fuel generalizing hdr left alc with
  | zero =>
    unfold parseExtensions at run
    split at run
    · obtain ⟨rfl, _⟩ := Prod.mk.inj (Except.ok.inj run)
      exact ⟨rfl, rfl⟩
    · cases run
  | succ fuel ih =>
    rcases Nat.eq_zero_or_pos left with done | more
    · rw [parseExtensions, if_pos done] at run
      obtain ⟨rfl, _⟩ := Prod.mk.inj (Except.ok.inj run)
      exact ⟨rfl, rfl⟩
    · cases extension : extension? hdr with
      | none =>
        rw [parseExtensions_none more extension] at run
        cases run
      | some place =>
        obtain ⟨het, length⟩ := place
        rw [parseExtensions_succ more extension] at run
        split at run
        · cases run
        · obtain ⟨next, extended, run⟩ := bind_eq_ok.mp run
          split at run
          · cases run
          · obtain ⟨tsi, toi⟩ := parseExtension_keeps extended
            obtain ⟨tsi', toi'⟩ := ih run
            exact ⟨tsi'.trans tsi, toi'.trans toi⟩

end AlcPacket

namespace LctHeader

/-- The octets of the TSI, behind the congestion control information. -/
def tsiField (lct : LctHeader) (data : List UInt8) : List UInt8 := (data.drop 8).take lct.tsiOctets

def toiField (lct : LctHeader) (data : List UInt8) : List UInt8 :=
  ((data.drop 8).drop lct.tsiOctets).take lct.toiOctets

end LctHeader

namespace AlcPacket

/-- What an accepted packet holds. -/
theorem parse_fields {data : List UInt8} {len : Nat} {alc : AlcPacket} {lct : LctHeader}
    (parsed : parse data len = .ok alc) (start : lctHeader? data = some lct) :
    lct.Narrow ∧ ∃ hdr rest, parseTsi lct (data.drop 8) = .ok (alc.tsi, hdr) ∧ parseToi lct hdr = .ok (alc.toi, rest) := by
  obtain ⟨⟨_, behind⟩, run, same⟩ := bind_eq_ok.mp parsed
  obtain rfl := Except.ok.inj same
  have whole := parseHeader_eq start
  refine ⟨whole.1, ?_⟩
  match data, start with
  | b0 :: b1 :: b2 :: b3 :: tail, start =>
    obtain rfl := Option.some.inj start
    unfold parseHeader at run
    split at run
    · cases run
    · simp only [Octets.read8_cons, List.drop_succ_cons, List.drop_zero, inBounds_some, ok_bind] at run
      split at run
      · cases run
      · split at run
        · cases run
        · obtain ⟨⟨tsi, hdr⟩, readTsi, run⟩ := bind_eq_ok.mp run
          obtain ⟨⟨toi, rest⟩, readToi, run⟩ := bind_eq_ok.mp run
          simp only at run
          split at run
          · cases run
          · obtain ⟨sameTsi, sameToi⟩ := parseExtensions_keeps run
            rw [sameTsi, sameToi]
            exact ⟨hdr, rest, readTsi, readToi⟩

/-- The fields of an accepted packet are all there. -/
theorem length_fields {data : List UInt8} {len : Nat} {alc : AlcPacket} {lct : LctHeader}
    (parsed : parse data len = .ok alc) (start : lctHeader? data = some lct) :
    (lct.tsiField data).length = lct.tsiOctets ∧ (lct.toiField data).length = lct.toiOctets := by
  obtain ⟨narrow, hdr, rest, readTsi, readToi⟩ := parse_fields parsed start
  have present : ¬(lct.halfWordFlag = 0 ∧ lct.tsiFlag = 0) := by
    intro absent
    rw [parseTsi, if_pos absent] at readTsi
    cases readTsi
  have accepts : ¬ lct.RefusesToi := by
    intro refuses
    rcases parseToi_refused narrow hdr refuses with ⟨_, what, refused⟩ | ⟨_, refused⟩ <;>
    · rw [refused] at readToi
      cases readToi
  obtain ⟨rfl, _⟩ := parseTsi_value narrow readTsi
  constructor
  · rcases parseTsi_ends narrow (data.drop 8) present with ⟨long, _⟩ | ⟨_, short⟩
    · exact List.length_take_of_le long
    · rw [short] at readTsi
      cases readTsi
  · rcases parseToi_accepted narrow ((data.drop 8).drop lct.tsiOctets) accepts with ⟨long, _⟩ | ⟨_, short⟩
    · exact List.length_take_of_le long
    · rw [short] at readToi
      cases readToi

/-- The TSI and the TOI are the numbers in their fields exactly when no 48-bit
field is used but for zero, and no 64-bit TOI but of equal words. -/
theorem decodes_iff {data : List UInt8} {len : Nat} {alc : AlcPacket} {lct : LctHeader}
    (parsed : parse data len = .ok alc) (start : lctHeader? data = some lct) :
    (alc.tsi = Octets.bigEndian (lct.tsiField data) ∧ alc.toi = Octets.bigEndian (lct.toiField data)) ↔
      lct.KeepsTsi (lct.tsiField data) ∧ lct.KeepsToi (lct.toiField data) := by
  obtain ⟨narrow, hdr, rest, readTsi, readToi⟩ := parse_fields parsed start
  obtain ⟨rfl, tsi⟩ := parseTsi_value narrow readTsi
  exact and_congr tsi (parseToi_value narrow readToi)

/-- Which accepted packets have their TSI and TOI decoded. Among these, packets
with the same flags have the same TSI and TOI only if their fields are the same. -/
theorem fields_iff {data : List UInt8} {len : Nat} {alc : AlcPacket} {lct : LctHeader}
    (parsed : parse data len = .ok alc) (start : lctHeader? data = some lct) :
    ((alc.tsi = Octets.bigEndian (lct.tsiField data) ∧ alc.toi = Octets.bigEndian (lct.toiField data)) ↔
      lct.KeepsTsi (lct.tsiField data) ∧ lct.KeepsToi (lct.toiField data)) ∧
    ∀ (data' : List UInt8) (len' : Nat) (alc' : AlcPacket) (lct' : LctHeader),
      parse data' len' = .ok alc' → lctHeader? data' = some lct' →
      lct.tsiOctets = lct'.tsiOctets → lct.toiOctets = lct'.toiOctets →
      lct.KeepsTsi (lct.tsiField data) ∧ lct.KeepsToi (lct.toiField data) →
      lct'.KeepsTsi (lct'.tsiField data') ∧ lct'.KeepsToi (lct'.toiField data') →
      (alc.tsi = alc'.tsi → lct.tsiField data = lct'.tsiField data') ∧
        (alc.toi = alc'.toi → lct.toiField data = lct'.toiField data') := by
  refine ⟨decodes_iff parsed start, ?_⟩
  intro data' len' alc' lct' parsed' start' tsiOctets toiOctets keeps keeps'
  obtain ⟨tsi, toi⟩ := (decodes_iff parsed start).mpr keeps
  obtain ⟨tsi', toi'⟩ := (decodes_iff parsed' start').mpr keeps'
  obtain ⟨tsiLength, toiLength⟩ := length_fields parsed start
  obtain ⟨tsiLength', toiLength'⟩ := length_fields parsed' start'
  constructor
  · intro same
    exact Octets.bigEndian_inj (by rw [tsiLength, tsiLength', tsiOctets]) (by rw [← tsi, ← tsi', same])
  · intro same
    exact Octets.bigEndian_inj (by rw [toiLength, toiLength', toiOctets]) (by rw [← toi, ← toi', same])

/-- A packet with a TSI and a TOI of 32 bits, or with a TOI of 64 bits. -/
def wideHeader (flags : UInt8) (words : List UInt8) : List UInt8 :=
  [0x10, flags, UInt8.ofNat (2 + words.length / 4), 0, 0, 0, 0, 0] ++ words

theorem fields_iff_wide : ∃ alc alc' : AlcPacket, ∃ lct lct' : LctHeader,
    parse (wideHeader 0xA0 [1, 2, 3, 4, 5, 6, 7, 8]) 16 = .ok alc ∧
    lctHeader? (wideHeader 0xA0 [1, 2, 3, 4, 5, 6, 7, 8]) = some lct ∧ alc.tsi = 0x01020304 ∧ alc.toi = 0x05060708 ∧
    (alc.tsi = Octets.bigEndian (lct.tsiField (wideHeader 0xA0 [1, 2, 3, 4, 5, 6, 7, 8])) ∧
      alc.toi = Octets.bigEndian (lct.toiField (wideHeader 0xA0 [1, 2, 3, 4, 5, 6, 7, 8]))) ∧
    lctHeader? (wideHeader 0xA0 [1, 2, 3, 4, 5, 6, 7, 9]) = some lct' ∧
    (alc.toi = alc'.toi → lct.toiField (wideHeader 0xA0 [1, 2, 3, 4, 5, 6, 7, 8]) =
      lct'.toiField (wideHeader 0xA0 [1, 2, 3, 4, 5, 6, 7, 9])) := by
  have parsed : parse (wideHeader 0xA0 [1, 2, 3, 4, 5, 6, 7, 8]) 16 =
      .ok { tsi := 0x01020304, toi := 0x05060708, lctHeaderLen := 4 } := by decide +kernel
  have parsed' : parse (wideHeader 0xA0 [1, 2, 3, 4, 5, 6, 7, 9]) 16 =
      .ok { tsi := 0x01020304, toi := 0x05060709, lctHeaderLen := 4 } := by decide +kernel
  have start : lctHeader? (wideHeader 0xA0 [1, 2, 3, 4, 5, 6, 7, 8]) = some (.ofOctets 16 160 4 0) := rfl
  have start' : lctHeader? (wideHeader 0xA0 [1, 2, 3, 4, 5, 6, 7, 9]) = some (.ofOctets 16 160 4 0) := rfl
  have keeps : ∀ field, (LctHeader.ofOctets 16 160 4 0).KeepsTsi field ∧ (LctHeader.ofOctets 16 160 4 0).KeepsToi field :=
    fun field => ⟨fun _ half => absurd half (by decide), fun _ half => absurd half (by decide),
      fun two => absurd two (by decide)⟩
  exact ⟨_, _, _, _, parsed, start, rfl, rfl, (fields_iff parsed start).1.mpr ⟨(keeps _).1, (keeps _).2⟩, start',
    ((fields_iff parsed start).2 _ 16 _ _ parsed' start' rfl rfl ⟨(keeps _).1, (keeps _).2⟩
      ⟨(keeps _).1, (keeps _).2⟩).2⟩

/-- A TSI of 65543 in 48 bits is decoded as 458752. -/
theorem not_fields : ¬ ∀ (data : List UInt8) (len : Nat) (alc : AlcPacket) (lct : LctHeader),
    parse data len = .ok alc → lctHeader? data = some lct →
    alc.tsi = Octets.bigEndian (lct.tsiField data) ∧ alc.toi = Octets.bigEndian (lct.toiField data) := by
  intro claim
  have parsed : parse (wideHeader 0x90 [0, 0, 0, 1, 0, 7, 0, 3]) 16 =
      .ok { tsi := 0x70000, toi := 3, lctHeaderLen := 4 } := by decide +kernel
  have start : lctHeader? (wideHeader 0x90 [0, 0, 0, 1, 0, 7, 0, 3]) = some (.ofOctets 16 144 4 0) := rfl
  have decoded := (claim _ 16 _ _ parsed start).1
  revert decoded
  decide +kernel

end AlcPacket
end Libflute
