import Libflute.AlcPacket

/-! Which byte strings the parsing constructor handles without leaving them. -/

namespace Libflute
namespace AlcPacket

/-- A call that ends, with an exception or with a header that takes up
`headerLength` octets, all of them there. -/
def EndsSafely (data : List UInt8) : Outcome (AlcPacket × List UInt8) → Prop
  | .ok (alc, hdrPtr) => hdrPtr = data.drop alc.headerLength ∧ alc.headerLength ≤ data.length
  | .error (.throws _) => True
  | .error _ => False

/-- The constructor ends safely where there is no byte behind the last one. -/
def ParsesSafely (data : List UInt8) : Prop := EndsSafely data (parseHeader data data.length)

/-- Type and length in octets of the extension that `hdr` starts with. -/
def extension? : List UInt8 → Option (Nat × Nat)
  | [] => none
  | het :: rest =>
    if het.toNat ≤ 127 then rest.head?.map fun hel => (het.toNat, hel.toNat * 4)
    else some (het.toNat, 4)

/-- How many octets of an extension that is not refused are looked at. -/
def examined (het : Nat) : Nat :=
  if het = 64 then 16 else if het = 192 then 4 else if het = 193 then 2 else 1

/-- A place between extensions: the bytes from there on, and how many octets of
extensions are announced. -/
structure ExtPlace where
  hdr : List UInt8
  left : Nat

namespace ExtPlace

/-- An extension longer than what is announced, an EXT_FTI of another length than
16, or an EXT_FDT of a FLUTE version above 2. -/
def Refused (p : ExtPlace) : Prop :=
  ∃ het length, extension? p.hdr = some (het, length) ∧
    (p.left < length ∨ (het = 64 ∧ length ≠ 16) ∨
      (het = 192 ∧ ∃ first, Octets.read8 (p.hdr.drop 1) = some first ∧ 2 < first / 16))

/-- What has to be looked at of the extension is there. -/
def Inside (p : ExtPlace) : Prop :=
  p.Refused ∨ ∃ het length, extension? p.hdr = some (het, length) ∧ examined het ≤ p.hdr.length

def ZeroLength (p : ExtPlace) : Prop := ∃ het, extension? p.hdr = some (het, 0)

/-- From one extension to the next. -/
def Passes (p q : ExtPlace) : Prop :=
  0 < p.left ∧ p.Inside ∧ ¬p.Refused ∧ ∃ het length, extension? p.hdr = some (het, length) ∧ 0 < length ∧
    q = ⟨p.hdr.drop length, p.left - length⟩

def Reaches (p q : ExtPlace) : Prop := Relation.ReflTransGen Passes p q

/-- Every extension reached from here can be looked at, and is refused or has a
positive length. -/
structure Harmless (p : ExtPlace) : Prop where
  inside : ∀ q, p.Reaches q → 0 < q.left → q.Inside
  positive : ∀ q, p.Reaches q → 0 < q.left → ¬q.Refused → ¬q.ZeroLength

def ReachesRefused (p : ExtPlace) : Prop := ∃ q, p.Reaches q ∧ 0 < q.left ∧ q.Refused

theorem reaches_of_stuck {p q : ExtPlace} (stuck : ∀ r, ¬p.Passes r) (reach : p.Reaches q) : q = p := by
  rcases Relation.ReflTransGen.cases_head reach with rfl | ⟨r, pass, _⟩
  · rfl
  · exact absurd pass (stuck r)

theorem passes_unique {p q r : ExtPlace} (first : p.Passes q) (second : p.Passes r) : r = q := by
  obtain ⟨_, _, _, het, length, extension, _, rfl⟩ := first
  obtain ⟨_, _, _, het', length', extension', _, rfl⟩ := second
  rw [extension, Option.some.injEq, Prod.mk.injEq] at extension'
  rw [extension'.2]

theorem reaches_of_passes {p q r : ExtPlace} (pass : p.Passes q) (reach : p.Reaches r) :
    r = p ∨ q.Reaches r := by
  rcases Relation.ReflTransGen.cases_head reach with rfl | ⟨q', pass', rest⟩
  · exact Or.inl rfl
  · rw [passes_unique pass pass'] at rest
    exact Or.inr rest

theorem Passes.harmless_iff {p q : ExtPlace} (pass : p.Passes q) : p.Harmless ↔ q.Harmless := by
  constructor
  · intro harmless
    exact ⟨fun r reach => harmless.inside r (reach.head pass), fun r reach => harmless.positive r (reach.head pass)⟩
  · intro harmless
    refine ⟨fun r reach left => ?_, fun r reach left accepted => ?_⟩
    · rcases reaches_of_passes pass reach with rfl | later
      · exact pass.2.1
      · exact harmless.inside r later left
    · rcases reaches_of_passes pass reach with rfl | later
      · rintro ⟨het, zero⟩
        obtain ⟨_, _, _, het', length, extension, positive, _⟩ := pass
        rw [zero, Option.some.injEq, Prod.mk.injEq] at extension
        omega
      · exact harmless.positive r later left accepted

theorem Passes.reachesRefused_iff {p q : ExtPlace} (pass : p.Passes q) :
    p.ReachesRefused ↔ q.ReachesRefused := by
  constructor
  · rintro ⟨r, reach, left, refused⟩
    rcases reaches_of_passes pass reach with rfl | later
    · exact absurd refused pass.2.2.1
    · exact ⟨r, later, left, refused⟩
  · rintro ⟨r, reach, left, refused⟩
    exact ⟨r, reach.head pass, left, refused⟩

end ExtPlace

/-- How the `switch` ends on an extension it does not refuse. -/
def LooksAt (content : Outcome AlcPacket) (alc : AlcPacket) (long : Prop) : Prop :=
  (long ∧ ∃ next, content = .ok next ∧ next.lctHeaderLen = alc.lctHeaderLen) ∨
  (¬long ∧ content = .error .undefined)

theorem parseExtension_fti (hdr : List UInt8) (alc : AlcPacket) :
    LooksAt (parseExtension 64 4 (hdr.drop 2) alc) alc (16 ≤ hdr.length) := by
  rw [parseExtension, if_neg (by simp)]
  simp only [List.drop_drop]
  rcases Octets.read16_cases (hdr.drop 2) with ⟨short, read1⟩ | ⟨_, high, read1⟩
  · rw [List.length_drop] at short
    rw [read1]
    exact Or.inr ⟨by omega, rfl⟩
  rcases Octets.read32_cases (hdr.drop 4) with ⟨short, read2⟩ | ⟨_, low, read2⟩
  · rw [List.length_drop] at short
    rw [read1, read2]
    exact Or.inr ⟨by omega, rfl⟩
  rcases Octets.read16_cases (hdr.drop 10) with ⟨short, read3⟩ | ⟨_, symbolLength, read3⟩
  · rw [List.length_drop] at short
    rw [read1, read2, read3]
    exact Or.inr ⟨by omega, rfl⟩
  rcases Octets.read32_cases (hdr.drop 12) with ⟨short, read4⟩ | ⟨long, blockLength, read4⟩
  · rw [List.length_drop] at short
    rw [read1, read2, read3, read4]
    exact Or.inr ⟨by omega, rfl⟩
  · rw [List.length_drop] at long
    rw [read1, read2, read3, read4]
    exact Or.inl ⟨by omega, _, rfl, rfl⟩

theorem parseExtension_fdt {hdr : List UInt8} (hel : Nat) (alc : AlcPacket)
    (version : ∀ first, Octets.read8 (hdr.drop 1) = some first → ¬2 < first / 16) :
    LooksAt (parseExtension 192 hel (hdr.drop 1) alc) alc (4 ≤ hdr.length) := by
  rw [parseExtension]
  simp only [List.drop_drop]
  rcases Octets.read8_cases (hdr.drop 1) with ⟨short, read1⟩ | ⟨_, first, read1⟩
  · rw [List.length_drop] at short
    rw [read1]
    exact Or.inr ⟨by omega, rfl⟩
  rw [read1, inBounds_some, ok_bind, if_neg (version first read1)]
  rcases Octets.read16_cases (hdr.drop 2) with ⟨short, read2⟩ | ⟨long, low, read2⟩
  · rw [List.length_drop] at short
    rw [read2]
    exact Or.inr ⟨by omega, rfl⟩
  · rw [List.length_drop] at long
    rw [read2]
    exact Or.inl ⟨by omega, _, rfl, rfl⟩

theorem parseExtension_cenc (hdr : List UInt8) (hel : Nat) (alc : AlcPacket) :
    LooksAt (parseExtension 193 hel (hdr.drop 1) alc) alc (2 ≤ hdr.length) := by
  rw [parseExtension]
  rcases Octets.read8_cases (hdr.drop 1) with ⟨short, read1⟩ | ⟨long, encoding, read1⟩
  · rw [List.length_drop] at short
    rw [read1]
    exact Or.inr ⟨by omega, rfl⟩
  · rw [List.length_drop] at long
    rw [read1, inBounds_some, ok_bind]
    refine Or.inl ⟨by omega, ?_⟩
    split <;> exact ⟨_, rfl, rfl⟩

theorem parseExtension_other {het : Nat} (hel : Nat) (extPtr : List UInt8) (alc : AlcPacket)
    (noFti : het ≠ 64) (noFdt : het ≠ 192) (noCenc : het ≠ 193) :
    parseExtension het hel extPtr alc = .ok alc := by
  unfold parseExtension
  split
  · exact absurd rfl noFti
  · exact absurd rfl noFdt
  · exact absurd rfl noCenc
  · rfl

theorem extension_cases {hdr : List UInt8} {het length : Nat} (extension : extension? hdr = some (het, length)) :
    Octets.read8 hdr = some het ∧
      ((het ≤ 127 ∧ ∃ hel, Octets.read8 (hdr.drop 1) = some hel ∧ length = hel * 4) ∨ (127 < het ∧ length = 4)) := by
  cases hdr with
  | nil => simp [extension?] at extension
  | cons type rest =>
    rw [extension?] at extension
    split at extension
    · next small =>
      cases rest with
      | nil => simp at extension
      | cons hel rest =>
        simp only [List.head?_cons, Option.map_some, Option.some.injEq, Prod.mk.injEq] at extension
        obtain ⟨rfl, rfl⟩ := extension
        exact ⟨rfl, Or.inl ⟨small, hel.toNat, rfl, rfl⟩⟩
    · next large =>
      simp only [Option.some.injEq, Prod.mk.injEq] at extension
      obtain ⟨rfl, rfl⟩ := extension
      exact ⟨rfl, Or.inr ⟨by omega, rfl⟩⟩

/-- A pass of the loop, over an extension whose type and length can be read. -/
theorem parseExtensions_succ {fuel left het length : Nat} {hdr : List UInt8} {alc : AlcPacket}
    (more : 0 < left) (extension : extension? hdr = some (het, length)) :
    parseExtensions (fuel + 1) hdr left alc =
      if left < length then throwLiteral "Header extension length exceeds remaining header length"
      else
        parseExtension het (if het ≤ 127 then length / 4 else 0)
            (if het ≤ 127 then hdr.drop 2 else hdr.drop 1) alc >>= fun next =>
          if length = 0 then .error .hangs
          else parseExtensions fuel (hdr.drop length) (left - length) next := by
  rw [parseExtensions, if_neg (by omega)]
  obtain ⟨type, ⟨small, hel, second, rfl⟩ | ⟨large, rfl⟩⟩ := extension_cases extension
  · simp only [type, second, inBounds_some, ok_bind, if_pos small, Nat.mul_div_cancel hel (show 0 < 4 by omega)]
  · simp only [type, inBounds_some, ok_bind, if_neg (not_le.mpr large), pure, Except.pure]

theorem parseExtensions_none {fuel left : Nat} {hdr : List UInt8} {alc : AlcPacket} (more : 0 < left)
    (absent : extension? hdr = none) : parseExtensions fuel hdr left alc = .error .undefined := by
  unfold parseExtensions
  rw [if_neg (by omega)]
  cases fuel with
  | zero => rfl
  | succ fuel =>
    cases hdr with
    | nil => rfl
    | cons type rest =>
      rw [extension?] at absent
      split at absent
      · next small =>
        cases rest with
        | nil => simp only [Octets.read8_cons, inBounds_some, ok_bind, if_pos small]; rfl
        | cons hel rest => simp at absent
      · simp at absent

theorem parseExtensions_refused {left : Nat} {hdr : List UInt8} (fuel : Nat) (alc : AlcPacket) (more : 0 < left)
    (refused : (ExtPlace.mk hdr left).Refused) :
    ∃ what, parseExtensions (fuel + 1) hdr left alc = .error (.throws what) := by
  obtain ⟨het, length, extension, reason⟩ := refused
  rw [parseExtensions_succ more extension]
  split
  · exact ⟨_, rfl⟩
  · next within =>
    obtain long | ⟨rfl, other⟩ | ⟨rfl, first, read, version⟩ := reason
    · exact absurd long within
    · obtain ⟨_, ⟨_, hel, _, rfl⟩ | ⟨large, _⟩⟩ := extension_cases extension
      · unfold parseExtension
        simp only [show (64 : Nat) ≤ 127 by omega, if_true]
        rw [if_pos (by omega)]
        exact ⟨_, rfl⟩
      · omega
    · unfold parseExtension
      simp only [show ¬192 ≤ 127 by omega, if_false]
      rw [read, inBounds_some, ok_bind, if_pos version]
      exact ⟨_, rfl⟩

/-- What is not refused is looked at, up to the last octet that matters. -/
theorem looksAt_of_not_refused {hdr : List UInt8} {het length left : Nat} (alc : AlcPacket)
    (extension : extension? hdr = some (het, length)) (accepted : ¬(ExtPlace.mk hdr left).Refused) :
    LooksAt (parseExtension het (if het ≤ 127 then length / 4 else 0)
      (if het ≤ 127 then hdr.drop 2 else hdr.drop 1) alc) alc (examined het ≤ hdr.length) := by
  have accepted' : ¬(left < length ∨ (het = 64 ∧ length ≠ 16) ∨
      (het = 192 ∧ ∃ first, Octets.read8 (hdr.drop 1) = some first ∧ 2 < first / 16)) :=
    fun reason => accepted ⟨het, length, extension, reason⟩
  by_cases fti : het = 64
  · subst fti
    have sixteen : length = 16 := by
      by_contra other
      exact accepted' (Or.inr (Or.inl ⟨rfl, other⟩))
    subst sixteen
    exact parseExtension_fti hdr alc
  by_cases fdt : het = 192
  · subst fdt
    refine parseExtension_fdt 0 alc fun first read version => ?_
    exact accepted' (Or.inr (Or.inr ⟨rfl, first, read, version⟩))
  by_cases cenc : het = 193
  · subst cenc
    exact parseExtension_cenc hdr 0 alc
  rw [parseExtension_other _ _ _ fti fdt cenc]
  refine Or.inl ⟨?_, alc, rfl, rfl⟩
  rw [examined, if_neg fti, if_neg fdt, if_neg cenc]
  rcases Octets.read8_cases hdr with ⟨_, unreadable⟩ | ⟨long, _⟩
  · rw [(extension_cases extension).1] at unreadable
    simp at unreadable
  · exact long

/-- A pass over an extension that is not refused. -/
theorem parseExtensions_accepted {left : Nat} {hdr : List UInt8} (fuel : Nat) (alc : AlcPacket) (more : 0 < left)
    (accepted : ¬(ExtPlace.mk hdr left).Refused) :
    (¬(ExtPlace.mk hdr left).Inside ∧ parseExtensions (fuel + 1) hdr left alc = .error .undefined) ∨
    ((ExtPlace.mk hdr left).ZeroLength ∧ parseExtensions (fuel + 1) hdr left alc = .error .hangs) ∨
    ∃ length next, (ExtPlace.mk hdr left).Passes ⟨hdr.drop length, left - length⟩ ∧
      0 < length ∧ length ≤ left ∧ 0 < hdr.length ∧ next.lctHeaderLen = alc.lctHeaderLen ∧
      parseExtensions (fuel + 1) hdr left alc = parseExtensions fuel (hdr.drop length) (left - length) next := by
  cases extension : extension? hdr with
  | none =>
    refine Or.inl ⟨?_, parseExtensions_none more extension⟩
    rintro (refused | ⟨het, length, readable, _⟩)
    · exact accepted refused
    · simp only [extension] at readable
      simp at readable
  | some typed =>
    obtain ⟨het, length⟩ := typed
    have within : ¬left < length := fun long => accepted ⟨het, length, extension, Or.inl long⟩
    rw [parseExtensions_succ more extension, if_neg within]
    obtain ⟨long, next, content, same⟩ | ⟨short, content⟩ := looksAt_of_not_refused alc extension accepted
    · rw [content, ok_bind]
      by_cases zero : length = 0
      · subst zero
        exact Or.inr (Or.inl ⟨⟨het, extension⟩, rfl⟩)
      · rw [if_neg zero]
        refine Or.inr (Or.inr ⟨length, next, ?_, by omega, by omega, ?_, same, rfl⟩)
        · exact ⟨more, Or.inr ⟨het, length, extension, long⟩, accepted, het, length, extension, by omega, rfl⟩
        · refine lt_of_lt_of_le ?_ long
          unfold examined
          split_ifs <;> omega
    · rw [content, error_bind]
      refine Or.inl ⟨?_, rfl⟩
      rintro (refused | ⟨het', length', readable, long⟩)
      · exact accepted refused
      · rw [extension, Option.some.injEq, Prod.mk.injEq] at readable
        rw [← readable.1] at long
        exact short long

/-- How the extension loop ends from a place. -/
def LoopEnds (p : ExtPlace) (alc : AlcPacket) (outcome : Outcome (AlcPacket × List UInt8)) : Prop :=
  (p.Harmless ∧ p.ReachesRefused ∧ ∃ what, outcome = .error (.throws what)) ∨
  (¬p.Harmless ∧ (outcome = .error .hangs ∨ outcome = .error .undefined)) ∨
  (p.Harmless ∧ ¬p.ReachesRefused ∧ ∃ next : AlcPacket, next.lctHeaderLen = alc.lctHeaderLen ∧
    outcome = .ok (next, p.hdr.drop p.left))

theorem loopEnds_done (fuel : Nat) (hdr : List UInt8) (alc : AlcPacket) :
    LoopEnds ⟨hdr, 0⟩ alc (parseExtensions fuel hdr 0 alc) := by
  have stuck : ∀ q, ¬(ExtPlace.mk hdr 0).Passes q := fun q pass => absurd pass.1 (by simp)
  have same : ∀ q, (ExtPlace.mk hdr 0).Reaches q → q = ⟨hdr, 0⟩ := fun q => ExtPlace.reaches_of_stuck stuck
  refine Or.inr (Or.inr ⟨⟨?_, ?_⟩, ?_, alc, rfl, ?_⟩)
  · intro q reach more
    rw [same q reach] at more
    simp at more
  · intro q reach more
    rw [same q reach] at more
    simp at more
  · rintro ⟨q, reach, more, _⟩
    rw [same q reach] at more
    simp at more
  · unfold parseExtensions
    rfl

theorem loopEnds_outside {left : Nat} {hdr : List UInt8} (alc : AlcPacket) (more : 0 < left)
    (outside : ¬(ExtPlace.mk hdr left).Inside) : LoopEnds ⟨hdr, left⟩ alc (.error .undefined) :=
  Or.inr (Or.inl ⟨fun harmless => outside (harmless.inside _ .refl more), Or.inr rfl⟩)

theorem loopEnds_refused {left : Nat} {hdr : List UInt8} (alc : AlcPacket) (what : Thrown) (more : 0 < left)
    (refused : (ExtPlace.mk hdr left).Refused) : LoopEnds ⟨hdr, left⟩ alc (.error (.throws what)) := by
  have same : ∀ q, (ExtPlace.mk hdr left).Reaches q → q = ⟨hdr, left⟩ := fun q =>
    ExtPlace.reaches_of_stuck fun q pass => pass.2.2.1 refused
  refine Or.inl ⟨⟨?_, ?_⟩, ⟨_, .refl, more, refused⟩, what, rfl⟩
  · intro q reach _
    rw [same q reach]
    exact Or.inl refused
  · intro q reach _ accepted
    rw [same q reach] at accepted
    exact absurd refused accepted

theorem LoopEnds.of_pass {left length : Nat} {hdr : List UInt8} {alc next : AlcPacket}
    {outcome : Outcome (AlcPacket × List UInt8)} (within : length ≤ left)
    (pass : (ExtPlace.mk hdr left).Passes ⟨hdr.drop length, left - length⟩)
    (same : next.lctHeaderLen = alc.lctHeaderLen)
    (rest : LoopEnds ⟨hdr.drop length, left - length⟩ next outcome) : LoopEnds ⟨hdr, left⟩ alc outcome := by
  unfold LoopEnds
  rw [pass.harmless_iff, pass.reachesRefused_iff]
  rcases rest with throws | fails | ⟨harmless, accepted, last, same', ok⟩
  · exact Or.inl throws
  · exact Or.inr (Or.inl fails)
  · refine Or.inr (Or.inr ⟨harmless, accepted, last, same'.trans same, ?_⟩)
    rw [ok, List.drop_drop, Nat.add_sub_cancel' within]

/-- The passes of the loop go through the places of the header, by induction on
the bytes that are left. -/
theorem parseExtensions_ends {fuel left : Nat} {hdr : List UInt8} (alc : AlcPacket)
    (enough : hdr.length ≤ fuel) : LoopEnds ⟨hdr, left⟩ alc (parseExtensions fuel hdr left alc) := by
  induction fuel generalizing hdr left alc with
  | zero =>
    have empty : hdr = [] := List.length_eq_zero_iff.mp (by omega)
    subst empty
    rcases Nat.eq_zero_or_pos left with rfl | more
    · exact loopEnds_done 0 [] alc
    · rw [parseExtensions_none more rfl]
      refine loopEnds_outside alc more ?_
      rintro (⟨het, length, readable, _⟩ | ⟨het, length, readable, _⟩) <;> simp [extension?] at readable
  | succ fuel ih =>
    rcases Nat.eq_zero_or_pos left with rfl | more
    · exact loopEnds_done (fuel + 1) hdr alc
    by_cases refused : (ExtPlace.mk hdr left).Refused
    · obtain ⟨what, run⟩ := parseExtensions_refused fuel alc more refused
      rw [run]
      exact loopEnds_refused alc what more refused
    rcases parseExtensions_accepted fuel alc more refused with
      ⟨outside, run⟩ | ⟨zero, run⟩ | ⟨length, next, pass, positive, within, nonempty, same, run⟩
    · rw [run]
      exact loopEnds_outside alc more outside
    · rw [run]
      exact Or.inr (Or.inl ⟨fun harmless => harmless.positive _ .refl more refused zero, Or.inl rfl⟩)
    · rw [run]
      refine .of_pass within pass same (ih next ?_)
      rw [List.length_drop]
      omega

end AlcPacket

namespace LctHeader

/-- Refused before anything behind the first four octets is read. -/
def RefusedAtOnce (lct : LctHeader) : Prop :=
  lct.version ≠ 1 ∨ lct.congestionControlFlag ≠ 0 ∨ (lct.halfWordFlag = 0 ∧ lct.tsiFlag = 0)

def RefusesToi (lct : LctHeader) : Prop :=
  (lct.closeSessionFlag = 0 ∧ lct.halfWordFlag = 0 ∧ lct.toiFlag = 0) ∨ lct.toiFlag = 3 ∨
    (lct.toiFlag = 2 ∧ lct.halfWordFlag = 1)

instance (lct : LctHeader) : Decidable lct.RefusesToi := inferInstanceAs (Decidable (_ ∨ _ ∨ _))

/-- Refused when the TSI and the TOI are reached. -/
def RefusedLater (lct : LctHeader) : Prop := lct.RefusesToi ∨ lct.codepoint ≠ 0

def tsiOctets (lct : LctHeader) : Nat := 2 * lct.halfWordFlag + 4 * lct.tsiFlag

/-- The octets of the TOI that are read. -/
def toiOctets (lct : LctHeader) : Nat :=
  2 * lct.halfWordFlag + if lct.RefusesToi then 0 else 4 * lct.toiFlag

/-- The fields of the header are as wide as they are in a packet. -/
structure Narrow (lct : LctHeader) : Prop where
  tsiFlag : lct.tsiFlag < 2
  toiFlag : lct.toiFlag < 4
  halfWordFlag : lct.halfWordFlag < 2
  lctHeaderLen : lct.lctHeaderLen < 256

theorem narrow_ofOctets (b0 b1 b2 b3 : UInt8) : (ofOctets b0.toNat b1.toNat b2.toNat b3.toNat).Narrow := by
  have octet := b1.toNat_lt
  refine ⟨?_, Nat.mod_lt _ (by omega), Nat.mod_lt _ (by omega), b2.toNat_lt⟩
  change b1.toNat / 128 < 2
  omega

end LctHeader

namespace AlcPacket

theorem parseTsi_ends {lct : LctHeader} (narrow : lct.Narrow) (hdr : List UInt8)
    (present : ¬(lct.halfWordFlag = 0 ∧ lct.tsiFlag = 0)) :
    (lct.tsiOctets ≤ hdr.length ∧ ∃ tsi, parseTsi lct hdr = .ok (tsi, hdr.drop lct.tsiOctets)) ∨
    (hdr.length < lct.tsiOctets ∧ parseTsi lct hdr = .error .undefined) := by
  have tsiFlag := narrow.tsiFlag
  have halfWordFlag := narrow.halfWordFlag
  unfold parseTsi LctHeader.tsiOctets
  rw [if_neg present]
  by_cases half : lct.halfWordFlag = 1
  · rcases Octets.read16_cases hdr with ⟨short, read1⟩ | ⟨_, low, read1⟩
    · simp only [half, if_true, read1]
      exact Or.inr ⟨by omega, rfl⟩
    by_cases word : lct.tsiFlag = 1
    · rcases Octets.read32_cases (hdr.drop 2) with ⟨short, read2⟩ | ⟨long, high, read2⟩
      · rw [List.length_drop] at short
        simp only [half, word, if_true, read1, inBounds_some, ok_bind, pure, Except.pure, read2]
        exact Or.inr ⟨by omega, rfl⟩
      · rw [List.length_drop] at long
        simp only [half, word, if_true, read1, inBounds_some, ok_bind, pure, Except.pure, read2, List.drop_drop]
        exact Or.inl ⟨by omega, _, rfl⟩
    · have none : lct.tsiFlag = 0 := by omega
      simp only [half, none, if_true, read1, inBounds_some, ok_bind, pure, Except.pure]
      exact Or.inl ⟨by omega, _, rfl⟩
  · have noHalf : lct.halfWordFlag = 0 := by omega
    have word : lct.tsiFlag = 1 := by omega
    rcases Octets.read32_cases hdr with ⟨short, read2⟩ | ⟨long, high, read2⟩
    · simp only [noHalf, word, if_true, ok_bind, pure, Except.pure, read2]
      exact Or.inr ⟨by omega, rfl⟩
    · simp only [noHalf, word, if_true, inBounds_some, ok_bind, pure, Except.pure, read2]
      exact Or.inl ⟨by omega, _, rfl⟩

theorem parseToi_refused {lct : LctHeader} (narrow : lct.Narrow) (hdr : List UInt8) (refuses : lct.RefusesToi) :
    (lct.toiOctets ≤ hdr.length ∧ ∃ what, parseToi lct hdr = .error (.throws what)) ∨
    (hdr.length < lct.toiOctets ∧ parseToi lct hdr = .error .undefined) := by
  have halfWordFlag := narrow.halfWordFlag
  have octets : lct.toiOctets = 2 * lct.halfWordFlag := by rw [LctHeader.toiOctets, if_pos refuses, Nat.add_zero]
  rw [octets]
  unfold parseToi
  by_cases nowhere : lct.closeSessionFlag = 0 ∧ lct.halfWordFlag = 0 ∧ lct.toiFlag = 0
  · rw [if_pos nowhere]
    exact Or.inl ⟨by omega, _, rfl⟩
  rw [if_neg nowhere]
  have wide := refuses.resolve_left nowhere
  by_cases half : lct.halfWordFlag = 1
  · rcases Octets.read16_cases hdr with ⟨short, read1⟩ | ⟨long, low, read1⟩
    · simp only [half, if_true, read1]
      exact Or.inr ⟨by omega, rfl⟩
    · simp only [half, if_true, read1, inBounds_some, ok_bind, pure, Except.pure]
      rcases wide with three | ⟨two, _⟩
      · rw [three]
        exact Or.inl ⟨by omega, _, rfl⟩
      · rw [two]
        exact Or.inl ⟨by omega, _, rfl⟩
  · have three : lct.toiFlag = 3 := wide.resolve_right fun two => half two.2
    simp only [half, if_false, ok_bind, pure, Except.pure, three]
    exact Or.inl ⟨by omega, _, rfl⟩

theorem parseToi_accepted {lct : LctHeader} (narrow : lct.Narrow) (hdr : List UInt8) (accepts : ¬lct.RefusesToi) :
    (lct.toiOctets ≤ hdr.length ∧ ∃ toi, parseToi lct hdr = .ok (toi, hdr.drop lct.toiOctets)) ∨
    (hdr.length < lct.toiOctets ∧ parseToi lct hdr = .error .undefined) := by
  have halfWordFlag := narrow.halfWordFlag
  have toiFlag := narrow.toiFlag
  have octets : lct.toiOctets = 2 * lct.halfWordFlag + 4 * lct.toiFlag := by
    rw [LctHeader.toiOctets, if_neg accepts]
  rw [octets]
  unfold parseToi
  unfold LctHeader.RefusesToi at accepts
  rw [if_neg (by omega)]
  by_cases half : lct.halfWordFlag = 1
  · rcases Octets.read16_cases hdr with ⟨short, read1⟩ | ⟨long, low, read1⟩
    · simp only [half, if_true, read1]
      exact Or.inr ⟨by omega, rfl⟩
    simp only [half, if_true, read1, inBounds_some, ok_bind, pure, Except.pure]
    have words : lct.toiFlag = 0 ∨ lct.toiFlag = 1 := by omega
    rcases words with zero | one
    · rw [zero]
      exact Or.inl ⟨by omega, _, rfl⟩
    · rcases Octets.read32_cases (hdr.drop 2) with ⟨short, read2⟩ | ⟨long, high, read2⟩
      · rw [List.length_drop] at short
        simp only [one, read2]
        exact Or.inr ⟨by omega, rfl⟩
      · rw [List.length_drop] at long
        simp only [one, read2, inBounds_some, ok_bind, List.drop_drop]
        exact Or.inl ⟨by omega, _, rfl⟩
  · have noHalf : lct.halfWordFlag = 0 := by omega
    simp only [noHalf, ok_bind, pure, Except.pure]
    have words : lct.toiFlag = 0 ∨ lct.toiFlag = 1 ∨ lct.toiFlag = 2 := by omega
    rcases words with zero | one | two
    · rw [zero]
      exact Or.inl ⟨by omega, _, rfl⟩
    · rcases Octets.read32_cases hdr with ⟨short, read1⟩ | ⟨long, low, read1⟩
      · simp only [one, read1]
        exact Or.inr ⟨by omega, rfl⟩
      · simp only [one, read1, inBounds_some, ok_bind]
        exact Or.inl ⟨by omega, _, rfl⟩
    · rcases Octets.read32_cases hdr with ⟨short, read1⟩ | ⟨_, low, read1⟩
      · simp only [two, read1]
        exact Or.inr ⟨by omega, rfl⟩
      rcases Octets.read32_cases (hdr.drop 4) with ⟨short, read2⟩ | ⟨long, high, read2⟩
      · rw [List.length_drop] at short
        simp only [two, read1, read2, inBounds_some, ok_bind]
        exact Or.inr ⟨by omega, rfl⟩
      · rw [List.length_drop] at long
        simp only [two, read1, read2, inBounds_some, ok_bind]
        exact Or.inl ⟨by omega, _, rfl⟩

def lctHeader? : List UInt8 → Option LctHeader
  | b0 :: b1 :: b2 :: b3 :: _ => some (.ofOctets b0.toNat b1.toNat b2.toNat b3.toNat)
  | _ => none

/-- Where the header extensions start. -/
def firstExtension (lct : LctHeader) (data : List UInt8) : ExtPlace :=
  ⟨data.drop (8 + lct.tsiOctets + lct.toiOctets), extHeaderLength lct⟩

/-- A byte string the constructor handles safely: it is refused by its first four
octets; or it holds its TSI and TOI, and is refused there; or it holds what is
looked at of each extension, none of them is of length zero, and it is refused
at one of them or holds the whole header it announces. -/
def SafeToParse (data : List UInt8) : Prop :=
  ∀ lct, lctHeader? data = some lct →
    lct.RefusedAtOnce ∨
    (8 + lct.tsiOctets + lct.toiOctets ≤ data.length ∧
      (lct.RefusedLater ∨
        ((firstExtension lct data).Harmless ∧
          ((firstExtension lct data).ReachesRefused ∨
            (8 + lct.tsiOctets + lct.toiOctets ≤ lct.lctHeaderLen * 4 ∧
              lct.lctHeaderLen * 4 ≤ data.length)))))

/-- The part of the constructor behind the first four octets. -/
def parseFields (lct : LctHeader) (data : List UInt8) : Outcome (AlcPacket × List UInt8) :=
  parseTsi lct (data.drop 8) >>= fun (tsi, hdr) =>
    parseToi lct hdr >>= fun (toi, hdr) =>
      if lct.codepoint ≠ 0 then throwLiteral "Only Compact No-Code FEC is supported"
      else
        parseExtensions hdr.length hdr (extHeaderLength lct)
          { tsi := tsi, toi := toi, lctHeaderLen := lct.lctHeaderLen }

theorem parseHeader_eq {data : List UInt8} {lct : LctHeader} (start : lctHeader? data = some lct) :
    lct.Narrow ∧ parseHeader data data.length =
      if lct.version ≠ 1 then throwLiteral "Unsupported LCT version"
      else if lct.congestionControlFlag ≠ 0 then throwLiteral "Unsupported CCI field length"
      else parseFields lct data := by
  match data, start with
  | b0 :: b1 :: b2 :: b3 :: rest, start =>
    rw [lctHeader?, Option.some.injEq] at start
    subst start
    refine ⟨LctHeader.narrow_ofOctets b0 b1 b2 b3, ?_⟩
    rw [parseHeader, if_neg (by simp)]
    rfl

theorem parseHeader_short {data : List UInt8} (short : lctHeader? data = none) :
    parseHeader data data.length = throwLiteral "Packet too short" := by
  have few : data.length < 4 := by
    match data, short with
    | [], _ => simp
    | [_], _ => simp
    | [_, _], _ => simp
    | [_, _, _], _ => simp
    | _ :: _ :: _ :: _ :: _, short => simp [lctHeader?] at short
  rw [parseHeader, if_pos few]

/-- Four octets for each word the flags announce. -/
theorem extHeaderLength_eq {lct : LctHeader} (narrow : lct.Narrow) (noCci : lct.congestionControlFlag = 0)
    (accepts : ¬lct.RefusesToi) :
    8 + lct.tsiOctets + lct.toiOctets + extHeaderLength lct = lct.lctHeaderLen * 4 ∨
    (lct.lctHeaderLen * 4 < 8 + lct.tsiOctets + lct.toiOctets ∧
      8 + lct.tsiOctets + lct.toiOctets + extHeaderLength lct = lct.lctHeaderLen * 4 + 2 ^ 64) := by
  have tsiFlag := narrow.tsiFlag
  have toiFlag := narrow.toiFlag
  have halfWordFlag := narrow.halfWordFlag
  have lctHeaderLen := narrow.lctHeaderLen
  rw [LctHeader.tsiOctets, LctHeader.toiOctets, if_neg accepts, extHeaderLength, noCci]
  omega

/-- A header that is accepted is the one announced only if it announced room for
its own fields; otherwise the length of the extensions has wrapped around. -/
theorem headerLength_iff {data : List UInt8} {lct : LctHeader} (narrow : lct.Narrow)
    (noCci : lct.congestionControlFlag = 0) (accepts : ¬lct.RefusesToi)
    (present : 8 + lct.tsiOctets + lct.toiOctets ≤ data.length) :
    ((data.drop (8 + lct.tsiOctets + lct.toiOctets)).drop (extHeaderLength lct) = data.drop (lct.lctHeaderLen * 4) ∧
        lct.lctHeaderLen * 4 ≤ data.length) ↔
      8 + lct.tsiOctets + lct.toiOctets ≤ lct.lctHeaderLen * 4 ∧ lct.lctHeaderLen * 4 ≤ data.length := by
  rw [List.drop_drop]
  rcases extHeaderLength_eq narrow noCci accepts with exact | ⟨few, wrapped⟩
  · rw [exact]
    exact ⟨fun ends => ⟨by omega, ends.2⟩, fun ends => ⟨rfl, ends.2⟩⟩
  · rw [wrapped]
    constructor
    · rintro ⟨same, whole⟩
      have lengths := congrArg List.length same
      simp only [List.length_drop] at lengths
      omega
    · rintro ⟨room, _⟩
      omega

theorem parseFields_endsSafely {data : List UInt8} {lct : LctHeader} (narrow : lct.Narrow)
    (noCci : lct.congestionControlFlag = 0) (tsi : ¬(lct.halfWordFlag = 0 ∧ lct.tsiFlag = 0)) :
    EndsSafely data (parseFields lct data) ↔
      8 + lct.tsiOctets + lct.toiOctets ≤ data.length ∧
        (lct.RefusedLater ∨
          ((firstExtension lct data).Harmless ∧
            ((firstExtension lct data).ReachesRefused ∨
              (8 + lct.tsiOctets + lct.toiOctets ≤ lct.lctHeaderLen * 4 ∧
                lct.lctHeaderLen * 4 ≤ data.length)))) := by
  have some : 0 < lct.tsiOctets := by
    unfold LctHeader.tsiOctets
    omega
  unfold parseFields
  rcases parseTsi_ends narrow (data.drop 8) tsi with ⟨tsiThere, tsiValue, run⟩ | ⟨tsiMissing, run⟩
  swap
  · rw [List.length_drop] at tsiMissing
    rw [run, error_bind]
    exact ⟨False.elim, fun safe => by omega⟩
  rw [List.length_drop] at tsiThere
  rw [run, ok_bind]
  simp only [List.drop_drop]
  by_cases refuses : lct.RefusesToi
  · rcases parseToi_refused narrow (data.drop (8 + lct.tsiOctets)) refuses with ⟨there, what, run⟩ | ⟨missing, run⟩
    · rw [List.length_drop] at there
      rw [run, error_bind]
      exact ⟨fun _ => ⟨by omega, Or.inl (Or.inl refuses)⟩, fun _ => trivial⟩
    · rw [List.length_drop] at missing
      rw [run, error_bind]
      exact ⟨False.elim, fun safe => by omega⟩
  rcases parseToi_accepted narrow (data.drop (8 + lct.tsiOctets)) refuses with ⟨there, toiValue, run⟩ | ⟨missing, run⟩
  swap
  · rw [List.length_drop] at missing
    rw [run, error_bind]
    exact ⟨False.elim, fun safe => by omega⟩
  rw [List.length_drop] at there
  rw [run, ok_bind]
  simp only [List.drop_drop]
  have present : 8 + lct.tsiOctets + lct.toiOctets ≤ data.length := by omega
  by_cases codepoint : lct.codepoint = 0
  swap
  · rw [if_pos codepoint]
    exact ⟨fun _ => ⟨present, Or.inl (Or.inr codepoint)⟩, fun _ => trivial⟩
  rw [if_neg (not_not.mpr codepoint)]
  have notLater : ¬lct.RefusedLater := fun later => later.elim refuses fun wrong => wrong codepoint
  simp only [present, true_and, notLater, false_or]
  rcases @parseExtensions_ends _ (extHeaderLength lct) _
      { tsi := tsiValue, toi := toiValue, lctHeaderLen := lct.lctHeaderLen }
      (Nat.le_refl (data.drop (8 + lct.tsiOctets + lct.toiOctets)).length) with
    ⟨harmless, refused, what, run⟩ | ⟨harmful, run⟩ | ⟨harmless, accepted, next, same, run⟩
  · rw [run]
    exact ⟨fun _ => ⟨harmless, Or.inl refused⟩, fun _ => trivial⟩
  · have ends : ¬EndsSafely data (parseExtensions (data.drop (8 + lct.tsiOctets + lct.toiOctets)).length
        (data.drop (8 + lct.tsiOctets + lct.toiOctets)) (extHeaderLength lct)
        { tsi := tsiValue, toi := toiValue, lctHeaderLen := lct.lctHeaderLen }) := by
      rcases run with run | run <;> rw [run] <;> exact id
    exact ⟨fun safe => absurd safe ends, fun safe => absurd safe.1 harmful⟩
  · rw [run]
    change _ = data.drop (next.lctHeaderLen * 4) ∧ next.lctHeaderLen * 4 ≤ data.length ↔ _
    rw [same, headerLength_iff narrow noCci refuses present]
    exact ⟨fun safe => ⟨harmless, Or.inr safe⟩, fun safe => safe.2.resolve_left accepted⟩

/-- The constructor is safe on exactly these byte strings. -/
theorem parses_safely_iff (data : List UInt8) : ParsesSafely data ↔ SafeToParse data := by
  unfold ParsesSafely SafeToParse
  cases start : lctHeader? data with
  | none =>
    rw [parseHeader_short start]
    exact ⟨fun _ lct impossible => by simp at impossible, fun _ => trivial⟩
  | some lct =>
    obtain ⟨narrow, run⟩ := parseHeader_eq start
    rw [run]
    simp only [Option.some.injEq, forall_eq']
    by_cases version : lct.version ≠ 1
    · rw [if_pos version]
      exact ⟨fun _ => Or.inl (Or.inl version), fun _ => trivial⟩
    rw [if_neg version]
    by_cases cci : lct.congestionControlFlag ≠ 0
    · rw [if_pos cci]
      exact ⟨fun _ => Or.inl (Or.inr (Or.inl cci)), fun _ => trivial⟩
    rw [if_neg cci]
    by_cases tsi : lct.halfWordFlag = 0 ∧ lct.tsiFlag = 0
    · rw [parseFields, parseTsi, if_pos tsi]
      exact ⟨fun _ => Or.inl (Or.inr (Or.inr tsi)), fun _ => trivial⟩
    have notAtOnce : ¬lct.RefusedAtOnce := by
      rintro (wrong | wrong | wrong)
      · exact version wrong
      · exact cci wrong
      · exact tsi wrong
    rw [parseFields_endsSafely narrow (not_not.mp cci) tsi]
    simp only [notAtOnce, false_or]

/-- An extension of length zero in a header of four words. -/
theorem not_parses_safely : ¬∀ data, ParsesSafely data := by
  intro claim
  have hangs : parseHeader [0x10, 0x10, 4, 0, 0, 0, 0, 0, 0, 0, 0, 1, 0, 0, 0, 0] 16 = .error .hangs := by decide
  have safe := claim [0x10, 0x10, 4, 0, 0, 0, 0, 0, 0, 0, 0, 1, 0, 0, 0, 0]
  change EndsSafely _ (parseHeader [0x10, 0x10, 4, 0, 0, 0, 0, 0, 0, 0, 0, 1, 0, 0, 0, 0] 16) at safe
  rw [hangs] at safe
  exact safe

end AlcPacket
end Libflute
