import Libflute.SampleEnv
import Libflute.Scope

/-! For which documents the FDT parser ends well, and what its numbers are. -/

namespace Libflute

/-- The value of a text that is a decimal numeral. -/
def decimalValue (s : String) : Option Nat :=
  if s.toList ≠ [] ∧ s.toList.all Char.isDigit then some (Nat.ofDigitChars 10 s.toList 0) else none

/-- A decimal numeral below a limit that is not taken for an octal one. -/
def Numeral (limit : Nat) (s : String) : Prop :=
  ∃ n, decimalValue s = some n ∧ n < limit ∧ (s.toList.head? = some '0' → n < 8)

section digits
variable {digits : List Char} (all : ∀ c ∈ digits, c.isDigit = true)
include all

theorem ofDigitChars_ge (b : Nat) : b ≤ Nat.ofDigitChars 10 digits b := by
  induction digits generalizing b with
  | nil => exact le_rfl
  | cons c rest ih =>
    rw [Nat.ofDigitChars_cons]
    refine le_trans ?_ (ih (fun d member => all d (List.mem_cons_of_mem _ member)) _)
    omega

/-- What is read in base 8 never exceeds what is read in base 10, and stays behind it. -/
theorem readOctal_le {a b : Nat} (le : a ≤ b) :
    ∃ o, readDigits 8 digits (some a) = some o ∧ o ≤ Nat.ofDigitChars 10 digits b ∧
      (a < b → o < Nat.ofDigitChars 10 digits b) := by
  induction digits generalizing a b with
  | nil => exact ⟨a, rfl, le, id⟩
  | cons c rest ih =>
    have others : ∀ d ∈ rest, d.isDigit = true := fun d member => all d (List.mem_cons_of_mem _ member)
    obtain ⟨value, small⟩ := digitValue_of_isDigit (all c (by simp))
    rw [readDigits]
    simp only [value, Option.getD_some]
    rw [Nat.ofDigitChars_cons]
    split
    · obtain ⟨o, read, le', lt'⟩ := ih others (a := a * 8 + (c.toNat - '0'.toNat))
        (b := 10 * b + (c.toNat - '0'.toNat)) (by omega)
      exact ⟨o, read, le', fun lt => lt' (by omega)⟩
    · have bound := ofDigitChars_ge others (10 * b + (c.toNat - '0'.toNat))
      exact ⟨a, rfl, by omega, fun lt => by omega⟩

/-- The two readings agree on numbers of one octal digit only. -/
theorem readOctal_eq_iff : ∃ o, readDigits 8 digits (some 0) = some o ∧ o ≤ Nat.ofDigitChars 10 digits 0 ∧
    (o = Nat.ofDigitChars 10 digits 0 ↔ Nat.ofDigitChars 10 digits 0 < 8) := by
  induction digits with
  | nil => exact ⟨0, rfl, le_rfl, by simp⟩
  | cons c rest ih =>
    have others : ∀ d ∈ rest, d.isDigit = true := fun d member => all d (List.mem_cons_of_mem _ member)
    obtain ⟨value, small⟩ := digitValue_of_isDigit (all c (by simp))
    rw [readDigits]
    simp only [value, Option.getD_some, Nat.zero_mul, Nat.zero_add]
    rw [Nat.ofDigitChars_cons, Nat.mul_zero, Nat.zero_add]
    set d := c.toNat - '0'.toNat
    split
    · next octal =>
      rcases Nat.eq_zero_or_pos d with zero | positive
      · rw [zero]
        exact ih others
      · cases rest with
        | nil => exact ⟨d, rfl, le_rfl, iff_of_true rfl octal⟩
        | cons e later =>
          have smaller : ∃ o, readDigits 8 (e :: later) (some d) = some o ∧
              o < Nat.ofDigitChars 10 (e :: later) d := by
            have last : ∀ x ∈ later, x.isDigit = true := fun x member => others x (List.mem_cons_of_mem _ member)
            obtain ⟨value', small'⟩ := digitValue_of_isDigit (others e (by simp))
            rw [readDigits]
            simp only [value', Option.getD_some]
            rw [Nat.ofDigitChars_cons]
            split
            · obtain ⟨o, read, _, lt⟩ := readOctal_le last (a := d * 8 + (e.toNat - '0'.toNat))
                (b := 10 * d + (e.toNat - '0'.toNat)) (by omega)
              exact ⟨o, read, lt (by omega)⟩
            · have bound := ofDigitChars_ge last (10 * d + (e.toNat - '0'.toNat))
              exact ⟨d, rfl, by omega⟩
          have large : 8 ≤ Nat.ofDigitChars 10 (e :: later) d := by
            have last : ∀ x ∈ later, x.isDigit = true := fun x member => others x (List.mem_cons_of_mem _ member)
            have bound := ofDigitChars_ge last (10 * d + (e.toNat - '0'.toNat))
            rw [Nat.ofDigitChars_cons]
            omega
          obtain ⟨o, read, lt⟩ := smaller
          exact ⟨o, read, lt.le, iff_of_false lt.ne (not_lt.mpr large)⟩
    · next high =>
      have bound := ofDigitChars_ge others d
      exact ⟨0, rfl, Nat.zero_le _, iff_of_false (by omega) (by omega)⟩

end digits

/-- The number that a field gets is the value of its attribute exactly for a
decimal numeral that fits and does not look octal. -/
theorem stored_iff {limit : Nat} (small : limit ≤ 2 ^ 32) (s : String) :
    (decimalValue s = some (toU32 (strtoul s)) ∧ toU32 (strtoul s) < limit) ↔ Numeral limit s := by
  unfold Numeral
  by_cases numeral : s.toList ≠ [] ∧ s.toList.all Char.isDigit = true
  swap
  · have none : decimalValue s = none := if_neg numeral
    simp [none]
  have value : decimalValue s = some (Nat.ofDigitChars 10 s.toList 0) := if_pos numeral
  obtain ⟨c, rest, list⟩ := List.exists_cons_of_ne_nil numeral.1
  have all : ∀ d ∈ c :: rest, d.isDigit = true := by
    rw [← list]
    exact List.all_eq_true.mp numeral.2
  have read := convertUnsigned_digits (Or.inl rfl) list all
  obtain ⟨isValue, digit⟩ := digitValue_of_isDigit (all c (by simp))
  rw [value, list]
  simp only [Option.some.injEq, List.head?_cons]
  set n := Nat.ofDigitChars 10 (c :: rest) 0 with isN
  -- what is read of the digits, in base 8 or 10
  obtain ⟨o, read', same⟩ : ∃ o, readDigits (if c = '0' then 8 else 10) (c :: rest) none = some o ∧ o ≤ n ∧
      (o = n ↔ (c = '0' → n < 8)) := by
    by_cases zero : c = '0'
    · obtain ⟨o, octal, le, iff⟩ := readOctal_eq_iff all
      refine ⟨o, ?_, le, iff.trans ⟨fun few _ => few, fun few => few zero⟩⟩
      rw [if_pos zero, ← octal]
      subst zero
      rfl
    · refine ⟨n, ?_, le_rfl, iff_of_true rfl fun same => absurd same zero⟩
      have digits := readDigits_digits (c :: rest) all 0
      rw [← isN] at digits
      rw [if_neg zero, ← digits]
      simp only [readDigits, isValue, if_pos digit, Option.getD_some, Option.getD_none]
  simp only [true_and] at read
  rw [read'] at read
  obtain ⟨le, iff⟩ := same
  have stored : strtoul s = if 2 ^ 64 ≤ o then 2 ^ 64 - 1 else o := by
    rw [strtoul, read]
    dsimp only
    by_cases large : 2 ^ 64 ≤ o
    · rw [if_pos large, if_pos large]
    · rw [if_neg large, if_neg large]
  rw [stored, toU32]
  constructor
  · rintro ⟨same, fits⟩
    refine ⟨n, rfl, by omega, iff.mp ?_⟩
    split at same <;> omega
  · rintro ⟨m, rfl, fits, octal⟩
    have equal := iff.mpr octal
    rw [if_neg (by omega)]
    omega

namespace FileDeliveryTable

/-- A numeric attribute, the limit of its values, the field it is read into, and what
the field has when the attribute is absent. -/
structure NumericField (α : Type) where
  name : String
  limit : Nat
  value : α → Nat
  absent : α → Nat

/-- The numeric attributes of the root element. The scheme is an enumeration on an `int`. -/
def rootNumbers : List (NumericField FecOti) := [
  ⟨"FEC-OTI-FEC-Encoding-ID", 2 ^ 31, fun fecOti => fecOti.encodingId.code, fun _ => 0⟩,
  ⟨"FEC-OTI-FEC-Instance-ID", 2 ^ 32, FecOti.instanceId, fun _ => 0⟩,
  ⟨"FEC-OTI-Maximum-Source-Block-Length", 2 ^ 32, FecOti.maxSourceBlockLength, fun _ => 0⟩,
  ⟨"FEC-OTI-Encoding-Symbol-Length", 2 ^ 32, FecOti.encodingSymbolLength, fun _ => 0⟩,
  ⟨"FEC-OTI-Max-Number-of-Encoding-Symbols", 2 ^ 32, FecOti.maxNumberOfEncodingSymbols, fun _ => 0⟩]

/-- The numeric attributes of a File element. -/
def fileNumbers (globalFecOti : FecOti) : List (NumericField FileEntry) :=
  ⟨"TOI", 2 ^ 32, FileEntry.toi, fun _ => 0⟩ ::
    ⟨"Content-Length", 2 ^ 32, FileEntry.contentLength, fun _ => 0⟩ ::
    ⟨"Transfer-Length", 2 ^ 32, fun fe => fe.fecOti.transferLength, FileEntry.contentLength⟩ ::
    rootNumbers.map fun field =>
      ⟨field.name, field.limit, fun fe => field.value fe.fecOti, fun _ => field.value globalFecOti⟩

section numbers
variable {α : Type} (numbers : List (NumericField α)) (attr found : String → Option String)

/-- Every numeric attribute that is there has its decimal value in its field. -/
def StoresNumbers (a : α) : Prop := ∀ field ∈ numbers,
  (∀ s, attr field.name = some s → decimalValue s = some (field.value a) ∧ field.value a < field.limit) ∧
    (attr field.name = none → field.value a = field.absent a)

/-- Every numeric attribute that is there is a numeral, where the code finds it. Where it
finds another one in its place, or none, the number it takes instead has the same value. -/
def KeepsNumbers (a : α) : Prop := ∀ field ∈ numbers,
  (∀ s, attr field.name = some s → (found field.name = some s ∧ Numeral field.limit s) ∨
    found field.name ≠ some s ∧ decimalValue s = some (field.value a) ∧ field.value a < field.limit) ∧
  (attr field.name = none → found field.name = none ∨ found field.name ≠ none ∧ field.value a = field.absent a)

/-- What the parser puts into the fields of the attributes that it looks for. -/
structure ReadsNumber (field : NumericField α) (a : α) : Prop where
  limit : field.limit ≤ 2 ^ 32
  present : ∀ s, found field.name = some s → field.value a = toU32 (strtoul s)
  absent : found field.name = none → field.value a = field.absent a

variable {numbers attr found}

theorem stores_iff_keeps {a : α} (reads : ∀ field ∈ numbers, ReadsNumber found field a) :
    StoresNumbers numbers attr a ↔ KeepsNumbers numbers attr found a := by
  refine forall₂_congr fun field member => and_congr (forall₂_congr fun s _ => ?_) (imp_congr_right fun _ => ?_)
  · by_cases present : found field.name = some s
    · rw [(reads field member).present s present, stored_iff (reads field member).limit s]
      simp [present]
    · simp [present]
  · by_cases absent : found field.name = none
    · simp [absent, (reads field member).absent absent]
    · simp [absent]

end numbers

theorem code_schemeOr {default : FecScheme} {s : String} : (schemeOr default (some s)).code = toU32 (strtoul s) := by
  rw [schemeOr, FecScheme.ofCode, toU32]
  split
  · next zero => exact zero.symm
  · rfl

/-- The FEC parameters that attributes give over those of a default. -/
def fecOtiOf (default : FecOti) (transferLength : Nat) (attr : String → Option String) : FecOti where
  encodingId := schemeOr default.encodingId (attr "FEC-OTI-FEC-Encoding-ID")
  instanceId := numberOr default.instanceId (attr "FEC-OTI-FEC-Instance-ID")
  transferLength := transferLength
  encodingSymbolLength := numberOr default.encodingSymbolLength (attr "FEC-OTI-Encoding-Symbol-Length")
  maxSourceBlockLength := numberOr default.maxSourceBlockLength (attr "FEC-OTI-Maximum-Source-Block-Length")
  maxNumberOfEncodingSymbols :=
    numberOr default.maxNumberOfEncodingSymbols (attr "FEC-OTI-Max-Number-of-Encoding-Symbols")

/-- The numbers that the attributes of a File element give. -/
def numbersOf (globalFecOti : FecOti) (attr : String → Option String) : FileEntry where
  toi := numberOr 0 (attr "TOI")
  contentLength := numberOr 0 (attr "Content-Length")
  fecOti := fecOtiOf globalFecOti (numberOr (numberOr 0 (attr "Content-Length")) (attr "Transfer-Length")) attr

theorem readsNumbers_fecOti (default : FecOti) (transferLength : Nat) (attr : String → Option String) :
    ∀ field ∈ rootNumbers, field.limit ≤ 2 ^ 32 ∧
      (∀ s, attr field.name = some s → field.value (fecOtiOf default transferLength attr) = toU32 (strtoul s)) ∧
      (attr field.name = none → field.value (fecOtiOf default transferLength attr) = field.value default) := by
  intro field member
  simp only [rootNumbers, List.mem_cons, List.not_mem_nil, or_false] at member
  rcases member with rfl | rfl | rfl | rfl | rfl <;>
    refine ⟨by decide, fun s present => ?_, fun absent => ?_⟩
  all_goals simp only [fecOtiOf] at *
  · rw [present]
    exact code_schemeOr
  · rw [absent]
    rfl
  all_goals
    first | rw [present] | rw [absent]
    rfl

/-- The fields of the root. -/
theorem readsNumber_root (attr : String → Option String) :
    ∀ field ∈ rootNumbers, ReadsNumber attr field (fecOtiOf {} 0 attr) := fun field member => by
  obtain ⟨limit, present, absent⟩ := readsNumbers_fecOti {} 0 attr field member
  refine ⟨limit, present, fun none => (absent none).trans ?_⟩
  simp only [rootNumbers, List.mem_cons, List.not_mem_nil, or_false] at member
  rcases member with rfl | rfl | rfl | rfl | rfl <;> rfl

/-- The fields of an entry. -/
theorem readsNumber_file (globalFecOti : FecOti) (attr : String → Option String) :
    ∀ field ∈ fileNumbers globalFecOti, ReadsNumber attr field (numbersOf globalFecOti attr) := by
  intro field member
  simp only [fileNumbers, List.mem_cons, List.mem_map] at member
  rcases member with rfl | rfl | rfl | ⟨field, member, rfl⟩
  iterate 3
    refine ⟨le_rfl, fun s present => ?_, fun absent => ?_⟩ <;> simp only [numbersOf, fecOtiOf] at *
    · rw [present]
      rfl
    · rw [absent]
      rfl
  obtain ⟨limit, present, absent⟩ := readsNumbers_fecOti globalFecOti _ attr field member
  exact ⟨limit, present, absent⟩

section files
variable (globalFecOti : FecOti) (rootNs : XmlNamespaces) (fdtNs : String)

/-- The attributes the code finds of a File element in the namespace of the table. -/
def fileAttribute (file : XmlElement) (name : String) : Option String :=
  (XmlNamespaces.ofElement file rootNs).findAttribute file name fdtNs

/-- An entry that says what the attributes of its File element say. -/
structure EntryOf (attr : String → Option String) (fe : FileEntry) : Prop where
  toi : attr "TOI" ≠ none
  contentLocation : attr "Content-Location" = some fe.contentLocation
  numbers : StoresNumbers (fileNumbers globalFecOti) attr fe

/-- An Expires element of a Cache-Control element has a text. -/
def HasExpiresText (file : XmlElement) : Prop :=
  ∀ cc expires, (XmlNamespaces.ofElement file rootNs).findChildElement file "Cache-Control" mbms2007Ns = some cc →
    (XmlNamespaces.ofElement cc (.ofElement file rootNs)).findChildElement cc "Expires" mbms2007Ns = some expires →
    expires.text ≠ none

/-- The code finds what it needs of a File element. -/
structure HasRequired (file : XmlElement) : Prop where
  toi : fileAttribute rootNs fdtNs file "TOI" ≠ none
  contentLocation : fileAttribute rootNs fdtNs file "Content-Location" ≠ none
  expires : HasExpiresText rootNs file

/-- The File elements that the code finds, in document order. -/
def fileElements (children : List XmlElement) : List XmlElement :=
  children.filter fun child => rootNs.matchesElement child "File" fdtNs

/-- What the code finds of a File element says what its attributes say. -/
structure KeepsFile (attr : String → Option String) (file : XmlElement) : Prop where
  toi : attr "TOI" ≠ none
  contentLocation : attr "Content-Location" = fileAttribute rootNs fdtNs file "Content-Location"
  numbers : KeepsNumbers (fileNumbers globalFecOti) attr (fileAttribute rootNs fdtNs file)
    (numbersOf globalFecOti (fileAttribute rootNs fdtNs file))

variable {rootNs} in
theorem parseCacheControl_cases (file : XmlElement) :
    (HasExpiresText rootNs file ∧ ∃ cc, parseCacheControl (.ofElement file rootNs) file = .ok cc) ∨
    (¬ HasExpiresText rootNs file ∧ parseCacheControl (.ofElement file rootNs) file = .error .undefined) := by
  unfold parseCacheControl HasExpiresText
  cases found : (XmlNamespaces.ofElement file rootNs).findChildElement file "Cache-Control" mbms2007Ns with
  | none => exact Or.inl ⟨fun _ _ absent => (by cases absent), _, rfl⟩
  | some cc =>
    cases inner : (XmlNamespaces.ofElement cc (.ofElement file rootNs)).findChildElement cc "Expires" mbms2007Ns with
    | none =>
      refine Or.inl ⟨?_, ?_⟩
      · rintro _ _ ⟨⟩ absent
        rw [inner] at absent
        cases absent
      · simp only [inner]
        exact ⟨_, rfl⟩
    | some expires =>
      cases text : expires.text with
      | none =>
        refine Or.inr ⟨fun all => all cc expires rfl inner text, ?_⟩
        simp only [inner, text]
        rfl
      | some t =>
        refine Or.inl ⟨?_, ?_⟩
        · rintro _ _ ⟨⟩ same
          rw [inner] at same
          obtain rfl := Option.some.inj same
          simp [text]
        · simp only [inner, text]
          exact ⟨_, rfl⟩

/-- An entry that was read from a File element. -/
structure ReadFrom (file : XmlElement) (fe : FileEntry) : Prop where
  required : HasRequired rootNs fdtNs file
  contentLocation : fileAttribute rootNs fdtNs file "Content-Location" = some fe.contentLocation
  numbers : ∀ field ∈ fileNumbers globalFecOti,
    field.value fe = field.value (numbersOf globalFecOti (fileAttribute rootNs fdtNs file)) ∧
    field.absent fe = field.absent (numbersOf globalFecOti (fileAttribute rootNs fdtNs file))

variable {globalFecOti rootNs fdtNs} in
theorem ReadFrom.entryOf_iff {file : XmlElement} {fe : FileEntry} (read : ReadFrom globalFecOti rootNs fdtNs file fe)
    (attr : String → Option String) :
    EntryOf globalFecOti attr fe ↔ KeepsFile globalFecOti rootNs fdtNs attr file := by
  have same : StoresNumbers (fileNumbers globalFecOti) attr fe ↔
      StoresNumbers (fileNumbers globalFecOti) attr (numbersOf globalFecOti (fileAttribute rootNs fdtNs file)) :=
    forall₂_congr fun field member => by rw [(read.numbers field member).1, (read.numbers field member).2]
  have keeps := same.trans (stores_iff_keeps (readsNumber_file globalFecOti (fileAttribute rootNs fdtNs file)))
  constructor
  · rintro ⟨toi, location, numbers⟩
    exact ⟨toi, location.trans read.contentLocation.symm, keeps.mp numbers⟩
  · rintro ⟨toi, location, numbers⟩
    exact ⟨toi, location.trans read.contentLocation, keeps.mpr numbers⟩

variable {globalFecOti rootNs fdtNs} in
theorem ReadFrom.all_iff {files : List XmlElement} {entries : List FileEntry}
    (read : List.Forall₂ (ReadFrom globalFecOti rootNs fdtNs) files entries)
    (attrs : List (String → Option String)) :
    List.Forall₂ (EntryOf globalFecOti) attrs entries ↔ List.Forall₂ (KeepsFile globalFecOti rootNs fdtNs) attrs files := by
  induction read generalizing attrs with
  | nil => rw [List.forall₂_nil_right_iff, List.forall₂_nil_right_iff]
  | cons first _ ih =>
    cases attrs with
    | nil => exact iff_of_false (fun none => by cases none) fun none => by cases none
    | cons attr rest => rw [List.forall₂_cons, List.forall₂_cons, ih, first.entryOf_iff]

/-- One File element gives an entry, or a failure that the receiver does not catch. -/
theorem parseFile_cases (file : XmlElement) :
    (∃ fe, parseFile globalFecOti rootNs fdtNs file = .ok fe ∧ ReadFrom globalFecOti rootNs fdtNs file fe) ∨
    (¬ HasRequired rootNs fdtNs file ∧ ∃ e, parseFile globalFecOti rootNs fdtNs file = .error e ∧ e.Uncaught) := by
  have named : ∀ name, (XmlNamespaces.ofElement file rootNs).findAttribute file name fdtNs =
      fileAttribute rootNs fdtNs file name := fun _ => rfl
  simp only [parseFile, named]
  cases toi : fileAttribute rootNs fdtNs file "TOI" with
  | none => exact Or.inr ⟨fun has => has.toi toi, _, rfl, Abort.uncaught_literal _⟩
  | some toiText =>
    cases location : fileAttribute rootNs fdtNs file "Content-Location" with
    | none => exact Or.inr ⟨fun has => has.contentLocation location, _, rfl, Abort.uncaught_literal _⟩
    | some locationText =>
      rcases parseCacheControl_cases file with ⟨text, cc, run⟩ | ⟨noText, run⟩
      · rw [run]
        refine Or.inl ⟨_, rfl, ⟨by simp [toi], by simp [location], text⟩, location, fun field member => ?_⟩
        simp only [fileNumbers, List.mem_cons, List.mem_map] at member
        rcases member with rfl | rfl | rfl | ⟨field, member, rfl⟩
        · exact ⟨by simp only [numbersOf, toi]; rfl, rfl⟩
        · exact ⟨rfl, rfl⟩
        · exact ⟨rfl, rfl⟩
        · exact ⟨rfl, rfl⟩
      · rw [run]
        exact Or.inr ⟨fun has => noText has.expires, _, rfl, Abort.uncaught_undefined⟩

/-- The loop gives one entry for each File element that the code finds, in their order. -/
theorem parseFiles_cases (children : List XmlElement) :
    (∃ entries, parseFiles globalFecOti rootNs fdtNs children = .ok entries ∧
      (∀ file ∈ fileElements rootNs fdtNs children, HasRequired rootNs fdtNs file) ∧
      List.Forall₂ (ReadFrom globalFecOti rootNs fdtNs) (fileElements rootNs fdtNs children) entries) ∨
    ((¬ ∀ file ∈ fileElements rootNs fdtNs children, HasRequired rootNs fdtNs file) ∧
      ∃ e, parseFiles globalFecOti rootNs fdtNs children = .error e ∧ e.Uncaught) := by
  induction children with
  | nil => exact Or.inl ⟨[], rfl, by simp [fileElements], .nil⟩
  | cons child rest ih =>
    rw [parseFiles, fileElements, List.filter_cons]
    split
    · rcases parseFile_cases globalFecOti rootNs fdtNs child with ⟨fe, run, read⟩ | ⟨lacks, e, run, uncaught⟩
      · rw [run]
        rcases ih with ⟨entries, later, has, reads⟩ | ⟨lacks, e, later, uncaught⟩
        · rw [later]
          exact Or.inl ⟨fe :: entries, rfl, List.forall_mem_cons.mpr ⟨read.required, has⟩, .cons read reads⟩
        · rw [later]
          exact Or.inr ⟨fun all => lacks fun file member => all file (List.mem_cons_of_mem _ member),
            e, rfl, uncaught⟩
      · rw [run]
        exact Or.inr ⟨fun all => lacks (all child List.mem_cons_self), e, rfl, uncaught⟩
    · exact ih

end files

section document
variable (env : Env) (instanceId : Nat) (buffer : List UInt8)

/-- The attributes the code finds of the root in its own namespace. -/
def rootAttribute (root : XmlElement) (name : String) : Option String :=
  let rootNs := XmlNamespaces.ofElement root
  rootNs.findAttribute root name (rootNs.elementNamespace root)

/-- The FEC parameters that the code finds in the root. -/
def rootFecOti (root : XmlElement) : FecOti := fecOtiOf {} 0 (rootAttribute root)

/-- The attributes of the File elements in the namespace of a table, in document order,
by the declarations of the document. -/
def declaredFiles (root : XmlElement) (fdtNs : String) : List (String → Option String) :=
  let inner := Scope.enter .innermost {} root.attributes
  (root.children.filter fun child => inner.elementName .innermost child = some (fdtNs, "File")).map fun file =>
    inner.attributeValue .innermost file fdtNs

/-- A table that says what the document says: one entry for each File element in
the namespace of the root, in document order, and numbers that are those of the attributes. -/
def TableOf (root : XmlElement) (fdt : FileDeliveryTable) : Prop :=
  ∃ fdtNs name, Scope.elementName .innermost {} root = some (fdtNs, name) ∧
    List.Forall₂ (EntryOf fdt.globalFecOti) (declaredFiles root fdtNs) fdt.fileEntries ∧
    StoresNumbers rootNumbers (Scope.attributeValue .innermost {} root fdtNs) fdt.globalFecOti

/-- The parser ends with the table of the document, or with an exception of the
standard library. -/
def ParsesSafely : Prop :=
  match parse env instanceId buffer with
  | .ok fdt => ∃ root, env.parseXml buffer = some root ∧ TableOf root fdt
  | .error e => ∃ what, e = .throws (.exception what)

/-- A root element of a table in a known namespace that has an Expires attribute. -/
structure FineRoot (root : XmlElement) (expires : String) : Prop where
  name : (XmlNamespaces.ofElement root).matchesName root.name "FDT-Instance"
    ((XmlNamespaces.ofElement root).elementNamespace root) = true
  known : namespaceOfUri ((XmlNamespaces.ofElement root).elementNamespace root) ≠ none
  expires : rootAttribute root "Expires" = some expires

/-- No File element that the code finds lacks what the parser needs. The code finds as
many as the document declares, and what it finds of each, and of the root, says what
the document says. -/
structure FineContent (root : XmlElement) : Prop where
  required : ∀ file ∈ fileElements (.ofElement root) ((XmlNamespaces.ofElement root).elementNamespace root)
    root.children, HasRequired (.ofElement root) ((XmlNamespaces.ofElement root).elementNamespace root) file
  declared : ∃ fdtNs name, Scope.elementName .innermost {} root = some (fdtNs, name) ∧
    List.Forall₂ (KeepsFile (rootFecOti root) (.ofElement root) ((XmlNamespaces.ofElement root).elementNamespace root))
      (declaredFiles root fdtNs)
      (fileElements (.ofElement root) ((XmlNamespaces.ofElement root).elementNamespace root) root.children) ∧
    KeepsNumbers rootNumbers (Scope.attributeValue .innermost {} root fdtNs) (rootAttribute root) (rootFecOti root)

/-- An expiry that `stoull` refuses ends the parser before it reads the File elements. -/
def FineDocument : Prop := ∃ root expires, env.parseXml buffer = some root ∧ FineRoot root expires ∧
  ((∀ n, stoull expires ≠ .ok n) ∨ FineContent root)

theorem stoull_cases (s : String) : (∃ n, stoull s = .ok n) ∨ stoull s = .error (.throws (.exception "stoull")) := by
  unfold stoull
  split
  · exact Or.inr rfl
  · exact Or.inr rfl
  · exact Or.inl ⟨_, rfl⟩

variable {env buffer}

/-- Behind a good root the parser reads the expiry, and then the File elements. -/
theorem parse_of_fineRoot {root : XmlElement} {expires : String} (parsed : env.parseXml buffer = some root)
    (fine : FineRoot root expires) : ∃ fdtNamespace, parse env instanceId buffer = (do
      let exp ← stoull expires
      let fileEntries ← parseFiles (rootFecOti root) (.ofElement root)
        ((XmlNamespaces.ofElement root).elementNamespace root) root.children
      pure { create instanceId (rootFecOti root) fdtNamespace with fileEntries := fileEntries, expires := exp }) := by
  obtain ⟨fdtNamespace, known⟩ := Option.ne_none_iff_exists'.mp fine.known
  have attr : ∀ name, (XmlNamespaces.ofElement root).findAttribute root name
      ((XmlNamespaces.ofElement root).elementNamespace root) = rootAttribute root name := fun _ => rfl
  refine ⟨fdtNamespace, ?_⟩
  unfold parse
  simp only [parsed, inBounds_some, ok_bind, fine.name, known, attr, fine.expires, Bool.not_true,
    Bool.false_eq_true, if_false]
  rfl

theorem parse_of_not_fineRoot
    (notFine : ∀ root expires, env.parseXml buffer = some root → ¬ FineRoot root expires) :
    ∃ e, parse env instanceId buffer = .error e ∧ e.Uncaught := by
  unfold parse
  cases parsed : env.parseXml buffer with
  | none => exact ⟨_, rfl, Abort.uncaught_undefined⟩
  | some root =>
    have notFine := fun expires => notFine root expires parsed
    simp only [inBounds_some, ok_bind]
    split
    · exact ⟨_, rfl, Abort.uncaught_literal _⟩
    · next named =>
      cases known : namespaceOfUri ((XmlNamespaces.ofElement root).elementNamespace root) with
      | none => exact ⟨_, rfl, Abort.uncaught_literal _⟩
      | some fdtNamespace =>
        cases expires : rootAttribute root "Expires" with
        | none =>
          have absent : (XmlNamespaces.ofElement root).findAttribute root "Expires"
              ((XmlNamespaces.ofElement root).elementNamespace root) = none := expires
          simp only [absent]
          exact ⟨_, rfl, Abort.uncaught_undefined⟩
        | some text =>
          refine absurd ⟨?_, by simp [known], expires⟩ (notFine text)
          simpa using named

/-- The table that was read says what the document says exactly when what the code found does. -/
theorem tableOf_iff {root : XmlElement} (fdt : FileDeliveryTable)
    (has : ∀ file ∈ fileElements (.ofElement root) ((XmlNamespaces.ofElement root).elementNamespace root)
      root.children, HasRequired (.ofElement root) ((XmlNamespaces.ofElement root).elementNamespace root) file)
    (global : fdt.globalFecOti = rootFecOti root)
    (reads : List.Forall₂ (ReadFrom (rootFecOti root) (.ofElement root)
        ((XmlNamespaces.ofElement root).elementNamespace root))
      (fileElements (.ofElement root) ((XmlNamespaces.ofElement root).elementNamespace root) root.children)
      fdt.fileEntries) : TableOf root fdt ↔ FineContent root := by
  have numbers : ∀ attr, StoresNumbers rootNumbers attr (rootFecOti root) ↔
      KeepsNumbers rootNumbers attr (rootAttribute root) (rootFecOti root) :=
    fun _ => stores_iff_keeps (readsNumber_root (rootAttribute root))
  unfold TableOf
  rw [global]
  constructor
  · rintro ⟨fdtNs, name, named, entries, stores⟩
    exact ⟨has, fdtNs, name, named, (ReadFrom.all_iff reads _).mp entries, (numbers _).mp stores⟩
  · rintro ⟨_, fdtNs, name, named, files, keeps⟩
    exact ⟨fdtNs, name, named, (ReadFrom.all_iff reads _).mpr files, (numbers _).mpr keeps⟩

/-- The parser ends well exactly for the documents that have all it needs, write their
numbers as numerals of their fields, and lose no declaration that matters. -/
theorem parsesSafely_iff : ParsesSafely env instanceId buffer ↔ FineDocument env buffer := by
  unfold ParsesSafely FineDocument
  by_cases found : ∃ root expires, env.parseXml buffer = some root ∧ FineRoot root expires
  swap
  · -- nothing that fails before the expiry is read is caught
    have notFine : ∀ root expires, env.parseXml buffer = some root → ¬ FineRoot root expires :=
      fun root expires parsed fine => found ⟨root, expires, parsed, fine⟩
    obtain ⟨e, run, uncaught⟩ := parse_of_not_fineRoot instanceId notFine
    rw [run]
    refine iff_of_false (fun ⟨what, same⟩ => uncaught what same) ?_
    rintro ⟨root, expires, parsed, fine, _⟩
    exact notFine root expires parsed fine
  obtain ⟨root, expires, parsed, fine⟩ := found
  have only : ∀ {root' expires'}, env.parseXml buffer = some root' → FineRoot root' expires' →
      root' = root ∧ expires' = expires := by
    intro root' expires' parsed' fine'
    obtain rfl := Option.some.inj (parsed'.symm.trans parsed)
    exact ⟨rfl, Option.some.inj (fine'.expires.symm.trans fine.expires)⟩
  obtain ⟨fdtNamespace, run⟩ := parse_of_fineRoot instanceId parsed fine
  rcases stoull_cases expires with ⟨exp, read⟩ | refused
  swap
  · rw [run, refused]
    refine iff_of_true ⟨_, rfl⟩ ⟨root, expires, parsed, fine, Or.inl fun n ok => ?_⟩
    rw [refused] at ok
    cases ok
  rw [run, read]
  have content : (∃ root expires, env.parseXml buffer = some root ∧ FineRoot root expires ∧
      ((∀ n, stoull expires ≠ .ok n) ∨ FineContent root)) ↔ FineContent root := by
    constructor
    · rintro ⟨root', expires', parsed', fine', refused | content⟩
      · obtain ⟨rfl, rfl⟩ := only parsed' fine'
        exact absurd read (refused exp)
      · obtain ⟨rfl, rfl⟩ := only parsed' fine'
        exact content
    · exact fun content => ⟨root, expires, parsed, fine, Or.inr content⟩
  rw [content]
  rcases parseFiles_cases (rootFecOti root) (.ofElement root) ((XmlNamespaces.ofElement root).elementNamespace root)
    root.children with ⟨entries, ok, has, reads⟩ | ⟨lacks, e, failed, uncaught⟩
  · rw [ok_bind, ok]
    rw [← tableOf_iff { create instanceId (rootFecOti root) fdtNamespace with
      fileEntries := entries, expires := exp } has rfl reads]
    constructor
    · rintro ⟨root', parsed', table⟩
      obtain rfl := Option.some.inj (parsed'.symm.trans parsed)
      exact table
    · exact fun table => ⟨root, parsed, table⟩
  · rw [ok_bind, failed]
    exact iff_of_false (fun ⟨what, same⟩ => uncaught what same) fun content => lacks content.required

end document

/-- A File element whose TOI is that of another object plus 2 to the 32. -/
def strangeToi : XmlElement := .mk "FDT-Instance" [("Expires", "1")] none
  [.mk "File" [("TOI", "4294967297"), ("Content-Location", "a")] none []]

/-- A buffer without a root element, and a TOI that is cut to another object's. -/
theorem not_parsesSafely :
    ¬ (∀ env instanceId buffer, ParsesSafely env instanceId buffer) ∧
    ¬ ParsesSafely (sampleEnv [] []) 0 [] ∧
    ((parse (sampleEnv [strangeToi] []) 0 (printDocument strangeToi)).toOption.map fun fdt =>
      fdt.fileEntries.map FileEntry.toi) = some [1] := by
  have empty : ¬ ParsesSafely (sampleEnv [] []) 0 [] := fun ⟨_, same⟩ => by cases same
  exact ⟨fun all => empty (all _ _ _), empty, by decide +kernel⟩

end FileDeliveryTable
end Libflute
