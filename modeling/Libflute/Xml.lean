import Libflute.Types

/-! What the FDT code reads of an XML document, and how it reads names and numbers. -/

namespace Libflute

/-- An element with its attributes in document order, the text `GetText` gives,
and its child elements. -/
inductive XmlElement
  | mk (name : String) (attributes : List (String × String)) (text : Option String)
      (children : List XmlElement)

namespace XmlElement

def name : XmlElement → String
  | mk name _ _ _ => name

def attributes : XmlElement → List (String × String)
  | mk _ attributes _ _ => attributes

def text : XmlElement → Option String
  | mk _ _ text _ => text

def children : XmlElement → List XmlElement
  | mk _ _ _ children => children

end XmlElement

/-- The name before the first colon and the name behind it. -/
def splitColon (name : String) : Option (String × String) :=
  match name.toList.span (· ≠ ':') with
  | (_, []) => none
  | (before, _ :: behind) => some (.ofList before, .ofList behind)

structure XmlNamespaces where
  defaultNs : String := ""
  prefixToNs : List (String × String) := []

namespace XmlNamespaces

/-- `std::map::insert`: a prefix that is bound keeps its namespace. -/
def bindPrefix (ns : XmlNamespaces) (name uri : String) : XmlNamespaces :=
  if (ns.prefixToNs.lookup name).isSome then ns
  else { ns with prefixToNs := ns.prefixToNs ++ [(name, uri)] }

/-- The declarations of an element on top of those of its parent. -/
def ofElement (element : XmlElement) (parent : XmlNamespaces := {}) : XmlNamespaces :=
  element.attributes.foldl (fun ns attr =>
    if attr.1 = "xmlns" then { ns with defaultNs := attr.2 }
    else if attr.1.toList.take 6 = "xmlns:".toList then
      ns.bindPrefix (.ofList (attr.1.toList.drop 6)) attr.2
    else ns) parent

/-- An unbound prefix stands for itself. -/
def matchesName (ns : XmlNamespaces) (prefixedName name uri : String) : Bool :=
  match splitColon prefixedName with
  | none => name == prefixedName && uri == ns.defaultNs
  | some (before, behind) => name == behind && uri == (ns.prefixToNs.lookup before).getD before

def elementNamespace (ns : XmlNamespaces) (element : XmlElement) : String :=
  match splitColon element.name with
  | none => ns.defaultNs
  | some (before, _) => (ns.prefixToNs.lookup before).getD "<Unknown>"

def matchesElement (ns : XmlNamespaces) (element : XmlElement) (name uri : String) : Bool :=
  (ofElement element ns).matchesName element.name name uri

def findChildElement (ns : XmlNamespaces) (element : XmlElement) (name uri : String) : Option XmlElement :=
  element.children.find? fun child => ns.matchesElement child name uri

/-- The value of an attribute; one without a prefix is in its element's namespace. -/
def findAttribute (ns : XmlNamespaces) (element : XmlElement) (name uri : String) : Option String :=
  (element.attributes.find? fun attr =>
    { ns with defaultNs := ns.elementNamespace element }.matchesName attr.1 name uri).map Prod.snd

end XmlNamespaces

/-- What is left of a string that is passed as a C string. -/
def cString (s : String) : String := .ofList (s.toList.takeWhile (· ≠ '\x00'))

theorem cString_eq_self {s : String} : cString s = s ↔ '\x00' ∉ s.toList := by
  have same : cString s = s ↔ s.toList.takeWhile (· ≠ '\x00') = s.toList := by
    rw [← String.toList_inj, cString, String.toList_ofList]
  rw [same, List.takeWhile_eq_self_iff]
  constructor
  · intro all member
    exact absurd (all _ member) (by simp)
  · intro absent c member
    exact decide_eq_true fun zero => absent (zero ▸ member)

def isSpace (c : Char) : Bool := c == ' ' || ('\t' ≤ c && c ≤ '\r')

def digitValue (c : Char) : Option Nat :=
  if '0' ≤ c ∧ c ≤ '9' then some (c.toNat - '0'.toNat)
  else if 'a' ≤ c ∧ c ≤ 'z' then some (c.toNat - 'a'.toNat + 10)
  else if 'A' ≤ c ∧ c ≤ 'Z' then some (c.toNat - 'A'.toNat + 10)
  else none

/-- The value of the leading digits, if there is a digit. -/
def readDigits (base : Nat) : List Char → Option Nat → Option Nat
  | [], acc => acc
  | c :: rest, acc =>
    match digitValue c with
    | none => acc
    | some d => if d < base then readDigits base rest (some (acc.getD 0 * base + d)) else acc

inductive Conversion
  | noDigits
  | outOfRange
  | value (n : Nat)
  deriving DecidableEq, Repr

/-- What `strtoull` reads; base 0 tells octal and hexadecimal by their prefix. -/
def convertUnsigned (base : Nat) (s : String) : Conversion :=
  let chars := s.toList.dropWhile isSpace
  let (negative, chars) := match chars with
    | '-' :: rest => (true, rest)
    | '+' :: rest => (false, rest)
    | rest => (false, rest)
  let (base, chars) := match base, chars with
    | 0, '0' :: x :: d :: rest =>
      if (x = 'x' ∨ x = 'X') ∧ ((digitValue d).any (· < 16)) then (16, d :: rest) else (8, chars)
    | 0, '0' :: _ => (8, chars)
    | 0, _ => (10, chars)
    | base, _ => (base, chars)
  match readDigits base chars none with
  | none => .noDigits
  | some n =>
    if 2 ^ 64 ≤ n then .outOfRange
    else .value (if negative then (2 ^ 64 - n) % 2 ^ 64 else n)

def strtoul (s : String) : Nat :=
  match convertUnsigned 0 s with
  | .noDigits => 0
  | .outOfRange => 2 ^ 64 - 1
  | .value n => n

def stoull (s : String) : Outcome Nat :=
  match convertUnsigned 10 s with
  | .noDigits => .error (.throws (.exception "stoull"))
  | .outOfRange => .error (.throws (.exception "stoull"))
  | .value n => .ok n

theorem digitValue_of_isDigit {c : Char} (digit : c.isDigit = true) :
    digitValue c = some (c.toNat - '0'.toNat) ∧ c.toNat - '0'.toNat < 10 := by
  have range : 48 ≤ c.toNat ∧ c.toNat ≤ 57 := by
    rw [Char.isDigit, Bool.and_eq_true, decide_eq_true_eq, decide_eq_true_eq] at digit
    exact ⟨digit.1, digit.2⟩
  have zero : '0'.toNat = 48 := rfl
  constructor
  · rw [digitValue, if_pos]
    exact ⟨range.1, range.2⟩
  · omega

theorem readDigits_digits (digits : List Char) (all : ∀ c ∈ digits, c.isDigit = true) (acc : Nat) :
    readDigits 10 digits (some acc) = some (Nat.ofDigitChars 10 digits acc) := by
  induction digits generalizing acc with
  | nil => simp [readDigits]
  | cons c rest ih =>
    obtain ⟨value, small⟩ := digitValue_of_isDigit (all c (by simp))
    rw [readDigits]
    simp only [value, if_pos small, Option.getD_some]
    rw [ih (fun d inRest => all d (by simp [inRest])), Nat.ofDigitChars_cons, Nat.mul_comm]

/-- The decimal digits of a number are read back. -/
theorem readDigits_toDigits (n : Nat) : readDigits 10 (Nat.toDigits 10 n) none = some n := by
  have all : ∀ c ∈ Nat.toDigits 10 n, c.isDigit = true := fun c member =>
    Nat.isDigit_of_mem_toDigits (by decide) (by decide) member
  have value : Nat.ofDigitChars 10 (Nat.toDigits 10 n) 0 = n := Nat.ofDigitChars_ten_toDigits
  cases digits : Nat.toDigits 10 n with
  | nil => exact absurd digits Nat.toDigits_ne_nil
  | cons c rest =>
    rw [digits] at all value
    have start := readDigits_digits (c :: rest) all 0
    rw [value] at start
    rw [← start]
    obtain ⟨isValue, small⟩ := digitValue_of_isDigit (all c (by simp))
    simp only [readDigits, isValue, if_pos small, Option.getD_some, Option.getD_none]

theorem head_toDigits_ne_zero {n : Nat} (positive : 0 < n) : (Nat.toDigits 10 n).head? ≠ some '0' := by
  induction n using Nat.strongRecOn with
  | ind n ih =>
    rw [Nat.toDigits_eq_if (by decide)]
    split
    · next small =>
      intro zero
      simp only [List.head?_cons, Option.some.injEq] at zero
      have value := Nat.toNat_digitChar_of_lt_ten small
      rw [zero] at value
      change 48 = _ at value
      omega
    · next large =>
      have rest := ih (n / 10) (by omega) (by omega)
      cases digits : Nat.toDigits 10 (n / 10) with
      | nil => exact absurd digits Nat.toDigits_ne_nil
      | cons c later => simpa [digits] using rest

theorem isSpace_of_isDigit {c : Char} (digit : c.isDigit = true) : isSpace c = false := by
  rw [Char.isDigit, Bool.and_eq_true, decide_eq_true_eq, decide_eq_true_eq] at digit
  have large : 48 ≤ c.toNat := digit.1
  unfold isSpace
  rw [Bool.or_eq_false_iff, Bool.and_eq_false_iff]
  refine ⟨beq_eq_false_iff_ne.mpr fun same => ?_, Or.inr (decide_eq_false fun le => ?_)⟩
  · subst same
    exact absurd large (by decide)
  · have bound : c.toNat ≤ 13 := le
    omega

/-- A string of digits is read in base 10, but in base 8 if it starts with a
zero and the base is to be told from it. -/
theorem convertUnsigned_digits {base : Nat} (decimal : base = 0 ∨ base = 10) {s : String} {c : Char}
    {rest : List Char} (list : s.toList = c :: rest) (all : ∀ d ∈ c :: rest, d.isDigit = true) :
    convertUnsigned base s = match readDigits (if base = 0 ∧ c = '0' then 8 else 10) (c :: rest) none with
      | none => .noDigits
      | some n => if 2 ^ 64 ≤ n then .outOfRange else .value n := by
  have digit := all c (by simp)
  have other : ∀ d : Char, d.isDigit = false → c ≠ d := fun d not same => by
    rw [same, not] at digit
    cases digit
  have chars : s.toList.dropWhile isSpace = c :: rest := by
    rw [list, List.dropWhile_cons, isSpace_of_isDigit digit]
    rfl
  have unsigned : (match c :: rest with
      | '-' :: later => (true, later)
      | '+' :: later => (false, later)
      | later => (false, later)) = (false, c :: rest) := by
    split
    · next same => exact absurd (List.cons.inj same).1 (other '-' (by decide))
    · next same => exact absurd (List.cons.inj same).1 (other '+' (by decide))
    · rfl
  have inBase : (match base, c :: rest with
      | 0, '0' :: x :: d :: later =>
        if (x = 'x' ∨ x = 'X') ∧ ((digitValue d).any (· < 16)) then (16, d :: later) else (8, c :: rest)
      | 0, '0' :: _ => (8, c :: rest)
      | 0, _ => (10, c :: rest)
      | base, _ => (base, c :: rest)) = (if base = 0 ∧ c = '0' then 8 else 10, c :: rest) := by
    rcases decimal with rfl | rfl
    · split
      · next x d later _ same =>
        obtain ⟨rfl, rfl⟩ := List.cons.inj same
        have second := all x (by simp)
        have noHex : ¬ ((x = 'x' ∨ x = 'X') ∧ ((digitValue d).any (· < 16)) = true) := by
          rintro ⟨rfl | rfl, _⟩ <;> exact absurd second (by decide)
        rw [if_neg noHex, if_pos ⟨rfl, rfl⟩]
      · next same => rw [(List.cons.inj same).1, if_pos ⟨rfl, rfl⟩]
      · next notZero =>
        have plain : ¬ ((0 : Nat) = 0 ∧ c = '0') := fun zero => notZero rest (by rw [zero.2])
        rw [if_neg plain]
      · next never _ _ => exact absurd rfl never
    · rfl
  unfold convertUnsigned
  dsimp only
  rw [chars, unsigned, inBase]
  cases readDigits (if base = 0 ∧ c = '0' then 8 else 10) (c :: rest) none with
  | none => rfl
  | some n => rfl

theorem convertUnsigned_toString {base n : Nat} (decimal : base = 0 ∨ base = 10) (small : n < 2 ^ 64) :
    convertUnsigned base (toString n) = .value n := by
  rcases Nat.eq_zero_or_pos n with rfl | positive
  · rcases decimal with rfl | rfl <;> decide
  have digits := readDigits_toDigits n
  have first := head_toDigits_ne_zero positive
  have isDigit : ∀ d ∈ Nat.toDigits 10 n, d.isDigit = true := fun d member =>
    Nat.isDigit_of_mem_toDigits (by decide) (by decide) member
  have list : (toString n).toList = Nat.toDigits 10 n := by
    rw [Nat.toString_eq_ofList_toDigits, String.toList_ofList]
  cases chars : Nat.toDigits 10 n with
  | nil => exact absurd chars Nat.toDigits_ne_nil
  | cons c rest =>
    rw [chars] at digits first isDigit list
    have notZero : ¬ (base = 0 ∧ c = '0') := fun zero => first (by simp [zero.2])
    rw [convertUnsigned_digits decimal list isDigit, if_neg notZero, digits]
    exact if_neg (by omega)

theorem strtoul_toString {n : Nat} (small : n < 2 ^ 64) : strtoul (toString n) = n := by
  rw [strtoul, convertUnsigned_toString (Or.inl rfl) small]

theorem stoull_toString {n : Nat} (small : n < 2 ^ 64) : stoull (toString n) = .ok n := by
  rw [stoull, convertUnsigned_toString (Or.inr rfl) small]

end Libflute
