import Libflute.Library.SinglePrecision

/-! The shared data types of the library, and what one call of C++ code can end in. -/

namespace Libflute

inductive ContentEncoding
  | none | zlib | deflate | gzip
  deriving DecidableEq, Repr

/-- Only one scheme is implemented, but `static_cast<FecScheme>` makes a value
of any number the FDT names. -/
inductive FecScheme
  | compactNoCode
  | other (code : Nat)
  deriving DecidableEq, Repr

def FecScheme.ofCode (code : Nat) : FecScheme :=
  if code % 2 ^ 32 = 0 then .compactNoCode else .other (code % 2 ^ 32)

def FecScheme.code : FecScheme → Nat
  | .compactNoCode => 0
  | .other code => code

structure FecOti where
  encodingId : FecScheme := .compactNoCode
  instanceId : Nat := 0
  transferLength : Nat := 0
  encodingSymbolLength : Nat := 0
  maxSourceBlockLength : Nat := 0
  maxNumberOfEncodingSymbols : Nat := 0
  deriving DecidableEq, Repr

/-- What a `throw` throws. Only the last kind derives from `std::exception`. -/
inductive Thrown
  | literal (text : String)
  | zlibMessage
  | exception (what : String)
  deriving DecidableEq, Repr

/-- How a call can fail to return: by an exception, by never ending, or by
leaving what the language defines. -/
inductive Abort
  | throws (what : Thrown)
  | hangs
  | undefined
  deriving DecidableEq, Repr

/-- No exception that derives from `std::exception`. -/
def Abort.Uncaught (e : Abort) : Prop := ∀ what, e ≠ .throws (.exception what)

theorem Abort.uncaught_literal (text : String) : Abort.Uncaught (.throws (.literal text)) := by
  intro what same
  cases same

theorem Abort.uncaught_undefined : Abort.Uncaught .undefined := by
  intro what same
  cases same

abbrev Outcome (α : Type) := Except Abort α

def throwLiteral {α : Type} (text : String) : Outcome α := .error (.throws (.literal text))

/-- An access through a pointer past the end of what it points into. -/
def inBounds {α : Type} : Option α → Outcome α
  | some a => .ok a
  | none => .error .undefined

@[simp] theorem inBounds_some {α : Type} (a : α) : inBounds (some a) = .ok a := rfl

theorem toOption_eq_some {α : Type} {x : Outcome α} {a : α} : x.toOption = some a ↔ x = .ok a := by
  cases x <;> simp [Except.toOption]

theorem isOk_iff {x : Outcome Unit} : x.isOk = true ↔ x = .ok () := by
  cases x <;> simp [Except.isOk, Except.toBool]

@[simp] theorem ok_bind {α β : Type} (a : α) (f : α → Outcome β) : ((.ok a : Outcome α) >>= f) = f a := rfl

@[simp] theorem error_bind {α β : Type} (e : Abort) (f : α → Outcome β) :
    ((.error e : Outcome α) >>= f) = .error e := rfl

theorem bind_eq_ok {α β : Type} {x : Outcome α} {f : α → Outcome β} {b : β} :
    x >>= f = .ok b ↔ ∃ a, x = .ok a ∧ f a = .ok b := by
  cases x <;> simp

theorem bind_eq_error {α β : Type} {x : Outcome α} {f : α → Outcome β} {e : Abort} :
    x >>= f = .error e ↔ x = .error e ∨ ∃ a, x = .ok a ∧ f a = .error e := by
  cases x <;> simp

theorem inBounds_eq_ok {α : Type} {a : Option α} {b : α} : inBounds a = .ok b ↔ a = some b := by
  cases a <;> simp [inBounds]

theorem inBounds_error {α : Type} {a : Option α} {e : Abort} (run : inBounds a = .error e) : e = .undefined := by
  cases a with
  | none => exact (Except.error.inj run).symm
  | some => cases run

/-- `int n = std::ceil((float)a / (float)b)`. A quotient by zero or past `int`
has no defined conversion. -/
def ceilInt (a b : Nat) : Outcome Nat :=
  if b = 0 ∨ 2 ^ 31 ≤ SinglePrecision.ceilDivide a b then .error .undefined
  else .ok (SinglePrecision.ceilDivide a b)

/-- A number a `uint32_t` keeps; the conversions of out-of-range quotients
follow the target of the build, where infinities and NaN leave zero. -/
def toU32 (n : Nat) : Nat := n % 2 ^ 32

theorem ceilInt_eq_ok {a b n : Nat} :
    ceilInt a b = .ok n ↔ 0 < b ∧ SinglePrecision.ceilDivide a b < 2 ^ 31 ∧ n = SinglePrecision.ceilDivide a b := by
  unfold ceilInt
  split
  · simp only [reduceCtorEq, false_iff]; omega
  · simp only [Except.ok.injEq]; omega

theorem ceilInt_error {a b : Nat} {e : Abort} (run : ceilInt a b = .error e) : e = .undefined := by
  unfold ceilInt at run
  split at run
  · exact (Except.error.inj run).symm
  · cases run

end Libflute
