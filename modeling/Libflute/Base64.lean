import Libflute.Types

/-! The vendored `utils/base64.cpp`. A `std::string` is a `String` with one
character for each byte. -/

namespace Libflute

def base64Chars : List Char := "ABCDEFGHIJKLMNOPQRSTUVWXYZabcdefghijklmnopqrstuvwxyz0123456789+/".toList

def base64Char (i : Nat) : Char := base64Chars.getD i '='

/-- `pos_of_char`, liberal about the url alphabet. -/
def posOfChar (chr : Char) : Outcome Nat :=
  if 'A' ≤ chr ∧ chr ≤ 'Z' then .ok (chr.toNat - 'A'.toNat)
  else if 'a' ≤ chr ∧ chr ≤ 'z' then .ok (chr.toNat - 'a'.toNat + 26)
  else if '0' ≤ chr ∧ chr ≤ '9' then .ok (chr.toNat - '0'.toNat + 52)
  else if chr = '+' ∨ chr = '-' then .ok 62
  else if chr = '/' ∨ chr = '_' then .ok 63
  else .error (.throws (.exception "Input is not valid base64-encoded data."))

def base64EncodeChars : List UInt8 → List Char
  | [] => []
  | [a] =>
    [base64Char (a.toNat / 4), base64Char (a.toNat % 4 * 16), '=', '=']
  | [a, b] =>
    [base64Char (a.toNat / 4), base64Char (a.toNat % 4 * 16 + b.toNat / 16),
      base64Char (b.toNat % 16 * 4), '=']
  | a :: b :: c :: rest =>
    base64Char (a.toNat / 4) :: base64Char (a.toNat % 4 * 16 + b.toNat / 16) ::
      base64Char (b.toNat % 16 * 4 + c.toNat / 64) :: base64Char (c.toNat % 64) ::
      base64EncodeChars rest

def base64Encode (bytes : List UInt8) : String := .ofList (base64EncodeChars bytes)

/-- The bytes of one chunk of up to four characters. A missing second character
is the terminating NUL, which is no base64 character. -/
def base64DecodeChunk (chars : List Char) : Outcome (List UInt8) := do
  let pos1 ← posOfChar (chars.getD 1 '\x00')
  let pos0 ← posOfChar (chars.getD 0 '\x00')
  let first := UInt8.ofNat (pos0 * 4 + pos1 / 16)
  match chars[2]? with
  | none => pure [first]
  | some '=' => pure [first]
  | some '.' => pure [first]
  | some chr2 =>
    let pos2 ← posOfChar chr2
    let second := UInt8.ofNat (pos1 % 16 * 16 + pos2 / 4)
    match chars[3]? with
    | none => pure [first, second]
    | some '=' => pure [first, second]
    | some '.' => pure [first, second]
    | some chr3 =>
      let pos3 ← posOfChar chr3
      pure [first, second, UInt8.ofNat (pos2 % 4 * 64 + pos3)]

def base64DecodeChars : List Char → Outcome (List UInt8)
  | [] => pure []
  | a :: b :: c :: d :: rest => do
    let chunk ← base64DecodeChunk [a, b, c, d]
    let later ← base64DecodeChars rest
    pure (chunk ++ later)
  | last => base64DecodeChunk last

def base64Decode (s : String) : Outcome (List UInt8) := base64DecodeChars s.toList

theorem posOfChar_base64Char {i : Nat} (h : i < 64) : posOfChar (base64Char i) = .ok i := by
  have all : ∀ j : Fin 64, posOfChar (base64Char j) = .ok j.val := by decide +kernel
  exact all ⟨i, h⟩

theorem base64Char_ne_pad {i : Nat} (h : i < 64) : base64Char i ≠ '=' ∧ base64Char i ≠ '.' := by
  have all : ∀ j : Fin 64, base64Char j ≠ '=' ∧ base64Char j ≠ '.' := by decide +kernel
  exact all ⟨i, h⟩

theorem base64DecodeChunk_three (a b c : UInt8) :
    base64DecodeChunk [base64Char (a.toNat / 4), base64Char (a.toNat % 4 * 16 + b.toNat / 16),
      base64Char (b.toNat % 16 * 4 + c.toNat / 64), base64Char (c.toNat % 64)] = .ok [a, b, c] := by
  have ha := a.toNat_lt
  have hb := b.toNat_lt
  have hc := c.toNat_lt
  obtain ⟨notEq2, notDot2⟩ := base64Char_ne_pad (show b.toNat % 16 * 4 + c.toNat / 64 < 64 by omega)
  obtain ⟨notEq3, notDot3⟩ := base64Char_ne_pad (show c.toNat % 64 < 64 by omega)
  simp only [base64DecodeChunk, List.getD_cons_zero, List.getD_cons_succ, List.getElem?_cons_zero,
    List.getElem?_cons_succ, posOfChar_base64Char (show a.toNat / 4 < 64 by omega),
    posOfChar_base64Char (show a.toNat % 4 * 16 + b.toNat / 16 < 64 by omega),
    posOfChar_base64Char (show b.toNat % 16 * 4 + c.toNat / 64 < 64 by omega),
    posOfChar_base64Char (show c.toNat % 64 < 64 by omega), ok_bind]
  have first : UInt8.ofNat (a.toNat / 4 * 4 + (a.toNat % 4 * 16 + b.toNat / 16) / 16) = a := by
    rw [← UInt8.toNat_inj, UInt8.toNat_ofNat']; omega
  have second : UInt8.ofNat ((a.toNat % 4 * 16 + b.toNat / 16) % 16 * 16 +
      (b.toNat % 16 * 4 + c.toNat / 64) / 4) = b := by
    rw [← UInt8.toNat_inj, UInt8.toNat_ofNat']; omega
  have third : UInt8.ofNat ((b.toNat % 16 * 4 + c.toNat / 64) % 4 * 64 + c.toNat % 64) = c := by
    rw [← UInt8.toNat_inj, UInt8.toNat_ofNat']; omega
  rw [first, second, third]
  rfl

theorem base64DecodeChunk_two (a b : UInt8) :
    base64DecodeChunk [base64Char (a.toNat / 4), base64Char (a.toNat % 4 * 16 + b.toNat / 16),
      base64Char (b.toNat % 16 * 4), '='] = .ok [a, b] := by
  have ha := a.toNat_lt
  have hb := b.toNat_lt
  obtain ⟨notEq, notDot⟩ := base64Char_ne_pad (show b.toNat % 16 * 4 < 64 by omega)
  simp only [base64DecodeChunk, List.getD_cons_zero, List.getD_cons_succ, List.getElem?_cons_zero,
    List.getElem?_cons_succ, posOfChar_base64Char (show a.toNat / 4 < 64 by omega),
    posOfChar_base64Char (show a.toNat % 4 * 16 + b.toNat / 16 < 64 by omega),
    posOfChar_base64Char (show b.toNat % 16 * 4 < 64 by omega), ok_bind]
  have first : UInt8.ofNat (a.toNat / 4 * 4 + (a.toNat % 4 * 16 + b.toNat / 16) / 16) = a := by
    rw [← UInt8.toNat_inj, UInt8.toNat_ofNat']; omega
  have second : UInt8.ofNat ((a.toNat % 4 * 16 + b.toNat / 16) % 16 * 16 + b.toNat % 16 * 4 / 4) = b := by
    rw [← UInt8.toNat_inj, UInt8.toNat_ofNat']; omega
  rw [first, second]
  rfl

theorem base64DecodeChunk_one (a : UInt8) :
    base64DecodeChunk [base64Char (a.toNat / 4), base64Char (a.toNat % 4 * 16), '=', '='] = .ok [a] := by
  have ha := a.toNat_lt
  simp only [base64DecodeChunk, List.getD_cons_zero, List.getD_cons_succ, List.getElem?_cons_zero,
    List.getElem?_cons_succ, posOfChar_base64Char (show a.toNat / 4 < 64 by omega),
    posOfChar_base64Char (show a.toNat % 4 * 16 < 64 by omega), ok_bind]
  have first : UInt8.ofNat (a.toNat / 4 * 4 + a.toNat % 4 * 16 / 16) = a := by
    rw [← UInt8.toNat_inj, UInt8.toNat_ofNat']; omega
  rw [first]
  rfl

theorem base64DecodeChars_encodeChars (bytes : List UInt8) :
    base64DecodeChars (base64EncodeChars bytes) = .ok bytes := by
  induction bytes using base64EncodeChars.induct with
  | case1 => rfl
  | case2 a => simp only [base64EncodeChars, base64DecodeChars, base64DecodeChunk_one, ok_bind]; rfl
  | case3 a b => simp only [base64EncodeChars, base64DecodeChars, base64DecodeChunk_two, ok_bind]; rfl
  | case4 a b c rest ih =>
    simp only [base64EncodeChars, base64DecodeChars, base64DecodeChunk_three, ih, ok_bind]
    rfl

/-- Decoding undoes encoding, so a digest survives its trip through the FDT. -/
theorem base64Decode_encode (bytes : List UInt8) : base64Decode (base64Encode bytes) = .ok bytes := by
  rw [base64Decode, base64Encode, String.toList_ofList, base64DecodeChars_encodeChars]

theorem base64Encode_injective {a b : List UInt8} (same : base64Encode a = base64Encode b) : a = b := by
  have decoded := base64Decode_encode a
  rw [same, base64Decode_encode] at decoded
  exact (Except.ok.inj decoded).symm

end Libflute
