import AuthoritySet.Bytes

/-!
# Hexadecimal text

* `Hex.encode`: two lower-case digits for each byte.
* `Hex.decode`: the bytes of a text of digit pairs, in either case.
* `Hex.decodeExactly`: the same for a known number of bytes, whose length is checked before its
  digits.

Positions and lengths count the bytes of the text's UTF-8 form, so a character outside ASCII
counts as often as it has bytes, and the first of them is the one that is reported.
-/

namespace AuthoritySet

namespace Hex

/-- Why a text is not the hexadecimal form of a byte string. -/
inductive Defect where
  /-- A digit has no partner. -/
  | oddLength
  /-- The text is too long or too short for the number of bytes asked for. -/
  | wrongLength
  /-- A byte of the text is no digit. -/
  | badDigit (byte : UInt8) (position : Nat)
  deriving DecidableEq, Repr

/-- The digit for a number below sixteen. -/
def digit (n : UInt8) : UInt8 := if n < 10 then 0x30 + n else 0x57 + n

/-- The value of a digit in either case. -/
def digitValue? (byte : UInt8) : Option UInt8 :=
  if 0x30 ≤ byte ∧ byte ≤ 0x39 then some (byte - 0x30)
  else if 0x61 ≤ byte ∧ byte ≤ 0x66 then some (byte - 0x57)
  else if 0x41 ≤ byte ∧ byte ≤ 0x46 then some (byte - 0x37)
  else none

/-- Two lower-case digits for each byte. -/
def encode : Bytes → Bytes
  | [] => []
  | byte :: rest => digit (byte / 16) :: digit (byte % 16) :: encode rest

/-- Reads digit pairs that start at a position of the text. -/
def decodePairs (position : Nat) : Bytes → Except Defect Bytes
  | high :: low :: rest =>
    match digitValue? high with
    | none => .error (.badDigit high position)
    | some h =>
      match digitValue? low with
      | none => .error (.badDigit low (position + 1))
      | some l => (decodePairs (position + 2) rest).map ((h * 16 + l) :: ·)
  | [] => .ok []
  | [_] => .error .oddLength

/-- The bytes that a text of digit pairs stands for. -/
def decode (text : Bytes) : Except Defect Bytes :=
  if text.length % 2 = 0 then decodePairs 0 text else .error .oddLength

/-- The `size` bytes that a text stands for. -/
def decodeExactly (size : Nat) (text : Bytes) : Except Defect Bytes :=
  if text.length % 2 ≠ 0 then .error .oddLength
  else if text.length ≠ 2 * size then .error .wrongLength
  else decodePairs 0 text

/-- The lower-case digits of a number below 256, without a leading zero. -/
def shortForm (byte : UInt8) : String :=
  String.ofList (Nat.toDigits 16 byte.toNat)

/-- How a message shows the character with a byte as its code point: in single quotes, with an
escape for a quote, a backslash and everything that does not print. -/
def quotedByte (byte : UInt8) : String :=
  let shown :=
    if byte = 0x00 then "\\0"
    else if byte = 0x09 then "\\t"
    else if byte = 0x0a then "\\n"
    else if byte = 0x0d then "\\r"
    else if byte = 0x27 then "\\'"
    else if byte = 0x5c then "\\\\"
    else if byte < 0x20 ∨ (0x7f ≤ byte ∧ byte ≤ 0xa0) ∨ byte = 0xad then
      "\\u\x7b" ++ shortForm byte ++ "\x7d"
    else String.singleton (Char.ofNat byte.toNat)
  "'" ++ shown ++ "'"

/-- The wording of a defect. -/
def Defect.message : Defect → String
  | .oddLength => "Odd number of digits"
  | .wrongLength => "Invalid string length"
  | .badDigit byte position =>
    "Invalid character " ++ quotedByte byte ++ " at position " ++ toString position

/-! ## Reading what was written -/

theorem digitValue?_digit {n : UInt8} (h : n < 16) : digitValue? (digit n) = some n := by
  have values : ∀ k < 16, digitValue? (digit (UInt8.ofNat k)) = some (UInt8.ofNat k) := by decide
  have hn := values n.toNat (UInt8.lt_iff_toNat_lt.mp h)
  rwa [UInt8.ofNat_toNat] at hn

/-- Reading digit pairs gives back the bytes they were written for. -/
theorem decodePairs_encode (position : Nat) (bytes : Bytes) :
    decodePairs position (encode bytes) = .ok bytes := by
  induction bytes generalizing position with
  | nil => rfl
  | cons byte rest ih =>
    have hh : byte / 16 < 16 := by
      rw [UInt8.lt_iff_toNat_lt]; have := byte.toNat_lt; simp; omega
    have hl : byte % 16 < 16 := by
      rw [UInt8.lt_iff_toNat_lt]; simp; omega
    have hb : byte / 16 * 16 + byte % 16 = byte := by
      apply UInt8.toNat_inj.mp; have := byte.toNat_lt; simp; omega
    simp only [encode, decodePairs, digitValue?_digit hh, digitValue?_digit hl, ih, Except.map, hb]

/-- The bytes that digit pairs stand for are half as many as the digits. -/
theorem length_decodePairs {position : Nat} {text bytes : Bytes}
    (h : decodePairs position text = .ok bytes) : text.length = 2 * bytes.length := by
  fun_induction decodePairs position text generalizing bytes with
  | case1 => cases h
  | case2 => cases h
  | case3 position high low rest _ _ _ _ ih =>
    simp only [Except.map] at h
    split at h
    · cases h
    · rename_i tail htail
      cases h
      have := ih htail
      simp only [List.length_cons, this]
      omega
  | case4 => cases h; rfl
  | case5 => cases h

/-- The text is twice as long as the bytes it is written for. -/
theorem length_encode (bytes : Bytes) : (encode bytes).length = 2 * bytes.length := by
  induction bytes with
  | nil => rfl
  | cons byte rest ih => simp [encode, ih]; omega

end Hex

end AuthoritySet
