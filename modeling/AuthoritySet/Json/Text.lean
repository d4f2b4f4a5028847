import AuthoritySet.Hex

/-!
# JSON strings

A string is a row of bytes and of 16-bit code units written as escapes. It is well formed if the
units pair up as surrogates where they must and all of it together is UTF-8.

* `Text.decode?`: the text of a row of units.
* `Text.escape`: the bytes between the quotation marks when a text is written.
-/

namespace AuthoritySet

namespace Json

namespace Text

/-- A part of a string. -/
inductive Piece where
  /-- A byte that stands for itself, or that a short escape stands for. -/
  | byte (value : UInt8)
  /-- A code unit that is written as four digits. -/
  | unit (value : UInt16)
  deriving DecidableEq, Repr

/-- The byte that a short escape stands for. -/
def shortEscape? (letter : UInt8) : Option UInt8 :=
  if letter = 0x22 ∨ letter = 0x5c ∨ letter = 0x2f then some letter
  else if letter = 0x62 then some 0x08
  else if letter = 0x66 then some 0x0c
  else if letter = 0x6e then some 0x0a
  else if letter = 0x72 then some 0x0d
  else if letter = 0x74 then some 0x09
  else none

/-- Whether a unit opens a surrogate pair. -/
def isHigh (unit : UInt16) : Bool := 0xd800 ≤ unit && unit ≤ 0xdbff

/-- Whether a unit closes a surrogate pair. -/
def isLow (unit : UInt16) : Bool := 0xdc00 ≤ unit && unit ≤ 0xdfff

/-- The character of a surrogate pair. -/
def pairChar (high low : UInt16) : Char :=
  Char.ofNat (0x10000 + (high.toNat - 0xd800) * 0x400 + (low.toNat - 0xdc00))

/-- The bytes of a row of pieces, if surrogates stand in pairs only. -/
def bytes? : List Piece → Option Bytes
  | [] => some []
  | .byte value :: rest => (bytes? rest).map (value :: ·)
  | .unit high :: .unit low :: rest =>
    if isHigh high then
      if isLow low then (bytes? rest).map (String.utf8EncodeChar (pairChar high low) ++ ·) else none
    else if isLow high then none
    else (bytes? (.unit low :: rest)).map (String.utf8EncodeChar (Char.ofNat high.toNat) ++ ·)
  | .unit value :: rest =>
    if isHigh value || isLow value then none
    else (bytes? rest).map (String.utf8EncodeChar (Char.ofNat value.toNat) ++ ·)

/-- The text of a row of pieces, if it is well formed. -/
def decode? (pieces : List Piece) : Option String := do
  Bytes.text? (← bytes? pieces)

/-- How a byte of a text is written: quotation marks, backslashes and control characters as
escapes, all else as it is. -/
def escapeByte (byte : UInt8) : Bytes :=
  if byte = 0x22 then [0x5c, 0x22]
  else if byte = 0x5c then [0x5c, 0x5c]
  else if byte = 0x08 then [0x5c, 0x62]
  else if byte = 0x0c then [0x5c, 0x66]
  else if byte = 0x0a then [0x5c, 0x6e]
  else if byte = 0x0d then [0x5c, 0x72]
  else if byte = 0x09 then [0x5c, 0x74]
  else if byte < 0x20 then
    [0x5c, 0x75, 0x30, 0x30, Hex.digit (byte / 16), Hex.digit (byte % 16)]
  else [byte]

/-- How a text is written between quotation marks. -/
def escape (text : String) : Bytes := (Bytes.ofText text).flatMap escapeByte

end Text

end Json

end AuthoritySet
