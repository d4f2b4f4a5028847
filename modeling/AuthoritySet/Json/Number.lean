import AuthoritySet.Bytes

/-!
# JSON numbers

A number is kept as it is written: sign, digits, fraction, exponent. Only two questions are asked
of it.

* `Number.natural?`: the natural number that it writes, in digits alone.
* `Number.exceedsDouble`: whether it is beyond the range of binary floating-point numbers of
  64 bits.
-/

namespace AuthoritySet

namespace Json

/-- A number as it is written. Digits are kept as their values; no fraction and no digits of a
fraction are the same. -/
structure Number where
  negative : Bool
  whole : List Nat
  fraction : List Nat
  exponent : Option Int
  deriving DecidableEq, Repr

namespace Number

/-- Whether a byte is a decimal digit. -/
def isDigit (byte : UInt8) : Bool := 0x30 ≤ byte && byte ≤ 0x39

/-- The value of a decimal digit. -/
def digitValue (byte : UInt8) : Nat := byte.toNat - 0x30

/-- The number with these decimal digits. -/
def ofDigits (digits : List Nat) : Nat := digits.foldl (fun n d => 10 * n + d) 0

/-- The leading digits of a text, and what follows them. -/
def takeDigits (text : Bytes) : List Nat × Bytes :=
  ((text.takeWhile isDigit).map digitValue, text.dropWhile isDigit)

/-- The sign in front of a text. -/
def takeSign (text : Bytes) : Bool × Bytes :=
  match text with
  | 0x2d :: rest => (true, rest)
  | _ => (false, text)

/-- The fraction at the beginning of a text: a point and at least one digit. -/
def takeFraction? (text : Bytes) : Option (List Nat × Bytes) :=
  match text with
  | 0x2e :: rest =>
    match takeDigits rest with
    | ([], _) => none
    | digits => some digits
  | _ => some ([], text)

/-- The exponent that is all of a text: a letter, an optional sign and at least one digit. -/
def exponentOf? (text : Bytes) : Option (Option Int) :=
  match text with
  | [] => some none
  | letter :: rest =>
    if letter = 0x65 ∨ letter = 0x45 then
      let (negative, digits) :=
        match rest with
        | 0x2b :: digits => (false, digits)
        | _ => takeSign rest
      match takeDigits digits with
      | (first :: others, []) =>
        let size := ofDigits (first :: others)
        some (some (if negative then -(size : Int) else size))
      | _ => none
    else none

/-- The number that a text writes. The digits before the point start with a zero only if they are
a single one. -/
def ofText? (text : Bytes) : Option Number := do
  let (negative, text) := takeSign text
  let (whole, text) := takeDigits text
  if whole = [] ∨ (whole.head? = some 0 ∧ whole.length ≠ 1) then none
  else
    let (fraction, text) ← takeFraction? text
    let exponent ← exponentOf? text
    return { negative, whole, fraction, exponent }

/-- A natural number in decimal digits. -/
def ofNat (n : Nat) : Number := ⟨false, (Nat.toDigits 10 n).map (·.toNat - 0x30), [], none⟩

/-- The natural number that is written in digits alone. -/
def natural? (n : Number) : Option Nat :=
  if n.negative || n.fraction ≠ [] || n.exponent.isSome then none else some (ofDigits n.whole)

/-- Digits as text. -/
def digitText (digits : List Nat) : Bytes := digits.map fun d => UInt8.ofNat (0x30 + d)

/-- The text of an exponent. -/
def exponentText : Option Int → Bytes
  | none => []
  | some e =>
    0x65 :: (if e < 0 then [0x2d] else []) ++ digitText (ofNat e.natAbs).whole

/-- A number as text. -/
def text (n : Number) : Bytes :=
  (if n.negative then [0x2d] else []) ++ digitText n.whole ++
    (if n.fraction = [] then [] else 0x2e :: digitText n.fraction) ++ exponentText n.exponent

/-! ## The range of floating-point numbers -/

/-- The nearest number that has at most fifty-three significant bits; of two, the one whose last
bit is zero. -/
def roundToDouble (n : Nat) : Nat :=
  let excess := Nat.log2 n - 52
  let kept := n >>> excess
  let lost := n - kept <<< excess
  let half := (1 <<< excess) >>> 1
  let up := half < lost || (0 < half && half == lost && kept % 2 == 1)
  (if up then kept + 1 else kept) <<< excess

/-- A number as `significand * 10 ^ exponent`. Digits join the significand as long as it stays
in a word of 64 bits; after that, digits before the point only raise the exponent and digits behind it
are dropped. -/
structure Scaled where
  significand : Nat
  exponent : Int
  /-- No further digit joins the significand. -/
  full : Bool

/-- Takes in a digit before the point. -/
def Scaled.pushWhole (s : Scaled) (digit : Nat) : Scaled :=
  let next := 10 * s.significand + digit
  if s.full || UInt64.size ≤ next then { s with exponent := s.exponent + 1, full := true }
  else { s with significand := next }

/-- Takes in a digit behind the point. -/
def Scaled.pushFraction (s : Scaled) (digit : Nat) : Scaled :=
  let next := 10 * s.significand + digit
  if s.full || UInt64.size ≤ next then { s with full := true }
  else { s with significand := next, exponent := s.exponent - 1 }

/-- The significand and the exponent of a number. -/
def scaled (n : Number) : Scaled :=
  let before := n.whole.foldl Scaled.pushWhole ⟨0, 0, false⟩
  let all := n.fraction.foldl Scaled.pushFraction { before with full := false }
  { all with exponent := all.exponent + n.exponent.getD 0 }

/-- The least number that rounds to infinity: halfway between the greatest finite one and the power
of two behind it. -/
def infinity : Nat := 1 <<< 1024 - 1 <<< 970

/-- Whether a number is beyond the range of floating-point numbers: its significand and the power
of ten, each rounded, have a product that rounds to infinity. -/
def exceedsDouble (n : Number) : Bool :=
  let s := n.scaled
  if s.significand = 0 ∨ s.exponent ≤ 0 then false
  else if 308 < s.exponent then true
  else infinity ≤ roundToDouble s.significand * roundToDouble (Nat.pow 10 s.exponent.toNat)

end Number

end Json

end AuthoritySet
