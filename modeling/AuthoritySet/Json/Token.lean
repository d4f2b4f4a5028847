import AuthoritySet.Json.Number
import AuthoritySet.Json.Text

/-!
# JSON tokens

The words of a JSON document: brackets, commas, colons, literals, numbers and strings, with blanks
between them.

* `Token.text`: how a token is written.
* `Token.scan?`: the tokens of a document, read byte by byte in one pass.

A string that is not well formed is a token all the same: whether that matters depends on where it
stands.
-/

namespace AuthoritySet

namespace Json

/-- A word of a JSON document. -/
inductive Token where
  | openArray
  | closeArray
  | openObject
  | closeObject
  | comma
  | colon
  | null
  | bool (value : Bool)
  | number (value : Number)
  /-- A string; one that is not well formed has no text. -/
  | string (text : Option String)
  deriving DecidableEq, Repr

namespace Token

/-- How a token is written. A string without text is written as an escape that has none. -/
def text : Token → Bytes
  | .openArray => [0x5b]
  | .closeArray => [0x5d]
  | .openObject => [0x7b]
  | .closeObject => [0x7d]
  | .comma => [0x2c]
  | .colon => [0x3a]
  | .null => [0x6e, 0x75, 0x6c, 0x6c]
  | .bool true => [0x74, 0x72, 0x75, 0x65]
  | .bool false => [0x66, 0x61, 0x6c, 0x73, 0x65]
  | .number n => n.text
  | .string (some text) => 0x22 :: Text.escape text ++ [0x22]
  | .string none => [0x22, 0x5c, 0x75, 0x64, 0x38, 0x30, 0x30, 0x22]

/-- The literal that a word of letters stands for. -/
def ofWord? (word : Bytes) : Option Token :=
  if word = [0x6e, 0x75, 0x6c, 0x6c] then some .null
  else if word = [0x74, 0x72, 0x75, 0x65] then some (.bool true)
  else if word = [0x66, 0x61, 0x6c, 0x73, 0x65] then some (.bool false)
  else none

/-- The bracket, comma or colon that a byte stands for. -/
def ofByte? (byte : UInt8) : Option Token :=
  if byte = 0x5b then some .openArray
  else if byte = 0x5d then some .closeArray
  else if byte = 0x7b then some .openObject
  else if byte = 0x7d then some .closeObject
  else if byte = 0x2c then some .comma
  else if byte = 0x3a then some .colon
  else none

/-- Blanks: space, tab, line feed, carriage return. -/
def isBlank (byte : UInt8) : Bool := byte == 0x20 || byte == 0x09 || byte == 0x0a || byte == 0x0d

/-- The bytes of numbers. -/
def isNumeric (byte : UInt8) : Bool :=
  Number.isDigit byte || byte == 0x2b || byte == 0x2d || byte == 0x2e || byte == 0x45 ||
    byte == 0x65

/-- The bytes of literals. -/
def isLetter (byte : UInt8) : Bool := 0x61 ≤ byte && byte ≤ 0x7a

/-! ## Reading -/

/-- Where the reader stands. What it has seen of a token is kept in reverse. -/
inductive Place where
  /-- Between tokens. -/
  | between
  | inWord (seen : Bytes)
  | inNumber (seen : Bytes)
  | inString (seen : List Text.Piece)
  /-- Behind a backslash. -/
  | inEscape (seen : List Text.Piece)
  /-- In the digits of an escape. -/
  | inUnit (seen : List Text.Piece) (digits : List UInt8)
  deriving DecidableEq, Repr

/-- The tokens that have been read, in reverse, and where the reader stands. -/
structure Scanner where
  seen : List Token
  place : Place
  deriving DecidableEq, Repr

namespace Scanner

/-- Before the first byte. -/
def start : Scanner := ⟨[], .between⟩

/-- Ends a word or a number, which have no mark of their own at their end. -/
def settle? (s : Scanner) : Option Scanner :=
  match s.place with
  | .inWord seen => (ofWord? seen.reverse).map fun t => ⟨t :: s.seen, .between⟩
  | .inNumber seen =>
    (Number.ofText? seen.reverse).map fun n => ⟨.number n :: s.seen, .between⟩
  | _ => some s

/-- Reads a byte between tokens. -/
def begin? (s : Scanner) (byte : UInt8) : Option Scanner :=
  if isBlank byte then some s
  else if byte = 0x22 then some { s with place := .inString [] }
  else
    match ofByte? byte with
    | some t => some { s with seen := t :: s.seen }
    | none =>
      if byte = 0x2d || Number.isDigit byte then some { s with place := .inNumber [byte] }
      else if isLetter byte then some { s with place := .inWord [byte] }
      else none

/-- Reads a byte of a string. -/
def inside? (s : Scanner) (seen : List Text.Piece) (byte : UInt8) : Option Scanner :=
  if byte = 0x22 then some ⟨.string (Text.decode? seen.reverse) :: s.seen, .between⟩
  else if byte = 0x5c then some { s with place := .inEscape seen }
  else if byte < 0x20 then none
  else some { s with place := .inString (.byte byte :: seen) }

/-- Reads the byte behind a backslash. -/
def escape? (s : Scanner) (seen : List Text.Piece) (byte : UInt8) : Option Scanner :=
  if byte = 0x75 then some { s with place := .inUnit seen [] }
  else (Text.shortEscape? byte).map fun b => { s with place := .inString (.byte b :: seen) }

/-- The code unit of four digits, the last one first. -/
def unitOf (digits : List UInt8) : UInt16 :=
  UInt16.ofNat (digits.foldr (fun d n => 16 * n + d.toNat) 0)

/-- Reads a digit of an escape. -/
def digit? (s : Scanner) (seen : List Text.Piece) (digits : List UInt8) (byte : UInt8) :
    Option Scanner := do
  let digits := (← Hex.digitValue? byte) :: digits
  if digits.length < 4 then return { s with place := .inUnit seen digits }
  else return { s with place := .inString (.unit (unitOf digits) :: seen) }

/-- Reads one byte. -/
def step? (s : Scanner) (byte : UInt8) : Option Scanner :=
  match s.place with
  | .between => s.begin? byte
  | .inWord seen =>
    if isLetter byte then some { s with place := .inWord (byte :: seen) }
    else do (← s.settle?).begin? byte
  | .inNumber seen =>
    if isNumeric byte then some { s with place := .inNumber (byte :: seen) }
    else do (← s.settle?).begin? byte
  | .inString seen => s.inside? seen byte
  | .inEscape seen => s.escape? seen byte
  | .inUnit seen digits => s.digit? seen digits byte

/-- The tokens at the end of the input, which must not be inside a string. -/
def finish? (s : Scanner) : Option (List Token) := do
  let s ← s.settle?
  match s.place with
  | .between => return s.seen.reverse
  | _ => none

end Scanner

/-- The tokens of a document. -/
def scan? (document : Bytes) : Option (List Token) := do
  (← document.foldlM Scanner.step? Scanner.start).finish?

end Token

end Json

end AuthoritySet
