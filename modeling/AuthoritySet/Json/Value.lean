import AuthoritySet.Json.Token

/-!
# JSON values

* `Json.tokens`, `Json.compact`, `Json.pretty`: a value as tokens, as text without blanks, and as
  text with a line for each item.
* `Json.ofTokens?`, `Json.read?`: the value that tokens or a document stand for. Reading uses a stack of
  its own, so the nesting of a document is not limited.
* `Json.isStrict`: whether a value is well formed all the way down and nested no deeper than a
  limit.
-/

namespace AuthoritySet

/-- A JSON value. Strings and keys that are not well formed have no text. -/
inductive Json where
  | null
  | bool (value : Bool)
  | number (value : Json.Number)
  | string (text : Option String)
  | array (items : List Json)
  | object (members : List (Option String × Json))
  deriving Repr

namespace Json

/-! ## Writing -/

mutual

/-- A value as tokens. -/
def tokens : Json → List Token
  | .null => [.null]
  | .bool value => [.bool value]
  | .number value => [.number value]
  | .string text => [.string text]
  | .array [] => [.openArray, .closeArray]
  | .array (first :: others) => .openArray :: first.tokens ++ itemTokens others
  | .object [] => [.openObject, .closeObject]
  | .object ((key, value) :: others) =>
    .openObject :: .string key :: .colon :: value.tokens ++ memberTokens others

/-- The items of an array behind the first one, and the bracket at its end. -/
def itemTokens : List Json → List Token
  | [] => [.closeArray]
  | item :: others => .comma :: item.tokens ++ itemTokens others

/-- The members of an object behind the first one, and the bracket at its end. -/
def memberTokens : List (Option String × Json) → List Token
  | [] => [.closeObject]
  | (key, value) :: others =>
    .comma :: .string key :: .colon :: value.tokens ++ memberTokens others

end

/-- A value as text without blanks. -/
def compact (value : Json) : Bytes := value.tokens.flatMap Token.text

/-- A line feed and two spaces for each level of nesting. -/
def lineBreak (depth : Nat) : Bytes := 0x0a :: List.replicate (2 * depth) 0x20

/-- Tokens with a line for each item and each member; empty brackets stay together. -/
def layOut (depth : Nat) : List Token → Bytes
  | [] => []
  | .openArray :: .closeArray :: rest => [0x5b, 0x5d] ++ layOut depth rest
  | .openObject :: .closeObject :: rest => [0x7b, 0x7d] ++ layOut depth rest
  | .openArray :: rest => 0x5b :: lineBreak (depth + 1) ++ layOut (depth + 1) rest
  | .openObject :: rest => 0x7b :: lineBreak (depth + 1) ++ layOut (depth + 1) rest
  | .closeArray :: rest => lineBreak (depth - 1) ++ 0x5d :: layOut (depth - 1) rest
  | .closeObject :: rest => lineBreak (depth - 1) ++ 0x7d :: layOut (depth - 1) rest
  | .comma :: rest => 0x2c :: lineBreak depth ++ layOut depth rest
  | .colon :: rest => 0x3a :: 0x20 :: layOut depth rest
  | t :: rest => t.text ++ layOut depth rest

/-- A value as text with a line for each item. -/
def pretty (value : Json) : Bytes := layOut 0 value.tokens

/-! ## Reading -/

/-- An array or object that is still open, with what it holds so far in reverse. -/
inductive Frame where
  | items (before : List Json)
  /-- The value of a key is to come. -/
  | member (before : List (Option String × Json)) (key : Option String)

/-- What may come next. -/
inductive Parser where
  /-- A value. -/
  | atValue (stack : List Frame)
  /-- The first item of an array, or its end. -/
  | atFirstItem (stack : List Frame)
  /-- The first key of an object, or its end. -/
  | atFirstKey (stack : List Frame)
  /-- A further key of an object. -/
  | atKey (stack : List Frame) (before : List (Option String × Json))
  /-- The colon behind a key. -/
  | atColon (stack : List Frame) (before : List (Option String × Json)) (key : Option String)
  /-- A comma or an end: a value is complete. -/
  | afterValue (stack : List Frame) (value : Json)

namespace Parser

/-- Reads a token where a value may stand. -/
def begin? (stack : List Frame) : Token → Option Parser
  | .openArray => some (.atFirstItem stack)
  | .openObject => some (.atFirstKey stack)
  | .null => some (.afterValue stack .null)
  | .bool value => some (.afterValue stack (.bool value))
  | .number value => some (.afterValue stack (.number value))
  | .string text => some (.afterValue stack (.string text))
  | _ => none

/-- Reads a token behind a complete value. -/
def follow? (value : Json) : List Frame → Token → Option Parser
  | .items before :: stack, .comma => some (.atValue (.items (value :: before) :: stack))
  | .items before :: stack, .closeArray => some (.afterValue stack (.array (value :: before).reverse))
  | .member before key :: stack, .comma => some (.atKey stack ((key, value) :: before))
  | .member before key :: stack, .closeObject =>
    some (.afterValue stack (.object ((key, value) :: before).reverse))
  | _, _ => none

/-- Reads one token. -/
def step? : Parser → Token → Option Parser
  | .atValue stack, t => begin? stack t
  | .atFirstItem stack, .closeArray => some (.afterValue stack (.array []))
  | .atFirstItem stack, t => begin? (.items [] :: stack) t
  | .atFirstKey stack, .closeObject => some (.afterValue stack (.object []))
  | .atFirstKey stack, .string key => some (.atColon stack [] key)
  | .atKey stack before, .string key => some (.atColon stack before key)
  | .atColon stack before key, .colon => some (.atValue (.member before key :: stack))
  | .afterValue stack value, t => follow? value stack t
  | _, _ => none

/-- The value, once it is complete. -/
def finish? : Parser → Option Json
  | .afterValue [] value => some value
  | _ => none

end Parser

/-- The value that tokens stand for. -/
def ofTokens? (tokens : List Token) : Option Json := do
  (← tokens.foldlM Parser.step? (.atValue [])).finish?

/-- The value that a document stands for. -/
def read? (document : Bytes) : Option Json := do
  ofTokens? (← Token.scan? document)

/-! ## Strictness -/

/-- Whether all strings of a value are well formed, all its numbers are in the range of
floating-point numbers, and brackets are nested at most `depth` deep. -/
def isStrict : Nat → Json → Bool
  | _, .null => true
  | _, .bool _ => true
  | _, .number value => !value.exceedsDouble
  | _, .string text => text.isSome
  | 0, .array _ => false
  | 0, .object _ => false
  | depth + 1, .array items => items.all (isStrict depth)
  | depth + 1, .object members => members.all fun m => m.1.isSome && isStrict depth m.2

end Json

end AuthoritySet
