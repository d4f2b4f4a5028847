import AuthoritySet.Json.Value

/-!
# JSON forms

How values of a type are written as JSON and read back. Reading is a little wider than writing:

* a record is an object, or an array of its fields in order, of which the last ones may be left
  out if they have a value of their own; unknown keys of an object are passed over with their
  values, but no known key may stand twice (`Json.record?`);
* a variant is an object with its name as the only key (`Json.variant?`), or the name alone if it
  has no content (`Json.bareVariant?`);
* a tagged record names its variant in one of its own fields, anywhere in an object and first in an
  array (`Json.tagged?`). It is read in full, so nothing in it may be malformed.
-/

namespace AuthoritySet

/-- A type whose values have a JSON form. -/
class JsonForm (α : Type) where
  toJson : α → Json
  ofJson? : Json → Option α

namespace JsonForm

variable {α : Type} [JsonForm α]

/-- A value as JSON text without blanks. -/
def write (value : α) : Bytes := (toJson value).compact

/-- The value that a JSON document stands for. -/
def read? (document : Bytes) : Option α := do
  ofJson? (← Json.read? document)

end JsonForm

namespace Json

open JsonForm

/-- The text of a string. -/
def text? : Json → Option String
  | .string text => text
  | _ => none

/-- A natural number below a limit. -/
def naturalBelow? (limit : Nat) : Json → Option Nat
  | .number n => n.natural?.filter (· < limit)
  | _ => none

/-- The named fields of a record, each at most once. -/
def record? (names : List String) : Json → Option (List (String × Json))
  | .object members => do
    let members ← members.mapM fun m => m.1.map fun key => (key, m.2)
    let known := members.filter fun m => m.1 ∈ names
    if (known.map (·.1)).Nodup then return known else none
  | .array items => if items.length ≤ names.length then some (names.zip items) else none
  | _ => none

/-- A field that must be there. -/
def field? {α : Type} [JsonForm α] (fields : List (String × Json)) (name : String) : Option α := do
  ofJson? (← fields.lookup name)

/-- A field that has a value of its own where it is left out. -/
def fieldOr? {α : Type} [JsonForm α] (fields : List (String × Json)) (name : String)
    (usual : α) : Option α :=
  match fields.lookup name with
  | some value => ofJson? value
  | none => some usual

/-- The name and the content of a variant. -/
def variant? : Json → Option (String × Json)
  | .object [(some name, content)] => some (name, content)
  | _ => none

/-- The name of a variant without content. -/
def bareVariant? : Json → Option String
  | .string name => name
  | .object [(some name, .null)] => some name
  | _ => none

/-- How deep brackets may be nested in a record that is read in full. -/
def nestingLimit : Nat := 127

/-- The name of a tagged record's variant and its other fields. -/
def splitTag? (tag : String) : Json → Option (String × Json)
  | .object members =>
    match members.partition fun m => m.1 = some tag with
    | ([(_, .string (some name))], others) => some (name, .object others)
    | _ => none
  | .array (.string (some name) :: others) => some (name, .array others)
  | _ => none

/-- The name of a tagged record's variant and its other fields, if all of it is well formed. -/
def tagged? (tag : String) (value : Json) : Option (String × Json) :=
  if value.isStrict nestingLimit then value.splitTag? tag else none

/-- Whether a tagged record that has no other fields may have this content: an object may hold what
it likes, an array nothing more. -/
def isBare : Json → Bool
  | .object _ => true
  | .array items => items.isEmpty
  | _ => false

/-- An object with these members. -/
def ofFields (fields : List (String × Json)) : Json := .object (fields.map fun f => (some f.1, f.2))

/-- A natural number. -/
def natural (n : Nat) : Json := .number (.ofNat n)

/-- A text. -/
def ofText (text : String) : Json := .string (some text)

end Json

instance : JsonForm Bool where
  toJson := .bool
  ofJson?
    | .bool value => some value
    | _ => none

instance : JsonForm String where
  toJson := .ofText
  ofJson? := Json.text?

instance : JsonForm UInt16 where
  toJson n := .natural n.toNat
  ofJson? j := (j.naturalBelow? UInt16.size).map UInt16.ofNat

instance : JsonForm UInt32 where
  toJson n := .natural n.toNat
  ofJson? j := (j.naturalBelow? UInt32.size).map UInt32.ofNat

instance : JsonForm UInt64 where
  toJson n := .natural n.toNat
  ofJson? j := (j.naturalBelow? UInt64.size).map UInt64.ofNat

instance {α : Type} [JsonForm α] : JsonForm (List α) where
  toJson values := .array (values.map JsonForm.toJson)
  ofJson?
    | .array items => items.mapM JsonForm.ofJson?
    | _ => none

end AuthoritySet
