import AuthoritySet.Ballot
import AuthoritySet.Params

/-!
# Stored records

The binary form in which parameters, validators and ballots are stored: numbers of a fixed width
with the lowest byte first, texts and lists behind their length in eight bytes, identities as their
bare bytes, and the fields of a record one after the other.

* `Record.encode`: the binary form of a value.
* `Record.decode`: the value at the beginning of a byte string; what follows it is ignored.
-/

namespace AuthoritySet

/-- Takes a value from the beginning of the input and leaves the rest. -/
abbrev Reader := StateT Bytes Option

/-- A type with a binary form. -/
class Record (α : Type) where
  encode : α → Bytes
  reader : Reader α

namespace Record

/-- The lowest `width` bytes of a number, the lowest first. -/
def littleEndian : Nat → Nat → Bytes
  | 0, _ => []
  | width + 1, n => UInt8.ofNat n :: littleEndian width (n / 256)

/-- The number with these bytes, the lowest first. -/
def ofLittleEndian : Bytes → Nat
  | [] => 0
  | byte :: rest => byte.toNat + 256 * ofLittleEndian rest

/-- The next `count` bytes. -/
def takeBytes (count : Nat) : Reader Bytes := fun input =>
  if count ≤ input.length then some (input.take count, input.drop count) else none

/-- The next number of `width` bytes. -/
def takeNumber (width : Nat) : Reader Nat := do
  let bytes ← takeBytes width
  return ofLittleEndian bytes

/-- The next `count` values. -/
def takeMany {α : Type} (reader : Reader α) : Nat → Reader (List α)
  | 0 => pure []
  | count + 1 => do
    let first ← reader
    let others ← takeMany reader count
    return first :: others

instance : Record UInt16 where
  encode n := littleEndian 2 n.toNat
  reader := do return UInt16.ofNat (← takeNumber 2)

instance : Record UInt64 where
  encode n := littleEndian 8 n.toNat
  reader := do return UInt64.ofNat (← takeNumber 8)

instance : Record String where
  encode text := littleEndian 8 (Bytes.ofText text).length ++ Bytes.ofText text
  reader := do
    let length ← takeNumber 8
    let bytes ← takeBytes length
    match Bytes.text? bytes with
    | some text => return text
    | none => failure

instance : Record DisplayText where
  encode text := encode text.value
  reader := do
    match DisplayText.ofString? (← reader) with
    | some text => return text
    | none => failure

instance {kind : IdentityKind} : Record (Identity kind) where
  encode id := id.bytes
  reader := do
    let bytes ← takeBytes kind.size
    match Identity.ofBytes? bytes with
    | some id => return id
    | none => failure

instance {α : Type} [Record α] : Record (List α) where
  encode values := littleEndian 8 values.length ++ values.flatMap encode
  reader := do
    let length ← takeNumber 8
    takeMany reader length

instance : Record Params where
  encode p := encode p.maxValidators ++ encode p.quorum
  reader := do
    let maxValidators ← reader
    let quorum ← reader
    return { maxValidators, quorum }

instance : Record Description where
  encode d :=
    encode d.moniker ++ encode d.identity ++ encode d.website ++ encode d.securityContact ++
      encode d.details
  reader := do
    let moniker ← reader
    let identity ← reader
    let website ← reader
    let securityContact ← reader
    let details ← reader
    return { moniker, identity, website, securityContact, details }

instance : Record Validator where
  encode v := encode v.operator ++ encode v.key ++ encode v.description
  reader := do
    let operator ← reader
    let key ← reader
    let description ← reader
    return { operator, key, description }

instance : Record Ballot where
  encode b := encode b.subject ++ encode b.approvals ++ encode b.total ++ encode b.voters
  reader := do
    let subject ← reader
    let approvals ← reader
    let total ← reader
    let voters ← reader
    return { subject, approvals, total, voters }

/-- The value at the beginning of stored bytes. -/
def decode {α : Type} [Record α] (bytes : Bytes) : Except Failure α :=
  match (reader (α := α)).run bytes with
  | some (value, _) => .ok value
  | none => .error (.codec .malformedRecord)

end Record

end AuthoritySet
