import AuthoritySet.Failure

/-!
# Validators

A `Validator` is the record of one member of the authority set: who governs it, what the consensus
layer trusts, and how it describes itself. A seated validator is in one of three `Lifecycle`
states, and every change of voting power is told to the consensus layer as a `PowerUpdate`.
-/

namespace AuthoritySet

/-- A text that a validator shows. Eight bytes are enough to count the bytes of its UTF-8 form. -/
structure DisplayText where
  value : String
  length_lt : (Bytes.ofText value).length < UInt64.size
  deriving DecidableEq, Repr

namespace DisplayText

/-- The text that shows nothing. -/
def empty : DisplayText := ⟨"", by decide⟩

instance : Inhabited DisplayText := ⟨empty⟩

/-- A text, if it is short enough to be shown. -/
def ofString? (text : String) : Option DisplayText :=
  if h : (Bytes.ofText text).length < UInt64.size then some ⟨text, h⟩ else none

/-- A text that is short enough is shown as it is. -/
instance : Coe String DisplayText := ⟨fun text => (ofString? text).getD empty⟩

@[simp] theorem ofString?_value (t : DisplayText) : ofString? t.value = some t :=
  dif_pos t.length_lt

end DisplayText

/-- What a validator says about itself. Nothing depends on it. -/
structure Description where
  moniker : DisplayText := .empty
  identity : DisplayText := .empty
  website : DisplayText := .empty
  securityContact : DisplayText := .empty
  details : DisplayText := .empty
  deriving DecidableEq, Repr, Inhabited

/-- Whether a description says nothing at all. -/
def Description.isEmpty (d : Description) : Bool := d = {}

/-- The record of a member of the authority set. -/
structure Validator where
  operator : OperatorAddress
  key : ConsensusKey
  description : Description
  deriving DecidableEq, Repr, Inhabited

/-- A change of voting power: one adds a key to the consensus layer's set, zero takes it away. -/
structure PowerUpdate where
  address : ConsensusAddress
  key : ConsensusKey
  power : UInt64
  deriving DecidableEq, Repr

/-- Whether an update takes a key away. -/
def PowerUpdate.isRemoval (u : PowerUpdate) : Bool := u.power == 0

namespace Validator

/-- The voting power of every seated validator. -/
def fullPower : UInt64 := 1

/-- The address that the consensus layer knows a validator by. -/
def address (v : Validator) : ConsensusAddress := v.key.address

/-- A record must name an operator and a key and say something about itself; the first of these
that it lacks is reported. -/
def check (v : Validator) : Except Failure Unit :=
  if v.operator.isMissing then .error (.invalidValidator .missingOperator)
  else if v.key.isMissing then .error (.invalidValidator .missingKey)
  else if v.description.isEmpty then .error (.invalidValidator .emptyDescription)
  else .ok ()

/-- The update that gives a validator its voting power. -/
def grant (v : Validator) : PowerUpdate := ⟨v.address, v.key, fullPower⟩

/-- The update that takes a validator's voting power away. -/
def revoke (v : Validator) : PowerUpdate := ⟨v.address, v.key, 0⟩

end Validator

/-- Where a seated validator stands between admission and removal. -/
inductive Lifecycle where
  /-- Admitted; the consensus layer learns of it at the next epoch boundary. -/
  | joining
  /-- Known to the consensus layer. -/
  | joined
  /-- On its way out; removed at the next epoch boundary. -/
  | leaving
  deriving DecidableEq, Repr

namespace Lifecycle

/-- The byte that stands for a state in storage. -/
def byte : Lifecycle → UInt8
  | .joining => 0
  | .joined => 1
  | .leaving => 2

/-- The state that a byte stands for. -/
def ofByte? (byte : UInt8) : Option Lifecycle :=
  if byte = 0 then some .joining
  else if byte = 1 then some .joined
  else if byte = 2 then some .leaving
  else none

/-- A state as a word. -/
def name : Lifecycle → String
  | .joining => "joining"
  | .joined => "joined"
  | .leaving => "leaving"

theorem ofByte?_byte (state : Lifecycle) : ofByte? state.byte = some state := by
  cases state <;> rfl

end Lifecycle

end AuthoritySet
