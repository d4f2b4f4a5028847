import AuthoritySet.Hex
import AuthoritySet.Sha256

/-!
# Identities of a validator

An `OperatorAddress` signs governance commands, a `ConsensusKey` is what the consensus layer
trusts, and the `ConsensusAddress` is derived from that key. All three are byte strings of a fixed
length, shown as lower-case hexadecimal text; the one of zeros stands for a missing identity.

* `Identity.ofHex`: reads the text form, in either case, or says what is wrong with it.
* `ConsensusKey.address`: the first twenty bytes of the key's SHA-256 digest.
-/

namespace AuthoritySet

/-- What an identity identifies. -/
inductive IdentityKind where
  | operator
  | consensus
  | publicKey
  deriving DecidableEq, Repr

/-- The number of bytes of an identity. -/
def IdentityKind.size : IdentityKind → Nat
  | .operator => 20
  | .consensus => 20
  | .publicKey => 32

/-- The name under which an identity is shown to a developer. -/
def IdentityKind.label : IdentityKind → String
  | .operator => "OperatorAddress"
  | .consensus => "ConsensusAddress"
  | .publicKey => "ConsensusPubKey"

/-- A byte string of the length that its kind asks for. -/
structure Identity (kind : IdentityKind) where
  bytes : Bytes
  length_eq : bytes.length = kind.size
  deriving DecidableEq, Repr

/-- The account that signs a validator's governance commands, and its key in the registry. -/
abbrev OperatorAddress := Identity .operator

/-- The name of a validator in the consensus layer. -/
abbrev ConsensusAddress := Identity .consensus

/-- The public key that the consensus layer is given. -/
abbrev ConsensusKey := Identity .publicKey

namespace Identity

variable {kind : IdentityKind}

theorem ext {a b : Identity kind} (h : a.bytes = b.bytes) : a = b := by
  cases a; cases b; cases h; rfl

/-- Identities are ordered as their bytes. -/
instance : LT (Identity kind) := ⟨fun a b => a.bytes < b.bytes⟩

instance : LE (Identity kind) := ⟨fun a b => a.bytes ≤ b.bytes⟩

instance : DecidableLT (Identity kind) := fun a b => inferInstanceAs (Decidable (a.bytes < b.bytes))

instance : Std.IsLinearOrder (Identity kind) where
  le_refl a := Std.le_refl a.bytes
  le_trans a b c := Std.le_trans (a := a.bytes) (b := b.bytes) (c := c.bytes)
  le_antisymm _ _ h₁ h₂ := ext (Std.le_antisymm h₁ h₂)
  le_total a b := Std.le_total (a := a.bytes) (b := b.bytes)

instance : Std.LawfulOrderLT (Identity kind) where
  lt_iff a b := Std.LawfulOrderLT.lt_iff a.bytes b.bytes

/-- The identity of zeros. -/
def zero : Identity kind := ⟨List.replicate kind.size 0, List.length_replicate⟩

instance : Inhabited (Identity kind) := ⟨zero⟩

/-- Whether an identity is missing: all its bytes are zero. -/
def isMissing (id : Identity kind) : Bool := id.bytes.all (· == 0)

/-- The identity with these bytes, if there are as many as it takes. -/
def ofBytes? (bytes : Bytes) : Option (Identity kind) :=
  if h : bytes.length = kind.size then some ⟨bytes, h⟩ else none

/-- The identity as lower-case hexadecimal text. -/
def hex (id : Identity kind) : String := Bytes.ascii (Hex.encode id.bytes)

/-- The identity as a developer sees it: its text in parentheses behind its label. -/
def labelled (id : Identity kind) : String := kind.label ++ "(" ++ id.hex ++ ")"

/-- The identity with a text form, or what is wrong with the text. -/
def ofHex (text : String) : Except Hex.Defect (Identity kind) := do
  let bytes ← Hex.decodeExactly kind.size (Bytes.ofText text)
  match ofBytes? bytes with
  | some id => .ok id
  | none => .error .wrongLength

end Identity

/-- The address that the consensus layer knows a key by: the first twenty bytes of its SHA-256
digest. -/
def ConsensusKey.address (key : ConsensusKey) : ConsensusAddress :=
  ⟨(Sha256.digest key.bytes).take 20, by simp [Sha256.length_digest, IdentityKind.size]⟩

end AuthoritySet
