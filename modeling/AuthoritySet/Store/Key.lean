import AuthoritySet.Ballot

/-!
# Keys

Every key is one byte that names a part of the store, followed by the bare bytes of an identity.
The parameters stand under their byte alone.
-/

namespace AuthoritySet

/-- The parts of the store. -/
inductive Section where
  | params
  | validators
  /-- From consensus addresses to the operators of validators. -/
  | validatorIndex
  | lifecycles
  | applications
  /-- From consensus addresses to the operators of candidates. -/
  | applicationIndex
  | kickProposals
  deriving DecidableEq, Repr

namespace Section

/-- The byte that the keys of a part start with. -/
def tag : Section → UInt8
  | .params => 0x20
  | .validators => 0x21
  | .validatorIndex => 0x22
  | .lifecycles => 0x23
  | .applications => 0x24
  | .applicationIndex => 0x25
  | .kickProposals => 0x26

/-- The part that holds the ballots of a kind. -/
def ballots : Ballot.Kind → Section
  | .application => .applications
  | .kickProposal => .kickProposals

/-- What the keys of a part start with; of the parameters, the whole key. -/
def beginning (part : Section) : Bytes := [part.tag]

/-- The key of an identity in a part. -/
def key {kind : IdentityKind} (part : Section) (id : Identity kind) : Bytes := part.tag :: id.bytes

end Section

end AuthoritySet
