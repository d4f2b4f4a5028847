import AuthoritySet.Identity

/-!
# Queries

What can be asked about an authority set.
-/

namespace AuthoritySet

/-- A question about the authority set. -/
inductive Query where
  /-- A page of the registry; pages count from one, and a limit of zero stands for the number of
  seats. -/
  | validators (page limit : UInt32)
  | validator (operator : OperatorAddress)
  | params
  | applications
  | kickProposals
  deriving DecidableEq, Repr

/-- The stable name of a question. -/
def Query.name : Query → String
  | .validators .. => "validators"
  | .validator _ => "validator"
  | .params => "params"
  | .applications => "applications"
  | .kickProposals => "kick-proposals"

end AuthoritySet
