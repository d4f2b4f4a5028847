import AuthoritySet.Identity

/-!
# Governance events

What a committed command made happen, in the order in which it happened.
-/

namespace AuthoritySet

/-- Something that a committed command made happen. -/
inductive Event where
  | submitApplication (candidate : OperatorAddress)
  | appendValidator (candidate : OperatorAddress)
  | proposeKick (validator proposer : OperatorAddress)
  | kickValidator (validator : OperatorAddress)
  | leaveValidatorSet (validator : OperatorAddress)
  | approveApplication (voter candidate : OperatorAddress)
  | rejectApplication (voter candidate : OperatorAddress)
  | rejectValidator (candidate : OperatorAddress)
  | approveKickProposal (voter validator : OperatorAddress)
  | rejectKickProposal (voter validator : OperatorAddress)
  | keepValidator (validator : OperatorAddress)
  deriving DecidableEq, Repr

namespace Event

/-- The stable name of what happened. -/
def name : Event → String
  | .submitApplication _ => "submit_application"
  | .appendValidator _ => "append_validator"
  | .proposeKick .. => "propose_kick"
  | .kickValidator _ => "kick_validator"
  | .leaveValidatorSet _ => "leave_validator_set"
  | .approveApplication .. => "approve_application"
  | .rejectApplication .. => "reject_application"
  | .rejectValidator _ => "reject_validator"
  | .approveKickProposal .. => "approve_kick_proposal"
  | .rejectKickProposal .. => "reject_kick_proposal"
  | .keepValidator _ => "keep_validator"

/-- The vote on an application. -/
def applicationVote (voter candidate : OperatorAddress) (approve : Bool) : Event :=
  if approve then .approveApplication voter candidate else .rejectApplication voter candidate

/-- The vote on a kick proposal. -/
def kickVote (voter validator : OperatorAddress) (approve : Bool) : Event :=
  if approve then .approveKickProposal voter validator else .rejectKickProposal voter validator

end Event

end AuthoritySet
