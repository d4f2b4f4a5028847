import AuthoritySet.Validator

/-!
# Governance commands

What operators can ask for: a seat, a vote on somebody's seat, an expulsion, a vote on it, and to
leave. `Command.check` looks at the command alone; whether it may be carried out depends on the
registry.
-/

namespace AuthoritySet

/-- What an operator asks for. -/
inductive Command where
  | submitApplication (candidate : Validator)
  | voteApplication (voter candidate : OperatorAddress) (approve : Bool)
  | proposeKick (candidate proposer : OperatorAddress)
  | voteKickProposal (voter candidate : OperatorAddress) (approve : Bool)
  | leaveValidatorSet (validator : OperatorAddress)
  deriving DecidableEq, Repr

namespace Command

/-- Whose signature a command needs. -/
def signer : Command → OperatorAddress
  | .submitApplication candidate => candidate.operator
  | .voteApplication voter _ _ => voter
  | .proposeKick _ proposer => proposer
  | .voteKickProposal voter _ _ => voter
  | .leaveValidatorSet validator => validator

/-- The stable name under which a command is counted. -/
def name : Command → String
  | .submitApplication _ => "submit_application"
  | .voteApplication .. => "vote_application"
  | .proposeKick .. => "propose_kick"
  | .voteKickProposal .. => "vote_kick_proposal"
  | .leaveValidatorSet _ => "leave_validator_set"

/-- No address of a list may be missing. -/
def checkAddresses (addresses : List OperatorAddress) : Except Failure Unit :=
  if addresses.any Identity.isMissing then .error .missingAddress else .ok ()

/-- A candidate's record must be complete, and no address may be missing. -/
def check : Command → Except Failure Unit
  | .submitApplication candidate => candidate.check
  | .voteApplication voter candidate _ => checkAddresses [voter, candidate]
  | .proposeKick candidate proposer => checkAddresses [proposer, candidate]
  | .voteKickProposal voter candidate _ => checkAddresses [voter, candidate]
  | .leaveValidatorSet validator => checkAddresses [validator]

end Command

end AuthoritySet
