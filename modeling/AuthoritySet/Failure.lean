import AuthoritySet.Identity

/-!
# Failures

Everything that can stop a governance step, as a cause. `Failure.kind` is its short stable label,
`Failure.message?` its wording, and `Failure.isFatal` tells the one cause after which the registry
cannot be trusted any more.

A record, a document or a file that cannot be read has no wording of its own: it is reported by
its kind alone.
-/

namespace AuthoritySet

/-- Why the storage below refused to work. -/
inductive StoreFailure where
  | backend (message : String)
  | batchRejected (message : String)
  deriving DecidableEq, Repr

/-- The wording of a storage failure. -/
def StoreFailure.message : StoreFailure → String
  | .backend message => "Storage backend error: " ++ message
  | .batchRejected message => "Atomic batch rejected: " ++ message

/-- What a validator record lacks. -/
inductive ValidatorDefect where
  | missingOperator
  | missingKey
  | emptyDescription
  deriving DecidableEq, Repr

def ValidatorDefect.message : ValidatorDefect → String
  | .missingOperator => "missing validator address"
  | .missingKey => "missing consensus pubkey"
  | .emptyDescription => "empty description"

/-- What is wrong with governance parameters. -/
inductive ParamsDefect where
  | noSeats (maxValidators : UInt16)
  | quorumAboveHundred (quorum : UInt16)
  deriving DecidableEq, Repr

def ParamsDefect.message : ParamsDefect → String
  | .noSeats maxValidators => "max validators must be positive: " ++ toString maxValidators
  | .quorumAboveHundred quorum => "quorum must be a percentage: " ++ toString quorum

/-- What is wrong with a genesis document. -/
inductive GenesisDefect where
  | repeatedKey (moniker : String) (address : ConsensusAddress)
  | repeatedOperator (operator : OperatorAddress)
  | tooManyValidators (count : Nat) (maxValidators : UInt16)
  /-- The file or the document in it cannot be read. -/
  | unreadable
  deriving DecidableEq, Repr

def GenesisDefect.message? : GenesisDefect → Option String
  | .repeatedKey moniker address =>
    some ("duplicate validator in genesis state: moniker " ++ moniker ++ ", address " ++ address.hex)
  | .repeatedOperator operator => some ("duplicate operator in genesis state: " ++ operator.hex)
  | .tooManyValidators count maxValidators =>
    some (toString count ++ " validators exceed max validators " ++ toString maxValidators)
  | .unreadable => none

/-- What is wrong with stored bytes. -/
inductive CodecDefect where
  | malformedIndex
  | malformedState
  | unknownState (byte : UInt8)
  /-- A record whose bytes end early or hold no valid text. -/
  | malformedRecord
  deriving DecidableEq, Repr

def CodecDefect.message? : CodecDefect → Option String
  | .malformedIndex => some "malformed operator address index"
  | .malformedState => some "malformed validator state"
  | .unknownState byte => some ("unknown validator state " ++ toString byte)
  | .malformedRecord => none

/-- How the registry contradicts itself. -/
inductive Contradiction where
  | seatedWithoutState
  | entryWithoutState
  deriving DecidableEq, Repr

def Contradiction.message : Contradiction → String
  | .seatedWithoutState => "seated validator has no lifecycle state"
  | .entryWithoutState => "registry entry has no lifecycle state"

/-- Everything that can stop a governance step. -/
inductive Failure where
  -- What a command requires of the registry and the ballots.
  | maxValidatorsReached
  | alreadyValidator
  | alreadyApplying
  | voterNotValidator
  | noApplicationFound (candidate : OperatorAddress)
  | alreadyVoted
  | proposerIsCandidate
  | proposerNotValidator
  | notValidator (operator : OperatorAddress)
  | validatorLeaving
  | alreadyInKickProposal
  | voterIsCandidate
  | noKickProposalFound (candidate : OperatorAddress)
  | onlyOneValidator
  -- Counting votes.
  | invalidQuorum (quorum : UInt64)
  | poolTooSmall (pool total : UInt64)
  -- Checks of the input alone.
  | noValidatorFound
  | invalidValidator (defect : ValidatorDefect)
  | missingAddress
  | invalidParams (defect : ParamsDefect)
  | invalidGenesis (defect : GenesisDefect)
  -- Storage and stored data.
  | storage (failure : StoreFailure)
  | codec (defect : CodecDefect)
  | invariantViolation (operator : OperatorAddress) (contradiction : Contradiction)
  deriving DecidableEq, Repr

namespace Failure

/-- Whether the registry is corrupt, so that nothing may go on. -/
def isFatal : Failure → Bool
  | .invariantViolation .. => true
  | _ => false

/-- The short stable label of a cause, under which it is counted. -/
def kind : Failure → String
  | .maxValidatorsReached => "max_validators_reached"
  | .alreadyValidator => "already_validator"
  | .alreadyApplying => "already_applying"
  | .voterNotValidator => "voter_not_validator"
  | .noApplicationFound _ => "no_application_found"
  | .alreadyVoted => "already_voted"
  | .proposerIsCandidate => "proposer_is_candidate"
  | .proposerNotValidator => "proposer_not_validator"
  | .notValidator _ => "not_validator"
  | .validatorLeaving => "validator_leaving"
  | .alreadyInKickProposal => "already_in_kick_proposal"
  | .voterIsCandidate => "voter_is_candidate"
  | .noKickProposalFound _ => "no_kick_proposal_found"
  | .onlyOneValidator => "only_one_validator"
  | .invalidQuorum _ => "invalid_quorum_value"
  | .poolTooSmall .. => "invalid_voter_pool_size"
  | .noValidatorFound => "no_validator_found"
  | .invalidValidator _ => "invalid_validator"
  | .missingAddress => "invalid_command"
  | .invalidParams _ => "invalid_params"
  | .invalidGenesis _ => "invalid_genesis"
  | .storage _ => "storage"
  | .codec _ => "codec"
  | .invariantViolation .. => "invariant_violation"

/-- The wording of a cause, if it has one. -/
def message? : Failure → Option String
  | .maxValidatorsReached => some "Maximum number of validators reached"
  | .alreadyValidator => some "Candidate is already a validator"
  | .alreadyApplying => some "Candidate already has a pending application"
  | .voterNotValidator => some "Voter is not a validator"
  | .noApplicationFound candidate => some ("No application found for " ++ candidate.hex)
  | .alreadyVoted => some "Voter has already voted"
  | .proposerIsCandidate => some "Proposer cannot be the candidate of its own kick proposal"
  | .proposerNotValidator => some "Proposer is not a validator"
  | .notValidator operator => some ("Not a validator: " ++ operator.hex)
  | .validatorLeaving => some "Validator is already leaving the validator set"
  | .alreadyInKickProposal => some "Validator already has a pending kick proposal"
  | .voterIsCandidate => some "Voter cannot vote on its own kick proposal"
  | .noKickProposalFound candidate => some ("No kick proposal found for " ++ candidate.hex)
  | .onlyOneValidator => some "The last validator cannot leave the validator set"
  | .invalidQuorum quorum => some ("Quorum must be a percentage, got " ++ toString quorum)
  | .poolTooSmall pool total =>
    some ("Voter pool size " ++ toString pool ++ " is smaller than the " ++ toString total ++
      " votes already cast")
  | .noValidatorFound => some "No validator found"
  | .invalidValidator defect => some ("Invalid validator: " ++ defect.message)
  | .missingAddress => some "Invalid command: missing address"
  | .invalidParams defect => some ("Invalid params: " ++ defect.message)
  | .invalidGenesis defect => defect.message?.map ("Invalid genesis: " ++ ·)
  | .storage failure => some failure.message
  | .codec defect => defect.message?.map ("Codec error: " ++ ·)
  | .invariantViolation operator contradiction =>
    some ("Registry invariant violated for " ++ operator.hex ++ ": " ++ contradiction.message)

end Failure

end AuthoritySet
