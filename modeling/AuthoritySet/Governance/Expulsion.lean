import AuthoritySet.Event
import AuthoritySet.Registry

/-!
# Expulsion and departure

How a validator loses its seat: by a kick proposal on which all other seated validators vote, at
once if the quorum is zero, or because it leaves. The seat becomes free at the next epoch boundary.

* `Expulsion.propose`: opens a kick proposal, or marks the validator as leaving.
* `Expulsion.vote`: adds a vote and closes the proposal once it is decided.
* `Expulsion.leave`: marks a validator as leaving that asks for it; the last one has to stay.
-/

namespace AuthoritySet

namespace Expulsion

open Transaction

/-- Proposes to expel a seated validator that is not leaving already. -/
def propose (candidate proposer : OperatorAddress) : Transaction (List Event) := do
  require (proposer ≠ candidate) .proposerIsCandidate
  require (← Registry.validator? proposer).isSome .proposerNotValidator
  let validator ← expect (← Registry.validator? candidate) (.notValidator candidate)
  let state ← expect (← Registry.lifecycle? candidate)
    (.invariantViolation candidate .seatedWithoutState)
  require (state ≠ .leaving) .validatorLeaving
  let params ← Registry.params
  if params.isInstant then
    Registry.setLifecycle candidate .leaving
    return [.kickValidator candidate]
  else
    require (← Registry.ballot? .kickProposal candidate).isNone .alreadyInKickProposal
    Registry.openBallot .kickProposal validator
    return [.proposeKick candidate proposer]

/-- What a verdict on a kick proposal brings about. -/
def conclude (candidate : OperatorAddress) (proposal : Ballot) :
    Verdict → Transaction (List Event)
  | .approved => do
    Registry.closeBallot .kickProposal candidate
    Registry.setLifecycle candidate .leaving
    return [.kickValidator candidate]
  | .rejected => do
    Registry.closeBallot .kickProposal candidate
    return [.keepValidator candidate]
  | .pending => do
    Registry.setBallot .kickProposal proposal
    return []

/-- Votes on a kick proposal. Its subject has no vote and does not count as a voter. -/
def vote (voter candidate : OperatorAddress) (approve : Bool) : Transaction (List Event) := do
  require (voter ≠ candidate) .voterIsCandidate
  require (← Registry.validator? voter).isSome .voterNotValidator
  let proposal ← expect (← Registry.ballot? .kickProposal candidate)
    (.noKickProposalFound candidate)
  let proposal ← expect (proposal.cast? voter approve) .alreadyVoted
  let seated ← Registry.size
  let params ← Registry.params
  let verdict ← ofExcept
    (proposal.verdict (UInt64.ofNat (seated - 1)) params.quorum.toUInt64)
  let outcome ← conclude candidate proposal verdict
  return .kickVote voter candidate approve :: outcome

/-- Leaves the validator set. A kick proposal on the validator is closed. -/
def leave (validator : OperatorAddress) : Transaction (List Event) := do
  require (← Registry.validator? validator).isSome (.notValidator validator)
  let seated ← Registry.size
  require (seated ≠ 1) .onlyOneValidator
  Registry.closeBallot .kickProposal validator
  Registry.setLifecycle validator .leaving
  return [.leaveValidatorSet validator]

end Expulsion

end AuthoritySet
