import AuthoritySet.Event
import AuthoritySet.Registry

/-!
# Admission

How a candidate gets a seat: by an application on which all seated validators vote, or at once if
the quorum is zero.

* `Admission.submit`: opens an application, or seats the candidate.
* `Admission.vote`: adds a vote and closes the application once it is decided.
-/

namespace AuthoritySet

namespace Admission

open Transaction

/-- Applies for a seat. The operator and the consensus address must be new to the registry and, if
there is balloting, to the open applications. -/
def submit (candidate : Validator) : Transaction (List Event) := do
  let params ← Registry.params
  let seated ← Registry.size
  require (seated < params.maxValidators.toNat) .maxValidatorsReached
  require (← Registry.validator? candidate.operator).isNone .alreadyValidator
  require (← Registry.validatorAt? candidate.address).isNone .alreadyValidator
  if params.isInstant then
    Registry.seat candidate
    return [.appendValidator candidate.operator]
  else
    require (← Registry.ballot? .application candidate.operator).isNone .alreadyApplying
    require (← Registry.applicationAt? candidate.address).isNone .alreadyApplying
    Registry.openBallot .application candidate
    return [.submitApplication candidate.operator]

/-- What a verdict on an application brings about. -/
def conclude (candidate : OperatorAddress) (application : Ballot) :
    Verdict → Transaction (List Event)
  | .approved => do
    Registry.closeBallot .application candidate
    Registry.seat application.subject
    return [.appendValidator candidate]
  | .rejected => do
    Registry.closeBallot .application candidate
    return [.rejectValidator candidate]
  | .pending => do
    Registry.setBallot .application application
    return []

/-- Votes on an application. While no seat is free, nobody can vote. -/
def vote (voter candidate : OperatorAddress) (approve : Bool) : Transaction (List Event) := do
  let params ← Registry.params
  let seated ← Registry.size
  require (seated < params.maxValidators.toNat) .maxValidatorsReached
  require (← Registry.validator? voter).isSome .voterNotValidator
  let application ← expect (← Registry.ballot? .application candidate)
    (.noApplicationFound candidate)
  let application ← expect (application.cast? voter approve) .alreadyVoted
  let verdict ← ofExcept
    (application.verdict (UInt64.ofNat seated) params.quorum.toUInt64)
  let outcome ← conclude candidate application verdict
  return .applicationVote voter candidate approve :: outcome

end Admission

end AuthoritySet
