import AuthoritySet.Validator

/-!
# Ballots

A `Ballot` counts the votes on one subject: a candidate that wants to be seated, or a seated
validator that others want to expel. It is decided as soon as the votes that are still missing
cannot change its outcome.

* `Ballot.cast`: adds a vote; nobody votes twice.
* `Ballot.verdict`: what a ballot has come to among a number of voters.
-/

namespace AuthoritySet

/-- What a ballot has come to. -/
inductive Verdict where
  /-- The votes still missing decide. -/
  | pending
  /-- There are approvals enough. -/
  | approved
  /-- The votes still missing cannot make the approvals enough. -/
  | rejected
  deriving DecidableEq, Repr

/-- Whether a verdict is final. -/
def Verdict.isFinal : Verdict → Bool
  | .pending => false
  | .approved => true
  | .rejected => true

/-- Whether a verdict is an approval. -/
def Verdict.isApproval : Verdict → Bool
  | .pending => false
  | .approved => true
  | .rejected => false

/-- The votes cast so far on one subject. -/
structure Ballot where
  subject : Validator
  approvals : UInt64
  total : UInt64
  voters : List OperatorAddress
  deriving DecidableEq, Repr

namespace Ballot

/-- What a ballot is about. -/
inductive Kind where
  /-- A candidate asks for a seat. -/
  | application
  /-- A seated validator is to be expelled. -/
  | kickProposal
  deriving DecidableEq, Repr

/-- A kind of ballot as a word. -/
def Kind.name : Kind → String
  | .application => "application"
  | .kickProposal => "kick_proposal"

/-- The ballot on a subject before the first vote. -/
def start (subject : Validator) : Ballot := ⟨subject, 0, 0, []⟩

/-- Whether somebody has voted. -/
def hasVoted (b : Ballot) (voter : OperatorAddress) : Bool := b.voters.contains voter

/-- The ballot with one more vote, unless the voter has voted before. -/
def cast? (b : Ballot) (voter : OperatorAddress) (approve : Bool) : Option Ballot :=
  if b.hasVoted voter then none
  else some
    { b with
      approvals := if approve then b.approvals + 1 else b.approvals
      total := b.total + 1
      voters := b.voters ++ [voter] }

/-- The approvals that a percentage of a number of voters asks for, rounded up. -/
def necessaryApprovals (pool quorum : UInt64) : UInt64 :=
  let hundredths := pool * quorum
  if hundredths % 100 = 0 then hundredths / 100 else hundredths / 100 + 1

/-- What a ballot has come to among `pool` voters. It is approved once the approvals suffice, and
rejected once they would not suffice even if everybody who has not voted approved. -/
def verdict (b : Ballot) (pool quorum : UInt64) : Except Failure Verdict :=
  if 100 < quorum then .error (.invalidQuorum quorum)
  else if pool < b.total then .error (.poolTooSmall pool b.total)
  else
    let necessary := necessaryApprovals pool quorum
    if necessary ≤ b.approvals then .ok .approved
    else if necessary ≤ b.approvals + (pool - b.total) then .ok .pending
    else .ok .rejected

end Ballot

end AuthoritySet
