import AuthoritySet.Service.Basic
import AuthoritySet.Wire.Messages

/-!
# Questions to a service

Answers are read above the store and change nothing. `Service.answer` gives them as JSON text.
-/

namespace AuthoritySet

namespace Service

open Transaction

variable {σ : Type} [ByteStore σ]

/-- The parameters in force. -/
def params (s : Service σ) : Except Failure Params := s.view Registry.params

/-- The number of entries on a page; zero stands for the number of seats. -/
def pageSize (limit : UInt32) : Transaction Nat := do
  if limit = 0 then
    let params ← Registry.params
    return params.maxValidators.toNat
  else return limit.toNat

/-- The entries of one page of the registry; pages count from one. -/
def page (number : Nat) (size : Nat) (entries : List (Except Failure Validator)) :
    Except Failure (List Validator) :=
  ((entries.drop ((number - 1) * size)).take size).mapM id

/-- A page of the registry. Before the first page there is nothing to read. -/
def validators (s : Service σ) (number limit : UInt32) : Except Failure (List Validator) :=
  if number = 0 then .ok []
  else s.view do
    let size ← pageSize limit
    let entries ← Registry.entries
    ofExcept (page number.toNat size entries)

/-- The seated validator of an operator. -/
def validator (s : Service σ) (operator : OperatorAddress) : Except Failure Validator :=
  s.view do expect (← Registry.validator? operator) .noValidatorFound

/-- The state of a seated validator. -/
def lifecycle? (s : Service σ) (operator : OperatorAddress) : Except Failure (Option Lifecycle) :=
  s.view (Registry.lifecycle? operator)

/-- The open ballots of a kind. -/
def ballots (s : Service σ) (kind : Ballot.Kind) : Except Failure (List Ballot) :=
  s.view (Registry.ballots kind)

/-- The genesis document that the present authority set could be started from. -/
def exportGenesis (s : Service σ) : Except Failure Genesis := s.view Founding.document

/-- The answer to a question, as JSON text. -/
def answer (s : Service σ) : Query → Except Failure Bytes
  | .validators number limit => (s.validators number limit).map JsonForm.write
  | .validator operator => (s.validator operator).map JsonForm.write
  | .params => s.params.map JsonForm.write
  | .applications => (s.ballots .application).map JsonForm.write
  | .kickProposals => (s.ballots .kickProposal).map JsonForm.write

end Service

end AuthoritySet
