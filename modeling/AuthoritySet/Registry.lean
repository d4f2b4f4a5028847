import AuthoritySet.Record
import AuthoritySet.Store.Key
import AuthoritySet.Store.Transaction

/-!
# The registry

Transactions on the typed contents of the store: the parameters, the seated validators with their
lifecycle states, and the ballots of both kinds. Validators and applications can also be found by
consensus address, through an index that holds the operator's bytes.

* `Registry.seat`, `Registry.unseat`: a validator with its index entry and its state.
* `Registry.openBallot`, `Registry.closeBallot`: a ballot, and for an application its index entry.
-/

namespace AuthoritySet

namespace Registry

open Transaction

/-! ## Reading and writing -/

/-- The record under a key, if there is one. -/
def read {α : Type} [Record α] (key : Bytes) : Transaction (Option α) := do
  match ← lookup key with
  | none => return none
  | some bytes =>
    let value ← ofExcept (Record.decode bytes)
    return some value

/-- Stores a record. -/
def write {α : Type} [Record α] (key : Bytes) (value : α) : Transaction Unit :=
  put key (Record.encode value)

/-- The operator that an index entry names. -/
def readIndex (key : Bytes) : Transaction (Option OperatorAddress) := do
  match ← lookup key with
  | none => return none
  | some bytes =>
    let operator ← expect (Identity.ofBytes? bytes) (.codec .malformedIndex)
    return some operator

/-- Removes the index entry of a consensus address, if there is an address. -/
def deleteIndex (part : Section) : Option ConsensusAddress → Transaction Unit
  | some address => delete (part.key address)
  | none => pure ()

/-- The records of a part of the store in key order. Each is decoded on its own, so that one that
cannot be decoded stands in nobody's way. -/
def listRecords {α : Type} [Record α] (part : Section) :
    Transaction (List (Except Failure α)) := do
  let pairs ← list part.beginning
  return pairs.map fun e => Record.decode e.2

/-! ## Parameters -/

/-- The stored parameters, or the usual ones as long as none are stored. -/
def params : Transaction Params := do
  let stored ← read Section.params.beginning
  return stored.getD {}

def setParams (params : Params) : Transaction Unit := write Section.params.beginning params

/-! ## Validators -/

/-- The seated validator of an operator. -/
def validator? (operator : OperatorAddress) : Transaction (Option Validator) :=
  read (Section.validators.key operator)

/-- The seated validator with a consensus address. -/
def validatorAt? (address : ConsensusAddress) : Transaction (Option Validator) := do
  match ← readIndex (Section.validatorIndex.key address) with
  | none => return none
  | some operator => validator? operator

/-- Stores a validator and its index entry. -/
def setValidator (v : Validator) : Transaction Unit := do
  write (Section.validators.key v.operator) v
  put (Section.validatorIndex.key v.address) v.operator.bytes

/-- The lifecycle state of a validator. -/
def lifecycle? (operator : OperatorAddress) : Transaction (Option Lifecycle) := do
  match ← lookup (Section.lifecycles.key operator) with
  | none => return none
  | some [byte] =>
    let state ← expect (Lifecycle.ofByte? byte) (.codec (.unknownState byte))
    return some state
  | some _ => abort (.codec .malformedState)

def setLifecycle (operator : OperatorAddress) (state : Lifecycle) : Transaction Unit :=
  put (Section.lifecycles.key operator) [state.byte]

/-- Seats a validator, which is joining from then on. -/
def seat (v : Validator) : Transaction Unit := do
  setValidator v
  setLifecycle v.operator .joining

/-- Removes a validator with its index entry and its state. -/
def unseat (operator : OperatorAddress) : Transaction Unit := do
  let seated ← validator? operator
  deleteIndex .validatorIndex (seated.map (·.address))
  delete (Section.validators.key operator)
  delete (Section.lifecycles.key operator)

/-- The seated validators in the order of their operators, each decoded on its own. -/
def entries : Transaction (List (Except Failure Validator)) := listRecords .validators

/-- The seated validators in the order of their operators. -/
def validators : Transaction (List Validator) := do
  ofExcept ((← entries).mapM id)

/-- How many validators are seated, whether their records can be decoded or not. -/
def size : Transaction Nat := do
  return (← list Section.validators.beginning).length

/-! ## Ballots -/

/-- The open ballot on an operator. -/
def ballot? (kind : Ballot.Kind) (operator : OperatorAddress) : Transaction (Option Ballot) :=
  read ((Section.ballots kind).key operator)

/-- The open application with a consensus address. -/
def applicationAt? (address : ConsensusAddress) : Transaction (Option Ballot) := do
  match ← readIndex (Section.applicationIndex.key address) with
  | none => return none
  | some operator => ballot? .application operator

/-- Stores a ballot, and for an application its index entry. -/
def setBallot (kind : Ballot.Kind) (b : Ballot) : Transaction Unit := do
  write ((Section.ballots kind).key b.subject.operator) b
  match kind with
  | .application => put (Section.applicationIndex.key b.subject.address) b.subject.operator.bytes
  | .kickProposal => pure ()

/-- Opens a ballot on a subject. -/
def openBallot (kind : Ballot.Kind) (subject : Validator) : Transaction Unit :=
  setBallot kind (.start subject)

/-- Removes the index entry of the ballot on an operator; only applications have one. -/
def deleteBallotIndex : Ballot.Kind → OperatorAddress → Transaction Unit
  | .application, operator => do
    let pending ← ballot? .application operator
    deleteIndex .applicationIndex (pending.map (·.subject.address))
  | .kickProposal, _ => pure ()

/-- Closes the ballot on an operator, if there is one. -/
def closeBallot (kind : Ballot.Kind) (operator : OperatorAddress) : Transaction Unit := do
  deleteBallotIndex kind operator
  delete ((Section.ballots kind).key operator)

/-- The open ballots of a kind in the order of their operators, each decoded on its own. -/
def ballotEntries (kind : Ballot.Kind) : Transaction (List (Except Failure Ballot)) :=
  listRecords (Section.ballots kind)

/-- The open ballots of a kind in the order of their operators. -/
def ballots (kind : Ballot.Kind) : Transaction (List Ballot) := do
  ofExcept ((← ballotEntries kind).mapM id)

end Registry

end AuthoritySet
