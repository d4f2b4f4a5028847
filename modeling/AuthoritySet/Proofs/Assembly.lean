import AuthoritySet.Proofs.Ledger.Epoch
import AuthoritySet.Proofs.Turn

/-!
# The assembly

The rules of governance without a store. An `Assembly` is the parameters, the seats with their
holders and states, and the open ballots. There are no indexes: whether an operator or a consensus
address is taken is found out by looking at every holder and every candidate.

* `Assembly.execute`: what a command does. `Assembly.endEpoch`: what an epoch boundary does.
* `Assembly.act`: what it replies to an act. `Assembly.found`: how it starts.
* `Assembly.contents`: the bytes that stand for an assembly.
-/

namespace AuthoritySet

/-- A seat that is taken. -/
structure Seat where
  holder : Validator
  state : Lifecycle
  deriving DecidableEq, Repr

/-- The parameters, the seats and the open ballots. -/
structure Assembly where
  params : Params
  seats : Table OperatorAddress Seat := .empty
  applications : Table OperatorAddress Ballot := .empty
  kicks : Table OperatorAddress Ballot := .empty
  deriving DecidableEq

/-- Two records name one operator, or one consensus address. -/
def Validator.Resembles (v w : Validator) : Prop :=
  v.operator = w.operator ∨ v.address = w.address

instance (v w : Validator) : Decidable (v.Resembles w) :=
  inferInstanceAs (Decidable (_ ∨ _))

/-- A seat after an epoch boundary, unless it has become free. -/
def Seat.settled? (seat : Seat) : Option Seat :=
  seat.state.settled.map fun state => { seat with state }

namespace Assembly

/-! ## Commands -/

def seat (A : Assembly) (v : Validator) (state : Lifecycle) : Assembly :=
  { A with seats := A.seats.insert v.operator ⟨v, state⟩ }

/-- The assembly with the holder of a seat, if there is one, on the way out. -/
def expel (A : Assembly) (operator : OperatorAddress) : Assembly :=
  match A.seats.get? operator with
  | some seat => { A with seats := A.seats.insert operator { seat with state := .leaving } }
  | none => A

def submit (A : Assembly) (candidate : Validator) : Except Failure (List Event × Assembly) :=
  if A.params.maxValidators.toNat ≤ A.seats.size then .error .maxValidatorsReached
  else if ∃ seat ∈ A.seats.values, seat.holder.Resembles candidate then .error .alreadyValidator
  else if A.params.isInstant then
    .ok ([.appendValidator candidate.operator], A.seat candidate .joining)
  else if ∃ b ∈ A.applications.values, b.subject.Resembles candidate then .error .alreadyApplying
  else .ok ([.submitApplication candidate.operator],
    { A with applications := A.applications.insert candidate.operator (.start candidate) })

/-- What a verdict on an application brings about. -/
def concludeApplication (A : Assembly) (candidate : OperatorAddress) (application : Ballot) :
    Verdict → List Event × Assembly
  | .approved => ([.appendValidator candidate],
      { A with applications := A.applications.erase candidate }.seat application.subject .joining)
  | .rejected =>
    ([.rejectValidator candidate], { A with applications := A.applications.erase candidate })
  | .pending => ([], { A with applications := A.applications.insert candidate application })

def voteApplication (A : Assembly) (voter candidate : OperatorAddress) (approve : Bool) :
    Except Failure (List Event × Assembly) :=
  if A.params.maxValidators.toNat ≤ A.seats.size then .error .maxValidatorsReached
  else if (A.seats.get? voter).isNone then .error .voterNotValidator
  else match A.applications.get? candidate with
    | none => .error (.noApplicationFound candidate)
    | some application => match application.cast? voter approve with
      | none => .error .alreadyVoted
      | some application =>
        match application.verdict (.ofNat A.seats.size) A.params.quorum.toUInt64 with
        | .error failure => .error failure
        | .ok verdict =>
          let outcome := A.concludeApplication candidate application verdict
          .ok (.applicationVote voter candidate approve :: outcome.1, outcome.2)

def propose (A : Assembly) (candidate proposer : OperatorAddress) :
    Except Failure (List Event × Assembly) :=
  if proposer = candidate then .error .proposerIsCandidate
  else if (A.seats.get? proposer).isNone then .error .proposerNotValidator
  else match A.seats.get? candidate with
    | none => .error (.notValidator candidate)
    | some seat =>
      if seat.state = .leaving then .error .validatorLeaving
      else if A.params.isInstant then .ok ([.kickValidator candidate], A.expel candidate)
      else if (A.kicks.get? candidate).isSome then .error .alreadyInKickProposal
      else .ok ([.proposeKick candidate proposer],
        { A with kicks := A.kicks.insert candidate (.start seat.holder) })

/-- What a verdict on a kick proposal brings about. -/
def concludeKick (A : Assembly) (candidate : OperatorAddress) (proposal : Ballot) :
    Verdict → List Event × Assembly
  | .approved =>
    ([.kickValidator candidate], { A with kicks := A.kicks.erase candidate }.expel candidate)
  | .rejected => ([.keepValidator candidate], { A with kicks := A.kicks.erase candidate })
  | .pending => ([], { A with kicks := A.kicks.insert candidate proposal })

def voteKick (A : Assembly) (voter candidate : OperatorAddress) (approve : Bool) :
    Except Failure (List Event × Assembly) :=
  if voter = candidate then .error .voterIsCandidate
  else if (A.seats.get? voter).isNone then .error .voterNotValidator
  else match A.kicks.get? candidate with
    | none => .error (.noKickProposalFound candidate)
    | some proposal => match proposal.cast? voter approve with
      | none => .error .alreadyVoted
      | some proposal =>
        match proposal.verdict (.ofNat (A.seats.size - 1)) A.params.quorum.toUInt64 with
        | .error failure => .error failure
        | .ok verdict =>
          let outcome := A.concludeKick candidate proposal verdict
          .ok (.kickVote voter candidate approve :: outcome.1, outcome.2)

def leave (A : Assembly) (validator : OperatorAddress) : Except Failure (List Event × Assembly) :=
  if (A.seats.get? validator).isNone then .error (.notValidator validator)
  else if A.seats.size = 1 then .error .onlyOneValidator
  else .ok ([.leaveValidatorSet validator],
    { A with kicks := A.kicks.erase validator }.expel validator)

/-- What a command does. -/
def execute (A : Assembly) : Command → Except Failure (List Event × Assembly)
  | .submitApplication candidate => A.submit candidate
  | .voteApplication voter candidate approve => A.voteApplication voter candidate approve
  | .proposeKick candidate proposer => A.propose candidate proposer
  | .voteKickProposal voter candidate approve => A.voteKick voter candidate approve
  | .leaveValidatorSet validator => A.leave validator

/-- A command that is checked on its own first. -/
def handle (A : Assembly) (c : Command) : Except Failure (List Event × Assembly) :=
  match c.check with
  | .ok () => A.execute c
  | .error failure => .error failure

/-! ## Everything else -/

/-- All seats change at once at an epoch boundary. -/
def endEpoch (A : Assembly) : List PowerUpdate × Assembly :=
  (A.seats.values.filterMap fun seat => seat.holder.dueUpdate? seat.state,
    { A with seats := A.seats.filterMap fun _ seat => seat.settled? })

/-- The assembly after a step that leaves it as it was if it fails. -/
def answer (A : Assembly) : Except Failure (List Event × Assembly) → Except Failure Reply × Assembly
  | .ok (events, after) => (.ok (.events events), after)
  | .error failure => (.error failure, A)

/-- What an assembly replies to an act, and what it is afterwards. -/
def act (A : Assembly) : Act → Except Failure Reply × Assembly
  | .execute c => A.answer (A.execute c)
  | .handle c => A.answer (A.handle c)
  | .setParams params =>
    match params.check with
    | .ok () => (.ok .done, { A with params })
    | .error failure => (.error failure, A)
  | .endEpoch => (.ok (.updates A.endEpoch.1), A.endEpoch.2)

/-- The turns of an assembly. -/
def turns (A : Assembly) (acts : List Act) : List (Turn Assembly) := AuthoritySet.turns act A acts

/-- The assembly that a genesis document starts. Its validators have joined. -/
def found (g : Genesis) : Assembly :=
  g.validators.foldl (fun A v => A.seat v .joined) { params := g.params }

/-! ## Storage -/

/-- The index of the consensus addresses of some records. -/
def indexOf {β : Type} (records : Table OperatorAddress β) (address : β → ConsensusAddress) :
    Table ConsensusAddress OperatorAddress :=
  .ofList (records.entries.map fun e => (address e.2, e.1))

/-- An assembly as a ledger, with the indexes that belong to it. -/
def ledger (A : Assembly) : Ledger where
  params := some A.params
  validators := A.seats.map Seat.holder
  validatorIndex := indexOf A.seats (·.holder.address)
  lifecycles := A.seats.map Seat.state
  applications := A.applications
  applicationIndex := indexOf A.applications (·.subject.address)
  kickProposals := A.kicks

/-- The bytes that stand for an assembly. -/
def contents (A : Assembly) : Contents := A.ledger.contents

end Assembly

end AuthoritySet
