import AuthoritySet.Proofs.Ledger.Service

/-!
# Ledgers without descriptions

What validators say about themselves can be taken out of a ledger (`Ledger.anonymous`). It makes no
difference whether this is done before a call or after it: the answer is the same, and so is the
ledger that is left.

* `Ledger.execute_anonymous`, `Ledger.settle_anonymous`, `Ledger.establish_anonymous`: for commands,
  epoch boundaries and founding.
* `Ledger.carryOut_anonymous`: for every call.
-/

namespace AuthoritySet

/-! ## Records and calls -/

/-- A record that says nothing about itself. -/
def Validator.anonymous (v : Validator) : Validator := { v with description := {} }

/-- A ballot on a subject that says nothing about itself. -/
def Ballot.anonymous (b : Ballot) : Ballot := { b with subject := b.subject.anonymous }

def Command.anonymous : Command → Command
  | .submitApplication candidate => .submitApplication candidate.anonymous
  | c => c

def Genesis.anonymous (g : Genesis) : Genesis :=
  { g with validators := g.validators.map Validator.anonymous }

/-- A call without descriptions. -/
def Call.anonymous : Call → Call
  | .execute c => .execute c.anonymous
  | .handle c => .handle c.anonymous
  | .initialise g => .initialise g.anonymous
  | .setParams params => .setParams params
  | .endEpoch => .endEpoch

section Records

variable (v : Validator) (b : Ballot)

@[simp] theorem Validator.operator_anonymous : v.anonymous.operator = v.operator := rfl

@[simp] theorem Validator.address_anonymous : v.anonymous.address = v.address := rfl

@[simp] theorem Validator.grant_anonymous : v.anonymous.grant = v.grant := rfl

@[simp] theorem Validator.revoke_anonymous : v.anonymous.revoke = v.revoke := rfl

@[simp] theorem Ballot.subject_anonymous : b.anonymous.subject = b.subject.anonymous := rfl

theorem Ballot.start_anonymous : (Ballot.start v).anonymous = .start v.anonymous := rfl

@[simp] theorem Ballot.cast?_anonymous (voter : OperatorAddress) (approve : Bool) :
    b.anonymous.cast? voter approve = (b.cast? voter approve).map Ballot.anonymous := by
  unfold cast?
  split
  · rename_i hvoted
    rw [if_pos (show b.hasVoted voter from hvoted)]
    rfl
  · rename_i hnew
    rw [if_neg (show ¬ b.hasVoted voter from hnew)]
    rfl

@[simp] theorem Ballot.verdict_anonymous (pool quorum : UInt64) :
    b.anonymous.verdict pool quorum = b.verdict pool quorum := rfl

end Records

namespace Ledger

/-- A ledger without descriptions. -/
def anonymous (l : Ledger) : Ledger :=
  { l with
    validators := l.validators.map Validator.anonymous
    applications := l.applications.map Ballot.anonymous
    kickProposals := l.kickProposals.map Ballot.anonymous }

/-- An answer together with the ledger that is left, without descriptions. -/
def anonymised {α : Type} (r : α × Ledger) : α × Ledger := (r.1, r.2.anonymous)

/-! ## Reading -/

section Reading

variable (l : Ledger) (operator : OperatorAddress) (address : ConsensusAddress)
  (kind : Ballot.Kind)

@[simp] theorem inForce_anonymous : l.anonymous.inForce = l.inForce := rfl

@[simp] theorem lifecycles_anonymous : l.anonymous.lifecycles = l.lifecycles := rfl

@[simp] theorem validators_anonymous :
    l.anonymous.validators = l.validators.map Validator.anonymous := rfl

@[simp] theorem applications_anonymous :
    l.anonymous.applications = l.applications.map Ballot.anonymous := rfl

@[simp] theorem kickProposals_anonymous :
    l.anonymous.kickProposals = l.kickProposals.map Ballot.anonymous := rfl

theorem find_anonymous {β γ : Type} (index : Table ConsensusAddress OperatorAddress)
    (records : Table OperatorAddress β) (f : β → γ) :
    (index.get? address).bind (records.map f).get? =
      ((index.get? address).bind records.get?).map f := by
  cases index.get? address with
  | none => rfl
  | some operator => exact Table.get?_map _ _ _

@[simp] theorem validatorAt?_anonymous :
    l.anonymous.validatorAt? address = (l.validatorAt? address).map Validator.anonymous :=
  find_anonymous address l.validatorIndex l.validators _

@[simp] theorem applicationAt?_anonymous :
    l.anonymous.applicationAt? address = (l.applicationAt? address).map Ballot.anonymous :=
  find_anonymous address l.applicationIndex l.applications _

end Reading

/-! ## Updates -/

section Updates

variable (l : Ledger) (v : Validator) (operator : OperatorAddress) (state : Lifecycle)
  (kind : Ballot.Kind) (b : Ballot)

theorem setLifecycle_anonymous :
    (l.setLifecycle operator state).anonymous = l.anonymous.setLifecycle operator state := rfl

theorem seat_anonymous : (l.seat v state).anonymous = l.anonymous.seat v.anonymous state := by
  simp [anonymous, seat, setValidator, setLifecycle, Table.map_insert]

theorem unseat_anonymous : (l.unseat operator).anonymous = l.anonymous.unseat operator := by
  simp only [anonymous, unseat, Table.map_erase, Table.get?_map]
  cases l.validators.get? operator <;> rfl

theorem setBallot_anonymous :
    (l.setBallot kind b).anonymous = l.anonymous.setBallot kind b.anonymous := by
  cases kind <;> simp [anonymous, setBallot, Table.map_insert]

theorem closeBallot_anonymous :
    (l.closeBallot kind operator).anonymous = l.anonymous.closeBallot kind operator := by
  cases kind with
  | application =>
    simp only [anonymous, closeBallot, Table.map_erase, Table.get?_map]
    cases l.applications.get? operator <;> rfl
  | kickProposal => simp only [anonymous, closeBallot, Table.map_erase]

end Updates

/-! ## Commands -/

section Commands

variable (l : Ledger)

theorem submit_anonymous (candidate : Validator) :
    l.anonymous.submit candidate.anonymous = (l.submit candidate).map anonymised := by
  simp only [submit, inForce_anonymous, validators_anonymous, applications_anonymous,
    validatorAt?_anonymous, applicationAt?_anonymous, Table.size_map, Table.get?_map,
    Option.isSome_map, Validator.operator_anonymous, Validator.address_anonymous,
    ← seat_anonymous, ← Ballot.start_anonymous, ← setBallot_anonymous]
  split_ifs <;> rfl

theorem concludeApplication_anonymous (candidate : OperatorAddress) (b : Ballot)
    (verdict : Verdict) : l.anonymous.concludeApplication candidate b.anonymous verdict =
      anonymised (l.concludeApplication candidate b verdict) := by
  cases verdict <;>
    simp only [concludeApplication, anonymised, seat_anonymous, closeBallot_anonymous,
      setBallot_anonymous, Ballot.subject_anonymous]

theorem voteApplication_anonymous (voter candidate : OperatorAddress) (approve : Bool) :
    l.anonymous.voteApplication voter candidate approve =
      (l.voteApplication voter candidate approve).map anonymised := by
  simp only [voteApplication, inForce_anonymous, validators_anonymous, applications_anonymous,
    Table.size_map, Table.get?_map, Option.isNone_map]
  split
  · rfl
  split
  · rfl
  cases l.applications.get? candidate with
  | none => rfl
  | some b =>
    simp only [Option.map_some, Ballot.cast?_anonymous]
    cases b.cast? voter approve with
    | none => rfl
    | some after =>
      simp only [Option.map_some, Ballot.verdict_anonymous, concludeApplication_anonymous]
      split <;> rfl

theorem propose_anonymous (candidate proposer : OperatorAddress) :
    l.anonymous.propose candidate proposer = (l.propose candidate proposer).map anonymised := by
  simp only [propose, inForce_anonymous, validators_anonymous, lifecycles_anonymous,
    kickProposals_anonymous, Table.get?_map, Option.isNone_map, Option.isSome_map]
  split
  · rfl
  split
  · rfl
  cases l.validators.get? candidate with
  | none => rfl
  | some validator =>
    simp only [Option.map_some, ← Ballot.start_anonymous, ← setBallot_anonymous,
      ← setLifecycle_anonymous]
    split
    · rfl
    · split_ifs <;> rfl

theorem concludeKick_anonymous (candidate : OperatorAddress) (b : Ballot) (verdict : Verdict) :
    l.anonymous.concludeKick candidate b.anonymous verdict =
      anonymised (l.concludeKick candidate b verdict) := by
  cases verdict <;>
    simp only [concludeKick, anonymised, setLifecycle_anonymous, closeBallot_anonymous,
      setBallot_anonymous]

theorem voteKick_anonymous (voter candidate : OperatorAddress) (approve : Bool) :
    l.anonymous.voteKick voter candidate approve =
      (l.voteKick voter candidate approve).map anonymised := by
  simp only [voteKick, inForce_anonymous, validators_anonymous, kickProposals_anonymous,
    Table.size_map, Table.get?_map, Option.isNone_map]
  split
  · rfl
  split
  · rfl
  cases l.kickProposals.get? candidate with
  | none => rfl
  | some b =>
    simp only [Option.map_some, Ballot.cast?_anonymous]
    cases b.cast? voter approve with
    | none => rfl
    | some after =>
      simp only [Option.map_some, Ballot.verdict_anonymous, concludeKick_anonymous]
      split <;> rfl

theorem leave_anonymous (validator : OperatorAddress) :
    l.anonymous.leave validator = (l.leave validator).map anonymised := by
  simp only [leave, validators_anonymous, Table.size_map, Table.get?_map, Option.isNone_map,
    ← closeBallot_anonymous, ← setLifecycle_anonymous]
  split_ifs <;> rfl

/-- A command does the same without descriptions. -/
theorem execute_anonymous (c : Command) :
    l.anonymous.execute c.anonymous = (l.execute c).map anonymised := by
  cases c with
  | submitApplication candidate => exact l.submit_anonymous candidate
  | voteApplication voter candidate approve =>
    exact l.voteApplication_anonymous voter candidate approve
  | proposeKick candidate proposer => exact l.propose_anonymous candidate proposer
  | voteKickProposal voter candidate approve => exact l.voteKick_anonymous voter candidate approve
  | leaveValidatorSet validator => exact l.leave_anonymous validator

end Commands

/-! ## Epoch boundaries, founding and calls -/

theorem settleIn_anonymous (l : Ledger) (v : Validator) (state : Lifecycle) :
    l.anonymous.settleIn v.anonymous state = anonymised (l.settleIn v state) := by
  cases state with
  | joined => rfl
  | joining => rfl
  | leaving => simp [settleIn, anonymised, unseat_anonymous]

theorem settleAll_anonymous (l : Ledger) (vs : List Validator) :
    l.anonymous.settleAll (vs.map Validator.anonymous) = (l.settleAll vs).map anonymised := by
  induction vs generalizing l with
  | nil => rfl
  | cons v rest ih =>
    rw [List.map_cons, settleAll, settleAll, lifecycles_anonymous, Validator.operator_anonymous]
    cases l.lifecycles.get? v.operator with
    | none => rfl
    | some state =>
      simp only [settleIn_anonymous, anonymised, ih]
      cases (l.settleIn v state).2.settleAll rest <;> rfl

/-- An epoch boundary does the same without descriptions. -/
theorem settle_anonymous (l : Ledger) : l.anonymous.settle = l.settle.map anonymised := by
  rw [settle, validators_anonymous, Table.values_map, settleAll_anonymous]
  rfl

theorem seatAll_anonymous (l : Ledger) (vs : List Validator) :
    l.anonymous.seatAll (vs.map Validator.anonymous) = (l.seatAll vs).anonymous := by
  induction vs generalizing l with
  | nil => rfl
  | cons v rest ih => rw [List.map_cons, seatAll, seatAll, ← seat_anonymous, ih]

/-- Founding does the same without descriptions. -/
theorem establish_anonymous (l : Ledger) (g : Genesis) :
    l.anonymous.establish g.anonymous = anonymised (l.establish g) := by
  have hseated := (l.setParams g.params).seatAll_anonymous g.validators
  refine Prod.ext ?_ hseated
  simp [establish, Genesis.anonymous, anonymised, Function.comp_def]

/-- A call does the same without descriptions. -/
theorem carryOut_anonymous (l : Ledger) (c : Call) :
    l.anonymous.carryOut c.anonymous = (l.carryOut c).map anonymised := by
  cases c with
  | execute c =>
    rw [Call.anonymous, carryOut, carryOut, execute_anonymous]
    cases l.execute c <;> rfl
  | handle c =>
    rw [Call.anonymous, carryOut, carryOut, execute_anonymous]
    cases l.execute c <;> rfl
  | initialise g =>
    rw [Call.anonymous, carryOut, carryOut, establish_anonymous]
    rfl
  | setParams params => rfl
  | endEpoch =>
    rw [Call.anonymous, carryOut, carryOut, settle_anonymous]
    cases l.settle <;> rfl

end Ledger

end AuthoritySet
