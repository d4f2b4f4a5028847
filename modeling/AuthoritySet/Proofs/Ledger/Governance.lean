import AuthoritySet.Proofs.Ledger.Registry
import AuthoritySet.Service.Basic

/-!
# Governance on ledgers

What each governance step does to a ledger. The functions of this module answer what the
transactions answer on the bytes of a ledger, failures included, and give the ledger whose bytes
these leave (`run_submit`, `run_voteApplication`, `run_propose`, `run_voteKick`, `run_leave`,
`run_settle`, `run_establish`).
-/

namespace AuthoritySet

namespace Ledger

/-! ## Admission -/

def submit (l : Ledger) (candidate : Validator) : Except Failure (List Event × Ledger) :=
  if l.inForce.maxValidators.toNat ≤ l.validators.size then .error .maxValidatorsReached
  else if (l.validators.get? candidate.operator).isSome ∨ (l.validatorAt? candidate.address).isSome
  then .error .alreadyValidator
  else if l.inForce.isInstant then
    .ok ([.appendValidator candidate.operator], l.seat candidate .joining)
  else if (l.applications.get? candidate.operator).isSome ∨
      (l.applicationAt? candidate.address).isSome
  then .error .alreadyApplying
  else .ok ([.submitApplication candidate.operator], l.setBallot .application (.start candidate))

/-- What a verdict on an application brings about. -/
def concludeApplication (l : Ledger) (candidate : OperatorAddress) (application : Ballot) :
    Verdict → List Event × Ledger
  | .approved =>
    ([.appendValidator candidate],
      (l.closeBallot .application candidate).seat application.subject .joining)
  | .rejected => ([.rejectValidator candidate], l.closeBallot .application candidate)
  | .pending => ([], l.setBallot .application application)

def voteApplication (l : Ledger) (voter candidate : OperatorAddress) (approve : Bool) :
    Except Failure (List Event × Ledger) :=
  if l.inForce.maxValidators.toNat ≤ l.validators.size then .error .maxValidatorsReached
  else if (l.validators.get? voter).isNone then .error .voterNotValidator
  else match l.applications.get? candidate with
    | none => .error (.noApplicationFound candidate)
    | some application => match application.cast? voter approve with
      | none => .error .alreadyVoted
      | some application =>
        match application.verdict (.ofNat l.validators.size) l.inForce.quorum.toUInt64 with
        | .error failure => .error failure
        | .ok verdict =>
          let outcome := l.concludeApplication candidate application verdict
          .ok (.applicationVote voter candidate approve :: outcome.1, outcome.2)

/-! ## Expulsion and departure -/

def propose (l : Ledger) (candidate proposer : OperatorAddress) :
    Except Failure (List Event × Ledger) :=
  if proposer = candidate then .error .proposerIsCandidate
  else if (l.validators.get? proposer).isNone then .error .proposerNotValidator
  else match l.validators.get? candidate with
    | none => .error (.notValidator candidate)
    | some validator => match l.lifecycles.get? candidate with
      | none => .error (.invariantViolation candidate .seatedWithoutState)
      | some state =>
        if state = .leaving then .error .validatorLeaving
        else if l.inForce.isInstant then
          .ok ([.kickValidator candidate], l.setLifecycle candidate .leaving)
        else if (l.kickProposals.get? candidate).isSome then .error .alreadyInKickProposal
        else .ok ([.proposeKick candidate proposer], l.setBallot .kickProposal (.start validator))

/-- What a verdict on a kick proposal brings about. -/
def concludeKick (l : Ledger) (candidate : OperatorAddress) (proposal : Ballot) :
    Verdict → List Event × Ledger
  | .approved => ([.kickValidator candidate],
      (l.closeBallot .kickProposal candidate).setLifecycle candidate .leaving)
  | .rejected => ([.keepValidator candidate], l.closeBallot .kickProposal candidate)
  | .pending => ([], l.setBallot .kickProposal proposal)

def voteKick (l : Ledger) (voter candidate : OperatorAddress) (approve : Bool) :
    Except Failure (List Event × Ledger) :=
  if voter = candidate then .error .voterIsCandidate
  else if (l.validators.get? voter).isNone then .error .voterNotValidator
  else match l.kickProposals.get? candidate with
    | none => .error (.noKickProposalFound candidate)
    | some proposal => match proposal.cast? voter approve with
      | none => .error .alreadyVoted
      | some proposal =>
        match proposal.verdict (.ofNat (l.validators.size - 1)) l.inForce.quorum.toUInt64 with
        | .error failure => .error failure
        | .ok verdict =>
          let outcome := l.concludeKick candidate proposal verdict
          .ok (.kickVote voter candidate approve :: outcome.1, outcome.2)

def leave (l : Ledger) (validator : OperatorAddress) : Except Failure (List Event × Ledger) :=
  if (l.validators.get? validator).isNone then .error (.notValidator validator)
  else if l.validators.size = 1 then .error .onlyOneValidator
  else .ok ([.leaveValidatorSet validator],
    (l.closeBallot .kickProposal validator).setLifecycle validator .leaving)

/-! ## Commands, epochs and genesis -/

/-- What a command does. -/
def execute (l : Ledger) : Command → Except Failure (List Event × Ledger)
  | .submitApplication candidate => l.submit candidate
  | .voteApplication voter candidate approve => l.voteApplication voter candidate approve
  | .proposeKick candidate proposer => l.propose candidate proposer
  | .voteKickProposal voter candidate approve => l.voteKick voter candidate approve
  | .leaveValidatorSet validator => l.leave validator

/-- Settles a validator that is in a state. -/
def settleIn (l : Ledger) (v : Validator) : Lifecycle → List PowerUpdate × Ledger
  | .joined => ([], l)
  | .joining => ([v.grant], l.setLifecycle v.operator .joined)
  | .leaving => ([v.revoke], l.unseat v.operator)

/-- Settles some validators, one after the other. -/
def settleAll (l : Ledger) : List Validator → Except Failure (List PowerUpdate × Ledger)
  | [] => .ok ([], l)
  | v :: rest => match l.lifecycles.get? v.operator with
    | none => .error (.invariantViolation v.operator .entryWithoutState)
    | some state =>
      ((l.settleIn v state).2.settleAll rest).map fun r => ((l.settleIn v state).1 ++ r.1, r.2)

/-- Settles an epoch boundary. -/
def settle (l : Ledger) : Except Failure (List PowerUpdate × Ledger) :=
  l.settleAll l.validators.values

/-- Seats validators that are known to the consensus layer from the start. -/
def seatAll (l : Ledger) : List Validator → Ledger
  | [] => l
  | v :: rest => (l.seat v .joined).seatAll rest

/-- Stores the parameters and seats the validators of a genesis document. -/
def establish (l : Ledger) (g : Genesis) : List PowerUpdate × Ledger :=
  (g.validators.map Validator.grant, (l.setParams g.params).seatAll g.validators)

/-! ## The transactions on the bytes of a ledger -/

open Transaction

variable {l : Ledger}

/-- An answer together with the bytes of the ledger that is left. -/
def stored {α : Type} (r : α × Ledger) : α × Contents := (r.1, r.2.contents)

theorem run_submit (h : l.Legible) (candidate : Validator) :
    (Admission.submit candidate).run l.contents = (l.submit candidate).map stored := by
  simp only [Admission.submit, Registry.openBallot, run_require, run_ite,
    run_bind_of_ok run_params, run_bind_of_ok run_size, run_bind_of_ok (run_validator? _),
    run_bind_of_ok (run_validatorAt? _), run_bind_of_ok (run_ballot? h _ _),
    run_bind_of_ok (run_applicationAt? h _), run_bind_of_ok (run_seat _),
    run_bind_of_ok (run_setBallot _ _), run_pure, submit, ballots]
  by_cases hfull : l.inForce.maxValidators.toNat ≤ l.validators.size
  · simp [hfull, Nat.not_lt.mpr hfull, Except.map]
  cases l.validators.get? candidate.operator <;> cases l.validatorAt? candidate.address <;>
    cases l.applications.get? candidate.operator <;> cases l.applicationAt? candidate.address <;>
    cases l.inForce.isInstant <;> simp [hfull, Nat.not_le.mp hfull, Except.map, stored]

theorem run_concludeApplication (h : l.Legible) (candidate : OperatorAddress) (b : Ballot)
    (verdict : Verdict) : (Admission.conclude candidate b verdict).run l.contents =
      .ok (stored (l.concludeApplication candidate b verdict)) := by
  cases verdict <;>
    simp only [Admission.conclude, run_bind_of_ok (run_closeBallot h _ _),
      run_bind_of_ok (run_seat _), run_bind_of_ok (run_setBallot _ _), run_pure, stored,
      concludeApplication]

theorem run_voteApplication (h : l.Legible) (voter candidate : OperatorAddress) (approve : Bool) :
    (Admission.vote voter candidate approve).run l.contents =
      (l.voteApplication voter candidate approve).map stored := by
  simp only [Admission.vote, run_require, run_expect, run_ofExcept, run_bind_of_ok run_params,
    run_bind_of_ok run_size, run_bind_of_ok (run_validator? _), run_bind_of_ok (run_ballot? h _ _),
    run_bind_of_ok (run_concludeApplication h _ _ _), voteApplication, ballots]
  by_cases hfull : l.inForce.maxValidators.toNat ≤ l.validators.size
  · simp [hfull, Nat.not_lt.mpr hfull, Except.map]
  cases l.validators.get? voter with
  | none => simp [hfull, Nat.not_le.mp hfull, Except.map]
  | some _ =>
    simp only [hfull, Nat.not_le.mp hfull, decide_true, Option.isSome_some, Option.isNone_some,
      if_true, if_false, Bool.false_eq_true]
    cases l.applications.get? candidate with
    | none => rfl
    | some application =>
      simp only
      cases application.cast? voter approve with
      | none => rfl
      | some application =>
        simp only
        cases application.verdict (.ofNat l.validators.size) l.inForce.quorum.toUInt64 <;> rfl

theorem run_propose (h : l.Legible) (candidate proposer : OperatorAddress) :
    (Expulsion.propose candidate proposer).run l.contents =
      (l.propose candidate proposer).map stored := by
  simp only [Expulsion.propose, Registry.openBallot, run_require, run_expect, run_ite,
    run_bind_of_ok run_params, run_bind_of_ok (run_validator? _), run_bind_of_ok (run_lifecycle? _),
    run_bind_of_ok (run_ballot? h _ _), run_bind_of_ok (run_setLifecycle _ _),
    run_bind_of_ok (run_setBallot _ _), run_pure, propose, ballots]
  by_cases hself : proposer = candidate
  · simp [hself, Except.map]
  cases l.validators.get? proposer with
  | none => simp [hself, Except.map]
  | some _ =>
    cases l.validators.get? candidate with
    | none => simp [hself, Except.map]
    | some validator =>
      cases l.lifecycles.get? candidate with
      | none => simp [hself, Except.map]
      | some state =>
        cases l.kickProposals.get? candidate <;> cases l.inForce.isInstant <;> cases state <;>
          simp [hself, Except.map, stored]

theorem run_concludeKick (h : l.Legible) (candidate : OperatorAddress) (b : Ballot)
    (verdict : Verdict) : (Expulsion.conclude candidate b verdict).run l.contents =
      .ok (stored (l.concludeKick candidate b verdict)) := by
  cases verdict <;>
    simp only [Expulsion.conclude, run_bind_of_ok (run_closeBallot h _ _),
      run_bind_of_ok (run_setLifecycle _ _), run_bind_of_ok (run_setBallot _ _), run_pure, stored,
      concludeKick]

theorem run_voteKick (h : l.Legible) (voter candidate : OperatorAddress) (approve : Bool) :
    (Expulsion.vote voter candidate approve).run l.contents =
      (l.voteKick voter candidate approve).map stored := by
  simp only [Expulsion.vote, run_require, run_expect, run_ofExcept, run_bind_of_ok run_params,
    run_bind_of_ok run_size, run_bind_of_ok (run_validator? _), run_bind_of_ok (run_ballot? h _ _),
    run_bind_of_ok (run_concludeKick h _ _ _), voteKick, ballots]
  by_cases hself : voter = candidate
  · simp [hself, Except.map]
  simp only [ne_eq, hself, not_false_eq_true, decide_true, if_true, if_false]
  cases l.validators.get? voter with
  | none => rfl
  | some _ =>
    simp only [Option.isSome_some, Option.isNone_some, if_true, if_false, Bool.false_eq_true]
    cases l.kickProposals.get? candidate with
    | none => rfl
    | some proposal =>
      simp only
      cases proposal.cast? voter approve with
      | none => rfl
      | some proposal =>
        simp only
        cases proposal.verdict (.ofNat (l.validators.size - 1)) l.inForce.quorum.toUInt64 <;> rfl

theorem run_leave (h : l.Legible) (validator : OperatorAddress) :
    (Expulsion.leave validator).run l.contents = (l.leave validator).map stored := by
  simp only [Expulsion.leave, run_require, run_bind_of_ok (run_validator? _),
    run_bind_of_ok run_size, run_bind_of_ok (run_closeBallot h _ _),
    run_bind_of_ok (run_setLifecycle _ _), run_pure, leave]
  by_cases hone : l.validators.size = 1 <;> cases l.validators.get? validator <;>
    simp [hone, Except.map, stored]

/-- A command on the bytes of a ledger is the command on the ledger. -/
theorem run_execute (h : l.Legible) (c : Command) :
    c.transaction.run l.contents = (l.execute c).map stored := by
  cases c with
  | submitApplication candidate => exact run_submit h candidate
  | voteApplication voter candidate approve => exact run_voteApplication h voter candidate approve
  | proposeKick candidate proposer => exact run_propose h candidate proposer
  | voteKickProposal voter candidate approve => exact run_voteKick h voter candidate approve
  | leaveValidatorSet validator => exact run_leave h validator

theorem run_settleIn (v : Validator) (state : Lifecycle) :
    (Epoch.settleIn v state).run l.contents = .ok (stored (l.settleIn v state)) := by
  cases state <;>
    simp only [Epoch.settleIn, run_bind_of_ok (run_setLifecycle _ _),
      run_bind_of_ok (run_unseat _), run_pure, stored, settleIn]

theorem run_settleAll (vs : List Validator) :
    (Epoch.settleAll (vs.map .ok)).run l.contents = (l.settleAll vs).map stored := by
  induction vs generalizing l with
  | nil => rfl
  | cons v rest ih =>
    simp only [List.map_cons, Epoch.settleAll, settleAll, run_ofExcept, run_expect,
      run_bind_of_ok (run_lifecycle? _), run_bind_of_ok (run_settleIn _ _)]
    cases l.lifecycles.get? v.operator with
    | none => rfl
    | some state =>
      simp only
      rw [run_bind, ih]
      cases (l.settleIn v state).2.settleAll rest <;> rfl

/-- Settling the bytes of a ledger is settling the ledger. -/
theorem run_settle : Epoch.settle.run l.contents = l.settle.map stored := by
  rw [Epoch.settle, run_bind_of_ok run_entries, settle, Table.values, ← run_settleAll,
    List.map_map]
  rfl

theorem run_seatAll (vs : List Validator) :
    (Founding.seatAll vs).run l.contents =
      .ok (vs.map Validator.grant, (l.seatAll vs).contents) := by
  induction vs generalizing l with
  | nil => rfl
  | cons v rest ih =>
    rw [Founding.seatAll, run_bind_of_ok (run_setValidator _),
      run_bind_of_ok (run_setLifecycle _ _), run_bind_of_ok ih]
    rfl

/-- Founding on the bytes of a ledger is founding on the ledger. -/
theorem run_establish (g : Genesis) :
    (Founding.establish g).run l.contents = .ok (stored (l.establish g)) := by
  rw [Founding.establish, run_bind_of_ok (run_setParams g.params)]
  exact run_seatAll g.validators

end Ledger

end AuthoritySet
