import AuthoritySet.Proofs.Ledger.Governance

/-!
# What a command does

A command that is carried out takes one of seven ways (`Ledger.Step`), each with everything that
was checked before it. Whatever holds after every command is proved by going through them
(`Ledger.Step.of_execute`). The lemmas before them say which tables an update leaves alone.
-/

namespace AuthoritySet

namespace Ledger

variable {l l' : Ledger}

/-! ## Updates and tables -/

section Updates

variable (l : Ledger) (v : Validator) (operator : OperatorAddress) (state : Lifecycle)
  (kind : Ballot.Kind) (b : Ballot) (params : Params)

@[simp] theorem validators_seat :
    (l.seat v state).validators = l.validators.insert v.operator v := rfl

@[simp] theorem lifecycles_seat :
    (l.seat v state).lifecycles = l.lifecycles.insert v.operator state := rfl

@[simp] theorem ballots_seat : (l.seat v state).ballots kind = l.ballots kind := by
  cases kind <;> rfl

@[simp] theorem validators_setLifecycle :
    (l.setLifecycle operator state).validators = l.validators := rfl

@[simp] theorem lifecycles_setLifecycle :
    (l.setLifecycle operator state).lifecycles = l.lifecycles.insert operator state := rfl

@[simp] theorem ballots_setLifecycle :
    (l.setLifecycle operator state).ballots kind = l.ballots kind := by cases kind <;> rfl

@[simp] theorem validators_setBallot : (l.setBallot kind b).validators = l.validators := by
  cases kind <;> rfl

@[simp] theorem lifecycles_setBallot : (l.setBallot kind b).lifecycles = l.lifecycles := by
  cases kind <;> rfl

@[simp] theorem params_setBallot : (l.setBallot kind b).params = l.params := by cases kind <;> rfl

@[simp] theorem inForce_setBallot : (l.setBallot kind b).inForce = l.inForce := by
  cases kind <;> rfl

@[simp] theorem get?_ballots_setBallot (kind' : Ballot.Kind) (op : OperatorAddress) :
    ((l.setBallot kind b).ballots kind').get? op =
      if kind' = kind ∧ op = b.subject.operator then some b else (l.ballots kind').get? op := by
  cases kind <;> cases kind' <;> simp [setBallot, ballots]

@[simp] theorem validators_closeBallot :
    (l.closeBallot kind operator).validators = l.validators := by
  cases kind <;> rfl

@[simp] theorem lifecycles_closeBallot :
    (l.closeBallot kind operator).lifecycles = l.lifecycles := by
  cases kind <;> rfl

@[simp] theorem params_closeBallot : (l.closeBallot kind operator).params = l.params := by
  cases kind <;> rfl

@[simp] theorem inForce_closeBallot : (l.closeBallot kind operator).inForce = l.inForce := by
  cases kind <;> rfl

@[simp] theorem get?_ballots_closeBallot (kind' : Ballot.Kind) (op : OperatorAddress) :
    ((l.closeBallot kind operator).ballots kind').get? op =
      if kind' = kind ∧ op = operator then none else (l.ballots kind').get? op := by
  cases kind <;> cases kind' <;> simp [closeBallot, ballots]

theorem get?_kickProposals_closeBallot (op : OperatorAddress) :
    (l.closeBallot .kickProposal operator).kickProposals.get? op =
      if op = operator then none else l.kickProposals.get? op :=
  Table.get?_erase _ _ op

@[simp] theorem ballots_setParams : (l.setParams params).ballots kind = l.ballots kind := by
  cases kind <;> rfl

@[simp] theorem ballots_seatAll (vs : List Validator) :
    (l.seatAll vs).ballots kind = l.ballots kind := by
  induction vs generalizing l with
  | nil => rfl
  | cons v rest ih => rw [seatAll, ih, ballots_seat]

/-- Founding opens no ballot. -/
@[simp] theorem get?_ballots_establish (g : Genesis) :
    ((({} : Ledger).establish g).2.ballots kind).get? operator = none := by
  rw [establish, ballots_seatAll]
  cases kind <;> rfl

@[simp] theorem inForce_seatAll (vs : List Validator) : (l.seatAll vs).inForce = l.inForce := by
  induction vs generalizing l with
  | nil => rfl
  | cons v rest ih => exact ih _

end Updates

/-- A ballot that is found after one was put in is that one, or was there before. -/
theorem ballots_setBallot_cases {kind kind' : Ballot.Kind} {b b' : Ballot}
    {operator : OperatorAddress}
    (h : ((l.setBallot kind b).ballots kind').get? operator = some b') :
    (kind' = kind ∧ operator = b.subject.operator ∧ b' = b) ∨
      (¬ (kind' = kind ∧ operator = b.subject.operator) ∧
        (l.ballots kind').get? operator = some b') := by
  rw [get?_ballots_setBallot] at h
  split at h
  · rename_i hhere
    exact .inl ⟨hhere.1, hhere.2, (Option.some.inj h).symm⟩
  · rename_i hne
    exact .inr ⟨hne, h⟩

/-- A ballot that is found after one was closed was there before. -/
theorem ballots_of_closeBallot {kind kind' : Ballot.Kind} {b : Ballot}
    {operator operator' : OperatorAddress}
    (h : ((l.closeBallot kind operator).ballots kind').get? operator' = some b) :
    (l.ballots kind').get? operator' = some b := by
  rw [get?_ballots_closeBallot] at h
  split at h
  · cases h
  · exact h

/-! ## Steps -/

/-- The ways in which a command is carried out, with its events and the ledger it leaves. -/
inductive Step (l : Ledger) : Command → List Event → Ledger → Prop
  /-- Without balloting a candidate is seated at once. -/
  | seatAtOnce {candidate : Validator}
    (free : l.validators.size < l.inForce.maxValidators.toNat)
    (newOperator : l.validators.get? candidate.operator = none)
    (newAddress : l.validatorAt? candidate.address = none)
    (instant : l.inForce.isInstant) :
    Step l (.submitApplication candidate) [.appendValidator candidate.operator]
      (l.seat candidate .joining)
  /-- With balloting an application is opened. -/
  | apply {candidate : Validator}
    (free : l.validators.size < l.inForce.maxValidators.toNat)
    (newOperator : l.validators.get? candidate.operator = none)
    (newAddress : l.validatorAt? candidate.address = none)
    (balloting : l.inForce.isInstant = false)
    (notApplying : l.applications.get? candidate.operator = none)
    (notApplyingAt : l.applicationAt? candidate.address = none) :
    Step l (.submitApplication candidate) [.submitApplication candidate.operator]
      (l.setBallot .application (.start candidate))
  | voteApplication {voter candidate : OperatorAddress} {approve : Bool} {before after : Ballot}
    {verdict : Verdict}
    (free : l.validators.size < l.inForce.maxValidators.toNat)
    (seated : (l.validators.get? voter).isSome)
    (opened : l.applications.get? candidate = some before)
    (cast : before.cast? voter approve = some after)
    (reached : after.verdict (.ofNat l.validators.size) l.inForce.quorum.toUInt64 = .ok verdict) :
    Step l (.voteApplication voter candidate approve)
      (.applicationVote voter candidate approve ::
        (l.concludeApplication candidate after verdict).1)
      (l.concludeApplication candidate after verdict).2
  /-- Without balloting a validator is expelled at once. -/
  | expel {candidate proposer : OperatorAddress} {validator : Validator} {state : Lifecycle}
    (other : proposer ≠ candidate)
    (seated : (l.validators.get? proposer).isSome)
    (found : l.validators.get? candidate = some validator)
    (stateFound : l.lifecycles.get? candidate = some state)
    (staying : state ≠ .leaving)
    (instant : l.inForce.isInstant) :
    Step l (.proposeKick candidate proposer) [.kickValidator candidate]
      (l.setLifecycle candidate .leaving)
  /-- With balloting a kick proposal is opened. -/
  | propose {candidate proposer : OperatorAddress} {validator : Validator} {state : Lifecycle}
    (other : proposer ≠ candidate)
    (seated : (l.validators.get? proposer).isSome)
    (found : l.validators.get? candidate = some validator)
    (stateFound : l.lifecycles.get? candidate = some state)
    (staying : state ≠ .leaving)
    (balloting : l.inForce.isInstant = false)
    (notProposed : l.kickProposals.get? candidate = none) :
    Step l (.proposeKick candidate proposer) [.proposeKick candidate proposer]
      (l.setBallot .kickProposal (.start validator))
  | voteKick {voter candidate : OperatorAddress} {approve : Bool} {before after : Ballot}
    {verdict : Verdict}
    (other : voter ≠ candidate)
    (seated : (l.validators.get? voter).isSome)
    (opened : l.kickProposals.get? candidate = some before)
    (cast : before.cast? voter approve = some after)
    (reached : after.verdict (.ofNat (l.validators.size - 1)) l.inForce.quorum.toUInt64 =
      .ok verdict) :
    Step l (.voteKickProposal voter candidate approve)
      (.kickVote voter candidate approve :: (l.concludeKick candidate after verdict).1)
      (l.concludeKick candidate after verdict).2
  | leave {validator : OperatorAddress}
    (seated : (l.validators.get? validator).isSome)
    (notAlone : l.validators.size ≠ 1) :
    Step l (.leaveValidatorSet validator) [.leaveValidatorSet validator]
      ((l.closeBallot .kickProposal validator).setLifecycle validator .leaving)

namespace Step

theorem of_submit {candidate : Validator} {events : List Event}
    (h : l.submit candidate = .ok (events, l')) :
    l.Step (.submitApplication candidate) events l' := by
  unfold Ledger.submit at h
  split at h
  · cases h
  rename_i hfree
  split at h
  · cases h
  rename_i hnew
  obtain ⟨hop, haddress⟩ := not_or.mp hnew
  simp only [Option.not_isSome_iff_eq_none] at hop haddress
  split at h
  · rename_i hinstant
    cases h
    exact .seatAtOnce (Nat.not_le.mp hfree) hop haddress hinstant
  rename_i hballoting
  split at h
  · cases h
  rename_i hpending
  obtain ⟨hpop, hpaddress⟩ := not_or.mp hpending
  simp only [Option.not_isSome_iff_eq_none] at hpop hpaddress
  cases h
  exact .apply (Nat.not_le.mp hfree) hop haddress (by simpa using hballoting) hpop hpaddress

theorem of_voteApplication {voter candidate : OperatorAddress} {approve : Bool}
    {events : List Event} (h : l.voteApplication voter candidate approve = .ok (events, l')) :
    l.Step (.voteApplication voter candidate approve) events l' := by
  unfold Ledger.voteApplication at h
  split at h
  · cases h
  rename_i hfree
  split at h
  · cases h
  rename_i hvoter
  split at h
  · cases h
  rename_i before hopen
  split at h
  · cases h
  rename_i after hcast
  split at h
  · cases h
  rename_i verdict hverdict
  cases h
  exact .voteApplication (Nat.not_le.mp hfree)
    (Option.isSome_iff_ne_none.mpr (mt Option.isNone_iff_eq_none.mpr hvoter)) hopen hcast hverdict

theorem of_propose {candidate proposer : OperatorAddress} {events : List Event}
    (h : l.propose candidate proposer = .ok (events, l')) :
    l.Step (.proposeKick candidate proposer) events l' := by
  unfold Ledger.propose at h
  split at h
  · cases h
  rename_i hother
  split at h
  · cases h
  rename_i hproposer
  have hseated := Option.isSome_iff_ne_none.mpr (mt Option.isNone_iff_eq_none.mpr hproposer)
  split at h
  · cases h
  rename_i validator hfound
  split at h
  · cases h
  rename_i state hstate
  split at h
  · cases h
  rename_i hstaying
  split at h
  · rename_i hinstant
    cases h
    exact .expel hother hseated hfound hstate hstaying hinstant
  rename_i hballoting
  split at h
  · cases h
  rename_i hnone
  cases h
  exact .propose hother hseated hfound hstate hstaying (by simpa using hballoting)
    (Option.not_isSome_iff_eq_none.mp hnone)

theorem of_voteKick {voter candidate : OperatorAddress} {approve : Bool}
    {events : List Event} (h : l.voteKick voter candidate approve = .ok (events, l')) :
    l.Step (.voteKickProposal voter candidate approve) events l' := by
  unfold Ledger.voteKick at h
  split at h
  · cases h
  rename_i hother
  split at h
  · cases h
  rename_i hvoter
  split at h
  · cases h
  rename_i before hopen
  split at h
  · cases h
  rename_i after hcast
  split at h
  · cases h
  rename_i verdict hverdict
  cases h
  exact .voteKick hother (Option.isSome_iff_ne_none.mpr (mt Option.isNone_iff_eq_none.mpr hvoter))
    hopen hcast hverdict

theorem of_leave {validator : OperatorAddress} {events : List Event}
    (h : l.leave validator = .ok (events, l')) :
    l.Step (.leaveValidatorSet validator) events l' := by
  unfold Ledger.leave at h
  split at h
  · cases h
  rename_i hseated
  split at h
  · cases h
  rename_i hone
  cases h
  exact .leave (Option.isSome_iff_ne_none.mpr (mt Option.isNone_iff_eq_none.mpr hseated)) hone

/-- A command that is carried out is a step. -/
theorem of_execute {c : Command} {events : List Event} (h : l.execute c = .ok (events, l')) :
    l.Step c events l' := by
  cases c with
  | submitApplication candidate => exact of_submit h
  | voteApplication voter candidate approve => exact of_voteApplication h
  | proposeKick candidate proposer => exact of_propose h
  | voteKickProposal voter candidate approve => exact of_voteKick h
  | leaveValidatorSet validator => exact of_leave h

/-- Commands leave the parameters alone. -/
theorem params_eq {c : Command} {events : List Event} (hs : l.Step c events l') :
    l'.params = l.params := by
  cases hs with
  | apply => exact params_setBallot _ _ _
  | propose => exact params_setBallot _ _ _
  | @voteApplication _ _ _ _ _ verdict =>
    cases verdict with
    | approved => exact params_closeBallot _ _ _
    | rejected => exact params_closeBallot _ _ _
    | pending => exact params_setBallot _ _ _
  | @voteKick _ _ _ _ _ verdict =>
    cases verdict with
    | approved => exact params_closeBallot _ _ _
    | rejected => exact params_closeBallot _ _ _
    | pending => exact params_setBallot _ _ _
  | leave => exact params_closeBallot _ _ _
  | _ => rfl

theorem inForce_eq {c : Command} {events : List Event} (hs : l.Step c events l') :
    l'.inForce = l.inForce := by
  rw [inForce, inForce, hs.params_eq]

end Step

end Ledger

end AuthoritySet
