import AuthoritySet.Proofs.Ledger.Epoch

/-!
# How a ballot changes

Events say which ballot is opened (`Event.opened?`) and which vote is cast (`Event.voteOn?`). After a
step every open ballot was opened by it, has got one more vote, or is as it was before
(`Ledger.BallotChange`), and the events of the step say which of these.

* `Ledger.Step.ballotChange`: what a step does to the ballots that are open after it.
* `Ledger.Step.admission`, `Ledger.Step.expulsion`: where admissions and expulsions come from.
-/

namespace AuthoritySet

/-- The ballot that an event opens. -/
def Event.opened? : Event → Option (Ballot.Kind × OperatorAddress)
  | .submitApplication candidate => some (.application, candidate)
  | .proposeKick validator _ => some (.kickProposal, validator)
  | _ => none

/-- Who votes how, if an event is a vote on the ballot of a kind on a subject. -/
def Event.voteOn? (kind : Ballot.Kind) (subject : OperatorAddress) :
    Event → Option (OperatorAddress × Bool)
  | .approveApplication voter candidate =>
    if kind = .application ∧ candidate = subject then some (voter, true) else none
  | .rejectApplication voter candidate =>
    if kind = .application ∧ candidate = subject then some (voter, false) else none
  | .approveKickProposal voter validator =>
    if kind = .kickProposal ∧ validator = subject then some (voter, true) else none
  | .rejectKickProposal voter validator =>
    if kind = .kickProposal ∧ validator = subject then some (voter, false) else none
  | _ => none

/-- The vote on a ballot of a kind. -/
def Ballot.Kind.vote : Ballot.Kind → OperatorAddress → OperatorAddress → Bool → Event
  | .application => Event.applicationVote
  | .kickProposal => Event.kickVote

namespace Ledger

variable {l l' : Ledger} {kind kind' : Ballot.Kind} {subject candidate voter : OperatorAddress}
  {approve : Bool} {events : List Event} {c : Command}

@[simp] theorem opened?_vote : (kind.vote voter candidate approve).opened? = none := by
  cases kind <;> cases approve <;> rfl

@[simp] theorem voteOn?_vote : (kind'.vote voter candidate approve).voteOn? kind subject =
    if kind = kind' ∧ candidate = subject then some (voter, approve) else none := by
  cases kind <;> cases kind' <;> cases approve <;> rfl

/-- Some events neither open a ballot nor vote on it. -/
def Silent (kind : Ballot.Kind) (subject : OperatorAddress) (events : List Event) : Prop :=
  ∀ e ∈ events, e.opened? ≠ some (kind, subject) ∧ e.voteOn? kind subject = none

/-- How a ballot that is open after a step came to be what it is. -/
inductive BallotChange (l : Ledger) (kind : Ballot.Kind) (subject : OperatorAddress)
    (events : List Event) : Ballot → Prop
  | opened {opening : Event} {record : Validator} (single : events = [opening])
    (opens : opening.opened? = some (kind, subject)) :
    BallotChange l kind subject events (.start record)
  | voted {voter : OperatorAddress} {approve : Bool} {before after : Ballot}
    (single : events = [kind.vote voter subject approve])
    (wasOpen : (l.ballots kind).get? subject = some before)
    (cast : before.cast? voter approve = some after)
    (seated : (l.validators.get? voter).isSome)
    (other : kind = .kickProposal → voter ≠ subject) :
    BallotChange l kind subject events after
  | kept {b : Ballot} (silent : Silent kind subject events)
    (wasOpen : (l.ballots kind).get? subject = some b) :
    BallotChange l kind subject events b

/-- The ballots after a vote that leads to a verdict: the ballot that was voted on is closed, unless
the verdict is pending. -/
theorem ballotChange_of_vote {before after b : Ballot} {outcome : List Event}
    (hevents : events = kind'.vote voter candidate approve :: outcome)
    (houtcome : ∀ e ∈ outcome, e.opened? = none ∧ ∀ kind subject, e.voteOn? kind subject = none)
    (hopened : (l.ballots kind').get? candidate = some before)
    (hcast : before.cast? voter approve = some after)
    (hseated : (l.validators.get? voter).isSome)
    (hother : kind' = .kickProposal → voter ≠ candidate)
    (hb : (kind = kind' ∧ subject = candidate ∧ outcome = [] ∧ b = after) ∨
      (¬ (kind = kind' ∧ subject = candidate) ∧ (l.ballots kind).get? subject = some b)) :
    l.BallotChange kind subject events b := by
  rcases hb with ⟨rfl, rfl, rfl, rfl⟩ | ⟨hne, hb⟩
  · exact .voted hevents hopened hcast hseated hother
  · refine .kept ?_ hb
    rw [Silent, hevents, List.forall_mem_cons]
    refine ⟨?_, fun e he => ?_⟩
    · rw [opened?_vote, voteOn?_vote, if_neg fun h => hne ⟨h.1, h.2.symm⟩]
      exact ⟨by simp, rfl⟩
    · rw [(houtcome e he).1]
      exact ⟨by simp, (houtcome e he).2 _ _⟩

/-- Every ballot that is open after a step was opened by it, has got one more vote, or is as it was
before. -/
theorem Step.ballotChange (hs : l.Step c events l') (hl : l.Sound) {b : Ballot}
    (hb : (l'.ballots kind).get? subject = some b) : l.BallotChange kind subject events b := by
  cases hs with
  | seatAtOnce => exact .kept (by simp [Silent, Event.opened?, Event.voteOn?]) (by simpa using hb)
  | expel => exact .kept (by simp [Silent, Event.opened?, Event.voteOn?]) (by simpa using hb)
  | @apply candidate =>
    rcases ballots_setBallot_cases hb with ⟨rfl, rfl, rfl⟩ | ⟨hne, hb⟩
    · exact .opened rfl rfl
    · refine .kept ?_ hb
      rintro e he
      rw [List.mem_singleton.mp he]
      refine ⟨fun hopens => hne ?_, rfl⟩
      cases hopens
      exact ⟨rfl, rfl⟩
  | @propose candidate proposer validator _ _ _ found =>
    have hkeyed : (Ballot.start validator).subject.operator = candidate := hl.validator_keyed found
    rcases ballots_setBallot_cases hb with ⟨rfl, rfl, rfl⟩ | ⟨hne, hb⟩
    · rw [hkeyed]
      exact .opened rfl rfl
    · rw [hkeyed] at hne
      refine .kept ?_ hb
      rintro e he
      rw [List.mem_singleton.mp he]
      refine ⟨fun hopens => hne ?_, rfl⟩
      cases hopens
      exact ⟨rfl, rfl⟩
  | @voteApplication voter candidate approve before after verdict _ seated opened cast =>
    have hopened : (l.ballots .application).get? candidate = some before := opened
    have hkeyed : after.subject.operator = candidate := by
      rw [Ballot.subject_cast cast, hl.ballot_keyed hopened]
    refine ballotChange_of_vote rfl ?_ hopened cast seated (by simp) ?_
    · cases verdict <;> simp [concludeApplication, Event.opened?, Event.voteOn?]
    · -- a pending verdict leaves the ballot with its vote, the others close it
      cases verdict <;>
        simp only [concludeApplication, ballots_seat, get?_ballots_closeBallot,
          get?_ballots_setBallot, hkeyed] at hb ⊢ <;> grind
  | @voteKick voter candidate approve before after verdict other seated opened cast =>
    have hopened : (l.ballots .kickProposal).get? candidate = some before := opened
    have hkeyed : after.subject.operator = candidate := by
      rw [Ballot.subject_cast cast, hl.ballot_keyed hopened]
    refine ballotChange_of_vote rfl ?_ hopened cast seated (fun _ => other) ?_
    · cases verdict <;> simp [concludeKick, Event.opened?, Event.voteOn?]
    · cases verdict <;>
        simp only [concludeKick, ballots_setLifecycle, get?_ballots_closeBallot,
          get?_ballots_setBallot, hkeyed] at hb ⊢ <;> grind
  | @leave validator =>
    rw [ballots_setLifecycle] at hb
    exact .kept (by simp [Silent, Event.opened?, Event.voteOn?]) (ballots_of_closeBallot hb)

/-! ## Decisions -/

/-- Somebody is admitted by an approved application, or at once without balloting. -/
theorem Step.admission (hs : l.Step c events l') (h : .appendValidator candidate ∈ events) :
    (∃ voter approve before after, c = .voteApplication voter candidate approve ∧
      events = [.applicationVote voter candidate approve, .appendValidator candidate] ∧
      (l.validators.get? voter).isSome ∧ l.applications.get? candidate = some before ∧
      before.cast? voter approve = some after ∧
      after.verdict (.ofNat l.validators.size) l.inForce.quorum.toUInt64 = .ok .approved) ∨
    ∃ v, c = .submitApplication v ∧ v.operator = candidate ∧ l.inForce.isInstant := by
  cases hs with
  | @seatAtOnce v _ _ _ instant =>
    simp only [List.mem_singleton, Event.appendValidator.injEq] at h
    exact .inr ⟨v, rfl, h.symm, instant⟩
  | @voteApplication voter candidate' approve before after verdict _ seated opened cast reached =>
    cases verdict with
    | approved =>
      have hcandidate : candidate = candidate' := by
        cases approve <;> simpa [concludeApplication, Event.applicationVote] using h
      subst hcandidate
      exact .inl ⟨voter, approve, before, after, rfl, rfl, seated, opened, cast, reached⟩
    | rejected => cases approve <;> simp [concludeApplication, Event.applicationVote] at h
    | pending => cases approve <;> simp [concludeApplication, Event.applicationVote] at h
  | @voteKick _ _ approve _ _ verdict =>
    cases approve <;> cases verdict <;> simp [concludeKick, Event.kickVote] at h
  | _ => simp at h

/-- Somebody is expelled by an approved kick proposal, or at once without balloting. -/
theorem Step.expulsion (hs : l.Step c events l') (h : .kickValidator candidate ∈ events) :
    (∃ voter approve before after, c = .voteKickProposal voter candidate approve ∧
      events = [.kickVote voter candidate approve, .kickValidator candidate] ∧
      voter ≠ candidate ∧ (l.validators.get? voter).isSome ∧
      l.kickProposals.get? candidate = some before ∧
      before.cast? voter approve = some after ∧
      after.verdict (.ofNat (l.validators.size - 1)) l.inForce.quorum.toUInt64 = .ok .approved) ∨
    ∃ proposer, c = .proposeKick candidate proposer ∧ l.inForce.isInstant := by
  cases hs with
  | @expel candidate' proposer _ _ _ _ _ _ _ instant =>
    simp only [List.mem_singleton, Event.kickValidator.injEq] at h
    exact .inr ⟨proposer, h ▸ rfl, instant⟩
  | @voteKick voter candidate' approve before after verdict other seated opened cast reached =>
    cases verdict with
    | approved =>
      have hcandidate : candidate = candidate' := by
        cases approve <;> simpa [concludeKick, Event.kickVote] using h
      subst hcandidate
      exact .inl ⟨voter, approve, before, after, rfl, rfl, other, seated, opened, cast, reached⟩
    | rejected => cases approve <;> simp [concludeKick, Event.kickVote] at h
    | pending => cases approve <;> simp [concludeKick, Event.kickVote] at h
  | @voteApplication _ _ approve _ _ verdict =>
    cases approve <;> cases verdict <;>
      simp [concludeApplication, Event.applicationVote] at h
  | _ => simp at h

end Ledger

end AuthoritySet
