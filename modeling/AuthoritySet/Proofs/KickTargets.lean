import AuthoritySet.Proofs.Ledger.Tidy
import AuthoritySet.Proofs.Ledger.Identity
import AuthoritySet.Proofs.Genesis

/-!
# Kick proposals and their targets

A kick proposal should be closed at the latest when its target starts to leave, and no state should
be kept of anybody who has no seat (`Service.KicksMembers`). A vote that expels the target closes the
proposal, and so does leaving; a proposal that expels at once, because the quorum is zero, does not
look for one that is open. So the property lasts exactly as long as nobody is expelled at once on
whom a kick proposal is open (`Turn.ExpelsPastProposal`), however the quorum is switched, whichever
keys are used.
-/

namespace AuthoritySet

/-- Kick proposals and states belong to members: a proposal is open only on a validator that stays,
nothing is stored of the state of somebody who has no seat, nor a proposal on them, and only on a
validator that stays is a vote on a proposal carried out. -/
structure Service.KicksMembers (s : Service Contents) : Prop where
  proposed : ∃ proposals, s.ballots .kickProposal = .ok proposals ∧
    ∀ b ∈ proposals, s.Stays b.subject.operator
  forgotten {operator : OperatorAddress} : ¬ s.Seats operator →
    s.store.get? (Section.lifecycles.key operator) = none ∧
      s.store.get? (Section.kickProposals.key operator) = none
  voted {a : Act} {voter candidate : OperatorAddress} {approve : Bool} {reply : Reply} :
    a.command? = some (.voteKickProposal voter candidate approve) → (s.act a).1 = .ok reply →
      s.Stays candidate

/-- In this turn a validator was expelled at once although a kick proposal on it was open. -/
def Turn.ExpelsPastProposal (t : Turn (Service Contents)) : Prop :=
  ∃ candidate proposer proposals, t.act.command? = some (.proposeKick candidate proposer) ∧
    t.reply = .ok (.events [.kickValidator candidate]) ∧
    t.before.ballots .kickProposal = .ok proposals ∧
    ∃ b ∈ proposals, b.subject.operator = candidate

namespace Service

variable {s s₀ : Service Contents} {l : Ledger}

/-- In a tidy ledger kick proposals and states belong to members. -/
theorem Holds.kicksMembers (h : s.Holds l) (ht : l.Tidy) : s.KicksMembers where
  proposed := by
    refine ⟨_, h.ballots_eq .kickProposal, fun b hb => ?_⟩
    obtain ⟨operator, hb⟩ := Table.mem_values.mp hb
    rw [h.sound.ballot_keyed hb]
    exact h.stays_iff.mpr (ht.kicked hb)
  forgotten {operator} hgone := by
    rw [h.seats_iff] at hgone
    have hstate : l.lifecycles.get? operator = none :=
      Option.eq_none_iff_forall_ne_some.mpr fun _ hstate => hgone (ht.seated_of_state hstate)
    have hkick : l.kickProposals.get? operator = none :=
      Option.eq_none_iff_forall_ne_some.mpr fun _ hb => hgone (ht.kicked hb).1
    simp [h.store_eq, Section.key, Ledger.get?_contents, Ledger.value?, hstate, hkick]
  voted hc hreply := by
    rw [(h.act_eq _).1] at hreply
    obtain ⟨_, _, -, hstep, -⟩ := Ledger.step_of_act_ok hc hreply
    cases hstep with
    | voteKick _ _ opened => exact h.stays_iff.mpr (ht.kicked opened)

/-- What a turn leaves that expels nobody past a kick proposal is tidy. -/
theorem Holds.tidy_act (h : s.Holds l) (ht : l.Tidy) {a : Act}
    (hguard : ¬ (turn Service.act s a).ExpelsPastProposal) : (l.act a).2.Tidy := by
  refine h.sound.act_keeps a ht ?_ (fun _ _ _ => ht.setParams _) (ht.settled h.sound)
  intro c events l' hc hstep hreply
  refine ht.step h.sound hstep fun candidate proposer hpropose hevents => ?_
  refine Option.eq_none_iff_forall_ne_some.mpr fun b hb => hguard ?_
  exact ⟨candidate, proposer, _, hpropose ▸ hc, hevents ▸ (h.act_eq a).1.trans hreply,
    h.ballots_eq .kickProposal, b, Table.mem_values.mpr ⟨candidate, hb⟩, h.sound.kick_keyed hb⟩

/-- The proposal that somebody is expelled past is still open when its target leaves. -/
theorem Holds.not_kicksMembers (h : s.Holds l) {a : Act}
    (hpast : (turn Service.act s a).ExpelsPastProposal) : ¬ (s.act a).2.KicksMembers := by
  intro hmembers
  obtain ⟨candidate, proposer, proposals, hc, hreply, hproposals, b, hb, rfl⟩ := hpast
  have hreply : (l.act a).1 = .ok (.events [.kickValidator b.subject.operator]) := by
    rw [← (h.act_eq a).1]
    exact hreply
  -- of the two ways in which a proposal is carried out, the event tells this one
  have hafter : (l.act a).2 = l.setLifecycle b.subject.operator .leaving := by
    obtain ⟨events, l', hevents, hstep, hafter⟩ := Ledger.step_of_act_ok hc hreply
    cases hevents
    cases hstep with
    | expel => exact hafter
  obtain ⟨later, hlater, hstays⟩ := hmembers.proposed
  have hsame : later = proposals := by
    rw [(h.act a).ballots_eq, hafter, Ledger.ballots_setLifecycle, ← h.ballots_eq] at hlater
    exact Except.ok.inj (hlater.symm.trans hproposals)
  have hleft := (h.act a).stays_iff.mp (hstays b (hsame ▸ hb))
  rw [hafter] at hleft
  exact hleft.2 (by simp)

/-- **Kick proposals and states belong to members throughout a run exactly if nobody is expelled at
once past an open kick proposal.** -/
theorem kicksMembers_iff {g : Genesis} {updates : List PowerUpdate} {acts : List Act}
    (hempty : s.store = .empty) (hstart : s.initialise g = .ok (updates, s₀)) :
    (∀ past, past <+: acts → (s₀.finish past).KicksMembers) ↔
      ∀ t ∈ s₀.turns acts, ¬ t.ExpelsPastProposal := by
  have hfounded := holds_initialise hempty hstart
  refine hfounded.throughout_iff (I := Ledger.Tidy) ?_ ?_ ?_ (.establish g)
  · exact fun a hl ht hguard => hl.tidy_act ht hguard
  · exact fun hl ht => hl.kicksMembers ht
  · exact fun a hl hpast => hl.not_kicksMembers hpast

/-- A validator is expelled at once on whom a kick proposal is open. After it has been removed,
somebody votes on the proposal. -/
def kickTwice : List Act :=
  [.setParams { quorum := 0 },
   .handle (.submitApplication (.uniform 2 2)),
   .handle (.submitApplication (.uniform 3 3)),
   .endEpoch,
   .setParams { quorum := 66 },
   .handle (.proposeKick (Validator.uniform 3 3).operator (Validator.uniform 1 1).operator),
   .setParams { quorum := 0 },
   .handle (.proposeKick (Validator.uniform 3 3).operator (Validator.uniform 1 1).operator),
   .endEpoch,
   .setParams { quorum := 66 },
   .handle (.voteKickProposal (Validator.uniform 1 1).operator (Validator.uniform 3 3).operator
     true)]

theorem kicksMembers_iff_kickTwice :
    (∀ past, past <+: kickTwice → ((founded .lone).finish past).KicksMembers) ↔
      ∀ t ∈ (founded .lone).turns kickTwice, ¬ t.ExpelsPastProposal :=
  kicksMembers_iff rfl (initialise_founded (by decide))

/-- The proposal outlives its target, and the vote on it stores a state of somebody without a
seat. -/
theorem outlived_kickTwice :
    ((founded .lone).finish kickTwice.dropLast).ballots .kickProposal =
      .ok [.start (.uniform 3 3)] ∧
    ((founded .lone).finish kickTwice.dropLast).view
      (Registry.validator? (Validator.uniform 3 3).operator) = .ok none ∧
    ((founded .lone).finish kickTwice).view
      (Registry.validator? (Validator.uniform 3 3).operator) = .ok none ∧
    ((founded .lone).finish kickTwice).lifecycle? (Validator.uniform 3 3).operator =
      .ok (some .leaving) := by
  decide +kernel

end Service

end AuthoritySet
