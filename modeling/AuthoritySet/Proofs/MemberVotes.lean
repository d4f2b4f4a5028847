import AuthoritySet.Proofs.Quorum
import AuthoritySet.Proofs.Round
import Mathlib.Data.List.Perm.Subperm

/-!
# Votes of members

Who votes has a seat, but nobody takes a vote back when the voter is removed at an epoch boundary. So
a vote on an open ballot is that of a validator that is seated still, or was removed after it had
voted (`MemberVote`). There are at most as many votes as the electorate has members, and departed
voters besides; a vote is refused for there being more votes than voters only where somebody has
departed; and those who admit a candidate were all seated when they approved
(`Service.CountsMembers`).

* `Service.Holds.seats_or_removed`: only epoch boundaries remove somebody.
* `Ledger.Sound.length_le_pool`: there are no more voters than the pool counts.
* `Service.counts_members`: what the votes are worth at every moment of a run.
-/

namespace AuthoritySet

/-! ## Votes and removals -/

/-- In this turn an epoch boundary removed an operator from the registry. -/
structure Turn.Removes (t : Turn (Service Contents)) (operator : OperatorAddress) : Prop where
  boundary : t.act = .endEpoch
  before : t.before.Seats operator
  after : ¬ t.after.Seats operator

/-- The vote was cast in one of these turns, on a ballot that has not been opened anew since, by an
operator that was seated then. If it is no longer so in the state `s` at the end, it was removed
since. -/
def MemberVote (kind : Ballot.Kind) (subject : OperatorAddress)
    (turns : List (Turn (Service Contents))) (s : Service Contents)
    (vote : OperatorAddress × Bool) : Prop :=
  ∃ older t newer, turns = older ++ t :: newer ∧ vote ∈ votesOn kind subject [t] ∧
    t.before.Seats vote.1 ∧ (∀ u ∈ newer, ¬ u.Opens kind subject) ∧
    (s.Seats vote.1 ∨ ∃ u ∈ newer, u.Removes vote.1)

/-- The votes on an open ballot are those of members, and at most as many as the electorate of the
validators `vs` has members, and departed voters besides. Nothing is said about the number of votes
on a kick proposal whose target has no seat. -/
structure Ballot.OfMembers (b : Ballot) (kind : Ballot.Kind)
    (turns : List (Turn (Service Contents))) (s : Service Contents) (vs : List Validator) :
    Prop where
  voted : ∀ voter ∈ b.voters, ∃ approve,
    MemberVote kind b.subject.operator turns s (voter, approve)
  total_eq : b.total.toNat = b.voters.length
  total_le : (kind = .kickProposal → s.Seats b.subject.operator) →
    b.voters.length ≤ kind.pool vs.length +
      (b.voters.filter (· ∉ vs.map (·.operator))).length

/-- What votes are worth in a state after some turns: the open ballots have the votes of members; a
vote is refused for there being more votes than voters only where somebody who has voted has
departed; and whoever is admitted next has been approved by as many members as are necessary. -/
structure Service.CountsMembers (s : Service Contents) (turns : List (Turn (Service Contents)))
    (vs : List Validator) (params : Params) : Prop where
  registry : s.view Registry.validators = .ok vs
  inForce : s.params = .ok params
  counted (kind : Ballot.Kind) : ∃ opened, s.ballots kind = .ok opened ∧
    ∀ b ∈ opened, b.OfMembers kind turns s vs
  refused {kind : Ballot.Kind} {a : Act} {voter candidate : OperatorAddress} {approve : Bool}
    {pool total : UInt64} : a.command? = some (kind.command voter candidate approve) →
    (s.act a).1 = .error (.poolTooSmall pool total) →
    (kind = .kickProposal → s.Seats candidate) →
    ∃ opened, s.ballots kind = .ok opened ∧ ∃ b ∈ opened, b.subject.operator = candidate ∧
      ∃ departed ∈ b.voters, ¬ s.Seats departed
  admitted {a : Act} {candidate : OperatorAddress} :
    .appendValidator candidate ∈ (turn Service.act s a).events →
    ∃ approvers : List OperatorAddress, approvers.Nodup ∧
      (Ballot.necessaryApprovals (.ofNat vs.length) params.quorum.toUInt64).toNat ≤
        approvers.length ∧
      ∀ voter ∈ approvers, MemberVote .application candidate (turns ++ [turn Service.act s a])
        (s.act a).2 (voter, true)

/-- Whoever is seated when it votes is seated at the end, or was removed since. -/
def Accounted (turns : List (Turn (Service Contents))) (s : Service Contents) : Prop :=
  ∀ older t newer, turns = older ++ t :: newer → ∀ kind subject, ∀ vote ∈ votesOn kind subject [t],
    t.before.Seats vote.1 → s.Seats vote.1 ∨ ∃ u ∈ newer, u.Removes vote.1

/-- The votes since a ballot was opened are those of members. -/
theorem SinceOpening.memberVote {kind : Ballot.Kind} {subject : OperatorAddress}
    {turns recent : List (Turn (Service Contents))} {s : Service Contents}
    (h : SinceOpening kind subject turns recent) (haccounted : Accounted turns s)
    {vote : OperatorAddress × Bool} (hvote : vote ∈ votesOn kind subject recent)
    (hseated : ∀ t ∈ recent, vote ∈ votesOn kind subject [t] → t.before.Seats vote.1) :
    MemberVote kind subject turns s vote := by
  obtain ⟨older, opening, hturns, -, hnone⟩ := h
  obtain ⟨t, ht, hcast⟩ := mem_votesOn_iff.mp hvote
  obtain ⟨first, newer, rfl⟩ := List.append_of_mem ht
  have hsplit : turns = (older ++ opening :: first) ++ t :: newer := by simp [hturns]
  have hbefore := hseated t ht hcast
  exact ⟨_, t, newer, hsplit, hcast, hbefore,
    fun u hu => hnone u (List.mem_append_right _ (List.mem_cons_of_mem t hu)),
    haccounted _ t newer hsplit kind subject vote hcast hbefore⟩

/-- Who has voted on a ballot, and how, stands in the turns. -/
theorem Ballot.AccountsFor.mem_voters {kind : Ballot.Kind} {subject voter : OperatorAddress}
    {turns : List (Turn (Service Contents))} {s : Service Contents} {b : Ballot}
    (h : b.AccountsFor kind subject turns) (haccounted : Accounted turns s)
    (hvoter : voter ∈ b.voters) : (kind = .kickProposal → voter ≠ subject) ∧
      ∃ approve, MemberVote kind subject turns s (voter, approve) := by
  obtain ⟨recent, hsince, hvoters, -, hseated⟩ := h
  rw [hvoters] at hvoter
  obtain ⟨⟨_, approve⟩, hvote, rfl⟩ := List.mem_map.mp hvoter
  refine ⟨?_, approve, hsince.memberVote haccounted hvote fun t ht hcast => (hseated t ht _ hcast).1⟩
  obtain ⟨t, ht, hcast⟩ := mem_votesOn_iff.mp hvote
  exact (hseated t ht _ hcast).2

/-- A decision that is carried is carried by members. -/
theorem Carried.members {kind : Ballot.Kind} {subject : OperatorAddress}
    {turns : List (Turn (Service Contents))} {s : Service Contents} {necessary : UInt64}
    (h : Carried kind subject turns necessary) (haccounted : Accounted turns s) :
    ∃ approvers : List OperatorAddress, approvers.Nodup ∧ necessary.toNat ≤ approvers.length ∧
      ∀ voter ∈ approvers, MemberVote kind subject turns s (voter, true) := by
  obtain ⟨recent, approvers, hsince, hnodup, henough, honce⟩ := h
  refine ⟨approvers, hnodup, henough, fun voter hvoter => ?_⟩
  have hvote : (voter, true) ∈ votesOn kind subject recent := by
    have hmem : (voter, true) ∈ (votesOn kind subject recent).filter (·.1 = voter) := by
      rw [(honce voter hvoter).once]
      exact List.mem_singleton_self _
    exact List.mem_of_mem_filter hmem
  exact hsince.memberVote haccounted hvote (honce voter hvoter).seated

namespace Ledger

variable {l : Ledger} {kind : Ballot.Kind} {voter candidate : OperatorAddress} {approve : Bool}

/-! ## Counting voters -/

/-- Sixteen bits count a pool. -/
theorem Sound.pool_lt (h : l.Sound) (kind : Ballot.Kind) : kind.pool l.validators.size < 2 ^ 16 := by
  have hsize := h.size_lt
  cases kind <;> simp only [Ballot.Kind.pool] <;> omega

/-- There are no more voters than the pool counts, if the target of a kick proposal is seated. -/
theorem Sound.length_le_pool (h : l.Sound) {voters : List OperatorAddress} (hnodup : voters.Nodup)
    (hentitled : ∀ voter ∈ voters, l.Entitled kind candidate voter)
    (htarget : kind = .kickProposal → (l.validators.get? candidate).isSome) :
    voters.length ≤ kind.pool l.validators.size := by
  have hlength : (kind.electorate candidate (l.validators.values.map (·.operator))).length =
      kind.pool l.validators.size := by
    rw [Ballot.Kind.length_electorate h.nodup_operators fun hkind =>
      h.mem_operators.mpr (htarget hkind), List.length_map, Table.length_values]
  rw [← hlength]
  refine (hnodup.subperm fun voter hvoter => ?_).length_le
  have hvoter := hentitled voter hvoter
  have hmem := h.mem_operators.mpr hvoter.seated
  cases kind with
  | application => exact hmem
  | kickProposal => exact List.mem_filter.mpr ⟨hmem, by simpa using hvoter.other rfl⟩

/-- A vote that is refused because there are more votes than voters would have been counted on an
open ballot. -/
theorem execute_of_poolTooSmall {pool total : UInt64}
    (h : l.execute (kind.command voter candidate approve) = .error (.poolTooSmall pool total)) :
    l.Entitled kind candidate voter ∧ ∃ before after,
      (l.ballots kind).get? candidate = some before ∧ before.cast? voter approve = some after ∧
      .ofNat (kind.pool l.validators.size) < after.total := by
  cases kind with
  | application =>
    simp only [Ballot.Kind.command, execute, Ledger.voteApplication] at h
    split at h
    · cases h
    split at h
    · cases h
    rename_i hvoter
    split at h
    · cases h
    rename_i before hopened
    split at h
    · cases h
    rename_i after hcast
    split at h
    · rename_i failure hfailed
      cases h
      exact ⟨⟨Option.isSome_iff_ne_none.mpr (mt Option.isNone_iff_eq_none.mpr hvoter),
        fun hkind => by cases hkind⟩, before, after, hopened, hcast,
        Ballot.lt_total_of_poolTooSmall hfailed⟩
    · cases h
  | kickProposal =>
    simp only [Ballot.Kind.command, execute, Ledger.voteKick] at h
    split at h
    · cases h
    rename_i hother
    split at h
    · cases h
    rename_i hvoter
    split at h
    · cases h
    rename_i before hopened
    split at h
    · cases h
    rename_i after hcast
    split at h
    · rename_i failure hfailed
      cases h
      exact ⟨⟨Option.isSome_iff_ne_none.mpr (mt Option.isNone_iff_eq_none.mpr hvoter),
        fun _ => hother⟩, before, after, hopened, hcast,
        Ballot.lt_total_of_poolTooSmall hfailed⟩
    · cases h

/-- An act that is refused for this reason is a vote that is refused when it is carried out. -/
theorem execute_of_act {a : Act} {pool total : UInt64}
    (ha : a.command? = some (kind.command voter candidate approve))
    (h : (l.act a).1 = .error (.poolTooSmall pool total)) :
    l.execute (kind.command voter candidate approve) = .error (.poolTooSmall pool total) := by
  have hanswer : ∀ {r : Except Failure (List Event × Ledger)},
      (l.answer .events r).1 = .error (.poolTooSmall pool total) →
      r = .error (.poolTooSmall pool total) := fun {r} h => by
    cases r with
    | ok r => cases h
    | error failure => exact congrArg Except.error (Except.error.inj h)
  cases a with
  | execute c =>
    cases ha
    exact hanswer h
  | handle c =>
    cases ha
    have h := hanswer h
    unfold handle at h
    split at h
    · exact h
    · -- a vote is checked for missing addresses alone
      rename_i failure hcheck
      cases h
      cases kind <;> simp only [Ballot.Kind.command, Command.check, Command.checkAddresses] at hcheck <;>
        split at hcheck <;> cases hcheck
  | setParams params => cases ha
  | endEpoch => cases ha

/-- The votes on a ballot are at most as many as the pool counts, and those of departed voters. -/
theorem Sound.length_voters_le (h : l.Sound) {b : Ballot}
    (hb : (l.ballots kind).get? candidate = some b)
    (hother : ∀ voter ∈ b.voters, kind = .kickProposal → voter ≠ candidate)
    (htarget : kind = .kickProposal → (l.validators.get? candidate).isSome) :
    b.voters.length ≤ kind.pool l.validators.size +
      (b.voters.filter (· ∉ l.validators.values.map (·.operator))).length := by
  rw [b.voters.length_eq_length_filter_add fun voter =>
    decide (voter ∈ l.validators.values.map (·.operator))]
  refine Nat.add_le_add (h.length_le_pool ((h.tallied hb).voters_nodup.filter _)
    (fun voter hvoter => ?_) htarget) (by simp only [decide_not, Nat.le_refl])
  obtain ⟨hvoter, hseated⟩ := List.mem_filter.mp hvoter
  exact ⟨h.mem_operators.mp (of_decide_eq_true hseated), hother voter hvoter⟩

/-- If a vote is refused because there would be more votes than voters, then somebody who has voted
has departed. -/
theorem Sound.departed (h : l.Sound) {pool total : UInt64}
    (hother : ∀ b, (l.ballots kind).get? candidate = some b →
      ∀ voter ∈ b.voters, kind = .kickProposal → voter ≠ candidate)
    (htarget : kind = .kickProposal → (l.validators.get? candidate).isSome)
    (hrefused : l.execute (kind.command voter candidate approve) =
      .error (.poolTooSmall pool total)) :
    ∃ b, (l.ballots kind).get? candidate = some b ∧
      ∃ departed ∈ b.voters, ¬ (l.validators.get? departed).isSome := by
  obtain ⟨hvoter, before, after, hopened, hcast, hlt⟩ := execute_of_poolTooSmall hrefused
  refine ⟨before, hopened, ?_⟩
  by_contra hnone
  simp only [not_exists, not_and, not_not] at hnone
  -- otherwise all who have voted, and the voter, have a vote
  have hbefore := h.tallied hopened
  have hnew := Ballot.notMem_of_cast hcast
  have hnodup : (before.voters ++ [voter]).Nodup :=
    List.nodup_append.mpr ⟨hbefore.voters_nodup, List.nodup_singleton _, fun op hop other hother he =>
      hnew (List.mem_singleton.mp hother ▸ he ▸ hop)⟩
  have hle : (before.voters ++ [voter]).length ≤ kind.pool l.validators.size := by
    refine h.length_le_pool hnodup (fun op hop => ?_) htarget
    rcases List.mem_append.mp hop with hop | hop
    · exact ⟨hnone op hop, hother before hopened op hop⟩
    · exact List.mem_singleton.mp hop ▸ hvoter
  have htotal := hbefore.counted.total_cast hcast
  have hlt := UInt64.lt_iff_toNat_lt.mp hlt
  rw [UInt64.toNat_ofNat_of_lt' (Nat.lt_trans (h.pool_lt kind) (by decide))] at hlt
  rw [List.length_append, List.length_singleton] at hle
  omega

end Ledger

/-! ## Services -/

namespace Service

variable {s s₀ : Service Contents} {l : Ledger}

/-- Who is seated stays so in a run, unless an epoch boundary removes it. -/
theorem Holds.seats_or_removed (h : s.Holds l) {operator : OperatorAddress}
    (hseats : s.Seats operator) (acts : List Act) :
    (s.finish acts).Seats operator ∨ ∃ t ∈ s.turns acts, t.Removes operator := by
  induction acts generalizing s l with
  | nil => exact .inl hseats
  | cons a rest ih =>
    by_cases hafter : (s.act a).2.Seats operator
    · rcases ih (h.act a) hafter with hend | ⟨t, ht, hremoves⟩
      · exact .inl hend
      · exact .inr ⟨t, List.mem_cons_of_mem _ ht, hremoves⟩
    · refine .inr ⟨turn Service.act s a, List.mem_cons_self, ?_, hseats, hafter⟩
      by_contra hend
      exact hafter ((h.act a).seats_iff.mpr
        (h.sound.seated_act hend (h.seats_iff.mp hseats)))

/-- A turn with a vote removes nobody. -/
theorem Holds.seats_of_vote (h : s.Holds l) {a : Act} {kind : Ballot.Kind}
    {subject operator : OperatorAddress} {vote : OperatorAddress × Bool}
    (hvote : vote ∈ votesOn kind subject [turn Service.act s a]) (hseats : s.Seats operator) :
    (s.act a).2.Seats operator := by
  refine (h.act a).seats_iff.mpr (h.sound.seated_act ?_ (h.seats_iff.mp hseats))
  rintro rfl
  have hevents := h.events_eq .endEpoch
  rw [h.sound.act_endEpoch] at hevents
  simp [votesOn, hevents, Reply.published] at hvote

/-- Whoever has voted in a run is accounted for at its end. -/
theorem Holds.accounted (h : s.Holds l) (acts : List Act) :
    Accounted (s.turns acts) (s.finish acts) := by
  intro older t newer hsplit kind subject vote hvote hseats
  obtain ⟨before, a, after, rfl, -, rfl, rfl⟩ := turns_split hsplit
  obtain ⟨l, hl⟩ := h.finish before
  rw [Service.finish, finish_append]
  exact (hl.act a).seats_or_removed (hl.seats_of_vote hvote hseats) after

/-- Without balloting nobody has to approve. -/
theorem necessaryApprovals_of_isInstant {params : Params} (h : params.isInstant) (pool : UInt64) :
    Ballot.necessaryApprovals pool params.quorum.toUInt64 = 0 := by
  have hzero : params.quorum = 0 := beq_iff_eq.mp h
  simp [Ballot.necessaryApprovals, hzero]

section Recorded

variable {turns : List (Turn (Service Contents))} {kind : Ballot.Kind}

/-- The ballots that account for their votes have those of members. -/
theorem Holds.ofMembers (h : s.Holds l) (hr : l.Recorded turns) (haccounted : Accounted turns s)
    {b : Ballot} (hb : b ∈ (l.ballots kind).values) :
    b.OfMembers kind turns s l.validators.values := by
  obtain ⟨subject, hb⟩ := Table.mem_values.mp hb
  obtain rfl : b.subject.operator = subject := h.sound.ballot_keyed hb
  have hvoters : ∀ voter ∈ b.voters, (kind = .kickProposal → voter ≠ b.subject.operator) ∧
      ∃ approve, MemberVote kind b.subject.operator turns s (voter, approve) :=
    fun voter hvoter => (hr kind _ b hb).mem_voters haccounted hvoter
  refine ⟨fun voter hvoter => (hvoters voter hvoter).2, (h.sound.tallied hb).total_eq,
    fun htarget => ?_⟩
  rw [Table.length_values]
  exact h.sound.length_voters_le hb (fun voter hvoter => (hvoters voter hvoter).1)
    fun hkind => h.seats_iff.mp (htarget hkind)

/-- Where a vote is refused for there being more votes than voters, somebody who has voted on the
ballot has departed. -/
theorem Holds.departed (h : s.Holds l) (hr : l.Recorded turns) (haccounted : Accounted turns s)
    {a : Act} {voter candidate : OperatorAddress} {approve : Bool} {pool total : UInt64}
    (hc : a.command? = some (kind.command voter candidate approve))
    (hrefused : (s.act a).1 = .error (.poolTooSmall pool total))
    (htarget : kind = .kickProposal → s.Seats candidate) :
    ∃ b ∈ (l.ballots kind).values, b.subject.operator = candidate ∧
      ∃ departed ∈ b.voters, ¬ s.Seats departed := by
  rw [(h.act_eq a).1] at hrefused
  obtain ⟨b, hb, departed, hvoter, hgone⟩ := h.sound.departed
    (fun b hb voter hvoter => ((hr kind _ b hb).mem_voters haccounted hvoter).1)
    (fun hkind => h.seats_iff.mp (htarget hkind)) (Ledger.execute_of_act hc hrefused)
  exact ⟨b, Table.mem_values.mpr ⟨candidate, hb⟩, h.sound.ballot_keyed hb, departed, hvoter,
    mt h.seats_iff.mp hgone⟩

/-- Whoever is admitted has been approved by as many members as are necessary. -/
theorem Holds.admitted (h : s.Holds l) (hr : l.Recorded turns) {a : Act}
    (haccounted : Accounted (turns ++ [turn Service.act s a]) (s.act a).2)
    {candidate : OperatorAddress}
    (hadmitted : .appendValidator candidate ∈ (turn Service.act s a).events) :
    ∃ approvers : List OperatorAddress, approvers.Nodup ∧
      (Ballot.necessaryApprovals (.ofNat l.validators.size) l.inForce.quorum.toUInt64).toNat ≤
        approvers.length ∧
      ∀ voter ∈ approvers, MemberVote .application candidate (turns ++ [turn Service.act s a])
        (s.act a).2 (voter, true) := by
  have hevents := h.events_eq a
  obtain ⟨c, -, hstep⟩ := h.sound.step_of_mem_published (hevents ▸ hadmitted)
  rcases hstep.admission (hevents ▸ hadmitted) with
    ⟨voter, approve, before, after, rfl, hes, hseated, hopened, hcast, happroved⟩ |
    ⟨v, -, -, hinstant⟩
  · have hopened : (l.ballots .application).get? candidate = some before := hopened
    refine (h.carried hr hopened (hevents.trans hes) ?_ hseated (by simp) hcast h.sound.size_lt
      happroved).members haccounted
    simp [Event.opened?, Event.voteOn?]
  · exact ⟨[], List.nodup_nil, by simp [necessaryApprovals_of_isInstant hinstant], by simp⟩

end Recorded

/-- **Votes are those of members.** At every moment of a run every vote on an open ballot is that of
an operator that is seated, or was removed at an epoch boundary after it had voted, and what the
votes are worth follows from that. -/
theorem counts_members {g : Genesis} {updates : List PowerUpdate} {acts : List Act}
    (hempty : s.store = .empty) (hstart : s.initialise g = .ok (updates, s₀)) :
    ∃ vs params, (s₀.finish acts).CountsMembers (s₀.turns acts) vs params := by
  have hfounded := holds_initialise hempty hstart
  obtain ⟨l, hl, hr⟩ := recorded_finish hempty hstart acts
  have haccounted := hfounded.accounted acts
  refine ⟨l.validators.values, l.inForce, {
    registry := hl.validators_eq
    inForce := hl.params_eq
    counted := fun kind => ⟨_, hl.ballots_eq kind, fun b hb => hl.ofMembers hr haccounted hb⟩
    refused := fun hc hrefused htarget =>
      ⟨_, hl.ballots_eq _, hl.departed hr haccounted hc hrefused htarget⟩
    admitted := fun {a candidate} hadmitted => ?_ }⟩
  rw [Table.length_values]
  refine hl.admitted hr ?_ hadmitted
  have hnext := hfounded.accounted (acts ++ [a])
  rwa [Service.turns, Service.finish, turns_append, finish_append] at hnext

/-- One validator of a small document approves the application of another one. -/
def approves (voter candidate : UInt8) : Act :=
  .handle (.voteApplication (Validator.uniform voter voter).operator
    (Validator.uniform candidate candidate).operator true)

/-- Two of four validators leave after they have approved applications. -/
def departures : List Act :=
  [.setParams { quorum := 0 },
   .handle (.submitApplication (.uniform 2 2)),
   .handle (.submitApplication (.uniform 4 4)),
   .handle (.submitApplication (.uniform 5 5)),
   .setParams { quorum := 100 },
   .handle (.submitApplication (.uniform 3 3)),
   .handle (.submitApplication (.uniform 6 6)),
   approves 1 3, approves 1 6, approves 2 6, approves 4 6,
   .handle (.leaveValidatorSet (Validator.uniform 1 1).operator),
   .handle (.leaveValidatorSet (Validator.uniform 2 2).operator),
   .endEpoch]

theorem counts_members_departures : ∃ vs params,
    ((founded .lone).finish departures).CountsMembers ((founded .lone).turns departures) vs params :=
  counts_members rfl (initialise_founded (by decide))

/-- The votes of those who have left stay on the ballots. There are more of them on one ballot than
validators, so that nobody can vote on it; and of the two approvals by which the other candidate is
admitted only one is that of a validator. -/
theorem departed_count_departures :
    ((founded .lone).finish departures).view Registry.validators =
      .ok [.uniform 4 4, .uniform 5 5] ∧
    ((founded .lone).finish departures).ballots .application =
      .ok [⟨.uniform 3 3, 1, 1, [(Validator.uniform 1 1).operator]⟩,
        ⟨.uniform 6 6, 3, 3, [(Validator.uniform 1 1).operator, (Validator.uniform 2 2).operator,
          (Validator.uniform 4 4).operator]⟩] ∧
    (((founded .lone).finish departures).act (approves 5 6)).1 = .error (.poolTooSmall 2 4) ∧
    (((founded .lone).finish departures).act (approves 4 3)).1 =
      .ok (.events [.approveApplication (Validator.uniform 4 4).operator
        (Validator.uniform 3 3).operator, .appendValidator (Validator.uniform 3 3).operator]) ∧
    Ballot.necessaryApprovals 2 100 = 2 := by
  decide +kernel

/-- What is said of numbers is not said of a kick proposal that outlives its target, because its pool
is one short of those who may vote: here the second of two validators cannot vote, although nobody
who has voted has departed. -/
example :
    let expelled : Service Contents :=
      (founded { params := { quorum := 100 }
                 validators := [.uniform 1 1, .uniform 2 2, .uniform 3 3] }).finish
        [.handle (.proposeKick (Validator.uniform 3 3).operator (Validator.uniform 1 1).operator),
         .handle (.voteKickProposal (Validator.uniform 1 1).operator
           (Validator.uniform 3 3).operator true),
         .setParams { quorum := 0 },
         .handle (.proposeKick (Validator.uniform 3 3).operator (Validator.uniform 1 1).operator),
         .endEpoch,
         .setParams { quorum := 100 }]
    expelled.ballots .kickProposal =
      .ok [⟨.uniform 3 3, 1, 1, [(Validator.uniform 1 1).operator]⟩] ∧
    expelled.view Registry.validators = .ok [.uniform 1 1, .uniform 2 2] ∧
    (expelled.act (.handle (.voteKickProposal (Validator.uniform 2 2).operator
      (Validator.uniform 3 3).operator true))).1 = .error (.poolTooSmall 1 2) := by
  decide +kernel

end Service

end AuthoritySet
