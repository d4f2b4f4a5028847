import AuthoritySet.Proofs.Integrity
import AuthoritySet.Proofs.Ledger.Ballots
import Mathlib.Data.List.Nodup

/-!
# A full round of votes

All who have a vote on a ballot vote once, one after the other. Then the ballot is decided by one of
these votes, and what is decided depends on how many of them approve, counting also those that come
too late: neither the order of the votes nor the moment of the decision matters.

* `Ballot.Reflects.verdict`: a verdict that is reached early is the one that all votes would lead
  to, and at the latest the last vote leads to one.
* `Service.round`: a round on a ballot that some of the voters have voted on already.
* `Service.full_round_decides`: a round on a new ballot, in any state that can be reached.
-/

namespace AuthoritySet

namespace Ballot

/-! ## Verdicts before the last vote -/

namespace Reflects

variable {b : Ballot} {cast coming : List (OperatorAddress × Bool)}

/-- Among those who have voted and those who will, a verdict that is reached already is the one that
all votes together lead to. As long as none is reached, somebody will vote. -/
theorem verdict (hb : b.Reflects cast) {pool : Nat} {quorum : UInt64}
    (hpool : cast.length + coming.length = pool) (hlt : pool < 2 ^ 64) (hquorum : quorum ≤ 100) :
    ∃ verdict, b.verdict (.ofNat pool) quorum = .ok verdict ∧
      (verdict = .pending ∧ coming ≠ [] ∨
        verdict.isFinal ∧ verdict.isApproval =
          decide ((necessaryApprovals (.ofNat pool) quorum).toNat ≤
            (cast ++ coming).countP (·.2))) := by
  have hcoming : coming.countP (·.2) ≤ coming.length := List.countP_le_length
  have hcast : cast.countP (·.2) ≤ cast.length := List.countP_le_length
  have htotal := hb.total_eq
  have happroved := hb.approvals_eq
  have hofNat : (UInt64.ofNat pool).toNat = pool := UInt64.toNat_ofNat_of_lt' hlt
  have hall : (cast ++ coming).countP (·.2) = cast.countP (·.2) + coming.countP (·.2) :=
    List.countP_append
  have hle : b.total ≤ .ofNat pool := UInt64.le_iff_toNat_le.mpr (by omega)
  -- what the approvals can still become
  have hmost : (b.approvals + (UInt64.ofNat pool - b.total)).toNat =
      cast.countP (·.2) + coming.length := by
    rw [UInt64.toNat_add, UInt64.toNat_sub_of_le _ _ hle]
    omega
  unfold Ballot.verdict
  rw [if_neg (UInt64.not_lt.mpr hquorum), if_neg (UInt64.not_lt.mpr hle)]
  simp only [UInt64.le_iff_toNat_le, hmost, happroved]
  generalize (necessaryApprovals (.ofNat pool) quorum).toNat = necessary
  split_ifs with henough hpossible
  · exact ⟨.approved, rfl, .inr ⟨rfl, by simp [Verdict.isApproval]; omega⟩⟩
  · refine ⟨.pending, rfl, .inl ⟨rfl, ?_⟩⟩
    rintro rfl
    simp only [List.length_nil] at hpossible
    omega
  · exact ⟨.rejected, rfl, .inr ⟨rfl, by simp [Verdict.isApproval]; omega⟩⟩

end Reflects

namespace Kind

/-! ## What kinds of ballots have in common -/

/-- The command that casts a vote. -/
def command : Kind → OperatorAddress → OperatorAddress → Bool → Command
  | .application => .voteApplication
  | .kickProposal => .voteKickProposal

/-- Those of the seated operators who have a vote. -/
def electorate : Kind → OperatorAddress → List OperatorAddress → List OperatorAddress
  | .application, _, seated => seated
  | .kickProposal, candidate, seated => seated.filter (· ≠ candidate)

/-- How many of the seated operators have a vote. -/
def pool : Kind → Nat → Nat
  | .application, seated => seated
  | .kickProposal, seated => seated - 1

theorem nodup_electorate {kind : Kind} {candidate : OperatorAddress}
    {seated : List OperatorAddress} (h : seated.Nodup) :
    (kind.electorate candidate seated).Nodup := by
  cases kind with
  | application => exact h
  | kickProposal => exact h.filter _

theorem length_electorate {kind : Kind} {candidate : OperatorAddress}
    {seated : List OperatorAddress} (h : seated.Nodup)
    (hcandidate : kind = .kickProposal → candidate ∈ seated) :
    (kind.electorate candidate seated).length = kind.pool seated.length := by
  cases kind with
  | application => rfl
  | kickProposal =>
    have herase : seated.filter (· ≠ candidate) = seated.erase candidate := by
      rw [h.erase_eq_filter]
      exact List.filter_congr fun op _ => by simp [bne, Bool.beq_eq_decide_eq]
    rw [electorate, herase, List.length_erase_of_mem (hcandidate rfl), pool]

/-- At least as many have a vote as the pool counts. -/
theorem pool_le_length_electorate (kind : Kind) (candidate : OperatorAddress)
    {seated : List OperatorAddress} (h : seated.Nodup) :
    kind.pool seated.length ≤ (kind.electorate candidate seated).length := by
  by_cases hcandidate : candidate ∈ seated
  · exact Nat.le_of_eq (length_electorate h fun _ => hcandidate).symm
  · cases kind with
    | application => exact Nat.le_refl _
    | kickProposal =>
      have hall : seated.filter (· ≠ candidate) = seated :=
        List.filter_eq_self.mpr fun op hop => by
          simpa using fun he : op = candidate => hcandidate (he ▸ hop)
      rw [electorate, hall]
      exact Nat.sub_le _ _

/-- The event that a decision comes with. -/
def outcome : Kind → Bool → OperatorAddress → Event
  | .application, true => .appendValidator
  | .application, false => .rejectValidator
  | .kickProposal, true => .kickValidator
  | .kickProposal, false => .keepValidator

/-- Why a vote is refused when no ballot is open. -/
def closedFailure : Kind → OperatorAddress → (full : Bool) → Failure
  | .application, _, true => .maxValidatorsReached
  | .application, candidate, false => .noApplicationFound candidate
  | .kickProposal, candidate, _ => .noKickProposalFound candidate

/-- A vote, as an act. -/
def ask (kind : Kind) (candidate : OperatorAddress) (vote : OperatorAddress × Bool) : Act :=
  .execute (kind.command vote.1 candidate vote.2)

end Kind

end Ballot

/-! ## One vote -/

namespace Ledger

variable {l : Ledger} {kind : Ballot.Kind} {voter candidate : OperatorAddress}
  {vote : OperatorAddress × Bool} {before after : Ballot} {verdict : Verdict}

/-- The voter is seated, and is not to be expelled itself. -/
structure Entitled (l : Ledger) (kind : Ballot.Kind) (candidate voter : OperatorAddress) :
    Prop where
  seated : (l.validators.get? voter).isSome
  other : kind = .kickProposal → voter ≠ candidate

/-- What a verdict on a ballot brings about. -/
def conclude (l : Ledger) : Ballot.Kind → OperatorAddress → Ballot → Verdict → List Event × Ledger
  | .application => l.concludeApplication
  | .kickProposal => l.concludeKick

/-- A vote that counts: it is cast by somebody entitled on an open ballot, which comes to a verdict
with it. -/
structure Counts (l : Ledger) (kind : Ballot.Kind) (candidate : OperatorAddress)
    (vote : OperatorAddress × Bool) (before after : Ballot) (verdict : Verdict) : Prop where
  entitled : l.Entitled kind candidate vote.1
  free : kind = .application → l.validators.size < l.inForce.maxValidators.toNat
  opened : (l.ballots kind).get? candidate = some before
  cast : before.cast? vote.1 vote.2 = some after
  reached : after.verdict (.ofNat (kind.pool l.validators.size)) l.inForce.quorum.toUInt64 =
    .ok verdict

/-- A vote that counts is carried out. -/
theorem Counts.execute_eq (h : l.Counts kind candidate vote before after verdict) :
    l.execute (kind.command vote.1 candidate vote.2) =
      .ok (kind.vote vote.1 candidate vote.2 :: (l.conclude kind candidate after verdict).1,
        (l.conclude kind candidate after verdict).2) := by
  have hseated : (l.validators.get? vote.1).isNone = false := by simp [h.entitled.seated]
  have hreached := h.reached
  cases kind with
  | application =>
    have hopened : l.applications.get? candidate = some before := h.opened
    simp only [Ballot.Kind.pool] at hreached
    simp only [Ballot.Kind.command, execute, voteApplication, Nat.not_le.mpr (h.free rfl), hseated,
      hopened, h.cast, hreached]
    rfl
  | kickProposal =>
    have hopened : l.kickProposals.get? candidate = some before := h.opened
    simp only [Ballot.Kind.pool] at hreached
    simp only [Ballot.Kind.command, execute, voteKick, h.entitled.other rfl, hseated, hopened,
      h.cast, hreached]
    rfl

/-- A vote on a ballot that is not open. -/
theorem execute_of_closed (hvoter : l.Entitled kind candidate vote.1)
    (hclosed : (l.ballots kind).get? candidate = none) :
    l.execute (kind.command vote.1 candidate vote.2) = .error (kind.closedFailure candidate
      (decide (l.inForce.maxValidators.toNat ≤ l.validators.size))) := by
  have hseated : (l.validators.get? vote.1).isNone = false := by simp [hvoter.seated]
  cases kind with
  | application =>
    have hclosed : l.applications.get? candidate = none := hclosed
    by_cases hfull : l.inForce.maxValidators.toNat ≤ l.validators.size <;>
      simp [Ballot.Kind.command, Ballot.Kind.closedFailure, execute, voteApplication, hfull,
        hseated, hclosed]
  | kickProposal =>
    have hclosed : l.kickProposals.get? candidate = none := hclosed
    simp [Ballot.Kind.command, Ballot.Kind.closedFailure, execute, voteKick, hvoter.other rfl,
      hseated, hclosed]

/-- Whose operator is in the electorate has a vote. -/
theorem Coherent.entitled {P : Ballot → Prop} (h : l.Coherent P)
    (hvoter : voter ∈ kind.electorate candidate (l.validators.values.map (·.operator))) :
    l.Entitled kind candidate voter := by
  cases kind with
  | application => exact ⟨h.mem_operators.mp hvoter, fun hkind => by cases hkind⟩
  | kickProposal =>
    obtain ⟨hmem, hother⟩ := List.mem_filter.mp hvoter
    exact ⟨h.mem_operators.mp hmem, fun _ => by simpa using hother⟩

/-- A decision closes the ballot and unseats nobody. The registry grows at most by the candidate of
an approved application. -/
theorem conclude_of_isFinal (l : Ledger) (kind : Ballot.Kind) (candidate : OperatorAddress)
    (b : Ballot) (hfinal : verdict.isFinal) :
    (l.conclude kind candidate b verdict).1 = [kind.outcome verdict.isApproval candidate] ∧
    ((l.conclude kind candidate b verdict).2.ballots kind).get? candidate = none ∧
    (∀ operator, (l.validators.get? operator).isSome →
      ((l.conclude kind candidate b verdict).2.validators.get? operator).isSome) ∧
    ((l.conclude kind candidate b verdict).2.validators.size = l.validators.size ∨
      kind = .application ∧ verdict.isApproval ∧
        (l.conclude kind candidate b verdict).2.validators.size = l.validators.size + 1) := by
  cases verdict with
  | pending => cases hfinal
  | rejected => cases kind <;> simp [conclude, concludeApplication, concludeKick,
      Ballot.Kind.outcome, Verdict.isApproval]
  | approved =>
    cases kind with
    | kickProposal => simp [conclude, concludeKick, Ballot.Kind.outcome, Verdict.isApproval]
    | application =>
      refine ⟨rfl, by simp [conclude, concludeApplication], fun operator hseated => ?_, ?_⟩
      · simp only [conclude, concludeApplication, validators_seat, validators_closeBallot,
          Table.get?_insert]
        split
        · rfl
        · exact hseated
      · simp only [conclude, concludeApplication, validators_seat, validators_closeBallot,
          Table.size_insert, Verdict.isApproval, true_and]
        split <;> simp

end Ledger

/-! ## One vote after the other -/

/-- A turn fails and leaves the store and the events as they were. -/
structure Turn.Refused (t : Turn (Service Contents)) (failure : Failure) : Prop where
  reply_eq : t.reply = .error failure
  store_eq : t.after.store = t.before.store
  sink_eq : t.after.sink = t.before.sink

/-- How a ballot is decided in a round among `seated` validators: votes before the decision are
counted and nothing else, the decision comes with its outcome, and votes after it are refused. The
registry is only larger after it if an application was approved. -/
structure Decision (kind : Ballot.Kind) (candidate : OperatorAddress) (approved : Bool)
    (maxValidators : UInt16) (seated : Nat) (before : List (OperatorAddress × Bool))
    (decider : OperatorAddress × Bool) (early : List (Turn (Service Contents)))
    (deciding : Turn (Service Contents)) (late : List (Turn (Service Contents))) : Prop where
  early_replies : early.map Turn.reply =
    before.map fun v => .ok (.events [kind.vote v.1 candidate v.2])
  reply_eq : deciding.reply =
    .ok (.events [kind.vote decider.1 candidate decider.2, kind.outcome approved candidate])
  refused : ∃ seatedAfter, deciding.after.view Registry.size = .ok seatedAfter ∧
    (seatedAfter = seated ∨ kind = .application ∧ approved ∧ seatedAfter = seated + 1) ∧
    ∀ t ∈ late, t.Refused
      (kind.closedFailure candidate (decide (maxValidators.toNat ≤ seatedAfter)))

/-- A vote that just counts goes before the rest of a round. -/
theorem Decision.cons {kind : Ballot.Kind} {candidate : OperatorAddress} {approved : Bool}
    {maxValidators : UInt16} {seated : Nat} {before : List (OperatorAddress × Bool)}
    {vote decider : OperatorAddress × Bool} {early late : List (Turn (Service Contents))}
    {t deciding : Turn (Service Contents)}
    (h : Decision kind candidate approved maxValidators seated before decider early deciding late)
    (ht : t.reply = .ok (.events [kind.vote vote.1 candidate vote.2])) :
    Decision kind candidate approved maxValidators seated (vote :: before) decider (t :: early)
      deciding late where
  early_replies := by rw [List.map_cons, List.map_cons, h.early_replies, ht]
  reply_eq := h.reply_eq
  refused := h.refused

namespace Service

open Ledger

variable {s : Service Contents} {l : Ledger} {kind : Ballot.Kind} {candidate : OperatorAddress}

/-- Votes on a ballot that is not open are refused. -/
theorem refused_of_closed (hstore : s.store = l.contents) (hl : l.Legible)
    (hclosed : (l.ballots kind).get? candidate = none) {votes : List (OperatorAddress × Bool)}
    (hvoters : ∀ v ∈ votes, l.Entitled kind candidate v.1) :
    ∀ t ∈ s.turns (votes.map (kind.ask candidate)), t.Refused (kind.closedFailure candidate
      (decide (l.inForce.maxValidators.toNat ≤ l.validators.size))) := by
  induction votes generalizing s with
  | nil => exact fun _ ht => absurd ht List.not_mem_nil
  | cons v rest ih =>
    rw [List.forall_mem_cons] at hvoters
    obtain ⟨hreply, hafter, hsink⟩ := act_eq hstore hl (kind.ask candidate v)
    rw [Ballot.Kind.ask, Ledger.act, execute_of_closed hvoters.1 hclosed] at hreply hafter hsink
    rw [List.map_cons, turns, AuthoritySet.turns, List.forall_mem_cons]
    exact ⟨⟨hreply, hafter.trans hstore.symm, hsink.trans (Sink.publish_nil _)⟩,
      ih hafter hvoters.2⟩

section Vote

variable {vote : OperatorAddress × Bool} {before after : Ballot} {verdict : Verdict}

/-- A vote that counts, asked of a service. -/
theorem act_ask (hstore : s.store = l.contents) (hl : l.Legible)
    (hvote : l.Counts kind candidate vote before after verdict) :
    (s.act (kind.ask candidate vote)).1 = .ok (.events
      (kind.vote vote.1 candidate vote.2 :: (l.conclude kind candidate after verdict).1)) ∧
    (s.act (kind.ask candidate vote)).2.store =
      (l.conclude kind candidate after verdict).2.contents := by
  obtain ⟨hreply, hafter, -⟩ := act_eq hstore hl (kind.ask candidate vote)
  rw [hreply, hafter, Ballot.Kind.ask, Ledger.act, hvote.execute_eq]
  exact ⟨rfl, rfl⟩

/-- A vote that decides on the ballot, and the votes that come later. -/
theorem decision_of_isFinal (hstore : s.store = l.contents) (h : l.Intact)
    (hvote : l.Counts kind candidate vote before after verdict) (hfinal : verdict.isFinal)
    {rest : List (OperatorAddress × Bool)} (hrest : ∀ v ∈ rest, l.Entitled kind candidate v.1) :
    Decision kind candidate verdict.isApproval l.inForce.maxValidators l.validators.size []
      vote [] (turn Service.act s (kind.ask candidate vote))
      ((s.act (kind.ask candidate vote)).2.turns (rest.map (kind.ask candidate))) := by
  obtain ⟨hreply, hstored⟩ := act_ask hstore h.legible hvote
  obtain ⟨houtcome, hclosed, hseated, hsize⟩ := l.conclude_of_isFinal kind candidate after hfinal
  have hstep := Step.of_execute hvote.execute_eq
  refine ⟨rfl, houtcome ▸ hreply, _, view_of_run hstored run_size, hsize, ?_⟩
  rw [← hstep.inForce_eq]
  exact refused_of_closed hstored (h.step hstep).legible hclosed fun v hv =>
    ⟨hseated _ (hrest v hv).seated, (hrest v hv).other⟩

end Vote

/-- A round on a ballot on which some have voted already. All others who have a vote do so now. -/
theorem round {b : Ballot} {cast coming : List (OperatorAddress × Bool)}
    (hstore : s.store = l.contents) (h : l.Intact)
    (hopened : (l.ballots kind).get? candidate = some b) (hb : b.Reflects cast)
    (hfree : kind = .application → l.validators.size < l.inForce.maxValidators.toNat)
    (hvoters : ∀ v ∈ coming, l.Entitled kind candidate v.1)
    (hnodup : ((cast ++ coming).map (·.1)).Nodup)
    (hpool : cast.length + coming.length = kind.pool l.validators.size)
    (hlt : kind.pool l.validators.size < 2 ^ 64) (hcoming : coming ≠ []) :
    ∃ before decider after early deciding late, coming = before ++ decider :: after ∧
      s.turns (coming.map (kind.ask candidate)) = early ++ deciding :: late ∧
      Decision kind candidate
        (decide ((Ballot.necessaryApprovals (.ofNat (kind.pool l.validators.size))
          l.inForce.quorum.toUInt64).toNat ≤ (cast ++ coming).countP (·.2)))
        l.inForce.maxValidators l.validators.size before decider early deciding late := by
  induction coming generalizing s l b cast with
  | nil => exact absurd rfl hcoming
  | cons v rest ih =>
    rw [List.forall_mem_cons] at hvoters
    rw [List.length_cons] at hpool
    rw [List.append_cons] at hnodup ⊢
    have hnew : v.1 ∉ cast.map (·.1) := by
      rw [List.map_append, List.map_append, List.nodup_append, List.nodup_append] at hnodup
      exact fun hmem => hnodup.1.2.2 v.1 hmem v.1 (by simp) rfl
    obtain ⟨after, hcast, hafter⟩ := hb.add hnew (by omega)
    have hlength : (cast ++ [v]).length + rest.length = kind.pool l.validators.size := by
      rw [List.length_append, List.length_singleton]
      omega
    obtain ⟨verdict, hreached, hdecides⟩ := hafter.verdict hlength hlt h.quorum_le
    have hvote : l.Counts kind candidate v b after verdict :=
      ⟨hvoters.1, hfree, hopened, hcast, hreached⟩
    rcases hdecides with ⟨rfl, hrest⟩ | ⟨hfinal, happroved⟩
    · -- the ballot stays open, with one more vote on it
      obtain ⟨hreply, hstored⟩ := act_ask hstore h.legible hvote
      have hintact := h.step (.of_execute hvote.execute_eq)
      have hpending : l.conclude kind candidate after .pending = ([], l.setBallot kind after) := by
        cases kind <;> rfl
      rw [hpending] at hreply hstored hintact
      have hkeyed : after.subject.operator = candidate := by
        rw [Ballot.subject_cast hcast, h.ballot_keyed hopened]
      have hround := ih hstored hintact (by simp [hkeyed]) hafter (by simpa using hfree)
        (fun w hw => ⟨by simpa using (hvoters.2 w hw).seated, (hvoters.2 w hw).other⟩) hnodup
        (by simpa using hlength) (by simpa using hlt) hrest
      rw [validators_setBallot, inForce_setBallot] at hround
      obtain ⟨before, decider, later, early, deciding, late, rfl, hturns, hdecision⟩ := hround
      refine ⟨v :: before, decider, later, turn Service.act s (kind.ask candidate v) :: early,
        deciding, late, rfl, ?_, hdecision.cons hreply⟩
      rw [List.map_cons, turns, AuthoritySet.turns, List.cons_append]
      exact congrArg _ hturns
    · -- the ballot is closed, and those who come later are refused
      rw [← happroved]
      exact ⟨[], v, rest, [], _, _, rfl, rfl,
        decision_of_isFinal hstore h hvote hfinal hvoters.2⟩

/-- **A full round of votes decides, whatever the order.** In any state that a run from an empty
store leads to, a ballot is open that nobody has voted on: an application, while a seat is free, or
a proposal to expel a seated validator. All who have a vote cast it, one after the other. Then
exactly one of these votes decides, and approval depends on how many of all votes approve. Votes
before it just count, votes after it are refused and change nothing. -/
theorem full_round_decides {calls : List Call} {vs : List Validator} {params : Params}
    {subject : Validator} {votes : List (OperatorAddress × Bool)} (hempty : s.store = .empty)
    (hseated : (s.run calls).2.view Registry.validators = .ok vs)
    (hparams : (s.run calls).2.params = .ok params)
    (hopened : (s.run calls).2.view (Registry.ballot? kind candidate) = .ok (some (.start subject)))
    (happlication : kind = .application →
      1 ≤ vs.length ∧ vs.length < params.maxValidators.toNat)
    (hkick : kind = .kickProposal →
      2 ≤ vs.length ∧ vs.length < 2 ^ 64 ∧ candidate ∈ vs.map (·.operator))
    (hvotes : (votes.map (·.1)).Perm (kind.electorate candidate (vs.map (·.operator)))) :
    ∃ before decider after early deciding late, votes = before ++ decider :: after ∧
      (s.run calls).2.turns (votes.map (kind.ask candidate)) = early ++ deciding :: late ∧
      Decision kind candidate
        (decide ((Ballot.necessaryApprovals (.ofNat (kind.pool vs.length))
          params.quorum.toUInt64).toNat ≤ votes.countP (·.2)))
        params.maxValidators vs.length before decider early deciding late := by
  obtain ⟨-, l, hstore, h⟩ := intact_run (hempty.trans contents_empty.symm) Intact.empty calls
  obtain rfl : l.validators.values = vs :=
    Except.ok.inj ((view_of_run hstore run_validators).symm.trans hseated)
  obtain rfl : l.inForce = params :=
    Except.ok.inj ((view_of_run hstore run_params).symm.trans hparams)
  have hopened : (l.ballots kind).get? candidate = some (.start subject) :=
    Except.ok.inj ((view_of_run hstore (run_ballot? h.legible kind candidate)).symm.trans hopened)
  have hsize : l.validators.values.length = l.validators.size := by
    rw [Table.values, List.length_map, Table.size]
  rw [hsize] at happlication hkick ⊢
  have hlength : votes.length = kind.pool l.validators.size := by
    have hlength := hvotes.length_eq
    rw [List.length_map] at hlength
    rw [hlength, Ballot.Kind.length_electorate h.nodup_operators fun hkind => (hkick hkind).2.2,
      List.length_map, hsize]
  have hpool : 1 ≤ kind.pool l.validators.size ∧ kind.pool l.validators.size < 2 ^ 64 := by
    cases kind with
    | application =>
      have hmost := l.inForce.maxValidators.toNat_lt
      simp only [Ballot.Kind.pool]
      exact ⟨(happlication rfl).1, by have := (happlication rfl).2; omega⟩
    | kickProposal =>
      obtain ⟨htwo, hlt, -⟩ := hkick rfl
      simp only [Ballot.Kind.pool]
      omega
  refine round hstore h hopened (Ballot.Reflects.start subject)
    (fun hkind => (happlication hkind).2) (fun v hv => ?_) ?_
    (by rw [List.length_nil, hlength, Nat.zero_add]) hpool.2 ?_
  · exact h.entitled (hvotes.subset (List.mem_map.mpr ⟨v, hv, rfl⟩))
  · exact hvotes.nodup_iff.mpr (Ballot.Kind.nodup_electorate h.nodup_operators)
  · rintro rfl
    rw [List.length_nil] at hlength
    omega

/-- Two validators are about to vote on expelling a third one. -/
def kickThird : List Call :=
  [.initialise .lone,
   .setParams { quorum := 0 },
   .execute (.submitApplication (.uniform 2 2)),
   .execute (.submitApplication (.uniform 3 3)),
   .setParams { quorum := 50 },
   .execute (.proposeKick (Validator.uniform 3 3).operator (Validator.uniform 1 1).operator)]

/-- One approval of two is enough, also if it comes last. -/
theorem full_round_decides_kickThird :
    ∃ before decider after early deciding late,
      [((Validator.uniform 2 2).operator, false), ((Validator.uniform 1 1).operator, true)] =
        before ++ decider :: after ∧
      (({ store := .empty } : Service Contents).run kickThird).2.turns
        ([((Validator.uniform 2 2).operator, false),
          ((Validator.uniform 1 1).operator, true)].map
            (Ballot.Kind.ask .kickProposal (Validator.uniform 3 3).operator)) =
        early ++ deciding :: late ∧
      Decision .kickProposal (Validator.uniform 3 3).operator true 15 3 before decider early
        deciding late :=
  have hseated : (({ store := .empty } : Service Contents).run kickThird).2.view
      Registry.validators = .ok [.uniform 1 1, .uniform 2 2, .uniform 3 3] := by decide +kernel
  have hparams : (({ store := .empty } : Service Contents).run kickThird).2.params =
      .ok { quorum := 50 } := by decide +kernel
  have hopened : (({ store := .empty } : Service Contents).run kickThird).2.view
      (Registry.ballot? .kickProposal (Validator.uniform 3 3).operator) =
      .ok (some (.start (.uniform 3 3))) := by decide +kernel
  full_round_decides rfl hseated hparams hopened (fun hkind => by cases hkind)
    (fun _ => by decide) (by decide)

end Service

end AuthoritySet
