import AuthoritySet.Proofs.Ledger.Seats

/-!
# Tidy ledgers

In a tidy ledger (`Ledger.Tidy`) only seated validators have a state, and kick proposals are about
validators that stay. Founding leads to a tidy ledger whatever the keys are, and so do all steps but
one: who expels a validator at once, because the quorum is zero, leaves the kick proposal on it open.

* `Ledger.Tidy.step`, `Ledger.Tidy.settled`, `Ledger.Tidy.establish`.
-/

namespace AuthoritySet

namespace Ledger

variable {l l' : Ledger}

/-- The ledgers in which only seated validators have a state, and no kick proposal outlives its
target. -/
structure Tidy (l : Ledger) : Prop where
  seated_of_state {operator : OperatorAddress} {state : Lifecycle} :
    l.lifecycles.get? operator = some state → (l.validators.get? operator).isSome
  kicked {operator : OperatorAddress} {b : Ballot} :
    l.kickProposals.get? operator = some b → l.Stays operator

namespace Tidy

theorem setParams (h : l.Tidy) (params : Params) : (l.setParams params).Tidy :=
  ⟨h.seated_of_state, h.kicked⟩

/-! ## Updates -/

/-- Anybody may be seated, if only those start to leave on whom no kick proposal is open. -/
theorem seat (h : l.Tidy) (v : Validator) {state : Lifecycle}
    (hstate : state = .leaving → l.kickProposals.get? v.operator = none) :
    (l.seat v state).Tidy where
  seated_of_state hfound := by
    rw [validators_seat, Table.get?_insert]
    rcases Table.get?_insert_cases hfound with ⟨hop, -⟩ | ⟨hop, hfound⟩
    · rw [if_pos hop]
      rfl
    · rw [if_neg hop]
      exact h.seated_of_state hfound
  kicked {operator b} hb := by
    have hb : l.kickProposals.get? operator = some b := hb
    rw [Stays, validators_seat, lifecycles_seat, Table.get?_insert, Table.get?_insert]
    split
    · rename_i hop
      refine ⟨rfl, fun hleaving => ?_⟩
      rw [hop, hstate (Option.some.inj hleaving)] at hb
      cases hb
    · exact h.kicked hb

/-- A ballot may be opened or continued, a kick proposal on somebody who stays. -/
theorem setBallot (h : l.Tidy) (kind : Ballot.Kind) {b : Ballot}
    (hkicked : kind = .kickProposal → l.Stays b.subject.operator) : (l.setBallot kind b).Tidy where
  seated_of_state hstate := by simpa using h.seated_of_state (by simpa using hstate)
  kicked {operator b'} hb := by
    have hb : ((l.setBallot kind b).ballots .kickProposal).get? operator = some b' := hb
    rw [Stays, validators_setBallot, lifecycles_setBallot]
    rcases ballots_setBallot_cases hb with ⟨hkind, rfl, -⟩ | ⟨-, hb⟩
    · exact hkicked hkind.symm
    · exact h.kicked hb

theorem closeBallot (h : l.Tidy) (kind : Ballot.Kind) (operator : OperatorAddress) :
    (l.closeBallot kind operator).Tidy where
  seated_of_state hstate := by simpa using h.seated_of_state (by simpa using hstate)
  kicked {operator' b} hb := by
    have hb : ((l.closeBallot kind operator).ballots .kickProposal).get? operator' = some b := hb
    rw [Stays, validators_closeBallot, lifecycles_closeBallot]
    exact h.kicked (ballots_of_closeBallot hb)

/-- A seated validator without a kick proposal may be marked as leaving. -/
theorem setLeaving (h : l.Tidy) {operator : OperatorAddress}
    (hseated : (l.validators.get? operator).isSome)
    (hnotKicked : l.kickProposals.get? operator = none) :
    (l.setLifecycle operator .leaving).Tidy where
  seated_of_state {operator' state} hstate := by
    rcases Table.get?_insert_cases hstate with ⟨rfl, -⟩ | ⟨-, hstate⟩
    · exact hseated
    · exact h.seated_of_state hstate
  kicked {operator' b} hb := by
    have hb : l.kickProposals.get? operator' = some b := hb
    have hop : operator' ≠ operator := by
      intro hop
      rw [hop, hnotKicked] at hb
      cases hb
    rw [Stays, validators_setLifecycle, lifecycles_setLifecycle, Table.get?_insert, if_neg hop]
    exact h.kicked hb

/-- A seated validator may be marked as leaving once the kick proposal on it is closed. -/
theorem closeAndLeave (h : l.Tidy) {operator : OperatorAddress}
    (hseated : (l.validators.get? operator).isSome) :
    ((l.closeBallot .kickProposal operator).setLifecycle operator .leaving).Tidy := by
  refine (h.closeBallot .kickProposal operator).setLeaving (by simpa using hseated) ?_
  rw [get?_kickProposals_closeBallot, if_pos rfl]

/-! ## Commands and epoch boundaries -/

theorem concludeApplication (h : l.Tidy) (candidate : OperatorAddress) (b : Ballot)
    (verdict : Verdict) : (l.concludeApplication candidate b verdict).2.Tidy := by
  cases verdict with
  | approved => exact (h.closeBallot .application candidate).seat b.subject (by simp)
  | rejected => exact h.closeBallot .application candidate
  | pending => exact h.setBallot .application fun hkind => by cases hkind

theorem concludeKick (h : l.Tidy) (hl : l.Sound) {candidate : OperatorAddress}
    {before after : Ballot} (hopened : l.kickProposals.get? candidate = some before)
    (hsubject : after.subject = before.subject) (verdict : Verdict) :
    (l.concludeKick candidate after verdict).2.Tidy := by
  cases verdict with
  | approved => exact h.closeAndLeave (h.kicked hopened).1
  | rejected => exact h.closeBallot .kickProposal candidate
  | pending =>
    refine h.setBallot .kickProposal fun _ => ?_
    rw [hsubject, hl.kick_keyed hopened]
    exact h.kicked hopened

/-- Commands keep ledgers tidy, as long as nobody is expelled at once on whom a kick proposal is
open. -/
theorem step (h : l.Tidy) (hl : l.Sound) {c : Command} {events : List Event}
    (hs : l.Step c events l')
    (hguard : ∀ candidate proposer, c = .proposeKick candidate proposer →
      events = [.kickValidator candidate] → l.kickProposals.get? candidate = none) : l'.Tidy := by
  cases hs with
  | seatAtOnce => exact h.seat _ (by simp)
  | apply => exact h.setBallot .application fun hkind => by cases hkind
  | voteApplication => exact h.concludeApplication _ _ _
  | expel _ _ found =>
    refine h.setLeaving ?_ (hguard _ _ rfl rfl)
    rw [found]
    rfl
  | propose _ _ found stateFound staying =>
    refine h.setBallot .kickProposal fun _ => ?_
    rw [Ballot.start, hl.validator_keyed found, Stays, found, stateFound]
    exact ⟨rfl, fun hstate => staying (Option.some.inj hstate)⟩
  | voteKick _ _ opened cast => exact h.concludeKick hl opened (Ballot.subject_cast cast) _
  | leave seated => exact h.closeAndLeave seated

/-- Epoch boundaries keep ledgers tidy. -/
theorem settled (h : l.Tidy) (hl : l.Sound) : l.settled.Tidy where
  seated_of_state {operator state} hstate := by
    rw [hl.get?_lifecycles_settled] at hstate
    rw [hl.seated_settled_iff]
    cases hbefore : l.lifecycles.get? operator with
    | none => simp [hbefore] at hstate
    | some before =>
      have hseated := h.seated_of_state hbefore
      rw [hbefore, if_pos hseated] at hstate
      refine ⟨hseated, ?_⟩
      rw [hbefore]
      rintro ⟨⟩
      cases hstate
  kicked hb := hl.stays_settled_iff.mpr (h.kicked hb)

/-! ## Founding -/

theorem seatAll (h : l.Tidy) (vs : List Validator) : (l.seatAll vs).Tidy := by
  induction vs generalizing l with
  | nil => exact h
  | cons v rest ih => exact ih (h.seat v (by simp))

/-- Founding starts with a tidy ledger. -/
theorem establish (g : Genesis) : (({} : Ledger).establish g).2.Tidy :=
  have hnothing : (({} : Ledger).setParams g.params).Tidy := {
    seated_of_state := fun hstate => by cases hstate
    kicked := fun hb => by cases hb }
  hnothing.seatAll g.validators

end Tidy

end Ledger

end AuthoritySet
