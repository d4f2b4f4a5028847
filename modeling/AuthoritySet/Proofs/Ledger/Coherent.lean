import AuthoritySet.Proofs.Ballot
import AuthoritySet.Proofs.Ledger.Step

/-!
# Coherent ledgers

In a coherent ledger (`Ledger.Coherent`) records stand under the operators that they name, every
seated validator has a state, and all open ballots have some property. How many validators there are
does not matter, nor does it matter what was founded or which parameters were set on the way.

* `Ledger.Coherent.step`: commands keep ledgers coherent, if the property lasts while a ballot is
  open.
* `Ledger.Coherent.establish`: so does founding, whatever the ledger held before.
-/

namespace AuthoritySet

namespace Ledger

variable {l l' : Ledger} {P : Ballot → Prop}

/-- The ledgers whose tables fit together, and whose open ballots have a property. -/
structure Coherent (P : Ballot → Prop) (l : Ledger) : Prop where
  validator_keyed {operator : OperatorAddress} {v : Validator} :
    l.validators.get? operator = some v → v.operator = operator
  ballot_keyed {kind : Ballot.Kind} {operator : OperatorAddress} {b : Ballot} :
    (l.ballots kind).get? operator = some b → b.subject.operator = operator
  state_isSome {operator : OperatorAddress} {v : Validator} :
    l.validators.get? operator = some v → (l.lifecycles.get? operator).isSome
  ballot {kind : Ballot.Kind} {operator : OperatorAddress} {b : Ballot} :
    (l.ballots kind).get? operator = some b → P b

namespace Coherent

theorem application_keyed (h : l.Coherent P) {operator : OperatorAddress} {b : Ballot}
    (hb : l.applications.get? operator = some b) : b.subject.operator = operator :=
  h.ballot_keyed (show (l.ballots .application).get? operator = some b from hb)

theorem kick_keyed (h : l.Coherent P) {operator : OperatorAddress} {b : Ballot}
    (hb : l.kickProposals.get? operator = some b) : b.subject.operator = operator :=
  h.ballot_keyed (show (l.ballots .kickProposal).get? operator = some b from hb)

theorem empty : ({} : Ledger).Coherent P where
  validator_keyed h := by cases h
  ballot_keyed {kind _ _} h := by cases kind <;> cases h
  state_isSome h := by cases h
  ballot {kind _ _} h := by cases kind <;> cases h

/-! ## Updates -/

theorem setParams (h : l.Coherent P) (params : Params) : (l.setParams params).Coherent P where
  validator_keyed hv := h.validator_keyed hv
  ballot_keyed hb := h.ballot_keyed (by simpa using hb)
  state_isSome hv := h.state_isSome hv
  ballot hb := h.ballot (by simpa using hb)

theorem seat (h : l.Coherent P) (v : Validator) (state : Lifecycle) :
    (l.seat v state).Coherent P where
  validator_keyed {operator w} hw := by
    rcases Table.get?_insert_cases hw with ⟨rfl, rfl⟩ | ⟨-, hw⟩
    · rfl
    · exact h.validator_keyed hw
  ballot_keyed hb := h.ballot_keyed (by simpa using hb)
  state_isSome {operator w} hw := by
    rw [lifecycles_seat, Table.get?_insert]
    rcases Table.get?_insert_cases hw with ⟨hop, -⟩ | ⟨hop, hw⟩
    · rw [if_pos hop]
      rfl
    · rw [if_neg hop]
      exact h.state_isSome hw
  ballot hb := h.ballot (by simpa using hb)

theorem setLifecycle (h : l.Coherent P) (operator : OperatorAddress) (state : Lifecycle) :
    (l.setLifecycle operator state).Coherent P where
  validator_keyed hv := h.validator_keyed hv
  ballot_keyed hb := h.ballot_keyed (by simpa using hb)
  state_isSome hv := by
    rw [lifecycles_setLifecycle, Table.get?_insert]
    split
    · rfl
    · exact h.state_isSome hv
  ballot hb := h.ballot (by simpa using hb)

theorem setBallot (h : l.Coherent P) (kind : Ballot.Kind) {b : Ballot} (hb : P b) :
    (l.setBallot kind b).Coherent P where
  validator_keyed hv := h.validator_keyed (by simpa using hv)
  ballot_keyed hget := by
    rcases ballots_setBallot_cases hget with ⟨-, rfl, rfl⟩ | ⟨-, hget⟩
    · rfl
    · exact h.ballot_keyed hget
  state_isSome hv := by simpa using h.state_isSome (by simpa using hv)
  ballot hget := by
    rcases ballots_setBallot_cases hget with ⟨-, -, rfl⟩ | ⟨-, hget⟩
    · exact hb
    · exact h.ballot hget

theorem closeBallot (h : l.Coherent P) (kind : Ballot.Kind) (operator : OperatorAddress) :
    (l.closeBallot kind operator).Coherent P where
  validator_keyed hv := h.validator_keyed (by simpa using hv)
  ballot_keyed hget := h.ballot_keyed (ballots_of_closeBallot hget)
  state_isSome hv := by simpa using h.state_isSome (by simpa using hv)
  ballot hget := h.ballot (ballots_of_closeBallot hget)

/-! ## Commands -/

theorem concludeApplication (h : l.Coherent P) {candidate : OperatorAddress} {b : Ballot}
    {verdict : Verdict} (hb : verdict = .pending → P b) :
    (l.concludeApplication candidate b verdict).2.Coherent P := by
  cases verdict with
  | approved => exact (h.closeBallot .application candidate).seat _ _
  | rejected => exact h.closeBallot .application candidate
  | pending => exact h.setBallot .application (hb rfl)

theorem concludeKick (h : l.Coherent P) {candidate : OperatorAddress} {b : Ballot}
    {verdict : Verdict} (hb : verdict = .pending → P b) :
    (l.concludeKick candidate b verdict).2.Coherent P := by
  cases verdict with
  | approved => exact (h.closeBallot .kickProposal candidate).setLifecycle _ _
  | rejected => exact h.closeBallot .kickProposal candidate
  | pending => exact h.setBallot .kickProposal (hb rfl)

/-- Commands keep ledgers coherent. -/
theorem step (h : l.Coherent P) (hP : Ballot.Lasting P l.validators.size) {c : Command}
    {events : List Event} (hs : l.Step c events l') : l'.Coherent P := by
  cases hs with
  | seatAtOnce => exact h.seat _ _
  | apply => exact h.setBallot .application (hP.start _)
  | voteApplication _ _ opened cast reached =>
    have hopened : (l.ballots .application).get? _ = some _ := opened
    exact h.concludeApplication fun hpending =>
      hP.cast (h.ballot hopened) cast (Nat.le_refl _) (hpending ▸ reached)
  | expel => exact h.setLifecycle _ _
  | propose => exact h.setBallot .kickProposal (hP.start _)
  | voteKick _ _ opened cast reached =>
    have hopened : (l.ballots .kickProposal).get? _ = some _ := opened
    exact h.concludeKick fun hpending =>
      hP.cast (h.ballot hopened) cast (Nat.sub_le _ _) (hpending ▸ reached)
  | leave => exact (h.closeBallot .kickProposal _).setLifecycle _ _

/-! ## Founding -/

theorem seatAll (h : l.Coherent P) (vs : List Validator) : (l.seatAll vs).Coherent P := by
  induction vs generalizing l with
  | nil => exact h
  | cons v rest ih => exact ih (h.seat v .joined)

theorem establish (h : l.Coherent P) (g : Genesis) : (l.establish g).2.Coherent P :=
  (h.setParams g.params).seatAll g.validators

end Coherent

end Ledger

end AuthoritySet
