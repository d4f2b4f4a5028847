import AuthoritySet.Proofs.Ledger.Epoch

/-!
# What everyone in a ledger has in common

A record comes into the registry by an application or at once, and into an application when its
candidate applies. What all seated validators and all candidates have in common (`Ledger.Everyone`)
stays so, as long as those have it who apply.

* `Ledger.Everyone.step`, `Ledger.Everyone.settled`: commands and epoch boundaries keep it.
* `Ledger.Everyone.establish`: founding, if the validators of the document have it.
-/

namespace AuthoritySet

namespace Ledger

variable {l l' : Ledger} {P : Validator → Prop}

/-- All seated validators and all candidates have a property. -/
structure Everyone (P : Validator → Prop) (l : Ledger) : Prop where
  seated {operator : OperatorAddress} {v : Validator} :
    l.validators.get? operator = some v → P v
  applying {operator : OperatorAddress} {b : Ballot} :
    l.applications.get? operator = some b → P b.subject

namespace Everyone

theorem empty : ({} : Ledger).Everyone P where
  seated hv := by cases hv
  applying hb := by cases hb

theorem seat (h : l.Everyone P) {v : Validator} (state : Lifecycle) (hv : P v) :
    (l.seat v state).Everyone P where
  seated hw := by
    rcases Table.get?_insert_cases hw with ⟨-, rfl⟩ | ⟨-, hw⟩
    · exact hv
    · exact h.seated hw
  applying hb := h.applying hb

theorem setApplication (h : l.Everyone P) {b : Ballot} (hb : P b.subject) :
    (l.setBallot .application b).Everyone P where
  seated hv := h.seated hv
  applying hb' := by
    rcases Table.get?_insert_cases hb' with ⟨-, rfl⟩ | ⟨-, hb'⟩
    · exact hb
    · exact h.applying hb'

theorem closeApplication (h : l.Everyone P) (operator : OperatorAddress) :
    (l.closeBallot .application operator).Everyone P where
  seated hv := h.seated hv
  applying hb := h.applying (Table.get?_of_erase hb).2

theorem concludeApplication (h : l.Everyone P) (candidate : OperatorAddress) {b : Ballot}
    (hb : P b.subject) (verdict : Verdict) :
    (l.concludeApplication candidate b verdict).2.Everyone P := by
  cases verdict with
  | approved => exact (h.closeApplication candidate).seat .joining hb
  | rejected => exact h.closeApplication candidate
  | pending => exact h.setApplication hb

theorem concludeKick (h : l.Everyone P) (candidate : OperatorAddress) (b : Ballot)
    (verdict : Verdict) : (l.concludeKick candidate b verdict).2.Everyone P := by
  cases verdict <;> exact ⟨h.seated, h.applying⟩

/-- Commands keep what everyone has in common, if candidates have it. -/
theorem step (h : l.Everyone P) {c : Command} {events : List Event} (hs : l.Step c events l')
    (hc : ∀ v, c = .submitApplication v → P v) : l'.Everyone P := by
  cases hs with
  | seatAtOnce => exact h.seat .joining (hc _ rfl)
  | @apply candidate => exact h.setApplication (hc candidate rfl)
  | voteApplication _ _ opened cast =>
    exact h.concludeApplication _ (Ballot.subject_cast cast ▸ h.applying opened) _
  | expel => exact ⟨h.seated, h.applying⟩
  | propose => exact ⟨h.seated, h.applying⟩
  | voteKick => exact h.concludeKick _ _ _
  | leave => exact ⟨h.seated, h.applying⟩

theorem settled (h : l.Everyone P) (hl : l.Sound) : l.settled.Everyone P where
  seated hv := h.seated (hl.seated_of_settled hv).1
  applying hb := h.applying hb

theorem seatAll (h : l.Everyone P) {vs : List Validator} (hvs : ∀ v ∈ vs, P v) :
    (l.seatAll vs).Everyone P := by
  induction vs generalizing l with
  | nil => exact h
  | cons v rest ih =>
    rw [List.forall_mem_cons] at hvs
    exact ih (h.seat .joined hvs.1) hvs.2

theorem establish {g : Genesis} (hg : ∀ v ∈ g.validators, P v) :
    (({} : Ledger).establish g).2.Everyone P :=
  seatAll (l := ({} : Ledger).setParams g.params) ⟨empty.seated, empty.applying⟩ hg

end Everyone

end Ledger

end AuthoritySet
