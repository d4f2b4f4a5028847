import AuthoritySet.Proofs.Genesis
import AuthoritySet.Proofs.Ledger.Coherent

/-!
# Sound ledgers

What every ledger of a set that was founded once satisfies, whatever parameters were set on the way
(`Ledger.Sound`): it is coherent, the numbers of every ballot say what its voters say, and sixteen
bits count the validators.

* `Ledger.Sound.legible`: the ballots of a sound ledger are read back.
* `Ledger.Sound.step`: commands keep ledgers sound.
* `Ledger.Sound.establish`: a genesis document that passes its check starts with a sound ledger.
-/

namespace AuthoritySet

namespace Ledger

variable {l l' : Ledger}

/-- The registry grows only as long as there is a free seat. -/
theorem Step.size_le {c : Command} {events : List Event} (hs : l.Step c events l') :
    l'.validators.size ≤ l.validators.size ∨
      l'.validators.size ≤ l.inForce.maxValidators.toNat := by
  have hseat (hfree : l.validators.size < l.inForce.maxValidators.toNat) (v : Validator) :
      (l.validators.insert v.operator v).size ≤ l.inForce.maxValidators.toNat :=
    Nat.le_trans (Table.size_insert_le _ _ _) hfree
  cases hs with
  | seatAtOnce free => exact .inr (hseat free _)
  | @voteApplication _ _ _ _ _ verdict free =>
    cases verdict with
    | approved => exact .inr (by simpa [concludeApplication] using hseat free _)
    | rejected => exact .inl (by simp [concludeApplication])
    | pending => exact .inl (by simp [concludeApplication])
  | @voteKick _ _ _ _ _ verdict => exact .inl (by cases verdict <;> simp [concludeKick])
  | apply => exact .inl (by simp)
  | propose => exact .inl (by simp)
  | expel => exact .inl (Nat.le_refl _)
  | leave => exact .inl (by simp)

/-- The ledgers that make sense. -/
structure Sound (l : Ledger) : Prop extends Coherent Ballot.Tallied l where
  size_lt : l.validators.size < 2 ^ 16

namespace Sound

theorem tallied (h : l.Sound) {kind : Ballot.Kind} {operator : OperatorAddress} {b : Ballot}
    (hb : (l.ballots kind).get? operator = some b) : b.Tallied :=
  h.ballot hb

theorem legible (h : l.Sound) : l.Legible := fun _ _ _ hb =>
  Nat.lt_trans (h.tallied hb).voters_lt (by decide)

theorem empty : ({} : Ledger).Sound := ⟨.empty, by decide⟩

theorem setParams (h : l.Sound) (params : Params) : (l.setParams params).Sound :=
  ⟨h.toCoherent.setParams params, h.size_lt⟩

/-! ## Commands -/

/-- Commands keep ledgers sound. -/
theorem step (h : l.Sound) {c : Command} {events : List Event} (hs : l.Step c events l') :
    l'.Sound := by
  refine ⟨h.toCoherent.step (Ballot.Tallied.lasting h.size_lt) hs, ?_⟩
  rcases hs.size_le with hle | hle
  · exact Nat.lt_of_le_of_lt hle h.size_lt
  · exact Nat.lt_of_le_of_lt hle l.inForce.maxValidators.toNat_lt

/-! ## Founding -/

/-- Seating some validators adds at most as many to the registry. -/
theorem size_seatAll_le (l : Ledger) (vs : List Validator) :
    (l.seatAll vs).validators.size ≤ l.validators.size + vs.length := by
  induction vs generalizing l with
  | nil => exact Nat.le_refl _
  | cons v rest ih =>
    have hsize : (l.seat v .joined).validators.size ≤ l.validators.size + 1 :=
      Table.size_insert_le _ _ _
    rw [seatAll, List.length_cons]
    exact Nat.le_trans (ih _) (by omega)

/-- Founding starts with a sound ledger. -/
theorem establish {g : Genesis} (h : g.check = .ok ()) :
    (({} : Ledger).establish g).2.Sound := by
  refine ⟨Coherent.empty.establish g, ?_⟩
  have hseated := size_seatAll_le (({} : Ledger).setParams g.params) g.validators
  have hseats := Genesis.length_le_of_check h
  have hlt := g.params.maxValidators.toNat_lt
  have hnone : (({} : Ledger).setParams g.params).validators.size = 0 := rfl
  exact Nat.lt_of_le_of_lt hseated (by omega)

end Sound

end Ledger

end AuthoritySet
