import AuthoritySet.Proofs.Integrity
import AuthoritySet.Proofs.Ledger.Locality
import AuthoritySet.Proofs.Ledger.Orderly
import Mathlib.Data.List.Nodup

/-!
# Founding a set again

Right after its founding a set seats the validators of its genesis document and nobody else, and all
of them have joined (`Ledger.SeatsJust`). The order in which the document lists them leaves no trace,
so the document that the service then writes, with the validators in the order of their operators,
founds the same set again.

* `Ledger.SeatsJust.establish`: who is seated after a founding.
* `Ledger.SeatsJust.perm_values`: the registry lists just these, each once.
* `Ledger.establish_eq_of_perm`: documents with the same validators found the same set.
* `Service.founding_reproducible`: what this comes to for a service.
-/

namespace AuthoritySet

namespace Ledger

variable {l m : Ledger} {vs : List Validator} {v : Validator}

/-- Some validators are seated under their operators, all of them have joined, and nobody else has a
seat or a state. -/
structure SeatsJust (l : Ledger) (vs : List Validator) : Prop where
  seated_iff {operator : OperatorAddress} {v : Validator} :
    l.validators.get? operator = some v ↔ v ∈ vs ∧ v.operator = operator
  state_iff {operator : OperatorAddress} {state : Lifecycle} :
    l.lifecycles.get? operator = some state ↔ state = .joined ∧ ∃ v ∈ vs, v.operator = operator

namespace SeatsJust

/-- One more validator is seated that is new to the registry. -/
theorem seat (h : l.SeatsJust vs) (hnew : l.validators.get? v.operator = none) :
    (l.seat v .joined).SeatsJust (vs ++ [v]) := by
  have hother : ∀ w ∈ vs, w.operator ≠ v.operator := by
    intro w hw hop
    rw [h.seated_iff.mpr ⟨hw, hop⟩] at hnew
    cases hnew
  refine ⟨fun {operator w} => ?_, fun {operator state} => ?_⟩
  · rw [validators_seat, Table.get?_insert, List.mem_append, List.mem_singleton]
    split
    · rename_i hop
      constructor
      · intro hw
        cases hw
        exact ⟨.inr rfl, hop.symm⟩
      · rintro ⟨hw | rfl, rfl⟩
        · exact absurd hop (hother w hw)
        · rfl
    · rename_i hop
      rw [h.seated_iff]
      constructor
      · exact fun hw => ⟨.inl hw.1, hw.2⟩
      · rintro ⟨hw | rfl, rfl⟩
        · exact ⟨hw, rfl⟩
        · exact absurd rfl hop
  · rw [lifecycles_seat, Table.get?_insert]
    simp only [List.mem_append, List.mem_singleton, or_and_right, exists_or, exists_eq_left]
    split
    · rename_i hop
      simp [hop, eq_comm]
    · rename_i hop
      rw [h.state_iff]
      simp [Ne.symm hop]

/-- Founding seats the validators of the document. -/
theorem establish {g : Genesis} (hcheck : g.check = .ok ()) :
    (({} : Ledger).establish g).2.SeatsJust g.validators := by
  refine establish_induction_by (P := fun seated l => l.SeatsJust seated) hcheck
    (Genesis.nodup_operators hcheck) ⟨?_, ?_⟩ fun _ _ _ _ h hnew => h.seat hnew.1
  · simp [setParams]
  · simp [setParams]

/-- The registry lists the validators, each of them once. -/
theorem perm_values (h : l.SeatsJust vs) (hl : l.Sound) (hnodup : vs.Nodup) :
    l.validators.values.Perm vs := by
  refine (List.perm_ext_iff_of_nodup (.of_map _ hl.nodup_operators) hnodup).mpr fun v => ?_
  rw [hl.mem_values, h.seated_iff]
  exact and_iff_left rfl

end SeatsJust

theorem params_seatAll (l : Ledger) (vs : List Validator) : (l.seatAll vs).params = l.params := by
  induction vs generalizing l with
  | nil => rfl
  | cons v rest ih => exact ih _

/-- Documents that have the same parameters, and the same validators in another order, found the same
set, if keys are told apart. -/
theorem establish_eq_of_perm {g g' : Genesis} (hcheck : g.check = .ok ())
    (hkeys : KeysTellApart (g.validators.map (·.key))) (hparams : g'.params = g.params)
    (hperm : g'.validators.Perm g.validators) :
    (({} : Ledger).establish g').2 = (({} : Ledger).establish g).2 := by
  have hcheck' := Genesis.check_of_perm hcheck hparams hperm
  have hindexed := (Orderly.establish hcheck hkeys).1.distinct.validators
  have hindexed' := (Orderly.establish hcheck' (hkeys.mono (hperm.map _).subset)).1.distinct.validators
  have hseats := SeatsJust.establish hcheck
  have hseats' := SeatsJust.establish hcheck'
  have hvalidators : (({} : Ledger).establish g').2.validators =
      (({} : Ledger).establish g).2.validators :=
    Table.ext_get? fun operator => Option.ext fun v => by
      rw [hseats'.seated_iff, hseats.seated_iff, hperm.mem_iff]
  refine eq_of_cells (.establish g) (.establish g') ⟨?_, hvalidators, ?_⟩ fun operator => ?_
  · rw [establish, establish, params_seatAll, params_seatAll, hparams]
  · refine Table.ext_get? fun address => Option.ext fun operator => ?_
    rw [hindexed' address operator, hindexed address operator, hvalidators]
  · -- nobody else has a state, and founding opens no ballot
    have hstate : (({} : Ledger).establish g').2.lifecycles.get? operator =
        (({} : Ledger).establish g).2.lifecycles.get? operator :=
      Option.ext fun state => by
        rw [hseats'.state_iff, hseats.state_iff]
        simp only [hperm.mem_iff]
    have hnone (g : Genesis) (kind : Ballot.Kind) := get?_ballots_establish operator kind g
    rw [cells, cells, hstate]
    congr 1
    · exact (hnone g' .application).trans (hnone g .application).symm
    · exact (hnone g' .kickProposal).trans (hnone g .kickProposal).symm

end Ledger

namespace Service

open Ledger

variable {s : Service Contents} {g : Genesis}

/-- **Founding can be reproduced.** A document that passes its check founds a set above any empty
store: the consensus layer gets a power of one for each validator, in the order of the document, all
of them have joined, and the service then writes a document with the same parameters and validators,
these in the order of their operators. If keys are told apart, that document, and any other one with
the same parameters and validators, leaves the same bytes in every empty store. A document that does
not pass its check changes nothing, whatever the store. -/
theorem founding_reproducible (hempty : s.store = .empty) :
    (g.check = .ok () → ∃ s₀ doc,
      s.initialise g = .ok (g.validators.map fun v => ⟨v.address, v.key, 1⟩, s₀) ∧
      s₀.exportGenesis = .ok doc ∧ doc.params = g.params ∧ doc.validators.Perm g.validators ∧
      (doc.validators.map (·.operator)).Pairwise (· < ·) ∧
      (∀ v ∈ doc.validators, s₀.lifecycle? v.operator = .ok (some .joined)) ∧
      (KeysTellApart (g.validators.map (·.key)) →
        ∀ g' : Genesis, g' = doc ∨ g'.params = g.params ∧ g'.validators.Perm g.validators →
          ∀ fresh : Service Contents, fresh.store = .empty → ∃ updates started,
            fresh.initialise g' = .ok (updates, started) ∧ started.store = s₀.store)) ∧
    ∀ failure, g.check = .error failure → ∀ {σ : Type} [ByteStore σ] (other : Service σ),
      other.call (.initialise g) = (.error failure, other) := by
  constructor
  · intro hcheck
    have hstart := (initialise_eq_ok_iff hempty).mpr ⟨hcheck, rfl, rfl⟩
    have h := holds_initialise hempty hstart
    have hseats := SeatsJust.establish hcheck
    have hperm := hseats.perm_values h.sound (.of_map _ (Genesis.nodup_operators hcheck))
    refine ⟨_, _, hstart, exportGenesis_eq h.store_eq, ?_, hperm, ?_, fun v hv => ?_, ?_⟩
    · exact inForce_seatAll _ _
    · rw [h.sound.map_operator_values]
      exact List.pairwise_map.mpr (Table.ascending _)
    · rw [h.lifecycle_eq, hseats.state_iff.mpr ⟨rfl, v, hperm.mem_iff.mp hv, rfl⟩]
    · intro hkeys g' hg' fresh hfresh
      have hsame : g'.params = g.params ∧ g'.validators.Perm g.validators := by
        rcases hg' with rfl | hg'
        · exact ⟨inForce_seatAll _ _, hperm⟩
        · exact hg'
      refine ⟨_, _, (initialise_eq_ok_iff hfresh).mpr
        ⟨Genesis.check_of_perm hcheck hsame.1 hsame.2, rfl, rfl⟩, ?_⟩
      exact congrArg contents (establish_eq_of_perm hcheck hkeys hsame.1 hsame.2)
  · intro failure hcheck σ _ other
    simp only [call, perform, Call.plan, hcheck]

/-- A document that lists its two validators against the order of their operators. -/
def unsorted : Genesis := { validators := [.uniform 2 2, .uniform 1 1] }

theorem founding_reproducible_unsorted : KeysTellApart (unsorted.validators.map (·.key)) ∧
    ∃ s₀ doc started, ({ store := .empty } : Service Contents).initialise unsorted =
        .ok ([⟨(Validator.uniform 2 2).address, (Validator.uniform 2 2).key, 1⟩,
          ⟨(Validator.uniform 1 1).address, (Validator.uniform 1 1).key, 1⟩], s₀) ∧
      s₀.exportGenesis = .ok doc ∧ doc.validators.Perm unsorted.validators ∧
      (∃ updates, ({ store := .empty } : Service Contents).initialise doc =
        .ok (updates, started)) ∧ started.store = s₀.store := by
  have hkeys : KeysTellApart (unsorted.validators.map (·.key)) := by decide +kernel
  obtain ⟨s₀, doc, hstart, hexport, -, hperm, -, -, hsame⟩ :=
    (founding_reproducible (s := { store := .empty }) (g := unsorted) rfl).1 (by decide)
  obtain ⟨updates, started, hstarted, hstore⟩ := hsame hkeys doc (.inl rfl) { store := .empty } rfl
  exact ⟨hkeys, s₀, doc, started, hstart, hexport, hperm, ⟨updates, hstarted⟩, hstore⟩

end Service

end AuthoritySet
