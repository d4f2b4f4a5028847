import AuthoritySet.Proofs.Ledger.Everyone
import AuthoritySet.Proofs.Ledger.Identity
import AuthoritySet.Proofs.Turn

/-!
# The keys of a run

Consensus keys are told apart by their addresses, which are digests. What depends on that is said
of runs whose keys have different addresses (`KeysTellApart`); the keys of a run are those of its
genesis document and of the candidates that apply (`usedKeys`).

* `Ledger.Draws`: all records of a ledger have keys from a list.
* `Ledger.establish_induction_by`, `Ledger.establish_induction`: founding seats one validator after
  the other, each of them different from those before; and new to the ledger if keys are told apart.
-/

namespace AuthoritySet

/-- Different keys of a list have different addresses. -/
def KeysTellApart (keys : List ConsensusKey) : Prop :=
  ∀ a ∈ keys, ∀ b ∈ keys, a.address = b.address → a = b

instance (keys : List ConsensusKey) : Decidable (KeysTellApart keys) :=
  inferInstanceAs (Decidable (∀ a ∈ keys, ∀ b ∈ keys, a.address = b.address → a = b))

/-- The key of the candidate that applies in an act, if one does. -/
def Act.keys (a : Act) : List ConsensusKey :=
  match a.command? with
  | some (.submitApplication candidate) => [candidate.key]
  | _ => []

/-- The keys that a run gets to see. -/
def usedKeys (g : Genesis) (acts : List Act) : List ConsensusKey :=
  g.validators.map (·.key) ++ acts.flatMap Act.keys

theorem Act.mem_keys {a : Act} {candidate : Validator}
    (h : a.command? = some (.submitApplication candidate)) : candidate.key ∈ a.keys := by
  simp [keys, h]

theorem Act.keys_subset {g : Genesis} {acts : List Act} {a : Act} (h : a ∈ acts) :
    a.keys ⊆ usedKeys g acts := fun _ hkey =>
  List.mem_append_right _ (List.mem_flatMap.mpr ⟨a, h, hkey⟩)

namespace KeysTellApart

variable {keys : List ConsensusKey}

theorem mono {more : List ConsensusKey} (h : KeysTellApart more) (hsub : keys ⊆ more) :
    KeysTellApart keys :=
  fun a ha b hb => h a (hsub ha) b (hsub hb)

/-- Validators with different keys have different addresses. -/
theorem nodup_addresses {vs : List Validator} (h : KeysTellApart keys)
    (hsub : ∀ v ∈ vs, v.key ∈ keys) (hnodup : (vs.map (·.key)).Nodup) :
    (vs.map (·.address)).Nodup := by
  induction vs with
  | nil => exact List.nodup_nil
  | cons v rest ih =>
    rw [List.map_cons, List.nodup_cons] at *
    rw [List.forall_mem_cons] at hsub
    refine ⟨fun hmem => hnodup.1 ?_, ih hsub.2 hnodup.2⟩
    obtain ⟨w, hw, ha⟩ := List.mem_map.mp hmem
    exact List.mem_map.mpr ⟨w, hw, h _ (hsub.2 w hw) _ hsub.1 ha⟩

end KeysTellApart

namespace Ledger

/-- All records of a ledger have keys from a list. -/
def Draws (l : Ledger) (keys : List ConsensusKey) : Prop := l.Everyone fun v => v.key ∈ keys

/-- Founding seats the validators of a document one after the other, each of them different from
those before. -/
theorem establish_induction_by {β : Type} {f : Validator → β} {g : Genesis}
    {P : List Validator → Ledger → Prop} (hcheck : g.check = .ok ())
    (hdiffer : (g.validators.map f).Nodup) (hstart : P [] (({} : Ledger).setParams g.params))
    (hstep : ∀ seated l v, v ∈ g.validators → P seated l → l.NewBy f v →
      P (seated ++ [v]) (l.seat v .joined)) :
    P g.validators (({} : Ledger).establish g).2 :=
  seatAll_induction hstep (Genesis.nodup_operators hcheck) hdiffer
    (fun _ _ => ⟨rfl, fun _ _ hw => by cases hw⟩) hstart

/-- If keys are told apart, founding seats validators that are new to the ledger. -/
theorem establish_induction {g : Genesis} {P : List Validator → Ledger → Prop}
    (hcheck : g.check = .ok ()) (hkeys : KeysTellApart (g.validators.map (·.key)))
    (hstart : P [] (({} : Ledger).setParams g.params))
    (hstep : ∀ seated l v, v ∈ g.validators → P seated l → l.NewToRegistry v →
      P (seated ++ [v]) (l.seat v .joined)) :
    P g.validators (({} : Ledger).establish g).2 :=
  establish_induction_by (f := Validator.address) hcheck
    (hkeys.nodup_addresses (fun v hv => List.mem_map.mpr ⟨v, hv, rfl⟩) (Genesis.nodup_keys hcheck))
    hstart hstep

end Ledger

end AuthoritySet
