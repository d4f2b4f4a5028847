import AuthoritySet.Proofs.Ledger.Step
import AuthoritySet.Proofs.Plan

/-!
# The registry is seven maps

Whoever works on the registry alone (`RegistryUse`), on plain contents that are empty at first,
cannot tell it from a `Ledger`: one value for the parameters, and a map for each of the six other
parts of the store. A use changes the maps that it names and no others, whatever the arguments are;
nothing has to make sense as a whole, and a state may be kept of somebody who has no record.

* `Ledger.use`: what a use answers from the maps, and what it makes of them.
* `Ledger.InPlace`: everything stands under the operator that it names, and can be read back.
* `Ledger.part_use`: what a use leaves alone. `Ledger.run_use`: a use of the bytes of such maps.
* `Ledger.registry_eq_maps`: any number of uses, one after the other.
-/

namespace AuthoritySet

/-- A use of the registry. A ballot that is stored has no more voters than eight bytes can count. -/
inductive RegistryUse where
  | params
  | setParams (params : Params)
  | validator (operator : OperatorAddress)
  | validatorAt (address : ConsensusAddress)
  | setValidator (v : Validator)
  | lifecycle (operator : OperatorAddress)
  | setLifecycle (operator : OperatorAddress) (state : Lifecycle)
  | seat (v : Validator)
  | unseat (operator : OperatorAddress)
  | entries
  | validators
  | size
  | ballot (kind : Ballot.Kind) (operator : OperatorAddress)
  | applicationAt (address : ConsensusAddress)
  | setBallot (kind : Ballot.Kind) (b : Ballot) (counted : b.voters.length < 2 ^ 64)
  | openBallot (kind : Ballot.Kind) (subject : Validator)
  | closeBallot (kind : Ballot.Kind) (operator : OperatorAddress)
  | ballotEntries (kind : Ballot.Kind)
  | ballots (kind : Ballot.Kind)

/-- What a use of the registry returns. -/
inductive RegistryAnswer where
  | done
  | params (params : Params)
  | validator (v : Option Validator)
  | lifecycle (state : Option Lifecycle)
  | ballot (b : Option Ballot)
  | size (count : Nat)
  | entries (entries : List (Except Failure Validator))
  | validators (vs : List Validator)
  | ballotEntries (entries : List (Except Failure Ballot))
  | ballots (bs : List Ballot)

/-- A listing ascends strictly by operators; of entries, all can be decoded. -/
def RegistryAnswer.Ascends : RegistryAnswer → Prop
  | .entries es => ∃ vs : List Validator, es = vs.map .ok ∧ (vs.map (·.operator)).Pairwise (· < ·)
  | .validators vs => (vs.map (·.operator)).Pairwise (· < ·)
  | .ballotEntries es =>
    ∃ bs : List Ballot, es = bs.map .ok ∧ (bs.map (·.subject.operator)).Pairwise (· < ·)
  | .ballots bs => (bs.map (·.subject.operator)).Pairwise (· < ·)
  | _ => True

namespace RegistryUse

/-- The parts of the store that a use names. All others it leaves alone. -/
def touches : RegistryUse → List Section
  | .setParams _ => [.params]
  | .setValidator _ => [.validators, .validatorIndex]
  | .setLifecycle .. => [.lifecycles]
  | .seat _ => [.validators, .validatorIndex, .lifecycles]
  | .unseat _ => [.validators, .validatorIndex, .lifecycles]
  | .setBallot kind .. => ballotParts kind
  | .openBallot kind _ => ballotParts kind
  | .closeBallot kind _ => ballotParts kind
  | _ => []
where
  ballotParts : Ballot.Kind → List Section
    | .application => [.applications, .applicationIndex]
    | .kickProposal => [.kickProposals]

/-- The transaction that a use stands for. -/
def transaction : RegistryUse → Transaction RegistryAnswer
  | .params => .params <$> Registry.params
  | .setParams p => (fun _ => .done) <$> Registry.setParams p
  | .validator operator => .validator <$> Registry.validator? operator
  | .validatorAt address => .validator <$> Registry.validatorAt? address
  | .setValidator v => (fun _ => .done) <$> Registry.setValidator v
  | .lifecycle operator => .lifecycle <$> Registry.lifecycle? operator
  | .setLifecycle operator state => (fun _ => .done) <$> Registry.setLifecycle operator state
  | .seat v => (fun _ => .done) <$> Registry.seat v
  | .unseat operator => (fun _ => .done) <$> Registry.unseat operator
  | .entries => .entries <$> Registry.entries
  | .validators => .validators <$> Registry.validators
  | .size => .size <$> Registry.size
  | .ballot kind operator => .ballot <$> Registry.ballot? kind operator
  | .applicationAt address => .ballot <$> Registry.applicationAt? address
  | .setBallot kind b _ => (fun _ => .done) <$> Registry.setBallot kind b
  | .openBallot kind subject => (fun _ => .done) <$> Registry.openBallot kind subject
  | .closeBallot kind operator => (fun _ => .done) <$> Registry.closeBallot kind operator
  | .ballotEntries kind => .ballotEntries <$> Registry.ballotEntries kind
  | .ballots kind => .ballots <$> Registry.ballots kind

/-- The answers of some contents to some uses, and the contents after them. -/
def runAll (c : Contents) : List RegistryUse → Except Failure (List RegistryAnswer × Contents)
  | [] => .ok ([], c)
  | u :: rest => do
    let (answer, c) ← u.transaction.run c
    let (answers, c) ← runAll c rest
    return (answer :: answers, c)

end RegistryUse

namespace Ledger

variable {l : Ledger}

/-! ## The maps -/

/-- What the maps answer to a use, and what they are afterwards. -/
def use (l : Ledger) : RegistryUse → RegistryAnswer × Ledger
  | .params => (.params l.inForce, l)
  | .setParams params => (.done, l.setParams params)
  | .validator operator => (.validator (l.validators.get? operator), l)
  | .validatorAt address => (.validator (l.validatorAt? address), l)
  | .setValidator v => (.done, l.setValidator v)
  | .lifecycle operator => (.lifecycle (l.lifecycles.get? operator), l)
  | .setLifecycle operator state => (.done, l.setLifecycle operator state)
  | .seat v => (.done, l.seat v .joining)
  | .unseat operator => (.done, l.unseat operator)
  | .entries => (.entries (l.validators.values.map .ok), l)
  | .validators => (.validators l.validators.values, l)
  | .size => (.size l.validators.size, l)
  | .ballot kind operator => (.ballot ((l.ballots kind).get? operator), l)
  | .applicationAt address => (.ballot (l.applicationAt? address), l)
  | .setBallot kind b _ => (.done, l.setBallot kind b)
  | .openBallot kind subject => (.done, l.setBallot kind (.start subject))
  | .closeBallot kind operator => (.done, l.closeBallot kind operator)
  | .ballotEntries kind => (.ballotEntries ((l.ballots kind).values.map .ok), l)
  | .ballots kind => (.ballots (l.ballots kind).values, l)

/-- The answers of the maps to some uses, and what they are after them. -/
def useAll (l : Ledger) : List RegistryUse → List RegistryAnswer × Ledger
  | [] => ([], l)
  | u :: rest => ((l.use u).1 :: ((l.use u).2.useAll rest).1, ((l.use u).2.useAll rest).2)

/-! ## Records in their places -/

/-- The ledgers in which all records stand under the operators that they name, and can be read
back. -/
structure InPlace (l : Ledger) : Prop where
  validator_keyed {operator : OperatorAddress} {v : Validator} :
    l.validators.get? operator = some v → v.operator = operator
  ballot_keyed {kind : Ballot.Kind} {operator : OperatorAddress} {b : Ballot} :
    (l.ballots kind).get? operator = some b → b.subject.operator = operator
  legible : l.Legible

namespace InPlace

theorem empty : ({} : Ledger).InPlace where
  validator_keyed hv := by cases hv
  ballot_keyed {kind _ _} hb := by cases kind <;> cases hb
  legible kind _ _ hb := by cases kind <;> cases hb

/-- What leaves the ballots alone and keeps the records in their places. -/
theorem congr {l' : Ledger} (h : l.InPlace)
    (hvalidators : ∀ {operator v}, l'.validators.get? operator = some v → v.operator = operator)
    (hballots : ∀ kind, l'.ballots kind = l.ballots kind) : l'.InPlace where
  validator_keyed := hvalidators
  ballot_keyed {kind _ _} hb := h.ballot_keyed (hballots kind ▸ hb)
  legible kind operator b hb := h.legible kind operator b (hballots kind ▸ hb)

theorem setValidator (h : l.InPlace) (v : Validator) : (l.setValidator v).InPlace := by
  refine h.congr (fun {operator w} hw => ?_) fun kind => by cases kind <;> rfl
  rcases Table.get?_insert_cases hw with ⟨rfl, rfl⟩ | ⟨-, hw⟩
  · rfl
  · exact h.validator_keyed hw

theorem setLifecycle (h : l.InPlace) (operator : OperatorAddress) (state : Lifecycle) :
    (l.setLifecycle operator state).InPlace :=
  h.congr h.validator_keyed fun kind => ballots_setLifecycle l operator state kind

theorem unseat (h : l.InPlace) (operator : OperatorAddress) : (l.unseat operator).InPlace :=
  h.congr (fun hv => h.validator_keyed (Table.get?_of_erase hv).2)
    fun kind => by cases kind <;> rfl

theorem setBallot (h : l.InPlace) (kind : Ballot.Kind) {b : Ballot}
    (hcounted : b.voters.length < 2 ^ 64) : (l.setBallot kind b).InPlace where
  validator_keyed hv := h.validator_keyed (by simpa using hv)
  ballot_keyed hb := by
    rcases ballots_setBallot_cases hb with ⟨-, rfl, rfl⟩ | ⟨-, hb⟩
    · rfl
    · exact h.ballot_keyed hb
  legible kind' operator b' hb := by
    rcases ballots_setBallot_cases hb with ⟨-, -, rfl⟩ | ⟨-, hb⟩
    · exact hcounted
    · exact h.legible kind' operator b' hb

theorem closeBallot (h : l.InPlace) (kind : Ballot.Kind) (operator : OperatorAddress) :
    (l.closeBallot kind operator).InPlace where
  validator_keyed hv := h.validator_keyed (by simpa using hv)
  ballot_keyed hb := h.ballot_keyed (ballots_of_closeBallot hb)
  legible kind' operator' b hb := h.legible kind' operator' b (ballots_of_closeBallot hb)

/-- Every use leaves the records in their places. -/
theorem use (h : l.InPlace) (u : RegistryUse) : (l.use u).2.InPlace := by
  cases u with
  | setParams params => exact h.congr h.validator_keyed (ballots_setParams l · params)
  | setValidator v => exact h.setValidator v
  | setLifecycle operator state => exact h.setLifecycle operator state
  | seat v => exact (h.setValidator v).setLifecycle v.operator .joining
  | unseat operator => exact h.unseat operator
  | setBallot kind b counted => exact h.setBallot kind counted
  | openBallot kind subject => exact h.setBallot kind (by simp [Ballot.start])
  | closeBallot kind operator => exact h.closeBallot kind operator
  | _ => exact h

/-- Every listing ascends. -/
theorem ascends_use (h : l.InPlace) (u : RegistryUse) : (l.use u).1.Ascends := by
  have hascends : ∀ {β : Type} {t : Table OperatorAddress β} {f : β → OperatorAddress},
      (∀ {operator r}, t.get? operator = some r → f r = operator) →
        (t.values.map f).Pairwise (· < ·) := by
    intro β t f hkeyed
    rw [Table.map_values_of_keyed hkeyed]
    exact List.pairwise_map.mpr t.ascending
  cases u with
  | entries => exact ⟨_, rfl, hascends h.validator_keyed⟩
  | validators => exact hascends h.validator_keyed
  | ballotEntries kind => exact ⟨_, rfl, hascends h.ballot_keyed⟩
  | ballots kind => exact hascends h.ballot_keyed
  | _ => trivial

theorem useAll (h : l.InPlace) (uses : List RegistryUse) :
    (∀ answer ∈ (l.useAll uses).1, answer.Ascends) ∧ (l.useAll uses).2.InPlace := by
  induction uses generalizing l with
  | nil => exact ⟨by simp [Ledger.useAll], h⟩
  | cons u rest ih =>
    obtain ⟨hanswers, hafter⟩ := ih (h.use u)
    rw [Ledger.useAll, List.forall_mem_cons]
    exact ⟨⟨h.ascends_use u, hanswers⟩, hafter⟩

end InPlace

/-! ## Bytes -/

/-- A use leaves the parts alone that it does not name. -/
theorem part_use (l : Ledger) {u : RegistryUse} {part : Section} (h : part ∉ u.touches) :
    (l.use u).2.part part = l.part part := by
  have hballot (kind : Ballot.Kind) (b : Ballot)
      (hpart : part ∉ RegistryUse.touches.ballotParts kind) :
      (l.setBallot kind b).part part = l.part part := by
    cases kind <;> cases part <;> first | rfl | simp [RegistryUse.touches.ballotParts] at hpart
  cases u with
  | setBallot kind b _ => exact hballot kind b h
  | openBallot kind subject => exact hballot kind _ h
  | closeBallot kind operator =>
    cases kind <;> cases part <;>
      first | rfl | simp [RegistryUse.touches, RegistryUse.touches.ballotParts] at h
  | _ => cases part <;> first | rfl | simp [RegistryUse.touches] at h

open Transaction in
/-- A use of the bytes of some maps is the use of the maps. -/
theorem run_use (h : l.InPlace) (u : RegistryUse) :
    u.transaction.run l.contents = .ok (stored (l.use u)) := by
  have hentries : ∀ {β : Type} (t : Table OperatorAddress β),
      t.entries.map (fun e => (.ok e.2 : Except Failure β)) = t.values.map .ok := fun t => by
    simp [Table.values, Function.comp_def]
  cases u with
  | params => rw [RegistryUse.transaction, run_map, run_params]; rfl
  | setParams params => rw [RegistryUse.transaction, run_map, run_setParams]; rfl
  | validator operator => rw [RegistryUse.transaction, run_map, run_validator?]; rfl
  | validatorAt address => rw [RegistryUse.transaction, run_map, run_validatorAt?]; rfl
  | setValidator v => rw [RegistryUse.transaction, run_map, run_setValidator]; rfl
  | lifecycle operator => rw [RegistryUse.transaction, run_map, run_lifecycle?]; rfl
  | setLifecycle operator state => rw [RegistryUse.transaction, run_map, run_setLifecycle]; rfl
  | seat v => rw [RegistryUse.transaction, run_map, run_seat]; rfl
  | unseat operator => rw [RegistryUse.transaction, run_map, run_unseat]; rfl
  | entries => rw [RegistryUse.transaction, run_map, run_entries, hentries]; rfl
  | validators => rw [RegistryUse.transaction, run_map, run_validators]; rfl
  | size => rw [RegistryUse.transaction, run_map, run_size]; rfl
  | ballot kind operator => rw [RegistryUse.transaction, run_map, run_ballot? h.legible]; rfl
  | applicationAt address =>
    rw [RegistryUse.transaction, run_map, run_applicationAt? h.legible]; rfl
  | setBallot kind b _ => rw [RegistryUse.transaction, run_map, run_setBallot]; rfl
  | openBallot kind subject =>
    rw [RegistryUse.transaction, run_map, Registry.openBallot, run_setBallot]; rfl
  | closeBallot kind operator =>
    rw [RegistryUse.transaction, run_map, run_closeBallot h.legible]; rfl
  | ballotEntries kind =>
    rw [RegistryUse.transaction, run_map, run_ballotEntries h.legible, hentries]; rfl
  | ballots kind => rw [RegistryUse.transaction, run_map, run_ballots h.legible]; rfl

theorem runAll_eq (h : l.InPlace) (uses : List RegistryUse) :
    RegistryUse.runAll l.contents uses = .ok (stored (l.useAll uses)) := by
  induction uses generalizing l with
  | nil => rfl
  | cons u rest ih =>
    rw [RegistryUse.runAll, run_use h u]
    show (RegistryUse.runAll (l.use u).2.contents rest >>= _) = _
    rw [ih (h.use u)]
    rfl

/-- **The registry is seven maps.** Whatever is done to the registry on empty contents, all is
answered as by the maps, and what is stored in the end are the maps. Every listing ascends, and what
is done next leaves the bytes of all parts alone that it does not name. -/
theorem registry_eq_maps (uses : List RegistryUse) :
    RegistryUse.runAll .empty uses = .ok (stored (({} : Ledger).useAll uses)) ∧
    (∀ answer ∈ (({} : Ledger).useAll uses).1, answer.Ascends) ∧
    ∀ u : RegistryUse, ∃ answer after,
      u.transaction.run (({} : Ledger).useAll uses).2.contents = .ok (answer, after) ∧
      ∀ part ∉ u.touches, after.startingWith part.beginning =
        (({} : Ledger).useAll uses).2.contents.startingWith part.beginning := by
  obtain ⟨hascend, hplace⟩ := InPlace.empty.useAll uses
  refine ⟨runAll_eq InPlace.empty uses, hascend,
    fun u => ⟨_, _, run_use hplace u, fun part hpart => ?_⟩⟩
  rw [startingWith_contents, startingWith_contents, part_use _ hpart]

end Ledger

end AuthoritySet
