import AuthoritySet.Proofs.Ledger.Sound
import Mathlib.Data.List.Basic

/-!
# Epoch boundaries in closed form

Settling visits one validator after the other and changes the ledger on the way. On a coherent
ledger it comes to the same as changing all entries at once, by what stands in the ledger at the
beginning.

* `Ledger.dueUpdates`: the updates of a boundary. `Ledger.settled`: the ledger after it.
* `Ledger.Coherent.settle_eq`: settling a coherent ledger succeeds with these.
* `Ledger.Coherent.settled`, `Ledger.Sound.settled`: the ledger after a boundary is coherent, and
  sound if it was so before.
-/

namespace AuthoritySet

/-- Lists of identities are searched by equality. -/
instance {kind : IdentityKind} : LawfulBEq (Identity kind) := inferInstance

/-- What an epoch boundary makes of a state; who is leaving has none afterwards. -/
def Lifecycle.settled : Lifecycle → Option Lifecycle
  | .joining => some .joined
  | .joined => some .joined
  | .leaving => none

/-- The update that an epoch boundary owes to the consensus layer for a validator in a state. -/
def Validator.dueUpdate? (v : Validator) : Lifecycle → Option PowerUpdate
  | .joining => some v.grant
  | .joined => none
  | .leaving => some v.revoke

namespace Ledger

variable {l l' : Ledger}

/-- The update that a boundary owes for a validator of the ledger. -/
def dueUpdate? (l : Ledger) (v : Validator) : Option PowerUpdate :=
  (l.lifecycles.get? v.operator).bind v.dueUpdate?

/-- Those of some validators that are leaving. -/
def leavers (l : Ledger) (vs : List Validator) : List Validator :=
  vs.filter fun v => l.lifecycles.get? v.operator = some .leaving

/-- The ledger after some validators have been settled. -/
def settledAmong (l : Ledger) (vs : List Validator) : Ledger :=
  { l with
    validators := l.validators.filterMap fun operator v =>
      if operator ∈ (l.leavers vs).map (·.operator) then none else some v
    validatorIndex := l.validatorIndex.filterMap fun address operator =>
      if address ∈ (l.leavers vs).map (·.address) then none else some operator
    lifecycles := l.lifecycles.filterMap fun operator state =>
      if operator ∈ vs.map (·.operator) then state.settled else some state }

/-! ## One validator after the other -/

theorem settledAmong_nil (l : Ledger) : l.settledAmong [] = l := by
  have hsame : ∀ {κ β : Type} [LT κ] (t : Table κ β), t.filterMap (fun _ v => some v) = t :=
    fun t => Table.ext (by simp [Table.filterMap])
  simp [settledAmong, leavers, hsame]

theorem dueUpdate?_congr {v : Validator}
    (h : l'.lifecycles.get? v.operator = l.lifecycles.get? v.operator) :
    l'.dueUpdate? v = l.dueUpdate? v := by
  rw [dueUpdate?, dueUpdate?, h]

theorem leavers_congr {vs : List Validator}
    (h : ∀ v ∈ vs, l'.lifecycles.get? v.operator = l.lifecycles.get? v.operator) :
    l'.leavers vs = l.leavers vs :=
  List.filter_congr fun v hv => by rw [h v hv]

theorem leavers_cons (v : Validator) (rest : List Validator) (state : Lifecycle)
    (h : l.lifecycles.get? v.operator = some state) :
    l.leavers (v :: rest) = if state = .leaving then v :: l.leavers rest else l.leavers rest := by
  simp [leavers, List.filter_cons, h]

/-- Settling one validator leaves the states of the others alone. -/
theorem get?_lifecycles_settleIn (v : Validator) (state : Lifecycle) {operator : OperatorAddress}
    (h : operator ≠ v.operator) :
    (l.settleIn v state).2.lifecycles.get? operator = l.lifecycles.get? operator := by
  cases state <;> simp [settleIn, unseat, h]

/-- Settling one validator leaves the records of the others alone. -/
theorem get?_validators_settleIn (v : Validator) (state : Lifecycle) {operator : OperatorAddress}
    (h : operator ≠ v.operator) :
    (l.settleIn v state).2.validators.get? operator = l.validators.get? operator := by
  cases state <;> simp [settleIn, unseat, h]

/-- Settling one validator first and others afterwards is settling all of them. -/
theorem settledAmong_cons {v : Validator} {rest : List Validator} {state : Lifecycle}
    (hseated : l.validators.get? v.operator = some v)
    (hstate : l.lifecycles.get? v.operator = some state)
    (hnew : v.operator ∉ rest.map (·.operator)) :
    (l.settleIn v state).2.settledAmong rest = l.settledAmong (v :: rest) := by
  have hleavers : (l.settleIn v state).2.leavers rest = l.leavers rest :=
    leavers_congr fun w hw => get?_lifecycles_settleIn v state
      fun he => hnew (List.mem_map.mpr ⟨w, hw, he⟩)
  have hcons := leavers_cons v rest state hstate
  unfold settledAmong
  rw [hleavers, hcons]
  -- the tables can only differ where the first one stands
  cases state with
  | joined =>
    simp only [settleIn, reduceCtorEq, if_false, Ledger.mk.injEq, true_and, and_true]
    refine Table.ext_get? fun op => ?_
    by_cases hop : op = v.operator
    · simp [hop, hstate, Lifecycle.settled]
    · simp [hop]
  | joining =>
    simp only [settleIn, setLifecycle, reduceCtorEq, if_false, Ledger.mk.injEq, true_and, and_true]
    refine Table.ext_get? fun op => ?_
    by_cases hop : op = v.operator
    · simp [hop, hstate, Lifecycle.settled]
    · simp [hop]
  | leaving =>
    simp only [settleIn, unseat, hseated, if_true, Ledger.mk.injEq, true_and, and_true]
    refine ⟨Table.ext_get? fun op => ?_, Table.ext_get? fun a => ?_, Table.ext_get? fun op => ?_⟩
    · by_cases hop : op = v.operator <;> simp [hop]
    · by_cases ha : a = v.address <;> simp [ha]
    · by_cases hop : op = v.operator
      · simp [hop, hstate, Lifecycle.settled]
      · simp [hop]

/-- Settling seated validators with states, one after the other, settles them all at once. -/
theorem settleAll_eq {vs : List Validator} (hnodup : (vs.map (·.operator)).Nodup)
    (hseated : ∀ v ∈ vs, l.validators.get? v.operator = some v)
    (hstate : ∀ v ∈ vs, (l.lifecycles.get? v.operator).isSome) :
    l.settleAll vs = .ok (vs.filterMap l.dueUpdate?, l.settledAmong vs) := by
  induction vs generalizing l with
  | nil => rw [settleAll, List.filterMap_nil, settledAmong_nil]
  | cons v rest ih =>
    rw [List.map_cons, List.nodup_cons] at hnodup
    obtain ⟨state, hv⟩ := Option.isSome_iff_exists.mp (hstate v List.mem_cons_self)
    have hother : ∀ w ∈ rest, w.operator ≠ v.operator := fun w hw he =>
      hnodup.1 (List.mem_map.mpr ⟨w, hw, he⟩)
    -- settling the first one changes nothing that settling the others looks at
    have hrest : (l.settleIn v state).2.settleAll rest =
        .ok (rest.filterMap l.dueUpdate?, l.settledAmong (v :: rest)) := by
      rw [ih hnodup.2, settledAmong_cons (hseated v List.mem_cons_self) hv hnodup.1]
      · congr 2
        exact List.filterMap_congr fun w hw =>
          dueUpdate?_congr (get?_lifecycles_settleIn v state (hother w hw))
      · intro w hw
        rw [get?_validators_settleIn v state (hother w hw)]
        exact hseated w (List.mem_cons_of_mem v hw)
      · intro w hw
        rw [get?_lifecycles_settleIn v state (hother w hw)]
        exact hstate w (List.mem_cons_of_mem v hw)
    rw [settleAll, hv]
    simp only [hrest, Except.map, List.filterMap_cons, dueUpdate?, hv, Option.bind_some]
    cases state <;> rfl

/-! ## The whole registry -/

/-- The updates that a boundary owes, in the order of the operators. -/
def dueUpdates (l : Ledger) : List PowerUpdate := l.validators.values.filterMap l.dueUpdate?

/-- The ledger after a boundary. -/
def settled (l : Ledger) : Ledger := l.settledAmong l.validators.values

namespace Coherent

variable {P : Ballot → Prop}

theorem mem_values (h : l.Coherent P) {v : Validator} :
    v ∈ l.validators.values ↔ l.validators.get? v.operator = some v := by
  rw [Table.mem_values]
  constructor
  · rintro ⟨operator, hv⟩
    rwa [h.validator_keyed hv]
  · exact fun hv => ⟨v.operator, hv⟩

theorem map_operator_values (h : l.Coherent P) :
    l.validators.values.map (·.operator) = l.validators.entries.map (·.1) :=
  Table.map_values_of_keyed h.validator_keyed

theorem nodup_operators (h : l.Coherent P) : (l.validators.values.map (·.operator)).Nodup := by
  rw [h.map_operator_values]
  exact l.validators.nodup_keys

theorem mem_operators (h : l.Coherent P) {operator : OperatorAddress} :
    operator ∈ l.validators.values.map (·.operator) ↔
      (l.validators.get? operator).isSome := by
  rw [h.map_operator_values, Table.mem_keys]

theorem mem_leavers (h : l.Coherent P) {v : Validator} : v ∈ l.leavers l.validators.values ↔
    l.validators.get? v.operator = some v ∧ l.lifecycles.get? v.operator = some .leaving := by
  simp [leavers, h.mem_values]

/-- Settling a coherent ledger succeeds. -/
theorem settle_eq (h : l.Coherent P) : l.settle = .ok (l.dueUpdates, l.settled) :=
  settleAll_eq h.nodup_operators (fun _ hv => h.mem_values.mp hv)
    fun _ hv => h.state_isSome (h.mem_values.mp hv)

theorem get?_validators_settled (h : l.Coherent P) (operator : OperatorAddress) :
    l.settled.validators.get? operator =
      if l.lifecycles.get? operator = some .leaving then none else l.validators.get? operator := by
  have hleaver : operator ∈ (l.leavers l.validators.values).map (·.operator) ↔
      (l.validators.get? operator).isSome ∧ l.lifecycles.get? operator = some .leaving := by
    simp only [List.mem_map, h.mem_leavers]
    constructor
    · rintro ⟨v, ⟨hv, hstate⟩, rfl⟩
      exact ⟨by rw [hv]; rfl, hstate⟩
    · rintro ⟨hv, hstate⟩
      obtain ⟨v, hv⟩ := Option.isSome_iff_exists.mp hv
      have hop := h.validator_keyed hv
      exact ⟨v, ⟨by rwa [hop], by rwa [hop]⟩, hop⟩
  simp only [settled, settledAmong, Table.get?_filterMap, hleaver]
  cases l.validators.get? operator with
  | none => simp
  | some v => simp

/-- Who is seated after a boundary was seated before it, and is not leaving. -/
theorem seated_of_settled (h : l.Coherent P) {operator : OperatorAddress} {v : Validator}
    (hv : l.settled.validators.get? operator = some v) :
    l.validators.get? operator = some v ∧ l.lifecycles.get? operator ≠ some .leaving := by
  rw [h.get?_validators_settled] at hv
  split at hv
  · cases hv
  · rename_i hstaying
    exact ⟨hv, hstaying⟩

theorem get?_lifecycles_settled (h : l.Coherent P) (operator : OperatorAddress) :
    l.settled.lifecycles.get? operator =
      if (l.validators.get? operator).isSome
      then (l.lifecycles.get? operator).bind Lifecycle.settled
      else l.lifecycles.get? operator := by
  simp only [settled, settledAmong, Table.get?_filterMap, h.mem_operators]
  split <;> simp

/-- Who is seated after a boundary has joined. -/
theorem joined_of_settled (h : l.Coherent P) {operator : OperatorAddress} {v : Validator}
    (hv : l.settled.validators.get? operator = some v) :
    l.settled.lifecycles.get? operator = some .joined := by
  obtain ⟨hv, hstaying⟩ := h.seated_of_settled hv
  obtain ⟨state, hstate⟩ := Option.isSome_iff_exists.mp (h.state_isSome hv)
  rw [h.get?_lifecycles_settled, hv, hstate]
  cases state with
  | joining => rfl
  | joined => rfl
  | leaving => exact absurd hstate hstaying

theorem get?_validatorIndex_settled (h : l.Coherent P) {address : ConsensusAddress}
    {operator : OperatorAddress} : l.settled.validatorIndex.get? address = some operator ↔
      l.validatorIndex.get? address = some operator ∧ ∀ v, l.validators.get? v.operator = some v →
        l.lifecycles.get? v.operator = some .leaving → v.address ≠ address := by
  have hleaver : address ∈ (l.leavers l.validators.values).map (·.address) ↔
      ¬ ∀ v, l.validators.get? v.operator = some v →
        l.lifecycles.get? v.operator = some .leaving → v.address ≠ address := by
    simp [h.mem_leavers, and_assoc]
  simp only [Ledger.settled, settledAmong, Table.get?_filterMap, Option.bind_eq_some_iff]
  by_cases hleft : address ∈ (l.leavers l.validators.values).map (·.address)
  · simp [hleft, hleaver.mp hleft]
  · have hnone := not_not.mp (mt hleaver.mpr hleft)
    simpa [hleft] using fun _ => hnone

@[simp] theorem ballots_settled (kind : Ballot.Kind) : l.settled.ballots kind = l.ballots kind := by
  cases kind <;> rfl

/-- The ledger after a boundary is coherent. -/
theorem settled (h : l.Coherent P) : l.settled.Coherent P where
  validator_keyed hv := h.validator_keyed (h.seated_of_settled hv).1
  ballot_keyed hb := h.ballot_keyed (by simpa using hb)
  state_isSome hv := by
    rw [h.joined_of_settled hv]
    rfl
  ballot hb := h.ballot (by simpa using hb)

end Coherent

/-- The ledger after a boundary is sound. -/
theorem Sound.settled (h : l.Sound) : l.settled.Sound :=
  ⟨h.toCoherent.settled, Nat.lt_of_le_of_lt (Table.size_filterMap_le _ _) h.size_lt⟩

end Ledger

end AuthoritySet
