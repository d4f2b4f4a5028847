import AuthoritySet.Proofs.Ledger.Orderly

/-!
# The status of operators

An operator is absent from the registry, or it is joining, has joined or is leaving
(`Ledger.status?`). In an orderly ledger a command changes the status of at most one operator, and
its events say of which one and how (`Ledger.StatusChange`).

* `Ledger.Orderly.statusChange`: what a command does to the status and the record of an operator.
* `Ledger.Coherent.status?_settled`: what an epoch boundary does to the status.
-/

namespace AuthoritySet

namespace Ledger

variable {l l' : Ledger} {operator : OperatorAddress} {c : Command} {events : List Event}

/-- The status of an operator; without a record in the registry it has none. -/
def status? (l : Ledger) (operator : OperatorAddress) : Option Lifecycle :=
  if (l.validators.get? operator).isSome then l.lifecycles.get? operator else none

theorem status?_congr (hvalidators : l'.validators.get? operator = l.validators.get? operator)
    (hlifecycles : l'.lifecycles.get? operator = l.lifecycles.get? operator) :
    l'.status? operator = l.status? operator := by
  rw [status?, status?, hvalidators, hlifecycles]

theorem status?_of_absent (h : l.validators.get? operator = none) : l.status? operator = none := by
  rw [status?, h]
  rfl

theorem status?_of_seated (h : (l.validators.get? operator).isSome) :
    l.status? operator = l.lifecycles.get? operator := if_pos h

theorem Coherent.status?_eq_none_iff {P : Ballot → Prop} (h : l.Coherent P) :
    l.status? operator = none ↔ l.validators.get? operator = none := by
  refine ⟨fun hstatus => ?_, status?_of_absent⟩
  cases hv : l.validators.get? operator with
  | none => rfl
  | some v =>
    rw [status?_of_seated (hv ▸ rfl)] at hstatus
    have hstate := h.state_isSome hv
    rw [hstatus] at hstate
    cases hstate

/-! ## Where new states come from -/

/-- Whoever leaves asks for it and is seated. -/
theorem Step.departure (hs : l.Step c events l') (h : .leaveValidatorSet operator ∈ events) :
    c = .leaveValidatorSet operator ∧ (l.validators.get? operator).isSome := by
  cases hs with
  | leave seated =>
    obtain rfl : operator = _ := by simpa using h
    exact ⟨rfl, seated⟩
  | @voteApplication _ _ approve _ _ verdict =>
    cases approve <;> cases verdict <;>
      simp [concludeApplication, Event.applicationVote] at h
  | @voteKick _ _ approve _ _ verdict =>
    cases approve <;> cases verdict <;> simp [concludeKick, Event.kickVote] at h
  | _ => simp at h

/-- Whoever is admitted was new to the registry. -/
theorem Distinct.newToRegistry_of_admitted (hd : l.Distinct) (hl : l.Sound)
    (hs : l.Step c events l') (h : .appendValidator operator ∈ events) :
    ∃ v, v.operator = operator ∧ l'.validators.get? operator = some v ∧ l.NewToRegistry v := by
  cases hs with
  | seatAtOnce _ newOperator newAddress =>
    obtain rfl : operator = _ := by simpa using h
    exact ⟨_, rfl, by simp, newOperator, hd.validatorAt?_eq_none_iff.mp newAddress⟩
  | @voteApplication _ candidate approve before after verdict _ _ opened cast =>
    cases verdict with
    | approved =>
      obtain rfl : operator = candidate := by
        cases approve <;> simpa [Ledger.concludeApplication, Event.applicationVote] using h
      have hsubject : after.subject = before.subject := Ballot.subject_cast cast
      refine ⟨before.subject, hl.application_keyed opened, ?_, hd.newToRegistry_of_opened hl opened⟩
      simp [Ledger.concludeApplication, hsubject, hl.application_keyed opened]
    | rejected => cases approve <;> simp [Ledger.concludeApplication, Event.applicationVote] at h
    | pending => cases approve <;> simp [Ledger.concludeApplication, Event.applicationVote] at h
  | @voteKick _ _ approve _ _ verdict =>
    cases approve <;> cases verdict <;> simp [Ledger.concludeKick, Event.kickVote] at h
  | _ => simp at h

/-- Whoever is expelled stayed until then. -/
theorem Tidy.stays_of_expelled (ht : l.Tidy) (hs : l.Step c events l')
    (h : .kickValidator operator ∈ events) : l.Stays operator := by
  rcases hs.expulsion h with ⟨_, _, _, _, -, -, -, -, hopened, -, -⟩ | ⟨proposer, rfl, hinstant⟩
  · exact ht.kicked hopened
  · cases hs with
    | expel _ _ found stateFound staying =>
      refine ⟨found ▸ rfl, fun hleaving => staying ?_⟩
      exact Option.some.inj (stateFound.symm.trans hleaving)
    | propose _ _ _ _ _ balloting => simp [hinstant] at balloting

/-! ## Commands -/

/-- What a step does to the status and the record of an operator. -/
inductive StatusChange (l : Ledger) (operator : OperatorAddress) (events : List Event)
    (l' : Ledger) : Prop
  | kept (silent : ∀ state, (operator, state) ∉ events.filterMap Event.newState?)
    (status : l'.status? operator = l.status? operator)
    (record : l'.validators.get? operator = l.validators.get? operator)
  | admitted (single : events.filterMap Event.newState? = [(operator, .joining)])
    (absent : l.validators.get? operator = none) (status : l'.status? operator = some .joining)
  | sentAway (single : events.filterMap Event.newState? = [(operator, .leaving)])
    (seated : (l.validators.get? operator).isSome)
    (stayed : .kickValidator operator ∈ events → l.status? operator ≠ some .leaving)
    (status : l'.status? operator = some .leaving)
    (record : l'.validators.get? operator = l.validators.get? operator)

namespace Orderly

/-- A command in an orderly ledger admits an operator that is absent, sends one away that is seated,
or leaves its status and its record as they are. -/
theorem statusChange (h : l.Orderly) (hl : l.Sound) (hs : l.Step c events l')
    (operator : OperatorAddress) : l.StatusChange operator events l' := by
  cases hs.seatChange hl with
  | kept silent validators lifecycles =>
    exact .kept (by simp [silent]) (status?_congr (by rw [validators]) (by rw [lifecycles]))
      (by rw [validators])
  | admitted v single validators lifecycles =>
    by_cases hop : operator = v.operator
    · subst hop
      have hemitted := (appended_iff _ _).mp (single ▸ List.mem_singleton_self _)
      obtain ⟨w, hw, -, hnew⟩ := h.distinct.newToRegistry_of_admitted hl hs hemitted
      refine .admitted single (hw ▸ hnew.1) ?_
      simp [status?, validators, lifecycles]
    · have hrecord : l'.validators.get? operator = l.validators.get? operator := by
        simp [validators, hop]
      exact .kept (by simp [single, hop]) (status?_congr hrecord (by simp [lifecycles, hop])) hrecord
  | sentAway away single validators lifecycles =>
    by_cases hop : operator = away
    · subst hop
      have hseated : (l.validators.get? operator).isSome := by
        rcases (sentAway_iff _ _).mp (single ▸ List.mem_singleton_self _) with hkicked | hleft
        · exact (h.toTidy.stays_of_expelled hs hkicked).1
        · exact (hs.departure hleft).2
      refine .sentAway single hseated (fun hkicked => ?_) ?_ (by rw [validators])
      · rw [status?_of_seated hseated]
        exact (h.toTidy.stays_of_expelled hs hkicked).2
      · simp [status?, validators, lifecycles, hseated]
    · have hrecord : l'.validators.get? operator = l.validators.get? operator := by
        rw [validators]
      exact .kept (by simp [single, hop]) (status?_congr hrecord (by simp [lifecycles, hop])) hrecord

/-- The same for any act but an epoch boundary. -/
theorem statusChange_act (h : l.Orderly) (hl : l.Sound) {a : Act} (ha : a ≠ .endEpoch)
    (operator : OperatorAddress) :
    l.StatusChange operator (Reply.published (l.act a).1) (l.act a).2 := by
  rcases hl.act_cases a with ⟨_, heq⟩ | ⟨c, events, l', -, hstep, heq⟩ | ⟨params, -, -, heq⟩ |
    ⟨hend, -⟩
  · rw [heq]
    exact .kept (by simp [Reply.published]) rfl rfl
  · rw [heq]
    exact h.statusChange hl hstep operator
  · rw [heq]
    exact .kept (by simp [Reply.published]) rfl rfl
  · exact absurd hend ha

end Orderly

/-! ## Epoch boundaries -/

/-- At an epoch boundary the status of everybody goes on as its state does. -/
theorem Coherent.status?_settled {P : Ballot → Prop} (h : l.Coherent P)
    (operator : OperatorAddress) :
    l.settled.status? operator = (l.status? operator).bind Lifecycle.settled := by
  cases hv : l.validators.get? operator with
  | none =>
    rw [status?_of_absent hv, status?_of_absent]
    · rfl
    · simp [h.get?_validators_settled, hv]
  | some v =>
    obtain ⟨state, hstate⟩ := Option.isSome_iff_exists.mp (h.state_isSome hv)
    rw [status?, status?, h.get?_validators_settled, h.get?_lifecycles_settled, hv, hstate]
    cases state <;> rfl

end Ledger

end AuthoritySet
