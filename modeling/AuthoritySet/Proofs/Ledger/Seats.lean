import AuthoritySet.Proofs.Ledger.Ballots
import AuthoritySet.Proofs.Ledger.Service

/-!
# How seats change

Events say who gets a new state (`Event.newState?`). A step admits somebody, sends somebody away, or
leaves all seats as they are (`Ledger.SeatChange`), and the events of the step say which of these. At
an epoch boundary those become free whose holders do not stay (`Ledger.Stays`).

* `Ledger.Step.seatChange`: what a step does to the seats.
* `Ledger.Sound.seated_act`: only an epoch boundary removes somebody.
* `Service.Seats`, `Service.Stays`: the same, asked of a service.
-/

namespace AuthoritySet

/-- Who gets which state by an event. -/
def Event.newState? : Event → Option (OperatorAddress × Lifecycle)
  | .appendValidator candidate => some (candidate, .joining)
  | .kickValidator validator => some (validator, .leaving)
  | .leaveValidatorSet validator => some (validator, .leaving)
  | _ => none

namespace Ledger

variable {l l' : Ledger} {operator : OperatorAddress} {c : Command} {events : List Event}

/-- The operator is seated, and stays at the next epoch boundary. -/
def Stays (l : Ledger) (operator : OperatorAddress) : Prop :=
  (l.validators.get? operator).isSome ∧ l.lifecycles.get? operator ≠ some .leaving

/-! ## Steps -/

/-- What a step does to the seats. -/
inductive SeatChange (l : Ledger) (events : List Event) (l' : Ledger) : Prop
  | kept (silent : events.filterMap Event.newState? = [])
    (validators : l'.validators = l.validators) (lifecycles : l'.lifecycles = l.lifecycles)
  | admitted (v : Validator)
    (single : events.filterMap Event.newState? = [(v.operator, .joining)])
    (validators : l'.validators = l.validators.insert v.operator v)
    (lifecycles : l'.lifecycles = l.lifecycles.insert v.operator .joining)
  | sentAway (operator : OperatorAddress)
    (single : events.filterMap Event.newState? = [(operator, .leaving)])
    (validators : l'.validators = l.validators)
    (lifecycles : l'.lifecycles = l.lifecycles.insert operator .leaving)

/-- A vote gives nobody a new state; what comes of it may. -/
theorem newStates_vote (kind : Ballot.Kind) (voter candidate : OperatorAddress) (approve : Bool)
    (outcome : List Event) :
    (kind.vote voter candidate approve :: outcome).filterMap Event.newState? =
      outcome.filterMap Event.newState? :=
  List.filterMap_cons_none (by cases kind <;> cases approve <;> rfl)

theorem appended_iff (operator : OperatorAddress) (events : List Event) :
    (operator, .joining) ∈ events.filterMap Event.newState? ↔
      .appendValidator operator ∈ events := by
  rw [List.mem_filterMap]
  constructor
  · rintro ⟨e, he, hnew⟩
    cases e <;> cases hnew
    exact he
  · exact fun he => ⟨_, he, rfl⟩

theorem sentAway_iff (operator : OperatorAddress) (events : List Event) :
    (operator, .leaving) ∈ events.filterMap Event.newState? ↔
      .kickValidator operator ∈ events ∨ .leaveValidatorSet operator ∈ events := by
  rw [List.mem_filterMap]
  constructor
  · rintro ⟨e, he, hnew⟩
    cases e <;> cases hnew
    · exact .inl he
    · exact .inr he
  · rintro (he | he)
    · exact ⟨_, he, rfl⟩
    · exact ⟨_, he, rfl⟩

/-- A step admits somebody, sends somebody away, or leaves all seats as they are. -/
theorem Step.seatChange (hs : l.Step c events l') (hl : l.Sound) : l.SeatChange events l' := by
  cases hs with
  | @seatAtOnce candidate => exact .admitted candidate rfl rfl rfl
  | apply => exact .kept rfl (by simp) (by simp)
  | @voteApplication voter candidate approve before after verdict _ _ opened cast =>
    have hkeyed : after.subject.operator = candidate := by
      rw [Ballot.subject_cast cast, hl.application_keyed opened]
    have hnew := newStates_vote .application voter candidate approve
    cases verdict with
    | approved =>
      refine .admitted after.subject ?_ (validators_seat _ _ _) ?_
      · rw [hkeyed]
        exact hnew _
      · simp [concludeApplication]
    | rejected =>
      exact .kept (hnew _) (validators_closeBallot _ _ _) (lifecycles_closeBallot _ _ _)
    | pending => exact .kept (hnew _) (validators_setBallot _ _ _) (lifecycles_setBallot _ _ _)
  | @expel candidate => exact .sentAway candidate rfl rfl rfl
  | propose => exact .kept rfl (by simp) (by simp)
  | @voteKick voter candidate approve _ _ verdict =>
    have hnew := newStates_vote .kickProposal voter candidate approve
    cases verdict with
    | approved => exact .sentAway candidate (hnew _) (by simp [concludeKick]) (by simp [concludeKick])
    | rejected =>
      exact .kept (hnew _) (validators_closeBallot _ _ _) (lifecycles_closeBallot _ _ _)
    | pending => exact .kept (hnew _) (validators_setBallot _ _ _) (lifecycles_setBallot _ _ _)
  | @leave validator => exact .sentAway validator rfl (by simp) (by simp)

namespace SeatChange

/-- Who is seated is not removed by a step. -/
theorem seated (h : l.SeatChange events l') (hseated : (l.validators.get? operator).isSome) :
    (l'.validators.get? operator).isSome := by
  cases h with
  | kept _ validators => rwa [validators]
  | admitted v _ validators =>
    rw [validators, Table.get?_insert]
    split
    · rfl
    · exact hseated
  | sentAway _ _ validators => rwa [validators]

/-- Who stays before a step and is not sent away by it stays afterwards. -/
theorem stays (h : l.SeatChange events l') (hstays : l.Stays operator)
    (hnot : (operator, .leaving) ∉ events.filterMap Event.newState?) : l'.Stays operator := by
  refine ⟨h.seated hstays.1, ?_⟩
  cases h with
  | kept _ _ lifecycles => exact lifecycles ▸ hstays.2
  | admitted v _ _ lifecycles =>
    rw [lifecycles, Table.get?_insert]
    split
    · exact fun hstate => by cases hstate
    · exact hstays.2
  | sentAway away single _ lifecycles =>
    have hother : operator ≠ away := by
      rintro rfl
      exact hnot (single ▸ List.mem_singleton_self _)
    rw [lifecycles, Table.get?_insert, if_neg hother]
    exact hstays.2

/-- Who stays after a step in which somebody is sent away stayed before it, and is somebody else. -/
theorem stays_of_sentAway {away : OperatorAddress} (h : l.SeatChange events l')
    (haway : (away, .leaving) ∈ events.filterMap Event.newState?) (hstays : l'.Stays operator) :
    l.Stays operator ∧ operator ≠ away := by
  cases h with
  | kept silent => simp [silent] at haway
  | admitted v single => simp [single] at haway
  | sentAway other single validators lifecycles =>
    obtain rfl : away = other := by simpa [single] using haway
    rw [Stays, validators, lifecycles, Table.get?_insert] at hstays
    split at hstays
    · exact absurd rfl hstays.2
    · rename_i hother
      exact ⟨hstays, hother⟩

/-- After a step somebody stays, unless it sends the only one away who did so before. -/
theorem stays_or_last (h : l.SeatChange events l') (hstays : ∃ operator, l.Stays operator) :
    (∃ operator, l'.Stays operator) ∨
      ∃ operator, l.Stays operator ∧ (∀ other, l.Stays other → other = operator) ∧
        (operator, .leaving) ∈ events.filterMap Event.newState? := by
  by_cases hspared : ∃ operator, l.Stays operator ∧
      (operator, .leaving) ∉ events.filterMap Event.newState?
  · obtain ⟨operator, hstays, hnot⟩ := hspared
    exact .inl ⟨operator, h.stays hstays hnot⟩
  · have haway : ∀ operator, l.Stays operator →
        (operator, .leaving) ∈ events.filterMap Event.newState? := fun operator hstays =>
      not_not.mp fun hnot => hspared ⟨operator, hstays, hnot⟩
    obtain ⟨operator, hstays⟩ := hstays
    refine .inr ⟨operator, hstays, fun other hother => ?_, haway operator hstays⟩
    -- nobody else is sent away in the same step
    have hone := haway operator hstays
    have htwo := haway other hother
    cases h with
    | kept silent => simp [silent] at hone
    | admitted v single => simp [single] at hone
    | sentAway away single =>
      simp only [single, List.mem_singleton, Prod.mk.injEq, and_true] at hone htwo
      rw [hone, htwo]

end SeatChange

/-! ## Epoch boundaries -/

namespace Coherent

variable {P : Ballot → Prop}

/-- The seats that are taken after a boundary are those of the validators that stay. -/
theorem seated_settled_iff (h : l.Coherent P) :
    (l.settled.validators.get? operator).isSome ↔ l.Stays operator := by
  rw [h.get?_validators_settled, Stays]
  split
  · rename_i hleaving
    simp [hleaving]
  · rename_i hstaying
    simp [hstaying]

/-- After a boundary everybody who is seated stays. -/
theorem stays_settled_iff (h : l.Coherent P) : l.settled.Stays operator ↔ l.Stays operator := by
  refine ⟨fun hstays => h.seated_settled_iff.mp hstays.1, fun hstays => ?_⟩
  have hseated := h.seated_settled_iff.mpr hstays
  obtain ⟨v, hv⟩ := Option.isSome_iff_exists.mp hseated
  refine ⟨hseated, ?_⟩
  rw [h.joined_of_settled hv]
  exact fun hstate => by cases hstate

end Coherent

/-! ## Founding -/

theorem stays_seat (l : Ledger) (v : Validator) {state : Lifecycle} (hstate : state ≠ .leaving) :
    (l.seat v state).Stays v.operator := by
  simp [Stays, hstate]

theorem Stays.seatAll (h : l.Stays operator) (vs : List Validator) :
    (l.seatAll vs).Stays operator := by
  induction vs generalizing l with
  | nil => exact h
  | cons v rest ih =>
    refine ih ?_
    by_cases hop : operator = v.operator
    · exact hop ▸ stays_seat l v (by decide)
    · rw [Stays, validators_seat, lifecycles_seat, Table.get?_insert, Table.get?_insert, if_neg hop,
        if_neg hop]
      exact h

/-- The validators of a document stay. -/
theorem stays_establish {g : Genesis} (h : g.validators ≠ []) :
    ∃ operator, (({} : Ledger).establish g).2.Stays operator := by
  obtain ⟨v, rest, hvs⟩ := List.exists_cons_of_ne_nil h
  refine ⟨v.operator, ?_⟩
  rw [establish, hvs, seatAll]
  exact (stays_seat _ v (by decide)).seatAll rest

/-! ## Acts -/

/-- An act other than an epoch boundary admits somebody, sends somebody away, or leaves all seats as
they are. -/
theorem Sound.seatChange_act (h : l.Sound) {a : Act} (ha : a ≠ .endEpoch) :
    l.SeatChange (Reply.published (l.act a).1) (l.act a).2 := by
  rcases h.act_cases a with ⟨_, heq⟩ | ⟨c, events, l', -, hstep, heq⟩ | ⟨params, -, -, heq⟩ |
    ⟨hend, -⟩
  · rw [heq]
    exact .kept rfl rfl rfl
  · rw [heq]
    exact hstep.seatChange h
  · rw [heq]
    exact .kept rfl rfl rfl
  · exact absurd hend ha

/-- An act other than an epoch boundary removes nobody from the registry. -/
theorem Sound.seated_act (h : l.Sound) {a : Act} (ha : a ≠ .endEpoch)
    (hseated : (l.validators.get? operator).isSome) :
    ((l.act a).2.validators.get? operator).isSome :=
  (h.seatChange_act ha).seated hseated

end Ledger

/-! ## Services -/

namespace Service

variable {s : Service Contents} {l : Ledger} {operator : OperatorAddress}

/-- The operator has a record in the registry. -/
def Seats (s : Service Contents) (operator : OperatorAddress) : Prop :=
  ∃ v, s.view (Registry.validator? operator) = .ok (some v)

/-- The operator has a record in the registry, and a state in which it stays at the next epoch
boundary. -/
def Stays (s : Service Contents) (operator : OperatorAddress) : Prop :=
  ∃ v state, s.view (Registry.validator? operator) = .ok (some v) ∧
    s.lifecycle? operator = .ok (some state) ∧ state ≠ .leaving

theorem Holds.seats_iff (h : s.Holds l) :
    s.Seats operator ↔ (l.validators.get? operator).isSome := by
  simp only [Seats, h.validator_eq, Except.ok.injEq, Option.isSome_iff_exists]

theorem Holds.stays_iff (h : s.Holds l) : s.Stays operator ↔ l.Stays operator := by
  simp only [Stays, h.validator_eq, h.lifecycle_eq, Except.ok.injEq]
  constructor
  · rintro ⟨v, state, hv, hstate, hstaying⟩
    refine ⟨by rw [hv]; rfl, ?_⟩
    rw [hstate]
    exact fun hleaving => hstaying (Option.some.inj hleaving)
  · rintro ⟨hseated, hstaying⟩
    obtain ⟨v, hv⟩ := Option.isSome_iff_exists.mp hseated
    obtain ⟨state, hstate⟩ := Option.isSome_iff_exists.mp (h.sound.state_isSome hv)
    exact ⟨v, state, hv, hstate, fun hleaving => hstaying (hleaving ▸ hstate)⟩

end Service

end AuthoritySet
