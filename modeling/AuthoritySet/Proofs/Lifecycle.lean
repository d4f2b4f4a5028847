import AuthoritySet.Proofs.Ledger.Status

/-!
# The lifecycle of validators

An operator that is absent becomes joining when it is admitted; a validator that is joining or has
joined becomes leaving when it is expelled or leaves; an epoch boundary makes the joining ones joined
and removes the leaving ones. In a run that keeps balloting and whose keys are told apart there are
no other changes (`Lifecycle.Change`), these happen exactly where the events of a turn say so or
where it is an epoch boundary, and no record is replaced while its owner is seated (`Turn.Moves`).

* `Service.Holds.moves_act`: what one turn does to the status of an operator.
* `Service.Holds.remains_finish`: while an operator remains seated, its record remains the same.
* `Service.status_moves`: both over all runs.
-/

namespace AuthoritySet

/-- The changes of the status of an operator; an absent one has none. -/
inductive Lifecycle.Change : Option Lifecycle → Option Lifecycle → Prop
  | admitted : Change none (some .joining)
  | sentAway {state : Lifecycle} (staying : state ≠ .leaving) : Change (some state) (some .leaving)
  | joined : Change (some .joining) (some .joined)
  | removed : Change (some .leaving) none

/-- The status of an operator: absent, or the state of a record in the registry. -/
def Service.HasStatus (s : Service Contents) (operator : OperatorAddress) :
    Option Lifecycle → Prop
  | none => s.view (Registry.validator? operator) = .ok none
  | some state => s.Seats operator ∧ s.lifecycle? operator = .ok (some state)

/-- How the status of an operator goes on in a turn. Whoever is leaving may leave once more, and is
leaving still; all other events of admission, expulsion and departure stand for changes. -/
structure Turn.Moves (t : Turn (Service Contents)) (operator : OperatorAddress)
    (before after : Option Lifecycle) : Prop where
  change : before ≠ after → Lifecycle.Change before after
  admitted : before = none ∧ after = some .joining ↔ .appendValidator operator ∈ t.events
  sentAway : (before = some .joining ∨ before = some .joined) ∧ after = some .leaving ↔
    before ≠ some .leaving ∧
      (.kickValidator operator ∈ t.events ∨ .leaveValidatorSet operator ∈ t.events)
  expelled : .kickValidator operator ∈ t.events → before ≠ some .leaving
  joined : before = some .joining → (after = some .joined ↔ t.act = .endEpoch)
  removed : before = some .leaving → (after = none ↔ t.act = .endEpoch)
  boundary : t.act = .endEpoch → ∃ updates, t.reply = .ok (.updates updates)
  commanded : t.events ≠ [] → ∃ c, t.act.command? = some c
  seated : ∀ c, t.act.command? = some c → before ≠ none → after ≠ none
  record : ∀ v w, t.before.view (Registry.validator? operator) = .ok (some v) →
    t.after.view (Registry.validator? operator) = .ok (some w) → w = v

namespace Ledger

variable {l l' : Ledger} {operator : OperatorAddress} {events : List Event}

namespace StatusChange

/-- Whoever was seated before a command and is seated after it has the same record. -/
theorem record_eq (h : l.StatusChange operator events l') {v w : Validator}
    (hv : l.validators.get? operator = some v) (hw : l'.validators.get? operator = some w) :
    w = v := by
  cases h with
  | kept _ _ record => exact Option.some.inj (hw.symm.trans (record.trans hv))
  | admitted _ absent => cases absent.symm.trans hv
  | sentAway _ _ _ _ record => exact Option.some.inj (hw.symm.trans (record.trans hv))

end StatusChange

/-- No act replaces the record of an operator that remains seated. -/
theorem Orderly.record_act (h : l.Orderly) (hl : l.Sound) (a : Act) {v w : Validator}
    (hv : l.validators.get? operator = some v)
    (hw : (l.act a).2.validators.get? operator = some w) : w = v := by
  by_cases ha : a = .endEpoch
  · subst ha
    rw [hl.act_endEpoch] at hw
    exact Option.some.inj ((hl.seated_of_settled hw).1.symm.trans hv)
  · exact (h.statusChange_act hl ha operator).record_eq hv hw

end Ledger

/-! ## Services -/

namespace Service

variable {s s₀ : Service Contents} {l : Ledger} {operator : OperatorAddress}

theorem Holds.hasStatus (h : s.Holds l) (operator : OperatorAddress) :
    s.HasStatus operator (l.status? operator) := by
  cases hv : l.validators.get? operator with
  | none =>
    rw [Ledger.status?_of_absent hv, HasStatus, h.validator_eq, hv]
  | some v =>
    obtain ⟨state, hstate⟩ := Option.isSome_iff_exists.mp (h.sound.state_isSome hv)
    rw [Ledger.status?_of_seated (hv ▸ rfl), hstate]
    refine ⟨h.seats_iff.mpr (hv ▸ rfl), ?_⟩
    rw [h.lifecycle_eq, hstate]

theorem Holds.status_eq (h : s.Holds l) {status : Option Lifecycle}
    (hstatus : s.HasStatus operator status) : l.status? operator = status := by
  cases status with
  | none =>
    rw [HasStatus, h.validator_eq, Except.ok.injEq] at hstatus
    exact Ledger.status?_of_absent hstatus
  | some state =>
    obtain ⟨hseats, hstate⟩ := hstatus
    rw [h.lifecycle_eq, Except.ok.injEq] at hstate
    rw [Ledger.status?_of_seated (h.seats_iff.mp hseats), hstate]

/-- The record that an operator has after a turn is that which it had before it, if it had one. -/
theorem Holds.record_act (h : s.Holds l) (ho : l.Orderly) (a : Act) {v w : Validator}
    (hv : s.view (Registry.validator? operator) = .ok (some v))
    (hw : (s.act a).2.view (Registry.validator? operator) = .ok (some w)) : w = v := by
  rw [h.validator_eq, Except.ok.injEq] at hv
  rw [(h.act a).validator_eq, Except.ok.injEq] at hw
  exact ho.record_act h.sound a hv hw

/-- An epoch boundary makes everybody joined who is joining, and removes everybody who is leaving. -/
theorem Holds.moves_endEpoch (h : s.Holds l) (ho : l.Orderly) (operator : OperatorAddress) :
    (turn Service.act s .endEpoch).Moves operator (l.status? operator)
      ((l.act .endEpoch).2.status? operator) := by
  have hact := h.sound.act_endEpoch
  have hevents : (turn Service.act s .endEpoch).events = [] := by
    rw [h.events_eq, hact]
    rfl
  have hboundary : (turn Service.act s .endEpoch).act = .endEpoch := rfl
  have hreply : (turn Service.act s .endEpoch).reply = .ok (.updates l.dueUpdates) := by
    rw [turn, (h.act_eq _).1, hact]
  have hrecord : ∀ v w, s.view (Registry.validator? operator) = .ok (some v) →
      (s.act .endEpoch).2.view (Registry.validator? operator) = .ok (some w) → w = v :=
    fun v w hv hw => h.record_act ho .endEpoch hv hw
  rw [hact, h.sound.status?_settled]
  -- what follows is a matter of the four statuses
  generalize l.status? operator = status
  refine
    { change := ?_, admitted := ?_, sentAway := ?_, expelled := ?_, joined := ?_, removed := ?_
      boundary := fun _ => ⟨_, hreply⟩
      commanded := fun hne => absurd hevents hne
      seated := fun c hc => by cases hc
      record := hrecord }
  · rcases status with _ | _ | _ | _
    · exact fun hne => absurd rfl hne
    · exact fun _ => .joined
    · exact fun hne => absurd rfl hne
    · exact fun _ => .removed
  all_goals rcases status with _ | _ | _ | _ <;> simp [hevents, hboundary, Lifecycle.settled]

/-- What a turn that holds an orderly ledger at its beginning does to the status of an operator. -/
theorem Holds.moves_act (h : s.Holds l) (ho : l.Orderly) (a : Act) (operator : OperatorAddress) :
    (turn Service.act s a).Moves operator (l.status? operator)
      ((l.act a).2.status? operator) := by
  by_cases ha : a = .endEpoch
  · exact ha ▸ h.moves_endEpoch ho operator
  have hevents := h.events_eq a
  have hact : (turn Service.act s a).act ≠ .endEpoch := ha
  have hcommanded : (turn Service.act s a).events ≠ [] → ∃ c, a.command? = some c := by
    rw [hevents]
    intro hne
    obtain ⟨e, he⟩ := List.exists_mem_of_ne_nil _ hne
    obtain ⟨c, hc, -⟩ := h.sound.step_of_mem_published he
    exact ⟨c, hc⟩
  have hrecord : ∀ v w, s.view (Registry.validator? operator) = .ok (some v) →
      (s.act a).2.view (Registry.validator? operator) = .ok (some w) → w = v :=
    fun v w hv hw => h.record_act ho a hv hw
  have hchange := ho.statusChange_act h.sound ha operator
  rw [← hevents] at hchange
  have happended := Ledger.appended_iff operator (turn Service.act s a).events
  have hsentAway := Ledger.sentAway_iff operator (turn Service.act s a).events
  cases hchange with
  | kept silent status _ =>
    have hnone := mt happended.mpr (silent .joining)
    have hneither := not_or.mp (mt hsentAway.mpr (silent .leaving))
    rw [status]
    generalize l.status? operator = before
    refine
      { change := fun hne => absurd rfl hne
        admitted := ?_, sentAway := ?_, expelled := ?_, joined := ?_, removed := ?_
        boundary := fun hend => absurd hend ha
        commanded := hcommanded
        seated := fun _ _ hbefore => hbefore
        record := hrecord }
    all_goals rcases before with _ | _ | _ | _ <;> simp [hnone, hneither, hact]
  | admitted single absent status =>
    rw [single] at happended hsentAway
    have hemitted := happended.mp (List.mem_singleton_self _)
    have hneither := not_or.mp (mt hsentAway.mpr (by simp))
    rw [status, Ledger.status?_of_absent absent]
    refine
      { change := fun _ => .admitted
        admitted := ?_, sentAway := ?_, expelled := ?_, joined := ?_, removed := ?_, seated := ?_
        boundary := fun hend => absurd hend ha
        commanded := hcommanded
        record := hrecord }
    all_goals simp [hemitted, hneither]
  | sentAway single seated stayed status _ =>
    rw [single] at happended hsentAway
    have hnone := mt happended.mpr (by simp)
    have hemitted := hsentAway.mp (List.mem_singleton_self _)
    have hbefore := mt h.sound.status?_eq_none_iff.mp (Option.isSome_iff_ne_none.mp seated)
    rw [status]
    generalize l.status? operator = before at stayed hbefore
    refine
      { change := ?_, admitted := ?_, sentAway := ?_, joined := ?_, removed := ?_, seated := ?_
        expelled := stayed
        boundary := fun hend => absurd hend ha
        commanded := hcommanded
        record := hrecord }
    · obtain ⟨state, rfl⟩ := Option.ne_none_iff_exists'.mp hbefore
      exact fun hne => .sentAway fun hleaving => hne (hleaving ▸ rfl)
    all_goals rcases before with _ | _ | _ | _ <;> simp_all

/-- An operator that remains seated keeps its record, and if it is leaving, it is so still. -/
theorem Holds.remains_finish (h : s.Holds l) (ho : l.Orderly) {acts : List Act}
    (hacts : s.KeepsBalloting acts)
    (hseated : ∀ part, part <+: acts → (s.finish part).Seats operator) :
    ∃ l', (s.finish acts).Holds l' ∧ l'.Orderly ∧
      l'.validators.get? operator = l.validators.get? operator ∧
      (l.status? operator = some .leaving → l'.status? operator = some .leaving) := by
  have hguard : ∀ t ∈ s.turns acts, t.after.Seats operator := by
    intro t ht
    obtain ⟨before, a, after, rfl, rfl⟩ := exists_of_mem_turns ht
    have hafter := hseated (before ++ [a]) ⟨after, by simp⟩
    rwa [Service.finish, finish_append] at hafter
  refine h.keeps (G := fun t => (∀ params, t.act = .setParams params → t.reply = .ok .done →
      params.quorum = 0 → ∀ kind, t.before.ballots kind = .ok []) ∧ t.after.Seats operator)
    ?_ ⟨ho, rfl, id⟩ fun t ht => ⟨hacts t ht, hguard t ht⟩
  rintro s l' a h' ⟨ho', hrecord, hleaving⟩ ⟨hballoting, hafter⟩
  obtain ⟨v, hv⟩ := Option.isSome_iff_exists.mp (h.seats_iff.mp (hseated [] List.nil_prefix))
  obtain ⟨w, hw⟩ := Option.isSome_iff_exists.mp ((h'.act a).seats_iff.mp hafter)
  refine ⟨h'.orderly_act ho' hballoting, ?_, fun hbefore => ?_⟩
  · rw [hw, hv, ho'.record_act h'.sound a (hrecord.trans hv) hw]
  · by_contra hnot
    have hchange := (h'.moves_act ho' a operator).change
    rw [hleaving hbefore] at hchange
    -- whoever is leaving can only be removed
    cases hstatus : (l'.act a).2.status? operator with
    | none =>
      rw [(h'.act a).sound.status?_eq_none_iff.mp hstatus] at hw
      cases hw
    | some state =>
      rw [hstatus] at hchange hnot
      cases hchange fun he => hnot he.symm with
      | sentAway => exact hnot rfl

/-- **The lifecycle of validators.** In a run that keeps balloting and whose keys are told apart, the
status of every operator goes on as the lifecycle says in every turn; and while an operator remains
seated, it has one record, and does not return once it is leaving. -/
theorem status_moves {g : Genesis} {updates : List PowerUpdate} {acts : List Act}
    (hempty : s.store = .empty) (hstart : s.initialise g = .ok (updates, s₀))
    (hkeys : KeysTellApart (usedKeys g acts)) (hballoting : s₀.KeepsBalloting acts) :
    (∀ t ∈ s₀.turns acts, ∀ operator, ∃ before after, t.before.HasStatus operator before ∧
      t.after.HasStatus operator after ∧ t.Moves operator before after) ∧
    ∀ past later operator, past ++ later <+: acts →
      (∀ part, part <+: later → (s₀.finish (past ++ part)).Seats operator) →
      (∃ v, (s₀.finish past).view (Registry.validator? operator) = .ok (some v) ∧
        (s₀.finish (past ++ later)).view (Registry.validator? operator) = .ok (some v)) ∧
      ((s₀.finish past).HasStatus operator (some .leaving) →
        (s₀.finish (past ++ later)).HasStatus operator (some .leaving)) := by
  obtain ⟨hcheck, -, -⟩ := (initialise_eq_ok_iff hempty).mp hstart
  have horderly := (Ledger.Orderly.establish hcheck (hkeys.mono (List.subset_append_left _ _))).1
  have hreached : ∀ past, past <+: acts → ∃ l, (s₀.finish past).Holds l ∧ l.Orderly := fun past hpast =>
    (holds_initialise hempty hstart).orderly_finish horderly (hballoting.past hpast)
  constructor
  · intro t ht operator
    obtain ⟨before, a, after, rfl, rfl⟩ := exists_of_mem_turns ht
    obtain ⟨l, h, ho⟩ := hreached before (List.prefix_append _ _)
    exact ⟨_, _, h.hasStatus operator, (h.act a).hasStatus operator, h.moves_act ho a operator⟩
  · intro past later operator hprefix hseated
    obtain ⟨l, h, ho⟩ := hreached past ((List.prefix_append past later).trans hprefix)
    have hlater := (hballoting.past hprefix).later
    have hfinish : ∀ part, s₀.finish (past ++ part) = (s₀.finish past).finish part :=
      fun part => finish_append s₀ past part
    simp only [hfinish] at hseated ⊢
    obtain ⟨l', h', -, hrecord, hleaving⟩ := h.remains_finish ho hlater hseated
    obtain ⟨v, hv⟩ := Option.isSome_iff_exists.mp (h.seats_iff.mp (hseated [] List.nil_prefix))
    refine ⟨⟨v, ?_, ?_⟩, fun hbefore => ?_⟩
    · rw [h.validator_eq, hv]
    · rw [h'.validator_eq, hrecord, hv]
    · have hstatus := h'.hasStatus operator
      rwa [hleaving (h.status_eq hbefore)] at hstatus

/-- A candidate is admitted, joins, is expelled, leaves besides and is removed. -/
def comeAndLeave : List Act :=
  [.handle (.submitApplication (.uniform 2 2)),
   .handle (.voteApplication (Validator.uniform 1 1).operator (Validator.uniform 2 2).operator
     true),
   .endEpoch,
   .handle (.proposeKick (Validator.uniform 2 2).operator (Validator.uniform 1 1).operator),
   .handle (.voteKickProposal (Validator.uniform 1 1).operator (Validator.uniform 2 2).operator
     true),
   .handle (.leaveValidatorSet (Validator.uniform 2 2).operator),
   .endEpoch]

theorem status_moves_comeAndLeave :
    (∀ t ∈ (founded .lone).turns comeAndLeave, ∀ operator, ∃ before after,
      t.before.HasStatus operator before ∧ t.after.HasStatus operator after ∧
        t.Moves operator before after) ∧
    ((founded .lone).finish comeAndLeave).HasStatus (Validator.uniform 2 2).operator none :=
  ⟨(status_moves rfl (initialise_founded (by decide))
    (show KeysTellApart (usedKeys .lone comeAndLeave) by decide +kernel)
    (keepsBalloting_of_quorum_ne_zero (by simp [comeAndLeave]))).1,
    show _ = Except.ok none by decide +kernel⟩

end Service

end AuthoritySet
