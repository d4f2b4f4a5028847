import AuthoritySet.Proofs.Ledger.Seats

/-!
# The last validator

The validator set should never be empty (`Service.Peopled`): a validator may not leave if it is the
only one. But only the records are counted for that, and those of validators that have left or were
expelled stand in the registry until the next epoch boundary; and nothing is counted when somebody
is expelled. So the set remains peopled exactly as long as nobody is sent away who is the only
validator that would have stayed (`Turn.SendsLastAway`), and an epoch boundary empties it exactly if
nobody stays.
-/

namespace AuthoritySet

/-- There is somebody in the registry. -/
def Service.Peopled (s : Service Contents) : Prop :=
  ∃ vs, s.view Registry.validators = .ok vs ∧ vs ≠ []

/-- In this turn somebody was sent away who was the only validator that would have stayed. -/
def Turn.SendsLastAway (t : Turn (Service Contents)) : Prop :=
  ∃ operator, t.before.Stays operator ∧ (∀ other, t.before.Stays other → other = operator) ∧
    (operator, .leaving) ∈ t.events.filterMap Event.newState?

namespace Service

variable {s s₀ : Service Contents} {l : Ledger}

theorem Holds.peopled_iff_seated (h : s.Holds l) :
    s.Peopled ↔ ∃ operator, (l.validators.get? operator).isSome := by
  have hpeopled : s.Peopled ↔ l.validators.values ≠ [] := by
    simp [Peopled, h.validators_eq]
  rw [hpeopled]
  constructor
  · intro hne
    obtain ⟨v, hv⟩ := List.exists_mem_of_ne_nil _ hne
    exact ⟨v.operator, h.sound.mem_operators.mp (List.mem_map.mpr ⟨v, hv, rfl⟩)⟩
  · rintro ⟨operator, hseated⟩
    obtain ⟨v, hv⟩ := Option.isSome_iff_exists.mp hseated
    exact List.ne_nil_of_mem (Table.mem_values.mpr ⟨operator, hv⟩)

/-- An epoch boundary leaves somebody in the registry exactly if somebody stays. -/
theorem Holds.peopled_endEpoch_iff (h : s.Holds l) :
    s.endEpoch.2.Peopled ↔ ∃ operator, s.Stays operator := by
  simp only [h.endEpoch_eq.2.peopled_iff_seated, h.sound.seated_settled_iff, h.stays_iff]

/-- After a turn that does not send the last validator away, somebody still stays. -/
theorem Holds.stays_act (h : s.Holds l) (hstays : ∃ operator, l.Stays operator) {a : Act}
    (hguard : ¬ (turn Service.act s a).SendsLastAway) :
    ∃ operator, (l.act a).2.Stays operator := by
  refine h.sound.act_keeps (P := fun l => ∃ operator, l.Stays operator) a hstays ?_
    (fun _ _ _ => hstays) (by simpa only [h.sound.stays_settled_iff] using hstays)
  intro c events l' _ hstep hreply
  have hevents : (turn Service.act s a).events = events := by
    rw [h.events_eq, hreply]
    rfl
  refine ((hstep.seatChange h.sound).stays_or_last hstays).resolve_right ?_
  rintro ⟨operator, hlast, honly, haway⟩
  exact hguard ⟨operator, h.stays_iff.mpr hlast, fun other hother =>
    honly other (h.stays_iff.mp hother), hevents ▸ haway⟩

/-- Nobody stays once the last validator has been sent away. -/
theorem Holds.not_stays_act (h : s.Holds l) {a : Act}
    (hlast : (turn Service.act s a).SendsLastAway) : ¬ ∃ operator, (s.act a).2.Stays operator := by
  obtain ⟨last, -, honly, haway⟩ := hlast
  have hevents := h.events_eq a
  rw [hevents] at haway
  obtain ⟨e, he, -⟩ := List.mem_filterMap.mp haway
  obtain ⟨c, -, hstep⟩ := h.sound.step_of_mem_published he
  rintro ⟨operator, hstays⟩
  obtain ⟨hstayed, hother⟩ := (hstep.seatChange h.sound).stays_of_sentAway haway
    ((h.act a).stays_iff.mp hstays)
  exact hother (honly operator (h.stays_iff.mpr hstayed))

/-- **The validator set stays peopled throughout a run exactly if the last validator is never sent
away**, and is emptied by an epoch boundary exactly where nobody stays. -/
theorem peopled_iff {g : Genesis} {updates : List PowerUpdate} {acts : List Act}
    (hempty : s.store = .empty) (hstart : s.initialise g = .ok (updates, s₀))
    (hsome : g.validators ≠ []) :
    ((∀ past, past <+: acts → (s₀.finish past).Peopled ∧ (s₀.finish past).endEpoch.2.Peopled) ↔
      ∀ t ∈ s₀.turns acts, ¬ t.SendsLastAway) ∧
    ∀ past, past <+: acts →
      ((s₀.finish past).endEpoch.2.Peopled ↔ ∃ operator, (s₀.finish past).Stays operator) := by
  have hfounded := holds_initialise hempty hstart
  refine ⟨hfounded.throughout_iff (I := fun l => ∃ operator, l.Stays operator)
    (P := fun s => s.Peopled ∧ s.endEpoch.2.Peopled) ?_ ?_ ?_ (Ledger.stays_establish hsome),
    fun past _ => ?_⟩
  · exact fun a hl hstays hguard => hl.stays_act hstays hguard
  · rintro s l hl ⟨operator, hstays⟩
    exact ⟨hl.peopled_iff_seated.mpr ⟨operator, hstays.1⟩,
      hl.peopled_endEpoch_iff.mpr ⟨operator, hl.stays_iff.mpr hstays⟩⟩
  · rintro s l a hl hlast ⟨-, hpeopled⟩
    exact hl.not_stays_act hlast ((hl.act a).peopled_endEpoch_iff.mp hpeopled)
  · obtain ⟨l, hl⟩ := hfounded.finish past
    exact hl.peopled_endEpoch_iff

/-- A second validator is admitted, and both leave within one epoch. -/
def bothLeave : List Act :=
  [.handle (.submitApplication (.uniform 2 2)),
   .handle (.voteApplication (Validator.uniform 1 1).operator (Validator.uniform 2 2).operator
     true),
   .handle (.leaveValidatorSet (Validator.uniform 1 1).operator),
   .handle (.leaveValidatorSet (Validator.uniform 2 2).operator),
   .endEpoch]

theorem peopled_iff_bothLeave :
    (∀ past, past <+: bothLeave → ((founded .lone).finish past).Peopled ∧
      ((founded .lone).finish past).endEpoch.2.Peopled) ↔
      ∀ t ∈ (founded .lone).turns bothLeave, ¬ t.SendsLastAway :=
  (peopled_iff rfl (initialise_founded (by decide)) (by decide)).1

/-- Nobody is left after both have left. -/
theorem nobody_left_bothLeave :
    ((founded .lone).finish bothLeave).view Registry.validators = .ok [] := by
  decide +kernel

end Service

end AuthoritySet
