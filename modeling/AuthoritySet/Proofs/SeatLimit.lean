import AuthoritySet.Proofs.Export

/-!
# The registry and the number of seats

Commands remove nobody from the registry, and one that adds somebody leaves seats for all
(`Turn.Grows`). So there are seats for all throughout a run, unless parameters are taken that have
fewer seats than there are validators.

* `Ledger.Sound.registry_act`: what an act that gives a command does to the registry.
* `Service.Holds.grows`: the same, asked of a service.
* `Service.registry_within_seats`: what this comes to over all runs.
-/

namespace AuthoritySet

/-- What a turn that gives a command makes of the registry, where `params` are in force. Nobody loses
its record, and a record is replaced only by that of an admitted candidate of the same operator. At
most one record is new, and where there are more than before, there are seats for all. -/
structure Turn.Grows (t : Turn (Service Contents)) (before after : List Validator)
    (params : Params) : Prop where
  registry_before : t.before.view Registry.validators = .ok before
  registry_after : t.after.view Registry.validators = .ok after
  params_before : t.before.params = .ok params
  params_after : t.after.params = .ok params
  seated : ∀ operator, t.before.Seats operator → t.after.Seats operator
  kept : ∀ v ∈ before, v ∈ after ∨ .appendValidator v.operator ∈ t.events
  added : ∀ v ∈ after, v ∉ before → ∀ w ∈ after, w ∉ before → w = v
  length_le : after.length ≤ before.length + 1
  fits : before.length < after.length → after.length ≤ params.maxValidators.toNat

/-- There are seats for all validators. -/
def Service.FitsSeats (s : Service Contents) : Prop :=
  ∃ vs params, s.view Registry.validators = .ok vs ∧ s.params = .ok params ∧
    vs.length ≤ params.maxValidators.toNat

namespace Ledger

variable {l l' : Ledger} {a : Act} {c : Command}

/-- Who is listed after an admission, and was not before, is who was admitted. -/
theorem Sound.eq_of_new (hl : l.Sound) (hl' : l'.Sound) {v x : Validator}
    (hinsert : l'.validators = l.validators.insert x.operator x) (hv : v ∈ l'.validators.values)
    (hnew : v ∉ l.validators.values) : v = x := by
  have hv := hl'.mem_values.mp hv
  rw [hinsert] at hv
  rcases Table.get?_insert_cases hv with ⟨-, rfl⟩ | ⟨-, hv⟩
  · rfl
  · exact absurd (hl.mem_values.mpr hv) hnew

/-- An act that gives a command leaves the parameters alone, and it leaves the registry alone or
admits one validator to it, for which there is a seat if there was no record of its operator. -/
theorem Sound.registry_act (hl : l.Sound) (hc : a.command? = some c) :
    (l.act a).2.inForce = l.inForce ∧
    ((l.act a).2.validators = l.validators ∨
      ∃ v, .appendValidator v.operator ∈ Reply.published (l.act a).1 ∧
        (l.act a).2.validators = l.validators.insert v.operator v) ∧
    ((l.act a).2.validators.size ≤ l.validators.size ∨
      (l.act a).2.validators.size ≤ l.inForce.maxValidators.toNat) := by
  rcases act_cases_of_command (l := l) hc with ⟨_, heq⟩ | ⟨events, l', hstep, heq⟩
  · rw [heq]
    exact ⟨rfl, .inl rfl, .inl (Nat.le_refl _)⟩
  · rw [heq]
    refine ⟨hstep.inForce_eq, ?_, hstep.size_le⟩
    cases hstep.seatChange hl with
    | kept _ validators => exact .inl validators
    | admitted v single validators =>
      have hemitted := (appended_iff v.operator events).mp (single ▸ List.mem_singleton_self _)
      exact .inr ⟨v, hemitted, validators⟩
    | sentAway _ _ validators => exact .inl validators

end Ledger

namespace Service

open Ledger

variable {s s₀ : Service Contents} {l : Ledger} {a : Act} {c : Command}

theorem Holds.fitsSeats_iff (h : s.Holds l) : s.FitsSeats ↔ l.Fits := by
  rw [Fits, ← Table.length_values]
  constructor
  · rintro ⟨vs, params, hvs, hparams, hle⟩
    obtain rfl := Except.ok.inj (h.validators_eq.symm.trans hvs)
    obtain rfl := Except.ok.inj (h.params_eq.symm.trans hparams)
    exact hle
  · exact fun hle => ⟨_, _, h.validators_eq, h.params_eq, hle⟩

/-- Commands remove nobody from the registry, and add at most one validator, within the seats. -/
theorem Holds.grows (h : s.Holds l) (hc : a.command? = some c) : (turn Service.act s a).Grows
    l.validators.values (l.act a).2.validators.values l.inForce := by
  have h' := h.act a
  have hcommand : a ≠ .endEpoch := by
    rintro rfl
    cases hc
  obtain ⟨hparams, hvalidators, hsize⟩ := h.sound.registry_act hc
  refine
    { registry_before := h.validators_eq
      registry_after := h'.validators_eq
      params_before := h.params_eq
      params_after := hparams ▸ h'.params_eq
      seated := fun operator hseated =>
        h'.seats_iff.mpr (h.sound.seated_act hcommand (h.seats_iff.mp hseated))
      kept := fun v hv => ?_, added := fun v hv hnew w hw hnew' => ?_, length_le := ?_
      fits := fun hgrown => ?_ }
  · rw [h.events_eq, h'.sound.mem_values]
    have hv := h.sound.mem_values.mp hv
    rcases hvalidators with hsame | ⟨w, hemitted, hinsert⟩
    · exact .inl (by rwa [hsame])
    · by_cases hop : v.operator = w.operator
      · exact .inr (hop ▸ hemitted)
      · exact .inl (by rwa [hinsert, Table.get?_insert, if_neg hop])
  · rcases hvalidators with hsame | ⟨x, -, hinsert⟩
    · exact absurd (hsame ▸ hv) hnew
    · rw [h.sound.eq_of_new h'.sound hinsert hw hnew', h.sound.eq_of_new h'.sound hinsert hv hnew]
  · rw [Table.length_values, Table.length_values]
    rcases hvalidators with hsame | ⟨x, -, hinsert⟩
    · rw [hsame]
      exact Nat.le_succ _
    · rw [hinsert]
      exact Table.size_insert_le _ _ _
  · rw [Table.length_values, Table.length_values] at hgrown
    rw [Table.length_values]
    exact hsize.resolve_left (Nat.not_le.mpr hgrown)

/-- **The registry and the number of seats.** In every run, commands remove nobody from the registry
and add at most one validator at a time, within the seats. There are seats for all throughout the run
exactly if it takes no parameters with fewer seats than there are validators. -/
theorem registry_within_seats {g : Genesis} {updates : List PowerUpdate} {acts : List Act}
    (hempty : s.store = .empty) (hstart : s.initialise g = .ok (updates, s₀)) :
    (∀ t ∈ s₀.turns acts, t.act.command?.isSome → ∃ before after params,
      t.Grows before after params) ∧
    ((∀ past, past <+: acts → (s₀.finish past).FitsSeats) ↔
      ∀ t ∈ s₀.turns acts, ¬ t.LowersSeats) := by
  obtain ⟨hcheck, -, -⟩ := (initialise_eq_ok_iff hempty).mp hstart
  have hfounded := holds_initialise hempty hstart
  constructor
  · intro t ht hcommand
    obtain ⟨before, a, after, rfl, rfl⟩ := exists_of_mem_turns ht
    obtain ⟨c, hc⟩ := Option.isSome_iff_exists.mp hcommand
    obtain ⟨l, h⟩ := hfounded.finish before
    exact ⟨_, _, _, h.grows hc⟩
  · refine hfounded.throughout_iff (I := Fits) (fun a h hfits hkept => h.fits_act hfits hkept)
      (fun h hfits => h.fitsSeats_iff.mpr hfits) (fun a h hlower hfits => ?_)
      (fits_establish hcheck)
    exact h.not_fits_act hlower ((h.act a).fitsSeats_iff.mp hfits)

/-- A set with two seats and one validator. -/
def spare : Genesis := { params := { maxValidators := 2 }, validators := [.uniform 1 1] }

/-- Two candidates apply for the last seat. -/
def applyForLast : List Act :=
  [.handle (.submitApplication (.uniform 2 2)),
   .handle (.submitApplication (.uniform 3 3)),
   .handle (.voteApplication (Validator.uniform 1 1).operator (Validator.uniform 2 2).operator
     true),
   .handle (.voteApplication (Validator.uniform 1 1).operator (Validator.uniform 3 3).operator
     true)]

theorem registry_within_seats_applyForLast :
    (∀ past, past <+: applyForLast → ((founded spare).finish past).FitsSeats) ∧
    ((founded spare).finish applyForLast).view Registry.validators =
      .ok [.uniform 1 1, .uniform 2 2] := by
  have hstart := initialise_founded (g := spare) (by decide)
  refine ⟨(registry_within_seats rfl hstart).2.mpr fun t ht => ?_, by decide +kernel⟩
  rintro ⟨params, vs, hact, -⟩
  have hact := hact ▸ act_mem_of_mem_turns ht
  simp [applyForLast] at hact

end Service

end AuthoritySet
