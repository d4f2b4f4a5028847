import AuthoritySet.Proofs.Ledger.Orderly
import Mathlib.Data.List.Nodup

/-!
# Unique identities

No operator and no consensus key should belong to two validators or candidates
(`Service.IdentitiesUnique`). An application is checked against all records when it is opened; a
candidate that is seated at once, because the quorum is zero, is checked against the registry
alone. So identities stay unique exactly as long as nobody is seated at once whose operator or key
stands in an open application (`Turn.PassesApplication`).
-/

namespace AuthoritySet

/-- The registry `vs` and the open applications of a service share no identity: no two validators
have one key, no application has the operator or the key of a validator, and a consensus address is
found exactly if it is that of a validator. -/
structure Service.IdentitiesUnique (s : Service Contents) (vs : List Validator)
    (applications : List Ballot) : Prop where
  registry : s.view Registry.validators = .ok vs
  pending : s.ballots .application = .ok applications
  keys : (vs.map (·.key)).Nodup
  apart : ∀ b ∈ applications, ∀ v ∈ vs,
    b.subject.operator ≠ v.operator ∧ b.subject.key ≠ v.key
  found : ∀ a, ∃ found, s.view (Registry.validatorAt? a) = .ok found ∧
    ∀ v, found = some v ↔ v ∈ vs ∧ v.address = a

/-- In this turn a candidate was seated at once although its operator or its key stands in an open
application. -/
def Turn.PassesApplication (t : Turn (Service Contents)) : Prop :=
  ∃ candidate applications, t.act.command? = some (.submitApplication candidate) ∧
    t.reply = .ok (.events [.appendValidator candidate.operator]) ∧
    t.before.ballots .application = .ok applications ∧
    ∃ b ∈ applications,
      b.subject.operator = candidate.operator ∨ b.subject.key = candidate.key

namespace Service

variable {s s' : Service Contents} {l : Ledger}

/-- Distinct identities are unique. -/
theorem Holds.identitiesUnique (h : s.Holds l) (hd : l.Distinct) :
    s.IdentitiesUnique l.validators.values l.applications.values where
  registry := h.validators_eq
  pending := h.ballots_eq .application
  keys := by
    refine .of_map ConsensusKey.address ?_
    rw [List.map_map]
    exact hd.validators.nodup_addresses
  apart := by
    intro b hb v hv
    obtain ⟨op, hb⟩ := Table.mem_values.mp hb
    have hkeyed : b.subject.operator = op := h.sound.application_keyed hb
    obtain ⟨hop, ha⟩ := hd.apart hb (h.sound.mem_values.mp hv)
    refine ⟨hkeyed ▸ hop, fun hkey => ha ?_⟩
    show b.subject.key.address = v.key.address
    rw [hkey]
  found := by
    intro a
    refine ⟨l.validatorAt? a, h.validatorAt_eq a, fun v => ?_⟩
    rw [Ledger.validatorAt?, hd.validators.find_eq_some_iff, Table.mem_values]
    simp only [exists_and_right]

/-- What a turn leaves that seats nobody past an application. -/
theorem Holds.distinct_act {keys : List ConsensusKey} (h : s.Holds l) (hd : l.Distinct)
    (hdraws : l.Draws keys) (hkeys : KeysTellApart keys) {a : Act} (ha : a.keys ⊆ keys)
    (hguard : ¬ (turn Service.act s a).PassesApplication) :
    (l.act a).2.Distinct ∧ (l.act a).2.Draws keys := by
  refine h.sound.act_keeps (P := fun l => l.Distinct ∧ l.Draws keys) a ⟨hd, hdraws⟩ ?_
    (fun _ _ _ => ⟨hd.setParams _, hdraws.seated, hdraws.applying⟩)
    ⟨hd.settled h.sound, hdraws.settled h.sound⟩
  intro c events l' hc hstep hreply
  have hcandidate : ∀ v, c = .submitApplication v → v.key ∈ keys := by
    rintro v rfl
    exact ha (Act.mem_keys hc)
  refine ⟨hd.step h.sound hstep ?_, hdraws.step hstep hcandidate⟩
  rintro v rfl rfl op b hb
  have hnot : ¬ (b.subject.operator = v.operator ∨ b.subject.key = v.key) := fun hsame =>
    hguard ⟨v, l.applications.values, hc, (h.act_eq a).1.trans hreply, h.ballots_eq .application,
      b, Table.mem_values.mpr ⟨op, hb⟩, hsame⟩
  obtain ⟨hop, hkey⟩ := not_or.mp hnot
  have hkeyed : b.subject.operator = op := h.sound.application_keyed hb
  exact ⟨hkeyed ▸ hop, fun haddress =>
    hkey (hkeys _ (hdraws.applying hb) _ (hcandidate v rfl) haddress)⟩

/-- Identities are distinct after a run whose keys are told apart and in which nobody is seated past
an application. -/
theorem Holds.distinct_finish {g : Genesis} {acts past : List Act}
    (h : s.Holds (({} : Ledger).establish g).2) (hcheck : g.check = .ok ())
    (hkeys : KeysTellApart (usedKeys g acts))
    (hguard : ∀ t ∈ s.turns acts, ¬ t.PassesApplication) (hpast : past <+: acts) :
    ∃ l, (s.finish past).Holds l ∧ l.Distinct ∧ l.Draws (usedKeys g acts) := by
  have hgenesis := Ledger.Orderly.establish hcheck (hkeys.mono (List.subset_append_left _ _))
  have hdraws : (({} : Ledger).establish g).2.Draws (usedKeys g acts) :=
    Ledger.Everyone.establish fun v hv => List.mem_append_left _ (List.mem_map.mpr ⟨v, hv, rfl⟩)
  refine h.keeps (G := fun t => ¬ t.PassesApplication ∧ t.act.keys ⊆ usedKeys g acts)
    (fun a hl hi hguard => hl.distinct_act hi.1 hi.2 hkeys hguard.2 hguard.1)
    ⟨hgenesis.1.distinct, hdraws⟩ fun t ht => ?_
  have ht := (turns_mono hpast).subset ht
  exact ⟨hguard t ht, Act.keys_subset (act_mem_of_mem_turns ht)⟩

/-- A candidate that is seated past an application shares an identity with it afterwards. -/
theorem Holds.not_identitiesUnique (h : s.Holds l) {a : Act}
    (hpasses : (turn Service.act s a).PassesApplication) (vs : List Validator)
    (applications : List Ballot) : ¬ (s.act a).2.IdentitiesUnique vs applications := by
  intro hunique
  obtain ⟨candidate, bs, hc, hreply, hbs, b, hb, hsame⟩ := hpasses
  have hreply : (l.act a).1 = .ok (.events [.appendValidator candidate.operator]) := by
    rw [← (h.act_eq a).1]
    exact hreply
  have hbs : bs = l.applications.values :=
    (Except.ok.inj ((h.ballots_eq .application).symm.trans hbs)).symm
  have hafter : (l.act a).2.validators.get? candidate.operator = some candidate ∧
      (l.act a).2.applications = l.applications := by
    have hmem : .appendValidator candidate.operator ∈ Reply.published (l.act a).1 := by
      rw [hreply]
      exact List.mem_singleton_self _
    obtain ⟨c, hc', hstep⟩ := h.sound.step_of_mem_published hmem
    cases hc.symm.trans hc'
    -- of the two ways in which a submission is carried out, the event tells this one
    generalize (l.act a).2 = after at hstep ⊢
    rw [hreply, Reply.published] at hstep
    cases hstep with
    | seatAtOnce => exact ⟨by simp, rfl⟩
  have h' := h.act a
  have hvs : vs = (l.act a).2.validators.values :=
    (Except.ok.inj (h'.validators_eq.symm.trans hunique.registry)).symm
  have happlications : applications = l.applications.values := by
    rw [← hafter.2]
    exact (Except.ok.inj ((h'.ballots_eq .application).symm.trans hunique.pending)).symm
  have hnot := hunique.apart b (happlications ▸ hbs ▸ hb) candidate
    (hvs ▸ Table.mem_values.mpr ⟨_, hafter.1⟩)
  rcases hsame with hop | hkey
  · exact hnot.1 hop
  · exact hnot.2 hkey

/-- **Identities are unique throughout a run exactly if nobody is seated at once past an open
application.** -/
theorem identitiesUnique_iff {s₀ : Service Contents} {g : Genesis} {updates : List PowerUpdate}
    {acts : List Act} (hempty : s.store = .empty) (hstart : s.initialise g = .ok (updates, s₀))
    (hkeys : KeysTellApart (usedKeys g acts)) :
    (∀ past, past <+: acts → ∃ vs applications,
      (s₀.finish past).IdentitiesUnique vs applications) ↔
      ∀ t ∈ s₀.turns acts, ¬ t.PassesApplication := by
  obtain ⟨hcheck, -, -⟩ := (initialise_eq_ok_iff hempty).mp hstart
  have hfounded := holds_initialise hempty hstart
  constructor
  · intro hunique t ht hpasses
    obtain ⟨past, later, hsplit⟩ := List.append_of_mem ht
    obtain ⟨before, a, after, rfl, -, rfl⟩ := turns_eq_append_cons hsplit
    obtain ⟨l, hl⟩ := hfounded.finish before
    -- identities are not unique where the run stops after this turn
    obtain ⟨vs, applications, hafter⟩ := hunique (before ++ [a]) ⟨after, by simp⟩
    rw [finish, finish_append] at hafter
    exact hl.not_identitiesUnique hpasses vs applications hafter
  · intro hguard past hpast
    obtain ⟨l, hl, hd, -⟩ := hfounded.distinct_finish hcheck hkeys hguard hpast
    exact ⟨_, _, hl.identitiesUnique hd⟩

/-- A candidate is seated at once with the key of an open application, which is approved later. -/
def twins : List Act :=
  [.handle (.submitApplication (.uniform 2 2)),
   .setParams { quorum := 0 },
   .handle (.submitApplication (.uniform 3 2)),
   .setParams { quorum := 50 },
   .handle (.voteApplication (Validator.uniform 1 1).operator (Validator.uniform 2 2).operator
     true)]

theorem identitiesUnique_iff_twins :
    (∀ past, past <+: twins → ∃ vs applications,
      ((founded .lone).finish past).IdentitiesUnique vs applications) ↔
      ∀ t ∈ (founded .lone).turns twins, ¬ t.PassesApplication :=
  identitiesUnique_iff rfl (initialise_founded (by decide)) (by decide +kernel)

/-- Twins are seated with one key. -/
theorem not_nodup_keys_twins : KeysTellApart (usedKeys .lone twins) ∧
    ∃ vs, ((founded .lone).finish twins).view Registry.validators = .ok vs ∧
      ¬ (vs.map (·.key)).Nodup :=
  ⟨by decide +kernel, [.uniform 1 1, .uniform 2 2, .uniform 3 2], by decide +kernel, by decide⟩

end Service

end AuthoritySet
