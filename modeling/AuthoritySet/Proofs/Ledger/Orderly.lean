import AuthoritySet.Proofs.Keys
import AuthoritySet.Proofs.Ledger.Tidy

/-!
# Orderly ledgers

If balloting is never switched off while a ballot is open (`Service.KeepsBalloting`), a reachable
ledger has no loose ends (`Ledger.Orderly`): identities are distinct, exactly the seated validators
have a state, a kick proposal is about a validator that is seated and not leaving, and without
balloting there are no ballots.

* `Ledger.Orderly.step`, `Ledger.Orderly.settled`: commands and epoch boundaries keep ledgers
  orderly; so does setting parameters that do not switch balloting off under a ballot.
* `Service.Holds.orderly_finish`: the ledger at the end of a run that keeps balloting is orderly.
-/

namespace AuthoritySet

namespace Ledger

variable {l l' : Ledger}

/-- No ballot is open. -/
def NoBallots (l : Ledger) : Prop := ∀ kind operator, (l.ballots kind).get? operator = none

/-- Where no ballot is open, every candidate is new to the applications. -/
theorem NoBallots.newToApplications (h : l.NoBallots) (candidate : Validator) :
    l.NewToApplications candidate := by
  intro operator b hb
  rw [show l.applications.get? operator = none from h .application operator] at hb
  cases hb

/-- The ledgers without loose ends. -/
structure Orderly (l : Ledger) : Prop extends l.Tidy where
  distinct : l.Distinct
  params_isSome : l.params.isSome
  instant : l.inForce.isInstant → l.NoBallots

/-- Without balloting no ballot is opened. -/
theorem Step.noBallots {c : Command} {events : List Event} (hs : l.Step c events l')
    (hinstant : l.inForce.isInstant) (h : l.NoBallots) : l'.NoBallots := by
  intro kind operator
  cases hs with
  | seatAtOnce => simpa using h kind operator
  | apply _ _ _ balloting => simp [hinstant] at balloting
  | @voteApplication _ candidate _ _ _ _ _ _ opened =>
    rw [show l.applications.get? candidate = none from h .application candidate] at opened
    cases opened
  | expel => simpa using h kind operator
  | propose _ _ _ _ _ balloting => simp [hinstant] at balloting
  | @voteKick _ candidate _ _ _ _ _ _ opened =>
    rw [show l.kickProposals.get? candidate = none from h .kickProposal candidate] at opened
    cases opened
  | leave => simp [h kind operator]

namespace Orderly

theorem setParams (h : l.Orderly) (params : Params)
    (hballots : params.isInstant → l.NoBallots) : (l.setParams params).Orderly where
  toTidy := h.toTidy.setParams params
  distinct := h.distinct.setParams params
  params_isSome := rfl
  instant hinstant kind operator := by simpa using hballots hinstant kind operator

/-! ## Commands and epoch boundaries -/

/-- Commands keep ledgers orderly: what is done at once finds no ballot open. -/
theorem step (h : l.Orderly) (hl : l.Sound) {c : Command} {events : List Event}
    (hs : l.Step c events l') : l'.Orderly := by
  have htidy := h.toTidy.step hl hs fun candidate proposer hc hevents => by
    rcases hs.expulsion (show .kickValidator candidate ∈ events by simp [hevents]) with
      ⟨_, _, _, _, hvote, -⟩ | ⟨-, -, hinstant⟩
    · cases hc.symm.trans hvote
    · exact h.instant hinstant .kickProposal candidate
  have hdistinct := h.distinct.step hl hs fun v hc hevents => by
    rcases hs.admission (show .appendValidator v.operator ∈ events by simp [hevents]) with
      ⟨_, _, _, _, hvote, -⟩ | ⟨-, -, -, hinstant⟩
    · cases hc.symm.trans hvote
    · exact (h.instant hinstant).newToApplications v
  refine ⟨htidy, hdistinct, hs.params_eq ▸ h.params_isSome, fun hinstant => ?_⟩
  rw [hs.inForce_eq] at hinstant
  exact hs.noBallots hinstant (h.instant hinstant)

/-- Epoch boundaries keep ledgers orderly. -/
theorem settled (h : l.Orderly) (hl : l.Sound) : l.settled.Orderly where
  toTidy := h.toTidy.settled hl
  distinct := h.distinct.settled hl
  params_isSome := h.params_isSome
  instant hinstant kind operator := by simpa using h.instant hinstant kind operator

/-! ## Founding -/

/-- Founding starts with an orderly ledger without ballots. -/
theorem establish {g : Genesis} (hcheck : g.check = .ok ())
    (hkeys : KeysTellApart (g.validators.map (·.key))) :
    (({} : Ledger).establish g).2.Orderly ∧ (({} : Ledger).establish g).2.NoBallots := by
  obtain ⟨hdistinct, hparams, hnone⟩ : (({} : Ledger).establish g).2.Distinct ∧
      (({} : Ledger).establish g).2.params.isSome ∧ (({} : Ledger).establish g).2.NoBallots := by
    refine establish_induction (P := fun _ l => l.Distinct ∧ l.params.isSome ∧ l.NoBallots) hcheck
      hkeys ⟨Distinct.empty.setParams g.params, rfl, fun kind _ => by cases kind <;> rfl⟩ ?_
    rintro _ l v - ⟨hdistinct, hparams, hnone⟩ hregistry
    exact ⟨hdistinct.seat .joined hregistry (hnone.newToApplications v), hparams,
      fun kind op => by simpa using hnone kind op⟩
  exact ⟨⟨.establish g, hdistinct, hparams, fun _ => hnone⟩, hnone⟩

end Orderly

end Ledger

/-! ## Runs -/

namespace Service

variable {s s₀ : Service Contents} {l : Ledger}

/-- Balloting is never switched off while a ballot is open. -/
def KeepsBalloting (s : Service Contents) (acts : List Act) : Prop :=
  ∀ t ∈ s.turns acts, ∀ params, t.act = .setParams params → t.reply = .ok .done →
    params.quorum = 0 → ∀ kind, t.before.ballots kind = .ok []

/-- A run that never sets the quorum to zero keeps balloting. -/
theorem keepsBalloting_of_quorum_ne_zero {acts : List Act}
    (h : ∀ params, .setParams params ∈ acts → params.quorum ≠ 0) : s.KeepsBalloting acts := by
  intro t ht params hact _ hzero
  exact absurd hzero (h params (hact ▸ act_mem_of_mem_turns ht))

theorem KeepsBalloting.past {past acts : List Act} (h : s.KeepsBalloting acts)
    (hpast : past <+: acts) : s.KeepsBalloting past :=
  fun t ht => h t ((turns_mono hpast).subset ht)

theorem KeepsBalloting.later {past later : List Act} (h : s.KeepsBalloting (past ++ later)) :
    (s.finish past).KeepsBalloting later := by
  intro t ht
  refine h t ?_
  rw [turns, turns_append]
  exact List.mem_append_right _ ht

/-- What a turn that does not switch balloting off under a ballot leaves is orderly. -/
theorem Holds.orderly_act (h : s.Holds l) (ho : l.Orderly) {a : Act}
    (hguard : ∀ params, a = .setParams params → (s.act a).1 = .ok .done → params.quorum = 0 →
      ∀ kind, s.ballots kind = .ok []) : (l.act a).2.Orderly := by
  refine h.sound.act_keeps a ho (fun _ hstep _ => ho.step h.sound hstep) ?_ (ho.settled h.sound)
  intro params ha _ hreply
  refine ho.setParams params fun hinstant kind op => ?_
  have hnone := hguard params ha ((h.act_eq a).1.trans hreply) (beq_iff_eq.mp hinstant) kind
  rw [h.ballots_eq kind] at hnone
  refine Option.eq_none_iff_forall_ne_some.mpr fun b hb => ?_
  have hmem := Table.mem_values.mpr ⟨op, hb⟩
  rw [Except.ok.inj hnone] at hmem
  cases hmem

/-- The ledger that a service holds after a run that keeps balloting is orderly. -/
theorem Holds.orderly_finish (h : s.Holds l) (ho : l.Orderly) {acts : List Act}
    (hacts : s.KeepsBalloting acts) : ∃ l', (s.finish acts).Holds l' ∧ l'.Orderly := by
  exact h.keeps (fun a hl ho hguard => hl.orderly_act ho hguard) ho hacts

end Service

end AuthoritySet
