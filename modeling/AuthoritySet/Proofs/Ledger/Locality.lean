import AuthoritySet.Proofs.Ledger.Identity
import AuthoritySet.Proofs.Ledger.Service

/-!
# What commands look at and what they change

A command is about one operator (`Command.subject`). Beside the parameters and the registry it looks
at nothing but what is kept for this operator (`Ledger.cells`); a submission also looks for
applications on the address of its candidate. Unless it admits somebody, it changes nothing else.

* `Ledger.Step.application_cases`: where open applications come from.
* `Ledger.ApartFrom`, `Ledger.Step.apartFrom`: what a command leaves alone.
* `Ledger.execute_congr`: what a command does depends on nothing but what it looks at.
* `Ledger.Sound.apartFrom_act`, `Ledger.act_congr`: the same of acts.
-/

namespace AuthoritySet

/-- The operator that a command is about. -/
def Command.subject : Command → OperatorAddress
  | .submitApplication candidate => candidate.operator
  | .voteApplication _ candidate _ => candidate
  | .proposeKick candidate _ => candidate
  | .voteKickProposal _ candidate _ => candidate
  | .leaveValidatorSet validator => validator

namespace Ledger

variable {l l' m : Ledger} {c : Command} {events : List Event} {operator : OperatorAddress}

/-- What is kept for an operator beside its record. -/
structure Cells where
  lifecycle : Option Lifecycle
  application : Option Ballot
  kickProposal : Option Ballot

/-- What a ledger keeps for an operator beside its record. -/
def cells (l : Ledger) (operator : OperatorAddress) : Cells where
  lifecycle := l.lifecycles.get? operator
  application := l.applications.get? operator
  kickProposal := l.kickProposals.get? operator

/-- Two ledgers have the same parameters and validators. -/
structure SameRegistry (l m : Ledger) : Prop where
  params_eq : m.params = l.params
  validators_eq : m.validators = l.validators
  validatorIndex_eq : m.validatorIndex = l.validatorIndex

/-- Two ledgers differ in nothing but what they keep for an operator, and in the index of the
applications. -/
structure ApartFrom (operator : OperatorAddress) (l m : Ledger) : Prop
    extends SameRegistry l m where
  cells_eq {other : OperatorAddress} : other ≠ operator → m.cells other = l.cells other

/-- Ledgers with indexed applications that have the same registry and keep the same for everybody
are equal. -/
theorem eq_of_cells (hl : l.ApplicationsIndexed) (hm : m.ApplicationsIndexed)
    (h : SameRegistry l m) (hcells : ∀ operator, m.cells operator = l.cells operator) : m = l := by
  have happlications : m.applications = l.applications :=
    Table.ext_get? fun operator => congrArg Cells.application (hcells operator)
  have hindex : m.applicationIndex = l.applicationIndex := by
    refine Table.ext_get? fun a => Option.ext fun operator => ?_
    rw [hl a operator, hm a operator, happlications]
  have hlifecycles : m.lifecycles = l.lifecycles :=
    Table.ext_get? fun operator => congrArg Cells.lifecycle (hcells operator)
  have hkicks : m.kickProposals = l.kickProposals :=
    Table.ext_get? fun operator => congrArg Cells.kickProposal (hcells operator)
  obtain ⟨hparams, hvalidators, hvalidatorIndex⟩ := h
  cases l
  cases m
  simp_all

/-! ## What is left alone -/

theorem ApartFrom.refl (operator : OperatorAddress) (l : Ledger) : ApartFrom operator l l :=
  ⟨⟨rfl, rfl, rfl⟩, fun _ => rfl⟩

theorem ApartFrom.setLifecycle (h : ApartFrom operator l m) (state : Lifecycle) :
    ApartFrom operator l (m.setLifecycle operator state) where
  toSameRegistry := ⟨h.params_eq, h.validators_eq, h.validatorIndex_eq⟩
  cells_eq hother := by
    rw [← h.cells_eq hother]
    simp [cells, Ledger.setLifecycle, hother]

theorem ApartFrom.setBallot (h : ApartFrom operator l m) (kind : Ballot.Kind) {b : Ballot}
    (hb : b.subject.operator = operator) : ApartFrom operator l (m.setBallot kind b) where
  toSameRegistry := by cases kind <;> exact ⟨h.params_eq, h.validators_eq, h.validatorIndex_eq⟩
  cells_eq hother := by
    rw [← h.cells_eq hother]
    cases kind <;> simp [cells, Ledger.setBallot, hb, hother]

theorem ApartFrom.closeBallot (h : ApartFrom operator l m) (kind : Ballot.Kind) :
    ApartFrom operator l (m.closeBallot kind operator) where
  toSameRegistry := by cases kind <;> exact ⟨h.params_eq, h.validators_eq, h.validatorIndex_eq⟩
  cells_eq hother := by
    rw [← h.cells_eq hother]
    cases kind <;> simp [cells, Ledger.closeBallot, hother]

/-- A command that admits nobody leaves alone what is not about its subject. -/
theorem Step.apartFrom (hs : l.Step c events l') (hl : l.Sound)
    (hnobody : ∀ operator, .appendValidator operator ∉ events) : ApartFrom c.subject l l' := by
  have hsame := ApartFrom.refl c.subject l
  cases hs with
  | @seatAtOnce candidate => exact absurd (List.mem_singleton_self _) (hnobody candidate.operator)
  | apply => exact hsame.setBallot .application rfl
  | @voteApplication voter candidate _ _ _ verdict _ _ opened cast =>
    cases verdict with
    | approved => exact absurd (List.mem_cons_of_mem _ (List.mem_singleton_self _)) (hnobody candidate)
    | rejected => exact hsame.closeBallot .application
    | pending =>
      refine hsame.setBallot .application ?_
      rw [Ballot.subject_cast cast]
      exact hl.application_keyed opened
  | expel => exact hsame.setLifecycle .leaving
  | propose _ _ found => exact hsame.setBallot .kickProposal (hl.validator_keyed found)
  | @voteKick _ _ _ _ _ verdict _ _ opened cast =>
    cases verdict with
    | approved => exact (hsame.closeBallot .kickProposal).setLifecycle .leaving
    | rejected => exact hsame.closeBallot .kickProposal
    | pending =>
      refine hsame.setBallot .kickProposal ?_
      rw [Ballot.subject_cast cast]
      exact hl.kick_keyed opened
  | leave => exact (hsame.closeBallot .kickProposal).setLifecycle .leaving

/-- An application that is open after a command was open before it, or the command opened it. -/
theorem Step.application_cases (hs : l.Step c events l') (hl : l.Sound) {after : Ballot}
    (hopened : l'.applications.get? operator = some after) :
    (∃ before, l.applications.get? operator = some before ∧ after.subject = before.subject) ∨
      c = .submitApplication after.subject := by
  cases hs with
  | @apply candidate =>
    rcases Table.get?_insert_cases hopened with ⟨-, rfl⟩ | ⟨-, hopened⟩
    · exact .inr rfl
    · exact .inl ⟨after, hopened, rfl⟩
  | @voteApplication _ candidate _ before voted verdict _ _ opened cast =>
    have hcandidate : voted.subject.operator = candidate := by
      rw [Ballot.subject_cast cast, hl.application_keyed opened]
    cases verdict with
    | approved => exact .inl ⟨after, (Table.get?_of_erase hopened).2, rfl⟩
    | rejected => exact .inl ⟨after, (Table.get?_of_erase hopened).2, rfl⟩
    | pending =>
      rcases Table.get?_insert_cases hopened with ⟨rfl, rfl⟩ | ⟨-, hopened⟩
      · exact .inl ⟨before, hcandidate ▸ opened, Ballot.subject_cast cast⟩
      · exact .inl ⟨after, hopened, rfl⟩
  | @voteKick _ _ _ _ _ verdict => cases verdict <;> exact .inl ⟨after, hopened, rfl⟩
  | seatAtOnce => exact .inl ⟨after, hopened, rfl⟩
  | expel => exact .inl ⟨after, hopened, rfl⟩
  | propose => exact .inl ⟨after, hopened, rfl⟩
  | leave => exact .inl ⟨after, hopened, rfl⟩

/-! ## What is looked at -/

/-- Two ledgers look the same to a command. -/
structure LooksSame (c : Command) (l m : Ledger) : Prop extends SameRegistry l m where
  cells_eq : m.cells c.subject = l.cells c.subject
  applying_eq {candidate : Validator} : c = .submitApplication candidate →
    (m.applicationAt? candidate.address).isSome = (l.applicationAt? candidate.address).isSome

namespace SameRegistry

theorem inForce_eq (h : SameRegistry l m) : m.inForce = l.inForce := by
  rw [inForce, inForce, h.params_eq]

theorem validatorAt?_eq (h : SameRegistry l m) (address : ConsensusAddress) :
    m.validatorAt? address = l.validatorAt? address := by
  rw [validatorAt?, validatorAt?, h.validators_eq, h.validatorIndex_eq]

end SameRegistry

/-- What comes of a command for an operator: its events and what is kept for the operator then. -/
def outcomeFor {α : Type} (operator : OperatorAddress) (r : α × Ledger) : α × Cells :=
  (r.1, r.2.cells operator)

section Updates

/-! Updates leave the same for an operator if the same was kept for it. -/

variable (h : m.cells operator = l.cells operator) (other : OperatorAddress)

include h

theorem cells_setLifecycle_congr (state : Lifecycle) :
    (m.setLifecycle other state).cells operator = (l.setLifecycle other state).cells operator := by
  obtain ⟨hlifecycle, happlication, hkick⟩ := Cells.mk.inj h
  simp [cells, setLifecycle, hlifecycle, happlication, hkick]

theorem cells_seat_congr (v : Validator) (state : Lifecycle) :
    (m.seat v state).cells operator = (l.seat v state).cells operator :=
  cells_setLifecycle_congr (m := m.setValidator v) (l := l.setValidator v) h v.operator state

theorem cells_setBallot_congr (kind : Ballot.Kind) (b : Ballot) :
    (m.setBallot kind b).cells operator = (l.setBallot kind b).cells operator := by
  obtain ⟨hlifecycle, happlication, hkick⟩ := Cells.mk.inj h
  cases kind <;> simp [cells, setBallot, hlifecycle, happlication, hkick]

theorem cells_closeBallot_congr (kind : Ballot.Kind) :
    (m.closeBallot kind other).cells operator = (l.closeBallot kind other).cells operator := by
  obtain ⟨hlifecycle, happlication, hkick⟩ := Cells.mk.inj h
  cases kind <;> simp [cells, closeBallot, hlifecycle, happlication, hkick]

theorem concludeApplication_congr (b : Ballot) (verdict : Verdict) :
    outcomeFor operator (m.concludeApplication other b verdict) =
      outcomeFor operator (l.concludeApplication other b verdict) := by
  cases verdict with
  | approved =>
    exact Prod.ext rfl (cells_seat_congr (cells_closeBallot_congr h other .application) b.subject _)
  | rejected => exact Prod.ext rfl (cells_closeBallot_congr h other .application)
  | pending => exact Prod.ext rfl (cells_setBallot_congr h .application b)

theorem concludeKick_congr (b : Ballot) (verdict : Verdict) :
    outcomeFor operator (m.concludeKick other b verdict) =
      outcomeFor operator (l.concludeKick other b verdict) := by
  cases verdict with
  | approved =>
    exact Prod.ext rfl (cells_setLifecycle_congr (cells_closeBallot_congr h other .kickProposal)
      other _)
  | rejected => exact Prod.ext rfl (cells_closeBallot_congr h other .kickProposal)
  | pending => exact Prod.ext rfl (cells_setBallot_congr h .kickProposal b)

end Updates

/-! Commands on ledgers with the same registry, where the same is kept for their subjects. -/

section Commands

theorem submit_congr {candidate : Validator} (h : SameRegistry l m)
    (hcells : m.cells candidate.operator = l.cells candidate.operator)
    (happlying : (m.applicationAt? candidate.address).isSome =
      (l.applicationAt? candidate.address).isSome) :
    (m.submit candidate).map (outcomeFor candidate.operator) =
      (l.submit candidate).map (outcomeFor candidate.operator) := by
  have happlication := congrArg Cells.application hcells
  simp only [cells] at happlication
  simp only [submit, h.inForce_eq, h.validators_eq, h.validatorAt?_eq, happlication, happlying]
  split
  · rfl
  split
  · rfl
  split
  · exact congrArg (fun kept => Except.ok (_, kept)) (cells_seat_congr hcells candidate .joining)
  split
  · rfl
  · exact congrArg (fun kept => Except.ok (_, kept))
      (cells_setBallot_congr hcells .application (.start candidate))

theorem voteApplication_congr {candidate : OperatorAddress} (h : SameRegistry l m)
    (hcells : m.cells candidate = l.cells candidate) (voter : OperatorAddress) (approve : Bool) :
    (m.voteApplication voter candidate approve).map (outcomeFor candidate) =
      (l.voteApplication voter candidate approve).map (outcomeFor candidate) := by
  have happlication := congrArg Cells.application hcells
  simp only [cells] at happlication
  simp only [voteApplication, h.inForce_eq, h.validators_eq, happlication]
  split
  · rfl
  split
  · rfl
  split
  · rfl
  split
  · rfl
  rename_i after _
  split
  · rfl
  rename_i verdict _
  have hconclude := concludeApplication_congr hcells candidate after verdict
  exact congrArg (fun o => Except.ok (Event.applicationVote voter candidate approve :: o.1, o.2))
    hconclude

theorem propose_congr {candidate : OperatorAddress} (h : SameRegistry l m)
    (hcells : m.cells candidate = l.cells candidate) (proposer : OperatorAddress) :
    (m.propose candidate proposer).map (outcomeFor candidate) =
      (l.propose candidate proposer).map (outcomeFor candidate) := by
  have hlifecycle := congrArg Cells.lifecycle hcells
  have hkick := congrArg Cells.kickProposal hcells
  simp only [cells] at hlifecycle hkick
  simp only [propose, h.inForce_eq, h.validators_eq, hlifecycle, hkick]
  split
  · rfl
  split
  · rfl
  split
  · rfl
  rename_i validator _
  split
  · rfl
  split
  · rfl
  split
  · exact congrArg (fun kept => Except.ok (_, kept))
      (cells_setLifecycle_congr hcells candidate .leaving)
  split
  · rfl
  · exact congrArg (fun kept => Except.ok (_, kept))
      (cells_setBallot_congr hcells .kickProposal (.start validator))

theorem voteKick_congr {candidate : OperatorAddress} (h : SameRegistry l m)
    (hcells : m.cells candidate = l.cells candidate) (voter : OperatorAddress) (approve : Bool) :
    (m.voteKick voter candidate approve).map (outcomeFor candidate) =
      (l.voteKick voter candidate approve).map (outcomeFor candidate) := by
  have hkick := congrArg Cells.kickProposal hcells
  simp only [cells] at hkick
  simp only [voteKick, h.inForce_eq, h.validators_eq, hkick]
  split
  · rfl
  split
  · rfl
  split
  · rfl
  split
  · rfl
  rename_i after _
  split
  · rfl
  rename_i verdict _
  have hconclude := concludeKick_congr hcells candidate after verdict
  exact congrArg (fun o => Except.ok (Event.kickVote voter candidate approve :: o.1, o.2))
    hconclude

theorem leave_congr {validator : OperatorAddress} (h : SameRegistry l m)
    (hcells : m.cells validator = l.cells validator) :
    (m.leave validator).map (outcomeFor validator) =
      (l.leave validator).map (outcomeFor validator) := by
  simp only [leave, h.validators_eq]
  split
  · rfl
  split
  · rfl
  · exact congrArg (fun kept => Except.ok (_, kept))
      (cells_setLifecycle_congr (cells_closeBallot_congr hcells validator .kickProposal)
        validator .leaving)

end Commands

/-- Ledgers that look the same to a command are the same to it: it fails alike, or it has the same
events and leaves the same for its subject. -/
theorem execute_congr (h : LooksSame c l m) :
    (m.execute c).map (outcomeFor c.subject) = (l.execute c).map (outcomeFor c.subject) := by
  cases c with
  | submitApplication candidate =>
    exact submit_congr h.toSameRegistry h.cells_eq (h.applying_eq rfl)
  | voteApplication voter candidate approve =>
    exact voteApplication_congr h.toSameRegistry h.cells_eq voter approve
  | proposeKick candidate proposer => exact propose_congr h.toSameRegistry h.cells_eq proposer
  | voteKickProposal voter candidate approve =>
    exact voteKick_congr h.toSameRegistry h.cells_eq voter approve
  | leaveValidatorSet validator => exact leave_congr h.toSameRegistry h.cells_eq

/-! ## Acts -/

/-- An act that gives a command and admits nobody leaves alone what is not about the subject. -/
theorem Sound.apartFrom_act (hl : l.Sound) {a : Act} (ha : a.command? = some c)
    (hnobody : ∀ operator, .appendValidator operator ∉ Reply.published (l.act a).1) :
    ApartFrom c.subject l (l.act a).2 := by
  rcases act_cases_of_command (l := l) ha with ⟨_, heq⟩ | ⟨events, l', hstep, heq⟩
  · rw [heq]
    exact .refl c.subject l
  · rw [heq] at hnobody ⊢
    exact hstep.apartFrom hl hnobody

/-- An act that gives a command has the same reply on ledgers that look the same to the command, and
leaves the same for its subject. -/
theorem act_congr {a : Act} (ha : a.command? = some c) (h : LooksSame c l m) :
    (m.act a).1 = (l.act a).1 ∧ (m.act a).2.cells c.subject = (l.act a).2.cells c.subject := by
  have hexecute : (m.answer .events (m.execute c)).1 = (l.answer .events (l.execute c)).1 ∧
      (m.answer .events (m.execute c)).2.cells c.subject =
        (l.answer .events (l.execute c)).2.cells c.subject := by
    have hcongr := execute_congr h
    cases hm : m.execute c <;> cases hl : l.execute c <;> rw [hm, hl] at hcongr
    · cases hcongr
      exact ⟨rfl, h.cells_eq⟩
    · cases hcongr
    · cases hcongr
    · obtain ⟨hevents, hcells⟩ := Prod.mk.inj (Except.ok.inj hcongr)
      exact ⟨congrArg (fun events => Except.ok (Reply.events events)) hevents, hcells⟩
  cases a with
  | execute d =>
    cases ha
    exact hexecute
  | handle d =>
    cases ha
    simp only [act, handle]
    cases c.check with
    | error failure => exact ⟨rfl, h.cells_eq⟩
    | ok _ => exact hexecute
  | setParams params => cases ha
  | endEpoch => cases ha

end Ledger

end AuthoritySet
