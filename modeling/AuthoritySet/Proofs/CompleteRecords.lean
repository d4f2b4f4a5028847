import AuthoritySet.Proofs.Integrity

/-!
# Complete records

Candidates are checked before they apply, and documents before they found a set. After that records
are only copied, between the registry, the applications and the kick proposals. So as long as no
submission is carried out unchecked, every record in the store names an operator and a key and says
something about itself, and nothing is kept for an operator that is missing.

* `Ledger.Complete`: all records and all voters, and what they are kept under.
* `Ledger.Complete.step`, `Ledger.Complete.call`: commands and calls keep ledgers complete.
* `Service.records_complete`: runs from an empty store.
-/

namespace AuthoritySet

/-- A record passes its check exactly if nothing is missing from it. -/
theorem Validator.check_eq_ok_iff {v : Validator} : v.check = .ok () ↔
    v.operator.isMissing = false ∧ v.key.isMissing = false ∧ v.description.isEmpty = false := by
  unfold check
  split_ifs <;> simp_all

/-- The subject and all voters of a ballot are somebody. -/
structure Ballot.Complete (b : Ballot) : Prop where
  subject : b.subject.check = .ok ()
  voter {voter : OperatorAddress} : voter ∈ b.voters → voter.isMissing = false

/-- Whoever is seated, and whomever a ballot is about, has a complete record. The operator of zeros
votes on no ballot, and no record, state or ballot is kept under it. -/
structure Service.RecordsComplete (s : Service Contents) : Prop where
  seated {key value : Bytes} :
    (key, value) ∈ s.store.startingWith Section.validators.beginning →
      ∃ v : Validator, Record.decode value = .ok v ∧ v.check = .ok ()
  balloted {kind : Ballot.Kind} {key value : Bytes} :
    (key, value) ∈ s.store.startingWith (Section.ballots kind).beginning →
      ∃ b : Ballot, Record.decode value = .ok b ∧ b.subject.check = .ok () ∧
        Identity.zero ∉ b.voters
  keyed {part : Section} :
    part ∈ [.validators, .lifecycles, .applications, .kickProposals] →
      s.store.get? (part.key (Identity.zero : OperatorAddress)) = none

namespace Ballot.Complete

variable {b after : Ballot} {voter : OperatorAddress} {approve : Bool}

theorem start {subject : Validator} (h : subject.check = .ok ()) : (Ballot.start subject).Complete :=
  ⟨h, fun hvoter => absurd hvoter List.not_mem_nil⟩

theorem cast (h : b.Complete) (hcast : b.cast? voter approve = some after)
    (hvoter : voter.isMissing = false) : after.Complete where
  subject := by rw [subject_cast hcast, h.subject]
  voter hmem := by
    rw [voters_cast hcast, List.mem_append, List.mem_singleton] at hmem
    rcases hmem with hmem | rfl
    · exact h.voter hmem
    · exact hvoter

end Ballot.Complete

namespace Ledger

variable {l l' : Ledger} {P : Ballot → Prop}

/-- The ledgers in which everybody is somebody. -/
structure Complete (l : Ledger) : Prop where
  record {operator : OperatorAddress} {v : Validator} :
    l.validators.get? operator = some v → v.check = .ok ()
  state {operator : OperatorAddress} {state : Lifecycle} :
    l.lifecycles.get? operator = some state → operator.isMissing = false
  ballot {kind : Ballot.Kind} {operator : OperatorAddress} {b : Ballot} :
    (l.ballots kind).get? operator = some b → b.Complete

namespace Complete

theorem empty : ({} : Ledger).Complete where
  record hv := by cases hv
  state hstate := by cases hstate
  ballot {kind _ _} hb := by cases kind <;> cases hb

/-- Who is seated is somebody. -/
theorem operator_of_seated (h : l.Complete) (hl : l.Coherent P) {operator : OperatorAddress}
    (hseated : (l.validators.get? operator).isSome) : operator.isMissing = false := by
  obtain ⟨v, hv⟩ := Option.isSome_iff_exists.mp hseated
  rw [← hl.validator_keyed hv]
  exact (Validator.check_eq_ok_iff.mp (h.record hv)).1

/-- Ballots are about somebody. -/
theorem operator_of_opened (h : l.Complete) (hl : l.Coherent P) {kind : Ballot.Kind}
    {operator : OperatorAddress} {b : Ballot} (hb : (l.ballots kind).get? operator = some b) :
    operator.isMissing = false := by
  rw [← hl.ballot_keyed hb]
  exact (Validator.check_eq_ok_iff.mp (h.ballot hb).subject).1

/-! ## Updates -/

theorem setParams (h : l.Complete) (params : Params) : (l.setParams params).Complete :=
  ⟨h.record, h.state, fun hb => h.ballot (by simpa using hb)⟩

theorem setLifecycle (h : l.Complete) {operator : OperatorAddress} (state : Lifecycle)
    (hoperator : operator.isMissing = false) : (l.setLifecycle operator state).Complete where
  record := h.record
  state hstate := by
    rcases Table.get?_insert_cases hstate with ⟨rfl, -⟩ | ⟨-, hstate⟩
    · exact hoperator
    · exact h.state hstate
  ballot hb := h.ballot (by simpa using hb)

theorem seat (h : l.Complete) {v : Validator} (state : Lifecycle) (hv : v.check = .ok ()) :
    (l.seat v state).Complete := by
  refine setLifecycle (l := l.setValidator v) ⟨fun hw => ?_, h.state, fun hb => ?_⟩ state
    (Validator.check_eq_ok_iff.mp hv).1
  · rcases Table.get?_insert_cases hw with ⟨-, rfl⟩ | ⟨-, hw⟩
    · exact hv
    · exact h.record hw
  · exact h.ballot (by rwa [← ballots_seat l v state])

theorem setBallot (h : l.Complete) (kind : Ballot.Kind) {b : Ballot} (hb : b.Complete) :
    (l.setBallot kind b).Complete where
  record hv := h.record (by simpa using hv)
  state hstate := h.state (by simpa using hstate)
  ballot hget := by
    rcases ballots_setBallot_cases hget with ⟨-, -, rfl⟩ | ⟨-, hget⟩
    · exact hb
    · exact h.ballot hget

theorem closeBallot (h : l.Complete) (kind : Ballot.Kind) (operator : OperatorAddress) :
    (l.closeBallot kind operator).Complete where
  record hv := h.record (by simpa using hv)
  state hstate := h.state (by simpa using hstate)
  ballot hget := h.ballot (ballots_of_closeBallot hget)

/-! ## Commands and epoch boundaries -/

theorem concludeApplication (h : l.Complete) (candidate : OperatorAddress) {b : Ballot}
    (hb : b.Complete) (verdict : Verdict) :
    (l.concludeApplication candidate b verdict).2.Complete := by
  cases verdict with
  | approved => exact (h.closeBallot .application candidate).seat .joining hb.subject
  | rejected => exact h.closeBallot .application candidate
  | pending => exact h.setBallot .application hb

theorem concludeKick (h : l.Complete) {candidate : OperatorAddress} {b : Ballot} (hb : b.Complete)
    (hcandidate : candidate.isMissing = false) (verdict : Verdict) :
    (l.concludeKick candidate b verdict).2.Complete := by
  cases verdict with
  | approved => exact (h.closeBallot .kickProposal candidate).setLifecycle .leaving hcandidate
  | rejected => exact h.closeBallot .kickProposal candidate
  | pending => exact h.setBallot .kickProposal hb

/-- Commands keep ledgers complete, if candidates are. -/
theorem step (h : l.Complete) (hl : l.Coherent P) {c : Command} {events : List Event}
    (hs : l.Step c events l') (hc : ∀ v, c = .submitApplication v → v.check = .ok ()) :
    l'.Complete := by
  cases hs with
  | seatAtOnce => exact h.seat .joining (hc _ rfl)
  | @apply candidate => exact h.setBallot .application (.start (hc candidate rfl))
  | voteApplication _ seated opened cast =>
    have hopened : (l.ballots .application).get? _ = some _ := opened
    exact h.concludeApplication _
      ((h.ballot hopened).cast cast (h.operator_of_seated hl seated)) _
  | expel _ _ found =>
    exact h.setLifecycle .leaving (h.operator_of_seated hl (by rw [found]; rfl))
  | propose _ _ found => exact h.setBallot .kickProposal (.start (h.record found))
  | voteKick _ seated opened cast =>
    have hopened : (l.ballots .kickProposal).get? _ = some _ := opened
    exact h.concludeKick ((h.ballot hopened).cast cast (h.operator_of_seated hl seated))
      (h.operator_of_opened hl hopened) _
  | leave seated =>
    exact (h.closeBallot .kickProposal _).setLifecycle .leaving (h.operator_of_seated hl seated)

theorem settled (h : l.Complete) (hl : l.Coherent P) : l.settled.Complete where
  record hv := h.record (hl.seated_of_settled hv).1
  state {operator state} hstate := by
    rw [hl.get?_lifecycles_settled] at hstate
    split at hstate
    · obtain ⟨before, hbefore, -⟩ := Option.bind_eq_some_iff.mp hstate
      exact h.state hbefore
    · exact h.state hstate
  ballot hb := h.ballot (by simpa using hb)

/-! ## Founding -/

theorem seatAll (h : l.Complete) {vs : List Validator} (hvs : ∀ v ∈ vs, v.check = .ok ()) :
    (l.seatAll vs).Complete := by
  induction vs generalizing l with
  | nil => exact h
  | cons v rest ih =>
    rw [List.forall_mem_cons] at hvs
    exact ih (h.seat .joined hvs.1) hvs.2

theorem establish (h : l.Complete) {g : Genesis} (hcheck : g.check = .ok ()) :
    (l.establish g).2.Complete :=
  (h.setParams g.params).seatAll (Genesis.complete_of_check hcheck)

/-! ## Calls -/

/-- What a call makes of an intact ledger that is complete, unless it is an unchecked submission. -/
theorem carryOut (h : l.Complete) (hl : l.Intact) {c : Call} (hcheck : c.plan.check = .ok ())
    (hchecked : ∀ v, c ≠ .execute (.submitApplication v)) {r : Reply × Ledger}
    (hr : l.carryOut c = .ok r) : r.2.Complete := by
  have hexecute : ∀ command : Command,
      (∀ v, command = .submitApplication v → v.check = .ok ()) →
        (l.execute command).map (fun r => (Reply.events r.1, r.2)) = .ok r → r.2.Complete := by
    intro command hcandidate hr
    cases hc : l.execute command with
    | error failure => rw [hc] at hr; cases hr
    | ok result => rw [hc] at hr; cases hr; exact h.step hl.toCoherent (.of_execute hc) hcandidate
  cases c with
  | execute command =>
    refine hexecute command (fun v hv => ?_) hr
    exact absurd (congrArg Call.execute hv) (hchecked v)
  | handle command =>
    refine hexecute command (fun v hv => ?_) hr
    subst hv
    exact hcheck
  | initialise genesis =>
    cases hr
    exact h.establish hcheck
  | setParams params =>
    cases hr
    exact h.setParams params
  | endEpoch =>
    rw [Ledger.carryOut, hl.settle_eq] at hr
    cases hr
    exact h.settled hl.toCoherent

/-- Calls keep ledgers complete, unless they are unchecked submissions. -/
theorem call (h : l.Complete) (hl : l.Intact) {c : Call}
    (hchecked : ∀ v, c ≠ .execute (.submitApplication v)) : (l.call c).2.Complete := by
  unfold Ledger.call
  cases hcheck : c.plan.check with
  | error failure => exact h
  | ok _ =>
    cases hr : l.carryOut c with
    | error failure => exact h
    | ok r => exact h.carryOut hl hcheck hchecked hr

/-- Under an operator that is missing nothing is stored. -/
theorem get?_contents_of_isMissing (h : l.Complete) (hl : l.Coherent P) {part : Section}
    (hpart : part ∈ [.validators, .lifecycles, .applications, .kickProposals])
    {operator : OperatorAddress} (hmissing : operator.isMissing) :
    l.contents.get? (part.key operator) = none := by
  have hnot : operator.isMissing ≠ false := by simp [hmissing]
  have hballot (kind : Ballot.Kind) : (l.ballots kind).get? operator = none :=
    Option.eq_none_iff_forall_ne_some.mpr fun b hb => hnot (h.operator_of_opened hl hb)
  simp only [List.mem_cons, List.not_mem_nil, or_false] at hpart
  rw [Section.key, get?_contents]
  rcases hpart with rfl | rfl | rfl | rfl
  · have hnone : l.validators.get? operator = none :=
      Option.not_isSome_iff_eq_none.mp fun hseated => hnot (h.operator_of_seated hl hseated)
    rw [value?, valueAt_bytes, hnone]
    rfl
  · have hnone : l.lifecycles.get? operator = none :=
      Option.eq_none_iff_forall_ne_some.mpr fun state hstate => hnot (h.state hstate)
    rw [value?, valueAt_bytes, hnone]
    rfl
  · rw [value?, valueAt_bytes, show l.applications.get? operator = none from hballot .application]
    rfl
  · rw [value?, valueAt_bytes, show l.kickProposals.get? operator = none from hballot .kickProposal]
    rfl

end Complete

end Ledger

/-! ## Services -/

namespace Service

open Ledger

variable {s : Service Contents} {l : Ledger}

/-- An intact ledger that is complete is stored as complete records. -/
theorem recordsComplete (hstore : s.store = l.contents) (hl : l.Intact) (h : l.Complete) :
    s.RecordsComplete where
  seated {key value} hpair := by
    rw [hstore, startingWith_contents, mem_part] at hpair
    obtain ⟨_, -, hvalue⟩ := hpair
    obtain ⟨operator, v, -, hv, rfl⟩ := valueAt_eq_some_iff.mp hvalue
    exact ⟨v, Record.decode_encode v, h.record hv⟩
  balloted {kind key value} hpair := by
    rw [hstore, startingWith_contents, mem_part_ballots] at hpair
    obtain ⟨operator, b, hb, -, rfl⟩ := hpair
    have hcomplete := h.ballot hb
    refine ⟨b, (hl.legible.readsBack hb).decode, hcomplete.subject, fun hvoter => ?_⟩
    cases hcomplete.voter hvoter
  keyed hpart := by
    rw [hstore]
    exact h.get?_contents_of_isMissing hl.toCoherent hpart (by decide)

/-- **Complete records.** In every state that can be reached from an empty store without submissions
that are carried out unchecked, all records are complete, and the operator of zeros neither votes nor
has a record, a state or a ballot. -/
theorem records_complete (hempty : s.store = .empty) {calls : List Call}
    (hchecked : ∀ v, .execute (.submitApplication v) ∉ calls) :
    (s.run calls).2.RecordsComplete := by
  have hkeep : ∀ c ∈ calls, ∀ l : Ledger, l.Intact → l.Complete → (l.call c).2.Complete :=
    fun c hc l hl h => h.call hl fun v he => hchecked v (he ▸ hc)
  obtain ⟨-, l, hstore, hl, h⟩ :=
    intact_run_keeps (hempty.trans contents_empty.symm) Intact.empty Complete.empty hkeep
  exact recordsComplete hstore hl h

/-- Somebody applies before the founding and is admitted after it, then expelled. Submissions of
nobody are refused. -/
def earlyBird : List Call :=
  [.handle (.submitApplication (.uniform 2 2)),
   .initialise .lone,
   .handle (.submitApplication (.uniform 0 3)),
   .handle (.submitApplication (.uniform 3 0)),
   .handle (.voteApplication (Validator.uniform 1 1).operator (Validator.uniform 2 2).operator
     true),
   .handle (.submitApplication (.uniform 4 4)),
   .execute (.voteApplication (Validator.uniform 1 1).operator (Validator.uniform 4 4).operator
     true),
   .endEpoch,
   .execute (.proposeKick (Validator.uniform 2 2).operator (Validator.uniform 1 1).operator)]

theorem records_complete_earlyBird :
    (({ store := .empty } : Service Contents).run earlyBird).2.RecordsComplete ∧
    (({ store := .empty } : Service Contents).run earlyBird).2.ballots .kickProposal =
      .ok [.start (.uniform 2 2)] ∧
    (({ store := .empty } : Service Contents).run earlyBird).2.ballots .application =
      .ok [⟨.uniform 4 4, 1, 1, [(Validator.uniform 1 1).operator]⟩] := by
  refine ⟨records_complete rfl fun v => ?_, by decide +kernel, by decide +kernel⟩
  simp [earlyBird]

end Service

end AuthoritySet
