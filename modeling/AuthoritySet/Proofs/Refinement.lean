import AuthoritySet.Proofs.Assembly
import AuthoritySet.Proofs.Ledger.Orderly

/-!
# The service refines the assembly

A ledger matches an assembly (`Ledger.Matches`) if it has the parameters, seats and ballots of the
assembly; its indexes are those of an assembly if they list exactly the addresses that there are
(`Ledger.Matches.eq_ledger`). Every step of an orderly ledger is the step of the assembly that it
matches, and so every step of a service that keeps balloting.

* `Ledger.Matches.execute`, `Ledger.Matches.settled`: one step.
* `Service.refines_assembly`: all steps of a run, replies and stored bytes.
-/

namespace AuthoritySet

namespace Ledger

variable {l l' : Ledger} {A A' : Assembly}

/-- A ledger has the parameters, the seats and the ballots of an assembly. -/
structure Matches (l : Ledger) (A : Assembly) : Prop where
  params : l.params = some A.params
  validators : l.validators = A.seats.map Seat.holder
  lifecycles : l.lifecycles = A.seats.map Seat.state
  applications : l.applications = A.applications
  kicks : l.kickProposals = A.kicks

/-- Two results agree: the same failure, or the same events and a match. -/
inductive Agree : Except Failure (List Event × Ledger) → Except Failure (List Event × Assembly) →
    Prop
  | failed (failure : Failure) : Agree (.error failure) (.error failure)
  | carriedOut {l : Ledger} {A : Assembly} (events : List Event) (h : l.Matches A) :
    Agree (.ok (events, l)) (.ok (events, A))

namespace Matches

theorem inForce_eq (h : l.Matches A) : l.inForce = A.params := by
  rw [inForce, h.params]
  rfl

theorem size_eq (h : l.Matches A) : l.validators.size = A.seats.size := by
  rw [h.validators, Table.size_map]

theorem get?_validators (h : l.Matches A) (operator : OperatorAddress) :
    l.validators.get? operator = (A.seats.get? operator).map Seat.holder := by
  rw [h.validators, Table.get?_map]

theorem get?_lifecycles (h : l.Matches A) (operator : OperatorAddress) :
    l.lifecycles.get? operator = (A.seats.get? operator).map Seat.state := by
  rw [h.lifecycles, Table.get?_map]

/-! ## Searching instead of looking up -/

/-- Looking up an operator and an address in the registry finds somebody exactly if a holder
resembles the candidate. -/
theorem taken_iff (h : l.Matches A) (hd : l.Distinct) (hl : l.Sound) (v : Validator) :
    ((l.validators.get? v.operator).isSome ∨ (l.validatorAt? v.address).isSome) ↔
      ∃ seat ∈ A.seats.values, seat.holder.Resembles v := by
  simp only [Option.isSome_iff_exists, validatorAt?, hd.validators.find_eq_some_iff, Table.mem_values]
  constructor
  · rintro (⟨w, hw⟩ | ⟨w, op, hw, ha⟩)
    · have hop := hl.validator_keyed hw
      rw [h.get?_validators] at hw
      obtain ⟨seat, hseat, rfl⟩ := Option.map_eq_some_iff.mp hw
      exact ⟨seat, ⟨_, hseat⟩, .inl hop⟩
    · rw [h.get?_validators] at hw
      obtain ⟨seat, hseat, rfl⟩ := Option.map_eq_some_iff.mp hw
      exact ⟨seat, ⟨_, hseat⟩, .inr ha⟩
  · rintro ⟨seat, ⟨op, hseat⟩, hsame⟩
    have hw : l.validators.get? op = some seat.holder := by
      rw [h.get?_validators, hseat]
      rfl
    rcases hsame with hop | ha
    · exact .inl ⟨seat.holder, by rwa [← hop, hl.validator_keyed hw]⟩
    · exact .inr ⟨seat.holder, op, hw, ha⟩

/-- Looking up an operator and an address among the applications finds somebody exactly if a
subject resembles the candidate. -/
theorem applying_iff (h : l.Matches A) (hd : l.Distinct) (hl : l.Sound) (v : Validator) :
    ((l.applications.get? v.operator).isSome ∨ (l.applicationAt? v.address).isSome) ↔
      ∃ b ∈ A.applications.values, b.subject.Resembles v := by
  simp only [Option.isSome_iff_exists, applicationAt?, hd.applications.find_eq_some_iff,
    Table.mem_values, ← h.applications]
  constructor
  · rintro (⟨b, hb⟩ | ⟨b, op, hb, ha⟩)
    · exact ⟨b, ⟨_, hb⟩, .inl (hl.application_keyed hb)⟩
    · exact ⟨b, ⟨op, hb⟩, .inr ha⟩
  · rintro ⟨b, ⟨op, hb⟩, hop | ha⟩
    · exact .inl ⟨b, by rwa [← hop, hl.application_keyed hb]⟩
    · exact .inr ⟨b, op, hb, ha⟩

/-! ## Updates -/

theorem seat (h : l.Matches A) (v : Validator) (state : Lifecycle) :
    (l.seat v state).Matches (A.seat v state) where
  params := h.params
  validators := by rw [validators_seat, h.validators, Assembly.seat, Table.map_insert]
  lifecycles := by rw [lifecycles_seat, h.lifecycles, Assembly.seat, Table.map_insert]
  applications := h.applications
  kicks := h.kicks

theorem expel (h : l.Matches A) {operator : OperatorAddress}
    (hseated : (l.validators.get? operator).isSome) :
    (l.setLifecycle operator .leaving).Matches (A.expel operator) := by
  rw [h.get?_validators, Option.isSome_map] at hseated
  obtain ⟨seat, hseat⟩ := Option.isSome_iff_exists.mp hseated
  rw [Assembly.expel, hseat]
  refine ⟨h.params, ?_, ?_, h.applications, h.kicks⟩
  · rw [validators_setLifecycle, h.validators, Table.map_insert]
    refine Table.ext_get? fun op => ?_
    by_cases hop : op = operator <;> simp [hop, hseat]
  · rw [lifecycles_setLifecycle, h.lifecycles, Table.map_insert]

theorem openApplication (h : l.Matches A) (b : Ballot) : (l.setBallot .application b).Matches
    { A with applications := A.applications.insert b.subject.operator b } :=
  ⟨h.params, h.validators, h.lifecycles, by rw [← h.applications]; rfl, h.kicks⟩

theorem closeApplication (h : l.Matches A) (operator : OperatorAddress) :
    (l.closeBallot .application operator).Matches
      { A with applications := A.applications.erase operator } :=
  ⟨h.params, h.validators, h.lifecycles, by rw [← h.applications]; rfl, h.kicks⟩

theorem openKick (h : l.Matches A) (b : Ballot) : (l.setBallot .kickProposal b).Matches
    { A with kicks := A.kicks.insert b.subject.operator b } :=
  ⟨h.params, h.validators, h.lifecycles, h.applications, by rw [← h.kicks]; rfl⟩

theorem closeKick (h : l.Matches A) (operator : OperatorAddress) :
    (l.closeBallot .kickProposal operator).Matches { A with kicks := A.kicks.erase operator } :=
  ⟨h.params, h.validators, h.lifecycles, h.applications, by rw [← h.kicks]; rfl⟩

/-! ## Commands -/

theorem submit (h : l.Matches A) (ho : l.Orderly) (hl : l.Sound) (candidate : Validator) :
    Agree (l.submit candidate) (A.submit candidate) := by
  simp only [Ledger.submit, Assembly.submit, h.inForce_eq, h.size_eq,
    h.taken_iff ho.distinct hl candidate, h.applying_iff ho.distinct hl candidate]
  split
  · exact .failed _
  split
  · exact .failed _
  split
  · exact .carriedOut _ (h.seat candidate .joining)
  split
  · exact .failed _
  · exact .carriedOut _ (h.openApplication (.start candidate))

theorem concludeApplication (h : l.Matches A) {candidate : OperatorAddress} {b : Ballot}
    (hkeyed : b.subject.operator = candidate) (verdict : Verdict) :
    (l.concludeApplication candidate b verdict).1 = (A.concludeApplication candidate b verdict).1 ∧
      (l.concludeApplication candidate b verdict).2.Matches
        (A.concludeApplication candidate b verdict).2 := by
  cases verdict with
  | approved => exact ⟨rfl, (h.closeApplication candidate).seat b.subject .joining⟩
  | rejected => exact ⟨rfl, h.closeApplication candidate⟩
  | pending => exact ⟨rfl, hkeyed ▸ h.openApplication b⟩

theorem voteApplication (h : l.Matches A) (hl : l.Sound) (voter candidate : OperatorAddress)
    (approve : Bool) :
    Agree (l.voteApplication voter candidate approve)
      (A.voteApplication voter candidate approve) := by
  simp only [Ledger.voteApplication, Assembly.voteApplication, h.inForce_eq, h.size_eq,
    h.get?_validators, Option.isNone_map]
  split
  · exact .failed _
  split
  · exact .failed _
  rw [← h.applications]
  cases hopened : l.applications.get? candidate with
  | none => exact .failed _
  | some before =>
    simp only
    cases hcast : before.cast? voter approve with
    | none => exact .failed _
    | some after =>
      simp only
      cases after.verdict (.ofNat A.seats.size) A.params.quorum.toUInt64 with
      | error failure => exact .failed _
      | ok verdict =>
        have hkeyed : after.subject.operator = candidate := by
          rw [Ballot.subject_cast hcast, hl.application_keyed hopened]
        obtain ⟨hevents, hmatches⟩ := h.concludeApplication hkeyed verdict
        simp only [hevents]
        exact .carriedOut _ hmatches

theorem propose (h : l.Matches A) (hl : l.Sound) (candidate proposer : OperatorAddress) :
    Agree (l.propose candidate proposer) (A.propose candidate proposer) := by
  simp only [Ledger.propose, Assembly.propose, h.inForce_eq, h.get?_validators,
    h.get?_lifecycles, Option.isNone_map, h.kicks]
  split
  · exact .failed _
  split
  · exact .failed _
  cases hseat : A.seats.get? candidate with
  | none => exact .failed _
  | some seat =>
    have hseated : l.validators.get? candidate = some seat.holder := by
      rw [h.get?_validators, hseat]
      rfl
    simp only [Option.map_some]
    split
    · exact .failed _
    split
    · exact .carriedOut _ (h.expel (by rw [hseated]; rfl))
    split
    · exact .failed _
    · have hopened := h.openKick (.start seat.holder)
      rw [show (Ballot.start seat.holder).subject.operator = candidate
        from hl.validator_keyed hseated] at hopened
      exact .carriedOut _ hopened

theorem concludeKick (h : l.Matches A) {candidate : OperatorAddress} {b : Ballot}
    (hkeyed : b.subject.operator = candidate) (hseated : (l.validators.get? candidate).isSome)
    (verdict : Verdict) :
    (l.concludeKick candidate b verdict).1 = (A.concludeKick candidate b verdict).1 ∧
      (l.concludeKick candidate b verdict).2.Matches (A.concludeKick candidate b verdict).2 := by
  cases verdict with
  | approved => exact ⟨rfl, (h.closeKick candidate).expel (by simpa using hseated)⟩
  | rejected => exact ⟨rfl, h.closeKick candidate⟩
  | pending => exact ⟨rfl, hkeyed ▸ h.openKick b⟩

theorem voteKick (h : l.Matches A) (ho : l.Orderly) (hl : l.Sound)
    (voter candidate : OperatorAddress) (approve : Bool) :
    Agree (l.voteKick voter candidate approve) (A.voteKick voter candidate approve) := by
  simp only [Ledger.voteKick, Assembly.voteKick, h.inForce_eq, h.size_eq, h.get?_validators,
    Option.isNone_map]
  split
  · exact .failed _
  split
  · exact .failed _
  rw [← h.kicks]
  cases hopened : l.kickProposals.get? candidate with
  | none => exact .failed _
  | some before =>
    simp only
    cases hcast : before.cast? voter approve with
    | none => exact .failed _
    | some after =>
      simp only
      cases after.verdict (.ofNat (A.seats.size - 1)) A.params.quorum.toUInt64 with
      | error failure => exact .failed _
      | ok verdict =>
        have hkeyed : after.subject.operator = candidate := by
          rw [Ballot.subject_cast hcast, hl.kick_keyed hopened]
        obtain ⟨hevents, hmatches⟩ := h.concludeKick hkeyed (ho.kicked hopened).1 verdict
        simp only [hevents]
        exact .carriedOut _ hmatches

theorem leave (h : l.Matches A) (validator : OperatorAddress) :
    Agree (l.leave validator) (A.leave validator) := by
  simp only [Ledger.leave, Assembly.leave, h.size_eq]
  have hsame : (l.validators.get? validator).isNone = (A.seats.get? validator).isNone := by
    rw [h.get?_validators, Option.isNone_map]
  by_cases hnone : (A.seats.get? validator).isNone
  · rw [if_pos hnone, if_pos (hsame.trans hnone)]
    exact .failed _
  · rw [if_neg hnone, if_neg (hsame ▸ hnone)]
    split
    · exact .failed _
    · refine .carriedOut _ ((h.closeKick validator).expel ?_)
      rw [validators_closeBallot]
      exact Option.isSome_iff_ne_none.mpr (mt Option.isNone_iff_eq_none.mpr (hsame ▸ hnone))

/-- A command does to an orderly ledger what it does to the assembly that it matches. -/
theorem execute (h : l.Matches A) (ho : l.Orderly) (hl : l.Sound) (c : Command) :
    Agree (l.execute c) (A.execute c) := by
  cases c with
  | submitApplication candidate => exact h.submit ho hl candidate
  | voteApplication voter candidate approve => exact h.voteApplication hl voter candidate approve
  | proposeKick candidate proposer => exact h.propose hl candidate proposer
  | voteKickProposal voter candidate approve => exact h.voteKick ho hl voter candidate approve
  | leaveValidatorSet validator => exact h.leave validator

/-! ## Epoch boundaries -/

theorem dueUpdates_eq (h : l.Matches A) (hl : l.Sound) : l.dueUpdates = A.endEpoch.1 := by
  rw [dueUpdates, h.validators, Table.values_map, List.filterMap_map, Assembly.endEpoch]
  refine List.filterMap_congr fun seat hmem => ?_
  obtain ⟨operator, hseat⟩ := Table.mem_values.mp hmem
  have hkeyed : seat.holder.operator = operator := hl.validator_keyed <| by
    rw [h.get?_validators, hseat]
    rfl
  rw [Function.comp_apply, dueUpdate?, h.get?_lifecycles, hkeyed, hseat]
  rfl

/-- An epoch boundary does to a ledger what it does to the assembly that it matches. -/
theorem settled (h : l.Matches A) (hl : l.Sound) : l.settled.Matches A.endEpoch.2 where
  params := h.params
  validators := by
    refine Table.ext_get? fun operator => ?_
    rw [hl.get?_validators_settled, h.get?_lifecycles, h.get?_validators, Assembly.endEpoch,
      Table.get?_map, Table.get?_filterMap]
    cases A.seats.get? operator with
    | none => rfl
    | some seat =>
      obtain ⟨holder, state⟩ := seat
      cases state <;> rfl
  lifecycles := by
    refine Table.ext_get? fun operator => ?_
    rw [hl.get?_lifecycles_settled, h.get?_lifecycles, h.get?_validators, Assembly.endEpoch,
      Table.get?_map, Table.get?_filterMap]
    cases A.seats.get? operator with
    | none => rfl
    | some seat =>
      obtain ⟨holder, state⟩ := seat
      cases state <;> rfl
  applications := h.applications
  kicks := h.kicks

/-! ## Acts -/

theorem answer {r : Except Failure (List Event × Ledger)}
    {r' : Except Failure (List Event × Assembly)} (h : l.Matches A) (hr : Agree r r') :
    (l.answer .events r).1 = (A.answer r').1 ∧
      (l.answer .events r).2.Matches (A.answer r').2 := by
  cases hr with
  | failed failure => exact ⟨rfl, h⟩
  | carriedOut events hmatches => exact ⟨rfl, hmatches⟩

/-- An act of an orderly ledger is the act of the assembly that it matches. -/
theorem act (h : l.Matches A) (ho : l.Orderly) (hl : l.Sound) (a : Act) :
    (l.act a).1 = (A.act a).1 ∧ (l.act a).2.Matches (A.act a).2 := by
  cases a with
  | execute c => exact h.answer (h.execute ho hl c)
  | handle c =>
    simp only [Ledger.act, Assembly.act, Ledger.handle, Assembly.handle]
    cases c.check with
    | error failure => exact h.answer (.failed failure)
    | ok _ => exact h.answer (h.execute ho hl c)
  | setParams params =>
    simp only [Ledger.act, Assembly.act]
    cases params.check with
    | error failure => exact ⟨rfl, h⟩
    | ok _ => exact ⟨rfl, rfl, h.validators, h.lifecycles, h.applications, h.kicks⟩
  | endEpoch =>
    rw [hl.act_endEpoch]
    exact ⟨congrArg (Except.ok <| Reply.updates ·) (h.dueUpdates_eq hl), h.settled hl⟩

/-! ## Founding and storage -/

theorem seatAll (h : l.Matches A) (vs : List Validator) :
    (l.seatAll vs).Matches (vs.foldl (fun A v => A.seat v .joined) A) := by
  induction vs generalizing l A with
  | nil => exact h
  | cons v rest ih => exact ih (h.seat v .joined)

/-- Founding starts with the ledger of the founded assembly. -/
theorem establish (g : Genesis) : (({} : Ledger).establish g).2.Matches (Assembly.found g) :=
  seatAll (l := ({} : Ledger).setParams g.params) (A := { params := g.params })
    ⟨rfl, rfl, rfl, rfl, rfl⟩ g.validators

end Matches

end Ledger

/-! ## Indexes -/

namespace Indexes

variable {β γ : Type} {index index' : Table ConsensusAddress OperatorAddress}
  {records : Table OperatorAddress β} {address : β → ConsensusAddress}

/-- A table has only one index. -/
theorem unique (h : Indexes index records address) (h' : Indexes index' records address) :
    index = index' :=
  Table.ext_get? fun a => Option.ext fun operator => (h a operator).trans (h' a operator).symm

theorem of_map {f : β → γ} {address : γ → ConsensusAddress}
    (h : Indexes index (records.map f) address) :
    Indexes index records fun r => address (f r) := by
  intro a operator
  rw [h a operator, Table.get?_map]
  simp only [Option.map_eq_some_iff]
  constructor
  · rintro ⟨_, ⟨r, hr, rfl⟩, ha⟩
    exact ⟨r, hr, ha⟩
  · rintro ⟨r, hr, ha⟩
    exact ⟨f r, ⟨r, hr, rfl⟩, ha⟩

/-- The index of a table can be computed from its records. -/
theorem eq_indexOf (h : Indexes index records address) :
    index = Assembly.indexOf records address := by
  refine h.unique fun a operator => ?_
  have hnodup : ((records.entries.map fun e => (address e.2, e.1)).map (·.1)).Nodup := by
    rw [List.map_map]
    exact List.pairwise_map.mpr h.address_ne
  rw [Assembly.indexOf, Table.get?_ofList hnodup, Table.lookupEntry_eq_some_iff_of_nodup hnodup]
  simp only [List.mem_map, Prod.mk.injEq, Prod.exists, Table.mem_entries_iff]
  constructor
  · rintro ⟨_, r, hr, ha, rfl⟩
    exact ⟨r, hr, ha⟩
  · rintro ⟨r, hr, ha⟩
    exact ⟨operator, r, hr, ha, rfl⟩

end Indexes

/-- A ledger with distinct identities that matches an assembly is its ledger. -/
theorem Ledger.Matches.eq_ledger {l : Ledger} {A : Assembly} (h : l.Matches A) (hd : l.Distinct) :
    l = A.ledger := by
  have hvalidators := hd.validators
  have happlications := hd.applications
  rw [h.validators] at hvalidators
  rw [h.applications] at happlications
  obtain ⟨params, validators, validatorIndex, lifecycles, applications, applicationIndex, kicks⟩ := l
  simp only [Assembly.ledger, Ledger.mk.injEq]
  exact ⟨h.params, h.validators, hvalidators.of_map.eq_indexOf, h.lifecycles, h.applications,
    happlications.eq_indexOf, h.kicks⟩

/-! ## Services -/

namespace Service

variable {s s₀ : Service Contents}

/-- **The service refines the assembly.** In a run that keeps balloting and whose keys are told
apart, founding and every later turn of the service give the reply of the assembly, and leave the
bytes that stand for the assembly after it. -/
theorem refines_assembly {g : Genesis} {updates : List PowerUpdate} {acts : List Act}
    (hempty : s.store = .empty) (hstart : s.initialise g = .ok (updates, s₀))
    (hkeys : KeysTellApart (usedKeys g acts)) (hballoting : s₀.KeepsBalloting acts) :
    updates = g.validators.map Validator.grant ∧ s₀.store = (Assembly.found g).contents ∧
    (s₀.turns acts).map (fun t => (t.reply, t.after.store)) =
      ((Assembly.found g).turns acts).map (fun t => (t.reply, t.after.contents)) := by
  obtain ⟨hcheck, hupdates, -⟩ := (initialise_eq_ok_iff hempty).mp hstart
  have hfounded := holds_initialise hempty hstart
  have horderly := (Ledger.Orderly.establish hcheck (hkeys.mono (List.subset_append_left _ _))).1
  have hmatches := Ledger.Matches.establish g
  have hstored : ∀ (s : Service Contents) (A : Assembly),
      (∃ l, s.Holds l ∧ l.Orderly ∧ l.Matches A) → s.store = A.contents := by
    rintro s A ⟨l, h, ho, hm⟩
    rw [h.store_eq, Assembly.contents, ← hm.eq_ledger ho.distinct]
  refine ⟨hupdates, hstored _ _ ⟨_, hfounded, horderly, hmatches⟩, ?_⟩
  refine turns_simulation (R := fun s A => ∃ l, s.Holds l ∧ l.Orderly ∧ l.Matches A)
    hstored ?_ ⟨_, hfounded, horderly, hmatches⟩ hballoting
  rintro s A a ⟨l, h, ho, hm⟩ hguard
  obtain ⟨hreply, hafter⟩ := hm.act ho h.sound a
  exact ⟨(h.act_eq a).1.trans hreply, _, h.act a, h.orderly_act ho hguard, hafter⟩

/-- A key changes hands: its holder joins and leaves, and another operator applies with it, at first
too early. -/
def handOver : List Act :=
  [.handle (.submitApplication (.uniform 2 2)),
   .handle (.voteApplication (Validator.uniform 1 1).operator (Validator.uniform 2 2).operator
     true),
   .endEpoch,
   .execute (.leaveValidatorSet (Validator.uniform 2 2).operator),
   .handle (.submitApplication (.uniform 3 2)),
   .endEpoch,
   .handle (.submitApplication (.uniform 3 2))]

theorem refines_assembly_handOver :
    ((founded .lone).turns handOver).map (fun t => (t.reply, t.after.store)) =
      ((Assembly.found .lone).turns handOver).map (fun t => (t.reply, t.after.contents)) :=
  (refines_assembly rfl (initialise_founded (by decide)) (by decide +kernel)
    (keepsBalloting_of_quorum_ne_zero (by simp [handOver]))).2.2

end Service

end AuthoritySet
