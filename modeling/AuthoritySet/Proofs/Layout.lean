import AuthoritySet.Proofs.Refinement
import Mathlib.Data.List.Nodup

/-!
# What stands in the store

As long as balloting goes on while ballots are open and keys are told apart, the pairs in the store
are those of an assembly (`Assembly.Stores`) that is well formed (`Assembly.WellFormed`): a record,
an index entry and a state for every seat, a ballot and an index entry for every application, a
ballot on a staying validator for every kick proposal, and nothing else.

* `Ledger.Matches.get?_contents_iff`: the bytes of a ledger are the pairs of the assembly that it
  matches.
* `Ledger.OnRecord`: kick proposals are about the records in the registry, a clause of its own in
  what steps preserve.
* `Service.stores_wellFormed`: what stands in the store at every moment of a run.
-/

namespace AuthoritySet

namespace Assembly

/-- The records of all validators and candidates. -/
def members (A : Assembly) : List Validator :=
  A.seats.values.map Seat.holder ++ A.applications.values.map Ballot.subject

/-- The assemblies in which everything stands under the operator that it names, kick proposals are
about seats whose holders stay, ballots can be read back, and no identity is used twice. -/
structure WellFormed (A : Assembly) : Prop where
  seat_keyed {operator : OperatorAddress} {seat : Seat} :
    A.seats.get? operator = some seat → seat.holder.operator = operator
  application_keyed {operator : OperatorAddress} {b : Ballot} :
    A.applications.get? operator = some b → b.subject.operator = operator
  kicked {operator : OperatorAddress} {b : Ballot} : A.kicks.get? operator = some b →
    ∃ seat, A.seats.get? operator = some seat ∧ seat.state ≠ .leaving ∧ b.subject = seat.holder
  readsBack {b : Ballot} : b ∈ A.applications.values ++ A.kicks.values → Record.ReadsBack b
  nodup_operators : (A.members.map (·.operator)).Nodup
  nodup_addresses : (A.members.map (·.address)).Nodup

/-- The pairs that stand for an assembly. -/
inductive Stores (A : Assembly) : Bytes → Bytes → Prop
  | params : A.Stores Section.params.beginning (Record.encode A.params)
  | record {operator : OperatorAddress} {seat : Seat} (taken : A.seats.get? operator = some seat) :
    A.Stores (Section.validators.key operator) (Record.encode seat.holder)
  | seatIndex {operator : OperatorAddress} {seat : Seat}
    (taken : A.seats.get? operator = some seat) :
    A.Stores (Section.validatorIndex.key seat.holder.address) operator.bytes
  | state {operator : OperatorAddress} {seat : Seat} (taken : A.seats.get? operator = some seat) :
    A.Stores (Section.lifecycles.key operator) [seat.state.byte]
  | application {operator : OperatorAddress} {b : Ballot}
    (opened : A.applications.get? operator = some b) :
    A.Stores (Section.applications.key operator) (Record.encode b)
  | applicationIndex {operator : OperatorAddress} {b : Ballot}
    (opened : A.applications.get? operator = some b) :
    A.Stores (Section.applicationIndex.key b.subject.address) operator.bytes
  | kick {operator : OperatorAddress} {b : Ballot} (opened : A.kicks.get? operator = some b) :
    A.Stores (Section.kickProposals.key operator) (Record.encode b)

end Assembly

namespace Ledger

variable {l l' : Ledger} {A : Assembly}

/-! ## Bytes -/

/-- What a ledger has in a part is a pair of the assembly that it matches. -/
theorem Matches.stores (h : l.Matches A) (hd : l.Distinct) {part : Section} {id value : Bytes}
    (hvalue : l.value? part id = some value) : A.Stores (part.tag :: id) value := by
  cases part with
  | params =>
    simp only [value?, h.params] at hvalue
    split at hvalue
    · rename_i hid
      subst hid
      cases hvalue
      exact .params
    · cases hvalue
  | validators =>
    obtain ⟨operator, v, rfl, hv, rfl⟩ := valueAt_eq_some_iff.mp hvalue
    rw [h.get?_validators] at hv
    obtain ⟨seat, hseat, rfl⟩ := Option.map_eq_some_iff.mp hv
    exact .record hseat
  | validatorIndex =>
    obtain ⟨address, operator, rfl, hindex, rfl⟩ := valueAt_eq_some_iff.mp hvalue
    obtain ⟨v, hv, rfl⟩ := (hd.validators address operator).mp hindex
    rw [h.get?_validators] at hv
    obtain ⟨seat, hseat, rfl⟩ := Option.map_eq_some_iff.mp hv
    exact .seatIndex hseat
  | lifecycles =>
    obtain ⟨operator, state, rfl, hstate, rfl⟩ := valueAt_eq_some_iff.mp hvalue
    rw [h.get?_lifecycles] at hstate
    obtain ⟨seat, hseat, rfl⟩ := Option.map_eq_some_iff.mp hstate
    exact .state hseat
  | applications =>
    obtain ⟨operator, b, rfl, hb, rfl⟩ := valueAt_eq_some_iff.mp hvalue
    exact .application (h.applications ▸ hb)
  | applicationIndex =>
    obtain ⟨address, operator, rfl, hindex, rfl⟩ := valueAt_eq_some_iff.mp hvalue
    obtain ⟨b, hb, rfl⟩ := (hd.applications address operator).mp hindex
    exact .applicationIndex (h.applications ▸ hb)
  | kickProposals =>
    obtain ⟨operator, b, rfl, hb, rfl⟩ := valueAt_eq_some_iff.mp hvalue
    exact .kick (h.kicks ▸ hb)

/-- Every pair of an assembly stands in the ledgers that match it. -/
theorem Matches.get?_of_stores (h : l.Matches A) (hd : l.Distinct) {key value : Bytes}
    (hpair : A.Stores key value) : l.contents.get? key = some value := by
  have hseated : ∀ {operator seat}, A.seats.get? operator = some seat →
      l.validators.get? operator = some seat.holder := fun taken => by
    rw [h.get?_validators, taken]
    rfl
  cases hpair with
  | params =>
    rw [Section.beginning, get?_contents, value?, h.params]
    rfl
  | record taken =>
    rw [Section.key, get?_contents, value?, valueAt_bytes, hseated taken]
    rfl
  | seatIndex taken =>
    rw [Section.key, get?_contents, value?, valueAt_bytes,
      (hd.validators _ _).mpr ⟨_, hseated taken, rfl⟩]
    rfl
  | state taken =>
    rw [Section.key, get?_contents, value?, valueAt_bytes, h.get?_lifecycles, taken]
    rfl
  | application opened =>
    rw [Section.key, get?_contents, value?, valueAt_bytes, h.applications, opened]
    rfl
  | applicationIndex opened =>
    rw [Section.key, get?_contents, value?, valueAt_bytes,
      (hd.applications _ _).mpr ⟨_, h.applications ▸ opened, rfl⟩]
    rfl
  | kick opened =>
    rw [Section.key, get?_contents, value?, valueAt_bytes, h.kicks, opened]
    rfl

/-- The bytes of a ledger are the pairs of the assembly that it matches. -/
theorem Matches.get?_contents_iff (h : l.Matches A) (hd : l.Distinct) {key value : Bytes} :
    l.contents.get? key = some value ↔ A.Stores key value := by
  refine ⟨fun hget => ?_, h.get?_of_stores hd⟩
  obtain ⟨part, id, rfl, hvalue⟩ := get?_contents_eq_some_iff.mp hget
  exact h.stores hd hvalue

/-! ## Kick proposals and records -/

/-- Kick proposals are about the records in the registry. -/
def OnRecord (l : Ledger) : Prop :=
  ∀ operator b, l.kickProposals.get? operator = some b →
    l.validators.get? operator = some b.subject

namespace OnRecord

theorem seat (h : l.OnRecord) {v : Validator} (state : Lifecycle)
    (hnew : l.validators.get? v.operator = none) : (l.seat v state).OnRecord := by
  intro operator b hb
  have hrecord := h operator b hb
  have hop : operator ≠ v.operator := by
    rintro rfl
    rw [hnew] at hrecord
    cases hrecord
  rwa [validators_seat, Table.get?_insert, if_neg hop]

theorem setBallot (h : l.OnRecord) (kind : Ballot.Kind) {b : Ballot}
    (hb : kind = .kickProposal → l.validators.get? b.subject.operator = some b.subject) :
    (l.setBallot kind b).OnRecord := by
  intro operator b' hb'
  have hb' : ((l.setBallot kind b).ballots .kickProposal).get? operator = some b' := hb'
  rw [validators_setBallot]
  rcases ballots_setBallot_cases hb' with ⟨hkind, rfl, rfl⟩ | ⟨-, hb'⟩
  · exact hb hkind.symm
  · exact h operator b' hb'

theorem closeBallot (h : l.OnRecord) (kind : Ballot.Kind) (operator : OperatorAddress) :
    (l.closeBallot kind operator).OnRecord := by
  intro operator' b hb
  have hb : ((l.closeBallot kind operator).ballots .kickProposal).get? operator' = some b := hb
  rw [validators_closeBallot]
  exact h operator' b (ballots_of_closeBallot hb)

theorem concludeApplication (h : l.OnRecord) (hd : l.Distinct) (hl : l.Sound)
    {candidate : OperatorAddress} {before after : Ballot}
    (hopened : l.applications.get? candidate = some before)
    (hsubject : after.subject = before.subject) (verdict : Verdict) :
    (l.concludeApplication candidate after verdict).2.OnRecord := by
  cases verdict with
  | approved =>
    refine (h.closeBallot .application candidate).seat .joining ?_
    rw [validators_closeBallot, hsubject]
    exact (hd.newToRegistry_of_opened hl hopened).1
  | rejected => exact h.closeBallot .application candidate
  | pending => exact h.setBallot .application fun hkind => by cases hkind

theorem concludeKick (h : l.OnRecord) (hl : l.Sound) {candidate : OperatorAddress}
    {before after : Ballot} (hopened : l.kickProposals.get? candidate = some before)
    (hsubject : after.subject = before.subject) (verdict : Verdict) :
    (l.concludeKick candidate after verdict).2.OnRecord := by
  cases verdict with
  | approved => exact h.closeBallot .kickProposal candidate
  | rejected => exact h.closeBallot .kickProposal candidate
  | pending =>
    refine h.setBallot .kickProposal fun _ => ?_
    rw [hsubject, hl.kick_keyed hopened]
    exact h candidate before hopened

/-- Commands keep kick proposals on record where identities are distinct. -/
theorem step (h : l.OnRecord) (hd : l.Distinct) (hl : l.Sound) {c : Command} {events : List Event}
    (hs : l.Step c events l') : l'.OnRecord := by
  cases hs with
  | seatAtOnce _ newOperator => exact h.seat .joining newOperator
  | apply => exact h.setBallot .application fun hkind => by cases hkind
  | voteApplication _ _ opened cast =>
    exact h.concludeApplication hd hl opened (Ballot.subject_cast cast) _
  | expel => exact h
  | propose _ _ found =>
    refine h.setBallot .kickProposal fun _ => ?_
    rw [Ballot.start, hl.validator_keyed found, found]
  | voteKick _ _ opened cast => exact h.concludeKick hl opened (Ballot.subject_cast cast) _
  | leave => exact h.closeBallot .kickProposal _

/-- Epoch boundaries keep kick proposals on record where their targets stay. -/
theorem settled (h : l.OnRecord) (ht : l.Tidy) (hl : l.Sound) : l.settled.OnRecord := by
  intro operator b hb
  have hb : l.kickProposals.get? operator = some b := hb
  rw [hl.get?_validators_settled, if_neg (ht.kicked hb).2]
  exact h operator b hb

end OnRecord

/-! ## The assembly of a ledger -/

/-- The parameters, seats and ballots of a ledger. -/
def assembly (l : Ledger) : Assembly where
  params := l.inForce
  seats := l.validators.filterMap fun operator v =>
    (l.lifecycles.get? operator).map fun state => ⟨v, state⟩
  applications := l.applications
  kicks := l.kickProposals

theorem get?_seats_assembly {operator : OperatorAddress} {seat : Seat} :
    l.assembly.seats.get? operator = some seat ↔
      l.validators.get? operator = some seat.holder ∧
        l.lifecycles.get? operator = some seat.state := by
  obtain ⟨holder, state⟩ := seat
  simp [assembly, Option.bind_eq_some_iff]

/-- An orderly ledger matches its assembly: nobody is seated without a state, or has a state without
being seated. -/
theorem Orderly.matches_assembly (h : l.Orderly) (hl : l.Sound) : l.Matches l.assembly where
  params := by
    obtain ⟨params, hparams⟩ := Option.isSome_iff_exists.mp h.params_isSome
    simp [assembly, inForce, hparams]
  validators := by
    refine Table.ext_get? fun operator => Option.ext fun v => ?_
    rw [Table.get?_map, Option.map_eq_some_iff]
    simp only [get?_seats_assembly]
    constructor
    · intro hv
      obtain ⟨state, hstate⟩ := Option.isSome_iff_exists.mp (hl.state_isSome hv)
      exact ⟨⟨v, state⟩, ⟨hv, hstate⟩, rfl⟩
    · rintro ⟨seat, ⟨hv, -⟩, rfl⟩
      exact hv
  lifecycles := by
    refine Table.ext_get? fun operator => Option.ext fun state => ?_
    rw [Table.get?_map, Option.map_eq_some_iff]
    simp only [get?_seats_assembly]
    constructor
    · intro hstate
      obtain ⟨v, hv⟩ := Option.isSome_iff_exists.mp (h.seated_of_state hstate)
      exact ⟨⟨v, state⟩, ⟨hv, hstate⟩, rfl⟩
    · rintro ⟨seat, ⟨-, hstate⟩, rfl⟩
      exact hstate
  applications := rfl
  kicks := rfl

theorem Orderly.members_assembly (h : l.Orderly) (hl : l.Sound) : l.assembly.members =
    l.validators.values ++ l.applications.values.map Ballot.subject := by
  rw [Assembly.members, ← Table.values_map, ← (h.matches_assembly hl).validators]
  rfl

/-- Validators and candidates have nothing in common. -/
theorem Orderly.apart_values (h : l.Orderly) (hl : l.Sound) {v w : Validator}
    (hv : v ∈ l.validators.values) (hw : w ∈ l.applications.values.map Ballot.subject) :
    v.operator ≠ w.operator ∧ v.address ≠ w.address := by
  obtain ⟨b, hb, rfl⟩ := List.mem_map.mp hw
  obtain ⟨operator, hb⟩ := Table.mem_values.mp hb
  have hkeyed : b.subject.operator = operator := hl.application_keyed hb
  obtain ⟨hop, ha⟩ := h.distinct.apart hb (hl.mem_values.mp hv)
  exact ⟨hkeyed ▸ hop.symm, ha.symm⟩

/-- The assembly of an orderly ledger is well formed. -/
theorem Orderly.wellFormed_assembly (h : l.Orderly) (hl : l.Sound) (hr : l.OnRecord) :
    l.assembly.WellFormed where
  seat_keyed hseat := hl.validator_keyed (get?_seats_assembly.mp hseat).1
  application_keyed hb := hl.application_keyed hb
  kicked {operator b} hb := by
    have hrecord := hr operator b hb
    obtain ⟨state, hstate⟩ := Option.isSome_iff_exists.mp (hl.state_isSome hrecord)
    refine ⟨⟨b.subject, state⟩, get?_seats_assembly.mpr ⟨hrecord, hstate⟩, ?_, rfl⟩
    rintro rfl
    exact (h.kicked hb).2 hstate
  readsBack {b} hb := by
    obtain ⟨kind, operator, hb⟩ : ∃ kind operator, (l.ballots kind).get? operator = some b := by
      rcases List.mem_append.mp hb with hb | hb
      · exact ⟨.application, Table.mem_values.mp hb⟩
      · exact ⟨.kickProposal, Table.mem_values.mp hb⟩
    exact hl.legible.readsBack hb
  nodup_operators := by
    rw [h.members_assembly hl, List.map_append, List.map_map]
    refine List.nodup_append.mpr ⟨hl.nodup_operators, ?_, ?_⟩
    · have hkeys := l.applications.nodup_keys
      rwa [← Table.map_values_of_keyed (f := fun b : Ballot => b.subject.operator)
        hl.application_keyed] at hkeys
    · rw [← List.map_map]
      exact List.forall_mem_map.mpr fun v hv => List.forall_mem_map.mpr fun w hw =>
        (h.apart_values hl hv hw).1
  nodup_addresses := by
    rw [h.members_assembly hl, List.map_append, List.map_map]
    refine List.nodup_append.mpr ⟨h.distinct.validators.nodup_addresses,
      h.distinct.applications.nodup_addresses, ?_⟩
    rw [← List.map_map]
    exact List.forall_mem_map.mpr fun v hv => List.forall_mem_map.mpr fun w hw =>
      (h.apart_values hl hv hw).2

end Ledger

/-! ## Services -/

namespace Service

variable {s s₀ : Service Contents} {l : Ledger}

/-- Kick proposals stay on record in every act. -/
theorem Holds.onRecord_act (h : s.Holds l) (ho : l.Orderly) (hr : l.OnRecord) (a : Act) :
    (l.act a).2.OnRecord :=
  h.sound.act_keeps a hr (fun _ hstep _ => hr.step ho.distinct h.sound hstep) (fun _ _ _ => hr)
    (hr.settled ho.toTidy h.sound)

/-- Nothing but the pairs of a well-formed assembly stands in the store. -/
theorem Holds.stores_assembly (h : s.Holds l) (ho : l.Orderly) (hr : l.OnRecord) :
    ∃ A : Assembly, A.WellFormed ∧
      ∀ key value, (key, value) ∈ s.store.entries ↔ A.Stores key value := by
  refine ⟨l.assembly, ho.wellFormed_assembly h.sound hr, fun key value => ?_⟩
  rw [Table.mem_entries_iff, h.store_eq]
  exact (ho.matches_assembly h.sound).get?_contents_iff ho.distinct

/-- **What stands in the store.** At every moment of a run that keeps balloting and whose keys are
told apart, the pairs in the store are those of a well-formed assembly. -/
theorem stores_wellFormed {g : Genesis} {updates : List PowerUpdate} {past acts : List Act}
    (hempty : s.store = .empty) (hstart : s.initialise g = .ok (updates, s₀))
    (hkeys : KeysTellApart (usedKeys g acts)) (hballoting : s₀.KeepsBalloting acts)
    (hpast : past <+: acts) :
    ∃ A : Assembly, A.WellFormed ∧
      ∀ key value, (key, value) ∈ (s₀.finish past).store.entries ↔ A.Stores key value := by
  obtain ⟨hcheck, -, -⟩ := (initialise_eq_ok_iff hempty).mp hstart
  have hfounded := holds_initialise hempty hstart
  have hgenesis := Ledger.Orderly.establish hcheck (hkeys.mono (List.subset_append_left _ _))
  obtain ⟨l, hl, ho, hr⟩ : ∃ l, (s₀.finish past).Holds l ∧ l.Orderly ∧ l.OnRecord := by
    refine hfounded.keeps (I := fun l => l.Orderly ∧ l.OnRecord) ?_
      ⟨hgenesis.1, fun operator b hb => ?_⟩ (hballoting.past hpast)
    · rintro s l a hl ⟨ho, hr⟩ hguard
      exact ⟨hl.orderly_act ho hguard, hl.onRecord_act ho hr a⟩
    · -- founding opens no ballots
      have hnone := hgenesis.2 .kickProposal operator
      cases hnone.symm.trans hb
  exact hl.stores_assembly ho hr

/-- A second validator joins, and while the first one asks for its expulsion a third applies. -/
def applyAndKick : List Act :=
  [.handle (.submitApplication (.uniform 2 2)),
   .handle (.voteApplication (Validator.uniform 1 1).operator (Validator.uniform 2 2).operator
     true),
   .endEpoch,
   .handle (.submitApplication (.uniform 3 3)),
   .handle (.proposeKick (Validator.uniform 2 2).operator (Validator.uniform 1 1).operator)]

theorem stores_wellFormed_applyAndKick : ∃ A : Assembly, A.WellFormed ∧
    ∀ key value, (key, value) ∈ ((founded .lone).finish applyAndKick).store.entries ↔
      A.Stores key value :=
  stores_wellFormed rfl (initialise_founded (by decide)) (by decide +kernel)
    (keepsBalloting_of_quorum_ne_zero (by simp [applyAndKick])) List.prefix_rfl

end Service

end AuthoritySet
