import AuthoritySet.Proofs.Ledger.Epoch

/-!
# Identities in a ledger

An index answers which record has a consensus address. It indexes a table (`Indexes`) if it lists
exactly the addresses of the records; then no two records share one. In a ledger with distinct
identities (`Ledger.Distinct`) both indexes do, and no application shares an operator or an address
with a seated validator.

* `Indexes.find_eq_some_iff`: looking up an address is searching the records.
* `Ledger.ApplicationsIndexed.step`: all commands keep applications indexed.
* `Ledger.Distinct.step`: commands keep identities distinct, as long as nobody is seated at once
  past an open application.
* `Ledger.Distinct.settled`, `Ledger.Distinct.establish`: so do epoch boundaries and founding.
-/

namespace AuthoritySet

/-! ## Indexes -/

/-- An index lists the addresses of the records of a table, and nothing else. -/
def Indexes {β : Type} (index : Table ConsensusAddress OperatorAddress)
    (records : Table OperatorAddress β) (address : β → ConsensusAddress) : Prop :=
  ∀ a operator, index.get? a = some operator ↔
    ∃ r, records.get? operator = some r ∧ address r = a

namespace Indexes

variable {β : Type} {index : Table ConsensusAddress OperatorAddress}
  {records : Table OperatorAddress β} {address : β → ConsensusAddress} {r r' : β}
  {operator operator' : OperatorAddress}

theorem empty : Indexes .empty (.empty : Table OperatorAddress β) address := by
  intro a operator
  simp

/-- Records with one address are one record. -/
theorem operator_eq (h : Indexes index records address) (hr : records.get? operator = some r)
    (hr' : records.get? operator' = some r') (ha : address r = address r') :
    operator = operator' := by
  have hindex := (h (address r) operator).mpr ⟨r, hr, rfl⟩
  rw [(h (address r) operator').mpr ⟨r', hr', ha.symm⟩] at hindex
  exact (Option.some.inj hindex).symm

/-- Two entries of a table have two addresses. -/
theorem address_ne (h : Indexes index records address) :
    records.entries.Pairwise fun d e => address d.2 ≠ address e.2 := by
  refine records.ascending.imp_of_mem fun {d e} hd he hlt ha => ?_
  have hop := h.operator_eq (Table.mem_entries_iff.mp hd) (Table.mem_entries_iff.mp he) ha
  exact Std.lt_irrefl (hop ▸ hlt)

/-- No two records have one address. -/
theorem nodup_addresses (h : Indexes index records address) :
    (records.values.map address).Nodup := by
  rw [Table.values, List.map_map]
  exact List.pairwise_map.mpr h.address_ne

/-- Looking up an address is searching the records. -/
theorem find_eq_some_iff (h : Indexes index records address) {a : ConsensusAddress} :
    (index.get? a).bind records.get? = some r ↔
      ∃ operator, records.get? operator = some r ∧ address r = a := by
  rw [Option.bind_eq_some_iff]
  constructor
  · rintro ⟨operator, hindex, hr⟩
    obtain ⟨r', hr', ha⟩ := (h a operator).mp hindex
    rw [hr] at hr'
    cases hr'
    exact ⟨operator, hr, ha⟩
  · rintro ⟨operator, hr, ha⟩
    exact ⟨operator, (h a operator).mpr ⟨r, hr, ha⟩, hr⟩

theorem find_eq_none_iff (h : Indexes index records address) {a : ConsensusAddress} :
    (index.get? a).bind records.get? = none ↔
      ∀ operator r, records.get? operator = some r → address r ≠ a := by
  simp only [Option.eq_none_iff_forall_ne_some, ne_eq, h.find_eq_some_iff]
  constructor
  · exact fun hnone operator r hr ha => hnone r ⟨operator, hr, ha⟩
  · rintro hnone r ⟨operator, hr, ha⟩
    exact hnone operator r hr ha

/-- A record may be put in if nobody else has its address and it keeps that of the record it
replaces. -/
theorem insert (h : Indexes index records address)
    (hsame : ∀ r', records.get? operator = some r' → address r' = address r)
    (hnew : ∀ operator' r', records.get? operator' = some r' → address r' = address r →
      operator' = operator) :
    Indexes (index.insert (address r) operator) (records.insert operator r) address := by
  intro a op
  rw [Table.get?_insert, Table.get?_insert]
  -- the address of the new record leads to it alone; a record it replaces had no other address
  by_cases ha : a = address r
  · rw [if_pos ha, ha]
    constructor
    · intro hop
      cases hop
      exact ⟨r, if_pos rfl, rfl⟩
    · rintro ⟨r', hr', ha'⟩
      split at hr'
      · rename_i hop
        rw [hop]
      · rw [hnew op r' hr' ha']
  · rw [if_neg ha, h a op]
    by_cases hop : op = operator
    · subst hop
      rw [if_pos rfl]
      constructor
      · rintro ⟨r', hr', ha'⟩
        exact absurd (ha'.symm.trans (hsame r' hr')) ha
      · rintro ⟨r', hr', ha'⟩
        cases hr'
        exact absurd ha'.symm ha
    · rw [if_neg hop]

/-- A record is removed together with its address. -/
theorem erase (h : Indexes index records address) (hr : records.get? operator = some r) :
    Indexes (index.erase (address r)) (records.erase operator) address := by
  intro a op
  rw [Table.get?_erase, Table.get?_erase]
  by_cases ha : a = address r
  · rw [if_pos ha]
    refine iff_of_false (by simp) ?_
    rintro ⟨r', hr', ha'⟩
    split at hr'
    · cases hr'
    · rename_i hop
      exact hop (h.operator_eq hr' hr (ha'.trans ha))
  · rw [if_neg ha, h a op]
    by_cases hop : op = operator
    · subst hop
      rw [if_pos rfl]
      refine iff_of_false ?_ (by simp)
      rintro ⟨r', hr', ha'⟩
      rw [hr] at hr'
      cases hr'
      exact ha ha'.symm
    · rw [if_neg hop]

theorem erase_none (h : Indexes index records address) (hr : records.get? operator = none) :
    Indexes index (records.erase operator) address := by
  intro a op
  rw [Table.get?_erase, h a op]
  by_cases hop : op = operator
  · subst hop
    simp [hr]
  · rw [if_neg hop]

end Indexes

namespace Ledger

variable {l l' : Ledger}

/-! ## Applications

No two applications are opened on one address, and a vote keeps the subject of a ballot. So the
applications are always indexed, even where somebody is seated past one of them. -/

/-- The index of applications lists the addresses of their subjects, and nothing else. -/
def ApplicationsIndexed (l : Ledger) : Prop :=
  Indexes l.applicationIndex l.applications (·.subject.address)

namespace ApplicationsIndexed

theorem closeApplication (h : l.ApplicationsIndexed) (operator : OperatorAddress) :
    (l.closeBallot .application operator).ApplicationsIndexed := by
  unfold ApplicationsIndexed
  cases hb : l.applications.get? operator with
  | none => simpa [closeBallot, hb] using h.erase_none hb
  | some b => simpa [closeBallot, hb] using h.erase hb

/-- A candidate may apply whose operator and address stand in no application. -/
theorem openApplication (h : l.ApplicationsIndexed) {candidate : Validator}
    (notApplying : l.applications.get? candidate.operator = none)
    (notApplyingAt : l.applicationAt? candidate.address = none) :
    (l.setBallot .application (.start candidate)).ApplicationsIndexed := by
  refine Indexes.insert h (fun b hb => ?_) fun operator b hb ha => ?_
  · rw [show l.applications.get? (Ballot.start candidate).subject.operator = none
      from notApplying] at hb
    cases hb
  · exact absurd ha (h.find_eq_none_iff.mp notApplyingAt operator b hb)

/-- A ballot with one more vote may be put back. -/
theorem recount (h : l.ApplicationsIndexed) {candidate : OperatorAddress} {before after : Ballot}
    (hopened : l.applications.get? candidate = some before)
    (hkeyed : before.subject.operator = candidate) (hsubject : after.subject = before.subject) :
    (l.setBallot .application after).ApplicationsIndexed := by
  have hcandidate : after.subject.operator = candidate := by rw [hsubject, hkeyed]
  refine Indexes.insert h (fun b hb => ?_) fun operator b hb ha => ?_
  · rw [hcandidate, hopened] at hb
    cases hb
    rw [hsubject]
  · rw [hsubject] at ha
    rw [hcandidate]
    exact h.operator_eq hb hopened ha

theorem concludeApplication (h : l.ApplicationsIndexed) {candidate : OperatorAddress}
    {before after : Ballot} (hopened : l.applications.get? candidate = some before)
    (hkeyed : before.subject.operator = candidate) (hsubject : after.subject = before.subject)
    (verdict : Verdict) : (l.concludeApplication candidate after verdict).2.ApplicationsIndexed := by
  cases verdict with
  | approved => exact h.closeApplication candidate
  | rejected => exact h.closeApplication candidate
  | pending => exact h.recount hopened hkeyed hsubject

/-- Commands keep applications indexed. -/
theorem step (h : l.ApplicationsIndexed) (hl : l.Sound) {c : Command} {events : List Event}
    (hs : l.Step c events l') : l'.ApplicationsIndexed := by
  cases hs with
  | seatAtOnce => exact h
  | apply _ _ _ _ notApplying notApplyingAt => exact h.openApplication notApplying notApplyingAt
  | voteApplication _ _ opened cast =>
    exact h.concludeApplication opened (hl.application_keyed opened) (Ballot.subject_cast cast) _
  | expel => exact h
  | propose => exact h
  | @voteKick _ _ _ _ _ verdict => cases verdict <;> exact h
  | leave => exact h

/-- Founding opens no application. -/
theorem establish (g : Genesis) : (({} : Ledger).establish g).2.ApplicationsIndexed := by
  have hseated (vs : List Validator) : ∀ {l : Ledger}, l.ApplicationsIndexed →
      (l.seatAll vs).ApplicationsIndexed := by
    induction vs with
    | nil => exact id
    | cons v rest ih => exact fun h => ih (l := _) h
  exact hseated g.validators (l := ({} : Ledger).setParams g.params) Indexes.empty

end ApplicationsIndexed

/-! ## Distinct identities -/

/-- No operator and no consensus address belongs to two candidates or validators. -/
structure Distinct (l : Ledger) : Prop where
  validators : Indexes l.validatorIndex l.validators (·.address)
  applications : Indexes l.applicationIndex l.applications (·.subject.address)
  apart {operator operator' : OperatorAddress} {b : Ballot} {v : Validator} :
    l.applications.get? operator = some b → l.validators.get? operator' = some v →
      operator ≠ operator' ∧ b.subject.address ≠ v.address

/-- A candidate is new to the registry. -/
def NewToRegistry (l : Ledger) (candidate : Validator) : Prop :=
  l.validators.get? candidate.operator = none ∧
    ∀ operator v, l.validators.get? operator = some v → v.address ≠ candidate.address

/-- A candidate is new to the open applications. -/
def NewToApplications (l : Ledger) (candidate : Validator) : Prop :=
  ∀ operator b, l.applications.get? operator = some b →
    operator ≠ candidate.operator ∧ b.subject.address ≠ candidate.address

namespace Distinct

theorem empty : ({} : Ledger).Distinct where
  validators := Indexes.empty
  applications := Indexes.empty
  apart h := by cases h

theorem seat (h : l.Distinct) {v : Validator} (state : Lifecycle) (hregistry : l.NewToRegistry v)
    (hnew : l.NewToApplications v) : (l.seat v state).Distinct where
  validators := by
    refine h.validators.insert ?_ fun op w hw ha => absurd ha (hregistry.2 op w hw)
    intro w hw
    rw [hregistry.1] at hw
    cases hw
  applications := h.applications
  apart hb hw := by
    rcases Table.get?_insert_cases hw with ⟨rfl, rfl⟩ | ⟨-, hw⟩
    · exact hnew _ _ hb
    · exact h.apart hb hw

theorem setLifecycle (h : l.Distinct) (operator : OperatorAddress) (state : Lifecycle) :
    (l.setLifecycle operator state).Distinct :=
  ⟨h.validators, h.applications, h.apart⟩

theorem setParams (h : l.Distinct) (params : Params) : (l.setParams params).Distinct :=
  ⟨h.validators, h.applications, h.apart⟩

theorem setKickProposal (h : l.Distinct) (b : Ballot) :
    (l.setBallot .kickProposal b).Distinct :=
  ⟨h.validators, h.applications, h.apart⟩

theorem closeKickProposal (h : l.Distinct) (operator : OperatorAddress) :
    (l.closeBallot .kickProposal operator).Distinct :=
  ⟨h.validators, h.applications, h.apart⟩

theorem setApplication (h : l.Distinct) {b : Ballot}
    (hindexed : (l.setBallot .application b).ApplicationsIndexed)
    (hapart : ∀ op v, l.validators.get? op = some v →
      b.subject.operator ≠ op ∧ b.subject.address ≠ v.address) :
    (l.setBallot .application b).Distinct where
  validators := h.validators
  applications := hindexed
  apart hb hv := by
    rcases Table.get?_insert_cases hb with ⟨rfl, rfl⟩ | ⟨-, hb⟩
    · exact hapart _ _ hv
    · exact h.apart hb hv

theorem closeApplication (h : l.Distinct) (operator : OperatorAddress) :
    (l.closeBallot .application operator).Distinct where
  validators := h.validators
  applications := ApplicationsIndexed.closeApplication h.applications operator
  apart hb hv := h.apart (Table.get?_of_erase hb).2 hv

/-! ## Steps -/

theorem validatorAt?_eq_none_iff (h : l.Distinct) {a : ConsensusAddress} :
    l.validatorAt? a = none ↔ ∀ op v, l.validators.get? op = some v → v.address ≠ a :=
  h.validators.find_eq_none_iff

/-- The subject of an open application is new to the registry. -/
theorem newToRegistry_of_opened (h : l.Distinct) (hl : l.Sound) {candidate : OperatorAddress}
    {b : Ballot} (hopened : l.applications.get? candidate = some b) :
    l.NewToRegistry b.subject := by
  refine ⟨?_, fun op w hw => (h.apart hopened hw).2.symm⟩
  rw [hl.application_keyed hopened]
  exact Option.eq_none_iff_forall_ne_some.mpr fun v hv => (h.apart hopened hv).1 rfl

/-- Once an application is closed, its subject is new to the others. -/
theorem newToApplications_of_closed (h : l.Distinct) (hl : l.Sound) {candidate : OperatorAddress}
    {b : Ballot} (hopened : l.applications.get? candidate = some b) :
    (l.closeBallot .application candidate).NewToApplications b.subject := by
  intro op b' hb'
  obtain ⟨hop, hb'⟩ := Table.get?_of_erase hb'
  rw [hl.application_keyed hopened]
  exact ⟨hop, fun ha => hop (h.applications.operator_eq hb' hopened ha)⟩

theorem concludeApplication (h : l.Distinct) (hl : l.Sound) {candidate : OperatorAddress}
    {before after : Ballot} (hopened : l.applications.get? candidate = some before)
    (hsubject : after.subject = before.subject) (verdict : Verdict) :
    (l.concludeApplication candidate after verdict).2.Distinct := by
  have hkeyed : before.subject.operator = candidate := hl.application_keyed hopened
  cases verdict with
  | approved =>
    show ((l.closeBallot .application candidate).seat after.subject .joining).Distinct
    rw [hsubject]
    exact (h.closeApplication candidate).seat .joining (h.newToRegistry_of_opened hl hopened)
      (h.newToApplications_of_closed hl hopened)
  | rejected => exact h.closeApplication candidate
  | pending =>
    refine h.setApplication (ApplicationsIndexed.recount h.applications hopened hkeyed hsubject) ?_
    intro op v hv
    rw [hsubject, hkeyed]
    exact h.apart hopened hv

theorem concludeKick (h : l.Distinct) (candidate : OperatorAddress) (b : Ballot)
    (verdict : Verdict) : (l.concludeKick candidate b verdict).2.Distinct := by
  cases verdict with
  | approved => exact (h.closeKickProposal candidate).setLifecycle _ _
  | rejected => exact h.closeKickProposal candidate
  | pending => exact h.setKickProposal b

/-- Commands keep identities distinct, as long as nobody is seated at once whose operator or address
stands in an open application. -/
theorem step (h : l.Distinct) (hl : l.Sound) {c : Command} {events : List Event}
    (hs : l.Step c events l')
    (hguard : ∀ v, c = .submitApplication v → events = [.appendValidator v.operator] →
      l.NewToApplications v) : l'.Distinct := by
  cases hs with
  | seatAtOnce _ newOperator newAddress =>
    exact h.seat .joining ⟨newOperator, h.validatorAt?_eq_none_iff.mp newAddress⟩
      (hguard _ rfl rfl)
  | @apply candidate _ newOperator newAddress _ notApplying notApplyingAt =>
    have hfree := h.validatorAt?_eq_none_iff.mp newAddress
    refine h.setApplication
      (ApplicationsIndexed.openApplication h.applications notApplying notApplyingAt) ?_
    intro op v hv
    refine ⟨?_, (hfree op v hv).symm⟩
    rintro rfl
    rw [show l.validators.get? (Ballot.start candidate).subject.operator = none
      from newOperator] at hv
    cases hv
  | voteApplication _ _ opened cast =>
    exact h.concludeApplication hl opened (Ballot.subject_cast cast) _
  | expel => exact h.setLifecycle _ _
  | propose => exact h.setKickProposal _
  | voteKick => exact h.concludeKick _ _ _
  | leave => exact (h.closeKickProposal _).setLifecycle _ _

/-- Epoch boundaries keep identities distinct. -/
theorem settled (h : l.Distinct) (hl : l.Sound) : l.settled.Distinct where
  validators := by
    intro a op
    rw [hl.get?_validatorIndex_settled, h.validators a op, hl.get?_validators_settled]
    constructor
    · rintro ⟨⟨v, hv, ha⟩, hnone⟩
      refine ⟨v, ?_, ha⟩
      rw [if_neg, hv]
      intro hleaving
      have hop := hl.validator_keyed hv
      exact hnone v (hop ▸ hv) (hop ▸ hleaving) ha
    · rintro ⟨v, hv, ha⟩
      split at hv
      · cases hv
      · rename_i hstaying
        refine ⟨⟨v, hv, ha⟩, fun w hw hleaving hwa => hstaying ?_⟩
        rwa [h.validators.operator_eq hv hw (ha.trans hwa.symm)]
  applications := h.applications
  apart hb hv := h.apart hb (hl.seated_of_settled hv).1

end Distinct

/-! ## Founding -/

/-- A candidate differs from everybody in the registry, by its operator and by something else that
is asked of a validator. For the address it is new to the registry. -/
def NewBy {β : Type} (l : Ledger) (f : Validator → β) (candidate : Validator) : Prop :=
  l.validators.get? candidate.operator = none ∧
    ∀ operator v, l.validators.get? operator = some v → f v ≠ f candidate

/-- Seating some validators that differ from each other and are new to a ledger seats one after the
other, each of them new to the ledger. -/
theorem seatAll_induction {β : Type} {f : Validator → β} {P : List Validator → Ledger → Prop}
    {vs seated : List Validator}
    (hstep : ∀ seated l v, v ∈ vs → P seated l → l.NewBy f v →
      P (seated ++ [v]) (l.seat v .joined))
    (hoperators : (vs.map (·.operator)).Nodup) (hdiffer : (vs.map f).Nodup)
    (hnew : ∀ v ∈ vs, l.NewBy f v) (hstart : P seated l) :
    P (seated ++ vs) (l.seatAll vs) := by
  induction vs generalizing l seated with
  | nil => rwa [List.append_nil]
  | cons v rest ih =>
    rw [List.map_cons, List.nodup_cons] at hoperators hdiffer
    rw [List.forall_mem_cons] at hnew
    have hfirst := hstep seated l v List.mem_cons_self hstart hnew.1
    rw [List.append_cons]
    refine ih (fun seated l w hw => hstep seated l w (List.mem_cons_of_mem v hw)) hoperators.2
      hdiffer.2 ?_ hfirst
    intro w hw
    have hop : w.operator ≠ v.operator := fun he =>
      hoperators.1 (List.mem_map.mpr ⟨w, hw, he⟩)
    refine ⟨by simpa [hop] using (hnew.2 w hw).1, fun op u hu => ?_⟩
    rcases Table.get?_insert_cases hu with ⟨-, rfl⟩ | ⟨-, hu⟩
    · exact fun hsame => hdiffer.1 (List.mem_map.mpr ⟨w, hw, hsame.symm⟩)
    · exact (hnew.2 w hw).2 op u hu

end Ledger

end AuthoritySet
