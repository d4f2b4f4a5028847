import AuthoritySet.Proofs.Ledger.Basic

/-!
# The registry on ledgers

What the transactions of the registry do to the bytes of a ledger, as updates of the ledger. Each
theorem `run_…` says that one transaction, on the bytes of a ledger, answers from its tables and
leaves the bytes of the updated ledger. Ballots are read back if eight bytes count their voters
(`Ledger.Legible`).
-/

namespace AuthoritySet

namespace Ledger

/-! ## Updates -/

/-- The parameters in force. -/
def inForce (l : Ledger) : Params := l.params.getD {}

/-- The ballots of a kind. -/
def ballots (l : Ledger) : Ballot.Kind → Table OperatorAddress Ballot
  | .application => l.applications
  | .kickProposal => l.kickProposals

/-- The validator that the index finds at a consensus address. -/
def validatorAt? (l : Ledger) (address : ConsensusAddress) : Option Validator :=
  (l.validatorIndex.get? address).bind l.validators.get?

/-- The application that the index finds at a consensus address. -/
def applicationAt? (l : Ledger) (address : ConsensusAddress) : Option Ballot :=
  (l.applicationIndex.get? address).bind l.applications.get?

def setParams (l : Ledger) (params : Params) : Ledger := { l with params := some params }

def setValidator (l : Ledger) (v : Validator) : Ledger :=
  { l with
    validators := l.validators.insert v.operator v
    validatorIndex := l.validatorIndex.insert v.address v.operator }

def setLifecycle (l : Ledger) (operator : OperatorAddress) (state : Lifecycle) : Ledger :=
  { l with lifecycles := l.lifecycles.insert operator state }

def seat (l : Ledger) (v : Validator) (state : Lifecycle) : Ledger :=
  (l.setValidator v).setLifecycle v.operator state

def unseat (l : Ledger) (operator : OperatorAddress) : Ledger :=
  { l with
    validators := l.validators.erase operator
    validatorIndex := match l.validators.get? operator with
      | some v => l.validatorIndex.erase v.address
      | none => l.validatorIndex
    lifecycles := l.lifecycles.erase operator }

def setBallot (l : Ledger) (kind : Ballot.Kind) (b : Ballot) : Ledger :=
  match kind with
  | .application =>
    { l with
      applications := l.applications.insert b.subject.operator b
      applicationIndex := l.applicationIndex.insert b.subject.address b.subject.operator }
  | .kickProposal => { l with kickProposals := l.kickProposals.insert b.subject.operator b }

def closeBallot (l : Ledger) (kind : Ballot.Kind) (operator : OperatorAddress) : Ledger :=
  match kind with
  | .application =>
    { l with
      applications := l.applications.erase operator
      applicationIndex := match l.applications.get? operator with
        | some b => l.applicationIndex.erase b.subject.address
        | none => l.applicationIndex }
  | .kickProposal => { l with kickProposals := l.kickProposals.erase operator }

/-- The ledgers whose ballots can be read back. -/
def Legible (l : Ledger) : Prop :=
  ∀ kind operator b, (l.ballots kind).get? operator = some b → b.voters.length < 2 ^ 64

theorem Legible.readsBack {l : Ledger} (h : l.Legible) {kind : Ballot.Kind}
    {operator : OperatorAddress} {b : Ballot} (hb : (l.ballots kind).get? operator = some b) :
    Record.ReadsBack b :=
  Record.readsBack_ballot (h kind operator b hb)

/-- What stands in the pool of a kind. -/
theorem mem_part_ballots {l : Ledger} {kind : Ballot.Kind} {key value : Bytes} :
    (key, value) ∈ l.part (Section.ballots kind) ↔
      ∃ operator b, (l.ballots kind).get? operator = some b ∧
        key = (Section.ballots kind).key operator ∧ value = Record.encode b := by
  have hvalue (id : Bytes) : l.value? (Section.ballots kind) id =
      valueAt Record.encode (l.ballots kind) id := by
    cases kind <;> rfl
  simp only [mem_part, hvalue, valueAt_eq_some_iff]
  constructor
  · rintro ⟨_, rfl, operator, b, rfl, hb, rfl⟩
    exact ⟨operator, b, hb, rfl, rfl⟩
  · rintro ⟨operator, b, hb, rfl, rfl⟩
    exact ⟨_, rfl, operator, b, rfl, hb, rfl⟩

/-! ## Running transactions -/

end Ledger

namespace Transaction

variable {α β σ : Type} [ByteStore σ]

/-- Once the first transaction is known to succeed, the second one runs on what it leaves. -/
theorem run_bind_of_ok {t : Transaction α} {f : α → Transaction β} {store after : σ} {value : α}
    (h : t.run store = .ok (value, after)) : (t >>= f).run store = (f value).run after := by
  rw [run_bind, h]
  rfl

theorem run_pure (value : α) (store : σ) :
    (pure value : Transaction α).run store = .ok (value, store) :=
  rfl

theorem run_ite (condition : Prop) [Decidable condition] (t u : Transaction α) (store : σ) :
    (if condition then t else u).run store =
      if condition then t.run store else u.run store := by
  split <;> rfl

theorem run_require (condition : Bool) (failure : Failure) (f : Unit → Transaction β) (store : σ) :
    (require condition failure >>= f).run store =
      if condition then (f ()).run store else .error failure := by
  rw [run_bind]
  cases condition <;> rfl

theorem run_expect (value? : Option α) (failure : Failure) (f : α → Transaction β) (store : σ) :
    (expect value? failure >>= f).run store =
      match value? with
      | some value => (f value).run store
      | none => .error failure := by
  rw [run_bind]
  cases value? <;> rfl

theorem run_ofExcept (result : Except Failure α) (f : α → Transaction β) (store : σ) :
    (ofExcept result >>= f).run store =
      match result with
      | .ok value => (f value).run store
      | .error failure => .error failure := by
  rw [run_bind]
  cases result <;> rfl

end Transaction

namespace Ledger

open Transaction

variable {l l' : Ledger}

theorem run_lookup (s : Section) (id : Bytes) :
    (lookup (s.tag :: id)).run l.contents = .ok (l.value? s id, l.contents) := by
  rw [← get?_contents]
  rfl

theorem run_put {s : Section} {id value : Bytes}
    (h : ∀ u id', l'.value? u id' = if u = s ∧ id' = id then some value else l.value? u id') :
    (put (s.tag :: id) value).run l.contents = .ok ((), l'.contents) := by
  rw [← contents_insert h]
  rfl

theorem run_delete {s : Section} {id : Bytes}
    (h : ∀ u id', l'.value? u id' = if u = s ∧ id' = id then none else l.value? u id') :
    (delete (s.tag :: id)).run l.contents = .ok ((), l'.contents) := by
  rw [← contents_erase h]
  rfl

theorem run_list (s : Section) :
    (list s.beginning).run l.contents = .ok (l.part s, l.contents) := by
  rw [← startingWith_contents]
  rfl

/-- Records that can all be decoded are listed as they are. -/
theorem mapM_id_map_ok {α β : Type} (f : β → α) (items : List β) :
    (items.map fun item => (.ok (f item) : Except Failure α)).mapM id = .ok (items.map f) := by
  induction items with
  | nil => rfl
  | cons item rest ih =>
    rw [List.map_cons, List.mapM_cons, ih]
    rfl

/-- A record that is there is read if it reads back. -/
theorem run_read {α : Type} [Record α] {s : Section} {id : Bytes} {value? : Option α}
    (h : l.value? s id = value?.map Record.encode)
    (hback : ∀ value ∈ value?, Record.ReadsBack value) :
    (Registry.read (s.tag :: id)).run l.contents = .ok (value?, l.contents) := by
  rw [Registry.read, run_bind_of_ok (run_lookup s id), h]
  cases value? with
  | none => rfl
  | some value =>
    show (Transaction.ofExcept (Record.decode (Record.encode value)) >>= _).run _ = _
    rw [(hback value rfl).decode]
    rfl

theorem run_readIndex {s : Section} {address : ConsensusAddress}
    {t : Table ConsensusAddress OperatorAddress}
    (h : l.value? s address.bytes = (t.get? address).map Identity.bytes) :
    (Registry.readIndex (s.key address)).run l.contents = .ok (t.get? address, l.contents) := by
  rw [Registry.readIndex, Section.key, run_bind_of_ok (run_lookup s _), h]
  cases t.get? address with
  | none => rfl
  | some operator =>
    show (expect (Identity.ofBytes? operator.bytes) _ >>= _).run _ = _
    rw [ofBytes?_bytes]
    rfl

/-! ## Parameters -/

theorem run_params : Registry.params.run l.contents = .ok (l.inForce, l.contents) := by
  have hread : (Registry.read Section.params.beginning).run l.contents =
      .ok (l.params, l.contents) :=
    run_read (by simp [value?]) fun p _ => Record.Faithful.readsBack p
  rw [Registry.params, run_bind_of_ok hread]
  rfl

theorem run_setParams (params : Params) :
    (Registry.setParams params).run l.contents = .ok ((), (l.setParams params).contents) := by
  refine run_put (s := .params) fun u id => ?_
  cases u with
  | params => simp only [value?, setParams, true_and]; split <;> rfl
  | _ => simp [value?, setParams]

/-! ## Validators -/

theorem run_validator? (operator : OperatorAddress) :
    (Registry.validator? operator).run l.contents =
      .ok (l.validators.get? operator, l.contents) :=
  run_read (valueAt_bytes _ _ _) fun v _ => Record.Faithful.readsBack v

theorem run_validatorAt? (address : ConsensusAddress) :
    (Registry.validatorAt? address).run l.contents = .ok (l.validatorAt? address, l.contents) := by
  have hindex := run_readIndex (l := l) (s := .validatorIndex) (valueAt_bytes _ _ address)
  rw [Registry.validatorAt?, run_bind_of_ok hindex, validatorAt?]
  cases l.validatorIndex.get? address with
  | none => rfl
  | some operator => exact run_validator? operator

theorem run_setValidator (v : Validator) :
    (Registry.setValidator v).run l.contents = .ok ((), (l.setValidator v).contents) := by
  let seated : Ledger := { l with validators := l.validators.insert v.operator v }
  have hrecord : (Registry.write (Section.validators.key v.operator) v).run l.contents =
      .ok ((), seated.contents) :=
    run_put fun u id => by cases u <;> simp [value?, seated, valueAt_insert]
  rw [Registry.setValidator, run_bind_of_ok hrecord]
  exact run_put fun u id => by cases u <;> simp [value?, seated, setValidator, valueAt_insert]

theorem run_lifecycle? (operator : OperatorAddress) :
    (Registry.lifecycle? operator).run l.contents =
      .ok (l.lifecycles.get? operator, l.contents) := by
  rw [Registry.lifecycle?, Section.key, run_bind_of_ok (run_lookup .lifecycles _)]
  simp only [value?, valueAt_bytes]
  cases l.lifecycles.get? operator with
  | none => rfl
  | some state =>
    show (expect (Lifecycle.ofByte? state.byte) _ >>= _).run _ = _
    rw [Lifecycle.ofByte?_byte]
    rfl

theorem run_setLifecycle (operator : OperatorAddress) (state : Lifecycle) :
    (Registry.setLifecycle operator state).run l.contents =
      .ok ((), (l.setLifecycle operator state).contents) :=
  run_put fun u id => by cases u <;> simp [value?, setLifecycle, valueAt_insert, lifecycleForm]

theorem run_seat (v : Validator) :
    (Registry.seat v).run l.contents = .ok ((), (l.seat v .joining).contents) := by
  rw [Registry.seat, run_bind_of_ok (run_setValidator v)]
  exact run_setLifecycle v.operator .joining

theorem run_unseat (operator : OperatorAddress) :
    (Registry.unseat operator).run l.contents = .ok ((), (l.unseat operator).contents) := by
  let index := match l.validators.get? operator with
    | some v => l.validatorIndex.erase v.address
    | none => l.validatorIndex
  have hindex : (Registry.deleteIndex .validatorIndex
      ((l.validators.get? operator).map (·.address))).run l.contents =
      .ok ((), { l with validatorIndex := index : Ledger }.contents) := by
    cases hv : l.validators.get? operator with
    | none => simp only [index, hv]; rfl
    | some v =>
      simp only [index, hv]
      exact run_delete fun u id => by cases u <;> simp [value?, valueAt_erase]
  have hrecord : (delete (Section.validators.key operator)).run
      { l with validatorIndex := index : Ledger }.contents = .ok ((), { l with
        validatorIndex := index
        validators := l.validators.erase operator : Ledger }.contents) :=
    run_delete fun u id => by cases u <;> simp [value?, valueAt_erase]
  rw [Registry.unseat, run_bind_of_ok (run_validator? operator), run_bind_of_ok hindex,
    run_bind_of_ok hrecord]
  exact run_delete fun u id => by cases u <;> simp [value?, unseat, index, valueAt_erase]

theorem run_entries :
    Registry.entries.run l.contents =
      .ok (l.validators.entries.map fun e => .ok e.2, l.contents) := by
  rw [Registry.entries, Registry.listRecords, run_bind_of_ok (run_list .validators)]
  simp [part, shelve, run, pure, Function.comp_def]

theorem run_validators :
    Registry.validators.run l.contents = .ok (l.validators.values, l.contents) := by
  rw [Registry.validators, run_bind_of_ok run_entries, Table.values, mapM_id_map_ok]
  rfl

theorem run_size : Registry.size.run l.contents = .ok (l.validators.size, l.contents) := by
  rw [Registry.size, run_bind_of_ok (run_list .validators)]
  simp [part, shelve, run, pure, Table.size]

/-! ## Ballots -/

theorem run_ballot? (h : l.Legible) (kind : Ballot.Kind) (operator : OperatorAddress) :
    (Registry.ballot? kind operator).run l.contents =
      .ok ((l.ballots kind).get? operator, l.contents) := by
  refine run_read ?_ fun b hb => h.readsBack hb
  cases kind <;> exact valueAt_bytes _ _ _

theorem run_ballotEntries (h : l.Legible) (kind : Ballot.Kind) :
    (Registry.ballotEntries kind).run l.contents =
      .ok ((l.ballots kind).entries.map fun e => .ok e.2, l.contents) := by
  rw [Registry.ballotEntries, Registry.listRecords, run_bind_of_ok (run_list _)]
  have hdecode : ∀ e ∈ (l.ballots kind).entries,
      Record.decode (Record.encode e.2) = (.ok e.2 : Except Failure Ballot) := fun e he =>
    (h.readsBack (Table.mem_entries_iff.mp he)).decode
  cases kind <;>
    simpa [part, shelve, Section.ballots, run, pure, Function.comp_def, ballots] using hdecode

theorem run_ballots (h : l.Legible) (kind : Ballot.Kind) :
    (Registry.ballots kind).run l.contents = .ok ((l.ballots kind).values, l.contents) := by
  rw [Registry.ballots, run_bind_of_ok (run_ballotEntries h kind), Table.values, mapM_id_map_ok]
  rfl

theorem run_applicationAt? (h : l.Legible) (address : ConsensusAddress) :
    (Registry.applicationAt? address).run l.contents =
      .ok (l.applicationAt? address, l.contents) := by
  have hindex := run_readIndex (l := l) (s := .applicationIndex) (valueAt_bytes _ _ address)
  rw [Registry.applicationAt?, run_bind_of_ok hindex, applicationAt?]
  cases l.applicationIndex.get? address with
  | none => rfl
  | some operator => exact run_ballot? h .application operator

theorem run_setBallot (kind : Ballot.Kind) (b : Ballot) :
    (Registry.setBallot kind b).run l.contents = .ok ((), (l.setBallot kind b).contents) := by
  cases kind with
  | application =>
    let stored : Ledger := { l with applications := l.applications.insert b.subject.operator b }
    have hrecord : (Registry.write ((Section.ballots .application).key b.subject.operator) b).run
        l.contents = .ok ((), stored.contents) :=
      run_put (s := .applications) fun u id => by cases u <;> simp [value?, stored, valueAt_insert]
    rw [Registry.setBallot, run_bind_of_ok hrecord]
    exact run_put fun u id => by cases u <;> simp [value?, stored, setBallot, valueAt_insert]
  | kickProposal =>
    have hrecord : (Registry.write ((Section.ballots .kickProposal).key b.subject.operator) b).run
        l.contents = .ok ((), (l.setBallot .kickProposal b).contents) :=
      run_put (s := .kickProposals) fun u id => by
        cases u <;> simp [value?, setBallot, valueAt_insert]
    rw [Registry.setBallot, run_bind_of_ok hrecord]
    rfl

theorem run_closeBallot (h : l.Legible) (kind : Ballot.Kind) (operator : OperatorAddress) :
    (Registry.closeBallot kind operator).run l.contents =
      .ok ((), (l.closeBallot kind operator).contents) := by
  cases kind with
  | application =>
    let index := match l.applications.get? operator with
      | some b => l.applicationIndex.erase b.subject.address
      | none => l.applicationIndex
    have hindex : (Registry.deleteIndex .applicationIndex
        ((l.applications.get? operator).map (·.subject.address))).run l.contents =
        .ok ((), { l with applicationIndex := index : Ledger }.contents) := by
      cases hb : l.applications.get? operator with
      | none => simp only [index, hb]; rfl
      | some b =>
        simp only [index, hb]
        exact run_delete fun u id => by cases u <;> simp [value?, valueAt_erase]
    have hfirst : (Registry.deleteBallotIndex .application operator).run l.contents =
        .ok ((), { l with applicationIndex := index : Ledger }.contents) := by
      rw [Registry.deleteBallotIndex, run_bind_of_ok (run_ballot? h .application operator)]
      exact hindex
    rw [Registry.closeBallot, run_bind_of_ok hfirst]
    exact run_delete (s := .applications) fun u id => by
      cases u <;> simp [value?, closeBallot, index, valueAt_erase]
  | kickProposal =>
    exact run_delete (s := .kickProposals) fun u id => by
      cases u <;> simp [value?, closeBallot, valueAt_erase]

end Ledger

end AuthoritySet
