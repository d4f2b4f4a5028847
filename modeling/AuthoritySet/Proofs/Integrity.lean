import AuthoritySet.Proofs.Ledger.Service

/-!
# Nothing goes wrong inside

Some failures are the service's own doing (`Failure.isInternal`): its store fails, stored bytes
cannot be read, the quorum is no percentage, or a seated validator has no state. Above contents, and
from an empty store on, none of them ever occurs, however often the set is founded again and
whatever is asked in between.

* `Ledger.Intact`: what every ledger that can be reached satisfies, `Ledger.Intact.call`: calls keep
  ledgers intact and fail properly.
* `Contents.Consistent`: the same of the bytes. `Ledger.Intact.consistent`: an intact ledger is
  stored as consistent bytes.
* `Service.never_internal`: runs from an empty store.
-/

namespace AuthoritySet

/-- Whether a failure is the service's own doing, and not that of who called it. -/
@[simp] def Failure.isInternal : Failure → Bool
  | .storage _ => true
  | .codec _ => true
  | .invalidQuorum _ => true
  | .invariantViolation .. => true
  | _ => false

section Proper

variable {α β : Type}

/-- A result is proper if it is a value or a failure that is not internal. -/
def Proper (result : Except Failure α) : Prop :=
  ∀ failure, result = .error failure → failure.isInternal = false

@[simp] theorem proper_ok (value : α) : Proper (.ok value) := fun _ h => by cases h

@[simp] theorem proper_error {failure : Failure} :
    Proper (.error failure : Except Failure α) ↔ failure.isInternal = false :=
  ⟨fun h => h failure rfl, fun h _ he => by cases he; exact h⟩

/-- A failure that comes from a proper result is proper. -/
theorem Proper.of_error {result : Except Failure α} {failure : Failure} (h : Proper result)
    (hr : result = .error failure) : Proper (.error failure : Except Failure β) :=
  proper_error.mpr (h failure hr)

theorem proper_of_eq_ok {result : Except Failure α} {value : α} (h : result = .ok value) :
    Proper result := by
  rw [h]
  exact proper_ok value

@[simp] theorem proper_map {f : α → β} {result : Except Failure α} :
    Proper (result.map f) ↔ Proper result := by
  cases result <;> simp [Except.map]

end Proper

/-! ## Checks of the input alone -/

theorem Validator.proper_check (v : Validator) : Proper v.check := by
  unfold check
  split_ifs <;> simp

theorem Params.proper_check (params : Params) : Proper params.check := by
  unfold check
  split_ifs <;> simp

theorem Params.quorum_le_of_check {params : Params} (h : params.check = .ok ()) :
    params.quorum ≤ 100 := by
  unfold check at h
  split at h
  · cases h
  split at h
  · cases h
  · rename_i hquorum
    exact UInt16.not_lt.mp hquorum

theorem Genesis.proper_checkValidators (keys : List ConsensusKey)
    (operators : List OperatorAddress) (vs : List Validator) :
    Proper (checkValidators keys operators vs) := by
  induction vs generalizing keys operators with
  | nil => exact proper_ok ()
  | cons v rest ih =>
    unfold checkValidators
    cases hcheck : v.check with
    | error failure => exact v.proper_check.of_error hcheck
    | ok _ =>
      simp only [bind, Except.bind]
      split_ifs
      · simp
      · simp
      · exact ih _ _

theorem Genesis.proper_check (g : Genesis) : Proper g.check := by
  unfold check
  cases hcheck : checkValidators [] [] g.validators with
  | error failure => exact (proper_checkValidators _ _ _).of_error hcheck
  | ok _ =>
    simp only [bind, Except.bind]
    split
    · simp
    · exact g.params.proper_check

theorem Command.proper_check (c : Command) : Proper c.check := by
  have haddresses : ∀ addresses, Proper (checkAddresses addresses) := by
    intro addresses
    unfold checkAddresses
    split <;> simp
  cases c with
  | submitApplication candidate => exact candidate.proper_check
  | _ => exact haddresses _

theorem Call.proper_check (c : Call) : Proper c.plan.check := by
  cases c with
  | execute c => exact proper_ok ()
  | handle c => exact c.proper_check
  | initialise genesis => exact genesis.proper_check
  | setParams params => exact params.proper_check
  | endEpoch => exact proper_ok ()

/-! ## Ledgers -/

theorem Ballot.proper_verdict (b : Ballot) (pool : UInt64) {quorum : UInt64} (h : quorum ≤ 100) :
    Proper (b.verdict pool quorum) := by
  unfold verdict
  rw [if_neg (UInt64.not_lt.mpr h)]
  dsimp only
  split_ifs <;> simp

namespace Ledger

variable {l l' : Ledger}

/-- The ledgers that a service can come to hold: coherent ones with parameters that pass their
check. -/
structure Intact (l : Ledger) : Prop extends Coherent Ballot.Counted l where
  params_check : l.inForce.check = .ok ()

namespace Intact

theorem legible (h : l.Intact) : l.Legible := fun _ _ _ hb =>
  Nat.lt_of_succ_lt (h.ballot hb).voters_succ_lt

theorem quorum_le (h : l.Intact) : l.inForce.quorum.toUInt64 ≤ 100 := by
  have hle := UInt16.le_iff_toNat_le.mp (Params.quorum_le_of_check h.params_check)
  exact UInt64.le_iff_toNat_le.mpr (by simpa using hle)

theorem empty : ({} : Ledger).Intact := ⟨.empty, rfl⟩

theorem step (h : l.Intact) {c : Command} {events : List Event} (hs : l.Step c events l') :
    l'.Intact :=
  ⟨h.toCoherent.step (Ballot.Counted.lasting _) hs, by rw [hs.inForce_eq, h.params_check]⟩

theorem settled (h : l.Intact) : l.settled.Intact := ⟨h.toCoherent.settled, h.params_check⟩

theorem setParams (h : l.Intact) {params : Params} (hparams : params.check = .ok ()) :
    (l.setParams params).Intact :=
  ⟨h.toCoherent.setParams params, hparams⟩

theorem establish (h : l.Intact) {g : Genesis} (hg : g.check = .ok ()) :
    (l.establish g).2.Intact :=
  ⟨h.toCoherent.establish g, by
    rw [Ledger.establish, inForce_seatAll]
    exact (Genesis.check_eq_ok_iff.mp hg).2.2⟩

/-! ### Failures of commands -/

theorem proper_submit (l : Ledger) (candidate : Validator) : Proper (l.submit candidate) := by
  unfold Ledger.submit
  split_ifs <;> simp

theorem proper_voteApplication (h : l.Intact) (voter candidate : OperatorAddress)
    (approve : Bool) : Proper (l.voteApplication voter candidate approve) := by
  unfold Ledger.voteApplication
  split
  · simp
  split
  · simp
  split
  · simp
  split
  · simp
  rename_i after _
  split
  · rename_i hfailed
    exact (after.proper_verdict _ h.quorum_le).of_error hfailed
  · simp

theorem proper_propose (h : l.Intact) (candidate proposer : OperatorAddress) :
    Proper (l.propose candidate proposer) := by
  unfold Ledger.propose
  split
  · simp
  split
  · simp
  split
  · simp
  rename_i hfound
  split
  · rename_i hnone
    have hsome := h.state_isSome hfound
    rw [hnone] at hsome
    cases hsome
  split_ifs <;> simp

theorem proper_voteKick (h : l.Intact) (voter candidate : OperatorAddress) (approve : Bool) :
    Proper (l.voteKick voter candidate approve) := by
  unfold Ledger.voteKick
  split
  · simp
  split
  · simp
  split
  · simp
  split
  · simp
  rename_i after _
  split
  · rename_i hfailed
    exact (after.proper_verdict _ h.quorum_le).of_error hfailed
  · simp

theorem proper_leave (l : Ledger) (validator : OperatorAddress) : Proper (l.leave validator) := by
  unfold Ledger.leave
  split_ifs <;> simp

theorem proper_execute (h : l.Intact) (c : Command) : Proper (l.execute c) := by
  cases c with
  | submitApplication candidate => exact proper_submit l candidate
  | voteApplication voter candidate approve => exact h.proper_voteApplication _ _ _
  | proposeKick candidate proposer => exact h.proper_propose candidate proposer
  | voteKickProposal voter candidate approve => exact h.proper_voteKick _ _ _
  | leaveValidatorSet validator => exact proper_leave l validator

/-! ### Calls -/

/-- What a call does to an intact ledger: it succeeds and leaves an intact one, or it fails, and not
because of the ledger. -/
theorem carryOut (h : l.Intact) {c : Call} (hcheck : c.plan.check = .ok ()) :
    Proper (l.carryOut c) ∧ ∀ r, l.carryOut c = .ok r → r.2.Intact := by
  have hexecute : ∀ command : Command,
      Proper ((l.execute command).map fun r => (Reply.events r.1, r.2)) ∧
        ∀ r, (l.execute command).map (fun r => (Reply.events r.1, r.2)) = .ok r → r.2.Intact := by
    intro command
    refine ⟨proper_map.mpr (h.proper_execute command), fun r hr => ?_⟩
    cases hc : l.execute command with
    | error failure => rw [hc] at hr; cases hr
    | ok result => rw [hc] at hr; cases hr; exact h.step (.of_execute hc)
  cases c with
  | execute command => exact hexecute command
  | handle command => exact hexecute command
  | initialise genesis =>
    refine ⟨proper_ok _, fun r hr => ?_⟩
    cases hr
    exact h.establish hcheck
  | setParams params =>
    refine ⟨proper_ok _, fun r hr => ?_⟩
    cases hr
    exact h.setParams hcheck
  | endEpoch =>
    rw [Ledger.carryOut, h.settle_eq]
    refine ⟨proper_ok _, fun r hr => ?_⟩
    cases hr
    exact h.settled

/-- Calls keep ledgers intact and have proper replies. -/
theorem call (h : l.Intact) (c : Call) : Proper (l.call c).1 ∧ (l.call c).2.Intact := by
  unfold Ledger.call
  cases hcheck : c.plan.check with
  | error failure => exact ⟨c.proper_check.of_error hcheck, h⟩
  | ok _ =>
    obtain ⟨hresult, hintact⟩ := h.carryOut hcheck
    cases hr : l.carryOut c with
    | error failure => exact ⟨hresult.of_error hr, h⟩
    | ok r => exact ⟨proper_ok _, hintact r hr⟩

end Intact

end Ledger

/-! ## Bytes -/

/-- What may stand in a part of the store, under which rest of a key. -/
def Section.Admits : Section → Bytes → Bytes → Prop
  | .params, id, value =>
    id = [] ∧ ∃ params : Params, Record.decode value = .ok params ∧ params.check = .ok ()
  | .validators, id, value =>
    ∃ v : Validator, Record.decode value = .ok v ∧ id = v.operator.bytes
  | .validatorIndex, id, value => id.length = 20 ∧ value.length = 20
  | .lifecycles, id, value =>
    id.length = 20 ∧ ∃ byte state, value = [byte] ∧ Lifecycle.ofByte? byte = some state
  | .applications, id, value =>
    ∃ b : Ballot, Record.decode value = .ok b ∧ id = b.subject.operator.bytes
  | .applicationIndex, id, value => id.length = 20 ∧ value.length = 20
  | .kickProposals, id, value =>
    ∃ b : Ballot, Record.decode value = .ok b ∧ id = b.subject.operator.bytes

/-- Contents of which nothing is corrupt: each value is one that its key may have, and every record
of a validator comes with a state. -/
structure Contents.Consistent (contents : Contents) : Prop where
  admitted {key value : Bytes} : contents.get? key = some value →
    ∃ (part : Section) (id : Bytes), key = part.tag :: id ∧ part.Admits id value
  stateStored {id : Bytes} : (contents.get? (Section.validators.tag :: id)).isSome →
    (contents.get? (Section.lifecycles.tag :: id)).isSome

namespace Ledger

variable {l : Ledger}

theorem Intact.admits (h : l.Intact) {part : Section} {id value : Bytes}
    (hvalue : l.value? part id = some value) : part.Admits id value := by
  have hballot : ∀ kind, valueAt Record.encode (l.ballots kind) id = some value →
      ∃ b : Ballot, Record.decode value = .ok b ∧ id = b.subject.operator.bytes := by
    intro kind hb
    obtain ⟨operator, b, rfl, hget, rfl⟩ := valueAt_eq_some_iff.mp hb
    exact ⟨b, (h.legible.readsBack hget).decode, by rw [h.ballot_keyed hget]⟩
  cases part with
  | params =>
    simp only [value?] at hvalue
    split at hvalue
    · rename_i hid
      obtain ⟨params, hparams, rfl⟩ := Option.map_eq_some_iff.mp hvalue
      refine ⟨hid, params, Record.decode_encode params, ?_⟩
      simpa [inForce, hparams] using h.params_check
    · cases hvalue
  | validators =>
    obtain ⟨operator, v, rfl, hv, rfl⟩ := valueAt_eq_some_iff.mp hvalue
    exact ⟨v, Record.decode_encode v, by rw [h.validator_keyed hv]⟩
  | validatorIndex =>
    obtain ⟨address, operator, rfl, -, rfl⟩ := valueAt_eq_some_iff.mp hvalue
    exact ⟨address.length_eq, operator.length_eq⟩
  | lifecycles =>
    obtain ⟨operator, state, rfl, -, rfl⟩ := valueAt_eq_some_iff.mp hvalue
    exact ⟨operator.length_eq, state.byte, state, rfl, state.ofByte?_byte⟩
  | applications => exact hballot .application hvalue
  | applicationIndex =>
    obtain ⟨address, operator, rfl, -, rfl⟩ := valueAt_eq_some_iff.mp hvalue
    exact ⟨address.length_eq, operator.length_eq⟩
  | kickProposals => exact hballot .kickProposal hvalue

/-- An intact ledger is stored as consistent bytes. -/
theorem Intact.consistent (h : l.Intact) : l.contents.Consistent where
  admitted hvalue := by
    obtain ⟨part, id, hkey, hvalue⟩ := get?_contents_eq_some_iff.mp hvalue
    exact ⟨part, id, hkey, h.admits hvalue⟩
  stateStored {id} hrecord := by
    obtain ⟨value, hvalue⟩ := Option.isSome_iff_exists.mp hrecord
    rw [get?_contents] at hvalue
    obtain ⟨operator, v, rfl, hv, -⟩ := valueAt_eq_some_iff.mp hvalue
    rw [get?_contents, value?, valueAt_bytes, Option.isSome_map]
    exact h.state_isSome hv

end Ledger

/-! ## Services -/

namespace Service

open Ledger

variable {s : Service Contents} {l : Ledger}

/-! ### Questions -/

theorem run_pageSize (limit : UInt32) : (pageSize limit).run l.contents =
    .ok (if limit = 0 then l.inForce.maxValidators.toNat else limit.toNat, l.contents) := by
  unfold pageSize
  split
  · rw [Transaction.run_bind_of_ok run_params]
    rfl
  · rfl

/-- A page of the registry, as far as there are entries for it. -/
theorem validators_eq (hstore : s.store = l.contents) (number limit : UInt32) :
    ∃ size, s.validators number limit = .ok (if number = 0 then [] else
      (l.validators.values.drop ((number.toNat - 1) * size)).take size) := by
  refine ⟨if limit = 0 then l.inForce.maxValidators.toNat else limit.toNat, ?_⟩
  unfold validators
  split
  · rfl
  · rw [view_eq, hstore, Transaction.run_bind_of_ok (run_pageSize limit),
      Transaction.run_bind_of_ok run_entries, page, ← List.map_drop, ← List.map_take,
      mapM_id_map_ok, Table.values, List.map_take, List.map_drop]
    rfl

theorem exportGenesis_eq (hstore : s.store = l.contents) :
    s.exportGenesis = .ok { params := l.inForce, validators := l.validators.values } := by
  rw [exportGenesis, view_eq, hstore, Founding.document, Transaction.run_bind_of_ok run_params,
    Transaction.run_bind_of_ok run_validators]
  rfl

/-- Every question to the service has a proper answer. -/
structure AnswersProperly (s : Service Contents) : Prop where
  params : Proper s.params
  validators (number limit : UInt32) : Proper (s.validators number limit)
  validator (operator : OperatorAddress) : Proper (s.validator operator)
  lifecycle? (operator : OperatorAddress) : Proper (s.lifecycle? operator)
  ballots (kind : Ballot.Kind) : Proper (s.ballots kind)
  exportGenesis : Proper s.exportGenesis
  answer (q : Query) : Proper (s.answer q)

theorem answersProperly (hstore : s.store = l.contents) (h : l.Intact) : s.AnswersProperly := by
  have hparams : Proper s.params := proper_of_eq_ok (view_of_run hstore run_params)
  have hvalidators : ∀ number limit, Proper (s.validators number limit) := fun number limit =>
    have ⟨_, heq⟩ := validators_eq hstore number limit
    proper_of_eq_ok heq
  have hvalidator : ∀ operator, Proper (s.validator operator) := by
    intro operator
    rw [validator, view_eq, hstore, Transaction.run_bind_of_ok (run_validator? operator)]
    cases l.validators.get? operator with
    | none => exact proper_error.mpr rfl
    | some v => exact proper_ok v
  have hballots : ∀ kind, Proper (s.ballots kind) := fun kind =>
    proper_of_eq_ok (view_of_run hstore (run_ballots h.legible kind))
  refine ⟨hparams, hvalidators, hvalidator, fun operator =>
    proper_of_eq_ok (view_of_run hstore (run_lifecycle? operator)), hballots,
    proper_of_eq_ok (exportGenesis_eq hstore), fun q => ?_⟩
  cases q with
  | validators number limit => exact proper_map.mpr (hvalidators number limit)
  | validator operator => exact proper_map.mpr (hvalidator operator)
  | params => exact proper_map.mpr hparams
  | applications => exact proper_map.mpr (hballots .application)
  | kickProposals => exact proper_map.mpr (hballots .kickProposal)

/-! ### Runs -/

/-- A run above the bytes of an intact ledger has proper replies and ends above such bytes. What all
of its calls keep of intact ledgers still holds then. -/
theorem intact_run_keeps {I : Ledger → Prop} {calls : List Call} (hstore : s.store = l.contents)
    (h : l.Intact) (hi : I l)
    (hkeep : ∀ c ∈ calls, ∀ l : Ledger, l.Intact → I l → I (l.call c).2) :
    (∀ reply ∈ (s.run calls).1, Proper reply) ∧
      ∃ l' : Ledger, (s.run calls).2.store = l'.contents ∧ l'.Intact ∧ I l' := by
  induction calls generalizing s l with
  | nil => exact ⟨by simp [run], l, hstore, h, hi⟩
  | cons c rest ih =>
    rw [List.forall_mem_cons] at hkeep
    obtain ⟨hreply, hafter, -⟩ := call_eq hstore h.legible c
    obtain ⟨hproper, hintact⟩ := h.call c
    obtain ⟨hreplies, hend⟩ := ih hafter hintact (hkeep.1 l h hi) hkeep.2
    refine ⟨?_, hend⟩
    rw [run, List.forall_mem_cons, hreply]
    exact ⟨hproper, hreplies⟩

theorem intact_run (hstore : s.store = l.contents) (h : l.Intact) (calls : List Call) :
    (∀ reply ∈ (s.run calls).1, Proper reply) ∧
      ∃ l' : Ledger, (s.run calls).2.store = l'.contents ∧ l'.Intact := by
  obtain ⟨hreplies, l', hstore', h', -⟩ :=
    intact_run_keeps (I := fun _ => True) hstore h trivial fun _ _ _ _ _ => trivial
  exact ⟨hreplies, l', hstore', h'⟩

/-- **Internal failures never occur.** In every run from an empty store, made of any calls with any
arguments, all replies are proper. After it all questions have proper answers, nothing in the store
is corrupt, and an epoch boundary succeeds. Since questions change nothing, the same goes for those
that are asked in the middle of a run. -/
theorem never_internal (hempty : s.store = .empty) (calls : List Call) :
    (∀ reply ∈ (s.run calls).1, Proper reply) ∧ (s.run calls).2.AnswersProperly ∧
    (s.run calls).2.store.Consistent ∧ ∃ updates, (s.run calls).2.endEpoch.1 = .ok updates := by
  obtain ⟨hreplies, l, hstore, h⟩ :=
    intact_run (hempty.trans contents_empty.symm) Intact.empty calls
  refine ⟨hreplies, answersProperly hstore h, hstore ▸ h.consistent, l.dueUpdates, ?_⟩
  have hsettle : Epoch.settle.run l.contents = .ok (l.dueUpdates, l.settled.contents) := by
    rw [run_settle, h.settle_eq]
    rfl
  have hcommit : (s.run calls).2.commit Epoch.settle =
      .ok (l.dueUpdates, { (s.run calls).2 with store := l.settled.contents }) := by
    rw [commit_eq, hstore, hsettle]
    rfl
  exact (endEpoch_of_commit hcommit).1

/-- A set is founded again while one validator is joining and another one leaving. -/
def foundTwice : List Call :=
  [.initialise .lone,
   .setParams { quorum := 0 },
   .handle (.submitApplication (.uniform 2 2)),
   .execute (.leaveValidatorSet (Validator.uniform 1 1).operator),
   .initialise .lone]

theorem never_internal_foundTwice :
    (∀ reply ∈ (({ store := .empty } : Service Contents).run foundTwice).1, Proper reply) ∧
    (({ store := .empty } : Service Contents).run foundTwice).2.store.Consistent :=
  have h := never_internal rfl foundTwice
  ⟨h.1, h.2.2.1⟩

end Service

end AuthoritySet
