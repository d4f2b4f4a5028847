import AuthoritySet.Proofs.Genesis
import AuthoritySet.Proofs.Overlay
import AuthoritySet.Proofs.Plan
import AuthoritySet.Store.Backend
import Mathlib.Data.List.Basic

/-!
# Steps are atomic

A store may fail at any read, at any moment, and it may refuse a batch; all that is asked of it is
that it carries out the batches it accepts (`ByteStore.AllOrNothing`). Whatever it holds and however
it fails, a call either fails and leaves nothing behind, or is committed as a whole
(`Service.Committed`) and then publishes its events.

* `Transaction.failing`: a transaction during which reads fail by a schedule. A store can also fail
  by itself, depending on the key; the schedule is for reads that would succeed at another time.
* `ByteStore.Alike`: stores that differ at most in single writes and in the batch of nothing. Steps
  cannot tell them apart, because they use neither.
* `Service.commit_ok`: what a step that is committed writes.
* `Service.call_atomic`: every call, under every schedule.
-/

namespace AuthoritySet

/-- The key that a change is about. -/
def Write.key : Write → Bytes
  | .put key _ => key
  | .delete key => key

theorem Write.key_ofEntry (e : Bytes × Option Bytes) : (ofEntry e).key = e.1 := by
  obtain ⟨key, _ | value⟩ := e <;> rfl

namespace ByteStore

/-- Stores with contents that change by an accepted batch as the batch says. Reads may answer
anything. -/
class AllOrNothing (σ : Type) [ByteStore σ] where
  contents : σ → Contents
  contents_apply {store after : σ} {writes : List Write} :
    apply store writes = .ok after → contents after = (contents store).writeAll writes

instance : AllOrNothing Contents where
  contents := id
  contents_apply h := by cases h; rfl

instance : AllOrNothing Backend where
  contents := Backend.contents
  contents_apply {store after writes} h := by
    simp only [apply] at h
    split at h <;> cases h
    rfl

/-- Two implementations of a store that agree on reads and on batches that change something. -/
structure Alike {σ : Type} (i j : ByteStore σ) : Prop where
  get : i.get = j.get
  scan : i.scan = j.scan
  apply : ∀ store writes, writes ≠ [] → i.apply store writes = j.apply store writes

/-- Backends that refuse single writes. -/
@[reducible] def batchesOnly : ByteStore Backend :=
  { (inferInstance : ByteStore Backend) with
    put := fun _ key _ => .error (Backend.keyFailure "put" key)
    delete := fun _ key => .error (Backend.keyFailure "delete" key) }

end ByteStore

/-! ## Reads that fail -/

namespace Transaction

variable {α β σ : Type}

/-- The transaction while the reads of the store fail by a schedule: the `n`-th read or scan that it
makes from now on fails with `faults n`, if that is a failure. -/
def failing (faults : Nat → Option StoreFailure) : Transaction α → Transaction α
  | .done value => .done value
  | .abort failure => .abort failure
  | .get key next =>
    match faults 0 with
    | some failure => .abort (.storage failure)
    | none => .get key fun value => (next value).failing fun n => faults (n + 1)
  | .scan beginning next =>
    match faults 0 with
    | some failure => .abort (.storage failure)
    | none => .scan beginning fun pairs => (next pairs).failing fun n => faults (n + 1)
  | .write change next => .write change (next.failing faults)

/-- A schedule without failures changes nothing. -/
theorem failing_none (t : Transaction α) : t.failing (fun _ => none) = t := by
  induction t with
  | done value => rfl
  | abort failure => rfl
  | get key next ih => exact congrArg (Transaction.get key) (funext ih)
  | scan beginning next ih => exact congrArg (Transaction.scan beginning) (funext ih)
  | write change next ih => exact congrArg (Transaction.write change) ih

/-- What is made of the value in the end does not matter for the reads. -/
theorem failing_map (f : α → β) (faults : Nat → Option StoreFailure) (t : Transaction α) :
    (f <$> t).failing faults = f <$> t.failing faults := by
  show (t.bind fun value => .done (f value)).failing faults = (t.failing faults).bind _
  induction t generalizing faults with
  | done value => rfl
  | abort failure => rfl
  | get key next ih =>
    simp only [Transaction.bind, failing]
    cases faults 0 with
    | some failure => rfl
    | none => exact congrArg (Transaction.get key) (funext fun value => ih value _)
  | scan beginning next ih =>
    simp only [Transaction.bind, failing]
    cases faults 0 with
    | some failure => rfl
    | none => exact congrArg (Transaction.scan beginning) (funext fun pairs => ih pairs _)
  | write change next ih => exact congrArg (Transaction.write change) (ih faults)

/-- Above a store a transaction only reads the store. -/
theorem run_alike {i j : ByteStore σ} (h : ByteStore.Alike i j) (t : Transaction α)
    (o : Overlay σ) : (letI _ := i; t.run o) = (letI _ := j; t.run o) := by
  induction t generalizing o with
  | done value => rfl
  | abort failure => rfl
  | get key next ih =>
    have hget : (letI _ := i; ByteStore.get o key) = (letI _ := j; ByteStore.get o key) := by
      simp only [ByteStore.get, h.get]
    simp only [run, hget, ih]
  | scan beginning next ih =>
    have hscan : (letI _ := i; ByteStore.scan o beginning) =
        (letI _ := j; ByteStore.scan o beginning) := by
      simp only [ByteStore.scan, h.scan]
    simp only [run, hscan, ih]
  | write w next ih =>
    cases w <;> exact ih _

end Transaction

/-- The plan while the reads of the store fail by a schedule. -/
def Plan.failing (p : Plan) (faults : Nat → Option StoreFailure) : Plan :=
  { p with transaction := p.transaction.failing faults }

/-! ## Steps -/

namespace Service

variable {σ α : Type}

section Commit

variable [ByteStore σ] [ByteStore.AllOrNothing σ]

open ByteStore (AllOrNothing)

/-- Some changes to a service were committed: in one batch, with strictly ascending keys, or, if
there are none, by leaving the store alone. Nothing has been published. -/
structure Committed (s : Service σ) (staged : List Write) (after : Service σ) : Prop where
  ascending : (staged.map Write.key).Pairwise (· < ·)
  accepted : staged ≠ [] → ByteStore.apply s.store staged = .ok after.store
  untouched : staged = [] → after.store = s.store
  contents_eq : AllOrNothing.contents after.store =
    (AllOrNothing.contents s.store).writeAll staged
  silent : after.sink = s.sink

omit [ByteStore σ] [AllOrNothing σ] in
theorem pairwise_writes (o : Overlay σ) : (o.writes.map Write.key).Pairwise (· < ·) := by
  rw [Overlay.writes, List.map_map, List.pairwise_map]
  refine o.pending.ascending.imp fun {a b} hlt => ?_
  simpa only [Function.comp_apply, Write.key_ofEntry] using hlt

/-- A step that succeeds commits all that its transaction staged. -/
theorem commit_ok {s after : Service σ} {t : Transaction α} {value : α}
    (h : s.commit t = .ok (value, after)) : ∃ o,
      t.run (Overlay.above s.store) = .ok (value, o) ∧ s.Committed o.writes after := by
  obtain ⟨o, hrun, ⟨hnone, rfl⟩ | ⟨hsome, store, happly, rfl⟩⟩ := exists_of_commit h
  · refine ⟨o, hrun, pairwise_writes o, fun hsome => absurd hnone hsome, fun _ => rfl, ?_, rfl⟩
    rw [hnone]
    rfl
  · exact ⟨o, hrun, pairwise_writes o, fun _ => happly, fun hnone => absurd hnone hsome,
      AllOrNothing.contents_apply happly, rfl⟩

end Commit

/-- Steps cannot tell stores apart that differ in what no step uses. -/
theorem commit_alike {i j : ByteStore σ} (h : ByteStore.Alike i j) (s : Service σ)
    (t : Transaction α) : (letI _ := i; s.commit t) = (letI _ := j; s.commit t) := by
  simp only [commit, Transaction.run_alike h]
  congr 1
  funext r
  split
  · rfl
  · rename_i hsome
    simp only [h.apply _ _ hsome]

theorem perform_alike {i j : ByteStore σ} (h : ByteStore.Alike i j) (s : Service σ) (p : Plan) :
    (letI _ := i; s.perform p) = (letI _ := j; s.perform p) := by
  simp only [perform, commit_alike h]

section Call

variable [i : ByteStore σ]

/-- Makes a call while the reads of the store fail by a schedule. -/
def callUnder (s : Service σ) (faults : Nat → Option StoreFailure) (c : Call) :
    Except Failure Reply × Service σ :=
  s.perform (c.plan.failing faults)

theorem callUnder_none (s : Service σ) (c : Call) : s.callUnder (fun _ => none) c = s.call c := by
  rw [call, callUnder, Plan.failing, Transaction.failing_none]

/-- Only commands have events. -/
theorem published_of_command?_eq_none {s after : Service σ} {c : Call}
    {faults : Nat → Option StoreFailure} {reply : Reply} (hc : c.command? = none)
    (h : s.commit (c.plan.failing faults).transaction = .ok (reply, after)) :
    Reply.published (.ok reply) = [] := by
  have hmap : ∀ {β : Type} (f : β → Reply) (t : Transaction β),
      s.commit ((f <$> t).failing faults) = .ok (reply, after) → ∃ value, reply = f value := by
    intro β f t hcommit
    rw [Transaction.failing_map, commit_map] at hcommit
    cases hvalue : s.commit (t.failing faults) with
    | error failure => rw [hvalue] at hcommit; cases hcommit
    | ok r => rw [hvalue] at hcommit; cases hcommit; exact ⟨r.1, rfl⟩
  cases c with
  | execute command => cases hc
  | handle command => cases hc
  | initialise genesis => obtain ⟨updates, rfl⟩ := hmap _ _ h; rfl
  | setParams params => obtain ⟨_, rfl⟩ := hmap _ _ h; rfl
  | endEpoch => obtain ⟨updates, rfl⟩ := hmap _ _ h; rfl

/-- **Calls are atomic.** Whatever a store holds, and whenever its reads and its batch fail: a call
that fails leaves the store as it was and publishes nothing. One that succeeds has committed all
that it staged, in one batch, and after that published the events of its reply, which only commands
have. No call uses single writes or a batch of nothing: a store that does something else on these
gives the same result. -/
theorem call_atomic [ByteStore.AllOrNothing σ] (s : Service σ)
    (faults : Nat → Option StoreFailure) (c : Call) :
    s.callUnder (fun _ => none) c = s.call c ∧
    (∀ j : ByteStore σ, ByteStore.Alike i j →
      (letI _ := j; s.callUnder faults c) = (letI _ := i; s.callUnder faults c)) ∧
    (∀ failure, (s.callUnder faults c).1 = .error failure →
      (s.callUnder faults c).2.store = s.store ∧ (s.callUnder faults c).2.sink = s.sink) ∧
    ∀ reply, (s.callUnder faults c).1 = .ok reply → ∃ o committed,
      (c.plan.failing faults).transaction.run (Overlay.above s.store) = .ok (reply, o) ∧
      s.Committed o.writes committed ∧
      (s.callUnder faults c).2.store = committed.store ∧
      (s.callUnder faults c).2.sink = committed.sink.publish (Reply.published (.ok reply)) ∧
      (c.command? = none → Reply.published (.ok reply) = []) := by
  refine ⟨s.callUnder_none c, fun j h => (perform_alike h s _).symm, ?_⟩
  rw [callUnder, perform]
  cases (c.plan.failing faults).check with
  | error failure => exact ⟨fun _ _ => ⟨rfl, rfl⟩, fun reply h => by cases h⟩
  | ok _ =>
    cases hcommit : s.commit (c.plan.failing faults).transaction with
    | error failure => exact ⟨fun _ _ => ⟨rfl, rfl⟩, fun reply h => by cases h⟩
    | ok r =>
      obtain ⟨o, hrun, hcommitted⟩ := commit_ok hcommit
      refine ⟨fun failure h => (by cases h), fun reply h => ?_⟩
      obtain rfl : r.1 = reply := Except.ok.inj h
      exact ⟨o, r.2, hrun, hcommitted, rfl, rfl, fun hc => published_of_command?_eq_none hc hcommit⟩

/-- A vote that admits a candidate publishes both of its events after its five changes were
accepted in one batch, which single writes are not needed for. If the last of its reads fails, there
is no trace of it. -/
theorem call_atomic_admission :
    let s : Service Backend := (({ store := {} } : Service Backend).run
      [.initialise .lone, .handle (.submitApplication (.uniform 2 2))]).2
    let voter := (Validator.uniform 1 1).operator
    let candidate := (Validator.uniform 2 2).operator
    let vote : Call := .handle (.voteApplication voter candidate true)
    let never : Nat → Option StoreFailure := fun _ => none
    let fifth : Nat → Option StoreFailure := fun n => if n = 4 then some (.backend "timeout") else none
    (letI _ := ByteStore.batchesOnly; s.callUnder never vote) = s.callUnder never vote ∧
    (∃ writes committed, writes.length = 5 ∧ s.Committed writes committed ∧
      (s.callUnder never vote).2.store = committed.store ∧
      (s.callUnder never vote).2.sink =
        s.sink.publish [.approveApplication voter candidate, .appendValidator candidate]) ∧
    (s.callUnder fifth vote).1 = .error (.storage (.backend "timeout")) ∧
    (s.callUnder fifth vote).2.store = s.store ∧ (s.callUnder fifth vote).2.sink = s.sink := by
  intro s voter candidate vote never fifth
  obtain ⟨-, hbatches, -, hadmitted⟩ := call_atomic s never vote
  obtain ⟨-, -, hfailed, -⟩ := call_atomic s fifth vote
  have hfailure : (s.callUnder fifth vote).1 = .error (.storage (.backend "timeout")) := by
    decide +kernel
  obtain ⟨o, committed, hrun, hcommitted, hstore, hsink, -⟩ :=
    hadmitted (.events [.approveApplication voter candidate, .appendValidator candidate])
      (by decide +kernel)
  have hlength : ((vote.plan.failing never).transaction.run (Overlay.above s.store)).map
      (fun r => r.2.writes.length) = .ok 5 := by decide +kernel
  rw [hrun] at hlength
  rw [hcommitted.silent] at hsink
  exact ⟨hbatches ByteStore.batchesOnly ⟨rfl, rfl, fun _ _ _ => rfl⟩,
    ⟨o.writes, committed, Except.ok.inj hlength, hcommitted, hstore, hsink⟩, hfailure,
    hfailed _ hfailure⟩

end Call

end Service

end AuthoritySet
