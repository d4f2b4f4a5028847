import AuthoritySet.Proofs.Turn

/-!
# What calls come to

Lemmas about plans and how they are carried out. What holds of all calls is proved of
`Service.perform`, once.

* `Service.commit_map`: a step commits the same whatever is made of its value.
* `Service.initialise_eq`, `Service.endEpoch_of_commit`: the two calls that are made for what they
  answer.
-/

namespace AuthoritySet

/-- The command that a call gives, if it gives one. -/
def Call.command? : Call → Option Command
  | .execute command => some command
  | .handle command => some command
  | .initialise _ => none
  | .setParams _ => none
  | .endEpoch => none

/-- Publishing nothing changes nothing. -/
@[simp] theorem Sink.publish_nil (sink : Sink) : sink.publish [] = sink := by
  cases sink <;> simp [publish]

namespace Transaction

/-- A transaction whose value is looked at differently runs as before. -/
theorem run_map {α β σ : Type} [ByteStore σ] (f : α → β) (t : Transaction α) (store : σ) :
    (f <$> t).run store = (t.run store).map fun r => (f r.1, r.2) := by
  show (t >>= fun value => pure (f value)).run store = _
  rw [run_bind]
  cases t.run store <;> rfl

end Transaction

namespace Service

variable {σ : Type} [ByteStore σ] {s after : Service σ} {updates : List PowerUpdate}
  {failure : Failure}

/-- A step commits the same whatever is made of its value. -/
theorem commit_map {α β : Type} (s : Service σ) (f : α → β) (t : Transaction α) :
    s.commit (f <$> t) = (s.commit t).map fun r => (f r.1, r.2) := by
  simp only [commit, Transaction.run_map]
  cases t.run (Overlay.above s.store) with
  | error failure => rfl
  | ok r =>
    simp only [Except.map, bind, Except.bind]
    split
    · rfl
    · cases ByteStore.apply s.store r.2.writes <;> rfl

/-- Founding commits its transaction after the document has passed its check, and nothing besides. -/
theorem initialise_eq (s : Service σ) (g : Genesis) :
    s.initialise g = g.check >>= fun _ => s.commit (Founding.establish g) := by
  rw [initialise, call, perform]
  simp only [Call.plan, commit_map]
  cases g.check with
  | error failure => rfl
  | ok _ =>
    show _ = s.commit (Founding.establish g)
    cases s.commit (Founding.establish g) with
    | error failure => rfl
    | ok r => simp [Except.map, Reply.published, Reply.owed]

/-- A boundary that is committed answers its updates. -/
theorem endEpoch_of_commit (h : s.commit Epoch.settle = .ok (updates, after)) :
    s.endEpoch.1 = .ok updates ∧ s.endEpoch.2.store = after.store := by
  simp [endEpoch, call, perform, Call.plan, commit_map, h, Except.map, Reply.owed]

/-- A boundary that is not committed leaves the store as it is. -/
theorem endEpoch_of_commit_error (h : s.commit Epoch.settle = .error failure) :
    s.endEpoch.1 = .error failure ∧ s.endEpoch.2.store = s.store := by
  simp [endEpoch, call, perform, Call.plan, commit_map, h, Except.map]

end Service

end AuthoritySet
