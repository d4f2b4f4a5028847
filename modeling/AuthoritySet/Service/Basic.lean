import AuthoritySet.Command
import AuthoritySet.Governance.Admission
import AuthoritySet.Governance.Epoch
import AuthoritySet.Governance.Expulsion
import AuthoritySet.Governance.Founding
import AuthoritySet.Service.Metrics

/-!
# The governance service

A `Service` owns a store, a sink for events and its metrics. Every step is a transaction that runs
above the store and is written to it in one go, so that a step that fails writes nothing.

* `Command.transaction`: what a command does.
* `Service.commit`: runs a transaction and writes its changes.
* `Service.view`: runs a transaction for what it reads.
-/

namespace AuthoritySet

/-- Where the events of committed commands go. -/
inductive Sink where
  /-- They are kept, in the order in which they were published. -/
  | memory (events : List Event)
  /-- They go to a log that nobody here reads. -/
  | log
  deriving DecidableEq, Repr

namespace Sink

/-- Publishes some events, the first one first. -/
def publish (sink : Sink) (events : List Event) : Sink :=
  match sink with
  | .memory before => .memory (before ++ events)
  | .log => .log

/-- The events that are kept. -/
def events : Sink → List Event
  | .memory events => events
  | .log => []

/-- Forgets the events that are kept. -/
def clear : Sink → Sink
  | .memory _ => .memory []
  | .log => .log

end Sink

/-- The transaction that carries out a command. -/
def Command.transaction : Command → Transaction (List Event)
  | .submitApplication candidate => Admission.submit candidate
  | .voteApplication voter candidate approve => Admission.vote voter candidate approve
  | .proposeKick candidate proposer => Expulsion.propose candidate proposer
  | .voteKickProposal voter candidate approve => Expulsion.vote voter candidate approve
  | .leaveValidatorSet validator => Expulsion.leave validator

/-- A store with a sink for events and metrics. -/
structure Service (σ : Type) where
  store : σ
  sink : Sink := .memory []
  metrics : Metrics := {}

namespace Service

variable {σ α : Type} [ByteStore σ]

/-- Runs a transaction above the store and writes its changes, if there are any, in one go. -/
def commit (s : Service σ) (t : Transaction α) : Except Failure (α × Service σ) := do
  let (value, overlay) ← t.run (Overlay.above s.store)
  if overlay.writes = [] then return (value, s)
  else
    match ByteStore.apply s.store overlay.writes with
    | .ok store => return (value, { s with store })
    | .error failure => throw (.storage failure)

/-- Runs a transaction above the store and drops its changes. -/
def view (s : Service σ) (t : Transaction α) : Except Failure α := do
  let (value, _) ← t.run (Overlay.above s.store)
  return value

end Service

end AuthoritySet
