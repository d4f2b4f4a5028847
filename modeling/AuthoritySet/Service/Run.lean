import AuthoritySet.Service.Basic

/-!
# Calls and runs of a service

A `Call` is anything that can change what a service holds. All calls are made in one way: the
arguments are checked, a transaction is committed, the events of the reply are published after that,
and the counters are brought up to date, also if the call fails. A call only says which check, which
transaction and which counters these are (`Plan`).

* `Call.plan`: what each call comes to.
* `Service.perform`: carries out a plan. After a plan that failed only the metrics differ.
* `Service.call`: makes a call. `Service.initialise`, `Service.endEpoch`: two calls with what they
  are made for.
* `Service.run`: the replies to all calls of a run and the service at its end.
-/

namespace AuthoritySet

/-- A use of a service that may change it. -/
inductive Call where
  /-- A command that is carried out as it is. -/
  | execute (command : Command)
  /-- A command that is checked on its own first. -/
  | handle (command : Command)
  | initialise (genesis : Genesis)
  | setParams (params : Params)
  | endEpoch
  deriving DecidableEq, Repr

/-- What a call that is carried out returns. -/
inductive Reply where
  | events (events : List Event)
  | updates (updates : List PowerUpdate)
  | done
  deriving DecidableEq, Repr

namespace Reply

/-- The events that go with a reply. -/
def published : Except Failure Reply → List Event
  | .ok (.events es) => es
  | .ok (.updates _) => []
  | .ok .done => []
  | .error _ => []

/-- The updates that go with a reply. -/
def owed : Except Failure Reply → List PowerUpdate
  | .ok (.events _) => []
  | .ok (.updates us) => us
  | .ok .done => []
  | .error _ => []

end Reply

/-! ## Plans -/

/-- What a call comes to. -/
structure Plan where
  check : Except Failure Unit := .ok ()
  transaction : Transaction Reply
  /-- The counters after arguments that did not pass the check. -/
  refused : Failure → Metrics → Metrics := fun _ m => m
  /-- The counters after a transaction that failed, or could not be written. -/
  failed : Failure → Metrics → Metrics := fun _ m => m
  carriedOut : Reply → Metrics → Metrics := fun _ m => m

namespace Call

/-- The plan of a command that is carried out as it is. -/
def commandPlan (c : Command) : Plan where
  transaction := Reply.events <$> c.transaction
  failed failure m := (m.countCommand c.name failure.kind).countFailure failure
  carriedOut _ m := m.countCommand c.name "ok"

/-- What a call comes to. -/
def plan : Call → Plan
  | .execute command => commandPlan command
  | .handle command =>
    { commandPlan command with
      check := command.check
      refused := fun failure m => m.countCommand command.name failure.kind }
  | .initialise genesis =>
    { check := genesis.check, transaction := Reply.updates <$> Founding.establish genesis }
  | .setParams params =>
    { check := params.check, transaction := (fun _ => Reply.done) <$> Registry.setParams params }
  | .endEpoch =>
    { transaction := Reply.updates <$> Epoch.settle
      failed := fun failure m => m.countFailure failure
      carriedOut := fun reply m =>
        let updates := Reply.owed (.ok reply)
        let removed := updates.countP PowerUpdate.isRemoval
        m.countUpdates (updates.length - removed) removed }

end Call

namespace Service

variable {σ : Type} [ByteStore σ]

/-- Carries out a plan. -/
def perform (s : Service σ) (p : Plan) : Except Failure Reply × Service σ :=
  match p.check with
  | .error failure => (.error failure, { s with metrics := p.refused failure s.metrics })
  | .ok () =>
    match s.commit p.transaction with
    | .error failure => (.error failure, { s with metrics := p.failed failure s.metrics })
    | .ok (reply, committed) =>
      (.ok reply,
        { committed with
          sink := committed.sink.publish (Reply.published (.ok reply))
          metrics := p.carriedOut reply committed.metrics })

/-- Makes one call. -/
def call (s : Service σ) (c : Call) : Except Failure Reply × Service σ := s.perform c.plan

/-- Starts the authority set of a genesis document. -/
def initialise (s : Service σ) (g : Genesis) : Except Failure (List PowerUpdate × Service σ) :=
  match s.call (.initialise g) with
  | (.ok reply, s) => .ok (Reply.owed (.ok reply), s)
  | (.error failure, _) => .error failure

/-- Settles an epoch boundary. -/
def endEpoch (s : Service σ) : Except Failure (List PowerUpdate) × Service σ :=
  let (reply, s) := s.call .endEpoch
  (reply.map fun reply => Reply.owed (.ok reply), s)

/-- Makes some calls, one after the other. -/
def run (s : Service σ) : List Call → List (Except Failure Reply) × Service σ
  | [] => ([], s)
  | c :: rest =>
    let (reply, s) := s.call c
    let (replies, s) := s.run rest
    (reply :: replies, s)

end Service

end AuthoritySet
