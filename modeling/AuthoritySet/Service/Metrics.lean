import AuthoritySet.Failure

/-!
# Metrics

How often each command came to each outcome, how many validators epochs added and removed, and how
often the registry turned out to be corrupt.
-/

namespace AuthoritySet

/-- Counters over the life of a service. -/
structure Metrics where
  /-- How often a command (by its name) had an outcome. Every pair stands here at most once. -/
  commands : List ((String × String) × Nat) := []
  added : Nat := 0
  removed : Nat := 0
  violations : Nat := 0
  deriving DecidableEq, Repr, Inhabited

namespace Metrics

/-- Counts one more under a label. -/
def countLabel (label : String × String) :
    List ((String × String) × Nat) → List ((String × String) × Nat)
  | [] => [(label, 1)]
  | e :: rest => if e.1 = label then (label, e.2 + 1) :: rest else e :: countLabel label rest

/-- Counts a command with its outcome. -/
def countCommand (m : Metrics) (command outcome : String) : Metrics :=
  { m with commands := countLabel (command, outcome) m.commands }

/-- Counts the updates of an epoch. -/
def countUpdates (m : Metrics) (added removed : Nat) : Metrics :=
  { m with added := m.added + added, removed := m.removed + removed }

/-- Counts a corrupt registry. -/
def countViolation (m : Metrics) : Metrics := { m with violations := m.violations + 1 }

/-- Counts a failure, if it shows that the registry is corrupt. -/
def countFailure (m : Metrics) (failure : Failure) : Metrics :=
  if failure.isFatal then m.countViolation else m

/-- How often a command had an outcome. -/
def commandCount (m : Metrics) (command outcome : String) : Nat :=
  (m.commands.lookup (command, outcome)).getD 0

/-- The command counters, ordered by command and outcome. -/
def listing (m : Metrics) : List ((String × String) × Nat) :=
  m.commands.mergeSort fun a b => a.1.1 < b.1.1 || (a.1.1 == b.1.1 && a.1.2 ≤ b.1.2)

end Metrics

end AuthoritySet
