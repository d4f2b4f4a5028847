import AuthoritySet.Registry

/-!
# Epoch boundaries

At an epoch boundary every joining validator becomes joined and every leaving one is removed, and
the consensus layer is told of both. Validators are visited in the order of their operators.
-/

namespace AuthoritySet

namespace Epoch

open Transaction

/-- Settles one validator that is in a state. -/
def settleIn (v : Validator) : Lifecycle → Transaction (List PowerUpdate)
  | .joined => return []
  | .joining => do
    Registry.setLifecycle v.operator .joined
    return [v.grant]
  | .leaving => do
    Registry.unseat v.operator
    return [v.revoke]

/-- Settles some entries of the registry, one after the other. -/
def settleAll : List (Except Failure Validator) → Transaction (List PowerUpdate)
  | [] => return []
  | entry :: rest => do
    let v ← ofExcept entry
    let state ← expect (← Registry.lifecycle? v.operator)
      (.invariantViolation v.operator .entryWithoutState)
    let updates ← settleIn v state
    let later ← settleAll rest
    return updates ++ later

/-- Settles all that was decided since the last boundary. The entries are those of the registry at
the beginning. -/
def settle : Transaction (List PowerUpdate) := do
  settleAll (← Registry.entries)

end Epoch

end AuthoritySet
