import AuthoritySet.Genesis
import AuthoritySet.Registry

/-!
# Founding

Starting an authority set from a genesis document, and writing the document that it could be
started from again.
-/

namespace AuthoritySet

namespace Founding

open Transaction

/-- Seats validators that are known to the consensus layer from the start. -/
def seatAll : List Validator → Transaction (List PowerUpdate)
  | [] => return []
  | v :: rest => do
    Registry.setValidator v
    Registry.setLifecycle v.operator .joined
    let later ← seatAll rest
    return v.grant :: later

/-- Stores the parameters and seats the validators of a document. -/
def establish (g : Genesis) : Transaction (List PowerUpdate) := do
  Registry.setParams g.params
  seatAll g.validators

/-- The document of the present parameters and validators, whatever state these are in. -/
def document : Transaction Genesis := do
  let params ← Registry.params
  let validators ← Registry.validators
  return { params, validators }

end Founding

end AuthoritySet
