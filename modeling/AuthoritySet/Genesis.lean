import AuthoritySet.Params
import AuthoritySet.Validator

/-!
# Genesis documents

The parameters and the validators that an authority set starts from.

* `Genesis.check`: every validator is complete, no key and no operator stands twice, and there are
  seats for all. The first validator at fault is reported; the parameters come last.
-/

namespace AuthoritySet

/-- What an authority set starts from. -/
structure Genesis where
  params : Params := {}
  validators : List Validator := []
  deriving DecidableEq, Repr, Inhabited

namespace Genesis

/-- Checks validators one after the other against the keys and operators that stand before them. -/
def checkValidators (keys : List ConsensusKey) (operators : List OperatorAddress) :
    List Validator → Except Failure Unit
  | [] => .ok ()
  | v :: rest => do
    v.check
    if v.key ∈ keys then
      .error (.invalidGenesis (.repeatedKey v.description.moniker.value v.address))
    else if v.operator ∈ operators then
      .error (.invalidGenesis (.repeatedOperator v.operator))
    else checkValidators (v.key :: keys) (v.operator :: operators) rest

/-- Whether a document may start an authority set. -/
def check (g : Genesis) : Except Failure Unit := do
  checkValidators [] [] g.validators
  if g.params.maxValidators.toNat < g.validators.length then
    .error (.invalidGenesis (.tooManyValidators g.validators.length g.params.maxValidators))
  else g.params.check

end Genesis

end AuthoritySet
