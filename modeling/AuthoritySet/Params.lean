import AuthoritySet.Failure

/-!
# Governance parameters

How many validators may be seated, and which percentage of the voters decides a ballot. A quorum
of zero switches balloting off: applications and expulsions then take effect at once.
-/

namespace AuthoritySet

/-- The parameters that every governance command reads. -/
structure Params where
  maxValidators : UInt16 := 15
  quorum : UInt16 := 66
  deriving DecidableEq, Repr, Inhabited

namespace Params

/-- Whether applications and expulsions take effect without a ballot. -/
def isInstant (p : Params) : Bool := p.quorum == 0

/-- There must be a seat, and the quorum must be a percentage. -/
def check (p : Params) : Except Failure Unit :=
  if p.maxValidators = 0 then .error (.invalidParams (.noSeats p.maxValidators))
  else if 100 < p.quorum then .error (.invalidParams (.quorumAboveHundred p.quorum))
  else .ok ()

/-- The parameters in words. -/
def summary (p : Params) : String :=
  "Max validators: " ++ toString p.maxValidators ++ ", quorum: " ++ toString p.quorum ++ "%"

end Params

end AuthoritySet
