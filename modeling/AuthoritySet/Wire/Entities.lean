import AuthoritySet.Ballot
import AuthoritySet.Genesis
import AuthoritySet.Json.Form

/-!
# JSON forms of what an authority set consists of

Identities are texts of hexadecimal digits; all else is records with their fields in a fixed order.
Genesis documents are written with a line for each item.
-/

namespace AuthoritySet

open Json

instance {kind : IdentityKind} : JsonForm (Identity kind) where
  toJson id := .ofText id.hex
  ofJson? j := do
    let text ← j.text?
    match Hex.decode (Bytes.ofText text) with
    | .ok bytes => Identity.ofBytes? bytes
    | .error _ => none

instance : JsonForm DisplayText where
  toJson text := .ofText text.value
  ofJson? j := do DisplayText.ofString? (← j.text?)

instance : JsonForm Description where
  toJson d := .ofFields
    [("moniker", JsonForm.toJson d.moniker), ("identity", JsonForm.toJson d.identity),
     ("website", JsonForm.toJson d.website), ("security_contact", JsonForm.toJson d.securityContact),
     ("details", JsonForm.toJson d.details)]
  ofJson? j := do
    let fields ← j.record? ["moniker", "identity", "website", "security_contact", "details"]
    return {
      moniker := ← field? fields "moniker"
      identity := ← field? fields "identity"
      website := ← field? fields "website"
      securityContact := ← field? fields "security_contact"
      details := ← field? fields "details" }

instance : JsonForm Validator where
  toJson v := .ofFields
    [("operator_address", JsonForm.toJson v.operator),
     ("consensus_pubkey", JsonForm.toJson v.key),
     ("description", JsonForm.toJson v.description)]
  ofJson? j := do
    let fields ← j.record? ["operator_address", "consensus_pubkey", "description"]
    return {
      operator := ← field? fields "operator_address"
      key := ← field? fields "consensus_pubkey"
      description := ← field? fields "description" }

instance : JsonForm PowerUpdate where
  toJson u := .ofFields
    [("consensus_address", JsonForm.toJson u.address), ("pub_key", JsonForm.toJson u.key),
     ("power", JsonForm.toJson u.power)]
  ofJson? j := do
    let fields ← j.record? ["consensus_address", "pub_key", "power"]
    return {
      address := ← field? fields "consensus_address"
      key := ← field? fields "pub_key"
      power := ← field? fields "power" }

/-- The name of a lifecycle state in JSON. -/
def Lifecycle.jsonName : Lifecycle → String
  | .joining => "Joining"
  | .joined => "Joined"
  | .leaving => "Leaving"

instance : JsonForm Lifecycle where
  toJson state := .ofText state.jsonName
  ofJson? j := do
    let name ← j.bareVariant?
    [Lifecycle.joining, .joined, .leaving].find? fun state => state.jsonName = name

/-- The name of a kind of ballot in JSON. -/
def Ballot.Kind.jsonName : Ballot.Kind → String
  | .application => "Application"
  | .kickProposal => "KickProposal"

instance : JsonForm Ballot.Kind where
  toJson kind := .ofText kind.jsonName
  ofJson? j := do
    let name ← j.bareVariant?
    [Ballot.Kind.application, .kickProposal].find? fun kind => kind.jsonName = name

instance : JsonForm Params where
  toJson p := .ofFields
    [("max_validators", JsonForm.toJson p.maxValidators), ("quorum", JsonForm.toJson p.quorum)]
  ofJson? j := do
    let fields ← j.record? ["max_validators", "quorum"]
    return {
      maxValidators := ← field? fields "max_validators"
      quorum := ← field? fields "quorum" }

instance : JsonForm Ballot where
  toJson b := .ofFields
    [("subject", JsonForm.toJson b.subject), ("approvals", JsonForm.toJson b.approvals),
     ("total", JsonForm.toJson b.total), ("voters", JsonForm.toJson b.voters)]
  ofJson? j := do
    let fields ← j.record? ["subject", "approvals", "total", "voters"]
    return {
      subject := ← field? fields "subject"
      approvals := ← field? fields "approvals"
      total := ← field? fields "total"
      voters := ← field? fields "voters" }

instance : JsonForm Genesis where
  toJson g := .ofFields
    [("params", JsonForm.toJson g.params), ("validators", JsonForm.toJson g.validators)]
  ofJson? j := do
    let fields ← j.record? ["params", "validators"]
    return {
      params := ← field? fields "params"
      validators := ← fieldOr? fields "validators" [] }

namespace Genesis

/-- The text of a genesis document. -/
def render (g : Genesis) : Bytes := (JsonForm.toJson g).pretty

/-- Reads a genesis document. -/
def parse (document : Bytes) : Except Failure Genesis :=
  match JsonForm.read? document with
  | some g => .ok g
  | none => .error (.invalidGenesis .unreadable)

/-- Reads a genesis file, if there is one. -/
def load (file : Option Bytes) : Except Failure Genesis :=
  match file with
  | some document => parse document
  | none => .error (.invalidGenesis .unreadable)

end Genesis

end AuthoritySet
