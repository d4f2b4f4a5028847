import AuthoritySet.Command
import AuthoritySet.Event
import AuthoritySet.Query
import AuthoritySet.Wire.Entities

/-!
# JSON forms of commands, events and queries

A command is a variant. An event is tagged by its `type`, a query by its `path`.
-/

namespace AuthoritySet

open Json

instance : JsonForm Command where
  toJson
    | .submitApplication candidate =>
      .ofFields [("SubmitApplication", .ofFields [("candidate", JsonForm.toJson candidate)])]
    | .voteApplication voter candidate approve =>
      .ofFields [("VoteApplication", .ofFields
        [("voter", JsonForm.toJson voter), ("candidate", JsonForm.toJson candidate),
         ("approve", JsonForm.toJson approve)])]
    | .proposeKick candidate proposer =>
      .ofFields [("ProposeKick", .ofFields
        [("candidate", JsonForm.toJson candidate), ("proposer", JsonForm.toJson proposer)])]
    | .voteKickProposal voter candidate approve =>
      .ofFields [("VoteKickProposal", .ofFields
        [("voter", JsonForm.toJson voter), ("candidate", JsonForm.toJson candidate),
         ("approve", JsonForm.toJson approve)])]
    | .leaveValidatorSet validator =>
      .ofFields [("LeaveValidatorSet", .ofFields [("validator", JsonForm.toJson validator)])]
  ofJson? j := do
    let (name, content) ← j.variant?
    match name with
    | "SubmitApplication" =>
      let fields ← content.record? ["candidate"]
      return .submitApplication (← field? fields "candidate")
    | "VoteApplication" =>
      let fields ← content.record? ["voter", "candidate", "approve"]
      return .voteApplication (← field? fields "voter") (← field? fields "candidate")
        (← field? fields "approve")
    | "ProposeKick" =>
      let fields ← content.record? ["candidate", "proposer"]
      return .proposeKick (← field? fields "candidate") (← field? fields "proposer")
    | "VoteKickProposal" =>
      let fields ← content.record? ["voter", "candidate", "approve"]
      return .voteKickProposal (← field? fields "voter") (← field? fields "candidate")
        (← field? fields "approve")
    | "LeaveValidatorSet" =>
      let fields ← content.record? ["validator"]
      return .leaveValidatorSet (← field? fields "validator")
    | _ => none

/-! ## Events -/

/-- A name in small letters, with an underscore in front of each capital but the first. -/
def snakeCase (name : String) : String :=
  match name.toList with
  | [] => ""
  | first :: others => .ofList <|
    first.toLower :: others.flatMap fun c => if c.isUpper then ['_', c.toLower] else [c]

/-- The variant that an event is. -/
def Event.variant : Event → String
  | .submitApplication _ => "SubmitApplication"
  | .appendValidator _ => "AppendValidator"
  | .proposeKick .. => "ProposeKick"
  | .kickValidator _ => "KickValidator"
  | .leaveValidatorSet _ => "LeaveValidatorSet"
  | .approveApplication .. => "ApproveApplication"
  | .rejectApplication .. => "RejectApplication"
  | .rejectValidator _ => "RejectValidator"
  | .approveKickProposal .. => "ApproveKickProposal"
  | .rejectKickProposal .. => "RejectKickProposal"
  | .keepValidator _ => "KeepValidator"

/-- The tag of an event in JSON. -/
def Event.tag (event : Event) : String := snakeCase event.variant

/-- The fields of an event behind its tag. -/
def Event.fields : Event → List (String × OperatorAddress)
  | .submitApplication candidate => [("candidate", candidate)]
  | .appendValidator candidate => [("candidate", candidate)]
  | .proposeKick validator proposer => [("validator", validator), ("proposer", proposer)]
  | .kickValidator validator => [("validator", validator)]
  | .leaveValidatorSet validator => [("validator", validator)]
  | .approveApplication voter candidate => [("voter", voter), ("candidate", candidate)]
  | .rejectApplication voter candidate => [("voter", voter), ("candidate", candidate)]
  | .rejectValidator candidate => [("candidate", candidate)]
  | .approveKickProposal voter validator => [("voter", voter), ("validator", validator)]
  | .rejectKickProposal voter validator => [("voter", voter), ("validator", validator)]
  | .keepValidator validator => [("validator", validator)]

/-- Reads an event that has one field. -/
def Event.ofOne? (build : OperatorAddress → Event) (name : String) (content : Json) :
    Option Event := do
  let fields ← content.record? [name]
  return build (← field? fields name)

/-- Reads an event that has two fields. -/
def Event.ofTwo? (build : OperatorAddress → OperatorAddress → Event) (first second : String)
    (content : Json) : Option Event := do
  let fields ← content.record? [first, second]
  return build (← field? fields first) (← field? fields second)

instance : JsonForm Event where
  toJson event := .ofFields
    (("type", .ofText event.tag) :: event.fields.map fun f => (f.1, JsonForm.toJson f.2))
  ofJson? j := do
    let (name, content) ← j.tagged? "type"
    match name with
    | "submit_application" => Event.ofOne? .submitApplication "candidate" content
    | "append_validator" => Event.ofOne? .appendValidator "candidate" content
    | "propose_kick" => Event.ofTwo? .proposeKick "validator" "proposer" content
    | "kick_validator" => Event.ofOne? .kickValidator "validator" content
    | "leave_validator_set" => Event.ofOne? .leaveValidatorSet "validator" content
    | "approve_application" => Event.ofTwo? .approveApplication "voter" "candidate" content
    | "reject_application" => Event.ofTwo? .rejectApplication "voter" "candidate" content
    | "reject_validator" => Event.ofOne? .rejectValidator "candidate" content
    | "approve_kick_proposal" => Event.ofTwo? .approveKickProposal "voter" "validator" content
    | "reject_kick_proposal" => Event.ofTwo? .rejectKickProposal "voter" "validator" content
    | "keep_validator" => Event.ofOne? .keepValidator "validator" content
    | _ => none

/-! ## Queries -/

/-- The fields of a query behind its tag. -/
def Query.fields : Query → List (String × Json)
  | .validators page limit => [("page", JsonForm.toJson page), ("limit", JsonForm.toJson limit)]
  | .validator operator => [("validator_addr", JsonForm.toJson operator)]
  | .params => []
  | .applications => []
  | .kickProposals => []

/-- Reads a query that has no fields. -/
def Query.ofNone? (query : Query) (content : Json) : Option Query :=
  if content.isBare then some query else none

instance : JsonForm Query where
  toJson query := .ofFields (("path", .ofText query.name) :: query.fields)
  ofJson? j := do
    let (name, content) ← j.tagged? "path"
    match name with
    | "validators" =>
      let fields ← content.record? ["page", "limit"]
      return .validators (← fieldOr? fields "page" 1) (← fieldOr? fields "limit" 0)
    | "validator" =>
      let fields ← content.record? ["validator_addr"]
      return .validator (← field? fields "validator_addr")
    | "params" => Query.ofNone? .params content
    | "applications" => Query.ofNone? .applications content
    | "kick-proposals" => Query.ofNone? .kickProposals content
    | _ => none

end AuthoritySet
