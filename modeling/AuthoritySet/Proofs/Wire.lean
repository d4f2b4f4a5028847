import AuthoritySet.Proofs.Json.Form
import AuthoritySet.Service.Queries

/-!
# What is written is read back

The JSON forms of entities, commands, events and queries are lawful: each value is written with
natural numbers and well-formed strings only, and read from its form as it was. Reading looks its
names up in tables of its own, so every name that is written is met there again.

* `Event.tag_eq_name`, `Event.tagged?_toJson`: an event is tagged by its stable name.
* `Genesis.parse_render`: genesis documents.
* `conveys_map_write`, `Service.answers`: the answers to queries.
* `written_read_back`: all of it.
-/

namespace AuthoritySet

open Json JsonForm

/-! ## Entities -/

theorem Hex.encode_lt (bytes : Bytes) : ∀ b ∈ Hex.encode bytes, b < 0x80 := by
  have hdigit : ∀ k < 16, Hex.digit (UInt8.ofNat k) < 0x80 := by decide
  have hlt {n : UInt8} (h : n.toNat < 16) : Hex.digit n < 0x80 := by
    have := hdigit n.toNat h
    rwa [UInt8.ofNat_toNat] at this
  induction bytes with
  | nil => exact nofun
  | cons byte rest ih =>
    have hbyte := byte.toNat_lt
    simp only [Hex.encode, List.forall_mem_cons]
    exact ⟨hlt (by simp; omega), hlt (by simp; omega), ih⟩

instance {kind : IdentityKind} : Lawful (Identity kind) where
  plain id := plain_string id.hex
  ofJson?_toJson id := by
    have hdecode : Hex.decode (Hex.encode id.bytes) = .ok id.bytes := by
      rw [Hex.decode, if_pos (by rw [Hex.length_encode]; omega), Hex.decodePairs_encode]
    have hbytes : Identity.ofBytes? id.bytes = some id := by
      simp [Identity.ofBytes?, id.length_eq]
    show (match Hex.decode (Bytes.ofText id.hex) with
      | .ok bytes => Identity.ofBytes? bytes
      | .error _ => none) = some id
    rw [Identity.hex, Bytes.ofText_ascii (Hex.encode_lt id.bytes), hdecode]
    exact hbytes

instance : Lawful DisplayText where
  plain text := plain_string text.value
  ofJson?_toJson := DisplayText.ofString?_value

instance : Lawful Description where
  plain d := plain_ofFields (by simp [Lawful.plain])
  ofJson?_toJson d := (record?_bind rfl (by simp)).trans (by simp)

instance : Lawful Validator where
  plain v := plain_ofFields (by simp [Lawful.plain])
  ofJson?_toJson v := (record?_bind rfl (by simp)).trans (by simp)

instance : Lawful PowerUpdate where
  plain u := plain_ofFields (by simp [Lawful.plain])
  ofJson?_toJson u := (record?_bind rfl (by simp)).trans (by simp)

instance : Lawful Lifecycle where
  plain state := plain_string state.jsonName
  ofJson?_toJson state := by cases state <;> rfl

instance : Lawful Ballot.Kind where
  plain kind := plain_string kind.jsonName
  ofJson?_toJson kind := by cases kind <;> rfl

instance : Lawful Params where
  plain p := plain_ofFields (by simp [Lawful.plain])
  ofJson?_toJson p := (record?_bind rfl (by simp)).trans (by simp)

instance : Lawful Ballot where
  plain b := plain_ofFields (by simp [Lawful.plain])
  ofJson?_toJson b := (record?_bind rfl (by simp)).trans (by simp)

instance : Lawful Genesis where
  plain g := plain_ofFields (by simp [Lawful.plain])
  ofJson?_toJson g := (record?_bind rfl (by simp)).trans (by simp)

/-- A genesis document is read as it was rendered. -/
theorem Genesis.parse_render (g : Genesis) : parse g.render = .ok g := by
  rw [parse, render, JsonForm.read?_pretty]

/-! ## Commands -/

namespace Command

/-- The name of a command in JSON. -/
def jsonName : Command → String
  | .submitApplication _ => "SubmitApplication"
  | .voteApplication .. => "VoteApplication"
  | .proposeKick .. => "ProposeKick"
  | .voteKickProposal .. => "VoteKickProposal"
  | .leaveValidatorSet _ => "LeaveValidatorSet"

/-- The fields of a command as they are written. -/
def jsonFields : Command → List (String × Json)
  | .submitApplication candidate => [("candidate", toJson candidate)]
  | .voteApplication voter candidate approve | .voteKickProposal voter candidate approve =>
    [("voter", toJson voter), ("candidate", toJson candidate), ("approve", toJson approve)]
  | .proposeKick candidate proposer =>
    [("candidate", toJson candidate), ("proposer", toJson proposer)]
  | .leaveValidatorSet validator => [("validator", toJson validator)]

/-- A command is written as an object with its name as the only key. -/
theorem toJson_eq (c : Command) : toJson c = .ofFields [(c.jsonName, .ofFields c.jsonFields)] := by
  cases c <;> rfl

/-- The name of a command is found, and its fields. -/
theorem variant?_toJson (c : Command) :
    (toJson c).variant? = some (c.jsonName, .ofFields c.jsonFields) := by
  rw [toJson_eq]
  rfl

end Command

instance : Lawful Command where
  plain c := by
    cases c <;> exact plain_ofFields (List.forall_mem_singleton.mpr
      (plain_ofFields (by simp [Lawful.plain])))
  ofJson?_toJson c := by
    show ((toJson c).variant? >>= _) = some c
    rw [c.variant?_toJson]
    cases c <;> simp [Command.jsonName, Command.jsonFields, record?_ofFields]

/-! ## Events -/

namespace Event

/-- The fields of an event as they are written. -/
def jsonFields (e : Event) : List (String × Json) := e.fields.map fun f => (f.1, toJson f.2)

/-- The tag of an event is its stable name. -/
theorem tag_eq_name (e : Event) : e.tag = e.name := by
  cases e <;> simp [tag, variant, snakeCase, name]

/-- The only member of an event's object that is called `type` is its stable name. -/
theorem filter_type (e : Event) :
    ((("type", ofText e.tag) :: e.jsonFields).map fun f => (some f.1, f.2)).filter
      (fun m => m.1 = some "type") = [(some "type", ofText e.name)] := by
  rw [tag_eq_name]
  cases e <;> simp [jsonFields, fields]

/-- The name of an event is found, and its fields. -/
theorem tagged?_toJson (e : Event) :
    (toJson e).tagged? "type" = some (e.name, .ofFields e.jsonFields) := by
  rw [← tag_eq_name]
  refine tagged?_ofFields e.tag (fun f hf => ?_) (fun f hf => ?_)
  · obtain ⟨_, -, rfl⟩ := List.mem_map.mp hf
    exact isStrict_ofText _
  · revert f
    cases e <;> simp [fields]

theorem ofOne?_ofFields (build : OperatorAddress → Event) (name : String)
    (operator : OperatorAddress) :
    ofOne? build name (.ofFields [(name, toJson operator)]) = some (build operator) :=
  (record?_bind rfl (by simp)).trans (by simp)

theorem ofTwo?_ofFields (build : OperatorAddress → OperatorAddress → Event) {first second : String}
    (h : first ≠ second) (a b : OperatorAddress) :
    ofTwo? build first second (.ofFields [(first, toJson a), (second, toJson b)]) =
      some (build a b) :=
  (record?_bind rfl (by simp [h])).trans (by simp [h.symm])

end Event

instance : Lawful Event where
  plain e := plain_ofFields <| List.forall_mem_cons.mpr ⟨plain_string e.tag, fun f hf => by
    obtain ⟨_, -, rfl⟩ := List.mem_map.mp hf
    exact Lawful.plain _⟩
  ofJson?_toJson e := by
    show ((toJson e).tagged? "type" >>= _) = some e
    rw [e.tagged?_toJson]
    cases e <;> simp [Event.name, Event.jsonFields, Event.fields, Event.ofOne?_ofFields,
      Event.ofTwo?_ofFields]

/-! ## Queries -/

namespace Query

theorem isStrict_fields (q : Query) {depth : Nat} :
    ∀ f ∈ q.fields, f.2.isStrict depth = true := by
  have hnumber (n : UInt32) : (toJson n).isStrict depth = true :=
    isStrict_natural (Nat.lt_trans n.toNat_lt (by decide))
  cases q with
  | validators page limit => simp [fields, hnumber]
  | validator operator => exact List.forall_mem_singleton.mpr (isStrict_ofText _)
  | params | applications | kickProposals => exact nofun

/-- The name of a query is found, and its fields. -/
theorem tagged?_toJson (q : Query) :
    (toJson q).tagged? "path" = some (q.name, .ofFields q.fields) :=
  tagged?_ofFields q.name q.isStrict_fields (by cases q <;> simp [fields])

end Query

instance : Lawful Query where
  plain q := plain_ofFields <| List.forall_mem_cons.mpr ⟨plain_string q.name, by
    cases q <;> simp [Query.fields, Lawful.plain]⟩
  ofJson?_toJson q := by
    show ((toJson q).tagged? "path" >>= _) = some q
    rw [q.tagged?_toJson]
    cases q with
    | validators | validator => simp [Query.name, Query.fields, record?_ofFields]
    | params | applications | kickProposals => rfl

/-! ## Answers -/

/-- An answer conveys a result if it fails as the result does, and is read back as the result
otherwise. -/
def Conveys {α : Type} [JsonForm α] (answer : Except Failure Bytes) (result : Except Failure α) :
    Prop :=
  (∀ failure, answer = .error failure ↔ result = .error failure) ∧
  ∀ document, answer = .ok document →
    ∃ value, result = .ok value ∧ JsonForm.read? document = some value

/-- A result that is written as it is is conveyed. -/
theorem conveys_map_write {α : Type} [JsonForm α] [Lawful α] (result : Except Failure α) :
    Conveys (result.map write) result := by
  cases result with
  | error failure => exact ⟨fun _ => by simp [Except.map], nofun⟩
  | ok value =>
    refine ⟨fun _ => by simp [Except.map], fun document hdocument => ⟨value, rfl, ?_⟩⟩
    obtain rfl : write value = document := by simpa [Except.map] using hdocument
    exact read?_write value

namespace Service

variable {σ : Type} [ByteStore σ]

/-- The answer to a query conveys what is asked for. -/
def Answers (s : Service σ) : Query → Prop
  | .validators page limit => Conveys (s.answer (.validators page limit)) (s.validators page limit)
  | .validator operator => Conveys (s.answer (.validator operator)) (s.validator operator)
  | .params => Conveys (s.answer .params) s.params
  | .applications => Conveys (s.answer .applications) (s.ballots .application)
  | .kickProposals => Conveys (s.answer .kickProposals) (s.ballots .kickProposal)

theorem answers (s : Service σ) (q : Query) : s.Answers q := by
  cases q with
  | validators page limit => exact conveys_map_write (s.validators page limit)
  | validator operator => exact conveys_map_write (s.validator operator)
  | params => exact conveys_map_write s.params
  | applications => exact conveys_map_write (s.ballots .application)
  | kickProposals => exact conveys_map_write (s.ballots .kickProposal)

end Service

/-! ## Everything that is written -/

/-- Whatever is written is read back as it was, a genesis document in its own layout too. An event
carries its stable name, and the answer to any query conveys what is asked for. -/
theorem written_read_back :
    (∀ c : Command, JsonForm.read? (write c) = some c) ∧
    (∀ e : Event, JsonForm.read? (write e) = some e) ∧
    (∀ q : Query, JsonForm.read? (write q) = some q) ∧
    (∀ g : Genesis, JsonForm.read? (write g) = some g ∧ Genesis.parse g.render = .ok g) ∧
    (∀ v : Validator, JsonForm.read? (write v) = some v) ∧
    (∀ d : Description, JsonForm.read? (write d) = some d) ∧
    (∀ b : Ballot, JsonForm.read? (write b) = some b) ∧
    (∀ p : Params, JsonForm.read? (write p) = some p) ∧
    (∀ u : PowerUpdate, JsonForm.read? (write u) = some u) ∧
    (∀ e : Event, ∃ members, Json.read? (write e) = some (.object members) ∧
      members.filter (fun m => m.1 = some "type") = [(some "type", .string (some e.name))]) ∧
    ∀ (σ : Type) [ByteStore σ] (s : Service σ) (q : Query), s.Answers q :=
  ⟨read?_write, read?_write, read?_write, fun g => ⟨read?_write g, g.parse_render⟩, read?_write,
    read?_write, read?_write, read?_write, read?_write,
    fun e => ⟨_, read?_compact (Lawful.plain e), e.filter_type⟩, fun _ _ s q => s.answers q⟩

end AuthoritySet
