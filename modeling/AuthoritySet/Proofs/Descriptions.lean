import AuthoritySet.Proofs.Integrity
import AuthoritySet.Proofs.Ledger.Anonymous
import Mathlib.Data.List.Forall2

/-!
# Nothing depends on descriptions

Two runs may differ in what validators say about themselves, as long as nobody says nothing in one
of them alone (`Call.Alike`). They have the same outcomes and publish the same events, and their
stores have the same keys and differ in nothing but descriptions.

* `Contents.anonymous`: stored bytes without descriptions.
* `Ledger.anonymous_contents`: they are the bytes of the ledger without descriptions.
* `Ledger.call_alike`: what a call makes of two ledgers that differ in descriptions alone.
* `Service.descriptions_immaterial`: what this comes to over all runs.
-/

namespace AuthoritySet

/-! ## Calls that differ in descriptions -/

/-- Two records are about the same validator, and both say something about it or neither does. -/
structure Validator.Alike (v w : Validator) : Prop where
  operator_eq : v.operator = w.operator
  key_eq : v.key = w.key
  isEmpty_eq : v.description.isEmpty = w.description.isEmpty

/-- Two commands differ in nothing but the description of a candidate. -/
inductive Command.Alike : Command → Command → Prop
  | submitApplication {v w : Validator} (candidate : v.Alike w) :
    Alike (.submitApplication v) (.submitApplication w)
  | same (c : Command) : Alike c c

/-- Two documents differ in nothing but descriptions. -/
structure Genesis.Alike (g h : Genesis) : Prop where
  params_eq : g.params = h.params
  validators : List.Forall₂ Validator.Alike g.validators h.validators

/-- Two calls differ in nothing but descriptions. -/
inductive Call.Alike : Call → Call → Prop
  | execute {c d : Command} (command : c.Alike d) : Alike (.execute c) (.execute d)
  | handle {c d : Command} (command : c.Alike d) : Alike (.handle c) (.handle d)
  | initialise {g h : Genesis} (genesis : g.Alike h) : Alike (.initialise g) (.initialise h)
  | setParams (params : Params) : Alike (.setParams params) (.setParams params)
  | endEpoch : Alike .endEpoch .endEpoch

theorem Validator.Alike.anonymous_eq {v w : Validator} (h : v.Alike w) :
    v.anonymous = w.anonymous := by
  rw [Validator.anonymous, Validator.anonymous, h.operator_eq, h.key_eq]

theorem Validator.Alike.check_eq {v w : Validator} (h : v.Alike w) : v.check = w.check := by
  rw [check, check, h.operator_eq, h.key_eq, h.isEmpty_eq]

theorem Command.Alike.anonymous_eq {c d : Command} (h : c.Alike d) :
    c.anonymous = d.anonymous := by
  cases h with
  | submitApplication candidate => exact congrArg Command.submitApplication candidate.anonymous_eq
  | same => rfl

theorem Command.Alike.check_eq {c d : Command} (h : c.Alike d) : c.check = d.check := by
  cases h with
  | submitApplication candidate => exact candidate.check_eq
  | same => rfl

namespace Genesis

theorem Alike.anonymous_eq {g h : Genesis} (hgh : g.Alike h) : g.anonymous = h.anonymous := by
  have hvalidators : g.validators.map Validator.anonymous =
      h.validators.map Validator.anonymous := by
    rw [← List.forall₂_eq_eq_eq, List.forall₂_map_left_iff, List.forall₂_map_right_iff]
    exact hgh.validators.imp fun _ _ hvw => hvw.anonymous_eq
  rw [anonymous, anonymous, hgh.params_eq, hvalidators]

/-- A check reports the same kind of fault; its wording names the validator by its moniker. -/
theorem checkValidators_alike {vs ws : List Validator} (h : List.Forall₂ Validator.Alike vs ws)
    (keys : List ConsensusKey) (operators : List OperatorAddress) :
    (checkValidators keys operators vs).mapError Failure.kind =
      (checkValidators keys operators ws).mapError Failure.kind := by
  induction h generalizing keys operators with
  | nil => rfl
  | cons hvw _ ih =>
    rw [checkValidators, checkValidators, hvw.check_eq, hvw.operator_eq, hvw.key_eq]
    cases Validator.check _ with
    | error failure => rfl
    | ok _ =>
      simp only [bind, Except.bind]
      split
      · rfl
      split
      · rfl
      exact ih _ _

theorem Alike.check_eq {g h : Genesis} (hgh : g.Alike h) :
    g.check.mapError Failure.kind = h.check.mapError Failure.kind := by
  have hvalidators := checkValidators_alike hgh.validators [] []
  have hlength := hgh.validators.length_eq
  rw [check, check, hgh.params_eq, hlength]
  cases hg : checkValidators [] [] g.validators <;>
    cases hh : checkValidators [] [] h.validators <;> rw [hg, hh] at hvalidators
  · exact hvalidators
  · cases hvalidators
  · cases hvalidators

end Genesis

theorem Call.Alike.anonymous_eq {c d : Call} (h : c.Alike d) : c.anonymous = d.anonymous := by
  cases h with
  | execute command => exact congrArg Call.execute command.anonymous_eq
  | handle command => exact congrArg Call.handle command.anonymous_eq
  | initialise genesis => exact congrArg Call.initialise genesis.anonymous_eq
  | setParams params => rfl
  | endEpoch => rfl

theorem Call.Alike.check_eq {c d : Call} (h : c.Alike d) :
    c.plan.check.mapError Failure.kind = d.plan.check.mapError Failure.kind := by
  cases h with
  | execute command => rfl
  | handle command => exact congrArg (Except.mapError Failure.kind) command.check_eq
  | initialise genesis => exact genesis.check_eq
  | setParams params => rfl
  | endEpoch => rfl

/-! ## Bytes without descriptions -/

/-- Stored bytes with the record in them changed; bytes that hold none stay as they are. -/
def Record.rewrite {α : Type} [Record α] (f : α → α) (bytes : Bytes) : Bytes :=
  match (decode bytes : Except Failure α) with
  | .ok value => encode (f value)
  | .error _ => bytes

theorem Record.ReadsBack.rewrite_encode {α : Type} [Record α] {value : α} (h : ReadsBack value)
    (f : α → α) : rewrite f (encode value) = encode (f value) := by
  rw [rewrite, h.decode]

namespace Section

/-- The part that a key belongs to. -/
def ofKey? (key : Bytes) : Option Section := all.find? fun part => part.beginning.isPrefixOf key

/-- What is stored in a part, without descriptions. -/
def anonymise : Section → Bytes → Bytes
  | .validators => Record.rewrite Validator.anonymous
  | .applications => Record.rewrite Ballot.anonymous
  | .kickProposals => Record.rewrite Ballot.anonymous
  | _ => id

theorem ofKey?_cons (part : Section) (id : Bytes) : ofKey? (part.tag :: id) = some part := by
  cases part <;> rfl

end Section

/-- Contents without the descriptions in the records of validators and ballots. -/
def Contents.anonymous (contents : Contents) : Contents :=
  contents.filterMap fun key value => some <| match Section.ofKey? key with
    | some part => part.anonymise value
    | none => value

/-- Taking out descriptions leaves the keys as they are. -/
theorem Contents.keys_anonymous (contents : Contents) :
    contents.anonymous.entries.map (·.1) = contents.entries.map (·.1) := by
  simp [anonymous, Table.filterMap, Function.comp_def]

namespace Ledger

variable {l l' : Ledger}

theorem valueAt_map {kind : IdentityKind} {β γ : Type} {form : β → Bytes} {form' : γ → Bytes}
    {t : Table (Identity kind) β} {f : β → γ} {g : Bytes → Bytes}
    (h : ∀ i v, t.get? i = some v → g (form v) = form' (f v)) (id : Bytes) :
    valueAt form' (t.map f) id = (valueAt form t id).map g := by
  rw [valueAt, valueAt]
  cases (Identity.ofBytes? id : Option (Identity kind)) with
  | none => rfl
  | some i =>
    rw [Option.bind_some, Option.bind_some, Table.get?_map]
    cases hv : t.get? i with
    | none => rfl
    | some v => simp [h i v hv]

/-- What stands in a part of the ledger without descriptions. -/
theorem value?_anonymous (hl : l.Legible) (part : Section) (id : Bytes) :
    l.anonymous.value? part id = (l.value? part id).map part.anonymise := by
  have hballot (kind : Ballot.Kind) :
      valueAt Record.encode ((l.ballots kind).map Ballot.anonymous) id =
        (valueAt Record.encode (l.ballots kind) id).map (Record.rewrite Ballot.anonymous) :=
    valueAt_map (fun _ _ hb => (hl.readsBack hb).rewrite_encode _) id
  cases part with
  | validators =>
    exact valueAt_map (fun _ v _ => (Record.Faithful.readsBack v).rewrite_encode _) id
  | applications => exact hballot .application
  | kickProposals => exact hballot .kickProposal
  | _ => exact (congrFun Option.map_id _).symm

/-- The bytes of a ledger without descriptions are those of the ledger without descriptions. -/
theorem anonymous_contents (hl : l.Legible) : l.contents.anonymous = l.anonymous.contents := by
  refine Table.ext_get? fun key => ?_
  rw [Contents.anonymous, Table.get?_filterMap]
  by_cases hkey : ∃ part id, key = Section.tag part :: id
  · obtain ⟨part, id, rfl⟩ := hkey
    rw [Section.ofKey?_cons, get?_contents, get?_contents, value?_anonymous hl]
    cases l.value? part id <;> rfl
  · -- no other key has a value
    have hnone (l : Ledger) : l.contents.get? key = none := by
      refine Option.eq_none_iff_forall_ne_some.mpr fun value hvalue => hkey ?_
      obtain ⟨part, id, hkey, -⟩ := get?_contents_eq_some_iff.mp hvalue
      exact ⟨part, id, hkey⟩
    rw [hnone, hnone]
    rfl

/-! ## Calls -/

/-- Calls that differ in descriptions alone have the same outcome on ledgers that differ in them
alone, and leave such ledgers. -/
theorem call_alike (h : l.anonymous = l'.anonymous) {c d : Call} (hcd : c.Alike d) :
    (l.call c).1.mapError Failure.kind = (l'.call d).1.mapError Failure.kind ∧
      Reply.published (l.call c).1 = Reply.published (l'.call d).1 ∧
      (l.call c).2.anonymous = (l'.call d).2.anonymous := by
  have hcheck := hcd.check_eq
  have hcarryOut : (l.carryOut c).map anonymised = (l'.carryOut d).map anonymised := by
    rw [← carryOut_anonymous, ← carryOut_anonymous, h, hcd.anonymous_eq]
  unfold call
  cases hc : c.plan.check <;> cases hd : d.plan.check <;> rw [hc, hd] at hcheck
  · exact ⟨by simpa [Except.mapError] using hcheck, rfl, h⟩
  · cases hcheck
  · cases hcheck
  · cases hc : l.carryOut c <;> cases hd : l'.carryOut d <;> rw [hc, hd] at hcarryOut
    · cases hcarryOut
      exact ⟨rfl, rfl, h⟩
    · cases hcarryOut
    · cases hcarryOut
    · obtain ⟨hreply, hafter⟩ := Prod.mk.inj (Except.ok.inj hcarryOut)
      exact ⟨congrArg (fun reply => Except.mapError Failure.kind (.ok reply)) hreply,
        congrArg (fun reply => Reply.published (.ok reply)) hreply, hafter⟩

end Ledger

/-! ## Services -/

namespace Service

open Ledger

variable {s s' : Service Contents} {calls calls' : List Call}

/-- Two services hold ledgers that differ in descriptions alone, and have published the same. -/
structure HoldAlike (s s' : Service Contents) (l l' : Ledger) : Prop where
  store_eq : s.store = l.contents
  store_eq' : s'.store = l'.contents
  intact : l.Intact
  intact' : l'.Intact
  anonymous_eq : l.anonymous = l'.anonymous
  sink_eq : s.sink = s'.sink

theorem HoldAlike.call {l l' : Ledger} (h : HoldAlike s s' l l') {c d : Call} (hcd : c.Alike d) :
    (s.call c).1.mapError Failure.kind = (s'.call d).1.mapError Failure.kind ∧
      HoldAlike (s.call c).2 (s'.call d).2 (l.call c).2 (l'.call d).2 := by
  obtain ⟨hreply, hstore, hsink⟩ := call_eq h.store_eq h.intact.legible c
  obtain ⟨hreply', hstore', hsink'⟩ := call_eq h.store_eq' h.intact'.legible d
  obtain ⟨houtcome, hpublished, hafter⟩ := call_alike h.anonymous_eq hcd
  rw [hreply, hreply']
  refine ⟨houtcome, hstore, hstore', (h.intact.call c).2, (h.intact'.call d).2, hafter, ?_⟩
  rw [hsink, hsink', h.sink_eq, hpublished]

/-- Runs that differ in descriptions alone. -/
theorem HoldAlike.run {l l' : Ledger} (h : HoldAlike s s' l l')
    (hcalls : List.Forall₂ Call.Alike calls calls') :
    (s.run calls).1.map (·.mapError Failure.kind) =
        (s'.run calls').1.map (·.mapError Failure.kind) ∧
      ∃ m m', HoldAlike (s.run calls).2 (s'.run calls').2 m m' := by
  induction hcalls generalizing s s' l l' with
  | nil => exact ⟨rfl, l, l', h⟩
  | cons hcd _ ih =>
    obtain ⟨houtcome, hafter⟩ := h.call hcd
    obtain ⟨houtcomes, hend⟩ := ih hafter
    refine ⟨?_, hend⟩
    rw [Service.run, Service.run, List.map_cons, List.map_cons, houtcome, houtcomes]

/-- **Nothing depends on descriptions.** Two runs from an empty store make the same calls but for
what the validators in documents and submissions say about themselves; in both something or in both
nothing. Then all calls have the same outcomes, up to the wording of failures. At every point of
the runs the same events were published, the same keys are stored, and the stores are equal without
the descriptions in the records of validators and ballots. -/
theorem descriptions_immaterial (hempty : s.store = .empty) (hempty' : s'.store = .empty)
    (hsink : s.sink = s'.sink) (hcalls : List.Forall₂ Call.Alike calls calls') :
    (s.run calls).1.map (·.mapError Failure.kind) =
      (s'.run calls').1.map (·.mapError Failure.kind) ∧
    ∀ n, (s.run (calls.take n)).2.sink = (s'.run (calls'.take n)).2.sink ∧
      (s.run (calls.take n)).2.store.entries.map (·.1) =
        (s'.run (calls'.take n)).2.store.entries.map (·.1) ∧
      (s.run (calls.take n)).2.store.anonymous = (s'.run (calls'.take n)).2.store.anonymous := by
  have hstart : HoldAlike s s' {} {} := ⟨hempty, hempty', .empty, .empty, rfl, hsink⟩
  refine ⟨(hstart.run hcalls).1, fun n => ?_⟩
  obtain ⟨-, l, l', h⟩ := hstart.run (List.forall₂_take n hcalls)
  have hanonymous : (s.run (calls.take n)).2.store.anonymous =
      (s'.run (calls'.take n)).2.store.anonymous := by
    rw [h.store_eq, h.store_eq', anonymous_contents h.intact.legible,
      anonymous_contents h.intact'.legible, h.anonymous_eq]
  refine ⟨h.sink_eq, ?_, hanonymous⟩
  rw [← Contents.keys_anonymous, hanonymous, Contents.keys_anonymous]

/-- A validator that says something else about itself. -/
def outspoken (operator key : UInt8) : Validator :=
  { Validator.uniform operator key with description := { details := ⟨"w", by decide⟩ } }

/-- A founder admits a candidate and is then to be expelled. -/
def introduce (founder candidate : Validator) : List Call :=
  [.initialise { validators := [founder] },
   .execute (.submitApplication candidate),
   .execute (.submitApplication candidate),
   .handle (.voteApplication founder.operator candidate.operator true),
   .handle (.proposeKick founder.operator candidate.operator),
   .endEpoch]

theorem descriptions_immaterial_introduce :
    (({ store := .empty } : Service Contents).run
      ((introduce (.uniform 1 1) (.uniform 2 2)).take 5)).2.store.anonymous =
    (({ store := .empty } : Service Contents).run
      ((introduce (outspoken 1 1) (outspoken 2 2)).take 5)).2.store.anonymous := by
  have halike (operator key : UInt8) : (Validator.uniform operator key).Alike
      (outspoken operator key) := ⟨rfl, rfl, rfl⟩
  have hsubmit : Call.Alike (.execute (.submitApplication (.uniform 2 2)))
      (.execute (.submitApplication (outspoken 2 2))) :=
    .execute (.submitApplication (halike 2 2))
  have hcalls : List.Forall₂ Call.Alike (introduce (.uniform 1 1) (.uniform 2 2))
      (introduce (outspoken 1 1) (outspoken 2 2)) :=
    .cons (.initialise ⟨rfl, .cons (halike 1 1) .nil⟩) <| .cons hsubmit <| .cons hsubmit <|
      .cons (.handle (.same _)) <| .cons (.handle (.same _)) <| .cons .endEpoch .nil
  exact ((descriptions_immaterial rfl rfl rfl hcalls).2 5).2.2

end Service

end AuthoritySet
