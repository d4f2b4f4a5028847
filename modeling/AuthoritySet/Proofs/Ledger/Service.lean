import AuthoritySet.Proofs.Ledger.Epoch
import AuthoritySet.Proofs.Overlay
import AuthoritySet.Proofs.Plan
import AuthoritySet.Service.Queries

/-!
# Services that hold ledgers

A service above plain contents holds a ledger if its store is the bytes of a sound one
(`Service.Holds`). What it is asked, it then answers as the ledger does, and afterwards it holds
the ledger that this leaves.

* `Ledger.act`: what an act does to a ledger. `Ledger.Sound.act_cases`: the four ways it can go.
  `Ledger.Sound.act_keeps`: what has to be shown of an invariant.
* `Service.call_eq`: a call of a service on the bytes of a ledger whose ballots can be read back is
  the call of the ledger (`Ledger.call`). Founding may be repeated there.
* `Service.Holds.act_eq`: an act of a service is an act of the ledger that it holds.
* `Service.initialise_eq_ok_iff`: when an empty service can be started, and what it holds then.
-/

namespace AuthoritySet

namespace Ledger

variable {l l' : Ledger}

/-- A command that is checked on its own first. -/
def handle (l : Ledger) (c : Command) : Except Failure (List Event × Ledger) :=
  match c.check with
  | .ok () => l.execute c
  | .error failure => .error failure

/-- The reply to a step of a ledger, and the ledger after it; a failure leaves it as it was. -/
def answer {α : Type} (l : Ledger) (reply : α → Reply) :
    Except Failure (α × Ledger) → Except Failure Reply × Ledger
  | .ok (value, after) => (.ok (reply value), after)
  | .error failure => (.error failure, l)

/-- What an act does to a ledger. -/
def act (l : Ledger) : Act → Except Failure Reply × Ledger
  | .execute c => l.answer .events (l.execute c)
  | .handle c => l.answer .events (l.handle c)
  | .setParams params =>
    l.answer (fun _ => .done) (params.check.map fun _ => ((), l.setParams params))
  | .endEpoch => l.answer .updates l.settle

/-- What the transaction of a call does to a ledger. -/
def carryOut (l : Ledger) : Call → Except Failure (Reply × Ledger)
  | .execute c => (l.execute c).map fun r => (.events r.1, r.2)
  | .handle c => (l.execute c).map fun r => (.events r.1, r.2)
  | .initialise genesis => .ok (.updates (l.establish genesis).1, (l.establish genesis).2)
  | .setParams params => .ok (.done, l.setParams params)
  | .endEpoch => l.settle.map fun r => (.updates r.1, r.2)

/-- What a call does to a ledger. -/
def call (l : Ledger) (c : Call) : Except Failure Reply × Ledger :=
  match c.plan.check with
  | .ok () => l.answer id (l.carryOut c)
  | .error failure => (.error failure, l)

/-- The transaction of a call on the bytes of a ledger is the call on the ledger. -/
theorem run_carryOut (h : l.Legible) (c : Call) :
    c.plan.transaction.run l.contents = (l.carryOut c).map stored := by
  cases c with
  | execute c =>
    simp only [Call.plan, Call.commandPlan, Transaction.run_map, run_execute h, carryOut]
    cases l.execute c <;> rfl
  | handle c =>
    simp only [Call.plan, Call.commandPlan, Transaction.run_map, run_execute h, carryOut]
    cases l.execute c <;> rfl
  | initialise genesis =>
    simp only [Call.plan, Transaction.run_map, run_establish, carryOut]
    rfl
  | setParams params =>
    simp only [Call.plan, Transaction.run_map, run_setParams, carryOut]
    rfl
  | endEpoch =>
    simp only [Call.plan, Transaction.run_map, run_settle, carryOut]
    cases l.settle <;> rfl

/-- An act of a ledger is the call that it stands for. -/
theorem act_eq_call (l : Ledger) (a : Act) : l.act a = l.call a.call := by
  cases a with
  | execute c =>
    show _ = l.answer id ((l.execute c).map _)
    rw [act]
    cases l.execute c <;> rfl
  | handle c =>
    simp only [act, handle, call, Act.call, Call.plan, carryOut]
    cases c.check with
    | error failure => rfl
    | ok _ => cases l.execute c <;> rfl
  | setParams params =>
    simp only [act, call, Act.call, Call.plan, carryOut]
    cases params.check <;> rfl
  | endEpoch =>
    show _ = l.answer id (l.settle.map _)
    rw [act]
    cases l.settle <;> rfl

/-- An act that gives a command fails and changes nothing, or the command is carried out. -/
theorem act_cases_of_command {a : Act} {c : Command} (h : a.command? = some c) :
    (∃ failure, l.act a = (.error failure, l)) ∨
      ∃ events l', l.Step c events l' ∧ l.act a = (.ok (.events events), l') := by
  have hexecute : (∃ failure, l.answer .events (l.execute c) = (.error failure, l)) ∨
      ∃ events l', l.Step c events l' ∧
        l.answer .events (l.execute c) = (.ok (.events events), l') := by
    cases hc : l.execute c with
    | error failure => exact .inl ⟨failure, rfl⟩
    | ok r => exact .inr ⟨r.1, r.2, Step.of_execute hc, rfl⟩
  cases a with
  | execute d =>
    cases h
    exact hexecute
  | handle d =>
    cases h
    simp only [act, handle]
    cases c.check with
    | error failure => exact .inl ⟨failure, rfl⟩
    | ok _ => exact hexecute
  | setParams params => cases h
  | endEpoch => cases h

/-- A command that is not refused is a step. -/
theorem step_of_act_ok {a : Act} {c : Command} {reply : Reply} (hc : a.command? = some c)
    (hreply : (l.act a).1 = .ok reply) :
    ∃ events l', reply = .events events ∧ l.Step c events l' ∧ (l.act a).2 = l' := by
  rcases act_cases_of_command (l := l) hc with ⟨_, heq⟩ | ⟨events, l', hstep, heq⟩
  · rw [heq] at hreply
    cases hreply
  · rw [heq] at hreply
    exact ⟨events, l', (Except.ok.inj hreply).symm, hstep, congrArg (·.2) heq⟩

/-- An epoch boundary settles the ledger. -/
theorem Sound.act_endEpoch (h : l.Sound) :
    l.act .endEpoch = (.ok (.updates l.dueUpdates), l.settled) := by
  rw [act, h.settle_eq]
  rfl

/-- An act fails and changes nothing, is a command that is carried out, stores parameters, or
settles an epoch boundary. -/
theorem Sound.act_cases (h : l.Sound) (a : Act) :
    (∃ failure, l.act a = (.error failure, l)) ∨
    (∃ c events l', a.command? = some c ∧ l.Step c events l' ∧
      l.act a = (.ok (.events events), l')) ∨
    (∃ params, a = .setParams params ∧ params.check = .ok () ∧
      l.act a = (.ok .done, l.setParams params)) ∨
    (a = .endEpoch ∧ l.act a = (.ok (.updates l.dueUpdates), l.settled)) := by
  cases a with
  | execute c =>
    rcases act_cases_of_command (l := l) (a := .execute c) rfl with hfailed | ⟨events, l', hstep, heq⟩
    · exact .inl hfailed
    · exact .inr (.inl ⟨c, events, l', rfl, hstep, heq⟩)
  | handle c =>
    rcases act_cases_of_command (l := l) (a := .handle c) rfl with hfailed | ⟨events, l', hstep, heq⟩
    · exact .inl hfailed
    · exact .inr (.inl ⟨c, events, l', rfl, hstep, heq⟩)
  | setParams params =>
    simp only [act]
    cases hp : params.check with
    | error failure => exact .inl ⟨failure, rfl⟩
    | ok _ => exact .inr (.inr (.inl ⟨params, rfl, hp, rfl⟩))
  | endEpoch => exact .inr (.inr (.inr ⟨rfl, h.act_endEpoch⟩))

/-- Events come from commands that are carried out. -/
theorem Sound.step_of_mem_published (h : l.Sound) {a : Act} {e : Event}
    (he : e ∈ Reply.published (l.act a).1) :
    ∃ c, a.command? = some c ∧ l.Step c (Reply.published (l.act a).1) (l.act a).2 := by
  rcases h.act_cases a with ⟨_, heq⟩ | ⟨c, events, l', hc, hstep, heq⟩ | ⟨params, -, -, heq⟩ |
    ⟨-, heq⟩
  · simp [heq, Reply.published] at he
  · rw [heq]
    exact ⟨c, hc, hstep⟩
  · simp [heq, Reply.published] at he
  · simp [heq, Reply.published] at he

/-- What carried-out commands, stored parameters and epoch boundaries keep, every act keeps. -/
theorem Sound.act_keeps {P : Ledger → Prop} (h : l.Sound) (a : Act) (hp : P l)
    (hstep : ∀ {c events l'}, a.command? = some c → l.Step c events l' →
      (l.act a).1 = .ok (.events events) → P l')
    (hparams : ∀ {params}, a = .setParams params → params.check = .ok () →
      (l.act a).1 = .ok .done → P (l.setParams params))
    (hsettled : P l.settled) : P (l.act a).2 := by
  rcases h.act_cases a with ⟨_, heq⟩ | ⟨c, events, l', hc, hs, heq⟩ | ⟨params, ha, hcheck, heq⟩ |
    ⟨-, heq⟩
  · rwa [heq]
  · rw [heq]
    exact hstep hc hs (congrArg (·.1) heq)
  · rw [heq]
    exact hparams ha hcheck (congrArg (·.1) heq)
  · rwa [heq]

theorem Sound.act (h : l.Sound) (a : Act) : (l.act a).2.Sound :=
  h.act_keeps a h (fun _ hstep _ => h.step hstep) (fun _ _ _ => h.setParams _) h.settled

end Ledger

/-! ## Services -/

namespace Service

open Ledger

variable {s s' : Service Contents} {l : Ledger} {α : Type}

/-- The service holds a ledger. -/
structure Holds (s : Service Contents) (l : Ledger) : Prop where
  store_eq : s.store = l.contents
  sound : l.Sound

/-- What is read above the bytes of a ledger is what the transaction reads on them. -/
theorem view_of_run (hstore : s.store = l.contents) {t : Transaction α} {value : α}
    {after : Contents} (ht : t.run l.contents = .ok (value, after)) : s.view t = .ok value := by
  rw [Service.view_eq, hstore, ht]
  rfl

theorem Holds.view_eq (h : s.Holds l) {t : Transaction α} {value : α} {after : Contents}
    (ht : t.run l.contents = .ok (value, after)) : s.view t = .ok value :=
  view_of_run h.store_eq ht

theorem Holds.commit_eq (h : s.Holds l) {t : Transaction α} {result : Except Failure (α × Ledger)}
    (ht : t.run l.contents = result.map stored) :
    s.commit t = result.map fun r => (r.1, { s with store := r.2.contents }) := by
  rw [Service.commit_eq, h.store_eq, ht]
  cases result <;> rfl

/-- A call of a service on the bytes of a ledger is the call of the ledger, if its ballots can be
read back. Its events are published. -/
theorem call_eq (hstore : s.store = l.contents) (hl : l.Legible) (c : Call) :
    (s.call c).1 = (l.call c).1 ∧ (s.call c).2.store = (l.call c).2.contents ∧
      (s.call c).2.sink = s.sink.publish (Reply.published (l.call c).1) := by
  rw [Service.call, perform, Ledger.call]
  cases c.plan.check with
  | error failure => exact ⟨rfl, hstore, (Sink.publish_nil _).symm⟩
  | ok _ =>
    simp only [Service.commit_eq, hstore, run_carryOut hl c]
    cases l.carryOut c with
    | error failure => exact ⟨rfl, rfl, (Sink.publish_nil _).symm⟩
    | ok r => exact ⟨rfl, rfl, rfl⟩

/-- An act of a service on the bytes of a ledger is the act of the ledger. -/
theorem act_eq (hstore : s.store = l.contents) (hl : l.Legible) (a : Act) :
    (s.act a).1 = (l.act a).1 ∧ (s.act a).2.store = (l.act a).2.contents ∧
      (s.act a).2.sink = s.sink.publish (Reply.published (l.act a).1) := by
  rw [Ledger.act_eq_call]
  exact call_eq hstore hl a.call

/-- An act of a service is an act of the ledger that it holds. -/
theorem Holds.act_eq (h : s.Holds l) (a : Act) : (s.act a).1 = (l.act a).1 ∧
    (s.act a).2.store = (l.act a).2.contents ∧
    (s.act a).2.sink = s.sink.publish (Reply.published (l.act a).1) :=
  Service.act_eq h.store_eq h.sound.legible a

/-- The events of a turn are those of the act of the ledger. -/
theorem Holds.events_eq (h : s.Holds l) (a : Act) :
    (turn Service.act s a).events = Reply.published (l.act a).1 :=
  congrArg Reply.published (h.act_eq a).1

theorem Holds.act (h : s.Holds l) (a : Act) : (s.act a).2.Holds (l.act a).2 :=
  ⟨(h.act_eq a).2.1, h.sound.act a⟩

/-- An epoch boundary always succeeds. -/
theorem Holds.endEpoch_eq (h : s.Holds l) :
    s.endEpoch.1 = .ok l.dueUpdates ∧ s.endEpoch.2.Holds l.settled := by
  have hcommit := h.commit_eq run_settle
  rw [h.sound.settle_eq] at hcommit
  obtain ⟨hreply, hstore⟩ := endEpoch_of_commit hcommit
  exact ⟨hreply, hstore, h.sound.settled⟩

/-- A service that holds a ledger never stops doing so. -/
theorem Holds.finish (h : s.Holds l) (acts : List Act) : ∃ l', (s.finish acts).Holds l' :=
  finish_induction (I := fun s : Service Contents => ∃ l, s.Holds l) (G := fun _ => True)
    (fun _ a ⟨_, hl⟩ _ => ⟨_, hl.act a⟩) ⟨l, h⟩ fun _ _ => trivial

section Runs

variable {I : Ledger → Prop} {acts : List Act}

/-- What every act keeps holds of the ledger at the end of a run. The guard is what is known of each
turn. -/
theorem Holds.keeps (h : s.Holds l) {G : Turn (Service Contents) → Prop}
    (hstep : ∀ {s l} a, s.Holds l → I l → G (turn Service.act s a) → I (l.act a).2)
    (hstart : I l) (hguard : ∀ t ∈ s.turns acts, G t) : ∃ l', (s.finish acts).Holds l' ∧ I l' := by
  refine finish_induction (I := fun s : Service Contents => ∃ l, s.Holds l ∧ I l)
    ?_ ⟨l, h, hstart⟩ hguard
  rintro s a ⟨l, hl, hi⟩ ha
  exact ⟨_, hl.act a, hstep a hl hi ha⟩

/-- A property `P` holds throughout a run exactly if the run has no turn of a kind `B`: acts of any
other kind keep an invariant `I` of the ledger that implies the property, and one of this kind
always loses the property. -/
theorem Holds.throughout_iff (h : s.Holds l) {P : Service Contents → Prop}
    {B : Turn (Service Contents) → Prop}
    (hkeep : ∀ {s l} a, s.Holds l → I l → ¬ B (turn Service.act s a) → I (l.act a).2)
    (himplies : ∀ {s l}, s.Holds l → I l → P s)
    (hlose : ∀ {s l} a, s.Holds l → B (turn Service.act s a) → ¬ P (s.act a).2)
    (hstart : I l) :
    (∀ past, past <+: acts → P (s.finish past)) ↔ ∀ t ∈ s.turns acts, ¬ B t := by
  refine AuthoritySet.throughout_iff (J := fun s : Service Contents => ∃ l, s.Holds l)
    (I := fun s : Service Contents => ∃ l, s.Holds l ∧ I l) ?_ ?_ ?_ ?_ ⟨l, h⟩ ⟨l, h, hstart⟩
  · exact fun s a ⟨l, hl⟩ => ⟨_, hl.act a⟩
  · exact fun s a ⟨l, hl, hi⟩ hguard => ⟨_, hl.act a, hkeep a hl hi hguard⟩
  · exact fun s ⟨l, hl, hi⟩ => himplies hl hi
  · exact fun s a ⟨l, hl⟩ hbroken => hlose a hl hbroken

end Runs

/-- An empty service is started by the documents that pass their check. -/
theorem initialise_eq_ok_iff (h : s.store = .empty) {g : Genesis} {updates : List PowerUpdate} :
    s.initialise g = .ok (updates, s') ↔ g.check = .ok () ∧
      updates = g.validators.map Validator.grant ∧
      s' = { s with store := (({} : Ledger).establish g).2.contents } := by
  have hempty : s.Holds {} := ⟨h.trans contents_empty.symm, Sound.empty⟩
  have hrun : (Founding.establish g).run ({} : Ledger).contents =
      (.ok (({} : Ledger).establish g) : Except Failure _).map stored := run_establish g
  rw [initialise_eq]
  cases g.check with
  | error failure => simp [bind, Except.bind]
  | ok _ =>
    simp only [bind, Except.bind, hempty.commit_eq hrun, Except.map, Except.ok.injEq,
      Prod.mk.injEq, true_and, establish, eq_comm]

theorem holds_initialise (h : s.store = .empty) {g : Genesis} {updates : List PowerUpdate}
    (hs : s.initialise g = .ok (updates, s')) : s'.Holds (({} : Ledger).establish g).2 := by
  obtain ⟨hcheck, -, rfl⟩ := (initialise_eq_ok_iff h).mp hs
  exact ⟨rfl, Sound.establish hcheck⟩

/-- The service that an empty one becomes when it is started. -/
def founded (g : Genesis) : Service Contents :=
  { store := (({} : Ledger).establish g).2.contents }

theorem initialise_founded {g : Genesis} (h : g.check = .ok ()) :
    ({ store := .empty } : Service Contents).initialise g =
      .ok (g.validators.map Validator.grant, founded g) :=
  (initialise_eq_ok_iff rfl).mpr ⟨h, rfl, rfl⟩

/-! ## What can be asked about the ledger -/

theorem Holds.validator_eq (h : s.Holds l) (operator : OperatorAddress) :
    s.view (Registry.validator? operator) = .ok (l.validators.get? operator) :=
  h.view_eq (run_validator? operator)

theorem Holds.validatorAt_eq (h : s.Holds l) (address : ConsensusAddress) :
    s.view (Registry.validatorAt? address) = .ok (l.validatorAt? address) :=
  h.view_eq (run_validatorAt? address)

theorem Holds.validators_eq (h : s.Holds l) :
    s.view Registry.validators = .ok l.validators.values :=
  h.view_eq run_validators

theorem Holds.lifecycle_eq (h : s.Holds l) (operator : OperatorAddress) :
    s.lifecycle? operator = .ok (l.lifecycles.get? operator) :=
  h.view_eq (run_lifecycle? operator)

theorem Holds.ballots_eq (h : s.Holds l) (kind : Ballot.Kind) :
    s.ballots kind = .ok (l.ballots kind).values :=
  h.view_eq (run_ballots h.sound.legible kind)

theorem Holds.params_eq (h : s.Holds l) : s.params = .ok l.inForce :=
  h.view_eq run_params

end Service

end AuthoritySet
