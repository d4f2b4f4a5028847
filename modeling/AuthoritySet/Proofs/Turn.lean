import AuthoritySet.Service.Run

/-!
# Runs turn by turn

A running service is asked one thing after the other (`Act`). A `Turn` is one of these with its
reply and the states before and after it; `turns` are those of a whole run, of a service or of any
other machine that takes acts, and `finish` is the state at its end.

* `finish_induction`, `turns_induction`: what every turn keeps holds at the end of a run. It may
  speak about all turns so far.
* `throughout_iff`: a property holds throughout a run exactly if no turn breaks it.
* `turns_simulation`: two machines that agree on every turn give the same replies.
* `Service.run_eq`: the turns of a service are what its run is made of.
-/

namespace AuthoritySet

/-- What a running service can be asked. -/
inductive Act where
  | execute (command : Command)
  | handle (command : Command)
  | setParams (params : Params)
  | endEpoch
  deriving DecidableEq, Repr

namespace Act

/-- An act as a call of the service. -/
def call : Act → Call
  | .execute command => .execute command
  | .handle command => .handle command
  | .setParams params => .setParams params
  | .endEpoch => .endEpoch

/-- The command that is asked for, if it is one. -/
def command? : Act → Option Command
  | .execute command => some command
  | .handle command => some command
  | .setParams _ => none
  | .endEpoch => none

end Act

/-- One turn of a run. -/
structure Turn (α : Type) where
  before : α
  act : Act
  reply : Except Failure Reply
  after : α

namespace Turn

variable {α : Type}

/-- The events of a turn. -/
def events (t : Turn α) : List Event := Reply.published t.reply

/-- The updates of a turn. -/
def updates (t : Turn α) : List PowerUpdate := Reply.owed t.reply

end Turn

/-! ## Machines -/

section Machine

variable {α β : Type} (take : α → Act → Except Failure Reply × α)

/-- The turn in which a machine takes an act. -/
def turn (x : α) (a : Act) : Turn α := ⟨x, a, (take x a).1, (take x a).2⟩

/-- The turns of a run. -/
def turns (x : α) : List Act → List (Turn α)
  | [] => []
  | a :: rest => turn take x a :: turns (take x a).2 rest

/-- The state at the end of a run. -/
def finish (x : α) : List Act → α
  | [] => x
  | a :: rest => finish (take x a).2 rest

variable {take}

theorem turns_append (x : α) (acts later : List Act) :
    turns take x (acts ++ later) = turns take x acts ++ turns take (finish take x acts) later := by
  induction acts generalizing x with
  | nil => rfl
  | cons a rest ih => rw [List.cons_append, turns, turns, finish, ih, List.cons_append]

theorem finish_append (x : α) (acts later : List Act) :
    finish take x (acts ++ later) = finish take (finish take x acts) later := by
  induction acts generalizing x with
  | nil => rfl
  | cons a rest ih => rw [List.cons_append, finish, finish, ih]

/-- What comes before a turn of a run is a run, and so is what comes after it. -/
theorem turns_split {x : α} {acts : List Act} {t : Turn α} {past later : List (Turn α)}
    (h : turns take x acts = past ++ t :: later) : ∃ before a after,
      acts = before ++ a :: after ∧ past = turns take x before ∧
        t = turn take (finish take x before) a ∧ later = turns take t.after after := by
  induction acts generalizing x past with
  | nil => simp [turns] at h
  | cons a rest ih =>
    rw [turns] at h
    cases past with
    | nil =>
      obtain ⟨rfl, rfl⟩ := List.cons.inj h
      exact ⟨[], a, rest, rfl, rfl, rfl, rfl⟩
    | cons first past =>
      obtain ⟨rfl, hrest⟩ := List.cons.inj h
      obtain ⟨before, b, after, rfl, rfl, rfl, rfl⟩ := ih hrest
      exact ⟨a :: before, b, after, rfl, rfl, rfl, rfl⟩

/-- What comes before a turn of a run is a run, too. -/
theorem turns_eq_append_cons {x : α} {acts : List Act} {t : Turn α} {past later : List (Turn α)}
    (h : turns take x acts = past ++ t :: later) : ∃ before a after,
      acts = before ++ a :: after ∧ past = turns take x before ∧
        t = turn take (finish take x before) a := by
  obtain ⟨before, a, after, hacts, hpast, ht, -⟩ := turns_split h
  exact ⟨before, a, after, hacts, hpast, ht⟩

/-- The turns of an earlier end of a run are the first ones of it. -/
theorem turns_mono {x : α} {past acts : List Act} (h : past <+: acts) :
    turns take x past <+: turns take x acts := by
  obtain ⟨later, rfl⟩ := h
  rw [turns_append]
  exact List.prefix_append _ _

/-- Every turn of a run is taken where an earlier part of the run ends. -/
theorem exists_of_mem_turns {x : α} {acts : List Act} {t : Turn α} (h : t ∈ turns take x acts) :
    ∃ before a after, acts = before ++ a :: after ∧ t = turn take (finish take x before) a := by
  obtain ⟨past, later, hsplit⟩ := List.append_of_mem h
  obtain ⟨before, a, after, hacts, -, ht⟩ := turns_eq_append_cons hsplit
  exact ⟨before, a, after, hacts, ht⟩

theorem act_mem_of_mem_turns {x : α} {acts : List Act} {t : Turn α} (h : t ∈ turns take x acts) :
    t.act ∈ acts := by
  obtain ⟨before, a, after, rfl, rfl⟩ := exists_of_mem_turns h
  exact List.mem_append_right _ List.mem_cons_self

private theorem turns_induction_from {I : List (Turn α) → α → Prop} {G : Turn α → Prop}
    (hstep : ∀ past x a, I past x → G (turn take x a) →
      I (past ++ [turn take x a]) (take x a).2)
    {x : α} {past : List (Turn α)} (hstart : I past x) {acts : List Act}
    (hguard : ∀ t ∈ turns take x acts, G t) :
    I (past ++ turns take x acts) (finish take x acts) := by
  induction acts generalizing x past with
  | nil => simpa [turns, finish] using hstart
  | cons a rest ih =>
    rw [turns, List.forall_mem_cons] at hguard
    rw [turns, finish, List.append_cons]
    exact ih (hstep past x a hstart hguard.1) hguard.2

/-- What every turn of a run keeps holds of its turns and at its end. The guard is what is known of
each turn. -/
theorem turns_induction {I : List (Turn α) → α → Prop} {G : Turn α → Prop}
    (hstep : ∀ past x a, I past x → G (turn take x a) →
      I (past ++ [turn take x a]) (take x a).2)
    {x : α} (hstart : I [] x) {acts : List Act} (hguard : ∀ t ∈ turns take x acts, G t) :
    I (turns take x acts) (finish take x acts) :=
  turns_induction_from hstep hstart hguard

/-- What every turn of a run keeps holds at its end. -/
theorem finish_induction {I : α → Prop} {G : Turn α → Prop}
    (hstep : ∀ x a, I x → G (turn take x a) → I (take x a).2) {x : α} (hstart : I x)
    {acts : List Act} (hguard : ∀ t ∈ turns take x acts, G t) : I (finish take x acts) :=
  turns_induction (I := fun _ => I) (fun _ => hstep) hstart hguard

/-- A property `P` holds throughout a run exactly if the run has no turn of a kind `B`: turns of any
other kind keep an invariant `I` that implies the property, and after one of this kind, taken in any
state that can be reached at all (`J`), the property is lost. -/
theorem throughout_iff {I J P : α → Prop} {B : Turn α → Prop}
    (hreach : ∀ x a, J x → J (take x a).2)
    (hkeep : ∀ x a, I x → ¬ B (turn take x a) → I (take x a).2)
    (himplies : ∀ x, I x → P x) (hlose : ∀ x a, J x → B (turn take x a) → ¬ P (take x a).2)
    {x : α} (hreached : J x) (hstart : I x) {acts : List Act} :
    (∀ past, past <+: acts → P (finish take x past)) ↔ ∀ t ∈ turns take x acts, ¬ B t := by
  constructor
  · intro hthroughout t ht hbroken
    obtain ⟨before, a, after, rfl, rfl⟩ := exists_of_mem_turns ht
    have hbefore : J (finish take x before) :=
      finish_induction (G := fun _ => True) (fun x a hx _ => hreach x a hx) hreached
        fun _ _ => trivial
    -- the property is lost where the run stops after this turn
    have hafter := hthroughout (before ++ [a]) ⟨after, by simp⟩
    rw [finish_append] at hafter
    exact hlose _ a hbefore hbroken hafter
  · intro hguard past hpast
    exact himplies _ <| finish_induction hkeep hstart fun t ht =>
      hguard t ((turns_mono hpast).subset ht)

/-- Machines that agree on every turn, and stay related by it, give the same replies and look alike
after each of them. -/
theorem turns_simulation {other : β → Act → Except Failure Reply × β} {R : α → β → Prop}
    {G : Turn α → Prop} {γ : Type} {look : α → γ} {look' : β → γ}
    (hlook : ∀ x y, R x y → look x = look' y)
    (hstep : ∀ x y a, R x y → G (turn take x a) →
      (take x a).1 = (other y a).1 ∧ R (take x a).2 (other y a).2)
    {x : α} {y : β} (hstart : R x y) {acts : List Act}
    (hguard : ∀ t ∈ turns take x acts, G t) :
    (turns take x acts).map (fun t => (t.reply, look t.after)) =
      (turns other y acts).map (fun t => (t.reply, look' t.after)) := by
  induction acts generalizing x y with
  | nil => rfl
  | cons a rest ih =>
    rw [turns, List.forall_mem_cons] at hguard
    obtain ⟨hreply, hafter⟩ := hstep x y a hstart hguard.1
    rw [turns, turns, List.map_cons, List.map_cons, ih hafter hguard.2]
    simp only [turn, hreply, hlook _ _ hafter]

end Machine

/-! ## Services -/

namespace Service

variable {σ : Type} [ByteStore σ]

/-- A service takes an act by the call that it stands for. -/
def act (s : Service σ) (a : Act) : Except Failure Reply × Service σ := s.call a.call

/-- The turns of a service that is asked one thing after the other. -/
def turns (s : Service σ) (acts : List Act) : List (Turn (Service σ)) :=
  AuthoritySet.turns act s acts

/-- The service after it was asked one thing after the other. -/
def finish (s : Service σ) (acts : List Act) : Service σ := AuthoritySet.finish act s acts

/-- The replies of a run and the service after it are those of its turns. -/
theorem run_eq (s : Service σ) (acts : List Act) :
    s.run (acts.map Act.call) = ((s.turns acts).map Turn.reply, s.finish acts) := by
  induction acts generalizing s with
  | nil => rfl
  | cons a rest ih =>
    show ((s.act a).1 :: ((s.act a).2.run (rest.map Act.call)).1,
      ((s.act a).2.run (rest.map Act.call)).2) = _
    rw [ih]
    rfl

end Service

end AuthoritySet
