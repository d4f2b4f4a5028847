import AuthoritySet.Proofs.Atomicity
import AuthoritySet.Proofs.Integrity
import AuthoritySet.Service.Queries

/-!
# The counters account for every call

A service is used moment by moment: before each use anything may happen to its store, and its reads
may fail by a schedule (`Service.Moment`). What is left of a life like this is a log of the calls and
the questions with what became of them. The counters can be told from the log alone:

* `Metrics.enter`: the counters after one more entry of the log. `Service.metrics_use`: one use of
  a service changes its counters in just this way, on every path through it.
* `Metrics.AccountsFor`: the counters stand for a log. `Metrics.accountsFor_foldl_enter`: counters that
  are moved entry by entry stand for all of them.
* `Service.live_none`: where nothing disturbs a service, its life is a run.
* `Service.live_accounted`: whole lives.
-/

namespace AuthoritySet

/-- Whether a call is watched for signs of a corrupt registry. -/
def Call.isWatched : Call → Bool
  | .execute _ => true
  | .handle _ => true
  | .initialise _ => false
  | .setParams _ => false
  | .endEpoch => true

/-- What became of a call, in a word. -/
def Reply.outcome : Except Failure Reply → String
  | .ok _ => "ok"
  | .error failure => failure.kind

/-- Whether a call found the registry corrupt. -/
def Reply.isFatal : Except Failure Reply → Bool
  | .ok _ => false
  | .error failure => failure.isFatal

namespace Service

/-- What may be done with a service: a call, or a question, which it only answers. -/
inductive Use where
  | call (c : Call)
  | ask (q : Query)

/-- What was done with a service and what became of it. -/
inductive Entry where
  | called (c : Call) (reply : Except Failure Reply)
  | asked (q : Query) (answer : Except Failure Bytes)

namespace Entry

/-- What was done. -/
def use : Entry → Use
  | .called c _ => .call c
  | .asked q _ => .ask q

/-- The command that was called for, with what became of it. -/
def label? : Entry → Option (String × String)
  | .called c reply => c.command?.map fun command => (command.name, Reply.outcome reply)
  | .asked _ _ => none

/-- The updates that an epoch boundary returned. -/
def updates : Entry → List PowerUpdate
  | .called .endEpoch reply => Reply.owed reply
  | _ => []

/-- Whether a watched call came upon a corrupt registry. -/
def isViolation : Entry → Bool
  | .called c reply => c.isWatched && Reply.isFatal reply
  | .asked _ _ => false

end Entry

/-- A use of a service and what may befall its store in the meantime. -/
structure Moment (σ : Type) where
  /-- What happens to the store before the use: its contents and its faults may change. -/
  disturb : σ → σ := id
  /-- The reads that fail during a call. -/
  faults : Nat → Option StoreFailure := fun _ => none
  use : Use

section Life

variable {σ : Type} [ByteStore σ]

/-- Uses a service while the reads of its store fail by a schedule. -/
def use (s : Service σ) (faults : Nat → Option StoreFailure) : Use → Entry × Service σ
  | .call c =>
    let (reply, s) := s.callUnder faults c
    (.called c reply, s)
  | .ask q => (.asked q (s.answer q), s)

/-- Uses a service moment by moment. -/
def live (s : Service σ) : List (Moment σ) → List Entry × Service σ
  | [] => ([], s)
  | moment :: rest =>
    let (entry, s) := use { s with store := moment.disturb s.store } moment.faults moment.use
    let (entries, s) := s.live rest
    (entry :: entries, s)

/-- Where nothing befalls the store, a life of calls is a run. -/
theorem live_none (s : Service σ) (calls : List Call) :
    s.live (calls.map fun c => { use := .call c }) =
      (List.zipWith Entry.called calls (s.run calls).1, (s.run calls).2) := by
  induction calls generalizing s with
  | nil => rfl
  | cons c rest ih =>
    have hcall : use { s with store := id s.store } (fun _ => none) (.call c) =
        (.called c (s.call c).1, (s.call c).2) := by
      simp only [use, id, callUnder_none]
    simp only [List.map_cons, live, hcall, ih, run, List.zipWith_cons_cons]

end Life

end Service

namespace Metrics

open Service (Entry)

variable {m : Metrics} {log : List Entry}

/-! ## Labels -/

section Labels

variable {label other : String × String} {n : Nat} {l : List ((String × String) × Nat)}

theorem lookup_cons (key : String × String) (count : Nat) :
    List.lookup label ((key, count) :: l) = if label = key then some count else l.lookup label := by
  by_cases h : label = key
  · simp [h]
  · simp [List.lookup_cons, beq_false_of_ne h, h]

/-- Counting under a label changes what stands under that label alone. -/
theorem lookup_countLabel (label other : String × String) (l : List ((String × String) × Nat)) :
    ((countLabel label l).lookup other).getD 0 =
      (l.lookup other).getD 0 + if other = label then 1 else 0 := by
  induction l with
  | nil => by_cases h : other = label <;> simp [countLabel, lookup_cons, h]
  | cons e rest ih =>
    obtain ⟨key, count⟩ := e
    rw [countLabel]
    split
    · rename_i hkey
      obtain rfl : key = label := hkey
      by_cases h : other = key <;> simp [lookup_cons, h]
    · rename_i hkey
      by_cases hother : other = key
      · simp [hother, show ¬ key = label from hkey]
      · simp [lookup_cons, hother, ih]

theorem mem_labels_countLabel :
    other ∈ (countLabel label l).map (·.1) ↔ other = label ∨ other ∈ l.map (·.1) := by
  induction l with
  | nil => simp [countLabel]
  | cons e rest ih =>
    rw [countLabel]
    split
    · rename_i he
      simp [he]
    · rw [List.map_cons, List.mem_cons, ih, List.map_cons, List.mem_cons]
      exact or_left_comm

/-- No label stands there twice, and each stands there with something counted. -/
structure Tidy (l : List ((String × String) × Nat)) : Prop where
  nodup : (l.map (·.1)).Nodup
  positive : ∀ e ∈ l, 0 < e.2

theorem Tidy.countLabel (h : Tidy l) (label : String × String) : Tidy (countLabel label l) := by
  induction l with
  | nil => exact ⟨by simp [Metrics.countLabel], by simp [Metrics.countLabel]⟩
  | cons e rest ih =>
    obtain ⟨hnodup, hpositive⟩ := h
    rw [List.map_cons, List.nodup_cons] at hnodup
    rw [List.forall_mem_cons] at hpositive
    rw [Metrics.countLabel]
    split
    · rename_i he
      refine ⟨?_, List.forall_mem_cons.mpr ⟨Nat.succ_pos _, hpositive.2⟩⟩
      rw [List.map_cons, List.nodup_cons]
      exact he ▸ hnodup
    · rename_i he
      have hrest := ih ⟨hnodup.2, hpositive.2⟩
      refine ⟨?_, List.forall_mem_cons.mpr ⟨hpositive.1, hrest.positive⟩⟩
      rw [List.map_cons, List.nodup_cons, mem_labels_countLabel]
      exact ⟨not_or.mpr ⟨he, hnodup.1⟩, hrest.nodup⟩

theorem Tidy.mem_iff (h : Tidy l) : (label, n) ∈ l ↔ 0 < n ∧ n = (l.lookup label).getD 0 := by
  induction l with
  | nil => simp; omega
  | cons e rest ih =>
    obtain ⟨hnodup, hpositive⟩ := h
    rw [List.map_cons, List.nodup_cons] at hnodup
    rw [List.forall_mem_cons] at hpositive
    obtain ⟨key, count⟩ := e
    rw [List.mem_cons, lookup_cons, Prod.mk.injEq]
    by_cases hkey : label = key
    · have habsent : (label, n) ∉ rest := fun hmem =>
        hnodup.1 (hkey ▸ List.mem_map.mpr ⟨_, hmem, rfl⟩)
      simp only [hkey, true_and, if_true, Option.getD_some]
      constructor
      · rintro (rfl | hmem)
        · exact ⟨hpositive.1, rfl⟩
        · exact absurd (hkey ▸ hmem) habsent
      · exact fun h => .inl h.2
    · rw [if_neg hkey, ← ih ⟨hnodup.2, hpositive.2⟩]
      simp [hkey]

/-- Counting some labels one after the other. -/
def countLabels (labels : List (String × String)) (l : List ((String × String) × Nat)) :
    List ((String × String) × Nat) :=
  labels.foldl (fun l label => countLabel label l) l

theorem lookup_countLabels (labels : List (String × String)) (label : String × String)
    (l : List ((String × String) × Nat)) :
    ((countLabels labels l).lookup label).getD 0 =
      (l.lookup label).getD 0 + labels.count label := by
  induction labels generalizing l with
  | nil => rfl
  | cons first rest ih =>
    show ((countLabels rest (countLabel first l)).lookup label).getD 0 = _
    have hfirst : (first == label) = true ↔ label = first := beq_iff_eq.trans eq_comm
    rw [ih, lookup_countLabel, List.count_cons, Nat.add_right_comm, ← Nat.add_assoc]
    simp only [hfirst]

theorem Tidy.countLabels (h : Tidy l) (labels : List (String × String)) :
    Tidy (countLabels labels l) := by
  induction labels generalizing l with
  | nil => exact h
  | cons first rest ih => exact ih (h.countLabel first)

end Labels

/-! ## Entries -/

/-- The counters after one more entry of the log. -/
def enter (m : Metrics) (e : Entry) : Metrics where
  commands := countLabels e.label?.toList m.commands
  added := m.added + e.updates.countP fun u => !u.isRemoval
  removed := m.removed + e.updates.countP PowerUpdate.isRemoval
  violations := m.violations + if e.isViolation then 1 else 0

/-- The counters stand for a log: under each command and outcome for the calls of that command with
that outcome, for all updates of epoch boundaries, and for all watched calls that came upon a corrupt
registry. A listing shows just the labels that occurred. -/
structure AccountsFor (m : Metrics) (log : List Entry) : Prop where
  commandCount_eq (command outcome : String) :
    m.commandCount command outcome = (log.filterMap Entry.label?).count (command, outcome)
  mem_listing_iff (label : String × String) (n : Nat) :
    (label, n) ∈ m.listing ↔ 0 < n ∧ n = (log.filterMap Entry.label?).count label
  added_eq : m.added = (log.flatMap Entry.updates).countP fun u => !u.isRemoval
  removed_eq : m.removed = (log.flatMap Entry.updates).countP PowerUpdate.isRemoval
  violations_eq : m.violations = log.countP Entry.isViolation

section Log

variable (m : Metrics) (log : List Entry)

theorem commands_foldl_enter :
    (log.foldl enter m).commands = countLabels (log.filterMap Entry.label?) m.commands := by
  induction log generalizing m with
  | nil => rfl
  | cons e rest ih =>
    rw [List.foldl_cons, ih, enter, List.filterMap_cons]
    cases e.label? <;> rfl

/-- A counter that each entry moves as it moves a count of the log ends at that count. -/
theorem counter_foldl_enter (counter : Metrics → Nat) (count : List Entry → Nat)
    (hnil : count [] = 0)
    (hcons : ∀ m e rest, counter (enter m e) + count rest = counter m + count (e :: rest)) :
    counter (log.foldl enter m) = counter m + count log := by
  induction log generalizing m with
  | nil => rw [hnil]; rfl
  | cons e rest ih => rw [List.foldl_cons, ih, hcons]

theorem added_foldl_enter : (log.foldl enter m).added =
    m.added + (log.flatMap Entry.updates).countP fun u => !u.isRemoval :=
  counter_foldl_enter m log added (fun log => (log.flatMap Entry.updates).countP _) rfl
    fun m e rest => by rw [enter, List.flatMap_cons, List.countP_append, Nat.add_assoc]

theorem removed_foldl_enter : (log.foldl enter m).removed =
    m.removed + (log.flatMap Entry.updates).countP PowerUpdate.isRemoval :=
  counter_foldl_enter m log removed (fun log => (log.flatMap Entry.updates).countP _) rfl
    fun m e rest => by rw [enter, List.flatMap_cons, List.countP_append, Nat.add_assoc]

theorem violations_foldl_enter :
    (log.foldl enter m).violations = m.violations + log.countP Entry.isViolation :=
  counter_foldl_enter m log violations (List.countP Entry.isViolation) rfl fun m e rest => by
    rw [enter, List.countP_cons, Nat.add_assoc, Nat.add_comm (ite _ _ _)]

/-- The counters that a log is entered into from its first entry on stand for the log. -/
theorem accountsFor_foldl_enter : (log.foldl enter {}).AccountsFor log where
  commandCount_eq command outcome := by
    rw [commandCount, commands_foldl_enter, lookup_countLabels]
    exact Nat.zero_add _
  mem_listing_iff label n := by
    have htidy : Tidy (log.foldl enter {}).commands := by
      rw [commands_foldl_enter]
      have hnone : Tidy [] := ⟨List.nodup_nil, fun _ h => absurd h List.not_mem_nil⟩
      exact hnone.countLabels _
    rw [listing, (List.mergeSort_perm _ _).mem_iff, htidy.mem_iff, commands_foldl_enter,
      lookup_countLabels]
    simp
  added_eq := by rw [added_foldl_enter]; exact Nat.zero_add _
  removed_eq := by rw [removed_foldl_enter]; exact Nat.zero_add _
  violations_eq := by rw [violations_foldl_enter]; exact Nat.zero_add _

end Log

end Metrics

/-! ## Uses -/

namespace Call

open Service (Entry)

variable {c : Call} {failure : Failure} (m : Metrics)

/-- No check of arguments finds a corrupt registry. -/
theorem isFatal_of_check (h : c.plan.check = .error failure) : failure.isFatal = false := by
  have hproper : failure.isInternal = false := c.proper_check failure h
  cases failure <;> first | rfl | cases hproper

theorem refused_eq (h : c.plan.check = .error failure) :
    c.plan.refused failure m = m.enter (.called c (.error failure)) := by
  have hfatal := isFatal_of_check h
  cases c with
  | execute command => cases h
  | handle command => simp only [Metrics.enter, Entry.isViolation, Reply.isFatal, hfatal]; rfl
  | initialise genesis => rfl
  | setParams params => rfl
  | endEpoch => cases h

theorem failed_eq (failure : Failure) :
    c.plan.failed failure m = m.enter (.called c (.error failure)) := by
  cases c with
  | execute command | handle command | endEpoch =>
    cases hfatal : failure.isFatal <;>
      simp only [plan, commandPlan, Metrics.countFailure, Metrics.enter, Entry.isViolation,
        Reply.isFatal, hfatal] <;> rfl
  | initialise genesis => rfl
  | setParams params => rfl

theorem carriedOut_eq (reply : Reply) :
    c.plan.carriedOut reply m = m.enter (.called c (.ok reply)) := by
  cases c with
  | execute command => rfl
  | handle command => rfl
  | initialise genesis => rfl
  | setParams params => rfl
  | endEpoch =>
    have hadded (us : List PowerUpdate) :
        us.length - us.countP PowerUpdate.isRemoval = us.countP fun u => !u.isRemoval := by
      have := List.length_eq_countP_add_countP PowerUpdate.isRemoval (l := us)
      simp only [Bool.not_eq_true, Bool.decide_eq_false] at this
      omega
    simp only [plan, Metrics.countUpdates, hadded]
    rfl

end Call

namespace Service

variable {σ : Type} [ByteStore σ]

/-- A use of a service is entered into its counters. -/
theorem metrics_use (s : Service σ) (faults : Nat → Option StoreFailure) (u : Use) :
    (s.use faults u).2.metrics = s.metrics.enter (s.use faults u).1 := by
  cases u with
  | ask q => rfl
  | call c =>
    rw [use, callUnder, perform]
    cases hcheck : (c.plan.failing faults).check with
    | error failure => exact Call.refused_eq s.metrics hcheck
    | ok _ =>
      cases hcommit : s.commit (c.plan.failing faults).transaction with
      | error failure => exact Call.failed_eq s.metrics failure
      | ok r =>
        show c.plan.carriedOut r.1 r.2.metrics = _
        rw [congrArg Service.metrics (commit_frame hcommit)]
        exact Call.carriedOut_eq s.metrics r.1

/-- A life of a service is entered into its counters. -/
theorem metrics_live (s : Service σ) (moments : List (Moment σ)) :
    (s.live moments).2.metrics = (s.live moments).1.foldl Metrics.enter s.metrics := by
  induction moments generalizing s with
  | nil => rfl
  | cons moment rest ih =>
    simp only [live, List.foldl_cons]
    rw [ih, metrics_use]

/-- The log tells of every use. -/
theorem map_use_live (s : Service σ) (moments : List (Moment σ)) :
    (s.live moments).1.map Entry.use = moments.map Moment.use := by
  induction moments generalizing s with
  | nil => rfl
  | cons moment rest ih =>
    simp only [live, List.map_cons, ih]
    cases moment.use <;> rfl

/-- **The counters account for every call exactly once.** Where nothing befalls the store, a life of
calls is a run of them. Whatever the store of a service holds, and whatever befalls it: after any
calls and questions, the counters stand for the log of these. Foundings, changes of the parameters
and questions leave all counters as they are. -/
theorem live_accounted (store : σ) (sink : Sink) (moments : List (Moment σ)) :
    (∀ (s : Service σ) (calls : List Call),
      s.live (calls.map fun c => { use := .call c }) =
        (List.zipWith Entry.called calls (s.run calls).1, (s.run calls).2)) ∧
    (live { store, sink } moments).1.map Entry.use = moments.map Moment.use ∧
    (live { store, sink } moments).2.metrics.AccountsFor (live { store, sink } moments).1 ∧
    ∀ (s : Service σ) (faults : Nat → Option StoreFailure),
      (∀ g, (s.callUnder faults (.initialise g)).2.metrics = s.metrics) ∧
      (∀ params, (s.callUnder faults (.setParams params)).2.metrics = s.metrics) ∧
      ∀ q, (s.use faults (.ask q)).2.metrics = s.metrics := by
  refine ⟨live_none, map_use_live _ moments, ?_, fun s faults =>
    ⟨fun g => ?_, fun params => ?_, fun q => rfl⟩⟩
  · rw [metrics_live]
    exact Metrics.accountsFor_foldl_enter _
  · exact metrics_use s faults (.call (.initialise g))
  · exact metrics_use s faults (.call (.setParams params))

/-- A leave of somebody who is not seated, one that names nobody, and the first one again while the
store cannot be read. -/
example :
    let strange : Call := .execute (.leaveValidatorSet (Validator.uniform 1 1).operator)
    let malformed : Call := .handle (.leaveValidatorSet .zero)
    (live { store := ({} : Backend) }
      [{ use := .call strange }, { use := .call malformed }, { use := .call (.setParams {}) },
       { disturb := fun b => { b with faults := { get := fun _ => true } }, use := .call strange },
       { use := .ask .params }]).2.metrics =
    { commands := [(("leave_validator_set", "not_validator"), 1),
        (("leave_validator_set", "invalid_command"), 1),
        (("leave_validator_set", "storage"), 1)] } := by
  decide

end Service

end AuthoritySet
