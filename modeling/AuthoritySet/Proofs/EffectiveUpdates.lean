import AuthoritySet.Proofs.ConsensusSet
import AuthoritySet.Proofs.UniqueIdentities
import Mathlib.Data.List.DropRight

/-!
# What updates tell the consensus layer

An update that adds a key should name one that the consensus layer does not have, and one that takes
a key away should name one that it has. As long as nobody is seated twice (`Turn.SeatsTwice`), the
former is so. But whoever is admitted and sent away between two epoch boundaries is revoked without
ever having been granted; all others that are revoked are known (`Service.Owes`).

* `Ledger.Informed`: the consensus layer has the keys of the registry, except those of validators
  that were admitted since the last epoch boundary. `Ledger.Informed.seatChange` and
  `Ledger.Informed.settled` keep that.
* `Service.updates_owed`: what every update of an epoch boundary says, over all runs.
-/

namespace AuthoritySet

/-- The turns since the last epoch boundary. -/
def sinceBoundary {α : Type} (turns : List (Turn α)) : List (Turn α) :=
  turns.rtakeWhile fun t => t.act ≠ .endEpoch

@[simp] theorem sinceBoundary_nil {α : Type} : sinceBoundary ([] : List (Turn α)) = [] := rfl

theorem sinceBoundary_concat {α : Type} (turns : List (Turn α)) (t : Turn α) :
    sinceBoundary (turns ++ [t]) =
      if t.act = .endEpoch then [] else sinceBoundary turns ++ [t] := by
  simp [sinceBoundary, List.rtakeWhile_concat]

/-- In this turn somebody was admitted whose operator or whose key stood in the registry already. -/
def Turn.SeatsTwice (t : Turn (Service Contents)) : Prop :=
  ∃ v vs, .appendValidator v.operator ∈ t.events ∧
    t.after.view (Registry.validator? v.operator) = .ok (some v) ∧
    t.before.view Registry.validators = .ok vs ∧
    ∃ w ∈ vs, w.operator = v.operator ∨ w.key = v.key

/-- What an update of an epoch boundary says where the consensus layer has some keys and some events
came since the last boundary: it adds the key of a joining validator, which the layer does not have,
or takes away that of a leaving one, which the layer has unless the validator was admitted by one of
these events. -/
inductive Service.Owes (s : Service Contents) (keys : Finset ConsensusKey) (events : List Event)
    (u : PowerUpdate) : Prop
  | grant {v : Validator} (power : u.power = 1) (key : u.key = v.key)
    (record : s.view (Registry.validator? v.operator) = .ok (some v))
    (joining : s.lifecycle? v.operator = .ok (some .joining))
    (new : u.key ∉ keys)
  | revoke {v : Validator} (power : u.power = 0) (key : u.key = v.key)
    (record : s.view (Registry.validator? v.operator) = .ok (some v))
    (leaving : s.lifecycle? v.operator = .ok (some .leaving))
    (known : u.key ∈ keys ↔ .appendValidator v.operator ∉ events)

namespace Ledger

variable {l l' : Ledger} {keys : Finset ConsensusKey} {events new : List Event}

/-- The consensus layer is on track, and has the keys of all validators but those that were admitted
by some events. -/
structure Informed (l : Ledger) (keys : Finset ConsensusKey) (events : List Event) : Prop
    extends l.Tracks keys where
  singlyKeyed : l.SinglyKeyed
  mem_iff {operator : OperatorAddress} {v : Validator} :
    l.validators.get? operator = some v → (v.key ∈ keys ↔ .appendValidator operator ∉ events)

/-- When everybody has joined, the consensus layer is informed without any events. -/
theorem Announced.informed (h : l.Announced keys) (hkeyed : l.SinglyKeyed) :
    l.Informed keys [] where
  toTracks := h.tracks
  singlyKeyed := hkeyed
  mem_iff {operator v} hv := by simpa using h.mem_iff.mpr ⟨operator, v, hv, rfl⟩

namespace SinglyKeyed

theorem empty {l : Ledger} (h : l.validators = .empty) : l.SinglyKeyed where
  operator_eq hv := by
    rw [h] at hv
    cases hv

theorem congr (h : l.SinglyKeyed) (hvalidators : l'.validators = l.validators) :
    l'.SinglyKeyed where
  operator_eq hv hw := by
    rw [hvalidators] at hv hw
    exact h.operator_eq hv hw

/-- A validator with a new key may be seated. -/
theorem seat (h : l.SinglyKeyed) {v : Validator} (state : Lifecycle)
    (hnew : l.NewBy Validator.key v) : (l.seat v state).SinglyKeyed where
  operator_eq hu hw hkey := by
    rcases Table.get?_insert_cases hu with ⟨rfl, rfl⟩ | ⟨-, hu'⟩ <;>
      rcases Table.get?_insert_cases hw with ⟨rfl, rfl⟩ | ⟨-, hw'⟩
    · rfl
    · exact absurd hkey.symm (hnew.2 _ _ hw')
    · exact absurd hkey (hnew.2 _ _ hu')
    · exact h.operator_eq hu' hw' hkey

theorem settled (h : l.SinglyKeyed) (hl : l.Sound) : l.settled.SinglyKeyed where
  operator_eq hv hw := h.operator_eq (hl.seated_of_settled hv).1 (hl.seated_of_settled hw).1

end SinglyKeyed

namespace Informed

/-- What a command does to the seats leaves the consensus layer informed, if it seats nobody whose
operator or key has a seat. -/
theorem seatChange (h : l.Informed keys events) (hc : l.SeatChange new l')
    (hnew : ∀ v, .appendValidator v.operator ∈ new →
      l'.validators.get? v.operator = some v → l.NewBy Validator.key v) :
    l'.Informed keys (events ++ new) := by
  have hkept : ∀ {operator}, .appendValidator operator ∉ new →
      (.appendValidator operator ∉ events ++ new ↔ .appendValidator operator ∉ events) := by
    intro operator hnone
    simp [hnone]
  cases hc with
  | kept silent validators lifecycles =>
    refine ⟨h.toTracks.congr validators lifecycles, h.singlyKeyed.congr validators,
      fun {operator v} hv => ?_⟩
    have hnone : .appendValidator operator ∉ new := fun hmem => by
      simpa [silent] using (appended_iff _ _).mpr hmem
    rw [hkept hnone]
    exact h.mem_iff (validators ▸ hv)
  | sentAway away single validators lifecycles =>
    refine ⟨(h.setLeaving away).congr validators lifecycles, h.singlyKeyed.congr validators,
      fun {operator v} hv => ?_⟩
    have hnone : .appendValidator operator ∉ new := fun hmem => by
      simpa [single] using (appended_iff _ _).mpr hmem
    rw [hkept hnone]
    exact h.mem_iff (validators ▸ hv)
  | admitted v single validators lifecycles =>
    have hemitted : .appendValidator v.operator ∈ new :=
      (appended_iff _ _).mp (single ▸ List.mem_singleton_self _)
    have hnewBy := hnew v hemitted (by simp [validators])
    refine ⟨(h.seat hnewBy.1).congr validators lifecycles,
      (h.singlyKeyed.seat .joining hnewBy).congr validators, fun {operator w} hw => ?_⟩
    rw [validators] at hw
    rcases Table.get?_insert_cases hw with ⟨rfl, rfl⟩ | ⟨hop, hw⟩
    · -- a key that the consensus layer has belongs to somebody who was seated before
      refine iff_of_false (fun hk => ?_) (fun hnone => hnone (List.mem_append_right _ hemitted))
      obtain ⟨operator, u, -, hu, hkey, -⟩ := h.seated_of_mem hk
      exact hnewBy.2 operator u hu hkey
    · have hnone : .appendValidator operator ∉ new := fun hmem => by
        simpa [single, hop] using (appended_iff _ _).mpr hmem
      rw [hkept hnone]
      exact h.mem_iff hw

/-- After an epoch boundary the consensus layer is informed without any events. -/
theorem settled (h : l.Informed keys events) (hl : l.Sound) :
    l.settled.Informed (l.dueUpdates.foldl PowerUpdate.applyTo keys) [] :=
  (h.toTracks.announced_settled h.singlyKeyed hl).informed (h.singlyKeyed.settled hl)

/-- Founding informs the consensus layer. -/
theorem establish {g : Genesis} (hcheck : g.check = .ok ()) :
    (({} : Ledger).establish g).2.Informed (consensusKeys (g.validators.map Validator.grant)) [] := by
  have hestablished : (({} : Ledger).establish g).2.Announced
        (consensusKeys (g.validators.map Validator.grant)) ∧
      (({} : Ledger).establish g).2.SinglyKeyed := by
    refine establish_induction_by (f := Validator.key) (P := fun vs l =>
      l.Announced (consensusKeys (vs.map Validator.grant)) ∧ l.SinglyKeyed) hcheck
      (Genesis.nodup_keys hcheck) ⟨?_, .empty rfl⟩ ?_
    · constructor
      · exact fun hv => by cases hv
      · simp [consensusKeys, setParams]
    · rintro seated l v - ⟨h, hkeyed⟩ hnew
      rw [List.map_append, consensusKeys_append]
      exact ⟨h.seat hnew.1, hkeyed.seat .joined hnew⟩
  exact hestablished.1.informed hestablished.2

end Informed

/-! ## Updates of a boundary -/

namespace Informed

/-- What an update of an epoch boundary says when it is the consensus layer's turn to hear it: those
that come before it at the same boundary are about other keys. -/
theorem owes {s : Service Contents} (h : l.Informed keys events) (hs : s.Holds l)
    {earlier later : List PowerUpdate} {u : PowerUpdate}
    (hdue : l.dueUpdates = earlier ++ u :: later) :
    s.Owes (earlier.foldl PowerUpdate.applyTo keys) events u := by
  have hother : u.key ∉ earlier.map (·.key) := by
    have hnodup := h.singlyKeyed.nodup_keys_dueUpdates
    rw [hdue, List.map_append, List.map_cons, List.nodup_append] at hnodup
    exact fun hmem => hnodup.2.2 _ hmem _ List.mem_cons_self rfl
  have hu : u ∈ l.dueUpdates := hdue ▸ List.mem_append_right _ List.mem_cons_self
  obtain ⟨operator, v, state, hv, hstate, hu⟩ := hs.sound.mem_dueUpdates.mp hu
  obtain rfl := hs.sound.validator_keyed hv
  have hrecord : s.view (Registry.validator? v.operator) = .ok (some v) := by
    rw [hs.validator_eq, hv]
  have hlifecycle : s.lifecycle? v.operator = .ok (some state) := by rw [hs.lifecycle_eq, hstate]
  cases state with
  | joining =>
    cases hu
    refine .grant rfl rfl hrecord hlifecycle ?_
    rw [mem_foldl_applyTo_of_notMem hother]
    intro hk
    obtain ⟨operator, w, state, hw, hkey, hstate', hne⟩ := h.seated_of_mem hk
    rw [h.singlyKeyed.operator_eq hw hv hkey, hstate] at hstate'
    exact hne (Option.some.inj hstate').symm
  | joined => cases hu
  | leaving =>
    cases hu
    refine .revoke rfl rfl hrecord hlifecycle ?_
    rw [mem_foldl_applyTo_of_notMem hother]
    exact h.mem_iff hv

end Informed

end Ledger

/-! ## Services -/

namespace Service

variable {s s₀ : Service Contents} {l : Ledger} {keys : Finset ConsensusKey}
  {past : List (Turn (Service Contents))}

/-- A turn that seats nobody twice admits validators that are new by their keys. -/
theorem Holds.newBy_of_admitted (h : s.Holds l) {a : Act}
    (hguard : ¬ (turn Service.act s a).SeatsTwice) {v : Validator}
    (hemitted : .appendValidator v.operator ∈ (turn Service.act s a).events)
    (hafter : (l.act a).2.validators.get? v.operator = some v) : l.NewBy Validator.key v := by
  have hnone : ∀ w ∈ l.validators.values, ¬ (w.operator = v.operator ∨ w.key = v.key) := by
    refine fun w hw hsame => hguard ⟨v, _, hemitted, ?_, h.validators_eq, w, hw, hsame⟩
    exact ((h.act a).validator_eq _).trans (congrArg _ hafter)
  refine ⟨Option.eq_none_iff_forall_ne_some.mpr fun w hw => ?_, fun operator w hw hkey => ?_⟩
  · exact hnone w (Table.mem_values.mpr ⟨_, hw⟩) (.inl (h.sound.validator_keyed hw))
  · exact hnone w (Table.mem_values.mpr ⟨_, hw⟩) (.inr hkey)

/-- A turn that seats nobody twice leaves the consensus layer informed, which is told of it. -/
theorem Holds.informed_act (h : s.Holds l)
    (hi : l.Informed keys ((sinceBoundary past).flatMap Turn.events)) {a : Act}
    (hguard : ¬ (turn Service.act s a).SeatsTwice) :
    (l.act a).2.Informed ((turn Service.act s a).updates.foldl PowerUpdate.applyTo keys)
      ((sinceBoundary (past ++ [turn Service.act s a])).flatMap Turn.events) := by
  have hevents := h.events_eq a
  have hupdates : (turn Service.act s a).updates = Reply.owed (l.act a).1 :=
    congrArg Reply.owed (h.act_eq a).1
  rw [sinceBoundary_concat, show (turn Service.act s a).act = a from rfl]
  by_cases ha : a = .endEpoch
  · rw [if_pos ha, hupdates, ha, h.sound.act_endEpoch]
    exact hi.settled h.sound
  · have hnone : Reply.owed (l.act a).1 = [] := by
      rcases h.sound.act_cases a with ⟨_, heq⟩ | ⟨_, _, _, -, -, heq⟩ | ⟨_, -, -, heq⟩ | ⟨hend, -⟩
      · rw [heq]; rfl
      · rw [heq]; rfl
      · rw [heq]; rfl
      · exact absurd hend ha
    rw [if_neg ha, hupdates, hnone, List.flatMap_append, List.flatMap_singleton, hevents]
    exact hi.seatChange (h.sound.seatChange_act ha) fun v hemitted hafter =>
      h.newBy_of_admitted hguard (hevents ▸ hemitted) hafter

/-- Nobody is seated twice if identities are distinct. -/
theorem Holds.not_seatsTwice (h : s.Holds l) (hd : l.Distinct) (a : Act) :
    ¬ (turn Service.act s a).SeatsTwice := by
  rintro ⟨v, vs, hemitted, hafter, hvs, w, hw, hsame⟩
  rw [h.events_eq] at hemitted
  obtain ⟨c, -, hstep⟩ := h.sound.step_of_mem_published hemitted
  obtain ⟨u, hu, hadmitted, hnew⟩ := hd.newToRegistry_of_admitted h.sound hstep hemitted
  have hafter : (l.act a).2.validators.get? v.operator = some v :=
    Except.ok.inj (((h.act a).validator_eq _).symm.trans hafter)
  obtain rfl : u = v := Option.some.inj (hadmitted.symm.trans hafter)
  obtain rfl : l.validators.values = vs := Except.ok.inj (h.validators_eq.symm.trans hvs)
  have hw := h.sound.mem_values.mp hw
  rcases hsame with hop | hkey
  · rw [hop, hnew.1] at hw
    cases hw
  · exact hnew.2 _ w hw (congrArg ConsensusKey.address hkey)

/-- Nobody is seated twice in a run whose keys are told apart and in which nobody is seated past an
application. -/
theorem Holds.not_seatsTwice_turns {g : Genesis} {acts : List Act}
    (h : s.Holds (({} : Ledger).establish g).2) (hcheck : g.check = .ok ())
    (hkeys : KeysTellApart (usedKeys g acts))
    (hguard : ∀ t ∈ s.turns acts, ¬ t.PassesApplication) :
    ∀ t ∈ s.turns acts, ¬ t.SeatsTwice := by
  intro t ht
  obtain ⟨before, a, after, rfl, rfl⟩ := exists_of_mem_turns ht
  obtain ⟨l, hl, hd, -⟩ := h.distinct_finish hcheck hkeys hguard (List.prefix_append before _)
  exact hl.not_seatsTwice hd a

/-- **What updates tell the consensus layer.** Nobody is seated twice in a run whose keys are told
apart and in which nobody is seated past an open application. Where nobody is seated twice, every
epoch boundary succeeds, and each of its updates adds the key of a joining validator that the
consensus layer does not have at that moment, or takes away the key of a leaving one; and the layer
has that key exactly if the validator was admitted before the last epoch boundary. -/
theorem updates_owed {g : Genesis} {updates : List PowerUpdate} {acts : List Act}
    (hempty : s.store = .empty) (hstart : s.initialise g = .ok (updates, s₀)) :
    (KeysTellApart (usedKeys g acts) → (∀ t ∈ s₀.turns acts, ¬ t.PassesApplication) →
      ∀ t ∈ s₀.turns acts, ¬ t.SeatsTwice) ∧
    ((∀ t ∈ s₀.turns acts, ¬ t.SeatsTwice) → ∀ past, past <+: acts →
      ∃ due, (s₀.finish past).endEpoch.1 = .ok due ∧
        ∀ earlier u later, due = earlier ++ u :: later →
          (s₀.finish past).Owes (consensusKeys (updates ++ s₀.told past ++ earlier))
            ((sinceBoundary (s₀.turns past)).flatMap Turn.events) u) := by
  obtain ⟨hcheck, rfl, -⟩ := (initialise_eq_ok_iff hempty).mp hstart
  have hfounded := holds_initialise hempty hstart
  constructor
  · exact fun hkeys hguard => hfounded.not_seatsTwice_turns hcheck hkeys hguard
  · intro hguard past hpast
    have hinformed : ∃ l, (s₀.finish past).Holds l ∧ l.Informed
        (consensusKeys (g.validators.map Validator.grant ++ s₀.told past))
        ((sinceBoundary (s₀.turns past)).flatMap Turn.events) := by
      refine turns_induction
        (I := fun turns (s : Service Contents) => ∃ l, s.Holds l ∧ l.Informed
          (consensusKeys (g.validators.map Validator.grant ++ turns.flatMap Turn.updates))
          ((sinceBoundary turns).flatMap Turn.events))
        (G := fun t => ¬ t.SeatsTwice) ?_ ⟨_, hfounded, ?_⟩
        fun t ht => hguard t ((turns_mono hpast).subset ht)
      · rintro turns s a ⟨l, h, hi⟩ hguard
        refine ⟨_, h.act a, ?_⟩
        rw [List.flatMap_append, ← List.append_assoc, consensusKeys_append]
        simpa using h.informed_act hi hguard
      · simpa using Ledger.Informed.establish hcheck
    obtain ⟨l, h, hi⟩ := hinformed
    refine ⟨l.dueUpdates, h.endEpoch_eq.1, fun earlier u later hdue => ?_⟩
    rw [consensusKeys_append]
    exact hi.owes h hdue

/-- A candidate is admitted and leaves within one epoch. -/
def admitAndLeave : List Act :=
  [.handle (.submitApplication (.uniform 2 2)),
   .handle (.voteApplication (Validator.uniform 1 1).operator (Validator.uniform 2 2).operator
     true),
   .handle (.leaveValidatorSet (Validator.uniform 2 2).operator)]

theorem updates_owed_admitAndLeave : ((founded .lone).finish admitAndLeave).Owes
    (consensusKeys (Genesis.lone.validators.map Validator.grant ++
      (founded .lone).told admitAndLeave))
    ((sinceBoundary ((founded .lone).turns admitAndLeave)).flatMap Turn.events)
    (Validator.uniform 2 2).revoke := by
  obtain ⟨honce, howed⟩ := updates_owed rfl (initialise_founded (g := .lone) (by decide))
  have hballots : ∀ t ∈ (founded .lone).turns admitAndLeave,
      (t.events.head?.bind Event.newState?).map (·.2) ≠ some .joining := by decide +kernel
  have hpassed : ∀ t ∈ (founded .lone).turns admitAndLeave, ¬ t.PassesApplication :=
    fun t ht ⟨_, _, _, hreply, _⟩ => hballots t ht (by rw [Turn.events, hreply]; rfl)
  obtain ⟨due, hdue, howes⟩ := howed (honce (by decide +kernel) hpassed) admitAndLeave
    List.prefix_rfl
  have hrevoked : ((founded .lone).finish admitAndLeave).endEpoch.1 =
      .ok [(Validator.uniform 2 2).revoke] := by decide +kernel
  obtain rfl := Except.ok.inj (hdue.symm.trans hrevoked)
  simpa using howes [] _ [] rfl

/-- The consensus layer is asked to remove a validator that it was never told about. -/
theorem revoked_unknown_admitAndLeave :
    ((founded .lone).finish admitAndLeave).endEpoch.1 = .ok [(Validator.uniform 2 2).revoke] ∧
      (Validator.uniform 2 2).key ∉ consensusKeys (Genesis.lone.validators.map Validator.grant ++
        (founded .lone).told admitAndLeave) := by
  decide +kernel

end Service

end AuthoritySet
