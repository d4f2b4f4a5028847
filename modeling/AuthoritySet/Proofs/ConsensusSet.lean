import AuthoritySet.Proofs.Ledger.Status
import Mathlib.Data.Finset.Basic
import Mathlib.Data.Finset.Dedup
import Mathlib.Data.List.Nodup

/-!
# The consensus layer's set

The consensus layer knows the authority set only by the updates that it is told
(`consensusKeys`). Between epoch boundaries its keys are those of validators that have joined or are
leaving, and it has the keys of all that have joined (`Ledger.Tracks`); after a boundary its keys
are exactly those of the registry, and everybody has joined (`Ledger.Announced`).

* `Ledger.Tracks.seatChange`, `Ledger.Tracks.step`: commands keep the consensus layer on track.
* `Ledger.Tracks.announced_settled`: the updates of an epoch boundary bring it up to date, if no two
  validators have one key (`Ledger.SinglyKeyed`).
* `Service.consensus_follows_registry`: what this comes to over all runs.
-/

namespace AuthoritySet

/-- A set of keys after an update. -/
def PowerUpdate.applyTo (keys : Finset ConsensusKey) (u : PowerUpdate) : Finset ConsensusKey :=
  if u.power = 1 then insert u.key keys
  else if u.power = 0 then keys.erase u.key
  else keys

/-- The keys that the consensus layer has after some updates. -/
def consensusKeys (updates : List PowerUpdate) : Finset ConsensusKey :=
  updates.foldl PowerUpdate.applyTo ∅

theorem consensusKeys_append (updates later : List PowerUpdate) :
    consensusKeys (updates ++ later) = later.foldl PowerUpdate.applyTo (consensusKeys updates) :=
  List.foldl_append

/-- An update of another key leaves a key where it is. -/
theorem PowerUpdate.mem_applyTo_of_ne {u : PowerUpdate} {keys : Finset ConsensusKey}
    {k : ConsensusKey} (h : u.key ≠ k) : k ∈ u.applyTo keys ↔ k ∈ keys := by
  unfold applyTo
  split
  · simp [Ne.symm h]
  · split
    · simp [Ne.symm h]
    · rfl

/-- Updates of other keys leave a key where it is. -/
theorem mem_foldl_applyTo_of_notMem {updates : List PowerUpdate} {keys : Finset ConsensusKey}
    {k : ConsensusKey} (h : k ∉ updates.map (·.key)) :
    k ∈ updates.foldl PowerUpdate.applyTo keys ↔ k ∈ keys := by
  induction updates generalizing keys with
  | nil => rfl
  | cons u rest ih =>
    rw [List.map_cons, List.mem_cons, not_or] at h
    rw [List.foldl_cons, ih h.2, PowerUpdate.mem_applyTo_of_ne (Ne.symm h.1)]

/-- After updates of different keys, the set has the keys that were added, and those it had that
were not taken away. -/
theorem mem_foldl_applyTo {updates : List PowerUpdate} (hnodup : (updates.map (·.key)).Nodup)
    {keys : Finset ConsensusKey} {k : ConsensusKey} :
    k ∈ updates.foldl PowerUpdate.applyTo keys ↔ (∃ u ∈ updates, u.key = k ∧ u.power = 1) ∨
      k ∈ keys ∧ ∀ u ∈ updates, u.key = k → u.power ≠ 0 := by
  induction updates generalizing keys with
  | nil => simp
  | cons u rest ih =>
    rw [List.map_cons, List.nodup_cons] at hnodup
    by_cases hk : u.key = k
    · -- no later update is about this key, so that the first one decides
      subst hk
      have hnone : ∀ w ∈ rest, w.key ≠ u.key := fun w hw he =>
        hnodup.1 (List.mem_map.mpr ⟨w, hw, he⟩)
      rw [List.foldl_cons, mem_foldl_applyTo_of_notMem hnodup.1]
      simp only [List.mem_cons, exists_eq_or_imp, forall_eq_or_imp, PowerUpdate.applyTo]
      have hadded : ¬ ∃ w ∈ rest, w.key = u.key ∧ w.power = 1 := by
        rintro ⟨w, hw, he, -⟩
        exact hnone w hw he
      by_cases hone : u.power = 1
      · simp [hone]
      · by_cases hzero : u.power = 0
        · simp [hzero, hadded]
        · have hkept : ∀ w ∈ rest, w.key = u.key → w.power ≠ 0 := fun w hw he =>
            absurd he (hnone w hw)
          simpa [hone, hzero, hadded] using fun _ => hkept
    · rw [List.foldl_cons, ih hnodup.2, PowerUpdate.mem_applyTo_of_ne hk]
      simp [hk]

namespace Ledger

variable {l l' : Ledger} {keys : Finset ConsensusKey} {v : Validator}

/-! ## The relation to the registry -/

/-- The consensus layer's keys are those of the registry, and everybody has joined. -/
structure Announced (l : Ledger) (keys : Finset ConsensusKey) : Prop where
  joined {operator : OperatorAddress} {v : Validator} :
    l.validators.get? operator = some v → l.lifecycles.get? operator = some .joined
  mem_iff {k : ConsensusKey} :
    k ∈ keys ↔ ∃ operator v, l.validators.get? operator = some v ∧ v.key = k

/-- The consensus layer has the keys of those who have joined, and all its keys are of seated
validators that are not joining. -/
structure Tracks (l : Ledger) (keys : Finset ConsensusKey) : Prop where
  mem_of_joined {operator : OperatorAddress} {v : Validator} :
    l.validators.get? operator = some v → l.lifecycles.get? operator = some .joined → v.key ∈ keys
  seated_of_mem {k : ConsensusKey} : k ∈ keys → ∃ operator v state,
    l.validators.get? operator = some v ∧ v.key = k ∧
      l.lifecycles.get? operator = some state ∧ state ≠ .joining

theorem Announced.tracks (h : l.Announced keys) : l.Tracks keys where
  mem_of_joined {operator v} hv _ := h.mem_iff.mpr ⟨operator, v, hv, rfl⟩
  seated_of_mem hk := by
    obtain ⟨operator, v, hv, hkey⟩ := h.mem_iff.mp hk
    exact ⟨operator, v, .joined, hv, hkey, h.joined hv, by decide⟩

namespace Tracks

theorem congr (h : l.Tracks keys) (hvalidators : l'.validators = l.validators)
    (hstates : l'.lifecycles = l.lifecycles) : l'.Tracks keys := by
  refine ⟨?_, ?_⟩
  · rw [hvalidators, hstates]
    exact h.mem_of_joined
  · rw [hvalidators, hstates]
    exact h.seated_of_mem

/-- A new validator is joining, so that the consensus layer does not know it yet. -/
theorem seat (h : l.Tracks keys) (hnew : l.validators.get? v.operator = none) :
    (l.seat v .joining).Tracks keys where
  mem_of_joined {operator w} hw hstate := by
    by_cases hop : operator = v.operator
    · simp [hop] at hstate
    · exact h.mem_of_joined (by simpa [hop] using hw) (by simpa [hop] using hstate)
  seated_of_mem hk := by
    obtain ⟨operator, w, state, hw, hkey, hstate, hne⟩ := h.seated_of_mem hk
    have hop : operator ≠ v.operator := by
      rintro rfl
      rw [hnew] at hw
      cases hw
    exact ⟨operator, w, state, by simpa [hop] using hw, hkey, by simpa [hop] using hstate, hne⟩

/-- Who is marked as leaving is still known. -/
theorem setLeaving (h : l.Tracks keys) (operator : OperatorAddress) :
    (l.setLifecycle operator .leaving).Tracks keys where
  mem_of_joined {operator' w} hw hstate := by
    by_cases hop : operator' = operator
    · simp [hop] at hstate
    · exact h.mem_of_joined hw (by simpa [hop] using hstate)
  seated_of_mem hk := by
    obtain ⟨operator', w, state, hw, hkey, hstate, hne⟩ := h.seated_of_mem hk
    by_cases hop : operator' = operator
    · exact ⟨operator', w, .leaving, hw, hkey, by simp [hop], by decide⟩
    · exact ⟨operator', w, state, hw, hkey, by simpa [hop] using hstate, hne⟩

/-- What commands do to the seats keeps the consensus layer on track, if only those are admitted who
have no seat. -/
theorem seatChange (h : l.Tracks keys) {events : List Event} (hc : l.SeatChange events l')
    (hnew : ∀ operator, .appendValidator operator ∈ events →
      l.validators.get? operator = none) : l'.Tracks keys := by
  cases hc with
  | kept _ validators lifecycles => exact h.congr validators lifecycles
  | admitted v single validators lifecycles =>
    have hemitted := (appended_iff _ _).mp (single ▸ List.mem_singleton_self _)
    exact (h.seat (hnew v.operator hemitted)).congr validators lifecycles
  | sentAway operator _ validators lifecycles =>
    exact (h.setLeaving operator).congr validators lifecycles

/-- Commands keep the consensus layer on track. -/
theorem step (h : l.Tracks keys) (hd : l.Distinct) (hl : l.Sound) {c : Command}
    {events : List Event} (hs : l.Step c events l') : l'.Tracks keys := by
  refine h.seatChange (hs.seatChange hl) fun operator hemitted => ?_
  obtain ⟨v, rfl, -, hnew⟩ := hd.newToRegistry_of_admitted hl hs hemitted
  exact hnew.1

end Tracks

/-! ## Epoch boundaries -/

theorem address_dueUpdate? {u : PowerUpdate} (h : l.dueUpdate? v = some u) :
    u.address = v.address ∧ u.key = v.key := by
  obtain ⟨state, -, hu⟩ := Option.bind_eq_some_iff.mp h
  cases state <;> cases hu <;> exact ⟨rfl, rfl⟩

theorem sublist_dueUpdates {β : Type} {ofUpdate : PowerUpdate → β} {ofValidator : Validator → β}
    (h : ∀ {v u}, l.dueUpdate? v = some u → ofUpdate u = ofValidator v) (vs : List Validator) :
    ((vs.filterMap l.dueUpdate?).map ofUpdate).Sublist (vs.map ofValidator) := by
  induction vs with
  | nil => exact .slnil
  | cons v rest ih =>
    rw [List.filterMap_cons, List.map_cons]
    cases hu : l.dueUpdate? v with
    | none => exact ih.cons _
    | some u =>
      rw [List.map_cons, h hu]
      exact ih.cons_cons _

/-- No address stands twice in the updates of a boundary. -/
theorem Distinct.nodup_addresses_dueUpdates (h : l.Distinct) :
    (l.dueUpdates.map (·.address)).Nodup :=
  h.validators.nodup_addresses.sublist (sublist_dueUpdates (fun hu => (address_dueUpdate? hu).1) _)

/-- No two validators have one key. -/
structure SinglyKeyed (l : Ledger) : Prop where
  operator_eq {operator operator' : OperatorAddress} {v w : Validator} :
    l.validators.get? operator = some v → l.validators.get? operator' = some w →
      v.key = w.key → operator = operator'

theorem Distinct.singlyKeyed (h : l.Distinct) : l.SinglyKeyed where
  operator_eq hv hw hkey :=
    h.validators.operator_eq hv hw (congrArg ConsensusKey.address hkey)

/-- No key stands twice in the registry. -/
theorem SinglyKeyed.nodup_keys (h : l.SinglyKeyed) : (l.validators.values.map (·.key)).Nodup := by
  rw [Table.values, List.map_map]
  refine List.pairwise_map.mpr (l.validators.ascending.imp_of_mem fun {d e} hd he hlt hkey => ?_)
  have hop := h.operator_eq (Table.mem_entries_iff.mp hd) (Table.mem_entries_iff.mp he) hkey
  exact Std.lt_irrefl (hop ▸ hlt)

/-- No key stands twice in the updates of a boundary. -/
theorem SinglyKeyed.nodup_keys_dueUpdates (h : l.SinglyKeyed) :
    (l.dueUpdates.map (·.key)).Nodup :=
  h.nodup_keys.sublist (sublist_dueUpdates (fun hu => (address_dueUpdate? hu).2) _)

theorem Sound.mem_dueUpdates (hl : l.Sound) {u : PowerUpdate} : u ∈ l.dueUpdates ↔
    ∃ operator v state, l.validators.get? operator = some v ∧
      l.lifecycles.get? operator = some state ∧ v.dueUpdate? state = some u := by
  simp only [dueUpdates, List.mem_filterMap, hl.mem_values, dueUpdate?, Option.bind_eq_some_iff]
  constructor
  · rintro ⟨v, hv, state, hstate, hu⟩
    exact ⟨v.operator, v, state, hv, hstate, hu⟩
  · rintro ⟨operator, v, state, hv, hstate, hu⟩
    obtain rfl := hl.validator_keyed hv
    exact ⟨v, hv, state, hstate, hu⟩

/-- The key of a validator that stays is not taken away, because nobody who leaves has it, too. -/
theorem SinglyKeyed.power_ne_zero_of_staying (h : l.SinglyKeyed) (hl : l.Sound)
    {operator : OperatorAddress} (hv : l.validators.get? operator = some v)
    (hstaying : l.lifecycles.get? operator ≠ some .leaving) {u : PowerUpdate}
    (hu : u ∈ l.dueUpdates) (hkey : u.key = v.key) : u.power ≠ 0 := by
  intro hzero
  obtain ⟨operator', w, state, hw, hstate, hdue⟩ := hl.mem_dueUpdates.mp hu
  cases state with
  | joining =>
    cases hdue
    cases hzero
  | joined => cases hdue
  | leaving =>
    cases hdue
    rw [h.operator_eq hw hv hkey] at hstate
    exact hstaying hstate

/-- The updates of a boundary bring the consensus layer up to date. -/
theorem Tracks.announced_settled (h : l.Tracks keys) (hkeyed : l.SinglyKeyed) (hl : l.Sound) :
    l.settled.Announced (l.dueUpdates.foldl PowerUpdate.applyTo keys) where
  joined hv := hl.joined_of_settled hv
  mem_iff {k} := by
    rw [mem_foldl_applyTo hkeyed.nodup_keys_dueUpdates]
    simp only [hl.mem_dueUpdates, hl.get?_validators_settled]
    constructor
    · rintro (⟨u, ⟨operator, v, state, hv, hstate, hu⟩, hkey, hpower⟩ | ⟨hk, hkept⟩)
      · -- only those who are joining are added
        cases state with
        | joining =>
          cases hu
          exact ⟨operator, v, by simpa [hstate] using hv, hkey⟩
        | joined => cases hu
        | leaving =>
          cases hu
          cases hpower
      · obtain ⟨operator, v, state, hv, hkey, hstate, hne⟩ := h.seated_of_mem hk
        have hstaying : state ≠ .leaving := by
          rintro rfl
          exact hkept v.revoke ⟨operator, v, .leaving, hv, hstate, rfl⟩ hkey rfl
        exact ⟨operator, v, by simpa [hstate, hstaying] using hv, hkey⟩
    · rintro ⟨operator, v, hv, hkey⟩
      split at hv
      · cases hv
      rename_i hstaying
      obtain ⟨state, hstate⟩ := Option.isSome_iff_exists.mp (hl.state_isSome hv)
      cases state with
      | joining => exact .inl ⟨v.grant, ⟨operator, v, .joining, hv, hstate, rfl⟩, hkey, rfl⟩
      | leaving => exact absurd hstate hstaying
      | joined =>
        refine .inr ⟨hkey ▸ h.mem_of_joined hv hstate, fun u hu hukey => ?_⟩
        exact hkeyed.power_ne_zero_of_staying hl hv hstaying (hl.mem_dueUpdates.mpr hu)
          (hukey.trans hkey.symm)

theorem Tracks.settled (h : l.Tracks keys) (hd : l.Distinct) (hl : l.Sound) :
    l.settled.Announced (l.dueUpdates.foldl PowerUpdate.applyTo keys) :=
  h.announced_settled hd.singlyKeyed hl

/-! ## Founding -/

theorem Announced.seat (h : l.Announced keys) (hnew : l.validators.get? v.operator = none) :
    (l.seat v .joined).Announced (insert v.key keys) where
  joined {operator w} hw := by
    by_cases hop : operator = v.operator
    · simp [hop]
    · simpa [hop] using h.joined (by simpa [hop] using hw)
  mem_iff {k} := by
    rw [Finset.mem_insert, h.mem_iff]
    constructor
    · rintro (rfl | ⟨operator, w, hw, hkey⟩)
      · exact ⟨v.operator, v, by simp, rfl⟩
      · have hop : operator ≠ v.operator := by
          rintro rfl
          rw [hnew] at hw
          cases hw
        exact ⟨operator, w, by simpa [hop] using hw, hkey⟩
    · rintro ⟨operator, w, hw, hkey⟩
      by_cases hop : operator = v.operator
      · rw [hop, validators_seat, Table.get?_insert, if_pos rfl] at hw
        cases hw
        exact .inl hkey.symm
      · exact .inr ⟨operator, w, by simpa [hop] using hw, hkey⟩

/-- The updates of founding tell the consensus layer the whole registry. -/
theorem Announced.establish {g : Genesis} (hcheck : g.check = .ok ())
    (hkeys : KeysTellApart (g.validators.map (·.key))) :
    (({} : Ledger).establish g).2.Announced
      (consensusKeys (g.validators.map Validator.grant)) := by
  refine establish_induction
    (P := fun vs l => l.Announced (consensusKeys (vs.map Validator.grant))) hcheck hkeys ?_ ?_
  · constructor
    · exact fun hv => by cases hv
    · simp [consensusKeys, setParams]
  · rintro seated l v - h hnew
    rw [List.map_append, consensusKeys_append]
    exact h.seat hnew.1

end Ledger

/-! ## Services -/

namespace Service

variable {s s₀ : Service Contents} {l : Ledger} {keys : Finset ConsensusKey}

/-- The keys are exactly those of the registry, and everybody has joined. -/
def Announced (s : Service Contents) (keys : Finset ConsensusKey) : Prop :=
  ∃ vs, s.view Registry.validators = .ok vs ∧ keys = (vs.map (·.key)).toFinset ∧
    ∀ v ∈ vs, s.lifecycle? v.operator = .ok (some .joined)

/-- The keys include those of everybody who has joined, and each of them is the key of a seated
validator that has joined or is leaving. -/
def Tracked (s : Service Contents) (keys : Finset ConsensusKey) : Prop :=
  ∃ vs, s.view Registry.validators = .ok vs ∧
    (∀ v ∈ vs, s.lifecycle? v.operator = .ok (some .joined) → v.key ∈ keys) ∧
    ∀ k ∈ keys, ∃ v ∈ vs, v.key = k ∧ (s.lifecycle? v.operator = .ok (some .joined) ∨
      s.lifecycle? v.operator = .ok (some .leaving))

/-- The updates that were returned by the turns of a run. -/
def told (s : Service Contents) (acts : List Act) : List PowerUpdate :=
  (s.turns acts).flatMap Turn.updates

theorem Holds.announced (h : s.Holds l) (ha : l.Announced keys) : s.Announced keys := by
  refine ⟨_, h.validators_eq, ?_, fun v hv => ?_⟩
  · ext k
    simp only [ha.mem_iff, List.mem_toFinset, List.mem_map, Table.mem_values]
    constructor
    · rintro ⟨operator, v, hv, hkey⟩
      exact ⟨v, ⟨operator, hv⟩, hkey⟩
    · rintro ⟨v, ⟨operator, hv⟩, hkey⟩
      exact ⟨operator, v, hv, hkey⟩
  · rw [h.lifecycle_eq, ha.joined (h.sound.mem_values.mp hv)]

theorem Holds.tracked (h : s.Holds l) (ht : l.Tracks keys) : s.Tracked keys := by
  refine ⟨_, h.validators_eq, fun v hv hstate => ?_, fun k hk => ?_⟩
  · rw [h.lifecycle_eq] at hstate
    exact ht.mem_of_joined (h.sound.mem_values.mp hv) (Except.ok.inj hstate)
  · obtain ⟨operator, v, state, hv, hkey, hstate, hne⟩ := ht.seated_of_mem hk
    obtain rfl := h.sound.validator_keyed hv
    refine ⟨v, h.sound.mem_values.mpr hv, hkey, ?_⟩
    rw [h.lifecycle_eq, hstate]
    cases state with
    | joining => exact absurd rfl hne
    | joined => exact .inl rfl
    | leaving => exact .inr rfl

/-- An act keeps the consensus layer on track, which is told of it. -/
theorem Holds.tracks_act (h : s.Holds l) (ho : l.Orderly) (ht : l.Tracks keys) (a : Act) :
    (l.act a).2.Tracks ((turn Service.act s a).updates.foldl PowerUpdate.applyTo keys) := by
  have hupdates : (turn Service.act s a).updates = Reply.owed (l.act a).1 :=
    congrArg Reply.owed (h.act_eq a).1
  rw [hupdates]
  rcases h.sound.act_cases a with ⟨_, heq⟩ | ⟨c, events, l', -, hstep, heq⟩ | ⟨params, -, -, heq⟩ |
    ⟨-, heq⟩
  · rwa [heq]
  · rw [heq]
    exact ht.step ho.distinct h.sound hstep
  · rw [heq]
    exact ht.congr rfl rfl
  · rw [heq]
    exact (ht.settled ho.distinct h.sound).tracks

/-- **The consensus layer follows the registry.** In a run that keeps balloting and whose keys are
told apart, its keys are those of the registry right after founding and after every epoch boundary,
which always succeeds and names no address twice; in between they are on track. -/
theorem consensus_follows_registry {g : Genesis} {updates : List PowerUpdate} {acts : List Act}
    (hempty : s.store = .empty) (hstart : s.initialise g = .ok (updates, s₀))
    (hkeys : KeysTellApart (usedKeys g acts)) (hballoting : s₀.KeepsBalloting acts) :
    s₀.Announced (consensusKeys updates) ∧
    (∀ past, past <+: acts →
      (s₀.finish past).Tracked (consensusKeys (updates ++ s₀.told past))) ∧
    ∀ past, past <+: acts → ∃ due, ((s₀.finish past).endEpoch).1 = .ok due ∧
      (due.map (·.address)).Nodup ∧
      ((s₀.finish past).endEpoch).2.Announced (consensusKeys (updates ++ s₀.told past ++ due)) := by
  obtain ⟨hcheck, rfl, -⟩ := (initialise_eq_ok_iff hempty).mp hstart
  have hgenesis := hkeys.mono (List.subset_append_left _ _)
  have hfounded := holds_initialise hempty hstart
  have hannounced := Ledger.Announced.establish hcheck hgenesis
  have hinvariant : ∀ past, past <+: acts → ∃ l, (s₀.finish past).Holds l ∧ l.Orderly ∧
      l.Tracks (consensusKeys (g.validators.map Validator.grant ++ s₀.told past)) := by
    intro past hpast
    refine turns_induction
      (I := fun turns s => ∃ l, s.Holds l ∧ l.Orderly ∧ l.Tracks
        (consensusKeys (g.validators.map Validator.grant ++ turns.flatMap Turn.updates)))
      ?_ ?_ (hballoting.past hpast)
    · rintro turns s a ⟨l, h, ho, ht⟩ hguard
      refine ⟨_, h.act a, h.orderly_act ho hguard, ?_⟩
      rw [List.flatMap_append, ← List.append_assoc, consensusKeys_append]
      simpa using h.tracks_act ho ht a
    · refine ⟨_, hfounded, (Ledger.Orderly.establish hcheck hgenesis).1, ?_⟩
      simpa using hannounced.tracks
  refine ⟨hfounded.announced hannounced, fun past hpast => ?_, fun past hpast => ?_⟩
  · obtain ⟨l, h, -, ht⟩ := hinvariant past hpast
    exact h.tracked ht
  · obtain ⟨l, h, ho, ht⟩ := hinvariant past hpast
    refine ⟨l.dueUpdates, h.endEpoch_eq.1, ho.distinct.nodup_addresses_dueUpdates, ?_⟩
    rw [consensusKeys_append]
    exact h.endEpoch_eq.2.announced (ht.settled ho.distinct h.sound)

/-- A candidate is admitted, joins, is expelled and may apply again. -/
def comeAndGo : List Act :=
  [.handle (.submitApplication (.uniform 2 2)),
   .handle (.voteApplication (Validator.uniform 1 1).operator (Validator.uniform 2 2).operator
     true),
   .endEpoch,
   .handle (.proposeKick (Validator.uniform 2 2).operator (Validator.uniform 1 1).operator),
   .handle (.voteKickProposal (Validator.uniform 1 1).operator (Validator.uniform 2 2).operator
     true),
   .endEpoch,
   .handle (.submitApplication (.uniform 2 2))]

theorem consensus_follows_comeAndGo : ∃ due,
    (((founded .lone).finish comeAndGo).endEpoch).1 = .ok due ∧ (due.map (·.address)).Nodup ∧
      (((founded .lone).finish comeAndGo).endEpoch).2.Announced (consensusKeys
        (Genesis.lone.validators.map Validator.grant ++ (founded .lone).told comeAndGo ++ due)) :=
  (consensus_follows_registry rfl (initialise_founded (by decide))
    (show KeysTellApart (usedKeys .lone comeAndGo) by decide +kernel)
    (keepsBalloting_of_quorum_ne_zero (by simp [comeAndGo]))).2.2 comeAndGo List.prefix_rfl

end Service

end AuthoritySet
