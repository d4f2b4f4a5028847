import AuthoritySet.Proofs.Genesis
import AuthoritySet.Proofs.Ledger.Epoch
import AuthoritySet.Proofs.Plan
import AuthoritySet.Proofs.StoredRegistry
import Mathlib.Data.List.Find

/-!
# Epoch boundaries on any store

What a boundary does to a store that no run needs to have led to. All that is asked is that the
records of the registry stand under the keys of their operators, and that the states of these
operators can be read (`Contents.Settleable`).

* `Contents.run_settleAll`: settling some validators stops at the first one without a state; if
  there is none, it changes all keys at once (`Contents.settledAmong`).
* `Contents.Settleable.settled`: afterwards everybody has joined, so that the next boundary finds
  nothing to do (`Epoch.run_settle_of_joined`).
* `Service.endEpoch_exact`: what a boundary answers and which keys it changes.
-/

namespace AuthoritySet

open ByteStore Transaction

theorem Lifecycle.byte_of_ofByte? {byte : UInt8} {state : Lifecycle}
    (h : Lifecycle.ofByte? byte = some state) : byte = state.byte := by
  simp only [Lifecycle.ofByte?] at h
  split at h
  · rename_i hbyte; cases h; exact hbyte
  · split at h
    · rename_i hbyte; cases h; exact hbyte
    · split at h
      · rename_i hbyte; cases h; exact hbyte
      · cases h

/-- The key of a validator's state. -/
def Validator.stateKey (v : Validator) : Bytes := Section.lifecycles.key v.operator

/-- The keys of a validator: that of its record, that of its state and that of the index entry of
its address. -/
def Validator.keys (v : Validator) : List Bytes :=
  [Section.validators.key v.operator, v.stateKey, Section.validatorIndex.key v.address]

theorem Validator.stateKey_notMem {v w : Validator} (h : w.operator ≠ v.operator) :
    w.stateKey ∉ v.keys := by
  have hbytes : w.operator.bytes ≠ v.operator.bytes := fun he => h (Identity.ext he)
  simp [keys, stateKey, Section.key, Section.tag, hbytes]

namespace Contents

variable {c : Contents} {v : Validator} {state : Lifecycle} {vs rest : List Validator}

/-! ## States -/

/-- The state of an operator, if one is stored that can be read. -/
def lifecycle? (c : Contents) (operator : OperatorAddress) : Option Lifecycle :=
  (c.get? (Section.lifecycles.key operator)).bind fun
    | [byte] => Lifecycle.ofByte? byte
    | _ => none

theorem lifecycle?_eq_some_iff {operator : OperatorAddress} : c.lifecycle? operator = some state ↔
    c.get? (Section.lifecycles.key operator) = some [state.byte] := by
  rw [lifecycle?, Option.bind_eq_some_iff]
  constructor
  · rintro ⟨bytes, hbytes, hstate⟩
    match bytes with
    | [] => cases hstate
    | [byte] => rw [hbytes, Lifecycle.byte_of_ofByte? hstate]
    | _ :: _ :: _ => cases hstate
  · exact fun hbytes => ⟨_, hbytes, state.ofByte?_byte⟩

/-- What is stored as the state of a validator, if anything, is a state. -/
def Stated (c : Contents) (v : Validator) : Prop :=
  ∀ bytes ∈ c.get? v.stateKey, ∃ state : Lifecycle, bytes = [state.byte]

theorem Stated.get?_eq_none_iff (h : c.Stated v) :
    c.get? v.stateKey = none ↔ c.lifecycle? v.operator = none := by
  constructor
  · intro hnone
    rw [lifecycle?, show c.get? (Section.lifecycles.key v.operator) = none from hnone]
    rfl
  · refine fun hnone => Option.eq_none_iff_forall_not_mem.mpr fun bytes hbytes => ?_
    obtain ⟨state, rfl⟩ := h bytes hbytes
    rw [lifecycle?_eq_some_iff.mpr hbytes] at hnone
    cases hnone

theorem Stated.congr {c' : Contents} (h : c.Stated v)
    (hsame : c'.get? v.stateKey = c.get? v.stateKey) : c'.Stated v := by
  rw [Stated, hsame]
  exact h

theorem run_lifecycle? {σ : Type} [ByteStore σ] [Transparent σ] {store : σ}
    (h : (Transparent.contents store).Stated v) : (Registry.lifecycle? v.operator).run store =
      .ok ((Transparent.contents store).lifecycle? v.operator, store) := by
  rw [Registry.lifecycle?, run_bind_of_ok (Registry.run_lookup store _), lifecycle?]
  cases hbytes : (Transparent.contents store).get? (Section.lifecycles.key v.operator) with
  | none => rfl
  | some bytes =>
    obtain ⟨state, rfl⟩ := h bytes hbytes
    show (expect (Lifecycle.ofByte? state.byte) _ >>= _).run store =
      .ok (Lifecycle.ofByte? state.byte, store)
    rw [Lifecycle.ofByte?_byte]
    rfl

/-! ## One validator -/

/-- The contents after one validator has been settled. -/
def settleIn (c : Contents) (v : Validator) : Lifecycle → Contents
  | .joined => c
  | .joining => c.insert v.stateKey [Lifecycle.joined.byte]
  | .leaving =>
    ((c.erase (Section.validatorIndex.key v.address)).erase
      (Section.validators.key v.operator)).erase v.stateKey

theorem get?_settleIn {key : Bytes} (h : key ∉ v.keys) :
    (c.settleIn v state).get? key = c.get? key := by
  simp only [Validator.keys, List.mem_cons, List.not_mem_nil, or_false, not_or] at h
  obtain ⟨hrecord, hstate, hindex⟩ := h
  cases state <;> simp [settleIn, hrecord, hstate, hindex]

theorem lifecycle?_settleIn {w : Validator} (h : w.operator ≠ v.operator) :
    (c.settleIn v state).lifecycle? w.operator = c.lifecycle? w.operator := by
  rw [lifecycle?, lifecycle?]
  congr 1
  exact get?_settleIn (Validator.stateKey_notMem h)

theorem registry_settleIn {w : Validator} (h : w.operator ≠ v.operator) :
    (c.settleIn v state).registry.get? (Section.validators.key w.operator) =
      c.registry.get? (Section.validators.key w.operator) := by
  have hbytes : w.operator.bytes ≠ v.operator.bytes := fun he => h (Identity.ext he)
  have hkey : Section.validators.key w.operator ∉ v.keys := by
    simp [Validator.keys, Validator.stateKey, Section.key, Section.tag, hbytes]
  rw [registry, registry, Table.get?_filterMap, Table.get?_filterMap, get?_settleIn hkey]

theorem run_settleIn (hv : c.registry.get? (Section.validators.key v.operator) = some v) :
    (Epoch.settleIn v state).run c = .ok ((v.dueUpdate? state).toList, c.settleIn v state) := by
  cases state with
  | joined => rfl
  | joining => rfl
  | leaving =>
    obtain ⟨-, bytes, hbytes, hdecode⟩ := get?_registry.mp hv
    have hseated : (Registry.validator? v.operator).run c = .ok (some v, c) := by
      have hrecord : (Transparent.contents c).get? (Section.validators.key v.operator) =
          some bytes := hbytes
      rw [Registry.validator?, Registry.run_read, hrecord]
      simp only [hdecode]
      rfl
    rw [Epoch.settleIn, run_bind, Registry.unseat, run_bind_of_ok hseated]
    rfl

/-! ## Several validators -/

/-- Those of some validators that are in a state. -/
def inState (c : Contents) (vs : List Validator) (state : Lifecycle) : List Validator :=
  vs.filter fun v => c.lifecycle? v.operator = some state

/-- The update that a boundary owes for a validator. -/
def dueUpdate? (c : Contents) (v : Validator) : Option PowerUpdate :=
  (c.lifecycle? v.operator).bind v.dueUpdate?

theorem dueUpdate?_eq (c : Contents) (v : Validator) : c.dueUpdate? v =
    if c.lifecycle? v.operator = some .joining then some ⟨v.address, v.key, 1⟩
    else if c.lifecycle? v.operator = some .leaving then some ⟨v.address, v.key, 0⟩
    else none := by
  rw [dueUpdate?]
  cases c.lifecycle? v.operator with
  | none => rfl
  | some state => cases state <;> rfl

/-- The contents after some validators have been settled. -/
def settledAmong (c : Contents) (vs : List Validator) : Contents :=
  c.filterMap fun key bytes =>
    if key ∈ (c.inState vs .leaving).flatMap Validator.keys then none
    else if key ∈ (c.inState vs .joining).map Validator.stateKey then some [Lifecycle.joined.byte]
    else some bytes

theorem settledAmong_nil (c : Contents) : c.settledAmong [] = c :=
  Table.ext (by simp [settledAmong, inState, Table.filterMap])

theorem inState_cons (c : Contents) (v : Validator) (rest : List Validator) (state : Lifecycle) :
    c.inState (v :: rest) state =
      if c.lifecycle? v.operator = some state then v :: c.inState rest state
      else c.inState rest state := by
  simp [inState, List.filter_cons]

theorem inState_congr {c' : Contents}
    (h : ∀ v ∈ vs, c'.lifecycle? v.operator = c.lifecycle? v.operator) :
    c'.inState vs state = c.inState vs state :=
  List.filter_congr fun v hv => by rw [h v hv]

/-- Settling one validator first and others afterwards is settling all of them. -/
theorem settledAmong_cons (hstate : c.lifecycle? v.operator = some state)
    (hnew : ∀ w ∈ rest, w.operator ≠ v.operator) :
    (c.settleIn v state).settledAmong rest = c.settledAmong (v :: rest) := by
  have hsame (other : Lifecycle) : (c.settleIn v state).inState rest other = c.inState rest other :=
    inState_congr fun w hw => lifecycle?_settleIn (hnew w hw)
  have hpresent : c.get? v.stateKey = some [state.byte] := lifecycle?_eq_some_iff.mp hstate
  refine Table.ext_get? fun key => ?_
  simp only [settledAmong, Table.get?_filterMap, hsame, inState_cons, hstate]
  cases state with
  | joined => rfl
  | joining =>
    by_cases hkey : key = v.stateKey
    · simp [settleIn, hkey, hpresent]
    · simp [settleIn, hkey]
  | leaving =>
    by_cases hkey : key ∈ v.keys
    · have hgone : (c.settleIn v .leaving).get? key = none := by
        simp only [Validator.keys, List.mem_cons, List.not_mem_nil, or_false] at hkey
        rcases hkey with rfl | rfl | rfl <;> simp [settleIn]
      simp [hgone, hkey]
    · rw [get?_settleIn hkey]
      simp [hkey]

/-- Settling validators of the registry stops at the first one without a state. If all have one,
it answers the updates that are due and settles all. -/
theorem run_settleAll (hnodup : (vs.map (·.operator)).Nodup)
    (hseated : ∀ v ∈ vs, c.registry.get? (Section.validators.key v.operator) = some v)
    (hstated : ∀ v ∈ vs, c.Stated v) :
    (Epoch.settleAll (vs.map .ok)).run c =
      match vs.find? fun v => (c.lifecycle? v.operator).isNone with
      | some v => .error (.invariantViolation v.operator .entryWithoutState)
      | none => .ok (vs.filterMap c.dueUpdate?, c.settledAmong vs) := by
  induction vs generalizing c with
  | nil => simp [Epoch.settleAll, settledAmong_nil, run_pure]
  | cons v rest ih =>
    rw [List.map_cons, List.nodup_cons] at hnodup
    rw [List.forall_mem_cons] at hseated hstated
    have hnew : ∀ w ∈ rest, w.operator ≠ v.operator := fun w hw he =>
      hnodup.1 (List.mem_map.mpr ⟨w, hw, he⟩)
    have hfirst : (Transparent.contents c).Stated v := hstated.1
    have hstate : (Registry.lifecycle? v.operator).run c = .ok (c.lifecycle? v.operator, c) :=
      run_lifecycle? hfirst
    rw [List.map_cons, Epoch.settleAll, run_ofExcept]
    simp only []
    rw [run_bind_of_ok hstate, run_expect, List.find?_cons]
    cases hv : c.lifecycle? v.operator with
    | none => rfl
    | some state =>
      simp only [Option.isNone_some]
      -- settling the first one changes nothing that settling the others looks at
      have hsame : ∀ w ∈ rest, (c.settleIn v state).lifecycle? w.operator =
          c.lifecycle? w.operator := fun w hw => lifecycle?_settleIn (hnew w hw)
      have hfind : (rest.find? fun w => ((c.settleIn v state).lifecycle? w.operator).isNone) =
          rest.find? fun w => (c.lifecycle? w.operator).isNone :=
        List.find?_congr fun w hw => by rw [hsame w hw]
      have hdue : rest.filterMap (c.settleIn v state).dueUpdate? = rest.filterMap c.dueUpdate? :=
        List.filterMap_congr fun w hw => by rw [dueUpdate?, hsame w hw, dueUpdate?]
      have hlater := ih (c := c.settleIn v state) hnodup.2
        (fun w hw => (registry_settleIn (hnew w hw)).trans (hseated.2 w hw))
        fun w hw => (hstated.2 w hw).congr (get?_settleIn (Validator.stateKey_notMem (hnew w hw)))
      rw [hfind, hdue, settledAmong_cons hv hnew] at hlater
      rw [run_bind_of_ok (run_settleIn hseated.1), run_bind, hlater]
      have hfirst : (v :: rest).filterMap c.dueUpdate? =
          (v.dueUpdate? state).toList ++ rest.filterMap c.dueUpdate? := by
        rw [List.filterMap_cons, dueUpdate?, hv]
        cases state <;> rfl
      rw [hfirst]
      cases rest.find? fun w => (c.lifecycle? w.operator).isNone <;> rfl

/-! ## The whole registry -/

/-- The stores that a boundary is exact on: each key of the registry is that of an operator and
holds a record of it, and what is stored as the state of such an operator, if anything, is one. -/
structure Settleable (c : Contents) : Prop where
  keyed : c.Keyed
  stated : ∀ v ∈ c.seated, c.Stated v

/-- The contents after a boundary. -/
def settled (c : Contents) : Contents := c.settledAmong c.seated

/-- What a boundary changes, and that it changes nothing else. -/
structure SettlesTo (before after : Contents) : Prop where
  joined : ∀ v ∈ before.seated, before.lifecycle? v.operator = some .joining →
    after.get? v.stateKey = some [Lifecycle.joined.byte]
  gone : ∀ v ∈ before.seated, before.lifecycle? v.operator = some .leaving →
    ∀ key ∈ v.keys, after.get? key = none
  kept : ∀ key,
    (∀ v ∈ before.seated, before.lifecycle? v.operator = some .joining → key ≠ v.stateKey) →
    (∀ v ∈ before.seated, before.lifecycle? v.operator = some .leaving → key ∉ v.keys) →
    after.get? key = before.get? key

theorem mem_inState : v ∈ c.inState vs state ↔ v ∈ vs ∧ c.lifecycle? v.operator = some state := by
  simp [inState]

/-- The key of a state is not among the keys of those that are leaving, unless its operator is. -/
theorem stateKey_notMem_leaving (h : c.lifecycle? v.operator ≠ some .leaving) :
    v.stateKey ∉ (c.inState vs .leaving).flatMap Validator.keys := by
  intro hmem
  obtain ⟨w, hw, hkey⟩ := List.mem_flatMap.mp hmem
  have hleaving := (mem_inState.mp hw).2
  by_cases he : v.operator = w.operator
  · exact h (he ▸ hleaving)
  · exact Validator.stateKey_notMem he hkey

theorem settlesTo_settled (c : Contents) : c.SettlesTo c.settled where
  joined v hv hstate := by
    have hpresent : c.get? v.stateKey = some [Lifecycle.joining.byte] :=
      lifecycle?_eq_some_iff.mp hstate
    have hstaying : v.stateKey ∉ (c.inState c.seated .leaving).flatMap Validator.keys :=
      stateKey_notMem_leaving (by rw [hstate]; decide)
    have hjoining : v.stateKey ∈ (c.inState c.seated .joining).map Validator.stateKey :=
      List.mem_map.mpr ⟨v, mem_inState.mpr ⟨hv, hstate⟩, rfl⟩
    rw [settled, settledAmong, Table.get?_filterMap, hpresent, Option.bind_some,
      if_neg hstaying, if_pos hjoining]
  gone v hv hstate key hkey := by
    have hleaving : key ∈ (c.inState c.seated .leaving).flatMap Validator.keys :=
      List.mem_flatMap.mpr ⟨v, mem_inState.mpr ⟨hv, hstate⟩, hkey⟩
    rw [settled, settledAmong, Table.get?_filterMap]
    simp [hleaving]
  kept key hjoining hleaving := by
    have hstaying : key ∉ (c.inState c.seated .leaving).flatMap Validator.keys := by
      intro hmem
      obtain ⟨v, hv, hkey⟩ := List.mem_flatMap.mp hmem
      exact hleaving v (mem_inState.mp hv).1 (mem_inState.mp hv).2 hkey
    have hsame : key ∉ (c.inState c.seated .joining).map Validator.stateKey := by
      intro hmem
      obtain ⟨v, hv, rfl⟩ := List.mem_map.mp hmem
      exact hjoining v (mem_inState.mp hv).1 (mem_inState.mp hv).2 rfl
    rw [settled, settledAmong, Table.get?_filterMap]
    simp [hstaying, hsame]

/-- The records after a boundary were there before it. -/
theorem get?_of_settled {key bytes : Bytes}
    (hstart : Section.validators.beginning.isPrefixOf key = true)
    (h : c.settled.get? key = some bytes) : c.get? key = some bytes ∧
      key ∉ (c.inState c.seated .leaving).flatMap Validator.keys := by
  have hrecord : key ∉ (c.inState c.seated .joining).map Validator.stateKey := by
    intro hmem
    obtain ⟨v, -, rfl⟩ := List.mem_map.mp hmem
    exact absurd hstart (by simp [Validator.stateKey, Section.key, Section.beginning, Section.tag])
  rw [settled, settledAmong, Table.get?_filterMap, Option.bind_eq_some_iff] at h
  obtain ⟨before, hbefore, hkept⟩ := h
  by_cases hleaving : key ∈ (c.inState c.seated .leaving).flatMap Validator.keys
  · rw [if_pos hleaving] at hkept
    cases hkept
  · rw [if_neg hleaving, if_neg hrecord] at hkept
    cases hkept
    exact ⟨hbefore, hleaving⟩

namespace Settleable

theorem keyed_settled (h : c.Settleable) : c.settled.Keyed := by
  intro e he
  rw [Table.startingWith_eq_filter, List.mem_filter, ← Prod.eta e, Table.mem_entries_iff] at he
  have hbefore := (get?_of_settled he.2 he.1).1
  refine h.keyed e ?_
  rw [Table.startingWith_eq_filter, List.mem_filter, ← Prod.eta e, Table.mem_entries_iff]
  exact ⟨hbefore, he.2⟩

/-- Who is in the registry after a boundary was so before it and is not leaving. -/
theorem seated_of_settled (h : c.Settleable) (hv : v ∈ c.settled.seated) :
    v ∈ c.seated ∧ c.lifecycle? v.operator ≠ some .leaving := by
  obtain ⟨hstart, bytes, hbytes, hdecode⟩ := get?_registry.mp (h.keyed_settled.mem_seated.mp hv)
  obtain ⟨hbefore, hstaying⟩ := get?_of_settled hstart hbytes
  have hseated := h.keyed.mem_seated.mpr (get?_registry.mpr ⟨hstart, bytes, hbefore, hdecode⟩)
  refine ⟨hseated, fun hleaving => hstaying ?_⟩
  exact List.mem_flatMap.mpr ⟨v, mem_inState.mpr ⟨hseated, hleaving⟩, List.mem_cons_self⟩

/-- Who is in the registry after a boundary has joined. -/
theorem joined_of_settled (h : c.Settleable)
    (hall : ∀ v ∈ c.seated, (c.lifecycle? v.operator).isSome) (hv : v ∈ c.settled.seated) :
    c.settled.lifecycle? v.operator = some .joined := by
  obtain ⟨hseated, hstaying⟩ := h.seated_of_settled hv
  obtain ⟨state, hstate⟩ := Option.isSome_iff_exists.mp (hall v hseated)
  rw [lifecycle?_eq_some_iff]
  cases state with
  | joining => exact c.settlesTo_settled.joined v hseated hstate
  | leaving => exact absurd hstate hstaying
  | joined =>
    have hpresent : c.get? v.stateKey = some [Lifecycle.joined.byte] :=
      lifecycle?_eq_some_iff.mp hstate
    show c.settled.get? v.stateKey = _
    rw [settled, settledAmong, Table.get?_filterMap, hpresent, Option.bind_some,
      if_neg (stateKey_notMem_leaving hstaying)]
    split <;> rfl

end Settleable

/-- A boundary fails at the first operator without a state, or settles the registry. -/
theorem Settleable.run_settle (h : c.Settleable) : Epoch.settle.run c =
    match c.seated.find? fun v => (c.get? v.stateKey).isNone with
    | some v => .error (.invariantViolation v.operator .entryWithoutState)
    | none => .ok (c.seated.filterMap c.dueUpdate?, c.settled) := by
  have hreadable : (Transparent.contents c).Readable := h.keyed.readable
  have hentries : Registry.entries.run c = .ok (c.seated.map .ok, c) :=
    Registry.run_entries hreadable
  have hfind : (c.seated.find? fun v => (c.get? v.stateKey).isNone) =
      c.seated.find? fun v => (c.lifecycle? v.operator).isNone :=
    List.find?_congr fun v hv => by
      rw [Bool.eq_iff_iff, Option.isNone_iff_eq_none, Option.isNone_iff_eq_none,
        (h.stated v hv).get?_eq_none_iff]
  rw [Epoch.settle, run_bind_of_ok hentries, hfind]
  exact run_settleAll h.keyed.nodup_operators (fun v hv => h.keyed.mem_seated.mp hv) h.stated

end Contents

namespace Epoch

variable {σ : Type} [ByteStore σ] [Transparent σ] {store : σ}

theorem run_settleAll_of_joined {vs : List Validator}
    (h : ∀ v ∈ vs, (Transparent.contents store).lifecycle? v.operator = some .joined) :
    (settleAll (vs.map .ok)).run store = .ok ([], store) := by
  induction vs with
  | nil => rfl
  | cons v rest ih =>
    rw [List.forall_mem_cons] at h
    have hstated : (Transparent.contents store).Stated v := fun bytes hbytes =>
      ⟨.joined, Option.some.inj (hbytes.symm.trans (Contents.lifecycle?_eq_some_iff.mp h.1))⟩
    rw [List.map_cons, settleAll, run_ofExcept]
    simp only []
    rw [run_bind_of_ok (Contents.run_lifecycle? hstated), h.1, run_expect]
    exact (run_bind_of_ok rfl).trans ((run_bind_of_ok (ih h.2)).trans rfl)

/-- Where everybody has joined, settling changes nothing. -/
theorem run_settle_of_joined (hkeyed : (Transparent.contents store).Keyed)
    (hjoined : ∀ v ∈ (Transparent.contents store).seated,
      (Transparent.contents store).lifecycle? v.operator = some .joined) :
    settle.run store = .ok ([], store) := by
  rw [settle, run_bind_of_ok (Registry.run_entries hkeyed.readable)]
  exact run_settleAll_of_joined hjoined

end Epoch

namespace Service

variable {σ : Type} [ByteStore σ] [Transparent σ] {s : Service σ}

/-- A boundary that fails writes nothing. -/
theorem endEpoch_of_error {failure : Failure}
    (h : Epoch.settle.run (Transparent.contents s.store) = .error failure) :
    s.endEpoch.1 = .error failure ∧ s.endEpoch.2.store = s.store := by
  have hcommit := commit_transparent s Epoch.settle
  rw [h] at hcommit
  cases hresult : s.commit Epoch.settle with
  | error failure' => rw [hresult] at hcommit; cases hcommit; exact endEpoch_of_commit_error hresult
  | ok r => rw [hresult] at hcommit; cases hcommit

/-- A boundary that succeeds leaves the contents that settling leaves. -/
theorem endEpoch_of_ok {updates : List PowerUpdate} {after : Contents}
    (h : Epoch.settle.run (Transparent.contents s.store) = .ok (updates, after)) :
    s.endEpoch.1 = .ok updates ∧ Transparent.contents s.endEpoch.2.store = after := by
  have hcommit := commit_transparent s Epoch.settle
  rw [h] at hcommit
  cases hresult : s.commit Epoch.settle with
  | error failure => rw [hresult] at hcommit; cases hcommit
  | ok r =>
    rw [hresult] at hcommit
    cases hcommit
    obtain ⟨hreply, hstore⟩ := endEpoch_of_commit hresult
    exact ⟨hreply, congrArg Transparent.contents hstore⟩

omit [Transparent σ] in
theorem endEpoch_of_unchanged {updates : List PowerUpdate}
    (h : Epoch.settle.run (Overlay.above s.store) = .ok (updates, .above s.store)) :
    s.endEpoch.1 = .ok updates ∧ s.endEpoch.2.store = s.store :=
  endEpoch_of_commit (commit_of_unchanged h)

/-- **An epoch boundary is exact on every store** whose registry records stand under their
operators and whose states can be read, whether a run leads to it or not. If an operator has no
state, the smallest one is named by a fatal failure, nothing is written, and trying again fails in
the same way. Otherwise the updates give the joining validators a power of one and the leaving ones
none, in the order of the operators, precisely their keys change, and a second boundary finds nothing
to do and writes nothing. -/
theorem endEpoch_exact (h : (Transparent.contents s.store).Settleable) :
    s.seated.Pairwise (fun v w => v.operator < w.operator) ∧
    ((∃ v ∈ s.seated, (Transparent.contents s.store).get? v.stateKey = none) →
      ∃ v ∈ s.seated, (Transparent.contents s.store).get? v.stateKey = none ∧
        (∀ w ∈ s.seated, (Transparent.contents s.store).get? w.stateKey = none →
          v.operator ≤ w.operator) ∧
        ∃ failure, failure = .invariantViolation v.operator .entryWithoutState ∧
          failure.isFatal = true ∧
          s.endEpoch.1 = .error failure ∧ s.endEpoch.2.store = s.store ∧
          s.endEpoch.2.endEpoch.1 = .error failure ∧ s.endEpoch.2.endEpoch.2.store = s.store) ∧
    ((∀ v ∈ s.seated, (Transparent.contents s.store).get? v.stateKey ≠ none) →
      s.endEpoch.1 = .ok (s.seated.filterMap fun v =>
        if (Transparent.contents s.store).lifecycle? v.operator = some .joining then
          some ⟨v.address, v.key, 1⟩
        else if (Transparent.contents s.store).lifecycle? v.operator = some .leaving then
          some ⟨v.address, v.key, 0⟩
        else none) ∧
      (Transparent.contents s.store).SettlesTo (Transparent.contents s.endEpoch.2.store) ∧
      Epoch.settle.run (Overlay.above s.endEpoch.2.store) =
        .ok ([], Overlay.above s.endEpoch.2.store) ∧
      s.endEpoch.2.endEpoch.1 = .ok [] ∧
      s.endEpoch.2.endEpoch.2.store = s.endEpoch.2.store) := by
  have hrun := h.run_settle
  refine ⟨h.keyed.ascending_seated, fun ⟨w, hw, hnone⟩ => ?_, fun hall => ?_⟩
  · cases hfind : (Transparent.contents s.store).seated.find? fun v =>
        ((Transparent.contents s.store).get? v.stateKey).isNone with
    | none => exact absurd (Option.isNone_iff_eq_none.mpr hnone) (List.find?_eq_none.mp hfind w hw)
    | some v =>
      rw [hfind] at hrun
      have hstateless : (Transparent.contents s.store).get? v.stateKey = none := by
        simpa using List.find?_some hfind
      refine ⟨v, List.mem_of_find?_eq_some hfind, hstateless, fun w hw hnone =>
        h.keyed.le_of_find? hfind hw (Option.isNone_iff_eq_none.mpr hnone), _, rfl, rfl, ?_⟩
      obtain ⟨herror, hstore⟩ := endEpoch_of_error hrun
      obtain ⟨herror', hstore'⟩ := endEpoch_of_error (s := s.endEpoch.2) (hstore ▸ hrun)
      exact ⟨herror, hstore, herror', hstore'.trans hstore⟩
  · have hfind : ((Transparent.contents s.store).seated.find? fun v =>
        ((Transparent.contents s.store).get? v.stateKey).isNone) = none :=
      List.find?_eq_none.mpr fun v hv hnone => hall v hv (Option.isNone_iff_eq_none.mp hnone)
    rw [hfind] at hrun
    obtain ⟨hok, hcontents⟩ := endEpoch_of_ok hrun
    have hstates : ∀ v ∈ s.seated,
        ((Transparent.contents s.store).lifecycle? v.operator).isSome = true := fun v hv => by
      rw [Option.isSome_iff_ne_none, ne_eq, ← (h.stated v hv).get?_eq_none_iff]
      exact hall v hv
    -- the second boundary runs above the contents that the first one leaves
    have hsame : Transparent.contents (Overlay.above s.endEpoch.2.store) =
        (Transparent.contents s.store).settled := hcontents
    have hagain : Epoch.settle.run (Overlay.above s.endEpoch.2.store) =
        .ok ([], Overlay.above s.endEpoch.2.store) :=
      Epoch.run_settle_of_joined (hsame ▸ h.keyed_settled)
        (hsame ▸ fun v hv => h.joined_of_settled hstates hv)
    simp only [← Contents.dueUpdate?_eq]
    exact ⟨hok, hcontents ▸ Contents.settlesTo_settled _, hagain, endEpoch_of_unchanged hagain⟩

/-- The first of three validators is joining, the second one has joined and the third one is
leaving. -/
theorem endEpoch_exact_three :
    let first : Validator := .uniform 1 1
    let second : Validator := .uniform 2 2
    let third : Validator := .uniform 3 3
    let records : Contents := .ofRecords {} [first, second, third]
    let states : List Write :=
      [.put first.stateKey [0], .put second.stateKey [1], .put third.stateKey [2]]
    let s : Service Contents := { store := records.writeAll states }
    (Transparent.contents s.store).Settleable ∧
    s.endEpoch.1 = .ok [⟨first.address, first.key, 1⟩, ⟨third.address, third.key, 0⟩] ∧
    (Transparent.contents s.endEpoch.2.store).get? first.stateKey = some [1] ∧
    (∀ key ∈ third.keys, (Transparent.contents s.endEpoch.2.store).get? key = none) ∧
    s.endEpoch.2.endEpoch.1 = .ok [] := by
  intro first second third records states s
  have hseated : s.seated = [first, second, third] := by decide +kernel
  have hjoining : s.store.lifecycle? first.operator = some .joining := by decide +kernel
  have hjoined : s.store.lifecycle? second.operator = some .joined := by decide +kernel
  have hleaving : s.store.lifecycle? third.operator = some .leaving := by decide +kernel
  have hsettleable : (Transparent.contents s.store).Settleable := by
    refine ⟨by decide +kernel, fun v hv bytes hbytes => ?_⟩
    rw [show (Transparent.contents s.store).seated = _ from hseated] at hv
    simp only [List.mem_cons, List.not_mem_nil, or_false] at hv
    have hget {state : Lifecycle} (hstate : s.store.lifecycle? v.operator = some state) :
        bytes = [state.byte] :=
      Option.some.inj (hbytes.symm.trans (Contents.lifecycle?_eq_some_iff.mp hstate))
    rcases hv with rfl | rfl | rfl
    · exact ⟨_, hget hjoining⟩
    · exact ⟨_, hget hjoined⟩
    · exact ⟨_, hget hleaving⟩
  have hall : ∀ v ∈ s.seated, (Transparent.contents s.store).get? v.stateKey ≠ none := by
    decide +kernel
  obtain ⟨-, -, hsettles⟩ := endEpoch_exact hsettleable
  obtain ⟨hok, hchanges, -, hagain, -⟩ := hsettles hall
  have hmem : first ∈ s.seated ∧ third ∈ s.seated := by simp [hseated]
  have hdue : (s.seated.filterMap fun v =>
      if (Transparent.contents s.store).lifecycle? v.operator = some .joining then
        some (⟨v.address, v.key, 1⟩ : PowerUpdate)
      else if (Transparent.contents s.store).lifecycle? v.operator = some .leaving then
        some ⟨v.address, v.key, 0⟩
      else none) = [⟨first.address, first.key, 1⟩, ⟨third.address, third.key, 0⟩] := by
    have hstates : (Transparent.contents s.store).lifecycle? = s.store.lifecycle? := rfl
    simp [hseated, hstates, hjoining, hjoined, hleaving]
  exact ⟨hsettleable, hok.trans (congrArg _ hdue), hchanges.joined _ hmem.1 hjoining,
    hchanges.gone _ hmem.2 hleaving, hagain⟩

end Service

end AuthoritySet
