import AuthoritySet.Proofs.Overlay
import AuthoritySet.Proofs.Ledger.Registry
import Mathlib.Data.List.Basic

/-!
# The registry of any store

What is said here holds of stores that no run has led to. The registry of some contents are those
of its records that can be read, under their keys.

* `Contents.Readable`: all records can be read. Listing them then answers the registry.
* `Contents.Keyed`: each record can be read and stands under the key of its own operator. The
  operators then ascend.
-/

namespace AuthoritySet

open ByteStore Transaction

namespace Contents

variable {c : Contents}

/-- The records of the registry that can be read, under their keys. -/
def registry (c : Contents) : Table Bytes Validator :=
  c.filterMap fun key bytes =>
    if Section.validators.beginning.isPrefixOf key then (Record.decode bytes).toOption else none

/-- The validators of the registry in the order of their keys. -/
def seated (c : Contents) : List Validator := c.registry.values

/-- The stores whose registry records can all be read. -/
def Readable (c : Contents) : Prop :=
  ∀ e ∈ c.startingWith Section.validators.beginning,
    (Record.decode e.2 : Except Failure Validator).isOk = true

instance (c : Contents) : Decidable c.Readable :=
  inferInstanceAs (Decidable (∀ e ∈ c.startingWith _, _))

theorem get?_registry {key : Bytes} {v : Validator} :
    c.registry.get? key = some v ↔ Section.validators.beginning.isPrefixOf key = true ∧
      ∃ bytes, c.get? key = some bytes ∧ Record.decode bytes = .ok v := by
  rw [registry, Table.get?_filterMap, Option.bind_eq_some_iff]
  by_cases hstart : Section.validators.beginning.isPrefixOf key = true
  · simp only [hstart, if_true, true_and]
    refine exists_congr fun bytes => and_congr_right fun _ => ?_
    cases (Record.decode bytes : Except Failure Validator) <;> simp [Except.toOption]
  · simp [hstart]

/-- What is listed of the registry are its validators, one by one. -/
theorem Readable.startingWith_eq (h : c.Readable) :
    (c.startingWith Section.validators.beginning).map (fun e => Record.decode e.2) =
      c.seated.map (.ok : Validator → Except Failure Validator) := by
  have hentries : c.registry.entries = (c.startingWith Section.validators.beginning).filterMap
      fun e => (Record.decode e.2).toOption.map (e.1, ·) := by
    rw [Table.startingWith_eq_filter, List.filterMap_filter]
    refine List.filterMap_congr fun e _ => ?_
    by_cases hstart : Section.validators.beginning.isPrefixOf e.1 = true <;> simp [hstart]
  rw [seated, Table.values, hentries]
  clear hentries
  unfold Readable at h
  generalize c.startingWith Section.validators.beginning = pairs at h
  induction pairs with
  | nil => rfl
  | cons e rest ih =>
    rw [List.forall_mem_cons] at h
    obtain ⟨hfirst, hrest⟩ := h
    cases hdecode : (Record.decode e.2 : Except Failure Validator) with
    | error failure => rw [hdecode] at hfirst; cases hfirst
    | ok v => simp [hdecode, Except.toOption, ih hrest]

/-! ## Records under the keys of their operators -/

/-- The stores in which each key of the registry is that of an operator and holds a record of this
operator that can be read. -/
def Keyed (c : Contents) : Prop :=
  ∀ e ∈ c.startingWith Section.validators.beginning,
    (Record.decode e.2).map (fun v : Validator => Section.validators.key v.operator) = .ok e.1

instance (c : Contents) : Decidable c.Keyed :=
  inferInstanceAs (Decidable (∀ e ∈ c.startingWith _, _))

namespace Keyed

theorem readable (h : c.Keyed) : c.Readable := by
  intro e he
  have hkey := h e he
  cases hdecode : (Record.decode e.2 : Except Failure Validator) with
  | error failure => rw [hdecode] at hkey; cases hkey
  | ok v => rfl

theorem key_eq (h : c.Keyed) {key : Bytes} {v : Validator} (hv : c.registry.get? key = some v) :
    key = Section.validators.key v.operator := by
  obtain ⟨hstart, bytes, hbytes, hdecode⟩ := get?_registry.mp hv
  have hmem : (key, bytes) ∈ c.startingWith Section.validators.beginning := by
    rw [Table.startingWith_eq_filter, List.mem_filter]
    exact ⟨Table.mem_entries_iff.mpr hbytes, hstart⟩
  have hkey := h _ hmem
  rw [hdecode] at hkey
  exact (Except.ok.inj hkey).symm

theorem mem_seated (h : c.Keyed) {v : Validator} :
    v ∈ c.seated ↔ c.registry.get? (Section.validators.key v.operator) = some v := by
  rw [seated, Table.mem_values]
  constructor
  · rintro ⟨key, hv⟩
    rwa [h.key_eq hv] at hv
  · exact fun hv => ⟨_, hv⟩

/-- The validators stand in strictly ascending order of their operators. -/
theorem ascending_seated (h : c.Keyed) : c.seated.Pairwise fun v w => v.operator < w.operator := by
  rw [seated, Table.values, List.pairwise_map]
  refine c.registry.ascending.imp_of_mem fun {a b} ha hb hlt => ?_
  rw [h.key_eq (Table.mem_entries_iff.mp ha), h.key_eq (Table.mem_entries_iff.mp hb)] at hlt
  rcases List.cons_lt_cons_iff.mp hlt with hbyte | ⟨-, hbytes⟩
  · exact absurd hbyte Std.lt_irrefl
  · exact hbytes

theorem nodup_operators (h : c.Keyed) : (c.seated.map (·.operator)).Nodup :=
  List.pairwise_map.mpr <| h.ascending_seated.imp fun {v w} hlt (he : v.operator = w.operator) =>
    Std.lt_irrefl (he ▸ hlt)

/-- The first validator that something holds of has the smallest operator of them. -/
theorem le_of_find? (h : c.Keyed) {p : Validator → Bool} {v w : Validator}
    (hv : c.seated.find? p = some v) (hw : w ∈ c.seated) (hp : p w = true) :
    v.operator ≤ w.operator := by
  obtain ⟨-, before, later, hsplit, hbefore⟩ := List.find?_eq_some_iff_append.mp hv
  have hascending := h.ascending_seated
  rw [hsplit, List.pairwise_append, List.pairwise_cons] at hascending
  rw [hsplit, List.mem_append, List.mem_cons] at hw
  rcases hw with hw | rfl | hw
  · exact absurd hp (by simpa using hbefore w hw)
  · exact Std.le_refl _
  · exact Std.le_of_lt (hascending.2.1.1 w hw)

end Keyed

/-- Parameters and the records of some validators, and nothing else. -/
def ofRecords (params : Params) (vs : List Validator) : Contents :=
  .ofList ((Section.params.beginning, Record.encode params) ::
    vs.map fun v => (Section.validators.key v.operator, Record.encode v))

end Contents

/-! ## Reading it -/

namespace Registry

variable {σ : Type} [ByteStore σ] [Transparent σ] {store : σ}

theorem run_lookup (store : σ) (key : Bytes) :
    (lookup key).run store = .ok ((Transparent.contents store).get? key, store) := by
  rw [lookup, run, Transparent.get_eq]
  rfl

/-- Reading a record answers what its bytes say and changes nothing. -/
theorem run_read {α : Type} [Record α] (store : σ) (key : Bytes) :
    (read key : Transaction (Option α)).run store =
      match (Transparent.contents store).get? key with
      | none => .ok (none, store)
      | some bytes => (Record.decode bytes).map fun value => (some value, store) := by
  rw [read, run_bind_of_ok (run_lookup store key)]
  cases (Transparent.contents store).get? key with
  | none => rfl
  | some bytes =>
    show (Transaction.ofExcept (Record.decode bytes) >>= _).run store =
      (Record.decode bytes).map _
    rw [run_ofExcept]
    cases (Record.decode bytes : Except Failure α) <;> rfl

/-- Reading the parameters changes nothing. -/
theorem run_params {p : Params} (h : (params.run store).map Prod.fst = .ok p) :
    params.run store = .ok (p, store) := by
  rw [params, run_bind, run_read] at h ⊢
  cases hbytes : (Transparent.contents store).get? Section.params.beginning with
  | none =>
    rw [hbytes] at h
    cases h
    rfl
  | some bytes =>
    rw [hbytes] at h
    cases hdecode : (Record.decode bytes : Except Failure Params) with
    | error failure =>
      simp only [hdecode, Except.map] at h
      cases h
    | ok stored =>
      simp only [hdecode, Except.map] at h ⊢
      cases h
      rfl

/-- Listing the entries of a registry that can be read answers its validators. -/
theorem run_entries (h : (Transparent.contents store).Readable) :
    Registry.entries.run store =
      .ok ((Transparent.contents store).seated.map .ok, store) := by
  have hlist : (list Section.validators.beginning).run store =
      .ok ((Transparent.contents store).startingWith Section.validators.beginning, store) := by
    rw [list, run, Transparent.scan_eq]
    rfl
  rw [Registry.entries, listRecords, run_bind_of_ok hlist, h.startingWith_eq]
  rfl

end Registry

/-- The validators that the store of a service seats, in the order of their keys. -/
def Service.seated {σ : Type} [ByteStore σ] [Transparent σ] (s : Service σ) : List Validator :=
  (Transparent.contents s.store).seated

end AuthoritySet
