import AuthoritySet.Proofs.Record
import AuthoritySet.Proofs.Table
import AuthoritySet.Registry

/-!
# Ledgers

A `Ledger` is what the bytes of a store mean: the parameters and a table for each other part of
the store. `Ledger.contents` are the bytes that it is stored as.

* `Ledger.get?_contents`: under each key of a part stands what the ledger has there.
* `Ledger.contents_insert`, `Ledger.contents_erase`: a write to the bytes is an update of the
  ledger.
* `Ledger.startingWith_contents`: the keys with the beginning of a part list that part.
-/

namespace AuthoritySet

/-- The typed contents of a store. -/
structure Ledger where
  params : Option Params := none
  validators : Table OperatorAddress Validator := .empty
  validatorIndex : Table ConsensusAddress OperatorAddress := .empty
  lifecycles : Table OperatorAddress Lifecycle := .empty
  applications : Table OperatorAddress Ballot := .empty
  applicationIndex : Table ConsensusAddress OperatorAddress := .empty
  kickProposals : Table OperatorAddress Ballot := .empty
  deriving DecidableEq

namespace Section

/-- The parts of the store in the order of their keys. -/
def all : List Section :=
  [params, validators, validatorIndex, lifecycles, applications, applicationIndex, kickProposals]

theorem mem_all (part : Section) : part ∈ all := by cases part <;> decide

theorem pairwise_all : all.Pairwise fun a b => a.tag < b.tag := by decide

theorem tag_injective {a b : Section} (h : a.tag = b.tag) : a = b := by
  cases a <;> cases b <;> first | rfl | exact absurd h (by decide)

end Section

namespace Ledger

variable {kind : IdentityKind} {β : Type}

/-! ## One part of the store -/

/-- A table as it is stored in a part. -/
def shelve (part : Section) (form : β → Bytes) (t : Table (Identity kind) β) :
    List (Bytes × Bytes) :=
  t.entries.map fun e => (part.key e.1, form e.2)

/-- What is stored for the bytes of an identity. -/
def valueAt (form : β → Bytes) (t : Table (Identity kind) β) (id : Bytes) : Option Bytes :=
  (Identity.ofBytes? id).bind fun i => (t.get? i).map form

theorem ofBytes?_eq_some_iff {id : Bytes} {i : Identity kind} :
    Identity.ofBytes? id = some i ↔ id = i.bytes := by
  unfold Identity.ofBytes?
  constructor
  · intro h
    split at h
    · cases h; rfl
    · cases h
  · rintro rfl
    simp [i.length_eq]

@[simp] theorem ofBytes?_bytes (i : Identity kind) : Identity.ofBytes? i.bytes = some i :=
  ofBytes?_eq_some_iff.mpr rfl

@[simp] theorem valueAt_bytes (form : β → Bytes) (t : Table (Identity kind) β) (i : Identity kind) :
    valueAt form t i.bytes = (t.get? i).map form := by
  simp [valueAt]

theorem valueAt_eq_some_iff {form : β → Bytes} {t : Table (Identity kind) β} {id value : Bytes} :
    valueAt form t id = some value ↔ ∃ i v, id = i.bytes ∧ t.get? i = some v ∧ form v = value := by
  simp only [valueAt, Option.bind_eq_some_iff, Option.map_eq_some_iff, ofBytes?_eq_some_iff,
    exists_and_left]

theorem mem_shelve {part : Section} {form : β → Bytes} {t : Table (Identity kind) β}
    {key value : Bytes} : (key, value) ∈ shelve part form t ↔
      ∃ id, key = part.tag :: id ∧ valueAt form t id = some value := by
  simp only [shelve, List.mem_map, Prod.mk.injEq, valueAt_eq_some_iff]
  constructor
  · rintro ⟨⟨i, v⟩, hmem, rfl, rfl⟩
    exact ⟨i.bytes, rfl, i, v, rfl, Table.mem_entries_iff.mp hmem, rfl⟩
  · rintro ⟨_, rfl, i, v, rfl, hget, rfl⟩
    exact ⟨(i, v), Table.mem_entries_iff.mpr hget, rfl, rfl⟩

theorem pairwise_shelve (part : Section) (form : β → Bytes) (t : Table (Identity kind) β) :
    (shelve part form t).Pairwise fun a b => a.1 < b.1 :=
  List.pairwise_map.mpr <| t.ascending.imp fun h => List.cons_lt_cons_iff.mpr (.inr ⟨rfl, h⟩)

/-- What stands at one identity does not matter for the bytes of others. -/
theorem valueAt_congr {form : β → Bytes} {t t' : Table (Identity kind) β} {i : Identity kind}
    {id : Bytes} (hid : id ≠ i.bytes) (h : ∀ j, j ≠ i → t'.get? j = t.get? j) :
    valueAt form t' id = valueAt form t id := by
  rw [valueAt, valueAt]
  cases hi : (Identity.ofBytes? id : Option (Identity kind)) with
  | none => rfl
  | some j =>
    have hj : j ≠ i := fun he => hid (he ▸ ofBytes?_eq_some_iff.mp hi)
    rw [Option.bind_some, Option.bind_some, h j hj]

theorem valueAt_insert (form : β → Bytes) (t : Table (Identity kind) β) (i : Identity kind) (v : β)
    (id : Bytes) : valueAt form (t.insert i v) id =
      if id = i.bytes then some (form v) else valueAt form t id := by
  by_cases hid : id = i.bytes
  · subst hid; simp
  · rw [if_neg hid]
    exact valueAt_congr hid fun j hj => by simp [hj]

theorem valueAt_erase (form : β → Bytes) (t : Table (Identity kind) β) (i : Identity kind)
    (id : Bytes) : valueAt form (t.erase i) id =
      if id = i.bytes then none else valueAt form t id := by
  by_cases hid : id = i.bytes
  · subst hid; simp
  · rw [if_neg hid]
    exact valueAt_congr hid fun j hj => by simp [hj]

/-! ## All parts together -/

/-- A lifecycle state as it is stored. -/
def lifecycleForm (state : Lifecycle) : Bytes := [state.byte]

/-- The pairs of a part. -/
def part (l : Ledger) : Section → List (Bytes × Bytes)
  | .params => l.params.toList.map fun p => (Section.params.beginning, Record.encode p)
  | .validators => shelve .validators Record.encode l.validators
  | .validatorIndex => shelve .validatorIndex Identity.bytes l.validatorIndex
  | .lifecycles => shelve .lifecycles lifecycleForm l.lifecycles
  | .applications => shelve .applications Record.encode l.applications
  | .applicationIndex => shelve .applicationIndex Identity.bytes l.applicationIndex
  | .kickProposals => shelve .kickProposals Record.encode l.kickProposals

/-- What a ledger has in a part for the rest of a key. -/
def value? (l : Ledger) (part : Section) (id : Bytes) : Option Bytes :=
  match part with
  | .params => if id = [] then l.params.map Record.encode else none
  | .validators => valueAt Record.encode l.validators id
  | .validatorIndex => valueAt Identity.bytes l.validatorIndex id
  | .lifecycles => valueAt lifecycleForm l.lifecycles id
  | .applications => valueAt Record.encode l.applications id
  | .applicationIndex => valueAt Identity.bytes l.applicationIndex id
  | .kickProposals => valueAt Record.encode l.kickProposals id

theorem mem_part {l : Ledger} {s : Section} {key value : Bytes} :
    (key, value) ∈ l.part s ↔ ∃ id, key = s.tag :: id ∧ l.value? s id = some value := by
  cases s with
  | params =>
    simp only [part, value?, Section.beginning, List.mem_map, Option.mem_toList,
      Prod.mk.injEq]
    constructor
    · rintro ⟨p, hp, rfl, rfl⟩
      exact ⟨[], rfl, by simp [hp]⟩
    · rintro ⟨id, rfl, h⟩
      split at h
      · rename_i hid
        obtain ⟨p, hp, rfl⟩ := Option.map_eq_some_iff.mp h
        exact ⟨p, hp, by rw [hid], rfl⟩
      · cases h
  | _ => exact mem_shelve

theorem pairwise_part (l : Ledger) (s : Section) : (l.part s).Pairwise fun a b => a.1 < b.1 := by
  cases s with
  | params => cases h : l.params <;> simp [part, h]
  | _ => exact pairwise_shelve _ _ _

theorem pairwise_parts (l : Ledger) :
    (Section.all.flatMap l.part).Pairwise fun a b => a.1 < b.1 := by
  refine List.pairwise_flatMap.mpr ⟨fun s _ => l.pairwise_part s, ?_⟩
  refine Section.pairwise_all.imp fun {s u} htag a ha b hb => ?_
  obtain ⟨ida, ha, -⟩ := mem_part.mp (show (a.1, a.2) ∈ l.part s from ha)
  obtain ⟨idb, hb, -⟩ := mem_part.mp (show (b.1, b.2) ∈ l.part u from hb)
  rw [ha, hb]
  exact List.cons_lt_cons_iff.mpr (.inl htag)

/-- The bytes that a ledger is stored as. -/
def contents (l : Ledger) : Contents := ⟨Section.all.flatMap l.part, l.pairwise_parts⟩

theorem get?_contents_eq_some_iff {l : Ledger} {key value : Bytes} :
    l.contents.get? key = some value ↔
      ∃ s id, key = s.tag :: id ∧ l.value? s id = some value := by
  rw [← Table.mem_entries_iff, contents, List.mem_flatMap]
  simp only [mem_part, Section.mem_all, true_and]

/-- Under each key of a part stands what the ledger has there. -/
theorem get?_contents (l : Ledger) (s : Section) (id : Bytes) :
    l.contents.get? (s.tag :: id) = l.value? s id := by
  ext value
  rw [get?_contents_eq_some_iff]
  constructor
  · rintro ⟨u, id', hkey, h⟩
    obtain ⟨htag, rfl⟩ := List.cons.inj hkey
    rwa [Section.tag_injective htag]
  · exact fun h => ⟨s, id, rfl, h⟩

/-- A ledger without entries is stored as nothing. -/
theorem contents_empty : ({} : Ledger).contents = .empty := rfl

private theorem contents_eq_of_update {l l' : Ledger} {s : Section} {id : Bytes}
    {value : Option Bytes} {c : Contents}
    (hc : ∀ key, c.get? key = if key = s.tag :: id then value else l.contents.get? key)
    (h : ∀ u id', l'.value? u id' = if u = s ∧ id' = id then value else l.value? u id') :
    c = l'.contents := by
  refine Table.ext_get? fun key => Option.ext fun v => ?_
  rw [hc, get?_contents_eq_some_iff]
  by_cases hkey : key = s.tag :: id
  · rw [if_pos hkey]
    constructor
    · exact fun hv => ⟨s, id, hkey, by rw [h, if_pos ⟨rfl, rfl⟩, hv]⟩
    · rintro ⟨u, id', hkey', hv⟩
      obtain ⟨htag, rfl⟩ := List.cons.inj (hkey'.symm.trans hkey)
      rwa [h, if_pos ⟨Section.tag_injective htag, rfl⟩] at hv
  · rw [if_neg hkey, get?_contents_eq_some_iff]
    have hsame : ∀ u id', key = u.tag :: id' → l'.value? u id' = l.value? u id' := by
      intro u id' hkey'
      rw [h, if_neg]
      rintro ⟨rfl, rfl⟩
      exact hkey hkey'
    constructor
    · rintro ⟨u, id', hkey', hv⟩
      exact ⟨u, id', hkey', by rw [hsame u id' hkey', hv]⟩
    · rintro ⟨u, id', hkey', hv⟩
      exact ⟨u, id', hkey', by rw [← hsame u id' hkey', hv]⟩

/-- Putting a value under a key stores the ledger with that value there. -/
theorem contents_insert {l l' : Ledger} {s : Section} {id value : Bytes}
    (h : ∀ u id', l'.value? u id' = if u = s ∧ id' = id then some value else l.value? u id') :
    l.contents.insert (s.tag :: id) value = l'.contents :=
  contents_eq_of_update (Table.get?_insert _ _ _) h

/-- Erasing a key stores the ledger without a value there. -/
theorem contents_erase {l l' : Ledger} {s : Section} {id : Bytes}
    (h : ∀ u id', l'.value? u id' = if u = s ∧ id' = id then none else l.value? u id') :
    l.contents.erase (s.tag :: id) = l'.contents :=
  contents_eq_of_update (Table.get?_erase _ _) h

/-- The pairs whose keys have the beginning of a part are those of the part. -/
theorem startingWith_contents (l : Ledger) (s : Section) :
    l.contents.startingWith s.beginning = l.part s := by
  have hpart : ∀ u, (l.part u).filter (fun e => s.beginning.isPrefixOf e.1) =
      if u = s then l.part u else [] := by
    intro u
    have hstart : ∀ e ∈ l.part u, s.beginning.isPrefixOf e.1 = decide (u = s) := by
      intro e he
      obtain ⟨id, hkey, -⟩ := mem_part.mp (show (e.1, e.2) ∈ l.part u from he)
      have htag : s.tag = u.tag ↔ u = s :=
        ⟨fun h => (Section.tag_injective h).symm, fun h => h ▸ rfl⟩
      simp [hkey, Section.beginning, List.isPrefixOf, ← htag, Bool.beq_eq_decide_eq]
    split
    · rename_i hu
      exact List.filter_eq_self.mpr fun e he => by rw [hstart e he]; simp [hu]
    · rename_i hu
      exact List.filter_eq_nil_iff.mpr fun e he => by rw [hstart e he]; simp [hu]
  rw [Table.startingWith_eq_filter, contents, List.filter_flatMap]
  simp only [hpart]
  cases s <;> simp [Section.all]

end Ledger

end AuthoritySet
