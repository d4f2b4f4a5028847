import AuthoritySet.Bytes

/-!
# Ordered tables

A `Table` maps keys to values and lists them in ascending key order. The order is part of the
type, so two tables with the same entries are equal.

* `Table.get?_insert`, `Table.get?_erase`: what a write does to each look-up.
* `Table.mem_entries_iff`: a pair is listed exactly if the look-up of its key answers its value.
* `Table.ext_get?`: tables that answer every look-up alike are equal.
* `Table.startingWith_eq_filter`: the entries with one beginning are found as one contiguous run.
-/

namespace AuthoritySet

/-- A finite map whose entries stand in strictly ascending key order. -/
structure Table (κ : Type u) (β : Type v) [LT κ] where
  entries : List (κ × β)
  ascending : entries.Pairwise (fun a b => a.1 < b.1)

namespace Table

section Basic

variable {κ : Type u} {β : Type v} [LT κ]

@[ext] theorem ext {t u : Table κ β} (h : t.entries = u.entries) : t = u := by
  cases t; cases u; cases h; rfl

instance [DecidableEq κ] [DecidableEq β] : DecidableEq (Table κ β) := fun t u =>
  if h : t.entries = u.entries then isTrue (Table.ext h)
  else isFalse fun e => h (e ▸ rfl)

/-- The table without entries. -/
def empty : Table κ β := ⟨[], .nil⟩

instance : Inhabited (Table κ β) := ⟨empty⟩

instance : EmptyCollection (Table κ β) := ⟨empty⟩

/-- The number of entries. -/
def size (t : Table κ β) : Nat := t.entries.length

/-- Whether there are no entries. -/
def isEmpty (t : Table κ β) : Bool := t.entries.isEmpty

/-- The value of the first pair with a key. -/
def lookupEntry [DecidableEq κ] (key : κ) : List (κ × β) → Option β
  | [] => none
  | e :: rest => if key = e.1 then some e.2 else lookupEntry key rest

/-- The value under a key. -/
def get? [DecidableEq κ] (t : Table κ β) (key : κ) : Option β := lookupEntry key t.entries

/-- Whether a key has a value. -/
def contains [DecidableEq κ] (t : Table κ β) (key : κ) : Bool := (t.get? key).isSome

/-- Puts a pair in its place in an ascending list, over an entry with the same key. -/
def insertEntry [DecidableLT κ] (key : κ) (value : β) : List (κ × β) → List (κ × β)
  | [] => [(key, value)]
  | e :: rest =>
    if key < e.1 then (key, value) :: e :: rest
    else if e.1 < key then e :: insertEntry key value rest
    else (key, value) :: rest

theorem mem_insertEntry [DecidableLT κ] {key : κ} {value : β} {e : κ × β} {l : List (κ × β)}
    (h : e ∈ insertEntry key value l) : e = (key, value) ∨ e ∈ l := by
  induction l with
  | nil => simpa [insertEntry] using h
  | cons d rest ih => simp only [insertEntry] at h; grind

@[simp] theorem get?_empty [DecidableEq κ] (key : κ) : (empty : Table κ β).get? key = none := rfl

end Basic

section Ordered

variable {κ : Type u} {β : Type v} [LT κ] [LE κ] [Std.IsLinearOrder κ] [Std.LawfulOrderLT κ]

theorem ascending_insertEntry [DecidableLT κ] (key : κ) (value : β) {l : List (κ × β)}
    (h : l.Pairwise (fun a b => a.1 < b.1)) :
    (insertEntry key value l).Pairwise (fun a b => a.1 < b.1) := by
  induction l with
  | nil => simp [insertEntry]
  | cons e rest ih =>
    rw [List.pairwise_cons] at h
    simp only [insertEntry]
    split
    · rename_i hlt
      refine List.pairwise_cons.mpr ⟨fun d hd => ?_, List.pairwise_cons.mpr h⟩
      rcases List.mem_cons.mp hd with rfl | hd
      · exact hlt
      · exact Std.lt_trans hlt (h.1 d hd)
    · split
      · rename_i hlt
        refine List.pairwise_cons.mpr ⟨fun d hd => ?_, ih h.2⟩
        rcases mem_insertEntry hd with rfl | hd
        · exact hlt
        · exact h.1 d hd
      · rename_i h₁ h₂
        have he : e.1 = key := Std.le_antisymm (Std.not_lt.mp h₁) (Std.not_lt.mp h₂)
        exact List.pairwise_cons.mpr ⟨fun d hd => he ▸ h.1 d hd, h.2⟩

/-- The table with a value put under a key, over the value it had. -/
def insert [DecidableLT κ] (t : Table κ β) (key : κ) (value : β) : Table κ β :=
  ⟨insertEntry key value t.entries, ascending_insertEntry key value t.ascending⟩

omit [LE κ] [Std.IsLinearOrder κ] [Std.LawfulOrderLT κ] in
/-- The table without a key. A key that is absent changes nothing. -/
def erase [DecidableEq κ] (t : Table κ β) (key : κ) : Table κ β :=
  ⟨t.entries.filter (fun e => e.1 ≠ key), t.ascending.filter _⟩

/-- The table of some pairs; of pairs with one key the last counts. -/
def ofList [DecidableLT κ] (pairs : List (κ × β)) : Table κ β :=
  pairs.foldl (fun t e => t.insert e.1 e.2) empty

private theorem lookupEntry_insertEntry [DecidableLT κ] [DecidableEq κ] (key : κ) (value : β)
    (l : List (κ × β)) (k : κ) : lookupEntry k (insertEntry key value l) =
      if k = key then some value else lookupEntry k l := by
  induction l with
  | nil => rfl
  | cons e rest ih =>
    simp only [insertEntry]
    split
    · rfl
    · split
      · rename_i h
        have hne : e.1 ≠ key := fun he => Std.lt_irrefl (he ▸ h)
        by_cases hk : k = key
        · subst hk; simp [lookupEntry, ih, Ne.symm hne]
        · simp [lookupEntry, ih, hk]
      · rename_i h₁ h₂
        have he : e.1 = key := Std.le_antisymm (Std.not_lt.mp h₁) (Std.not_lt.mp h₂)
        by_cases hk : k = key <;> simp [lookupEntry, he, hk]

/-- A write is read back; the other keys keep their values. -/
@[simp] theorem get?_insert [DecidableLT κ] [DecidableEq κ] (t : Table κ β) (key : κ) (value : β)
    (k : κ) : (t.insert key value).get? k = if k = key then some value else t.get? k :=
  lookupEntry_insertEntry key value t.entries k

omit [LE κ] [Std.IsLinearOrder κ] [Std.LawfulOrderLT κ] in
/-- An erased key has no value; the other keys keep theirs. -/
@[simp] theorem get?_erase [DecidableEq κ] (t : Table κ β) (key k : κ) :
    (t.erase key).get? k = if k = key then none else t.get? k := by
  simp only [get?, erase]
  induction t.entries with
  | nil => simp [lookupEntry]
  | cons e rest ih =>
    by_cases he : e.1 = key
    · by_cases hk : k = key <;> simp_all [lookupEntry]
    · by_cases hk : k = key
      · subst hk; simp_all [lookupEntry, Ne.symm he]
      · simp_all [lookupEntry]

omit [Std.IsLinearOrder κ] in
private theorem lookupEntry_eq_some_iff [DecidableEq κ] {l : List (κ × β)}
    (h : l.Pairwise (fun a b => a.1 < b.1)) {key : κ} {value : β} :
    lookupEntry key l = some value ↔ (key, value) ∈ l := by
  induction l with
  | nil => simp [lookupEntry]
  | cons e rest ih =>
    obtain ⟨k, v⟩ := e
    rw [List.pairwise_cons] at h
    by_cases hk : key = k
    · subst hk
      have hnot : (key, value) ∉ rest := fun hm => Std.lt_irrefl (a := key) (h.1 (key, value) hm)
      simp [lookupEntry, hnot, eq_comm]
    · simp [lookupEntry, hk, ih h.2]

omit [Std.IsLinearOrder κ] in
/-- A pair is listed exactly if the look-up of its key answers its value. -/
theorem mem_entries_iff [DecidableEq κ] {t : Table κ β} {key : κ} {value : β} :
    (key, value) ∈ t.entries ↔ t.get? key = some value :=
  (lookupEntry_eq_some_iff t.ascending).symm

private theorem entries_eq_of_mem_iff : {l m : List (κ × β)} →
    l.Pairwise (fun a b => a.1 < b.1) → m.Pairwise (fun a b => a.1 < b.1) →
    (∀ e, e ∈ l ↔ e ∈ m) → l = m
  | [], [], _, _, _ => rfl
  | [], e :: _, _, _, h => absurd ((h e).mpr List.mem_cons_self) List.not_mem_nil
  | e :: _, [], _, _, h => absurd ((h e).mp List.mem_cons_self) List.not_mem_nil
  | d :: l, e :: m, hl, hm, h => by
    rw [List.pairwise_cons] at hl hm
    have hde : d = e := by
      rcases List.mem_cons.mp ((h d).mp List.mem_cons_self) with hd | hd
      · exact hd
      · rcases List.mem_cons.mp ((h e).mpr List.mem_cons_self) with he | he
        · exact he.symm
        · exact absurd (Std.lt_trans (hm.1 d hd) (hl.1 e he)) Std.lt_irrefl
    subst hde
    refine congrArg (d :: ·) (entries_eq_of_mem_iff hl.2 hm.2 fun x => ?_)
    have hx := h x
    simp only [List.mem_cons] at hx
    constructor
    · intro hxl
      rcases hx.mp (.inr hxl) with rfl | hxm
      · exact absurd (hl.1 _ hxl) Std.lt_irrefl
      · exact hxm
    · intro hxm
      rcases hx.mpr (.inr hxm) with rfl | hxl
      · exact absurd (hm.1 _ hxm) Std.lt_irrefl
      · exact hxl

/-- Tables that answer every look-up alike are equal. -/
theorem ext_get? [DecidableEq κ] {t u : Table κ β} (h : ∀ key, t.get? key = u.get? key) : t = u :=
  Table.ext <| entries_eq_of_mem_iff t.ascending u.ascending fun e => by
    rw [← Prod.eta e, mem_entries_iff, mem_entries_iff, h]

end Ordered

/-! ## Entries by their beginning -/

/-- The entries whose key starts with `beginning`. The keys before it in byte order are skipped;
the keys that start with it follow without a gap. -/
def startingWith {β : Type v} (t : Table Bytes β) (beginning : Bytes) : List (Bytes × β) :=
  (t.entries.dropWhile (fun e => decide (e.1 < beginning))).takeWhile
    (fun e => beginning.isPrefixOf e.1)

/-- The run of entries that is found holds all entries whose key starts as asked for. -/
theorem startingWith_eq_filter {β : Type v} (t : Table Bytes β) (beginning : Bytes) :
    t.startingWith beginning = t.entries.filter (fun e => beginning.isPrefixOf e.1) := by
  obtain ⟨l, h⟩ := t
  simp only [startingWith]
  induction l with
  | nil => rfl
  | cons e rest ih =>
    rw [List.pairwise_cons] at h
    have ih := ih h.2
    by_cases hlt : e.1 < beginning
    · have hn : beginning.isPrefixOf e.1 = false := by
        cases hp : beginning.isPrefixOf e.1 with
        | false => rfl
        | true => exact absurd hlt (Std.not_lt.mpr (Bytes.le_of_isPrefixOf hp))
      simpa [List.dropWhile_cons, List.filter_cons, hlt, hn] using ih
    · have hle : beginning ≤ e.1 := Std.not_lt.mp hlt
      have hrest : rest.dropWhile (fun e => decide (e.1 < beginning)) = rest := by
        cases rest with
        | nil => rfl
        | cons d rest =>
          have hd : ¬ d.1 < beginning :=
            Std.not_lt.mpr (Std.le_trans hle (Std.le_of_lt (h.1 d List.mem_cons_self)))
          simp [hd]
      rw [hrest] at ih
      cases hp : beginning.isPrefixOf e.1 with
      | true => simp [hlt, hp, ih]
      | false =>
        have hnone : rest.filter (fun e => beginning.isPrefixOf e.1) = [] := by
          rw [List.filter_eq_nil_iff]
          intro d hd hpd
          have := Bytes.isPrefixOf_of_between hle (Std.le_of_lt (h.1 d hd)) hpd
          simp [hp] at this
        simp [hlt, hp, hnone]

end Table

end AuthoritySet
