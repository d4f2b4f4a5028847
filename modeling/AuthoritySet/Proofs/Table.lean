import AuthoritySet.Table

/-!
# More laws of tables

* `Table.filterMap`: keeps, changes or drops each entry by its key and value; `Table.map` changes
  the values alone.
* `Table.values`: the values in the order of their keys.
* `Table.get?_insert_cases`, `Table.get?_of_erase`: where what is found after a write comes from.
* `Table.size_insert`, `Table.size_filterMap_le`: how the number of entries changes.
* `Table.ofList_entries`: a table is that of its entries. `Table.get?_ofList`: it is read as the
  list of entries is.
* `Table.startingWith_eq_entries`: the entries with one beginning make up a table of their own.
-/

namespace AuthoritySet

namespace Table

section Basic

variable {κ : Type u} {β : Type v} {γ : Type w} [LT κ]

omit [LT κ] in
private theorem mem_filterMap_entry {f : κ → β → Option γ} {l : List (κ × β)} {key : κ}
    {value : γ} :
    (key, value) ∈ l.filterMap (fun e => (f e.1 e.2).map (e.1, ·)) ↔
      ∃ before, (key, before) ∈ l ∧ f key before = some value := by
  simp only [List.mem_filterMap, Option.map_eq_some_iff, Prod.mk.injEq]
  constructor
  · rintro ⟨⟨k, v⟩, hmem, after, hf, rfl, rfl⟩
    exact ⟨v, hmem, hf⟩
  · rintro ⟨v, hmem, hf⟩
    exact ⟨(key, v), hmem, value, hf, rfl, rfl⟩

/-- The table whose entries are what a function makes of each entry, where it makes anything. -/
def filterMap (t : Table κ β) (f : κ → β → Option γ) : Table κ γ where
  entries := t.entries.filterMap fun e => (f e.1 e.2).map (e.1, ·)
  ascending := by
    refine List.Pairwise.filterMap _ (fun a a' hlt b hb b' hb' => ?_) t.ascending
    simp only [Option.map_eq_some_iff] at hb hb'
    obtain ⟨_, -, rfl⟩ := hb
    obtain ⟨_, -, rfl⟩ := hb'
    exact hlt

/-- The values of a table, in the order of their keys. -/
def values (t : Table κ β) : List β := t.entries.map (·.2)

/-- The table with every value replaced. -/
def map (t : Table κ β) (f : β → γ) : Table κ γ := t.filterMap fun _ v => some (f v)

@[simp] theorem entries_map (t : Table κ β) (f : β → γ) :
    (t.map f).entries = t.entries.map fun e => (e.1, f e.2) :=
  congrFun List.filterMap_eq_map _

@[simp] theorem size_map (t : Table κ β) (f : β → γ) : (t.map f).size = t.size := by
  simp [size]

@[simp] theorem length_values (t : Table κ β) : t.values.length = t.size := List.length_map _

@[simp] theorem values_map (t : Table κ β) (f : β → γ) : (t.map f).values = t.values.map f := by
  simp [values, Function.comp_def]

theorem size_filterMap_le (t : Table κ β) (f : κ → β → Option γ) : (t.filterMap f).size ≤ t.size :=
  List.length_filterMap_le _ _

omit [LT κ] in
theorem lookupEntry_eq_none [DecidableEq κ] {l : List (κ × β)} {key : κ}
    (h : ∀ value, (key, value) ∉ l) : lookupEntry key l = none := by
  induction l with
  | nil => rfl
  | cons e rest ih =>
    have hne : key ≠ e.1 := by
      rintro rfl
      exact h e.2 List.mem_cons_self
    rw [lookupEntry, if_neg hne, ih fun value hv => h value (List.mem_cons_of_mem e hv)]

omit [LT κ] in
theorem lookupEntry_eq_some_iff_of_nodup [DecidableEq κ] {l : List (κ × β)}
    (h : (l.map (·.1)).Nodup) {key : κ} {value : β} :
    lookupEntry key l = some value ↔ (key, value) ∈ l := by
  induction l with
  | nil => simp [lookupEntry]
  | cons e rest ih =>
    rw [List.map_cons, List.nodup_cons] at h
    rw [lookupEntry, List.mem_cons]
    by_cases hk : key = e.1
    · have hnot : (key, value) ∉ rest := fun hv => h.1 (hk ▸ List.mem_map.mpr ⟨_, hv, rfl⟩)
      rw [if_pos hk]
      constructor
      · intro he
        exact .inl (Prod.ext hk (Option.some.inj he).symm)
      · rintro (rfl | hv)
        · rfl
        · exact absurd hv hnot
    · rw [if_neg hk, ih h.2]
      constructor
      · exact .inr
      · rintro (rfl | hv)
        · exact absurd rfl hk
        · exact hv

end Basic

section Ordered

variable {κ : Type u} {β : Type v} {γ : Type w} [LT κ] [LE κ] [Std.IsLinearOrder κ]
  [Std.LawfulOrderLT κ]

omit [Std.IsLinearOrder κ] in
@[simp] theorem get?_filterMap [DecidableEq κ] (t : Table κ β) (f : κ → β → Option γ) (key : κ) :
    (t.filterMap f).get? key = (t.get? key).bind (f key) := by
  ext value
  rw [← mem_entries_iff, filterMap, mem_filterMap_entry, Option.bind_eq_some_iff]
  simp only [mem_entries_iff]

omit [Std.IsLinearOrder κ] in
@[simp] theorem get?_map [DecidableEq κ] (t : Table κ β) (f : β → γ) (key : κ) :
    (t.map f).get? key = (t.get? key).map f := by
  rw [map, get?_filterMap]
  cases t.get? key <;> rfl

/-- What is found after a write is what was written, or was there before. -/
theorem get?_insert_cases [DecidableLT κ] [DecidableEq κ] {t : Table κ β} {key k : κ} {value v : β}
    (h : (t.insert key value).get? k = some v) :
    (k = key ∧ v = value) ∨ (k ≠ key ∧ t.get? k = some v) := by
  rw [get?_insert] at h
  split at h
  · rename_i hk
    exact .inl ⟨hk, (Option.some.inj h).symm⟩
  · rename_i hk
    exact .inr ⟨hk, h⟩

omit [LE κ] [Std.IsLinearOrder κ] [Std.LawfulOrderLT κ] in
/-- What is found after a key is erased was there before, under another key. -/
theorem get?_of_erase [DecidableEq κ] {t : Table κ β} {key k : κ} {v : β}
    (h : (t.erase key).get? k = some v) : k ≠ key ∧ t.get? k = some v := by
  rw [get?_erase] at h
  split at h
  · cases h
  · rename_i hk
    exact ⟨hk, h⟩

theorem map_insert [DecidableLT κ] [DecidableEq κ] (t : Table κ β) (key : κ) (value : β)
    (f : β → γ) : (t.insert key value).map f = (t.map f).insert key (f value) :=
  ext_get? fun k => by
    by_cases hk : k = key <;> simp [hk]

theorem map_erase [DecidableEq κ] (t : Table κ β) (key : κ) (f : β → γ) :
    (t.erase key).map f = (t.map f).erase key :=
  ext_get? fun k => by
    by_cases hk : k = key <;> simp [hk]

omit [Std.IsLinearOrder κ] in
theorem mem_values [DecidableEq κ] {t : Table κ β} {value : β} :
    value ∈ t.values ↔ ∃ key, t.get? key = some value := by
  simp only [values, List.mem_map, Prod.exists, mem_entries_iff, exists_eq_right]

omit [Std.IsLinearOrder κ] in
theorem nodup_keys (t : Table κ β) : (t.entries.map (·.1)).Nodup :=
  List.pairwise_map.mpr <| t.ascending.imp fun {a b} hlt (he : a.1 = b.1) =>
    Std.lt_irrefl (he ▸ hlt)

omit [Std.IsLinearOrder κ] in
theorem mem_keys [DecidableEq κ] {t : Table κ β} {key : κ} :
    key ∈ t.entries.map (·.1) ↔ (t.get? key).isSome := by
  simp only [List.mem_map, Prod.exists, exists_and_right, exists_eq_right, mem_entries_iff,
    Option.isSome_iff_exists]

omit [Std.IsLinearOrder κ] in
/-- Where every value names the key that it stands under, the values name the keys in their order. -/
theorem map_values_of_keyed [DecidableEq κ] {t : Table κ β} {f : β → κ}
    (h : ∀ {key value}, t.get? key = some value → f value = key) :
    t.values.map f = t.entries.map (·.1) := by
  rw [values, List.map_map]
  exact List.map_congr_left fun e he => h (mem_entries_iff.mp he)

omit [Std.IsLinearOrder κ] in
theorem get?_eq_none_iff [DecidableEq κ] {t : Table κ β} {key : κ} :
    t.get? key = none ↔ ∀ value, (key, value) ∉ t.entries := by
  simp only [Option.eq_none_iff_forall_ne_some, ne_eq, mem_entries_iff]

private theorem length_insertEntry [DecidableLT κ] [DecidableEq κ] (key : κ) (value : β)
    {l : List (κ × β)} (h : l.Pairwise fun a b => a.1 < b.1) :
    (insertEntry key value l).length =
      if (lookupEntry key l).isSome then l.length else l.length + 1 := by
  induction l with
  | nil => rfl
  | cons e rest ih =>
    rw [List.pairwise_cons] at h
    simp only [insertEntry, lookupEntry]
    by_cases hlt : key < e.1
    · have hne : key ≠ e.1 := fun he => Std.lt_irrefl (he ▸ hlt)
      have hnone : lookupEntry key rest = none := by
        refine get?_eq_none_iff (t := ⟨rest, h.2⟩).mpr fun v hv => ?_
        exact Std.lt_irrefl (Std.lt_trans hlt (h.1 _ hv))
      simp [hlt, hne, hnone]
    · by_cases hgt : e.1 < key
      · have hne : key ≠ e.1 := fun he => Std.lt_irrefl (he ▸ hgt)
        simp only [hlt, hgt, hne, if_true, if_false, List.length_cons, ih h.2]
        split <;> rfl
      · have he : key = e.1 := Std.le_antisymm (Std.not_lt.mp hgt) (Std.not_lt.mp hlt)
        simp only [hlt, hgt, if_false]
        simp [he]

/-- A new key adds an entry; a key that is there does not. -/
theorem size_insert [DecidableLT κ] [DecidableEq κ] (t : Table κ β) (key : κ) (value : β) :
    (t.insert key value).size = if (t.get? key).isSome then t.size else t.size + 1 :=
  length_insertEntry key value t.ascending

theorem size_insert_le [DecidableLT κ] [DecidableEq κ] (t : Table κ β) (key : κ) (value : β) :
    (t.insert key value).size ≤ t.size + 1 := by
  rw [size_insert]
  split <;> omega

private theorem get?_foldl_insert [DecidableLT κ] [DecidableEq κ] {l : List (κ × β)}
    (h : (l.map (·.1)).Nodup) (t : Table κ β) (key : κ) :
    (l.foldl (fun t e => t.insert e.1 e.2) t).get? key = (lookupEntry key l).or (t.get? key) := by
  induction l generalizing t with
  | nil => rfl
  | cons e rest ih =>
    rw [List.map_cons, List.nodup_cons] at h
    rw [List.foldl_cons, ih h.2, get?_insert, lookupEntry]
    by_cases hk : key = e.1
    · have hnone : lookupEntry key rest = none := by
        refine lookupEntry_eq_none fun v hv => h.1 ?_
        exact hk ▸ List.mem_map.mpr ⟨_, hv, rfl⟩
      simp [hk, hk ▸ hnone]
    · simp [hk]

/-- The table of pairs with different keys answers with the pairs. -/
theorem get?_ofList [DecidableLT κ] [DecidableEq κ] {l : List (κ × β)}
    (h : (l.map (·.1)).Nodup) (key : κ) : (ofList l).get? key = lookupEntry key l := by
  rw [ofList, get?_foldl_insert h, get?_empty, Option.or_none]

/-- The table of another one's entries is that table. -/
theorem ofList_entries [DecidableLT κ] [DecidableEq κ] (t : Table κ β) : ofList t.entries = t :=
  ext_get? fun key => get?_ofList t.nodup_keys key

end Ordered

/-! ## Entries by their beginning -/

/-- The entries with one beginning are those of a smaller table. -/
theorem startingWith_eq_entries {β : Type v} (t : Table Bytes β) (beginning : Bytes) :
    t.startingWith beginning =
      (t.filterMap fun key value =>
        if beginning.isPrefixOf key then some value else none).entries := by
  rw [startingWith_eq_filter, filterMap, ← List.filterMap_eq_filter]
  congr 1
  funext e
  by_cases h : beginning.isPrefixOf e.1 <;> simp [h, Option.guard]

end Table

end AuthoritySet
