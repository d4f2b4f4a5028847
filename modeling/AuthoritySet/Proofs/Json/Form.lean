import AuthoritySet.Json.Form
import AuthoritySet.Proofs.Json.Value

/-!
# Forms that are read as they are written

A JSON form is lawful (`JsonForm.Lawful`) if what it writes is a plain value, and reading this value
gives back what was written. The documents of such forms are read back too, with or without blanks.

* `Json.record?_ofFields`, `Json.field?_cons_self`: the fields of a record are found.
* `Json.tagged?_ofFields`: the tag of a tagged record is found, and its other fields.
-/

namespace AuthoritySet

namespace JsonForm

/-- Forms that are read as they are written. -/
class Lawful (α : Type) [JsonForm α] : Prop where
  plain (value : α) : (toJson value).Plain
  ofJson?_toJson (value : α) : ofJson? (toJson value) = some value

variable {α : Type} [JsonForm α] [Lawful α]

/-- What is written is read back. -/
theorem read?_write (value : α) : read? (write value) = some value := by
  rw [read?, write, Json.read?_compact (Lawful.plain value)]
  exact Lawful.ofJson?_toJson value

/-- What is written with a line for each item is read back. -/
theorem read?_pretty (value : α) : read? (toJson value).pretty = some value := by
  rw [read?, Json.read?_pretty (Lawful.plain value)]
  exact Lawful.ofJson?_toJson value

end JsonForm

namespace Json

open JsonForm

variable {α : Type} [JsonForm α] [Lawful α] {fields : List (String × Json)}

/-! ## Numbers, texts and lists -/

theorem naturalBelow?_natural {n limit : Nat} (h : n < limit) :
    (natural n).naturalBelow? limit = some n := by
  simp [naturalBelow?, natural, h]

theorem mapM_ofJson?_toJson (values : List α) :
    (values.map toJson).mapM ofJson? = some values := by
  have hread : ofJson? ∘ toJson = (some : α → Option α) := funext Lawful.ofJson?_toJson
  rw [List.mapM_map, hread]
  exact List.mapM_pure.trans (congrArg some (List.map_id' values))

end Json

namespace JsonForm

open Json

instance : Lawful Bool where
  plain := plain_bool
  ofJson?_toJson _ := rfl

instance : Lawful UInt16 where
  plain n := plain_natural n.toNat
  ofJson?_toJson n := by
    show ((natural n.toNat).naturalBelow? UInt16.size).map UInt16.ofNat = some n
    rw [naturalBelow?_natural n.toNat_lt, Option.map_some, UInt16.ofNat_toNat]

instance : Lawful UInt32 where
  plain n := plain_natural n.toNat
  ofJson?_toJson n := by
    show ((natural n.toNat).naturalBelow? UInt32.size).map UInt32.ofNat = some n
    rw [naturalBelow?_natural n.toNat_lt, Option.map_some, UInt32.ofNat_toNat]

instance : Lawful UInt64 where
  plain n := plain_natural n.toNat
  ofJson?_toJson n := by
    show ((natural n.toNat).naturalBelow? UInt64.size).map UInt64.ofNat = some n
    rw [naturalBelow?_natural n.toNat_lt, Option.map_some, UInt64.ofNat_toNat]

instance {α : Type} [JsonForm α] [Lawful α] : Lawful (List α) where
  plain values := plain_array fun item hitem => by
    obtain ⟨value, -, rfl⟩ := List.mem_map.mp hitem
    exact Lawful.plain value
  ofJson?_toJson := mapM_ofJson?_toJson

end JsonForm

namespace Json

open JsonForm

variable {α : Type} [JsonForm α] [Lawful α] {fields : List (String × Json)}

/-! ## Records -/

theorem plain_ofFields (h : ∀ f ∈ fields, f.2.Plain) : (ofFields fields).Plain :=
  plain_object fun m hm => by
    obtain ⟨f, hf, rfl⟩ := List.mem_map.mp hm
    exact ⟨rfl, h f hf⟩

/-- The fields of a record are found under their names. -/
theorem record?_ofFields {names : List String} (hnames : fields.map (·.1) = names)
    (hnodup : names.Nodup) : (ofFields fields).record? names = some fields := by
  have hkeys : (fields.map fun f => (some f.1, f.2)).mapM
      (fun m : Option String × Json => m.1.map fun key => (key, m.2)) = some fields := by
    rw [List.mapM_map]
    exact List.mapM_pure.trans (congrArg some (List.map_id' fields))
  have hknown : fields.filter (fun f => f.1 ∈ names) = fields :=
    List.filter_eq_self.mpr fun f hf => by
      simpa [← hnames] using ⟨_, hf⟩
  rw [ofFields, record?, hkeys]
  simp only [Option.bind_eq_bind, Option.bind_some, hknown, hnames]
  exact if_pos hnodup

/-- Reading a record goes on with its fields. -/
theorem record?_bind {β : Type} {names : List String} {next : List (String × Json) → Option β}
    (hnames : fields.map (·.1) = names) (hnodup : names.Nodup) :
    ((ofFields fields).record? names >>= next) = next fields := by
  rw [record?_ofFields hnames hnodup]
  rfl

@[simp] theorem field?_cons_self (name : String) (value : α) :
    field? ((name, toJson value) :: fields) name = some value := by
  simp [field?, Lawful.ofJson?_toJson]

@[simp] theorem field?_cons_of_ne {β : Type} [JsonForm β] {name other : String} {json : Json}
    (h : name ≠ other) :
    (field? ((other, json) :: fields) name : Option β) = field? fields name := by
  have hbeq : (name == other) = false := by simpa using h
  rw [field?, field?, List.lookup_cons, hbeq]

@[simp] theorem fieldOr?_cons_self (name : String) (value usual : α) :
    fieldOr? ((name, toJson value) :: fields) name usual = some value := by
  simp [fieldOr?, Lawful.ofJson?_toJson]

@[simp] theorem fieldOr?_cons_of_ne {β : Type} [JsonForm β] {name other : String} {json : Json}
    {usual : β} (h : name ≠ other) :
    fieldOr? ((other, json) :: fields) name usual = fieldOr? fields name usual := by
  have hbeq : (name == other) = false := by simpa using h
  rw [fieldOr?, fieldOr?, List.lookup_cons, hbeq]

/-! ## Tagged records -/

theorem isStrict_ofText {depth : Nat} (text : String) : (ofText text).isStrict depth = true := by
  rw [ofText, isStrict]
  rfl

theorem isStrict_natural {depth n : Nat} (h : n < UInt64.size) :
    (natural n).isStrict depth = true := by
  rw [natural, isStrict, Number.exceedsDouble_ofNat h]
  rfl

theorem isStrict_ofFields {depth : Nat} (h : ∀ f ∈ fields, f.2.isStrict depth = true) :
    (ofFields fields).isStrict (depth + 1) = true := by
  rw [ofFields, isStrict, List.all_map, List.all_eq_true]
  intro f hf
  simp [h f hf]

/-- The tag of a tagged record is found, and its other fields. -/
theorem tagged?_ofFields {tag : String} (name : String)
    (hstrict : ∀ f ∈ fields, f.2.isStrict 126 = true) (hother : ∀ f ∈ fields, f.1 ≠ tag) :
    (ofFields ((tag, ofText name) :: fields)).tagged? tag = some (name, ofFields fields) := by
  have hall : (ofFields ((tag, ofText name) :: fields)).isStrict nestingLimit = true :=
    isStrict_ofFields (List.forall_mem_cons.mpr ⟨isStrict_ofText name, hstrict⟩)
  have hrest : ∀ m ∈ fields.map (fun f => (some f.1, f.2)), ¬ m.1 = some tag := fun m hm => by
    obtain ⟨f, hf, rfl⟩ := List.mem_map.mp hm
    simpa using hother f hf
  have hsplit : (((tag, ofText name) :: fields).map fun f => (some f.1, f.2)).partition
      (fun m => m.1 = some tag) =
      ([(some tag, ofText name)], fields.map fun f => (some f.1, f.2)) := by
    rw [List.partition_eq_filter_filter, List.map_cons, List.filter_cons_of_pos (by simp),
      List.filter_cons_of_neg (by simp), List.filter_eq_nil_iff.mpr (by simpa using hrest),
      List.filter_eq_self.mpr (by simpa using hrest)]
  rw [tagged?, if_pos hall, ofFields, splitTag?, hsplit]
  rfl

end Json

end AuthoritySet
