import AuthoritySet.Proofs.Overlay

/-!
# Overlays above overlays

Whoever works on an overlay cannot tell it from a plain map, whatever is done (`StoreUse`) and
however many overlays lie below (`Layered`). The store below notices nothing of it until the
collected changes are applied to it, and then it holds what the map holds.

* `Contents.use`: what a plain map answers to a use, and what it becomes.
* `ByteStore.use_eq`: one use of a transparent store. `ByteStore.useAll_eq`: any number of them.
* `Layered.overlay_eq_map`: a fresh overlay above layers of overlays is used like a map.
-/

namespace AuthoritySet

/-- A use of a byte store. -/
inductive StoreUse where
  | get (key : Bytes)
  | contains (key : Bytes)
  | put (key value : Bytes)
  | delete (key : Bytes)
  | scan (beginning : Bytes)
  | apply (writes : List Write)
  deriving DecidableEq, Repr

/-- What a use of a byte store returns. -/
inductive StoreAnswer where
  | value (value : Option Bytes)
  | isThere (answer : Bool)
  | pairs (pairs : List (Bytes × Bytes))
  | done
  deriving DecidableEq, Repr

/-! ## Plain maps -/

namespace Contents

/-- What a plain map answers, and what it is afterwards. A scan lists all pairs whose key has the
beginning, in the order of the keys. -/
def use (c : Contents) : StoreUse → StoreAnswer × Contents
  | .get key => (.value (c.get? key), c)
  | .contains key => (.isThere (c.get? key).isSome, c)
  | .put key value => (.done, c.insert key value)
  | .delete key => (.done, c.erase key)
  | .scan beginning => (.pairs (c.entries.filter fun e => beginning.isPrefixOf e.1), c)
  | .apply writes => (.done, c.writeAll writes)

/-- The answers of a plain map to some uses, and what it is after them. -/
def useAll (c : Contents) : List StoreUse → List StoreAnswer × Contents
  | [] => ([], c)
  | u :: rest => ((c.use u).1 :: ((c.use u).2.useAll rest).1, ((c.use u).2.useAll rest).2)

/-- The keys of every listing ascend. -/
theorem pairwise_of_mem_useAll {c : Contents} {uses : List StoreUse} {pairs : List (Bytes × Bytes)}
    (h : .pairs pairs ∈ (c.useAll uses).1) : pairs.Pairwise fun a b => a.1 < b.1 := by
  induction uses generalizing c with
  | nil => cases h
  | cons u rest ih =>
    rw [useAll, List.mem_cons] at h
    rcases h with h | h
    · cases u <;> cases h
      exact c.ascending.filter _
    · exact ih h

end Contents

/-! ## Byte stores -/

namespace ByteStore

variable {σ : Type} [ByteStore σ]

/-- What a store answers to a use, and what it is afterwards. -/
def use (store : σ) : StoreUse → Except StoreFailure (StoreAnswer × σ)
  | .get key => (get store key).map fun value => (.value value, store)
  | .contains key => (contains store key).map fun answer => (.isThere answer, store)
  | .put key value => (put store key value).map fun after => (.done, after)
  | .delete key => (delete store key).map fun after => (.done, after)
  | .scan beginning => (scan store beginning).map fun pairs => (.pairs pairs, store)
  | .apply writes => (apply store writes).map fun after => (.done, after)

/-- The answers of a store to some uses, and what it is after them. -/
def useAll (store : σ) : List StoreUse → Except StoreFailure (List StoreAnswer × σ)
  | [] => .ok ([], store)
  | u :: rest => do
    let (answer, store) ← use store u
    let (answers, store) ← useAll store rest
    return (answer :: answers, store)

variable [Transparent σ]

open Transparent (contents)

/-- A transparent store answers as the map of its contents, and stays in step with it. -/
theorem use_eq (store : σ) (u : StoreUse) : ∃ after,
    use store u = .ok (((contents store).use u).1, after) ∧
      contents after = ((contents store).use u).2 := by
  cases u with
  | get key => exact ⟨store, by rw [use, Transparent.get_eq]; rfl, rfl⟩
  | contains key => exact ⟨store, by rw [use, Transparent.contains_eq]; rfl, rfl⟩
  | put key value =>
    obtain ⟨after, hput, hafter⟩ := Transparent.change_eq store (.put key value)
    have hput : put store key value = .ok after := hput
    exact ⟨after, by rw [use, hput]; rfl, hafter⟩
  | delete key =>
    obtain ⟨after, hdelete, hafter⟩ := Transparent.change_eq store (.delete key)
    have hdelete : delete store key = .ok after := hdelete
    exact ⟨after, by rw [use, hdelete]; rfl, hafter⟩
  | scan beginning =>
    refine ⟨store, ?_, rfl⟩
    rw [use, Transparent.scan_eq, Table.startingWith_eq_filter]
    rfl
  | apply writes =>
    obtain ⟨after, happly, hafter⟩ := Transparent.apply_eq store writes
    exact ⟨after, by rw [use, happly]; rfl, hafter⟩

theorem useAll_eq (store : σ) (uses : List StoreUse) : ∃ after,
    useAll store uses = .ok (((contents store).useAll uses).1, after) ∧
      contents after = ((contents store).useAll uses).2 := by
  induction uses generalizing store with
  | nil => exact ⟨store, rfl, rfl⟩
  | cons u rest ih =>
    obtain ⟨next, huse, hnext⟩ := use_eq store u
    obtain ⟨after, hrest, hafter⟩ := ih next
    refine ⟨after, ?_, ?_⟩
    · rw [useAll, huse]
      simp only [bind, Except.bind, hrest, hnext]
      rfl
    · rw [hafter, hnext]
      rfl

end ByteStore

/-! ## Overlays -/

namespace Overlay

open ByteStore

variable {σ : Type} [ByteStore σ]

omit [ByteStore σ] in
/-- Collecting changes leaves the store below alone. -/
theorem base_foldl_write (o : Overlay σ) (writes : List Write) :
    (writes.foldl write o).base = o.base := by
  induction writes generalizing o with
  | nil => rfl
  | cons w rest ih => rw [List.foldl_cons, ih, base_write]

theorem base_use {o after : Overlay σ} {u : StoreUse} {answer : StoreAnswer}
    (h : use o u = .ok (answer, after)) : after.base = o.base := by
  cases u with
  | get key =>
    rw [use] at h
    cases hget : ByteStore.get o key <;> rw [hget] at h <;> cases h
    rfl
  | contains key =>
    rw [use] at h
    cases hcontains : ByteStore.contains o key <;> rw [hcontains] at h <;> cases h
    rfl
  | scan beginning =>
    rw [use] at h
    cases hscan : ByteStore.scan o beginning <;> rw [hscan] at h <;> cases h
    rfl
  | put key value => cases h; rfl
  | delete key => cases h; rfl
  | apply writes => cases h; exact base_foldl_write o writes

theorem base_useAll {o after : Overlay σ} {uses : List StoreUse} {answers : List StoreAnswer}
    (h : useAll o uses = .ok (answers, after)) : after.base = o.base := by
  induction uses generalizing o answers with
  | nil => cases h; rfl
  | cons u rest ih =>
    rw [useAll] at h
    cases huse : use o u with
    | error failure => rw [huse] at h; cases h
    | ok r =>
      rw [huse] at h
      simp only [bind, Except.bind] at h
      cases hrest : useAll r.2 rest with
      | error failure => rw [hrest] at h; cases h
      | ok r' =>
        rw [hrest] at h
        cases h
        rw [ih hrest, base_use huse]

end Overlay

/-! ## Layers -/

/-- Stores of so many overlays above contents. -/
def Layered : Nat → Type
  | 0 => Contents
  | depth + 1 => Overlay (Layered depth)

namespace Layered

open ByteStore

instance instByteStore : (depth : Nat) → ByteStore (Layered depth)
  | 0 => inferInstanceAs (ByteStore Contents)
  | depth + 1 =>
    letI := instByteStore depth
    inferInstanceAs (ByteStore (Overlay (Layered depth)))

instance instTransparent : (depth : Nat) → Transparent (Layered depth)
  | 0 => inferInstanceAs (Transparent Contents)
  | depth + 1 =>
    letI := instTransparent depth
    inferInstanceAs (Transparent (Overlay (Layered depth)))

/-- The contents that a layered store shows. -/
def contents {depth : Nat} (store : Layered depth) : Contents := Transparent.contents store

/-- **Working on an overlay is working on a plain map.** A fresh overlay above any layers of
overlays answers all uses as the map of the contents below it would. It leaves the store below
alone; if its changes are applied to that store, the store then shows what the map has become. -/
theorem overlay_eq_map {depth : Nat} (base : Layered depth) (uses : List StoreUse) :
    (∀ key, ByteStore.get base key = .ok (base.contents.get? key)) ∧
    (∀ pairs, .pairs pairs ∈ (base.contents.useAll uses).1 →
      pairs.Pairwise fun a b => a.1 < b.1) ∧
    ∃ o, useAll (Overlay.above base) uses = .ok ((base.contents.useAll uses).1, o) ∧
      o.base = base ∧
      ∃ after, ByteStore.apply base o.writes = .ok after ∧
        after.contents = (base.contents.useAll uses).2 := by
  refine ⟨Transparent.get_eq base, fun _ => Contents.pairwise_of_mem_useAll, ?_⟩
  have habove : Transparent.contents (Overlay.above base) = base.contents := rfl
  obtain ⟨o, huses, hcontents⟩ := useAll_eq (Overlay.above base) uses
  rw [habove] at huses hcontents
  have hbase : o.base = base := Overlay.base_useAll huses
  obtain ⟨after, happly, hafter⟩ := Transparent.apply_eq base o.writes
  refine ⟨o, huses, hbase, after, happly, ?_⟩
  rw [← hcontents]
  show Transparent.contents after = (Transparent.contents o.base).writeAll o.writes
  rw [hafter, hbase]

end Layered

end AuthoritySet
