import AuthoritySet.Store.ByteStore

/-!
# Overlays

An `Overlay` collects changes above a store that it only reads. Look-ups see the collected changes
first; `Overlay.writes` lists them in key order, one for each key that was touched.
-/

namespace AuthoritySet

/-- Changes collected above a store. -/
structure Overlay (σ : Type) where
  base : σ
  /-- The new value of each touched key; `none` stands for a deletion. -/
  pending : Table Bytes (Option Bytes)

namespace Overlay

variable {σ : Type}

/-- The overlay without changes. -/
def above (base : σ) : Overlay σ := ⟨base, .empty⟩

/-- The collected changes, in key order. -/
def writes (o : Overlay σ) : List Write := o.pending.entries.map Write.ofEntry

/-- Collects one more change. -/
def write (o : Overlay σ) : Write → Overlay σ
  | .put key value => { o with pending := o.pending.insert key (some value) }
  | .delete key => { o with pending := o.pending.insert key none }

/-- Puts the changes of some keys over the pairs of the store below. -/
def merge (below : List (Bytes × Bytes)) (changed : List (Bytes × Option Bytes)) : Contents :=
  changed.foldl (fun contents e => contents.write (Write.ofEntry e)) (Table.ofList below)

instance [ByteStore σ] : ByteStore (Overlay σ) where
  get o key :=
    match o.pending.get? key with
    | some staged => .ok staged
    | none => ByteStore.get o.base key
  scan o beginning := do
    let below ← ByteStore.scan o.base beginning
    return (merge below (o.pending.startingWith beginning)).entries
  put o key value := .ok (o.write (.put key value))
  delete o key := .ok (o.write (.delete key))
  apply o writes := .ok (writes.foldl write o)

end Overlay

end AuthoritySet
