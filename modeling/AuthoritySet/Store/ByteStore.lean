import AuthoritySet.Failure
import AuthoritySet.Table

/-!
# Byte stores

A `ByteStore` keeps values under keys and can list all keys with one beginning. `Contents` is the
store that is nothing but its entries.

* `ByteStore.apply`: carries out a list of writes in one go. If it fails there is no new store, so
  either all of them are carried out or none is.
-/

namespace AuthoritySet

/-- A single change to a store. Deleting a key that is absent changes nothing. -/
inductive Write where
  | put (key value : Bytes)
  | delete (key : Bytes)
  deriving DecidableEq, Repr

/-- The change that gives a key a value, or takes the value away. -/
def Write.ofEntry : Bytes × Option Bytes → Write
  | (key, some value) => .put key value
  | (key, none) => .delete key

/-- Stores of values under keys. Reading leaves a store as it is. -/
class ByteStore (σ : Type) where
  /-- The value under a key. -/
  get : σ → Bytes → Except StoreFailure (Option Bytes)
  /-- The pairs whose key has a beginning, in ascending key order. -/
  scan : σ → Bytes → Except StoreFailure (List (Bytes × Bytes))
  put : σ → Bytes → Bytes → Except StoreFailure σ
  delete : σ → Bytes → Except StoreFailure σ
  /-- Carries out all changes of a list, or fails. -/
  apply : σ → List Write → Except StoreFailure σ
  /-- Whether a key has a value. -/
  contains (store : σ) (key : Bytes) : Except StoreFailure Bool :=
    (get store key).map (·.isSome)

/-- Values under keys, and nothing else. -/
abbrev Contents := Table Bytes Bytes

namespace Contents

/-- The contents after one change. -/
def write (contents : Contents) : Write → Contents
  | .put key value => contents.insert key value
  | .delete key => contents.erase key

/-- The contents after a list of changes, the first one first. -/
def writeAll (contents : Contents) (writes : List Write) : Contents :=
  writes.foldl write contents

/-- The changes that turn one set of contents into another, in key order. -/
def changes (before after : Contents) : List Write :=
  let gone := before.entries.filter fun e => !after.contains e.1
  let new := after.entries.filter fun e => before.get? e.1 ≠ some e.2
  let touched : Table Bytes (Option Bytes) :=
    .ofList (gone.map (fun e => (e.1, none)) ++ new.map (fun e => (e.1, some e.2)))
  touched.entries.map Write.ofEntry

end Contents

instance : ByteStore Contents where
  get contents key := .ok (contents.get? key)
  scan contents beginning := .ok (contents.startingWith beginning)
  put contents key value := .ok (contents.insert key value)
  delete contents key := .ok (contents.erase key)
  apply contents writes := .ok (contents.writeAll writes)
  contains contents key := .ok (contents.contains key)

end AuthoritySet
