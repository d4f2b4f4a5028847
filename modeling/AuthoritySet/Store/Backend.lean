import AuthoritySet.Store.ByteStore

/-!
# A backend that can fail

Contents together with the faults that are in force and a record of the batches that were accepted.
A read or a scan fails depending on its key; a batch fails as a whole, and then nothing of it is
carried out.
-/

namespace AuthoritySet

/-- Which uses of a backend fail. -/
structure Faults where
  get : Bytes → Bool := fun _ => false
  scan : Bytes → Bool := fun _ => false
  batch : Bool := false

namespace Faults

/-- No faults. -/
def none : Faults := {}

/-- The keys that start with a beginning, if there is one. -/
def startingWith (beginning? : Option Bytes) (key : Bytes) : Bool :=
  beginning?.any (·.isPrefixOf key)

/-- Faults of reads and scans by the beginning of their keys. -/
def byBeginning (get scan : Option Bytes) (batch : Bool) : Faults :=
  { get := startingWith get, scan := startingWith scan, batch }

end Faults

/-- Contents that fail on demand. -/
structure Backend where
  contents : Contents := .empty
  faults : Faults := .none
  /-- The accepted batches, the last one first. -/
  accepted : List (List Write) := []

namespace Backend

/-- The wording of a failed use of a key. -/
def keyFailure (use : String) (key : Bytes) : StoreFailure :=
  .backend (use ++ " " ++ Bytes.ascii (Hex.encode key))

instance : ByteStore Backend where
  get b key := if b.faults.get key then .error (keyFailure "get" key) else .ok (b.contents.get? key)
  scan b beginning :=
    if b.faults.scan beginning then .error (keyFailure "scan" beginning)
    else .ok (b.contents.startingWith beginning)
  put b key value := .ok { b with contents := b.contents.insert key value }
  delete b key := .ok { b with contents := b.contents.erase key }
  apply b writes :=
    if b.faults.batch then .error (.batchRejected (toString writes.length ++ " operations"))
    else .ok { b with contents := b.contents.writeAll writes, accepted := writes :: b.accepted }

end Backend

end AuthoritySet
