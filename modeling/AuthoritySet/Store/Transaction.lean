import AuthoritySet.Store.Overlay

/-!
# Transactions

A `Transaction` describes how a governance step uses the store: which keys it reads and scans, what
it writes depending on the answers, and where it gives up. It is data, so what holds of every step
is shown by induction over it, once.

* `Transaction.run`: carries a transaction out on a store; `Transaction.run_bind` says how one
  runs after another.
* `Transaction.require`: goes on only if a condition holds.
-/

namespace AuthoritySet

/-- A description of reads and writes that ends in a value or a failure. -/
inductive Transaction (α : Type) : Type where
  /-- Ends with a value. -/
  | done (value : α)
  /-- Gives up. -/
  | abort (failure : Failure)
  /-- Reads a key and goes on with its value. -/
  | get (key : Bytes) (next : Option Bytes → Transaction α)
  /-- Lists the pairs whose key has a beginning and goes on with them. -/
  | scan (beginning : Bytes) (next : List (Bytes × Bytes) → Transaction α)
  /-- Makes a change and goes on. -/
  | write (change : Write) (next : Transaction α)

namespace Transaction

variable {α β : Type}

/-- One transaction after another. -/
def bind : Transaction α → (α → Transaction β) → Transaction β
  | .done value, f => f value
  | .abort failure, _ => .abort failure
  | .get key next, f => .get key fun value => (next value).bind f
  | .scan beginning next, f => .scan beginning fun pairs => (next pairs).bind f
  | .write change next, f => .write change (next.bind f)

instance : Monad Transaction where
  pure := .done
  bind := bind

/-- The value under a key. -/
def lookup (key : Bytes) : Transaction (Option Bytes) := .get key .done

/-- The pairs whose key has a beginning. -/
def list (beginning : Bytes) : Transaction (List (Bytes × Bytes)) := .scan beginning .done

/-- Puts a value under a key. -/
def put (key value : Bytes) : Transaction Unit := .write (.put key value) (.done ())

/-- Deletes a key. -/
def delete (key : Bytes) : Transaction Unit := .write (.delete key) (.done ())

/-- Goes on only if a condition holds. -/
def require (condition : Bool) (failure : Failure) : Transaction Unit :=
  if condition then .done () else .abort failure

/-- Goes on only with a value. -/
def expect (value? : Option α) (failure : Failure) : Transaction α :=
  match value? with
  | some value => .done value
  | none => .abort failure

/-- Goes on only with a result. -/
def ofExcept : Except Failure α → Transaction α
  | .ok value => .done value
  | .error failure => .abort failure

/-- Carries out one change on a store. -/
def change {σ : Type} [ByteStore σ] (store : σ) : Write → Except StoreFailure σ
  | .put key value => ByteStore.put store key value
  | .delete key => ByteStore.delete store key

/-- Carries a transaction out on a store. -/
def run {σ : Type} [ByteStore σ] : Transaction α → σ → Except Failure (α × σ)
  | .done value, store => .ok (value, store)
  | .abort failure, _ => .error failure
  | .get key next, store =>
    match ByteStore.get store key with
    | .ok value => (next value).run store
    | .error failure => .error (.storage failure)
  | .scan beginning next, store =>
    match ByteStore.scan store beginning with
    | .ok pairs => (next pairs).run store
    | .error failure => .error (.storage failure)
  | .write w next, store =>
    match change store w with
    | .ok store => next.run store
    | .error failure => .error (.storage failure)

/-! ## Laws -/

/-- Ending with the value that there is changes nothing. -/
theorem bind_done (t : Transaction α) : t.bind .done = t := by
  induction t with
  | done value => rfl
  | abort failure => rfl
  | get key next ih => exact congrArg (Transaction.get key) (funext ih)
  | scan beginning next ih => exact congrArg (Transaction.scan beginning) (funext ih)
  | write change next ih => exact congrArg (Transaction.write change) ih

/-- How transactions are bracketed does not matter. -/
theorem bind_assoc {γ : Type} (t : Transaction α) (f : α → Transaction β) (g : β → Transaction γ) :
    (t.bind f).bind g = t.bind fun value => (f value).bind g := by
  induction t with
  | done value => rfl
  | abort failure => rfl
  | get key next ih => exact congrArg (Transaction.get key) (funext ih)
  | scan beginning next ih => exact congrArg (Transaction.scan beginning) (funext ih)
  | write change next ih => exact congrArg (Transaction.write change) ih

instance : LawfulMonad Transaction :=
  LawfulMonad.mk' Transaction bind_done (fun _ _ => rfl) bind_assoc

/-- A transaction after another runs on the store that the first one leaves. -/
theorem run_bind {σ : Type} [ByteStore σ] (t : Transaction α) (f : α → Transaction β) (store : σ) :
    (t >>= f).run store = t.run store >>= fun r => (f r.1).run r.2 := by
  show (t.bind f).run store = _
  induction t generalizing store with
  | done value => rfl
  | abort failure => rfl
  | get key next ih =>
    simp only [Transaction.bind, run]
    split
    · exact ih _ _
    · rfl
  | scan beginning next ih =>
    simp only [Transaction.bind, run]
    split
    · exact ih _ _
    · rfl
  | write w next ih =>
    simp only [Transaction.bind, run]
    split
    · exact ih _
    · rfl

end Transaction

end AuthoritySet
