import AuthoritySet.Proofs.Table
import AuthoritySet.Service.Basic

/-!
# Overlays are transparent

A store is transparent (`ByteStore.Transparent`) if it never fails and does with its contents what
its operations say. Contents are, and an overlay above a transparent store is: it behaves as the
contents that its collected changes would leave (`Overlay.contents`).

* `Transaction.run_transparent`: a transaction runs on a transparent store as on its contents.
* `Service.exists_of_commit`: what a step that is committed has done.
* `Service.commit_transparent`: a step leaves the contents that it would leave if it worked on them
  directly. `Service.commit_eq` says the same of contents, with the whole service.
* `Service.view_transparent`, `Service.view_eq`: what is read is what the contents hold.
-/

namespace AuthoritySet

/-- Stores that never fail and are nothing but their contents. -/
class ByteStore.Transparent (σ : Type) [ByteStore σ] where
  contents : σ → Contents
  get_eq (store : σ) (key : Bytes) :
    ByteStore.get store key = .ok ((contents store).get? key)
  scan_eq (store : σ) (beginning : Bytes) :
    ByteStore.scan store beginning = .ok ((contents store).startingWith beginning)
  contains_eq (store : σ) (key : Bytes) :
    ByteStore.contains store key = .ok ((contents store).contains key)
  change_eq (store : σ) (w : Write) : ∃ after, Transaction.change store w = .ok after ∧
    contents after = (contents store).write w
  apply_eq (store : σ) (writes : List Write) : ∃ after, ByteStore.apply store writes = .ok after ∧
    contents after = (contents store).writeAll writes

open ByteStore

instance : Transparent Contents where
  contents := id
  get_eq _ _ := rfl
  scan_eq _ _ := rfl
  contains_eq _ _ := rfl
  change_eq _ w := by cases w <;> exact ⟨_, rfl, rfl⟩
  apply_eq _ _ := ⟨_, rfl, rfl⟩

/-! ## Collected changes -/

namespace Contents

/-- The value of a key after a change. -/
theorem get?_write_ofEntry (c : Contents) (e : Bytes × Option Bytes) (key : Bytes) :
    (c.write (Write.ofEntry e)).get? key = if key = e.1 then e.2 else c.get? key := by
  obtain ⟨k, _ | v⟩ := e <;> simp [write, Write.ofEntry]

private theorem get?_foldl_write {l : List (Bytes × Option Bytes)}
    (h : l.Pairwise fun a b => a.1 < b.1) (c : Contents) (key : Bytes) :
    (writeAll c (l.map Write.ofEntry)).get? key =
      (Table.lookupEntry key l).getD (c.get? key) := by
  induction l generalizing c with
  | nil => rfl
  | cons e rest ih =>
    rw [List.pairwise_cons] at h
    have hstep : writeAll c ((e :: rest).map Write.ofEntry) =
        writeAll (c.write (Write.ofEntry e)) (rest.map Write.ofEntry) := rfl
    rw [hstep, ih h.2, get?_write_ofEntry, Table.lookupEntry]
    by_cases hk : key = e.1
    · -- the keys ascend, so that no later change is about this one
      have hnone : Table.lookupEntry key rest = none := by
        refine Table.get?_eq_none_iff (t := ⟨rest, h.2⟩).mpr fun v hv => ?_
        exact Std.lt_irrefl (hk ▸ h.1 _ hv)
      simp [hk, hk ▸ hnone]
    · simp [hk]

/-- After the changes of a table each key has its value there, if it has one, and else the value
that it had. -/
theorem get?_writeAll (c : Contents) (t : Table Bytes (Option Bytes)) (key : Bytes) :
    (c.writeAll (t.entries.map Write.ofEntry)).get? key = (t.get? key).getD (c.get? key) :=
  get?_foldl_write t.ascending c key

end Contents

namespace Overlay

variable {σ : Type} [ByteStore σ] [Transparent σ]

/-- What an overlay shows: the contents below it with the collected changes carried out. -/
def contents (o : Overlay σ) : Contents := (Transparent.contents o.base).writeAll o.writes

theorem get?_contents (o : Overlay σ) (key : Bytes) :
    o.contents.get? key = (o.pending.get? key).getD ((Transparent.contents o.base).get? key) :=
  Contents.get?_writeAll _ _ _

theorem contents_write (o : Overlay σ) (w : Write) : (o.write w).contents = o.contents.write w :=
  Table.ext_get? fun key => by
    cases w with
    | put k v =>
      by_cases hk : key = k <;> simp [get?_contents, write, Contents.write, hk]
    | delete k =>
      by_cases hk : key = k <;> simp [get?_contents, write, Contents.write, hk]

omit [ByteStore σ] [Transparent σ] in
theorem base_write (o : Overlay σ) (w : Write) : (o.write w).base = o.base := by
  cases w <;> rfl

/-- Putting the changes of some keys over the pairs below gives the pairs that the overlay
shows. -/
theorem merge_eq (o : Overlay σ) (beginning : Bytes) :
    (merge ((Transparent.contents o.base).startingWith beginning)
      (o.pending.startingWith beginning)).entries = o.contents.startingWith beginning := by
  rw [Table.startingWith_eq_entries o.contents]
  congr 1
  apply Table.ext_get?
  intro key
  rw [Table.startingWith_eq_entries, Table.startingWith_eq_entries, merge, Table.ofList_entries,
    ← List.foldl_map (g := Contents.write) (f := Write.ofEntry)]
  refine (Contents.get?_writeAll _ _ key).trans ?_
  simp only [Table.get?_filterMap, get?_contents]
  by_cases hstart : beginning.isPrefixOf key = true
  · simp [hstart]
  · simp [hstart]

theorem get_eq (o : Overlay σ) (key : Bytes) :
    ByteStore.get o key = .ok (o.contents.get? key) := by
  simp only [ByteStore.get]
  rw [get?_contents]
  cases o.pending.get? key with
  | some staged => rfl
  | none => exact Transparent.get_eq o.base key

instance : Transparent (Overlay σ) where
  contents := contents
  get_eq := get_eq
  contains_eq o key := by
    show (ByteStore.get o key).map (·.isSome) = _
    rw [get_eq]
    rfl
  scan_eq o beginning := by
    simp only [ByteStore.scan]
    rw [Transparent.scan_eq o.base beginning, ← merge_eq o beginning]
    rfl
  change_eq o w := by
    cases w with
    | put key value => exact ⟨_, rfl, contents_write o _⟩
    | delete key => exact ⟨_, rfl, contents_write o _⟩
  apply_eq o writes := by
    refine ⟨_, rfl, ?_⟩
    induction writes generalizing o with
    | nil => rfl
    | cons w rest ih =>
      rw [List.foldl_cons, ih, contents_write]
      rfl

end Overlay

/-! ## Transactions -/

namespace Transaction

variable {σ α : Type} [ByteStore σ] [Transparent σ]

/-- A transaction runs on a transparent store as on its contents. -/
theorem run_transparent (t : Transaction α) (store : σ) :
    (t.run store).map (fun r => (r.1, Transparent.contents r.2)) =
      t.run (Transparent.contents store) := by
  induction t generalizing store with
  | done value => rfl
  | abort failure => rfl
  | get key next ih =>
    simp only [run, Transparent.get_eq]
    exact ih _ store
  | scan beginning next ih =>
    simp only [run, Transparent.scan_eq]
    exact ih _ store
  | write w next ih =>
    obtain ⟨after, hchange, hcontents⟩ := Transparent.change_eq store w
    have hdirect : change (Transparent.contents store) w =
        .ok ((Transparent.contents store).write w) := by cases w <;> rfl
    simp only [run, hchange, hdirect]
    rw [ih after, hcontents]

/-- A transaction does not touch the store below the overlay it runs on. -/
theorem base_run {t : Transaction α} {o o' : Overlay σ} {value : α}
    (h : t.run o = .ok (value, o')) : o'.base = o.base := by
  induction t generalizing o with
  | done value => cases h; rfl
  | abort failure => cases h
  | get key next ih =>
    rw [run, Transparent.get_eq] at h
    exact ih _ h
  | scan beginning next ih =>
    rw [run, Transparent.scan_eq] at h
    exact ih _ h
  | write w next ih =>
    have hchange : change o w = .ok (o.write w) := by cases w <;> rfl
    rw [run, hchange] at h
    rw [ih h, Overlay.base_write]

end Transaction

/-! ## Steps of a service -/

namespace Service

section Transparent

variable {σ α : Type} [ByteStore σ] [Transparent σ]

/-- Above a transparent store a step leaves the contents that its transaction leaves. -/
theorem commit_transparent (s : Service σ) (t : Transaction α) :
    (s.commit t).map (fun r => (r.1, Transparent.contents r.2.store)) =
      t.run (Transparent.contents s.store) := by
  have hrun : _ = t.run (Transparent.contents s.store) :=
    Transaction.run_transparent t (Overlay.above s.store)
  rw [commit, ← hrun]
  cases h : t.run (Overlay.above s.store) with
  | error failure => rfl
  | ok r =>
    obtain ⟨value, o⟩ := r
    have hbase : o.base = s.store := Transaction.base_run h
    have hcontents : Transparent.contents o = (Transparent.contents s.store).writeAll o.writes := by
      rw [← hbase]; rfl
    simp only [bind, Except.bind, Except.map, hcontents]
    by_cases hwrites : o.writes = []
    · rw [hwrites]; rfl
    · obtain ⟨after, happly, hafter⟩ := Transparent.apply_eq s.store o.writes
      rw [if_neg hwrites, happly, ← hafter]; rfl

omit [Transparent σ] in
/-- A step that is committed has written what its transaction staged, if that is anything. -/
theorem exists_of_commit {s after : Service σ} {t : Transaction α} {value : α}
    (h : s.commit t = .ok (value, after)) : ∃ o, t.run (Overlay.above s.store) = .ok (value, o) ∧
      (o.writes = [] ∧ after = s ∨ o.writes ≠ [] ∧
        ∃ store, ByteStore.apply s.store o.writes = .ok store ∧ after = { s with store }) := by
  rw [commit] at h
  cases hrun : t.run (Overlay.above s.store) with
  | error failure => rw [hrun] at h; cases h
  | ok r =>
    obtain ⟨value', o⟩ := r
    rw [hrun] at h
    simp only [bind, Except.bind] at h
    split at h
    · rename_i hnone
      cases h
      exact ⟨o, rfl, .inl ⟨hnone, rfl⟩⟩
    · rename_i hsome
      cases happly : ByteStore.apply s.store o.writes with
      | error failure => rw [happly] at h; cases h
      | ok store =>
        rw [happly] at h
        cases h
        exact ⟨o, rfl, .inr ⟨hsome, store, happly, rfl⟩⟩

omit [Transparent σ] in
/-- A step changes the store alone. -/
theorem commit_frame {s after : Service σ} {t : Transaction α} {value : α}
    (h : s.commit t = .ok (value, after)) : after = { s with store := after.store } := by
  obtain ⟨o, -, ⟨-, rfl⟩ | ⟨-, store, -, rfl⟩⟩ := exists_of_commit h
  · rfl
  · rfl

omit [Transparent σ] in
/-- A step whose transaction changes nothing leaves the service as it is and writes nothing. -/
theorem commit_of_unchanged {s : Service σ} {t : Transaction α} {value : α}
    (h : t.run (Overlay.above s.store) = .ok (value, .above s.store)) :
    s.commit t = .ok (value, s) := by
  rw [commit, h]
  rfl

/-- What a transaction reads above a transparent store is what it reads of the contents. -/
theorem view_transparent (s : Service σ) (t : Transaction α) :
    s.view t = (t.run (Transparent.contents s.store)).map Prod.fst := by
  have hrun : _ = t.run (Transparent.contents s.store) :=
    Transaction.run_transparent t (Overlay.above s.store)
  rw [view, ← hrun]
  cases t.run (Overlay.above s.store) <;> rfl

end Transparent

variable {α : Type}

/-- A step leaves the contents that its transaction leaves, and nothing new if it fails. -/
theorem commit_eq (s : Service Contents) (t : Transaction α) :
    s.commit t = (t.run s.store).map fun r => (r.1, { s with store := r.2 }) := by
  have hrun : _ = t.run s.store := commit_transparent s t
  rw [← hrun]
  cases h : s.commit t with
  | error failure => rfl
  | ok r =>
    obtain ⟨value, after⟩ := r
    show _ = Except.ok (value, { s with store := after.store })
    rw [← commit_frame h]

/-- What a transaction reads above contents is what it reads of the contents themselves. -/
theorem view_eq (s : Service Contents) (t : Transaction α) :
    s.view t = (t.run s.store).map Prod.fst :=
  view_transparent s t

end Service

end AuthoritySet
