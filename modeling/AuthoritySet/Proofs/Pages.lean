import AuthoritySet.Proofs.Genesis
import AuthoritySet.Proofs.StoredRegistry
import AuthoritySet.Service.Queries

/-!
# Pages of the registry

The pages of a registry whose records can all be read cut it into slices of one size, the last one
shorter. Nothing else is asked of the store.

* `Service.validators_eq_slice`: a page is a slice of the registry.
* `Service.firstPages_eq`: some pages from the first on, put together, are a beginning of it.
* `Service.validators_partition`: the pages up to the first empty one make up the registry.
-/

namespace AuthoritySet

open ByteStore Transaction

/-- The number of entries on a page that a limit stands for. -/
def Params.perPage (p : Params) (limit : UInt32) : Nat :=
  if limit = 0 then p.maxValidators.toNat else limit.toNat

namespace Params

theorem perPage_lt (p : Params) (limit : UInt32) : p.perPage limit < UInt32.size := by
  have hseats : p.maxValidators.toNat < 2 ^ 16 := p.maxValidators.toNat_lt
  have hlimit : limit.toNat < UInt32.size := limit.toNat_lt
  rw [perPage]
  split
  · exact Nat.lt_trans hseats (by decide)
  · exact hlimit

/-- Where a page starts is computed in 64 bits, whatever the page and the limit are. -/
theorem start_lt (p : Params) (number limit : UInt32) :
    (number.toNat - 1) * p.perPage limit < UInt64.size := by
  have hnumber : number.toNat < UInt32.size := number.toNat_lt
  calc (number.toNat - 1) * p.perPage limit
      ≤ UInt32.size * p.perPage limit := Nat.mul_le_mul_right _ (by omega)
    _ < UInt32.size * UInt32.size := Nat.mul_lt_mul_of_pos_left (p.perPage_lt limit) (by decide)
    _ = UInt64.size := by decide

theorem toNat_start (p : Params) {number : UInt32} (limit : UInt32) (h : number ≠ 0) :
    ((number.toUInt64 - 1) * .ofNat (p.perPage limit)).toNat =
      (number.toNat - 1) * p.perPage limit := by
  have hsize : p.perPage limit < UInt64.size := Nat.lt_trans (p.perPage_lt limit) (by decide)
  have hone : (1 : UInt64) ≤ number.toUInt64 := by
    rw [UInt64.le_iff_toNat_le, UInt32.toNat_toUInt64]
    exact Nat.one_le_iff_ne_zero.mpr fun hzero => h (UInt32.toNat_inj.mp hzero)
  rw [UInt64.toNat_mul, UInt64.toNat_sub_of_le _ _ hone, UInt32.toNat_toUInt64,
    UInt64.toNat_ofNat_of_lt' hsize]
  exact Nat.mod_eq_of_lt (p.start_lt number limit)

end Params

/-- If a function succeeds on all items, mapping it succeeds. -/
theorem mapM_eq_ok {α β ε : Type} {f : α → Except ε β} {g : α → β} {items : List α}
    (h : ∀ item ∈ items, f item = .ok (g item)) : items.mapM f = .ok (items.map g) := by
  induction items with
  | nil => rfl
  | cons item rest ih =>
    rw [List.forall_mem_cons] at h
    rw [List.mapM_cons, h.1, ih h.2]
    rfl

/-- Slices of one size, put together, are a beginning of the list. -/
theorem flatten_slices {α : Type} (items : List α) (size n : Nat) :
    ((List.range n).map fun i => (items.drop (i * size)).take size).flatten =
      items.take (n * size) := by
  induction n with
  | zero => simp
  | succ n ih =>
    rw [List.range_succ, List.map_append, List.flatten_append, ih, Nat.succ_mul, List.take_add]
    simp

namespace Service

variable {σ : Type} [ByteStore σ] [Transparent σ] {s : Service σ} {params : Params}
  {number limit : UInt32}

/-- The entries that come after so many pages of one size, and are on the next. -/
def slice (s : Service σ) (size before : Nat) : List Validator :=
  (s.seated.drop (before * size)).take size

/-- Some pages from the first one on, put together. -/
def firstPages (s : Service σ) (limit : UInt32) (n : Nat) : Except Failure (List Validator) :=
  ((List.range n).mapM fun i => s.validators (.ofNat (i + 1)) limit).map List.flatten

theorem run_pageSize_of_params (h : limit = 0 → s.params = .ok params) :
    (pageSize limit).run (Transparent.contents s.store) =
      .ok (params.perPage limit, Transparent.contents s.store) := by
  rw [pageSize, run_ite, Params.perPage]
  by_cases hzero : limit = 0
  · have hrun := Registry.run_params ((view_transparent s Registry.params).symm.trans (h hzero))
    rw [if_pos hzero, if_pos hzero, run_bind_of_ok hrun]
    rfl
  · rw [if_neg hzero, if_neg hzero]
    rfl

/-- A page is a slice of the registry. -/
theorem validators_eq_slice (h : (Transparent.contents s.store).Readable)
    (hparams : limit = 0 → s.params = .ok params) (hnumber : number ≠ 0) :
    s.validators number limit = .ok (s.slice (params.perPage limit) (number.toNat - 1)) := by
  have hentries : Registry.entries.run (Transparent.contents s.store) =
      .ok (s.seated.map .ok, Transparent.contents s.store) := Registry.run_entries h
  rw [validators, if_neg hnumber, view_transparent, run_bind_of_ok (run_pageSize_of_params hparams),
    run_bind_of_ok hentries, page, ← List.map_drop, ← List.map_take,
    Ledger.mapM_id_map_ok (fun v : Validator => v), List.map_id']
  rfl

theorem validators_succ (h : (Transparent.contents s.store).Readable)
    (hparams : limit = 0 → s.params = .ok params) {n : Nat} (hn : n + 1 < UInt32.size) :
    s.validators (.ofNat (n + 1)) limit = .ok (s.slice (params.perPage limit) n) := by
  have hnumber : (UInt32.ofNat (n + 1)).toNat = n + 1 := UInt32.toNat_ofNat_of_lt' hn
  have hpositive : UInt32.ofNat (n + 1) ≠ 0 := fun hzero => by
    rw [hzero] at hnumber
    cases hnumber
  rw [validators_eq_slice h hparams hpositive, hnumber, Nat.add_sub_cancel]

/-- The first pages, put together, are a beginning of the registry. -/
theorem firstPages_eq (h : (Transparent.contents s.store).Readable)
    (hparams : limit = 0 → s.params = .ok params) {n : Nat} (hn : n < UInt32.size) :
    s.firstPages limit n = .ok (s.seated.take (n * params.perPage limit)) := by
  have hpages : (List.range n).mapM (fun i => s.validators (.ofNat (i + 1)) limit) =
      .ok ((List.range n).map (s.slice (params.perPage limit))) :=
    mapM_eq_ok fun i hi => by
      have hi := List.mem_range.mp hi
      exact validators_succ h hparams (by omega)
  rw [firstPages, hpages, ← flatten_slices]
  rfl

/-- A page is empty exactly if the pages before it hold the whole registry. -/
theorem validators_succ_eq_nil_iff (h : (Transparent.contents s.store).Readable)
    (hparams : limit = 0 → s.params = .ok params) (hsize : 0 < params.perPage limit) {n : Nat}
    (hn : n + 1 < UInt32.size) : s.validators (.ofNat (n + 1)) limit = .ok [] ↔
      s.seated.length ≤ n * params.perPage limit := by
  rw [validators_succ h hparams hn, Except.ok.injEq, slice, List.take_eq_nil_iff,
    List.drop_eq_nil_iff]
  exact or_iff_right (Nat.pos_iff_ne_zero.mp hsize)

/-- **Pages partition the registry.** Of the store nothing is asked but that the registry's records
can be read. The page before the first one is empty; every other page is the slice of the registry
that starts where 64 bits say. The pages before an empty one are together the whole registry, every
record of the store once and in the strictly ascending order of the keys, which is that of the
operators if each record stands under its own one's; and a page is empty as soon as the registry is
used up. -/
theorem validators_partition (h : (Transparent.contents s.store).Readable)
    (hparams : limit = 0 → s.params = .ok params) (hsize : 0 < params.perPage limit) :
    s.validators 0 limit = .ok [] ∧
    (∀ number ≠ 0,
      s.validators number limit = .ok (s.slice (params.perPage limit) (number.toNat - 1)) ∧
      (number.toNat - 1) * params.perPage limit < UInt64.size ∧
      ((number.toUInt64 - 1) * .ofNat (params.perPage limit)).toNat =
        (number.toNat - 1) * params.perPage limit) ∧
    (∀ n, n + 1 < UInt32.size →
      s.firstPages limit n = .ok (s.seated.take (n * params.perPage limit)) ∧
      (s.validators (.ofNat (n + 1)) limit = .ok [] ↔
        s.seated.length ≤ n * params.perPage limit) ∧
      (s.validators (.ofNat (n + 1)) limit = .ok [] → s.firstPages limit n = .ok s.seated)) ∧
    ((Transparent.contents s.store).startingWith Section.validators.beginning).Pairwise
      (fun a b => a.1 < b.1) ∧
    ((Transparent.contents s.store).startingWith Section.validators.beginning).map
      (fun e => Record.decode e.2) = s.seated.map .ok ∧
    ((Transparent.contents s.store).Keyed →
      s.seated.Pairwise fun v w => v.operator < w.operator) := by
  refine ⟨if_pos rfl, fun number hnumber => ⟨validators_eq_slice h hparams hnumber,
    params.start_lt number limit, params.toNat_start limit hnumber⟩, fun n hn => ?_,
    ?_, h.startingWith_eq, Contents.Keyed.ascending_seated⟩
  · have hpages := firstPages_eq h hparams (Nat.lt_of_succ_lt hn)
    have hempty := validators_succ_eq_nil_iff h hparams hsize hn
    refine ⟨hpages, hempty, fun hnil => ?_⟩
    rw [hpages, List.take_of_length_le (hempty.mp hnil)]
  · rw [Table.startingWith_eq_filter]
    exact Table.ascending _ |>.filter _

/-- Three validators and two seats, so that pages of the usual size hold two. The third page is
empty, and the first two are the registry. -/
theorem validators_partition_three :
    let params : Params := { maxValidators := 2 }
    let s : Service Contents :=
      { store := .ofRecords params [.uniform 3 1, .uniform 1 2, .uniform 2 3] }
    (Transparent.contents s.store).Readable ∧ (0 = (0 : UInt32) → s.params = .ok params) ∧
    0 < params.perPage 0 ∧ s.validators 2 0 = .ok [.uniform 3 1] ∧
    s.firstPages 0 2 = .ok [.uniform 1 2, .uniform 2 3, .uniform 3 1] := by
  intro params s
  have hread : (Transparent.contents s.store).Readable := by decide +kernel
  have hparams : s.params = .ok params := by decide +kernel
  have hseated : s.seated = [.uniform 1 2, .uniform 2 3, .uniform 3 1] := by decide +kernel
  obtain ⟨-, hpage, hpages, -⟩ := validators_partition hread (fun _ => hparams)
    (show 0 < params.perPage 0 by decide)
  obtain ⟨-, hempty, hwhole⟩ := hpages 2 (by decide)
  refine ⟨hread, fun _ => hparams, by decide, ?_, ?_⟩
  · rw [(hpage 2 (by decide)).1, slice, hseated]
    rfl
  · rw [hwhole (hempty.mpr (by rw [hseated]; decide)), hseated]

end Service

end AuthoritySet
