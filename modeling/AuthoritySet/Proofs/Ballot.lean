import AuthoritySet.Ballot
import Mathlib.Algebra.Group.Nat.Defs

/-!
# Tallies

A ballot carries a list of voters and two numbers. It is counted (`Ballot.Counted`) if its total is
the number of its voters, and tallied (`Ballot.Tallied`) if the numbers say what the list says and
sixteen bits are enough for them.

* `Ballot.cast?_eq_some_iff`: who may vote, and what a vote adds.
* `Ballot.total_le_of_verdict`: a verdict is only reached among at least as many voters as voted,
  and a pending one only among more (`Ballot.total_lt_of_pending`).
* `Ballot.necessary_le_of_approved`: an approval rests on the approvals that are asked for.
* `Ballot.verdict_start`: a ballot starts pending, if there are voters and a quorum.
* `Ballot.Lasting`: properties that ballots have as long as they are open; both of the above are.
* `Ballot.Reflects`: a ballot has the numbers and the voters of some votes.
-/

namespace AuthoritySet

namespace Ballot

variable {b after : Ballot} {voter : OperatorAddress} {approve : Bool}

/-- The total of a ballot is the number of its voters, and one more can be counted. -/
structure Counted (b : Ballot) : Prop where
  total_eq : b.total.toNat = b.voters.length
  voters_succ_lt : b.voters.length + 1 < 2 ^ 64

/-- The numbers of a ballot agree with its voters. -/
structure Tallied (b : Ballot) : Prop where
  voters_nodup : b.voters.Nodup
  total_eq : b.total.toNat = b.voters.length
  approvals_le : b.approvals.toNat ≤ b.voters.length
  voters_lt : b.voters.length < 2 ^ 16

theorem Counted.start (subject : Validator) : (Ballot.start subject).Counted :=
  ⟨rfl, by simp [Ballot.start]⟩

theorem Tallied.start (subject : Validator) : (Ballot.start subject).Tallied :=
  ⟨List.nodup_nil, rfl, Nat.le_refl _, by simp [Ballot.start]⟩

theorem Tallied.counted (hb : b.Tallied) : b.Counted :=
  ⟨hb.total_eq, Nat.lt_trans (Nat.succ_lt_succ hb.voters_lt) (by decide)⟩

/-! ## Votes -/

theorem cast?_eq_some_iff : b.cast? voter approve = some after ↔
    voter ∉ b.voters ∧ after = { b with
      approvals := if approve then b.approvals + 1 else b.approvals
      total := b.total + 1
      voters := b.voters ++ [voter] } := by
  unfold cast? hasVoted
  by_cases hvoted : voter ∈ b.voters
  · simp [hvoted]
  · simp [hvoted, eq_comm]

theorem notMem_of_cast (h : b.cast? voter approve = some after) : voter ∉ b.voters :=
  (cast?_eq_some_iff.mp h).1

theorem subject_cast (h : b.cast? voter approve = some after) : after.subject = b.subject := by
  obtain ⟨-, rfl⟩ := cast?_eq_some_iff.mp h
  rfl

theorem voters_cast (h : b.cast? voter approve = some after) :
    after.voters = b.voters ++ [voter] := by
  obtain ⟨-, rfl⟩ := cast?_eq_some_iff.mp h
  rfl

theorem Counted.total_cast (hb : b.Counted) (h : b.cast? voter approve = some after) :
    after.total.toNat = b.voters.length + 1 := by
  obtain ⟨-, rfl⟩ := cast?_eq_some_iff.mp h
  have htotal := hb.total_eq
  have hlt := hb.voters_succ_lt
  simp only [UInt64.toNat_add, UInt64.reduceToNat]
  omega

theorem Tallied.approvals_cast (hb : b.Tallied) (h : b.cast? voter approve = some after) :
    after.approvals.toNat = b.approvals.toNat + if approve then 1 else 0 := by
  obtain ⟨-, rfl⟩ := cast?_eq_some_iff.mp h
  have hle := hb.approvals_le
  have hlt := hb.voters_lt
  cases approve with
  | false => rfl
  | true =>
    simp only [if_true, UInt64.toNat_add, UInt64.reduceToNat]
    omega

/-! ## Verdicts -/

theorem total_le_of_verdict {pool quorum : UInt64} {verdict : Verdict}
    (h : b.verdict pool quorum = .ok verdict) : b.total ≤ pool := by
  unfold Ballot.verdict at h
  split at h
  · cases h
  · split at h
    · cases h
    · rename_i hpool
      exact UInt64.not_lt.mp hpool

/-- Only more votes than voters are too many for a verdict. -/
theorem lt_total_of_poolTooSmall {pool quorum few many : UInt64}
    (h : b.verdict pool quorum = .error (.poolTooSmall few many)) : pool < b.total := by
  unfold Ballot.verdict at h
  split at h
  · cases h
  · split at h
    · assumption
    · dsimp only at h
      split at h
      · cases h
      · split at h <;> cases h

/-- As long as a ballot is pending, somebody has not voted. -/
theorem total_lt_of_pending {pool quorum : UInt64} (h : b.verdict pool quorum = .ok .pending) :
    b.total < pool := by
  have hle := UInt64.le_iff_toNat_le.mp (total_le_of_verdict h)
  refine UInt64.lt_iff_toNat_lt.mpr (Nat.lt_of_le_of_ne hle fun hall => ?_)
  obtain rfl : b.total = pool := UInt64.toNat_inj.mp hall
  unfold Ballot.verdict at h
  simp only [UInt64.lt_irrefl, if_false, UInt64.sub_self, UInt64.add_zero] at h
  split at h
  · cases h
  · split at h <;> cases h

theorem necessary_le_of_approved {pool quorum : UInt64}
    (h : b.verdict pool quorum = .ok .approved) : necessaryApprovals pool quorum ≤ b.approvals := by
  unfold Ballot.verdict at h
  split at h
  · cases h
  · split at h
    · cases h
    · dsimp only at h
      split at h
      · assumption
      · split at h <;> cases h

/-- Of at least one and at most 65535 voters, a percentage between one and a hundred asks for at
least one, and for no more than there are. -/
theorem necessaryApprovals_bounds {pool : Nat} {quorum : UInt64} (hpool : 1 ≤ pool)
    (hlt : pool < 2 ^ 16) (hquorum : quorum ≤ 100) (hpositive : quorum ≠ 0) :
    1 ≤ (necessaryApprovals (.ofNat pool) quorum).toNat ∧
      (necessaryApprovals (.ofNat pool) quorum).toNat ≤ pool := by
  have hmost : quorum.toNat ≤ 100 := UInt64.le_iff_toNat_le.mp hquorum
  have hleast : 1 ≤ quorum.toNat :=
    Nat.one_le_iff_ne_zero.mpr fun hzero => hpositive (UInt64.toNat_inj.mp hzero)
  -- the product is at least the pool, and at most a hundred times as much
  have hlow : pool * 1 ≤ pool * quorum.toNat := Nat.mul_le_mul_left pool hleast
  have hhigh : pool * quorum.toNat ≤ pool * 100 := Nat.mul_le_mul_left pool hmost
  have hproduct : (UInt64.ofNat pool * quorum).toNat = pool * quorum.toNat := by
    rw [UInt64.toNat_mul, UInt64.toNat_ofNat_of_lt' (Nat.lt_trans hlt (by decide))]
    exact Nat.mod_eq_of_lt (by omega)
  generalize pool * quorum.toNat = product at hlow hhigh hproduct
  unfold necessaryApprovals
  dsimp only
  split
  · rename_i hexact
    have hexact := congrArg UInt64.toNat hexact
    simp only [UInt64.toNat_mod, hproduct, UInt64.toNat_div, UInt64.reduceToNat] at hexact ⊢
    omega
  · rename_i hinexact
    have hinexact : product % 100 ≠ 0 := fun hexact => hinexact (UInt64.toNat_inj.mp (by
      rw [UInt64.toNat_mod, hproduct]
      exact hexact))
    simp only [UInt64.toNat_add, hproduct, UInt64.toNat_div, UInt64.reduceToNat]
    omega

/-- As long as nobody has voted, a ballot is pending, if there is a voter and a quorum. -/
theorem verdict_start (subject : Validator) {pool : Nat} {quorum : UInt64} (hpool : 1 ≤ pool)
    (hlt : pool < 2 ^ 16) (hquorum : quorum ≤ 100) (hpositive : quorum ≠ 0) :
    (Ballot.start subject).verdict (.ofNat pool) quorum = .ok .pending := by
  obtain ⟨hleast, hmost⟩ := necessaryApprovals_bounds hpool hlt hquorum hpositive
  have hofNat : (UInt64.ofNat pool).toNat = pool :=
    UInt64.toNat_ofNat_of_lt' (Nat.lt_trans hlt (by decide))
  have hnone : (Ballot.start subject).total = 0 ∧ (Ballot.start subject).approvals = 0 := ⟨rfl, rfl⟩
  unfold Ballot.verdict
  rw [hnone.1, hnone.2, if_neg (UInt64.not_lt.mpr hquorum), if_neg (by simp)]
  simp only [UInt64.le_iff_toNat_le, UInt64.sub_zero, UInt64.zero_add, hofNat]
  rw [if_neg (by simp; omega), if_pos hmost]

/-- With a vote that leads to a verdict among at most 65535 voters, the numbers still fit. -/
theorem Tallied.cast {pool : Nat} {quorum : UInt64} {verdict : Verdict} (hb : b.Tallied)
    (h : b.cast? voter approve = some after) (hpool : pool < 2 ^ 16)
    (hverdict : after.verdict (.ofNat pool) quorum = .ok verdict) : after.Tallied := by
  have hvoters := voters_cast h
  have htotal := hb.counted.total_cast h
  have happrovals := hb.approvals_cast h
  have hle : after.total.toNat ≤ pool := by
    have := UInt64.le_iff_toNat_le.mp (total_le_of_verdict hverdict)
    rwa [UInt64.toNat_ofNat_of_lt' (Nat.lt_trans hpool (by decide))] at this
  have hlength : after.voters.length = b.voters.length + 1 := by simp [hvoters]
  refine ⟨?_, by omega, ?_, by omega⟩
  · rw [hvoters]
    refine List.nodup_append.mpr ⟨hb.voters_nodup, List.pairwise_singleton _ _, ?_⟩
    rintro a ha _ hvoter rfl
    exact notMem_of_cast h (List.mem_singleton.mp hvoter ▸ ha)
  · have := hb.approvals_le
    split at happrovals <;> omega

/-! ## While a ballot is open -/

/-- A vote that leaves a ballot open keeps it counted: some number of eight bytes is above its
total. -/
theorem Counted.cast {pool quorum : UInt64} (hb : b.Counted)
    (h : b.cast? voter approve = some after) (hpending : after.verdict pool quorum = .ok .pending) :
    after.Counted := by
  have htotal := hb.total_cast h
  have hlt := UInt64.lt_iff_toNat_lt.mp (total_lt_of_pending hpending)
  have hpool := pool.toNat_lt
  have hlength : after.voters.length = b.voters.length + 1 := by simp [voters_cast h]
  exact ⟨by omega, by omega⟩

/-- A property of open ballots: new ones have it, and it survives votes among at most `most` voters
after which the ballot stays open. -/
structure Lasting (P : Ballot → Prop) (most : Nat) : Prop where
  start (subject : Validator) : P (.start subject)
  cast {b after : Ballot} {voter : OperatorAddress} {approve : Bool} {pool : Nat}
    {quorum : UInt64} : P b → b.cast? voter approve = some after → pool ≤ most →
    after.verdict (.ofNat pool) quorum = .ok .pending → P after

theorem Counted.lasting (most : Nat) : Lasting Counted most where
  start := .start
  cast hb h _ hpending := hb.cast h hpending

theorem Tallied.lasting {most : Nat} (hmost : most < 2 ^ 16) : Lasting Tallied most where
  start := .start
  cast hb h hpool hpending := hb.cast h (Nat.lt_of_le_of_lt hpool hmost) hpending

/-! ## Ballots and votes -/

/-- A ballot has the numbers and the voters of some votes. -/
structure Reflects (b : Ballot) (votes : List (OperatorAddress × Bool)) : Prop where
  voters_eq : b.voters = votes.map (·.1)
  total_eq : b.total.toNat = votes.length
  approvals_eq : b.approvals.toNat = votes.countP (·.2)

namespace Reflects

variable {cast : List (OperatorAddress × Bool)} {vote : OperatorAddress × Bool}

theorem start (subject : Validator) : (Ballot.start subject).Reflects [] := ⟨rfl, rfl, rfl⟩

/-- Who has not voted yet adds a vote. -/
theorem add (hb : b.Reflects cast) (hnew : vote.1 ∉ cast.map (·.1))
    (hcount : cast.length + 1 < 2 ^ 64) : ∃ after, b.cast? vote.1 vote.2 = some after ∧
      after.Reflects (cast ++ [vote]) := by
  obtain ⟨voter, approve⟩ := vote
  have happrovals : cast.countP (·.2) ≤ cast.length := List.countP_le_length
  have htotal := hb.total_eq
  have happroved := hb.approvals_eq
  refine ⟨_, cast?_eq_some_iff.mpr ⟨by rwa [hb.voters_eq], rfl⟩, ?_, ?_, ?_⟩
  · simp [hb.voters_eq]
  · simp only [UInt64.toNat_add, UInt64.reduceToNat, List.length_append, List.length_singleton]
    omega
  · cases approve with
    | false => simpa using happroved
    | true =>
      simp only [if_true, UInt64.toNat_add, UInt64.reduceToNat, List.countP_append,
        List.countP_singleton]
      omega

end Reflects

end Ballot

end AuthoritySet
