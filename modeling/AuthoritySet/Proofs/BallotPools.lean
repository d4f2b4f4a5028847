import AuthoritySet.Proofs.Commutation
import AuthoritySet.Proofs.Quorum

/-!
# The pools of open ballots

Whatever is done to a running set, the ballots in its two pools stand under the operators that they
are about and are in order (`Ballot.InOrder`): the votes on them are those of different voters, and
nobody votes on its own expulsion. The index of the applications lists their consensus addresses, and
nothing else. None of this asks for distinct identities, so it holds also where somebody is seated
past an open application.

* `Ledger.Impartial.act`: nobody gets a vote on its own expulsion.
* `Ledger.Sound.ballot_inOrder`: ballots are in order.
* `Service.pools_inOrder`: what stands in the pools and in the index, at the end of any run.
-/

namespace AuthoritySet

/-- A ballot has one vote of each of its voters, some of them approvals, and its subject has no vote
on its own expulsion. -/
structure Ballot.InOrder (b : Ballot) (kind : Ballot.Kind) : Prop where
  voters_nodup : b.voters.Nodup
  total_eq : b.total.toNat = b.voters.length
  approvals_le : b.approvals ≤ b.total
  impartial : kind = .kickProposal → b.subject.operator ∉ b.voters

/-- The pool of a kind holds a ballot on an operator. -/
def Service.Pools (s : Service Contents) (kind : Ballot.Kind) (operator : OperatorAddress)
    (b : Ballot) : Prop :=
  s.view (Registry.ballot? kind operator) = .ok (some b)

/-- Every pair in a pool is a ballot in order under the operator that it is about, and the pairs in
the index of the applications are those of their consensus addresses and operators. So an address
leads to the one application that has it, if there is one. -/
structure Service.PoolsInOrder (s : Service Contents) : Prop where
  pooled {kind : Ballot.Kind} {key value : Bytes} :
    (key, value) ∈ s.store.startingWith (Section.ballots kind).beginning →
      ∃ b : Ballot, Record.decode value = .ok b ∧
        key = (Section.ballots kind).key b.subject.operator ∧
        s.Pools kind b.subject.operator b ∧ b.InOrder kind
  indexed {key value : Bytes} :
    (key, value) ∈ s.store.startingWith Section.applicationIndex.beginning ↔
      ∃ operator b, s.Pools .application operator b ∧
        key = Section.applicationIndex.key b.subject.address ∧ value = operator.bytes
  distinct {operator operator' : OperatorAddress} {b b' : Ballot} :
    s.Pools .application operator b → s.Pools .application operator' b' →
      b.subject.address = b'.subject.address → operator = operator'
  found (address : ConsensusAddress) :
    ∃ found, s.view (Registry.applicationAt? address) = .ok found ∧
      ∀ b, found = some b ↔ ∃ operator, s.Pools .application operator b ∧
        b.subject.address = address

namespace Ledger

variable {l : Ledger} {kind : Ballot.Kind} {operator : OperatorAddress} {b : Ballot}

/-- Nobody has a vote on its own expulsion. -/
def Impartial (l : Ledger) : Prop :=
  ∀ operator b, l.kickProposals.get? operator = some b → operator ∉ b.voters

/-- Acts give nobody a vote on its own expulsion. -/
theorem Impartial.act (h : l.Impartial) (hl : l.Sound) (a : Act) : (l.act a).2.Impartial := by
  intro operator b hb
  have hb : ((l.act a).2.ballots .kickProposal).get? operator = some b := hb
  cases hl.ballotChange_act a hb with
  | opened => exact List.not_mem_nil
  | @voted voter approve before after _ wasOpen cast _ other =>
    rw [Ballot.voters_cast cast, List.mem_append, List.mem_singleton]
    rintro (hvoted | rfl)
    · exact h operator before wasOpen hvoted
    · exact other rfl rfl
  | kept _ wasOpen => exact h operator b wasOpen

/-- The ballots of a sound ledger are in order where nobody votes on its own expulsion. -/
theorem Sound.ballot_inOrder (hl : l.Sound) (h : l.Impartial)
    (hb : (l.ballots kind).get? operator = some b) : b.InOrder kind := by
  have htallied := hl.tallied hb
  refine ⟨htallied.voters_nodup, htallied.total_eq, ?_, fun hkind => ?_⟩
  · rw [UInt64.le_iff_toNat_le, htallied.total_eq]
    exact htallied.approvals_le
  · subst hkind
    rw [hl.ballot_keyed hb]
    exact h operator b hb

/-- What stands in the index of the applications. -/
theorem ApplicationsIndexed.mem_part_iff (h : l.ApplicationsIndexed) {key value : Bytes} :
    (key, value) ∈ l.part .applicationIndex ↔
      ∃ operator b, l.applications.get? operator = some b ∧
        key = Section.applicationIndex.key b.subject.address ∧ value = operator.bytes := by
  simp only [mem_part, value?, valueAt_eq_some_iff]
  constructor
  · rintro ⟨_, rfl, address, operator, rfl, hindex, rfl⟩
    obtain ⟨b, hb, rfl⟩ := (h address operator).mp hindex
    exact ⟨operator, b, hb, rfl, rfl⟩
  · rintro ⟨operator, b, hb, rfl, rfl⟩
    exact ⟨_, rfl, _, operator, rfl, (h _ operator).mpr ⟨b, hb, rfl⟩, rfl⟩

end Ledger

namespace Service

variable {s s₀ : Service Contents} {l : Ledger}

theorem Holds.pools_iff (h : s.Holds l) {kind : Ballot.Kind} {operator : OperatorAddress}
    {b : Ballot} : s.Pools kind operator b ↔ (l.ballots kind).get? operator = some b := by
  rw [Pools, h.view_eq (Ledger.run_ballot? h.sound.legible kind operator), Except.ok.injEq]

/-- The pools of a service are in order if its applications are indexed and nobody votes on its own
expulsion. -/
theorem Holds.poolsInOrder (h : s.Holds l) (hi : l.ApplicationsIndexed) (hp : l.Impartial) :
    s.PoolsInOrder where
  pooled {kind key value} hpair := by
    rw [h.store_eq, Ledger.startingWith_contents, Ledger.mem_part_ballots] at hpair
    obtain ⟨operator, b, hb, rfl, rfl⟩ := hpair
    have hkeyed := h.sound.ballot_keyed hb
    exact ⟨b, (h.sound.legible.readsBack hb).decode, by rw [hkeyed],
      h.pools_iff.mpr (hkeyed.symm ▸ hb), h.sound.ballot_inOrder hp hb⟩
  indexed {key value} := by
    rw [h.store_eq, Ledger.startingWith_contents, hi.mem_part_iff]
    simp only [h.pools_iff]
    rfl
  distinct hb hb' := hi.operator_eq (h.pools_iff.mp hb) (h.pools_iff.mp hb')
  found address := by
    refine ⟨_, h.view_eq (Ledger.run_applicationAt? h.sound.legible address), fun b => ?_⟩
    simp only [h.pools_iff]
    exact hi.find_eq_some_iff

/-- **Pools in order.** At the end of any run of a set, both pools hold ballots in order under the
operators that they are about, and the index of the applications is the inverse of their pool. -/
theorem pools_inOrder {g : Genesis} {updates : List PowerUpdate} (hempty : s.store = .empty)
    (hstart : s.initialise g = .ok (updates, s₀)) (acts : List Act) :
    (s₀.finish acts).PoolsInOrder := by
  have hfounded : (({} : Ledger).establish g).2.Impartial := by
    intro operator b hb
    have hnone := Ledger.get?_ballots_establish operator .kickProposal g
    cases hnone.symm.trans hb
  have hend : ∃ l, (s₀.finish acts).Holds l ∧ l.ApplicationsIndexed ∧ l.Impartial :=
    (holds_initialise hempty hstart).keeps (G := fun _ => True)
      (fun a hl hinv _ => ⟨hinv.1.act hl.sound a, hinv.2.act hl.sound a⟩)
      ⟨.establish g, hfounded⟩ fun _ _ => trivial
  obtain ⟨l, h, hi, hp⟩ := hend
  exact h.poolsInOrder hi hp

/-- Somebody is seated at once past its own application, which is then approved. After that somebody
applies, and a kick proposal is opened; both ballots get a vote. -/
def seatPast : List Act :=
  [.handle (.submitApplication (.uniform 2 2)),
   .setParams { quorum := 0 },
   .handle (.submitApplication (.uniform 2 3)),
   .handle (.submitApplication (.uniform 4 4)),
   .setParams { quorum := 30 },
   .handle (.voteApplication (Validator.uniform 1 1).operator (Validator.uniform 2 2).operator
     true),
   .setParams { quorum := 100 },
   .handle (.submitApplication (.uniform 5 5)),
   .handle (.voteApplication (Validator.uniform 1 1).operator (Validator.uniform 5 5).operator
     true),
   .handle (.proposeKick (Validator.uniform 2 2).operator (Validator.uniform 1 1).operator),
   .handle (.voteKickProposal (Validator.uniform 4 4).operator (Validator.uniform 2 2).operator
     true)]

theorem pools_inOrder_seatPast : ((founded .lone).finish seatPast).PoolsInOrder ∧
    ((founded .lone).finish seatPast).Pools .application (Validator.uniform 5 5).operator
      ⟨.uniform 5 5, 1, 1, [(Validator.uniform 1 1).operator]⟩ ∧
    ((founded .lone).finish seatPast).Pools .kickProposal (Validator.uniform 2 2).operator
      ⟨.uniform 2 2, 1, 1, [(Validator.uniform 4 4).operator]⟩ := by
  refine ⟨pools_inOrder rfl (initialise_founded (by decide)) seatPast, ?_, ?_⟩
  · rw [Pools]
    decide +kernel
  · rw [Pools]
    decide +kernel

end Service

end AuthoritySet
