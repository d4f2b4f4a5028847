import AuthoritySet.Proofs.Genesis
import Mathlib.Data.List.Induction

/-!
# The fault that a genesis document is refused for

A validator of a document is at fault by its own record, or because its key or its operator stands
before it (`Genesis.AtFault`). A document is refused for the first validator at fault; only where
there is none, it is refused for having too many, and after that for its parameters
(`Genesis.RefusedFor`).

* `Genesis.checkValidators_append`: the check of some validators goes on where the check of those
  before them ended, with their keys and operators.
* `Genesis.exists_atFault`, `Genesis.error_of_atFault`: the first fault is what is reported.
* `Genesis.checks_wellFormed`: which documents are accepted, and what the others are refused for.
-/

namespace AuthoritySet

theorem Params.check_eq_ok_iff {p : Params} :
    p.check = .ok () ↔ 0 < p.maxValidators ∧ p.quorum ≤ 100 := by
  unfold check
  split
  · rename_i hseats
    simp [hseats]
  · rename_i hseats
    have hpos : 0 < p.maxValidators := UInt16.pos_iff_ne_zero.mpr hseats
    split
    · rename_i hquorum
      simp [UInt16.not_le.mpr hquorum]
    · rename_i hquorum
      simp [hpos, UInt16.not_lt.mp hquorum]

namespace Genesis

/-- What is wrong with a validator that stands behind others. What its own record lacks comes
before a key that stands there already, and this before an operator. -/
inductive AtFault (before : List Validator) (v : Validator) : Failure → Prop
  | incomplete {failure : Failure} (hcheck : v.check = .error failure) : AtFault before v failure
  | repeatedKey (hcheck : v.check = .ok ()) (hkey : ∃ w ∈ before, w.key = v.key) :
    AtFault before v (.invalidGenesis (.repeatedKey v.description.moniker.value v.address))
  | repeatedOperator (hcheck : v.check = .ok ()) (hkey : ∀ w ∈ before, w.key ≠ v.key)
    (hoperator : ∃ w ∈ before, w.operator = v.operator) :
    AtFault before v (.invalidGenesis (.repeatedOperator v.operator))

/-- No validator is at fault behind those that stand before it. -/
def Faultless (vs : List Validator) : Prop :=
  ∀ before v after failure, vs = before ++ v :: after → ¬ AtFault before v failure

/-- What a document is refused for. -/
inductive RefusedFor (g : Genesis) : Failure → Prop
  | validator {before after : List Validator} {v : Validator} {failure : Failure}
    (hdocument : g.validators = before ++ v :: after) (hbefore : Faultless before)
    (hfault : AtFault before v failure) : RefusedFor g failure
  | seats (hvalidators : Faultless g.validators)
    (hseats : g.params.maxValidators.toNat < g.validators.length) :
    RefusedFor g
      (.invalidGenesis (.tooManyValidators g.validators.length g.params.maxValidators))
  | params {failure : Failure} (hvalidators : Faultless g.validators)
    (hseats : g.validators.length ≤ g.params.maxValidators.toNat)
    (hparams : g.params.check = .error failure) : RefusedFor g failure

/-- The documents that an authority set may start from. -/
structure WellFormed (g : Genesis) : Prop where
  complete : ∀ v ∈ g.validators, v.check = .ok ()
  keys : (g.validators.map (·.key)).Nodup
  operators : (g.validators.map (·.operator)).Nodup
  seats : g.validators.length ≤ g.params.maxValidators.toNat
  maxValidators_pos : 0 < g.params.maxValidators
  quorum_le : g.params.quorum ≤ 100

variable {g : Genesis} {vs before after : List Validator} {v : Validator} {failure : Failure}

/-! ## The validators -/

/-- Validators are checked against the keys and the operators of all that stand before them. -/
theorem checkValidators_append (keys : List ConsensusKey) (operators : List OperatorAddress)
    (before after : List Validator) :
    checkValidators keys operators (before ++ after) =
      checkValidators keys operators before >>= fun _ =>
        checkValidators ((before.map (·.key)).reverse ++ keys)
          ((before.map (·.operator)).reverse ++ operators) after := by
  induction before generalizing keys operators with
  | nil => rfl
  | cons v before ih =>
    simp only [List.cons_append, checkValidators]
    cases v.check with
    | error failure => rfl
    | ok _ =>
      simp only [bind, Except.bind] at ih ⊢
      split_ifs
      · rfl
      · rfl
      · rw [ih]
        simp

/-- A validator is at fault exactly if the check behind the others stops at it. -/
theorem atFault_iff : AtFault before v failure ↔
    checkValidators (before.map (·.key)).reverse (before.map (·.operator)).reverse [v] =
      .error failure := by
  have hkeys : v.key ∈ (before.map (·.key)).reverse ↔ ∃ w ∈ before, w.key = v.key := by simp
  have hoperators : v.operator ∈ (before.map (·.operator)).reverse ↔
      ∃ w ∈ before, w.operator = v.operator := by simp
  simp only [checkValidators, hkeys, hoperators]
  constructor
  · intro h
    cases h with
    | incomplete hcheck => rw [hcheck]; rfl
    | repeatedKey hcheck hkey => rw [hcheck, if_pos hkey]; rfl
    | repeatedOperator hcheck hkey hoperator =>
      have hnew : ¬ ∃ w ∈ before, w.key = v.key := by
        rintro ⟨w, hw, heq⟩
        exact hkey w hw heq
      rw [hcheck, if_neg hnew, if_pos hoperator]
      rfl
  · intro h
    cases hcheck : v.check with
    | error found =>
      rw [hcheck] at h
      cases h
      exact .incomplete hcheck
    | ok _ =>
      rw [hcheck] at h
      simp only [bind, Except.bind] at h
      split_ifs at h with hkey hoperator
      · cases h
        exact .repeatedKey hcheck hkey
      · cases h
        exact .repeatedOperator hcheck (fun w hw heq => hkey ⟨w, hw, heq⟩) hoperator

/-- What is reported is the fault of a validator behind others that pass. -/
theorem exists_atFault (h : checkValidators [] [] vs = .error failure) :
    ∃ before v after, vs = before ++ v :: after ∧ checkValidators [] [] before = .ok () ∧
      AtFault before v failure := by
  -- from the right, so that the last validator is looked at behind all others
  induction vs using List.reverseRecOn with
  | nil => cases h
  | append_singleton vs last ih =>
    rw [checkValidators_append] at h
    cases hvs : checkValidators [] [] vs with
    | error found =>
      rw [hvs] at h
      cases h
      obtain ⟨before, v, after, rfl, hbefore, hfault⟩ := ih hvs
      exact ⟨before, v, after ++ [last], by simp, hbefore, hfault⟩
    | ok _ =>
      rw [hvs, List.append_nil, List.append_nil] at h
      exact ⟨vs, last, [], rfl, hvs, atFault_iff.mpr h⟩

/-- Behind validators that pass, a fault is reported, whatever comes after it. -/
theorem error_of_atFault (hbefore : checkValidators [] [] before = .ok ())
    (h : AtFault before v failure) :
    checkValidators [] [] (before ++ v :: after) = .error failure := by
  rw [List.append_cons, checkValidators_append, checkValidators_append, hbefore, List.append_nil,
    List.append_nil]
  simp only [bind, Except.bind, atFault_iff.mp h]

/-- Validators pass exactly if none is at fault. -/
theorem faultless_iff : Faultless vs ↔ checkValidators [] [] vs = .ok () := by
  constructor
  · intro h
    cases hvs : checkValidators [] [] vs with
    | error failure =>
      obtain ⟨before, v, after, hsplit, -, hfault⟩ := exists_atFault hvs
      exact absurd hfault (h before v after failure hsplit)
    | ok _ => rfl
  · rintro h before v after failure rfl hfault
    cases hbefore : checkValidators [] [] before with
    | error found =>
      rw [checkValidators_append, hbefore] at h
      cases h
    | ok _ =>
      rw [error_of_atFault hbefore hfault] at h
      cases h

/-! ## Documents -/

/-- A document is accepted exactly if it is well formed. -/
theorem check_eq_ok_iff_wellFormed : g.check = .ok () ↔ g.WellFormed := by
  rw [check_eq_ok_iff, checkValidators_eq_ok_iff, Params.check_eq_ok_iff]
  constructor
  · rintro ⟨⟨hcomplete, ⟨hkeys, -⟩, hoperators, -⟩, hseats, hpos, hquorum⟩
    exact ⟨hcomplete, hkeys, hoperators, hseats, hpos, hquorum⟩
  · rintro ⟨hcomplete, hkeys, hoperators, hseats, hpos, hquorum⟩
    exact ⟨⟨hcomplete, ⟨hkeys, fun _ _ => List.not_mem_nil⟩, hoperators,
      fun _ _ => List.not_mem_nil⟩, hseats, hpos, hquorum⟩

/-- The failure that is reported is the one that the document is refused for. -/
theorem check_eq_error_iff : g.check = .error failure ↔ g.RefusedFor failure := by
  constructor
  · intro h
    rw [check] at h
    cases hvalidators : checkValidators [] [] g.validators with
    | error found =>
      rw [hvalidators] at h
      cases h
      obtain ⟨before, v, after, hsplit, hbefore, hfault⟩ := exists_atFault hvalidators
      exact .validator hsplit (faultless_iff.mpr hbefore) hfault
    | ok _ =>
      rw [hvalidators] at h
      simp only [bind, Except.bind] at h
      split_ifs at h with hseats
      · cases h
        exact .seats (faultless_iff.mpr hvalidators) hseats
      · exact .params (faultless_iff.mpr hvalidators) (Nat.not_lt.mp hseats) h
  · intro h
    rw [check]
    cases h with
    | validator hsplit hbefore hfault =>
      rw [hsplit, error_of_atFault (faultless_iff.mp hbefore) hfault]
      rfl
    | seats hvalidators hseats =>
      rw [faultless_iff.mp hvalidators, if_pos hseats]
      rfl
    | params hvalidators hseats hparams =>
      rw [faultless_iff.mp hvalidators, if_neg (Nat.not_lt.mpr hseats), hparams]
      rfl

/-- **Which documents are accepted.** The well-formed ones are, in whatever order they list their
validators. Any other is refused for its first validator at fault; only if there is none, for having
more validators than seats, and only then for its parameters. -/
theorem checks_wellFormed (g : Genesis) :
    (g.check = .ok () ↔ g.WellFormed) ∧
    (∀ vs : List Validator, vs.Perm g.validators →
      (Genesis.check { g with validators := vs } = .ok () ↔ g.check = .ok ())) ∧
    ∀ failure, g.check = .error failure ↔ g.RefusedFor failure :=
  ⟨check_eq_ok_iff_wellFormed,
    fun _ hperm => ⟨fun h => check_of_perm h rfl hperm.symm, fun h => check_of_perm h rfl hperm⟩,
    fun _ => check_eq_error_iff⟩

/-- Two validators are accepted in either order. Where the second one has the key of the first and
the third one its operator, the document is refused for the second. -/
theorem checks_wellFormed_twins :
    [Validator.uniform 2 2, .uniform 1 1].Perm [.uniform 1 1, .uniform 2 2] ∧
    Genesis.check { validators := [.uniform 2 2, .uniform 1 1] } = .ok () ∧
    Genesis.check { validators := [.uniform 1 1, .uniform 2 1, .uniform 1 3] } =
      .error (.invalidGenesis (.repeatedKey "v" (Validator.uniform 2 1).address)) := by
  have hperm : [Validator.uniform 2 2, .uniform 1 1].Perm [.uniform 1 1, .uniform 2 2] :=
    List.Perm.swap _ _ _
  refine ⟨hperm, ?_, ?_⟩
  · exact ((checks_wellFormed { validators := [.uniform 1 1, .uniform 2 2] }).2.1 _ hperm).mpr
      (by decide)
  · have hfirst : Faultless [.uniform 1 1] := faultless_iff.mpr (by decide)
    have hsecond : AtFault [.uniform 1 1] (.uniform 2 1)
        (.invalidGenesis (.repeatedKey "v" (Validator.uniform 2 1).address)) :=
      .repeatedKey (by decide) ⟨.uniform 1 1, by decide, by decide⟩
    have hdocument : [Validator.uniform 1 1, .uniform 2 1, .uniform 1 3] =
        [.uniform 1 1] ++ .uniform 2 1 :: [.uniform 1 3] := rfl
    exact ((checks_wellFormed _).2.2 _).mpr (.validator hdocument hfirst hsecond)

end Genesis

end AuthoritySet
