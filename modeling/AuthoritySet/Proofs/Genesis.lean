import AuthoritySet.Genesis

/-!
# What a genesis check establishes

A document that passes its check has seats for all its validators (`Genesis.length_le_of_check`),
these are complete (`Genesis.complete_of_check`), and no operator and no key stands twice in it
(`Genesis.nodup_operators`, `Genesis.nodup_keys`). That is all that a check asks for
(`Genesis.checkValidators_eq_ok_iff`, `Genesis.check_eq_ok_iff`).
-/

namespace AuthoritySet

namespace Genesis

variable {g : Genesis}

/-- Some validators pass the check after others if all are complete, no key and no operator stands
twice among them, and none of these has stood before. -/
theorem checkValidators_eq_ok_iff {keys : List ConsensusKey} {operators : List OperatorAddress}
    {vs : List Validator} : checkValidators keys operators vs = .ok () ↔
      (∀ v ∈ vs, v.check = .ok ()) ∧
      ((vs.map (·.key)).Nodup ∧ ∀ v ∈ vs, v.key ∉ keys) ∧
      (vs.map (·.operator)).Nodup ∧ ∀ v ∈ vs, v.operator ∉ operators := by
  induction vs generalizing keys operators with
  | nil => simp [checkValidators]
  | cons v rest ih =>
    -- what stands before the rest is what stood before and the first one
    have hbefore {β : Type} {f : Validator → β} {seen : List β} :
        ((rest.map f).Nodup ∧ ∀ w ∈ rest, f w ∉ f v :: seen) ∧ f v ∉ seen ↔
          ((v :: rest).map f).Nodup ∧ ∀ w ∈ v :: rest, f w ∉ seen := by
      rw [List.forall_mem_cons]
      simp only [List.map_cons, List.nodup_cons, List.mem_map, not_exists, not_and,
        List.mem_cons (a := f _), not_or, forall_and]
      constructor
      · rintro ⟨⟨hnodup, hfirst, hrest⟩, hnew⟩
        exact ⟨⟨hfirst, hnodup⟩, hnew, hrest⟩
      · rintro ⟨⟨hfirst, hnodup⟩, hnew, hrest⟩
        exact ⟨⟨hnodup, hfirst, hrest⟩, hnew⟩
    rw [← hbefore, ← hbefore, List.forall_mem_cons, checkValidators]
    cases v.check with
    | error failure => simp [bind, Except.bind]
    | ok _ =>
      simp only [bind, Except.bind, true_and]
      split
      · rename_i hkey
        simp [hkey]
      split
      · rename_i hoperator
        simp [hoperator]
      rename_i hkey hoperator
      rw [ih]
      simp [hkey, hoperator]

/-- The parts of a check that succeeds. -/
theorem check_eq_ok_iff : g.check = .ok () ↔ checkValidators [] [] g.validators = .ok () ∧
    g.validators.length ≤ g.params.maxValidators.toNat ∧ g.params.check = .ok () := by
  unfold check
  cases checkValidators [] [] g.validators with
  | error failure => simp [bind, Except.bind]
  | ok _ =>
    simp only [bind, Except.bind, true_and]
    split
    · rename_i hseats
      simp [Nat.not_le.mpr hseats]
    · rename_i hseats
      simp [Nat.not_lt.mp hseats]

theorem length_le_of_check (h : g.check = .ok ()) :
    g.validators.length ≤ g.params.maxValidators.toNat :=
  (check_eq_ok_iff.mp h).2.1

theorem nodup_keys (h : g.check = .ok ()) : (g.validators.map (·.key)).Nodup :=
  (checkValidators_eq_ok_iff.mp (check_eq_ok_iff.mp h).1).2.1.1

theorem nodup_operators (h : g.check = .ok ()) : (g.validators.map (·.operator)).Nodup :=
  (checkValidators_eq_ok_iff.mp (check_eq_ok_iff.mp h).1).2.2.1

/-- The validators of a document that passes its check are complete. -/
theorem complete_of_check (h : g.check = .ok ()) : ∀ v ∈ g.validators, v.check = .ok () :=
  (checkValidators_eq_ok_iff.mp (check_eq_ok_iff.mp h).1).1

/-- In which order a document lists its validators does not matter. -/
theorem check_of_perm {g' : Genesis} (h : g.check = .ok ()) (hparams : g'.params = g.params)
    (hperm : g'.validators.Perm g.validators) : g'.check = .ok () := by
  refine check_eq_ok_iff.mpr ⟨checkValidators_eq_ok_iff.mpr ⟨fun v hv => ?_, ⟨?_, ?_⟩, ?_, ?_⟩, ?_⟩
  · exact complete_of_check h v (hperm.mem_iff.mp hv)
  · exact (hperm.map _).nodup_iff.mpr (nodup_keys h)
  · exact fun _ _ => List.not_mem_nil
  · exact (hperm.map _).nodup_iff.mpr (nodup_operators h)
  · exact fun _ _ => List.not_mem_nil
  · rw [hperm.length_eq, hparams]
    exact (check_eq_ok_iff.mp h).2

/-- Where nothing is wrong with the validators and with the parameters, the seats decide. -/
theorem check_of_distinct (hcomplete : ∀ v ∈ g.validators, v.check = .ok ())
    (hkeys : (g.validators.map (·.key)).Nodup)
    (hoperators : (g.validators.map (·.operator)).Nodup) (hparams : g.params.check = .ok ()) :
    g.check = if g.params.maxValidators.toNat < g.validators.length then
      .error (.invalidGenesis (.tooManyValidators g.validators.length g.params.maxValidators))
    else .ok () := by
  have hvalidators : checkValidators [] [] g.validators = .ok () :=
    checkValidators_eq_ok_iff.mpr
      ⟨hcomplete, ⟨hkeys, fun _ _ => List.not_mem_nil⟩, hoperators, fun _ _ => List.not_mem_nil⟩
  rw [check, hvalidators, hparams]
  rfl

end Genesis

/-! ## Small documents -/

/-- A validator whose operator repeats one byte, and its key another. -/
def Validator.uniform (operator key : UInt8) : Validator where
  operator := ⟨List.replicate 20 operator, List.length_replicate⟩
  key := ⟨List.replicate 32 key, List.length_replicate⟩
  description := { moniker := ⟨"v", by decide⟩ }

/-- The document of a single validator. -/
def Genesis.lone : Genesis := { validators := [.uniform 1 1] }

end AuthoritySet
