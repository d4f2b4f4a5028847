import AuthoritySet.Proofs.Ledger.Locality
import AuthoritySet.Proofs.Ledger.Seats

/-!
# Commands about different operators commute

Two commands about different operators do not get in each other's way, as long as none of them
admits somebody and no submission meets an application of the other operator on its address
(`Command.ClearOf`): whichever comes first, both have the same replies, and the same is stored in the
end.

* `Ledger.Sound.looksSame_act`: after a command the ledger looks the same to the other one.
* `Ledger.Sound.act_commute`: two acts on a ledger. `Service.commands_commute`: what this comes to
  in all states that can be reached.
-/

namespace AuthoritySet

/-- If the command is a submission, its consensus address is neither that of a candidate which the
other command submits, nor that of the pending application of the other command's subject. -/
def Command.ClearOf (s : Service Contents) (c other : Command) : Prop :=
  ∀ candidate, c = .submitApplication candidate →
    (∀ v, other = .submitApplication v → v.address ≠ candidate.address) ∧
    ∀ b, s.view (Registry.ballot? .application other.subject) = .ok (some b) →
      b.subject.address ≠ candidate.address

namespace Ledger

variable {l m : Ledger} {a b : Act} {c d : Command}

/-- If the command is a submission, nobody is in its way because of the other command. -/
def Clear (l : Ledger) (c other : Command) : Prop :=
  ∀ candidate, c = .submitApplication candidate →
    (∀ v, other = .submitApplication v → v.address ≠ candidate.address) ∧
    ∀ b, l.applications.get? other.subject = some b → b.subject.address ≠ candidate.address

/-- Whether somebody applies on an address can be seen from the applications. -/
theorem ApplicationsIndexed.isSome_iff (h : l.ApplicationsIndexed) {address : ConsensusAddress} :
    (l.applicationAt? address).isSome ↔
      ∃ operator b, l.applications.get? operator = some b ∧ b.subject.address = address := by
  rw [Option.isSome_iff_exists]
  constructor
  · rintro ⟨b, hb⟩
    obtain ⟨operator, hb, ha⟩ := h.find_eq_some_iff.mp hb
    exact ⟨operator, b, hb, ha⟩
  · rintro ⟨operator, b, hb, ha⟩
    exact ⟨b, h.find_eq_some_iff.mpr ⟨operator, hb, ha⟩⟩

/-- Acts keep applications indexed. -/
theorem ApplicationsIndexed.act (h : l.ApplicationsIndexed) (hl : l.Sound) (a : Act) :
    (l.act a).2.ApplicationsIndexed :=
  hl.act_keeps a h (fun _ hstep _ => h.step hl hstep) (fun _ _ _ => h) h

/-- An application that is open after an act that gives a command was open before it, or the command
opened it. -/
theorem Sound.application_cases (hl : l.Sound) (ha : a.command? = some c)
    {operator : OperatorAddress} {after : Ballot}
    (hopened : (l.act a).2.applications.get? operator = some after) :
    (∃ before, l.applications.get? operator = some before ∧ after.subject = before.subject) ∨
      c = .submitApplication after.subject := by
  rcases act_cases_of_command (l := l) ha with ⟨_, heq⟩ | ⟨events, l', hstep, heq⟩
  · rw [heq] at hopened
    exact .inl ⟨after, hopened, rfl⟩
  · rw [heq] at hopened
    exact hstep.application_cases hl hopened

/-- After an act that gives a command and admits nobody, the ledger looks the same to every command
about somebody else that is clear of it. -/
theorem Sound.looksSame_act (hl : l.Sound) (hi : l.ApplicationsIndexed)
    (ha : a.command? = some c) (hsubject : d.subject ≠ c.subject) (hclear : l.Clear d c)
    (hnobody : ∀ operator, .appendValidator operator ∉ Reply.published (l.act a).1) :
    LooksSame d l (l.act a).2 := by
  have hapart := hl.apartFrom_act ha hnobody
  have hkept {operator : OperatorAddress} (hother : operator ≠ c.subject) :
      (l.act a).2.applications.get? operator = l.applications.get? operator :=
    congrArg Cells.application (hapart.cells_eq hother)
  refine ⟨hapart.toSameRegistry, hapart.cells_eq hsubject, fun {candidate} hd => ?_⟩
  obtain ⟨hsubmitted, hpending⟩ := hclear candidate hd
  rw [Bool.eq_iff_iff, (hi.act hl a).isSome_iff, hi.isSome_iff]
  constructor
  · rintro ⟨operator, after, hopened, haddress⟩
    by_cases hother : operator = c.subject
    · -- the other command's subject has no application on this address, nor will it have one
      rcases hl.application_cases ha hopened with ⟨before, hbefore, hsame⟩ | hc
      · exact absurd (hsame ▸ haddress) (hpending before (hother ▸ hbefore))
      · exact absurd haddress (hsubmitted after.subject hc)
    · exact ⟨operator, after, hkept hother ▸ hopened, haddress⟩
  · rintro ⟨operator, before, hopened, haddress⟩
    have hother : operator ≠ c.subject := by
      rintro rfl
      exact hpending before hopened haddress
    exact ⟨operator, before, (hkept hother).trans hopened, haddress⟩

/-- Two acts that give commands about different operators, clear of each other, commute if they
admit nobody. -/
theorem Sound.act_commute (hl : l.Sound) (hi : l.ApplicationsIndexed) (ha : a.command? = some c)
    (hb : b.command? = some d) (hsubject : c.subject ≠ d.subject) (hc : l.Clear c d)
    (hd : l.Clear d c)
    (hfirst : ∀ operator, .appendValidator operator ∉ Reply.published (l.act a).1)
    (hsecond : ∀ operator, .appendValidator operator ∉ Reply.published ((l.act a).2.act b).1) :
    ((l.act a).2.act b).1 = (l.act b).1 ∧ ((l.act b).2.act a).1 = (l.act a).1 ∧
      ((l.act b).2.act a).2 = ((l.act a).2.act b).2 := by
  obtain ⟨hreply, hcells⟩ :=
    act_congr hb (hl.looksSame_act hi ha hsubject.symm hd hfirst)
  have hnobody : ∀ operator, .appendValidator operator ∉ Reply.published (l.act b).1 := by
    rwa [hreply] at hsecond
  obtain ⟨hreply', hcells'⟩ := act_congr ha (hl.looksSame_act hi hb hsubject hc hnobody)
  refine ⟨hreply, hreply', ?_⟩
  have hthen := (hl.act a).apartFrom_act hb hsecond
  have hthen' := (hl.act b).apartFrom_act ha (by rwa [hreply'])
  have hafter := hl.apartFrom_act ha hfirst
  have hafter' := hl.apartFrom_act hb hnobody
  refine eq_of_cells ((hi.act hl a).act (hl.act a) b) ((hi.act hl b).act (hl.act b) a)
    ⟨?_, ?_, ?_⟩ fun operator => ?_
  · rw [hthen.params_eq, hthen'.params_eq, hafter.params_eq, hafter'.params_eq]
  · rw [hthen.validators_eq, hthen'.validators_eq, hafter.validators_eq, hafter'.validators_eq]
  · rw [hthen.validatorIndex_eq, hthen'.validatorIndex_eq, hafter.validatorIndex_eq,
      hafter'.validatorIndex_eq]
  -- what is kept for a subject is what its own command leaves; for all others, what was there
  · by_cases hfor : operator = c.subject
    · subst hfor
      rw [hcells', hthen.cells_eq hsubject]
    · rw [hthen'.cells_eq hfor]
      by_cases hfor' : operator = d.subject
      · subst hfor'
        rw [hcells]
      · rw [hthen.cells_eq hfor', hafter.cells_eq hfor, hafter'.cells_eq hfor']

end Ledger

/-! ## Services -/

namespace Service

open Ledger

variable {s s₀ : Service Contents} {l : Ledger} {a b : Act} {c d : Command}

theorem Holds.clear (h : s.Holds l) (hclear : c.ClearOf s d) : l.Clear c d := by
  refine fun candidate hc => ⟨(hclear candidate hc).1, fun b hb => (hclear candidate hc).2 b ?_⟩
  exact (h.view_eq (run_ballot? h.sound.legible .application d.subject)).trans (congrArg _ hb)

/-- **Commands about different operators commute.** Take two commands about different operators,
carried out directly or with a check before, in any state that a run leads to; a submission among
them is on another consensus address than a candidate that the other command submits and than the
pending application of the other command's subject. If nobody is admitted when one comes after the
other, both have the same replies in the other order, and the same bytes are stored in the end. -/
theorem commands_commute {g : Genesis} {updates : List PowerUpdate} {acts : List Act}
    (hempty : s.store = .empty) (hstart : s.initialise g = .ok (updates, s₀))
    (ha : a.command? = some c) (hb : b.command? = some d) (hsubject : c.subject ≠ d.subject)
    (hc : c.ClearOf (s₀.finish acts) d) (hd : d.ClearOf (s₀.finish acts) c)
    (hnobody : ∀ t ∈ (s₀.finish acts).turns [a, b], ∀ operator,
      .appendValidator operator ∉ t.events) :
    ((s₀.finish acts).turns [b, a]).map Turn.reply =
        (((s₀.finish acts).turns [a, b]).map Turn.reply).reverse ∧
      ((s₀.finish acts).finish [b, a]).store = ((s₀.finish acts).finish [a, b]).store := by
  obtain ⟨hcheck, -, -⟩ := (initialise_eq_ok_iff hempty).mp hstart
  have hreached : ∃ l, (s₀.finish acts).Holds l ∧ l.ApplicationsIndexed :=
    (holds_initialise hempty hstart).keeps (G := fun _ => True)
      (fun a h hi _ => hi.act h.sound a) (ApplicationsIndexed.establish g) fun _ _ => trivial
  obtain ⟨l, h, hi⟩ := hreached
  generalize s₀.finish acts = s at h hc hd hnobody ⊢
  have hfirst := hnobody (turn Service.act s a) List.mem_cons_self
  have hsecond := hnobody (turn Service.act (s.act a).2 b)
    (List.mem_cons_of_mem _ (List.mem_singleton_self _))
  rw [h.events_eq] at hfirst
  rw [(h.act a).events_eq] at hsecond
  obtain ⟨hreply, hreply', hstore⟩ :=
    h.sound.act_commute hi ha hb hsubject (h.clear hc) (h.clear hd) hfirst hsecond
  constructor
  · show [(s.act b).1, ((s.act b).2.act a).1] = [((s.act a).2.act b).1, (s.act a).1]
    rw [(h.act_eq b).1, ((h.act b).act_eq a).1, ((h.act a).act_eq b).1, (h.act_eq a).1, hreply,
      hreply']
  · show ((s.act b).2.act a).2.store = ((s.act a).2.act b).2.store
    rw [((h.act b).act_eq a).2.1, ((h.act a).act_eq b).2.1, hstore]

/-- Two candidates apply. -/
def twoApply : List Act :=
  [.handle (.submitApplication (.uniform 2 2)), .handle (.submitApplication (.uniform 3 3))]

/-- A third candidate applies, and the first one is rejected. -/
theorem commands_commute_twoApply :
    (((founded .lone).finish twoApply).finish
      [.execute (.voteApplication (Validator.uniform 1 1).operator
          (Validator.uniform 2 2).operator false),
        .handle (.submitApplication (.uniform 4 4))]).store =
    (((founded .lone).finish twoApply).finish
      [.handle (.submitApplication (.uniform 4 4)),
        .execute (.voteApplication (Validator.uniform 1 1).operator
          (Validator.uniform 2 2).operator false)]).store := by
  have hpending : ((founded .lone).finish twoApply).view
      (Registry.ballot? .application (Validator.uniform 2 2).operator) =
      .ok (some (.start (.uniform 2 2))) := by decide +kernel
  have hclear : Command.ClearOf ((founded .lone).finish twoApply)
      (.submitApplication (.uniform 4 4))
      (.voteApplication (Validator.uniform 1 1).operator (Validator.uniform 2 2).operator false) := by
    intro candidate hcandidate
    cases hcandidate
    refine ⟨nofun, fun b hb => ?_⟩
    obtain rfl := Option.some.inj (Except.ok.inj (hpending.symm.trans hb))
    decide +kernel
  have hnobody : ∀ t ∈ ((founded .lone).finish twoApply).turns
      [.handle (.submitApplication (.uniform 4 4)),
        .execute (.voteApplication (Validator.uniform 1 1).operator
          (Validator.uniform 2 2).operator false)],
      t.events.filterMap Event.newState? = [] := by decide +kernel
  refine (commands_commute rfl (initialise_founded (g := .lone) (by decide)) rfl rfl (by decide)
    hclear (fun _ => nofun) fun t ht operator hadmitted => ?_).2
  have hnew := (appended_iff operator t.events).mpr hadmitted
  rw [hnobody t ht] at hnew
  cases hnew

end Service

end AuthoritySet
