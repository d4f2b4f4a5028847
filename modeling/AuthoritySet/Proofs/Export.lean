import AuthoritySet.Proofs.EffectiveUpdates
import AuthoritySet.Proofs.Integrity

/-!
# Documents that can be imported

A service can always be asked for the document of its parameters and validators. As long as
candidates are checked before they apply and nobody is seated twice, this document has no fault but
one: parameters may be replaced by some with fewer seats than there are validators
(`Turn.LowersSeats`), and then the document has too many of these to start another service.

* `Ledger.Presentable`: nothing is wrong with the validators and with the parameters.
  `Ledger.Presentable.check_document` says what this makes of the document.
* `Service.Holds.presentable_act`: acts keep that.
* `Service.Holds.fits_act`: only lower seats leave some validators without.
* `Service.export_importable`: what this comes to over all runs.
-/

namespace AuthoritySet

/-- In this turn parameters were taken that have fewer seats than there are validators. -/
def Turn.LowersSeats (t : Turn (Service Contents)) : Prop :=
  ∃ params vs, t.act = .setParams params ∧ t.reply = .ok .done ∧
    t.before.view Registry.validators = .ok vs ∧ params.maxValidators.toNat < vs.length

/-- The service exports a document that passes its check, and that starts any empty service. -/
def Service.Importable (s : Service Contents) : Prop :=
  ∃ doc, s.exportGenesis = .ok doc ∧ doc.check = .ok () ∧
    ∀ fresh : Service Contents, fresh.store = .empty → ∃ updates started,
      fresh.initialise doc = .ok (updates, started)

namespace Ledger

variable {l l' : Ledger}

/-- The document of the parameters and the validators of a ledger. -/
def document (l : Ledger) : Genesis := { params := l.inForce, validators := l.validators.values }

/-- There are seats for all validators. -/
def Fits (l : Ledger) : Prop := l.validators.size ≤ l.inForce.maxValidators.toNat

/-- Nothing is wrong with the parameters, with the validators and candidates, and with the keys of
the former. -/
structure Presentable (l : Ledger) : Prop where
  complete : l.Everyone fun v => v.check = .ok ()
  singlyKeyed : l.SinglyKeyed
  params_check : l.inForce.check = .ok ()

/-- Nothing but the seats can be wrong with a document. -/
theorem Presentable.check_document (h : l.Presentable) (hl : l.Sound) :
    l.document.check = if l.inForce.maxValidators.toNat < l.validators.values.length then
      .error (.invalidGenesis
        (.tooManyValidators l.validators.values.length l.inForce.maxValidators))
    else .ok () :=
  Genesis.check_of_distinct (g := l.document)
    (fun _ hv => have ⟨_, hv⟩ := Table.mem_values.mp hv; h.complete.seated hv)
    h.singlyKeyed.nodup_keys hl.nodup_operators h.params_check

theorem Presentable.check_document_eq_ok_iff (h : l.Presentable) (hl : l.Sound) :
    l.document.check = .ok () ↔ l.Fits := by
  rw [h.check_document hl, Fits, Table.length_values]
  split
  · rename_i hfew
    simp [Nat.not_le.mpr hfew]
  · rename_i hseats
    simp [Nat.not_lt.mp hseats]

/-! ## Acts -/

/-- A command that fails its check is refused. -/
theorem act_handle_of_error {c : Command} {failure : Failure} (h : c.check = .error failure) :
    l.act (.handle c) = (.error failure, l) := by
  rw [act, handle, h]
  rfl

/-- Where candidates are checked first, all who are seated or apply are complete. -/
theorem Sound.complete_act (h : l.Sound) (hi : l.Everyone fun v => v.check = .ok ()) {a : Act}
    (hhandled : ∀ c, a ≠ .execute c) : (l.act a).2.Everyone fun v => v.check = .ok () := by
  refine h.act_keeps a hi ?_ (fun _ _ _ => ⟨hi.seated, hi.applying⟩) (hi.settled h)
  intro c events l' hc hstep hreply
  obtain rfl : a = .handle c := by
    cases a with
    | execute c => exact absurd rfl (hhandled c)
    | handle c => exact congrArg Act.handle (Option.some.inj hc)
    | setParams params => cases hc
    | endEpoch => cases hc
  refine hi.step hstep fun v hv => ?_
  subst hv
  cases hcheck : v.check with
  | ok _ => rfl
  | error failure =>
    rw [act_handle_of_error (c := .submitApplication v) hcheck] at hreply
    cases hreply

/-- Parameters pass their check whatever is done. -/
theorem Sound.params_check_act (h : l.Sound) (hi : l.inForce.check = .ok ()) (a : Act) :
    (l.act a).2.inForce.check = .ok () :=
  h.act_keeps (P := fun l => l.inForce.check = .ok ()) a hi
    (fun _ hstep _ => hstep.inForce_eq ▸ hi) (fun _ hcheck _ => hcheck) hi

end Ledger

/-! ## Services -/

namespace Service

open Ledger

variable {s s₀ : Service Contents} {l : Ledger} {a : Act}

/-- The export is importable exactly if there are seats for all. -/
theorem Holds.importable_iff (h : s.Holds l) (hi : l.Presentable) : s.Importable ↔ l.Fits := by
  have hexport : s.exportGenesis = .ok l.document := exportGenesis_eq h.store_eq
  rw [← hi.check_document_eq_ok_iff h.sound]
  constructor
  · rintro ⟨doc, hdoc, hcheck, -⟩
    rwa [← Except.ok.inj (hexport.symm.trans hdoc)] at hcheck
  · exact fun hcheck => ⟨_, hexport, hcheck, fun fresh hfresh =>
      ⟨_, _, (initialise_eq_ok_iff hfresh).mpr ⟨hcheck, rfl, rfl⟩⟩⟩

/-- A turn that seats nobody twice leaves every key with one validator. -/
theorem Holds.singlyKeyed_act (h : s.Holds l) (hi : l.SinglyKeyed)
    (honce : ¬ (turn Service.act s a).SeatsTwice) : (l.act a).2.SinglyKeyed := by
  by_cases ha : a = .endEpoch
  · rw [ha, h.sound.act_endEpoch]
    exact hi.settled h.sound
  have hchange := h.sound.seatChange_act ha
  rw [← h.events_eq] at hchange
  cases hchange with
  | kept _ validators => exact hi.congr validators
  | sentAway _ _ validators => exact hi.congr validators
  | admitted v single validators =>
    have hemitted : .appendValidator v.operator ∈ (turn Service.act s a).events :=
      (appended_iff _ _).mp (single ▸ List.mem_singleton_self _)
    have hnew := h.newBy_of_admitted honce hemitted (by simp [validators])
    exact (hi.seat .joining hnew).congr validators

theorem Holds.presentable_act (h : s.Holds l) (hi : l.Presentable)
    (hhandled : ∀ c, a ≠ .execute c) (honce : ¬ (turn Service.act s a).SeatsTwice) :
    (l.act a).2.Presentable where
  complete := h.sound.complete_act hi.complete hhandled
  singlyKeyed := h.singlyKeyed_act hi.singlyKeyed honce
  params_check := h.sound.params_check_act hi.params_check a

/-- Only lower seats leave some validators without. -/
theorem Holds.fits_act (h : s.Holds l) (hi : l.Fits)
    (hkept : ¬ (turn Service.act s a).LowersSeats) : (l.act a).2.Fits := by
  refine h.sound.act_keeps a hi ?_ ?_ (Nat.le_trans (Table.size_filterMap_le _ _) hi)
  · intro c events l' _ hstep _
    rw [Fits, hstep.inForce_eq]
    rcases hstep.size_le with hle | hle
    · exact Nat.le_trans hle hi
    · exact hle
  · intro params ha _ hreply
    refine Nat.not_lt.mp fun hfew => hkept ⟨params, l.validators.values, ha,
      (h.act_eq a).1.trans hreply, h.validators_eq, ?_⟩
    rwa [Table.length_values]

/-- Lower seats do. -/
theorem Holds.not_fits_act (h : s.Holds l) (hlower : (turn Service.act s a).LowersSeats) :
    ¬ (l.act a).2.Fits := by
  obtain ⟨params, vs, ha, hreply, hvs, hfew⟩ := hlower
  obtain rfl : a = .setParams params := ha
  obtain rfl : l.validators.values = vs := Except.ok.inj (h.validators_eq.symm.trans hvs)
  have hreply : (l.act (.setParams params)).1 = .ok .done := (h.act_eq _).1.symm.trans hreply
  rcases h.sound.act_cases (.setParams params) with ⟨_, heq⟩ | ⟨c, _, _, hc, -⟩ |
    ⟨params', ha, -, heq⟩ | ⟨hend, -⟩
  · rw [heq] at hreply
    cases hreply
  · cases hc
  · cases ha
    rw [heq, Fits]
    exact Nat.not_le.mpr (by rwa [Table.length_values] at hfew)
  · cases hend

theorem presentable_establish {g : Genesis} (hcheck : g.check = .ok ()) :
    (({} : Ledger).establish g).2.Presentable where
  complete := .establish (Genesis.complete_of_check hcheck)
  singlyKeyed := (Informed.establish hcheck).singlyKeyed
  params_check := (Intact.empty.establish hcheck).params_check

theorem fits_establish {g : Genesis} (hcheck : g.check = .ok ()) :
    (({} : Ledger).establish g).2.Fits := by
  have hsize := Sound.size_seatAll_le (({} : Ledger).setParams g.params) g.validators
  have hnone : (({} : Ledger).setParams g.params).validators.size = 0 := rfl
  rw [Fits, establish, inForce_seatAll]
  refine Nat.le_trans hsize ?_
  rw [hnone, Nat.zero_add]
  exact Genesis.length_le_of_check hcheck

/-- **Documents that can be imported.** Take a run in which candidates are checked before they apply
and nobody is seated twice. Whenever the service is asked for its document, it gives one of its
parameters and validators, and nothing is wrong with this unless the validators are more than the
seats. All documents of the run can be imported exactly if the run never takes parameters with fewer
seats than there are validators. -/
theorem export_importable {g : Genesis} {updates : List PowerUpdate} {acts : List Act}
    (hempty : s.store = .empty) (hstart : s.initialise g = .ok (updates, s₀))
    (hhandled : ∀ c, .execute c ∉ acts) (honce : ∀ t ∈ s₀.turns acts, ¬ t.SeatsTwice) :
    (∀ past, past <+: acts → ∃ doc, (s₀.finish past).exportGenesis = .ok doc ∧
      (s₀.finish past).params = .ok doc.params ∧
      (s₀.finish past).view Registry.validators = .ok doc.validators ∧
      (doc.check = if doc.params.maxValidators.toNat < doc.validators.length then
          .error (.invalidGenesis
            (.tooManyValidators doc.validators.length doc.params.maxValidators))
        else .ok ()) ∧
      ((s₀.finish past).Importable ↔
        doc.validators.length ≤ doc.params.maxValidators.toNat)) ∧
    ((∀ past, past <+: acts → (s₀.finish past).Importable) ↔
      ∀ t ∈ s₀.turns acts, ¬ t.LowersSeats) := by
  obtain ⟨hcheck, -, -⟩ := (initialise_eq_ok_iff hempty).mp hstart
  have hfounded := holds_initialise hempty hstart
  have hguard : ∀ past, past <+: acts → ∀ t ∈ s₀.turns past,
      (∀ c, t.act ≠ .execute c) ∧ ¬ t.SeatsTwice := by
    intro past hpast t ht
    refine ⟨fun c hc => hhandled c ?_, honce t ((turns_mono hpast).subset ht)⟩
    exact hc ▸ hpast.subset (act_mem_of_mem_turns ht)
  have hpresentable : ∀ past, past <+: acts →
      ∃ l, (s₀.finish past).Holds l ∧ l.Presentable := fun past hpast =>
    hfounded.keeps (G := fun t => (∀ c, t.act ≠ .execute c) ∧ ¬ t.SeatsTwice)
      (fun a h hi hguard => h.presentable_act hi hguard.1 hguard.2)
      (presentable_establish hcheck) (hguard past hpast)
  refine ⟨fun past hpast => ?_, fun himportable t ht hlower => ?_, fun hkept past hpast => ?_⟩
  · obtain ⟨l, h, hi⟩ := hpresentable past hpast
    refine ⟨l.document, exportGenesis_eq h.store_eq, h.params_eq, h.validators_eq,
      hi.check_document h.sound, ?_⟩
    rw [h.importable_iff hi, Fits, document, Table.length_values]
  · -- where the run stops after this turn, there are not seats for all
    obtain ⟨before, a, after, rfl, rfl⟩ := exists_of_mem_turns ht
    obtain ⟨l, h, hi⟩ := hpresentable before (List.prefix_append before _)
    have hpast : before ++ [a] <+: before ++ a :: after := ⟨after, by simp⟩
    have himported := himportable (before ++ [a]) hpast
    rw [finish, finish_append] at himported
    have hafter := h.presentable_act hi (a := a)
      (fun c hc => hhandled c (hc ▸ List.mem_append_right _ List.mem_cons_self)) (honce _ ht)
    exact h.not_fits_act hlower (((h.act a).importable_iff hafter).mp himported)
  · have hboth : ∃ l, (s₀.finish past).Holds l ∧ l.Presentable ∧ l.Fits := by
      refine hfounded.keeps (I := fun l => l.Presentable ∧ l.Fits)
        (G := fun t => ((∀ c, t.act ≠ .execute c) ∧ ¬ t.SeatsTwice) ∧ ¬ t.LowersSeats)
        (fun a h hi hguard => ⟨h.presentable_act hi.1 hguard.1.1 hguard.1.2,
          h.fits_act hi.2 hguard.2⟩)
        ⟨presentable_establish hcheck, fits_establish hcheck⟩ fun t ht => ?_
      exact ⟨hguard past hpast t ht, hkept t ((turns_mono hpast).subset ht)⟩
    obtain ⟨l, h, hi, hfits⟩ := hboth
    exact (h.importable_iff hi).mpr hfits

/-- A second validator is admitted, then there is a seat for one only. -/
def admitAndShrink : List Act :=
  [.handle (.submitApplication (.uniform 2 2)),
   .handle (.voteApplication (Validator.uniform 1 1).operator (Validator.uniform 2 2).operator
     true),
   .setParams { maxValidators := 1 }]

theorem export_importable_admitAndShrink :
    ((∀ past, past <+: admitAndShrink → ((founded .lone).finish past).Importable) ↔
      ∀ t ∈ (founded .lone).turns admitAndShrink, ¬ t.LowersSeats) := by
  have hstart := initialise_founded (g := .lone) (by decide)
  have hballots : ∀ t ∈ (founded .lone).turns admitAndShrink,
      (t.events.head?.bind Event.newState?).map (·.2) ≠ some .joining := by decide +kernel
  have hpassed : ∀ t ∈ (founded .lone).turns admitAndShrink, ¬ t.PassesApplication :=
    fun t ht ⟨_, _, _, hreply, _⟩ => hballots t ht (by rw [Turn.events, hreply]; rfl)
  have honce := (holds_initialise rfl hstart).not_seatsTwice_turns (by decide) (by decide +kernel)
    hpassed
  exact (export_importable rfl hstart (by simp [admitAndShrink]) honce).2

/-- Nobody is seated without a check, and the document of two validators for one seat is faulty. -/
theorem not_importable_admitAndShrink : (∀ c, .execute c ∉ admitAndShrink) ∧ ∃ doc,
    ((founded .lone).finish admitAndShrink).exportGenesis = .ok doc ∧
      doc.check = .error (.invalidGenesis (.tooManyValidators 2 1)) :=
  ⟨by simp [admitAndShrink],
    { params := { maxValidators := 1 }, validators := [.uniform 1 1, .uniform 2 2] },
    by decide +kernel, by decide +kernel⟩

end Service

end AuthoritySet
