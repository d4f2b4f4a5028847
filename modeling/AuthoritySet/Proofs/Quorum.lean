import AuthoritySet.Proofs.Ledger.Seats

/-!
# Decisions rest on quorums

A step that decides on a ballot sees the numbers on it and nothing else. What these stand for is in
the events of the run: a ballot accounts for the votes since it was opened last
(`Ballot.AccountsFor`), voter by voter. So whoever is admitted or expelled by a ballot was approved
by enough different operators, each of whom voted once and was seated then (`Carried`).

* `Ledger.Recorded.act`: every ballot keeps accounting for the votes on it.
* `Ballot.AccountsFor.carried`: an approval rests on as many approving operators.
* `Service.decided_by_quorum`: where all admissions and expulsions of a run come from.
-/

namespace AuthoritySet

/-! ## Votes in a run -/

section Votes

variable {α : Type}

/-- A turn opens the ballot of a kind on a subject. -/
def Turn.Opens (t : Turn α) (kind : Ballot.Kind) (subject : OperatorAddress) : Prop :=
  ∃ e ∈ t.events, e.opened? = some (kind, subject)

/-- The votes on the ballot of a kind on a subject in some turns. -/
def votesOn (kind : Ballot.Kind) (subject : OperatorAddress) (turns : List (Turn α)) :
    List (OperatorAddress × Bool) :=
  turns.flatMap fun t => t.events.filterMap (Event.voteOn? kind subject)

/-- The turns `recent` are those since the ballot of a kind on a subject was opened last. -/
def SinceOpening (kind : Ballot.Kind) (subject : OperatorAddress) (turns recent : List (Turn α)) :
    Prop :=
  ∃ older opening, turns = older ++ opening :: recent ∧ opening.Opens kind subject ∧
    ∀ t ∈ recent, ¬ t.Opens kind subject

theorem votesOn_append (kind : Ballot.Kind) (subject : OperatorAddress)
    (turns later : List (Turn α)) :
    votesOn kind subject (turns ++ later) =
      votesOn kind subject turns ++ votesOn kind subject later :=
  List.flatMap_append

theorem mem_votesOn_iff {kind : Ballot.Kind} {subject : OperatorAddress} {turns : List (Turn α)}
    {vote : OperatorAddress × Bool} :
    vote ∈ votesOn kind subject turns ↔ ∃ t ∈ turns, vote ∈ votesOn kind subject [t] := by
  simp [votesOn]

theorem SinceOpening.append {kind : Ballot.Kind} {subject : OperatorAddress}
    {turns recent : List (Turn α)} (h : SinceOpening kind subject turns recent) {t : Turn α}
    (ht : ¬ t.Opens kind subject) : SinceOpening kind subject (turns ++ [t]) (recent ++ [t]) := by
  obtain ⟨older, opening, rfl, hopens, hnone⟩ := h
  refine ⟨older, opening, by simp, hopens, fun u hu => ?_⟩
  rcases List.mem_append.mp hu with hu | hu
  · exact hnone u hu
  · rwa [List.mem_singleton.mp hu]

end Votes

/-- In some turns an operator cast exactly one vote on a ballot, an approval, and was seated when it
did so. Nobody votes on its own expulsion. -/
structure ApprovedOnce (kind : Ballot.Kind) (subject : OperatorAddress)
    (turns : List (Turn (Service Contents))) (voter : OperatorAddress) : Prop where
  once : (votesOn kind subject turns).filter (·.1 = voter) = [(voter, true)]
  seated : ∀ t ∈ turns, (voter, true) ∈ votesOn kind subject [t] → t.before.Seats voter
  other : kind = .kickProposal → voter ≠ subject

/-- Since the ballot of a kind on a subject was opened last, at least as many different operators as
were necessary have approved. -/
def Carried (kind : Ballot.Kind) (subject : OperatorAddress)
    (turns : List (Turn (Service Contents))) (necessary : UInt64) : Prop :=
  ∃ recent, ∃ approvers : List OperatorAddress, SinceOpening kind subject turns recent ∧
    approvers.Nodup ∧ necessary.toNat ≤ approvers.length ∧
    ∀ voter ∈ approvers, ApprovedOnce kind subject recent voter

/-! ## What a ballot stands for -/

namespace Ballot

variable {kind : Kind} {subject voter : OperatorAddress} {approve : Bool} {b after : Ballot}
  {turns : List (Turn (Service Contents))} {t : Turn (Service Contents)}

/-- A ballot accounts for the votes since it was opened last. -/
def AccountsFor (b : Ballot) (kind : Kind) (subject : OperatorAddress)
    (turns : List (Turn (Service Contents))) : Prop :=
  ∃ recent, SinceOpening kind subject turns recent ∧
    b.voters = (votesOn kind subject recent).map (·.1) ∧
    b.approvals.toNat = (votesOn kind subject recent).countP (·.2) ∧
    ∀ t ∈ recent, ∀ vote ∈ votesOn kind subject [t],
      t.before.Seats vote.1 ∧ (kind = .kickProposal → vote.1 ≠ subject)

namespace AccountsFor

theorem start (record : Validator) (ht : t.Opens kind subject) :
    (Ballot.start record).AccountsFor kind subject (turns ++ [t]) :=
  ⟨[], ⟨turns, t, rfl, ht, by simp⟩, rfl, rfl, by simp⟩

/-- A turn that neither opens a ballot nor votes on it changes nothing. -/
theorem silent (h : b.AccountsFor kind subject turns)
    (ht : Ledger.Silent kind subject t.events) : b.AccountsFor kind subject (turns ++ [t]) := by
  obtain ⟨recent, hsince, hvoters, happrovals, hseated⟩ := h
  have hopens : ¬ t.Opens kind subject := by
    rintro ⟨e, he, hopens⟩
    exact (ht e he).1 hopens
  have hnone : votesOn kind subject [t] = [] := by
    simpa [votesOn, List.filterMap_eq_nil_iff] using fun e he => (ht e he).2
  have hvotes : votesOn kind subject (recent ++ [t]) = votesOn kind subject recent := by
    rw [votesOn_append, hnone, List.append_nil]
  refine ⟨recent ++ [t], hsince.append hopens, by rw [hvotes, hvoters],
    by rw [hvotes, happrovals], fun u hu vote hvote => ?_⟩
  rcases List.mem_append.mp hu with hu | hu
  · exact hseated u hu vote hvote
  · rw [List.mem_singleton.mp hu, hnone] at hvote
    cases hvote

/-- A turn with a vote adds it. -/
theorem vote (h : b.AccountsFor kind subject turns) (hb : b.Tallied)
    (hcast : b.cast? voter approve = some after) {outcome : List Event}
    (hevents : t.events = kind.vote voter subject approve :: outcome)
    (houtcome : ∀ e ∈ outcome, e.opened? = none ∧ e.voteOn? kind subject = none)
    (hseats : t.before.Seats voter) (hother : kind = .kickProposal → voter ≠ subject) :
    after.AccountsFor kind subject (turns ++ [t]) := by
  obtain ⟨recent, hsince, hvoters, happrovals, hseated⟩ := h
  have hopens : ¬ t.Opens kind subject := by
    rintro ⟨e, he, hopens⟩
    rw [hevents, List.mem_cons] at he
    rcases he with rfl | he
    · simp at hopens
    · simp [(houtcome e he).1] at hopens
  have hone : votesOn kind subject [t] = [(voter, approve)] := by
    have hnone : outcome.filterMap (Event.voteOn? kind subject) = [] :=
      List.filterMap_eq_nil_iff.mpr fun e he => (houtcome e he).2
    simp [votesOn, hevents, hnone]
  have hvotes : votesOn kind subject (recent ++ [t]) =
      votesOn kind subject recent ++ [(voter, approve)] := by
    rw [votesOn_append, hone]
  refine ⟨recent ++ [t], hsince.append hopens, ?_, ?_, fun u hu vote hvote => ?_⟩
  · rw [hvotes, voters_cast hcast, hvoters, List.map_append]
    rfl
  · rw [hvotes, hb.approvals_cast hcast, happrovals, List.countP_append]
    cases approve <;> rfl
  · rcases List.mem_append.mp hu with hu | hu
    · exact hseated u hu vote hvote
    · rw [List.mem_singleton.mp hu] at hvote ⊢
      rw [hone, List.mem_singleton] at hvote
      rw [hvote]
      exact ⟨hseats, hother⟩

/-- Among pairs with different first parts, one first part selects one pair. -/
private theorem filter_eq_singleton {votes : List (OperatorAddress × Bool)}
    (h : (votes.map (·.1)).Nodup) {vote : OperatorAddress × Bool} (hvote : vote ∈ votes) :
    votes.filter (·.1 = vote.1) = [vote] := by
  induction votes with
  | nil => cases hvote
  | cons first rest ih =>
    rw [List.map_cons, List.nodup_cons] at h
    rcases List.mem_cons.mp hvote with rfl | hvote
    · have hnone : rest.filter (·.1 = vote.1) = [] :=
        List.filter_eq_nil_iff.mpr fun w hw hsame =>
          h.1 (List.mem_map.mpr ⟨w, hw, by simpa using hsame⟩)
      simp [hnone]
    · have hne : first.1 ≠ vote.1 := fun hsame => h.1 (List.mem_map.mpr ⟨vote, hvote, hsame.symm⟩)
      simp [hne, ih h.2 hvote]

/-- Approvals that suffice rest on as many approving operators. -/
theorem carried (h : b.AccountsFor kind subject turns) (hb : b.voters.Nodup) {necessary : UInt64}
    (hnecessary : necessary ≤ b.approvals) : Carried kind subject turns necessary := by
  obtain ⟨recent, hsince, hvoters, happrovals, hseated⟩ := h
  rw [hvoters] at hb
  refine ⟨recent, ((votesOn kind subject recent).filter (·.2)).map (·.1), hsince,
    hb.sublist (List.filter_sublist.map _), ?_, fun voter hvoter => ?_⟩
  · rw [List.length_map, ← List.countP_eq_length_filter, ← happrovals]
    exact UInt64.le_iff_toNat_le.mp hnecessary
  · obtain ⟨⟨_, approved⟩, hvote, rfl⟩ := List.mem_map.mp hvoter
    obtain ⟨hvote, happroved⟩ := List.mem_filter.mp hvote
    obtain rfl : approved = true := happroved
    refine ⟨filter_eq_singleton hb hvote, fun t ht hmem => (hseated t ht _ hmem).1, ?_⟩
    obtain ⟨t, ht, hmem⟩ := mem_votesOn_iff.mp hvote
    exact (hseated t ht _ hmem).2

end AccountsFor

end Ballot

/-! ## Ledgers -/

namespace Ledger

variable {l : Ledger} {s : Service Contents} {turns : List (Turn (Service Contents))}

/-- All ballots of a ledger account for the votes on them. -/
def Recorded (l : Ledger) (turns : List (Turn (Service Contents))) : Prop :=
  ∀ kind subject b, (l.ballots kind).get? subject = some b → b.AccountsFor kind subject turns

/-- How the ballots that are open after an act came to be what they are. -/
theorem Sound.ballotChange_act (h : l.Sound) (a : Act) {kind : Ballot.Kind}
    {subject : OperatorAddress} {b : Ballot}
    (hb : ((l.act a).2.ballots kind).get? subject = some b) :
    l.BallotChange kind subject (Reply.published (l.act a).1) b := by
  have hsilent : Silent kind subject [] := by simp [Silent]
  rcases h.act_cases a with ⟨_, heq⟩ | ⟨c, events, l', -, hstep, heq⟩ | ⟨params, -, -, heq⟩ |
    ⟨-, heq⟩
  · rw [heq] at hb ⊢
    exact .kept hsilent hb
  · rw [heq] at hb ⊢
    exact hstep.ballotChange h hb
  · rw [heq] at hb ⊢
    exact .kept hsilent (by simpa using hb)
  · rw [heq] at hb ⊢
    exact .kept hsilent (by simpa using hb)

/-- Every ballot keeps accounting for the votes on it. -/
theorem Recorded.act (hr : l.Recorded turns) (h : s.Holds l) (a : Act) :
    (l.act a).2.Recorded (turns ++ [turn Service.act s a]) := by
  intro kind subject b hb
  have hevents := h.events_eq a
  cases h.sound.ballotChange_act a hb with
  | @opened opening record single opens =>
    refine .start record ⟨opening, ?_, opens⟩
    rw [hevents, single]
    exact List.mem_singleton_self _
  | voted single wasOpen cast seated other =>
    exact (hr _ _ _ wasOpen).vote (h.sound.tallied wasOpen) cast (hevents.trans single) (by simp)
      (h.seats_iff.mpr seated) other
  | kept silent wasOpen => exact (hr _ _ _ wasOpen).silent (hevents ▸ silent)

end Ledger

/-! ## Services -/

namespace Service

variable {s s₀ : Service Contents} {l : Ledger} {turns : List (Turn (Service Contents))}

/-- An approved ballot is carried by a quorum. -/
theorem Holds.carried (h : s.Holds l) (hr : l.Recorded turns) {a : Act} {kind : Ballot.Kind}
    {candidate voter : OperatorAddress} {approve : Bool} {before after : Ballot}
    {outcome : List Event} {pool : Nat} {quorum : UInt64}
    (hopened : (l.ballots kind).get? candidate = some before)
    (hevents : (turn Service.act s a).events = kind.vote voter candidate approve :: outcome)
    (houtcome : ∀ e ∈ outcome, e.opened? = none ∧ e.voteOn? kind candidate = none)
    (hseated : (l.validators.get? voter).isSome) (hother : kind = .kickProposal → voter ≠ candidate)
    (hcast : before.cast? voter approve = some after) (hpool : pool < 2 ^ 16)
    (happroved : after.verdict (.ofNat pool) quorum = .ok .approved) :
    Carried kind candidate (turns ++ [turn Service.act s a])
      (Ballot.necessaryApprovals (.ofNat pool) quorum) := by
  have hbefore := h.sound.tallied hopened
  have hafter : after.Tallied := hbefore.cast hcast hpool happroved
  exact ((hr _ _ _ hopened).vote hbefore hcast hevents houtcome (h.seats_iff.mpr hseated) hother).carried
    hafter.voters_nodup (Ballot.necessary_le_of_approved happroved)

/-- At the end of a run all ballots account for the votes on them. -/
theorem recorded_finish {g : Genesis} {updates : List PowerUpdate} (hempty : s.store = .empty)
    (hstart : s.initialise g = .ok (updates, s₀)) (acts : List Act) :
    ∃ l, (s₀.finish acts).Holds l ∧ l.Recorded (s₀.turns acts) := by
  refine turns_induction
    (I := fun turns (s : Service Contents) => ∃ l, s.Holds l ∧ l.Recorded turns)
    (G := fun _ => True) ?_ ⟨_, holds_initialise hempty hstart, fun kind subject b hb => ?_⟩
    fun _ _ => trivial
  · rintro turns s a ⟨l, h, hr⟩ -
    exact ⟨_, h.act a, hr.act h a⟩
  · rw [Ledger.get?_ballots_establish] at hb
    cases hb

/-- **Decisions rest on quorums.** In every turn of a run, whoever is admitted by a vote on an
application is carried by a quorum of the registry as it stands, and whoever is expelled by a vote on
a kick proposal by one of all others in it. All other admissions and expulsions come from
submissions and proposals while the quorum is zero. -/
theorem decided_by_quorum {g : Genesis} {updates : List PowerUpdate} {acts : List Act}
    {past later : List (Turn (Service Contents))} {t : Turn (Service Contents)}
    (hempty : s.store = .empty) (hstart : s.initialise g = .ok (updates, s₀))
    (hsplit : s₀.turns acts = past ++ t :: later) :
    t.after.sink = t.before.sink.publish t.events ∧
    ∃ seated params, t.before.view Registry.size = .ok seated ∧ t.before.params = .ok params ∧
    ∀ candidate,
      (.appendValidator candidate ∈ t.events →
        (∃ voter approve, t.act.command? = some (.voteApplication voter candidate approve) ∧
          Carried .application candidate (past ++ [t])
            (Ballot.necessaryApprovals (.ofNat seated) params.quorum.toUInt64)) ∨
        ∃ v, t.act.command? = some (.submitApplication v) ∧ v.operator = candidate ∧
          params.quorum = 0) ∧
      (.kickValidator candidate ∈ t.events →
        (∃ voter approve, t.act.command? = some (.voteKickProposal voter candidate approve) ∧
          Carried .kickProposal candidate (past ++ [t])
            (Ballot.necessaryApprovals (.ofNat (seated - 1)) params.quorum.toUInt64)) ∨
        ∃ proposer, t.act.command? = some (.proposeKick candidate proposer) ∧
          params.quorum = 0) := by
  obtain ⟨before, a, after, rfl, rfl, rfl⟩ := turns_eq_append_cons hsplit
  -- what is known when the turn begins
  obtain ⟨l, h, hr⟩ := recorded_finish hempty hstart before
  have hevents := h.events_eq a
  have hzero : l.inForce.isInstant → l.inForce.quorum = 0 := fun hinstant => beq_iff_eq.mp hinstant
  refine ⟨?_, l.validators.size, l.inForce, h.view_eq Ledger.run_size, h.params_eq,
    fun candidate => ⟨fun hmem => ?_, fun hmem => ?_⟩⟩
  · have hsink := (h.act_eq a).2.2
    rw [← hevents] at hsink
    exact hsink
  · obtain ⟨c, hc, hstep⟩ := h.sound.step_of_mem_published (hevents ▸ hmem)
    rcases hstep.admission (hevents ▸ hmem) with
      ⟨voter, approve, b, b', rfl, hes, hseated, hopened, hcast, happroved⟩ | ⟨v, rfl, hv, hinstant⟩
    · have hopened : (l.ballots .application).get? candidate = some b := hopened
      refine .inl ⟨voter, approve, hc, h.carried hr hopened (hevents.trans hes) ?_ hseated (by simp)
        hcast h.sound.size_lt happroved⟩
      simp [Event.opened?, Event.voteOn?]
    · exact .inr ⟨v, hc, hv, hzero hinstant⟩
  · obtain ⟨c, hc, hstep⟩ := h.sound.step_of_mem_published (hevents ▸ hmem)
    rcases hstep.expulsion (hevents ▸ hmem) with
      ⟨voter, approve, b, b', rfl, hes, hother, hseated, hopened, hcast, happroved⟩ |
      ⟨proposer, rfl, hinstant⟩
    · have hopened : (l.ballots .kickProposal).get? candidate = some b := hopened
      have hpool : l.validators.size - 1 < 2 ^ 16 :=
        Nat.lt_of_le_of_lt (Nat.sub_le _ _) h.sound.size_lt
      refine .inl ⟨voter, approve, hc, h.carried hr hopened (hevents.trans hes) ?_ hseated
        (fun _ => hother) hcast hpool happroved⟩
      simp [Event.opened?, Event.voteOn?]
    · exact .inr ⟨proposer, hc, hzero hinstant⟩

/-- The only validator admits another one. -/
def admitSecond : List Act :=
  [.handle (.submitApplication (.uniform 2 2)),
   .handle (.voteApplication (Validator.uniform 1 1).operator (Validator.uniform 2 2).operator
     true)]

theorem decided_by_quorum_admitSecond : Carried .application (Validator.uniform 2 2).operator
    ((founded .lone).turns admitSecond) (Ballot.necessaryApprovals 1 66) := by
  obtain ⟨-, seated, params, hseated, hparams, hdecided⟩ := decided_by_quorum rfl
    (initialise_founded (g := .lone) (by decide))
    (show (founded .lone).turns admitSecond = [_] ++ _ :: [] from rfl)
  obtain rfl : seated = 1 := Except.ok.inj (hseated.symm.trans (by decide +kernel))
  obtain rfl : params = {} := Except.ok.inj (hparams.symm.trans (by decide +kernel))
  rcases (hdecided (Validator.uniform 2 2).operator).1 (by decide +kernel) with
    ⟨_, _, -, hcarried⟩ | ⟨v, hv, -⟩
  · exact hcarried
  · cases hv

end Service

end AuthoritySet
