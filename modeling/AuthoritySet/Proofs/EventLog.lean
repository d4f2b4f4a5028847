import AuthoritySet.Proofs.Quorum
import AuthoritySet.Proofs.Round

/-!
# The log of events

Whoever keeps all events knows every open ballot: it was opened by an event, and the votes that the
log has on it since it was opened last are the votes on the ballot, in the same order
(`Ballot.LoggedIn`). No vote on an earlier ballot on the same subject is among them, no vote that was
refused, and no vote on another ballot.

* `Ledger.Logged.act`: acts add to the log what they do to the ballots.
* `Service.log_accounts_for_ballots`: the log of a run and the ballots at its end.
-/

namespace AuthoritySet

namespace Ballot

variable {kind : Kind} {subject voter : OperatorAddress} {approve : Bool} {b after : Ballot}
  {log events : List Event}

/-- A vote adds itself to the votes that a ballot has the numbers of. -/
theorem Reflects.cast {votes : List (OperatorAddress × Bool)} (hb : b.Reflects votes)
    (hcount : votes.length + 1 < 2 ^ 64) (hcast : b.cast? voter approve = some after) :
    after.Reflects (votes ++ [(voter, approve)]) := by
  have hnew : voter ∉ votes.map (·.1) := hb.voters_eq ▸ notMem_of_cast hcast
  obtain ⟨after', hcast', hafter⟩ := add hb (show (voter, approve).1 ∉ _ from hnew) hcount
  rw [hcast] at hcast'
  rwa [Option.some.inj hcast']

/-- The log has an event that opened the ballot of a kind on a subject, and the votes on it after
the last such event are those on the ballot. -/
def LoggedIn (b : Ballot) (kind : Kind) (subject : OperatorAddress) (log : List Event) : Prop :=
  ∃ older opening recent, log = older ++ opening :: recent ∧
    opening.opened? = some (kind, subject) ∧ (∀ e ∈ recent, e.opened? ≠ some (kind, subject)) ∧
    b.Reflects (recent.filterMap (Event.voteOn? kind subject))

namespace LoggedIn

theorem start (record : Validator) {opening : Event}
    (hopens : opening.opened? = some (kind, subject)) :
    (Ballot.start record).LoggedIn kind subject (log ++ [opening]) :=
  ⟨log, opening, [], rfl, hopens, by simp, .start record⟩

/-- Events that are not about the ballot leave its votes as they are. -/
theorem silent (h : b.LoggedIn kind subject log) (hevents : Ledger.Silent kind subject events) :
    b.LoggedIn kind subject (log ++ events) := by
  obtain ⟨older, opening, recent, rfl, hopens, hnone, hvotes⟩ := h
  have hnovotes : events.filterMap (Event.voteOn? kind subject) = [] :=
    List.filterMap_eq_nil_iff.mpr fun e he => (hevents e he).2
  refine ⟨older, opening, recent ++ events, by simp, hopens, fun e he => ?_, ?_⟩
  · rcases List.mem_append.mp he with he | he
    · exact hnone e he
    · exact (hevents e he).1
  · rwa [List.filterMap_append, hnovotes, List.append_nil]

/-- The event of a vote adds it. -/
theorem vote (h : b.LoggedIn kind subject log) (hb : b.Tallied)
    (hcast : b.cast? voter approve = some after) :
    after.LoggedIn kind subject (log ++ [kind.vote voter subject approve]) := by
  obtain ⟨older, opening, recent, rfl, hopens, hnone, hvotes⟩ := h
  have hlength := congrArg List.length hvotes.voters_eq
  rw [List.length_map] at hlength
  have hlt := hb.counted.voters_succ_lt
  refine ⟨older, opening, recent ++ [kind.vote voter subject approve], by simp, hopens,
    fun e he => ?_, ?_⟩
  · rcases List.mem_append.mp he with he | he
    · exact hnone e he
    · simp [List.mem_singleton.mp he]
  · rw [List.filterMap_append]
    simpa using hvotes.cast (hlength ▸ hlt) hcast

end LoggedIn

end Ballot

/-! ## Ledgers -/

namespace Ledger

variable {l : Ledger} {log : List Event}

/-- The log accounts for all ballots of a ledger. -/
def Logged (l : Ledger) (log : List Event) : Prop :=
  ∀ kind subject b, (l.ballots kind).get? subject = some b → b.LoggedIn kind subject log

/-- The events of an act account for what it does to the ballots. -/
theorem Logged.act (h : l.Logged log) (hl : l.Sound) (a : Act) :
    (l.act a).2.Logged (log ++ Reply.published (l.act a).1) := by
  intro kind subject b hb
  cases hl.ballotChange_act a hb with
  | opened single opens =>
    rw [single]
    exact .start _ opens
  | voted single wasOpen cast =>
    rw [single]
    exact (h _ _ _ wasOpen).vote (hl.tallied wasOpen) cast
  | kept silent wasOpen => exact (h _ _ _ wasOpen).silent silent

end Ledger

/-! ## Services -/

namespace Service

variable {s s₀ : Service Contents} {l : Ledger} {log : List Event}

/-- A service that keeps its events goes on with its log, which accounts for all ballots. -/
theorem Holds.logged_finish (h : s.Holds l) (hsink : s.sink = .memory log) (hlog : l.Logged log)
    (acts : List Act) : (s.finish acts).sink = .memory (log ++ (s.turns acts).flatMap Turn.events) ∧
      ∃ l', (s.finish acts).Holds l' ∧ l'.Logged (log ++ (s.turns acts).flatMap Turn.events) := by
  refine turns_induction
    (I := fun turns (s : Service Contents) => s.sink = .memory (log ++ turns.flatMap Turn.events) ∧
      ∃ l, s.Holds l ∧ l.Logged (log ++ turns.flatMap Turn.events))
    (G := fun _ => True) ?_ ⟨by simpa using hsink, l, h, by simpa using hlog⟩ fun _ _ => trivial
  rintro turns s a ⟨hsink, l, h, hlog⟩ -
  have hevents : log ++ (turns ++ [turn Service.act s a]).flatMap Turn.events =
      (log ++ turns.flatMap Turn.events) ++ Reply.published (l.act a).1 := by
    simp [h.events_eq]
  rw [hevents]
  refine ⟨?_, _, h.act a, hlog.act h.sound a⟩
  rw [(h.act_eq a).2.2, hsink, Sink.publish]

/-- **The log accounts for every open ballot.** A service that keeps its events has, at the end of
any run, those that it had and those of all turns; and whatever ballot is open then was opened by one
of them, and has exactly the votes that the log has on it after it was opened last. -/
theorem log_accounts_for_ballots {g : Genesis} {updates : List PowerUpdate} {acts : List Act}
    (hempty : s.store = .empty) (hsink : s.sink = .memory log)
    (hstart : s.initialise g = .ok (updates, s₀)) :
    (s₀.finish acts).sink.events = log ++ (s₀.turns acts).flatMap Turn.events ∧
    ∀ kind subject, ∃ found,
      (s₀.finish acts).view (Registry.ballot? kind subject) = .ok found ∧
      ∀ b ∈ found, b.subject.operator = subject ∧
        b.LoggedIn kind subject (s₀.finish acts).sink.events := by
  obtain ⟨-, -, hs₀⟩ := (initialise_eq_ok_iff hempty).mp hstart
  have hfounded : (({} : Ledger).establish g).2.Logged log := by
    intro kind subject b hb
    rw [Ledger.get?_ballots_establish] at hb
    cases hb
  obtain ⟨hlog, l, h, hlogged⟩ := (holds_initialise hempty hstart).logged_finish
    (by rw [hs₀, hsink]) hfounded acts
  rw [hlog, Sink.events]
  refine ⟨rfl, fun kind subject =>
    ⟨_, h.view_eq (Ledger.run_ballot? h.sound.legible kind subject), fun b hb => ?_⟩⟩
  exact ⟨h.sound.ballot_keyed hb, hlogged kind subject b hb⟩

/-- An application is rejected, opened again and voted on by somebody else; in between a vote is cast
on another one. -/
def applyAgain : List Act :=
  [.setParams { quorum := 0 },
   .handle (.submitApplication (.uniform 2 2)),
   .setParams { quorum := 100 },
   .handle (.submitApplication (.uniform 3 3)),
   .handle (.submitApplication (.uniform 4 4)),
   .handle (.voteApplication (Validator.uniform 1 1).operator (Validator.uniform 3 3).operator
     false),
   .handle (.submitApplication (.uniform 3 3)),
   .handle (.voteApplication (Validator.uniform 1 1).operator (Validator.uniform 4 4).operator
     true),
   .handle (.voteApplication (Validator.uniform 2 2).operator (Validator.uniform 3 3).operator
     true)]

theorem log_accounts_for_applyAgain : ∃ b : Ballot,
    b.voters = [(Validator.uniform 2 2).operator] ∧
    b.LoggedIn .application (Validator.uniform 3 3).operator
      ((founded .lone).finish applyAgain).sink.events := by
  have haccounts : ∀ kind subject, ∃ found, ((founded .lone).finish applyAgain).view
      (Registry.ballot? kind subject) = .ok found ∧ ∀ b ∈ found, b.subject.operator = subject ∧
        b.LoggedIn kind subject ((founded .lone).finish applyAgain).sink.events :=
    (log_accounts_for_ballots rfl rfl (initialise_founded (by decide))).2
  obtain ⟨found, hfound, hlogged⟩ := haccounts .application (Validator.uniform 3 3).operator
  have hopen : ((founded .lone).finish applyAgain).view
      (Registry.ballot? .application (Validator.uniform 3 3).operator) =
      .ok (some ⟨.uniform 3 3, 1, 1, [(Validator.uniform 2 2).operator]⟩) := by decide +kernel
  rw [hopen] at hfound
  obtain rfl := Except.ok.inj hfound
  exact ⟨_, rfl, (hlogged _ rfl).2⟩

end Service

end AuthoritySet
