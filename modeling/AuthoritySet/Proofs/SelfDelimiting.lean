import AuthoritySet.Proofs.Genesis
import AuthoritySet.Proofs.Record

/-!
# Stored records say where they end

A reader takes what it needs from the beginning of its input and does not look at what follows
(`Record.Steady`); all readers of records are made of such readers. So a record that reads back is
not the beginning of another one, and one that is cut off is not read as anything.

* `Record.Steady.bind`, `Record.steady_takeMany`: readers one after the other.
* `Record.selfDelimiting_of_readsBack`: values that read back are self-delimiting.
* `Record.records_selfDelimiting`: parameters, validators and ballots.
-/

namespace AuthoritySet

namespace Record

variable {α β : Type}

/-- What a reader takes from some bytes, it takes from every continuation of them. -/
def Steady (reader : Reader α) : Prop :=
  ∀ input value rest, reader.run input = some (value, rest) →
    ∀ more, reader.run (input ++ more) = some (value, rest ++ more)

/-- The types whose reader does not look ahead. -/
class SteadilyRead (α : Type) [Record α] : Prop where
  steady : Steady (reader (α := α))

/-- How the values with a property are stored: each is read from the beginning of any bytes that
start with its form, no form is the beginning of another one, and none is read once it is cut
off. -/
structure SelfDelimiting [Record α] (P : α → Prop) : Prop where
  decode_append {value : α} : P value → ∀ rest, decode (encode value ++ rest) = .ok value
  isPrefix_iff {value other : α} : P value → P other →
    (encode value <+: encode other ↔ value = other)
  decode_truncated {value : α} {part : Bytes} : P value → part <+: encode value →
    part ≠ encode value → (decode part : Except Failure α) = .error (.codec .malformedRecord)

/-! ## Readers one after the other -/

theorem steady_pure (value : α) : Steady (pure value) := by
  intro input result rest h more
  cases h
  rfl

theorem steady_failure : Steady (failure : Reader α) := nofun

theorem Steady.bind {reader : Reader α} {next : α → Reader β} (h : Steady reader)
    (hnext : ∀ value, Steady (next value)) : Steady (reader >>= next) := by
  intro input result rest hrun more
  rw [StateT.run_bind] at hrun ⊢
  cases hfirst : reader.run input with
  | none => rw [hfirst] at hrun; cases hrun
  | some taken =>
    obtain ⟨value, between⟩ := taken
    rw [hfirst] at hrun
    rw [h input value between hfirst more]
    exact hnext value between result rest hrun more

theorem steady_takeBytes (count : Nat) : Steady (takeBytes count) := by
  intro input bytes rest h more
  simp only [takeBytes, StateT.run] at h ⊢
  split at h
  · rename_i hcount
    cases h
    have hmore : count ≤ (input ++ more).length := by rw [List.length_append]; omega
    rw [if_pos hmore, List.take_append_of_le_length hcount, List.drop_append_of_le_length hcount]
  · cases h

theorem steady_takeNumber (width : Nat) : Steady (takeNumber width) :=
  (steady_takeBytes width).bind fun _ => steady_pure _

theorem steady_takeMany {reader : Reader α} (h : Steady reader) (count : Nat) :
    Steady (takeMany reader count) := by
  induction count with
  | zero => exact steady_pure []
  | succ count ih => exact h.bind fun _ => ih.bind fun _ => steady_pure _

/-! ## The readers of records -/

open SteadilyRead (steady)

instance : SteadilyRead UInt16 where
  steady := (steady_takeNumber 2).bind fun _ => steady_pure _

instance : SteadilyRead UInt64 where
  steady := (steady_takeNumber 8).bind fun _ => steady_pure _

instance : SteadilyRead String where
  steady := (steady_takeNumber 8).bind fun length => (steady_takeBytes length).bind fun _ => by
    split
    · exact steady_pure _
    · exact steady_failure

instance : SteadilyRead DisplayText where
  steady := (steady (α := String)).bind fun _ => by
    split
    · exact steady_pure _
    · exact steady_failure

instance {kind : IdentityKind} : SteadilyRead (Identity kind) where
  steady := (steady_takeBytes kind.size).bind fun _ => by
    split
    · exact steady_pure _
    · exact steady_failure

instance [Record α] [SteadilyRead α] : SteadilyRead (List α) where
  steady := (steady_takeNumber 8).bind fun length => steady_takeMany steady length

instance : SteadilyRead Params where
  steady := steady.bind fun _ => steady.bind fun _ => steady_pure _

instance : SteadilyRead Description where
  steady := steady.bind fun _ => steady.bind fun _ => steady.bind fun _ => steady.bind fun _ =>
    steady.bind fun _ => steady_pure _

instance : SteadilyRead Validator where
  steady := steady.bind fun _ => steady.bind fun _ => steady.bind fun _ => steady_pure _

instance : SteadilyRead Ballot where
  steady := steady.bind fun _ => steady.bind fun _ => steady.bind fun _ => steady.bind fun _ =>
    steady_pure _

/-! ## Records -/

/-- Values that read back are self-delimiting, if their reader does not look ahead. -/
theorem selfDelimiting_of_readsBack [Record α] [SteadilyRead α] {P : α → Prop}
    (h : ∀ value, P value → ReadsBack value) : SelfDelimiting P where
  decode_append hvalue := (h _ hvalue).decode_append
  isPrefix_iff {value other} hvalue hother := by
    constructor
    · rintro ⟨rest, hrest⟩
      have hread : decode (encode other) = .ok value := hrest ▸ (h _ hvalue).decode_append rest
      rw [(h _ hother).decode] at hread
      exact (Except.ok.inj hread).symm
    · rintro rfl
      exact List.prefix_rfl
  decode_truncated {value part} hvalue := by
    rintro ⟨missing, hmissing⟩ hpart
    rw [decode]
    cases hread : (reader (α := α)).run part with
    | none => rfl
    | some taken =>
      -- the same would be taken from the whole form, and the missing bytes would be left over
      obtain ⟨found, rest⟩ := taken
      have hwhole := SteadilyRead.steady part found rest hread missing
      have hform := h value hvalue []
      rw [List.append_nil, ← hmissing, hwhole] at hform
      have hleft : rest ++ missing = [] := (Prod.mk.inj (Option.some.inj hform)).2
      rw [(List.append_eq_nil_iff.mp hleft).2, List.append_nil] at hmissing
      exact absurd hmissing hpart

/-- **Stored records are read as what was stored.** Parameters, validators, and ballots whose voters
eight bytes can count are read from their form whatever follows it, no form is another one or its
beginning, and what is cut off is refused. -/
theorem records_selfDelimiting :
    SelfDelimiting (fun _ : Params => True) ∧ SelfDelimiting (fun _ : Validator => True) ∧
    SelfDelimiting (fun b : Ballot => b.voters.length < 2 ^ 64) :=
  ⟨selfDelimiting_of_readsBack fun p _ => Faithful.readsBack p,
    selfDelimiting_of_readsBack fun v _ => Faithful.readsBack v,
    selfDelimiting_of_readsBack fun _ hvoters => readsBack_ballot hvoters⟩

/-- A ballot with one vote is read although a byte follows it, and refused if its last byte is
missing. -/
theorem records_selfDelimiting_oneVote :
    let b : Ballot := ⟨.uniform 2 2, 1, 1, [(Validator.uniform 1 1).operator]⟩
    b.voters.length < 2 ^ 64 ∧
    (decode (encode b ++ [7]) : Except Failure Ballot) = .ok b ∧
    (decode (encode b).dropLast : Except Failure Ballot) = .error (.codec .malformedRecord) := by
  intro b
  have hvoters : b.voters.length < 2 ^ 64 := by decide
  have hcut : (encode b).dropLast ≠ encode b := by decide
  exact ⟨hvoters, records_selfDelimiting.2.2.decode_append hvoters [7],
    records_selfDelimiting.2.2.decode_truncated hvoters (List.dropLast_prefix _) hcut⟩

end Record

end AuthoritySet
