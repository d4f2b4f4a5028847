import AuthoritySet.Record
import Mathlib.Algebra.Group.Nat.Defs

/-!
# Stored records read back

`Record.ReadsBack value`: reading the binary form of `value` gives it back and leaves what follows.
The form of a record is that of its fields one after the other, so this is shown field by field
(`Reads.bind`). All values of most types read back (`Record.Faithful`); a list does if eight bytes
count its items.
-/

namespace AuthoritySet

namespace Record

variable {α β : Type}

/-- From `bytes` the reader takes `value` and leaves what follows. -/
def Reads (reader : Reader α) (bytes : Bytes) (value : α) : Prop :=
  ∀ rest, reader.run (bytes ++ rest) = some (value, rest)

/-- The binary form of a value is read as that value. -/
def ReadsBack [Record α] (value : α) : Prop := Reads reader (encode value) value

/-- The types all of whose values read back. -/
class Faithful (α : Type) [Record α] : Prop where
  readsBack : ∀ value : α, ReadsBack value

/-! ## Readers one after the other -/

theorem Reads.nothing (value : α) : Reads (pure value) [] value := fun _ => rfl

theorem Reads.bind {reader : Reader α} {next : α → Reader β} {bytes more : Bytes} {value : α}
    {result : β} (h : Reads reader bytes value) (h' : Reads (next value) more result) :
    Reads (reader >>= next) (bytes ++ more) result := by
  intro rest
  rw [StateT.run_bind, List.append_assoc, h (more ++ rest)]
  exact h' rest

/-- Reading goes on with a result that takes no more bytes. -/
theorem Reads.andThen {reader : Reader α} {next : α → Reader β} {bytes : Bytes} {value : α}
    {result : β} (h : Reads reader bytes value) (hnext : next value = pure result) :
    Reads (reader >>= next) bytes result := by
  intro rest
  rw [StateT.run_bind, h rest]
  show (next value).run rest = _
  rw [hnext]
  rfl

/-- A value that reads back can be decoded, whatever follows it. -/
theorem ReadsBack.decode_append [Record α] {value : α} (h : ReadsBack value) (rest : Bytes) :
    decode (encode value ++ rest) = .ok value := by
  simp [decode, h rest]

theorem ReadsBack.decode [Record α] {value : α} (h : ReadsBack value) :
    Record.decode (encode value) = .ok value := by
  simpa using h.decode_append []

@[simp] theorem decode_encode [Record α] [Faithful α] (value : α) :
    Record.decode (encode value) = .ok value :=
  (Faithful.readsBack value).decode

/-! ## Bytes and numbers -/

theorem reads_takeBytes (bytes : Bytes) : Reads (takeBytes bytes.length) bytes bytes := by
  intro rest
  simp [takeBytes, StateT.run]

theorem length_littleEndian (width n : Nat) : (littleEndian width n).length = width := by
  induction width generalizing n with
  | zero => rfl
  | succ width ih => simp [littleEndian, ih]

/-- A number that fits its bytes is the number with these bytes. -/
theorem ofLittleEndian_littleEndian {width n : Nat} (h : n < 256 ^ width) :
    ofLittleEndian (littleEndian width n) = n := by
  induction width generalizing n with
  | zero => simp [littleEndian, ofLittleEndian] at h ⊢; omega
  | succ width ih =>
    have hdiv : n / 256 < 256 ^ width := by
      rw [Nat.pow_succ] at h
      exact Nat.div_lt_of_lt_mul (by omega)
    simp only [littleEndian, ofLittleEndian, ih hdiv, UInt8.toNat_ofNat']
    omega

theorem reads_takeNumber {width n : Nat} (h : n < 256 ^ width) :
    Reads (takeNumber width) (littleEndian width n) n := by
  have hbytes := reads_takeBytes (littleEndian width n)
  rw [length_littleEndian] at hbytes
  exact hbytes.andThen (by rw [ofLittleEndian_littleEndian h])

instance : Faithful UInt16 where
  readsBack n := (reads_takeNumber n.toNat_lt).andThen (by rw [UInt16.ofNat_toNat])

instance : Faithful UInt64 where
  readsBack n := (reads_takeNumber n.toNat_lt).andThen (by rw [UInt64.ofNat_toNat])

/-! ## Texts, identities and lists -/

/-- A text reads back if eight bytes count its bytes. -/
theorem readsBack_text {text : String} (h : (Bytes.ofText text).length < 2 ^ 64) :
    ReadsBack text := by
  have hnumber : Reads (takeNumber 8) _ (Bytes.ofText text).length := reads_takeNumber h
  exact hnumber.bind ((reads_takeBytes _).andThen (by rw [Bytes.text?_ofText]))

instance : Faithful DisplayText where
  readsBack text :=
    (readsBack_text text.length_lt).andThen (by rw [DisplayText.ofString?_value])

instance {kind : IdentityKind} : Faithful (Identity kind) where
  readsBack id := by
    have hbytes := reads_takeBytes id.bytes
    rw [id.length_eq] at hbytes
    have hid : Identity.ofBytes? id.bytes = some id := by simp [Identity.ofBytes?, id.length_eq]
    exact hbytes.andThen (by rw [hid])

theorem reads_takeMany [Record α] [Faithful α] (values : List α) :
    Reads (takeMany (reader (α := α)) values.length) (values.flatMap encode) values := by
  induction values with
  | nil => exact Reads.nothing []
  | cons value rest ih =>
    rw [List.flatMap_cons, List.length_cons]
    exact (Faithful.readsBack value).bind (ih.andThen rfl)

/-- A list reads back if eight bytes count its items. -/
theorem readsBack_list [Record α] [Faithful α] {values : List α} (h : values.length < 2 ^ 64) :
    ReadsBack values := by
  have hnumber : Reads (takeNumber 8) _ values.length := reads_takeNumber h
  exact hnumber.bind (reads_takeMany values)

/-! ## Records -/

instance : Faithful Params where
  readsBack p :=
    (Faithful.readsBack p.maxValidators).bind <| (Faithful.readsBack p.quorum).andThen rfl

instance : Faithful Description where
  readsBack d := by
    have hform : encode d = encode d.moniker ++ (encode d.identity ++ (encode d.website ++
        (encode d.securityContact ++ encode d.details))) := by
      simp only [encode, List.append_assoc]
    rw [ReadsBack, hform]
    refine (Faithful.readsBack d.moniker).bind ?_
    refine (Faithful.readsBack d.identity).bind ?_
    refine (Faithful.readsBack d.website).bind ?_
    refine (Faithful.readsBack d.securityContact).bind ?_
    exact (Faithful.readsBack d.details).andThen rfl

instance : Faithful Validator where
  readsBack v := by
    have hform : encode v = encode v.operator ++ (encode v.key ++ encode v.description) := by
      simp only [encode, List.append_assoc]
    rw [ReadsBack, hform]
    refine (Faithful.readsBack v.operator).bind ?_
    refine (Faithful.readsBack v.key).bind ?_
    exact (Faithful.readsBack v.description).andThen rfl

/-- A ballot reads back if eight bytes count its voters. -/
theorem readsBack_ballot {b : Ballot} (h : b.voters.length < 2 ^ 64) : ReadsBack b := by
  have hform : encode b = encode b.subject ++ (encode b.approvals ++ (encode b.total ++
      encode b.voters)) := by
    simp only [encode, List.append_assoc]
  rw [ReadsBack, hform]
  refine (Faithful.readsBack b.subject).bind ?_
  refine (Faithful.readsBack b.approvals).bind ?_
  refine (Faithful.readsBack b.total).bind ?_
  exact (readsBack_list h).andThen rfl

end Record

end AuthoritySet
