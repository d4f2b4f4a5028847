/-!
# Byte strings

Keys, stored values and documents are byte strings. They are compared byte by byte, so that a byte
string comes directly before its own continuations.

* `Bytes.ofText`: the UTF-8 form of a text.
* `Bytes.text?`: the text that a byte string is the UTF-8 form of, if it is one.
* `Bytes.ascii`: the text of a byte string that holds ASCII alone.
* `Bytes.isPrefixOf_of_between`: the byte strings with one beginning stand together in the order.
-/

namespace AuthoritySet

/-- A byte string. -/
abbrev Bytes := List UInt8

namespace Bytes

instance : Std.IsLinearOrder Bytes := inferInstanceAs (Std.IsLinearOrder (List UInt8))

instance : Std.LawfulOrderLT Bytes := inferInstanceAs (Std.LawfulOrderLT (List UInt8))

/-- The UTF-8 form of a text. -/
def ofText (text : String) : Bytes := text.toByteArray.data.toList

/-- The text with this UTF-8 form, if there is one. -/
def text? (bytes : Bytes) : Option String := String.fromUTF8? ⟨bytes.toArray⟩

/-- Reading the UTF-8 form of a text gives the text back. -/
theorem text?_ofText (text : String) : text? (ofText text) = some text := by
  have h : (⟨(ofText text).toArray⟩ : ByteArray) = text.toByteArray := rfl
  simp only [text?, String.fromUTF8?, h, text.isValidUTF8, ↓reduceDIte]
  rfl

/-- The text whose characters have these bytes as their code points. -/
def ascii (bytes : Bytes) : String := String.ofList (bytes.map fun b => Char.ofNat b.toNat)

/-- ASCII characters have themselves as their UTF-8 form. -/
theorem ofText_ascii {bytes : Bytes} (h : ∀ b ∈ bytes, b < 0x80) : ofText (ascii bytes) = bytes := by
  have form : ∀ b : UInt8, b < 0x80 → String.utf8EncodeChar (Char.ofNat b.toNat) = [b] := by
    have values : ∀ k < 128, String.utf8EncodeChar (Char.ofNat k) = [UInt8.ofNat k] := by decide
    intro b hb
    have := values b.toNat (UInt8.lt_iff_toNat_lt.mp hb)
    rwa [UInt8.ofNat_toNat] at this
  simp only [ofText, ascii, String.toByteArray_ofList, List.utf8Encode, List.data_toByteArray]
  induction bytes with
  | nil => rfl
  | cons b rest ih =>
    rw [List.forall_mem_cons] at h
    have := ih h.2
    simp_all

/-! ## Beginnings -/

/-- A byte string is not after its continuations. -/
theorem le_of_isPrefixOf : {start key : Bytes} → start.isPrefixOf key = true → start ≤ key
  | [], _, _ => List.nil_le _
  | _ :: _, [], h => by simp [List.isPrefixOf] at h
  | b :: start, c :: key, h => by
    simp only [List.isPrefixOf, Bool.and_eq_true, beq_iff_eq] at h
    obtain ⟨rfl, h⟩ := h
    exact List.cons_le_cons_iff.mpr (.inr ⟨rfl, le_of_isPrefixOf h⟩)

/-- The continuations of a byte string stand together. -/
theorem isPrefixOf_of_between : {start key later : Bytes} → start ≤ key → key ≤ later →
    start.isPrefixOf later = true → start.isPrefixOf key = true
  | [], _, _, _, _, _ => rfl
  | _ :: _, [], _, h, _, _ => by simp at h
  | _ :: _, _ :: _, [], _, h, _ => by simp at h
  | b :: start, c :: key, d :: later, h₁, h₂, h₃ => by
    simp only [List.isPrefixOf, Bool.and_eq_true, beq_iff_eq] at h₃ ⊢
    obtain ⟨rfl, h₃⟩ := h₃
    rcases List.cons_le_cons_iff.mp h₁ with hlt | ⟨rfl, h₁'⟩
    · rcases List.cons_le_cons_iff.mp h₂ with hlt' | ⟨rfl, _⟩
      · exact absurd (Std.lt_trans hlt hlt') Std.lt_irrefl
      · exact absurd hlt Std.lt_irrefl
    · rcases List.cons_le_cons_iff.mp h₂ with hlt' | ⟨_, h₂'⟩
      · exact absurd hlt' Std.lt_irrefl
      · exact ⟨rfl, isPrefixOf_of_between h₁' h₂' h₃⟩

end Bytes

end AuthoritySet
