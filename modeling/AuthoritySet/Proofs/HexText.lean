import AuthoritySet.Proofs.Ledger.Basic
import AuthoritySet.Proofs.Wire

/-!
# The text form of identities

An identity is read in two ways: from a text of its own (`Identity.ofHex`), and from a string in a JSON
document. The first knows how many bytes to expect, the second reads all bytes and then counts them.
Both come to the same digit pairs of the text's UTF-8 form (`Identity.ofHex_eq_ok_iff`,
`Identity.ofJson?_ofText_eq_some_iff`).

* `Hex.exists_decodePairs_iff`: which bytes are digit pairs.
* `Hex.ascii_encode`: writing again what was read gives the text in lower case.
* `Hex.digits_ofText_iff`: texts whose UTF-8 form consists of digits are texts of digits.
* `Hex.flatMap_escapeByte_encode`: digits are written in JSON as they are.
* `Identity.readers_agree`: both readers, and the texts that they accept.
-/

namespace AuthoritySet

/-! ## Characters and bytes -/

namespace Bytes

/-- A byte string is the UTF-8 form of one text only. -/
theorem ofText_injective {text other : String} (h : ofText text = ofText other) : text = other := by
  have hread := text?_ofText text
  rw [h, text?_ofText] at hread
  exact (Option.some.inj hread).symm

/-- A text whose UTF-8 form holds ASCII alone has a character for each byte. -/
theorem ascii_ofText {text : String} (h : ∀ b ∈ ofText text, b < 0x80) :
    ascii (ofText text) = text :=
  ofText_injective (ofText_ascii h)

/-- A text of ASCII characters has their numbers as its UTF-8 form. -/
theorem ofText_of_lt {text : String} (h : ∀ c ∈ text.toList, c.toNat < 0x80) :
    ofText text = text.toList.map fun c => UInt8.ofNat c.toNat := by
  have hnumber : ∀ c ∈ text.toList, (UInt8.ofNat c.toNat).toNat = c.toNat := fun c hc =>
    UInt8.toNat_ofNat_of_lt' (Nat.lt_trans (h c hc) (by decide))
  have htext : ascii (text.toList.map fun c => UInt8.ofNat c.toNat) = text := by
    rw [← String.toList_inj, ascii, String.toList_ofList, List.map_map]
    refine (List.map_congr_left fun c hc => ?_).trans (List.map_id _)
    rw [Function.comp_apply, hnumber c hc, Char.ofNat_toNat, id]
  have hlt : ∀ b ∈ text.toList.map fun c => UInt8.ofNat c.toNat, b < 0x80 := by
    intro b hb
    obtain ⟨c, hc, rfl⟩ := List.mem_map.mp hb
    rw [UInt8.lt_iff_toNat_lt, hnumber c hc]
    exact h c hc
  rw [← ofText_ascii hlt, htext]

end Bytes

namespace Hex

/-- The characters that are digits, in either case. -/
def IsDigit (c : Char) : Prop :=
  ('0' ≤ c ∧ c ≤ '9') ∨ ('a' ≤ c ∧ c ≤ 'f') ∨ ('A' ≤ c ∧ c ≤ 'F')

instance (c : Char) : Decidable (IsDigit c) := inferInstanceAs (Decidable (_ ∨ _ ∨ _))

/-- What holds of the numbers below 256 holds of all bytes. -/
theorem byte_forall {P : UInt8 → Prop} (h : ∀ k < 256, P (UInt8.ofNat k)) (b : UInt8) : P b := by
  have hb := h b.toNat b.toNat_lt
  rwa [UInt8.ofNat_toNat] at hb

/-- A byte has a value exactly if it stands for an ASCII digit. -/
theorem isSome_digitValue?_iff (b : UInt8) :
    (digitValue? b).isSome ↔ b < 0x80 ∧ IsDigit (Char.ofNat b.toNat) := by
  revert b
  exact byte_forall (by decide +kernel)

theorem digitValue?_lt {b n : UInt8} (h : digitValue? b = some n) : n < 16 := by
  have hvalues : ∀ b : UInt8, ∀ n ∈ digitValue? b, n < 16 := byte_forall (by decide +kernel)
  exact hvalues b n h

/-- The digit for the value of a digit is that digit in lower case. -/
theorem ofNat_digit {b n : UInt8} (h : digitValue? b = some n) :
    Char.ofNat (digit n).toNat = (Char.ofNat b.toNat).toLower := by
  have hdigits : ∀ b : UInt8, ∀ n ∈ digitValue? b,
      Char.ofNat (digit n).toNat = (Char.ofNat b.toNat).toLower := byte_forall (by decide +kernel)
  exact hdigits b n h

/-- Digits are written without an escape. -/
theorem escapeByte_digit {n : UInt8} (h : n < 16) :
    Json.Text.escapeByte (digit n) = [digit n] := by
  have hdigits : ∀ k < 16, Json.Text.escapeByte (digit (UInt8.ofNat k)) = [digit (UInt8.ofNat k)] := by
    decide
  have hn := hdigits n.toNat (UInt8.lt_iff_toNat_lt.mp h)
  rwa [UInt8.ofNat_toNat] at hn

/-- Nothing of a text of digit pairs is escaped. -/
theorem flatMap_escapeByte_encode (bytes : Bytes) :
    (encode bytes).flatMap Json.Text.escapeByte = encode bytes := by
  induction bytes with
  | nil => rfl
  | cons byte rest ih =>
    have hbyte := byte.toNat_lt
    have hhigh : byte / 16 < 16 := by rw [UInt8.lt_iff_toNat_lt]; simp; omega
    have hlow : byte % 16 < 16 := by rw [UInt8.lt_iff_toNat_lt]; simp; omega
    simp only [encode, List.flatMap_cons, escapeByte_digit hhigh, escapeByte_digit hlow, ih,
      List.singleton_append]

/-! ## Digit pairs -/

/-- The bytes that are read as digit pairs are an even number of digits. -/
theorem exists_decodePairs_iff {position : Nat} {text : Bytes} :
    (∃ bytes, decodePairs position text = .ok bytes) ↔
      text.length % 2 = 0 ∧ ∀ b ∈ text, (digitValue? b).isSome := by
  fun_induction decodePairs position text with
  | case1 position high low rest hhigh => simp [hhigh]
  | case2 position high low rest h hhigh hlow => simp [hlow]
  | case3 position high low rest h hhigh l hlow ih =>
    have hmap : (∃ bytes, (decodePairs (position + 2) rest).map ((h * 16 + l) :: ·) = .ok bytes) ↔
        ∃ bytes, decodePairs (position + 2) rest = .ok bytes := by
      cases decodePairs (position + 2) rest <;> simp [Except.map]
    have hlength : (high :: low :: rest).length % 2 = rest.length % 2 := Nat.add_mod_right _ 2
    rw [hmap, ih, hlength]
    simp [hhigh, hlow]
  | case4 => simp
  | case5 => simp

theorem toList_toLower (text : String) : text.toLower.toList = text.toList.map Char.toLower :=
  String.toList_map

/-- What is read and written again comes out in lower case. -/
theorem ascii_encode {position : Nat} {text bytes : Bytes}
    (h : decodePairs position text = .ok bytes) :
    Bytes.ascii (encode bytes) = (Bytes.ascii text).toLower := by
  rw [← String.toList_inj, toList_toLower, Bytes.ascii, Bytes.ascii, String.toList_ofList,
    String.toList_ofList]
  fun_induction decodePairs position text generalizing bytes with
  | case1 => cases h
  | case2 => cases h
  | case3 position high low rest value hhigh l hlow ih =>
    cases hrest : decodePairs (position + 2) rest with
    | error defect => rw [hrest] at h; cases h
    | ok tail =>
      rw [hrest] at h
      cases h
      have hl := UInt8.lt_iff_toNat_lt.mp (digitValue?_lt hlow)
      have hh := UInt8.lt_iff_toNat_lt.mp (digitValue?_lt hhigh)
      have hdiv : (value * 16 + l) / 16 = value := by
        apply UInt8.toNat_inj.mp; simp at hl hh ⊢; omega
      have hmod : (value * 16 + l) % 16 = l := by
        apply UInt8.toNat_inj.mp; simp at hl hh ⊢; omega
      simp only [encode, hdiv, hmod, List.map_cons, ofNat_digit hhigh, ofNat_digit hlow, ih hrest]
  | case4 => cases h; rfl
  | case5 => cases h

/-- Both ways of reading come to the digit pairs. -/
theorem decodeExactly_eq_ok_iff {size : Nat} {text bytes : Bytes} :
    decodeExactly size text = .ok bytes ↔
      decodePairs 0 text = .ok bytes ∧ bytes.length = size := by
  constructor
  · intro h
    rw [decodeExactly] at h
    split_ifs at h with hodd hsize
    have := length_decodePairs h
    exact ⟨h, by omega⟩
  · rintro ⟨h, rfl⟩
    have hlength := length_decodePairs h
    rw [decodeExactly, if_neg (by omega), if_neg (by omega), h]

theorem decode_eq_ok_iff {text bytes : Bytes} :
    decode text = .ok bytes ↔ decodePairs 0 text = .ok bytes := by
  constructor
  · intro h
    rw [decode] at h
    split_ifs at h
    exact h
  · intro h
    have hlength := length_decodePairs h
    rw [decode, if_pos (by omega), h]

/-! ## Texts of digits -/

theorem IsDigit.toNat_lt {c : Char} (h : IsDigit c) : c.toNat < 0x80 := by
  rcases h with h | h | h <;> exact Nat.lt_of_le_of_lt h.2 (by decide)

/-- A text consists of some number of digits exactly if its UTF-8 form does. -/
theorem digits_ofText_iff {text : String} {count : Nat} :
    ((Bytes.ofText text).length = count ∧ ∀ b ∈ Bytes.ofText text, (digitValue? b).isSome) ↔
      text.length = count ∧ ∀ c ∈ text.toList, IsDigit c := by
  constructor
  · rintro ⟨hlength, hdigits⟩
    have hascii := Bytes.ascii_ofText fun b hb => ((isSome_digitValue?_iff b).mp (hdigits b hb)).1
    have hchars : text.toList = (Bytes.ofText text).map fun b => Char.ofNat b.toNat := by
      rw [← String.toList_ofList (l := List.map _ _), ← Bytes.ascii, hascii]
    refine ⟨?_, fun c hc => ?_⟩
    · rw [← String.length_toList, hchars, List.length_map, hlength]
    · rw [hchars] at hc
      obtain ⟨b, hb, rfl⟩ := List.mem_map.mp hc
      exact ((isSome_digitValue?_iff b).mp (hdigits b hb)).2
  · rintro ⟨hlength, hdigits⟩
    have hbytes := Bytes.ofText_of_lt fun c hc => (hdigits c hc).toNat_lt
    refine ⟨?_, fun b hb => ?_⟩
    · rw [hbytes, List.length_map, String.length_toList, hlength]
    · rw [hbytes] at hb
      obtain ⟨c, hc, rfl⟩ := List.mem_map.mp hb
      have hlt := (hdigits c hc).toNat_lt
      have hnumber : (UInt8.ofNat c.toNat).toNat = c.toNat :=
        UInt8.toNat_ofNat_of_lt' (Nat.lt_trans hlt (by decide))
      refine (isSome_digitValue?_iff _).mpr ⟨?_, ?_⟩
      · rw [UInt8.lt_iff_toNat_lt, hnumber]
        exact hlt
      · rw [hnumber, Char.ofNat_toNat]
        exact hdigits c hc

end Hex

/-! ## Identities -/

namespace Identity

variable {kind : IdentityKind} {text : String} {id : Identity kind}

/-- An identity is read from its text if the digit pairs of the text are its bytes. -/
theorem ofHex_eq_ok_iff :
    ofHex text = .ok id ↔ Hex.decodePairs 0 (Bytes.ofText text) = .ok id.bytes := by
  constructor
  · intro h
    rw [ofHex] at h
    cases hbytes : Hex.decodeExactly kind.size (Bytes.ofText text) with
    | error defect => rw [hbytes] at h; cases h
    | ok bytes =>
      rw [hbytes] at h
      simp only [bind, Except.bind] at h
      split at h
      · rename_i found hfound
        cases h
        rw [← Ledger.ofBytes?_eq_some_iff.mp hfound]
        exact (Hex.decodeExactly_eq_ok_iff.mp hbytes).1
      · cases h
  · intro h
    have hexactly := Hex.decodeExactly_eq_ok_iff.mpr ⟨h, id.length_eq⟩
    rw [ofHex, hexactly]
    simp only [bind, Except.bind, Ledger.ofBytes?_bytes]

/-- The other reader accepts the same texts with the same result. -/
theorem ofJson?_ofText_eq_some_iff :
    JsonForm.ofJson? (.ofText text) = some id ↔
      Hex.decodePairs 0 (Bytes.ofText text) = .ok id.bytes := by
  rw [← Hex.decode_eq_ok_iff]
  simp only [JsonForm.ofJson?, Json.ofText, Json.text?, bind, Option.bind]
  cases Hex.decode (Bytes.ofText text) with
  | error defect => simp
  | ok bytes => simp [Ledger.ofBytes?_eq_some_iff]

theorem ofJson?_ofText (text : String) :
    (JsonForm.ofJson? (.ofText text) : Option (Identity kind)) = (ofHex text).toOption := by
  apply Option.ext
  intro id
  rw [ofJson?_ofText_eq_some_iff, ← ofHex_eq_ok_iff]
  cases ofHex text <;> simp [Except.toOption]

/-- The texts that are read are those with two digits for each byte. -/
theorem exists_ofHex_iff (kind : IdentityKind) (text : String) :
    (∃ id : Identity kind, ofHex text = .ok id) ↔
      text.length = 2 * kind.size ∧ ∀ c ∈ text.toList, Hex.IsDigit c := by
  rw [← Hex.digits_ofText_iff]
  constructor
  · rintro ⟨id, h⟩
    have hpairs := ofHex_eq_ok_iff.mp h
    exact ⟨by rw [Hex.length_decodePairs hpairs, id.length_eq],
      (Hex.exists_decodePairs_iff.mp ⟨_, hpairs⟩).2⟩
  · rintro ⟨hlength, hdigits⟩
    have heven : (Bytes.ofText text).length % 2 = 0 := by omega
    obtain ⟨bytes, hpairs⟩ :=
      (@Hex.exists_decodePairs_iff 0 (Bytes.ofText text)).mpr ⟨heven, hdigits⟩
    have hsize := Hex.length_decodePairs hpairs
    exact ⟨⟨bytes, by omega⟩, ofHex_eq_ok_iff.mpr hpairs⟩

/-- The text form of an identity that was read is the text in lower case. -/
theorem hex_of_ofHex (h : ofHex text = .ok id) : id.hex = text.toLower := by
  have hpairs := ofHex_eq_ok_iff.mp h
  have hdigits := (Hex.exists_decodePairs_iff.mp ⟨_, hpairs⟩).2
  have hascii := Bytes.ascii_ofText fun b hb =>
    ((Hex.isSome_digitValue?_iff b).mp (hdigits b hb)).1
  rw [hex, Hex.ascii_encode hpairs, hascii]

/-- An identity is written as its text between quotation marks. -/
theorem write_eq (id : Identity kind) :
    JsonForm.write id = 0x22 :: Bytes.ofText id.hex ++ [0x22] := by
  have hescape : Json.Text.escape id.hex = Bytes.ofText id.hex := by
    rw [Json.Text.escape, hex, Bytes.ofText_ascii (Hex.encode_lt _),
      Hex.flatMap_escapeByte_encode]
  rw [← hescape]
  exact List.append_nil _

theorem ofHex_hex (id : Identity kind) : ofHex id.hex = .ok id := by
  rw [ofHex_eq_ok_iff, hex, Bytes.ofText_ascii (Hex.encode_lt _), Hex.decodePairs_encode]

/-- A document is an identity if it is a string that is read as the identity's text, however the
string is spelled in it. -/
theorem read?_eq (document : Bytes) :
    (JsonForm.read? document : Option (Identity kind)) =
      ((Json.read? document).bind Json.text?).bind fun text => (ofHex text).toOption := by
  rw [JsonForm.read?]
  cases Json.read? document with
  | none => rfl
  | some value =>
    cases value with
    | string text =>
      cases text with
      | none => rfl
      | some text => exact ofJson?_ofText text
    | _ => rfl

/-- The two readers agree. Both accept a text exactly if it consists of two digits, in either case,
for each byte, and both come to the same identity, whose own text, by itself and in JSON, is the one
that was read in lower case. Every identity is read back from its text. -/
theorem readers_agree (kind : IdentityKind) :
    (∀ text : String,
      ((∃ id : Identity kind, ofHex text = .ok id) ↔
        text.length = 2 * kind.size ∧ ∀ c ∈ text.toList, Hex.IsDigit c) ∧
      (JsonForm.read? (JsonForm.write text) : Option (Identity kind)) = (ofHex text).toOption ∧
      ∀ id : Identity kind, ofHex text = .ok id →
        id.hex = text.toLower ∧
        JsonForm.write id = 0x22 :: Bytes.ofText text.toLower ++ [0x22]) ∧
    (∀ document : Bytes,
      (JsonForm.read? document : Option (Identity kind)) =
        ((Json.read? document).bind Json.text?).bind fun text => (ofHex text).toOption) ∧
    ∀ id : Identity kind, ofHex id.hex = .ok id := by
  refine ⟨fun text => ⟨exists_ofHex_iff kind text, ?_, fun id h => ?_⟩, read?_eq, ofHex_hex⟩
  · have hdocument : Json.read? (JsonForm.write text) = some (.ofText text) :=
      Json.read?_compact (Json.plain_string text)
    rw [read?_eq, hdocument]
    rfl
  · have hhex := hex_of_ofHex h
    exact ⟨hhex, hhex ▸ write_eq id⟩

/-- A text in mixed case is accepted, and comes out in lower case. -/
theorem readers_agree_mixedCase :
    ∃ id : OperatorAddress,
      ofHex "00112233445566778899aAbBcCdDeEfF01020304" = .ok id ∧
      id.hex = "00112233445566778899aabbccddeeff01020304" := by
  have hagree := (readers_agree .operator).1 "00112233445566778899aAbBcCdDeEfF01020304"
  have hdigits : ("00112233445566778899aAbBcCdDeEfF01020304".toList.all fun c =>
      decide (Hex.IsDigit c)) = true := by decide
  obtain ⟨id, hid⟩ := hagree.1.mpr
    ⟨by decide, fun c hc => of_decide_eq_true (List.all_eq_true.mp hdigits c hc)⟩
  have hlower : "00112233445566778899aAbBcCdDeEfF01020304".toLower =
      "00112233445566778899aabbccddeeff01020304" := by
    rw [← String.toList_inj, Hex.toList_toLower]
    decide
  exact ⟨id, hid, (hagree.2.2 id hid).1.trans hlower⟩

/-- Twenty characters of two bytes each are as long as twenty digit pairs, but none of them. -/
example : (ofHex "éééééééééééééééééééé" : Except Hex.Defect OperatorAddress) =
    .error (.badDigit 0xc3 0) := by
  decide

end Identity

end AuthoritySet
