import AuthoritySet.Json.Token
import Mathlib.Data.List.Chain
import Mathlib.Data.List.TakeWhile

/-!
# The scanner reads what was written

A text spells tokens (`Token.Spells`) if it writes them one after the other, with blanks anywhere
between them, and nothing that a literal or a number could go on with comes right behind one. The
scanner takes a byte at a time, so the invariant is about where a byte leaves it: it holds tokens
(`Scanner.Holds`) if these are what it has read once the token that it is in is over.

* `Number.ofText?_ofNat`: natural numbers.
* `Text.decode?_pieces`: strings, whichever escapes their bytes are written with.
* `Scanner.run_text`, `Scanner.Holds.run`: one token, and all tokens that a text spells.
* `Token.scan?_of_spells`: a text is read as the tokens that it spells.
-/

namespace AuthoritySet

namespace Json

/-! ## Natural numbers -/

namespace Number

/-- The digits of a number behind those of its tenth part. -/
theorem whole_ofNat (n : Nat) :
    (ofNat n).whole = if n < 10 then [n] else (ofNat (n / 10)).whole ++ [n % 10] := by
  simp only [ofNat]
  rw [Nat.toDigits_eq_if (by decide)]
  split
  · rename_i hn
    simp [Nat.toNat_digitChar_sub_48_of_lt_ten hn]
  · have hlast : n % 10 < 10 := Nat.mod_lt n (by decide)
    simp [Nat.toNat_digitChar_sub_48_of_lt_ten hlast]

/-- What holds of one digit, and of digits before one more, holds of the digits of every number. -/
theorem whole_induction {P : Nat → List Nat → Prop} (single : ∀ d < 10, P d [d])
    (more : ∀ n d digits, 0 < n → d < 10 → P n digits → P (10 * n + d) (digits ++ [d])) (n : Nat) :
    P n (ofNat n).whole := by
  induction n using Nat.strongRecOn with
  | ind n ih =>
    rw [whole_ofNat]
    split
    · rename_i hn
      exact single n hn
    · have h := more (n / 10) (n % 10) _ (by omega) (Nat.mod_lt n (by decide)) (ih _ (by omega))
      rwa [Nat.div_add_mod] at h

theorem digit_lt (n : Nat) : ∀ d ∈ (ofNat n).whole, d < 10 := by
  refine whole_induction (P := fun _ digits => ∀ d ∈ digits, d < 10) ?_ ?_ n
  · intro d hd e he
    rwa [List.mem_singleton.mp he]
  · intro n d digits _ hd ih e he
    rcases List.mem_append.mp he with he | he
    · exact ih e he
    · rwa [List.mem_singleton.mp he]

/-- The first digit is zero only if it is the only one. -/
theorem whole_eq_cons (n : Nat) :
    ∃ d rest, (ofNat n).whole = d :: rest ∧ (d = 0 → rest = [] ∧ n = 0) := by
  refine whole_induction
    (P := fun n digits => ∃ d rest, digits = d :: rest ∧ (d = 0 → rest = [] ∧ n = 0)) ?_ ?_ n
  · exact fun d _ => ⟨d, [], rfl, fun hd => ⟨rfl, hd⟩⟩
  · rintro n d _ hn _ ⟨first, rest, rfl, hzero⟩
    exact ⟨first, rest ++ [d], rfl, fun hfirst =>
      absurd (hzero hfirst).2 (Nat.pos_iff_ne_zero.mp hn)⟩

theorem ofDigits_whole (n : Nat) : ofDigits (ofNat n).whole = n := by
  refine whole_induction (P := fun n digits => ofDigits digits = n) ?_ ?_ n
  · intro d _
    simp [ofDigits]
  · intro n d digits _ _ ih
    simp only [ofDigits] at ih
    simp [ofDigits, ih]

@[simp] theorem natural?_ofNat (n : Nat) : (ofNat n).natural? = some n :=
  congrArg some (ofDigits_whole n)

/-- A number that a word of 64 bits holds is in the range of floating-point numbers. -/
theorem exceedsDouble_ofNat {n : Nat} (h : n < UInt64.size) : (ofNat n).exceedsDouble = false := by
  have hfold : n < UInt64.size →
      (ofNat n).whole.foldl Scaled.pushWhole ⟨0, 0, false⟩ = ⟨n, 0, false⟩ := by
    refine whole_induction (P := fun n digits =>
      n < UInt64.size → digits.foldl Scaled.pushWhole ⟨0, 0, false⟩ = ⟨n, 0, false⟩) ?_ ?_ n
    · intro d _ hd
      simp [Scaled.pushWhole, Nat.not_le.mpr hd]
    · intro n d digits _ _ ih hd
      rw [List.foldl_append, ih (by omega)]
      simp [Scaled.pushWhole, Nat.not_le.mpr hd]
  have hscaled : (ofNat n).scaled = ⟨n, 0, false⟩ := by
    show (let before := (ofNat n).whole.foldl Scaled.pushWhole ⟨0, 0, false⟩
      let all := [].foldl Scaled.pushFraction { before with full := false }
      ({ all with exponent := all.exponent + 0 } : Scaled)) = _
    rw [hfold h]
    rfl
  simp [exceedsDouble, hscaled]

/-! ### As text -/

theorem text_ofNat (n : Nat) : (ofNat n).text = digitText (ofNat n).whole := by
  simp [text, ofNat, exponentText]

theorem isDigit_ofNat {d : Nat} (h : d < 10) : isDigit (UInt8.ofNat (0x30 + d)) = true := by
  have values : ∀ k < 10, isDigit (UInt8.ofNat (0x30 + k)) = true := by decide
  exact values d h

theorem isDigit_of_mem_digitText {digits : List Nat} (h : ∀ d ∈ digits, d < 10) {byte : UInt8}
    (hbyte : byte ∈ digitText digits) : isDigit byte = true := by
  obtain ⟨d, hd, rfl⟩ := List.mem_map.mp hbyte
  exact isDigit_ofNat (h d hd)

theorem takeDigits_digitText {digits : List Nat} (h : ∀ d ∈ digits, d < 10) :
    takeDigits (digitText digits) = (digits, []) := by
  have hall : ∀ byte ∈ digitText digits, isDigit byte = true := fun _ =>
    isDigit_of_mem_digitText h
  have hvalue : ∀ d < 10, digitValue (UInt8.ofNat (0x30 + d)) = d := by decide
  have hback : (digitText digits).map digitValue = digits := by
    rw [digitText, List.map_map]
    exact (List.map_congr_left fun d hd => hvalue d (h d hd)).trans (List.map_id' digits)
  rw [takeDigits, List.takeWhile_eq_self_iff.mpr hall, List.dropWhile_eq_nil_iff.mpr hall, hback]

/-- A natural number that was written is read. -/
theorem ofText?_ofNat (n : Nat) : ofText? (ofNat n).text = some (ofNat n) := by
  obtain ⟨d, rest, hwhole, hzero⟩ := whole_eq_cons n
  have hdigits := takeDigits_digitText (digit_lt n)
  have hsign : takeSign (digitText (ofNat n).whole) = (false, digitText (ofNat n).whole) := by
    have hfirst : ∀ d < 10, UInt8.ofNat (0x30 + d) ≠ 0x2d := by decide
    have hd : d < 10 := digit_lt n d (by rw [hwhole]; exact List.mem_cons_self)
    rw [hwhole, digitText, List.map_cons, takeSign]
    exact fun _ he => hfirst d hd (List.cons.inj he).1
  have hlead : ¬ ((ofNat n).whole = [] ∨
      ((ofNat n).whole.head? = some 0 ∧ (ofNat n).whole.length ≠ 1)) := by
    rw [hwhole]
    rintro (hnil | ⟨hhead, hlength⟩)
    · cases hnil
    · rw [(hzero (Option.some.inj hhead)).1] at hlength
      exact hlength rfl
  rw [text_ofNat, ofText?, hsign]
  simp only [hdigits, if_neg hlead]
  rfl

end Number

/-! ## Strings -/

namespace Text

/-- The bytes that have a short escape. -/
def shortened : List UInt8 := [0x22, 0x5c, 0x08, 0x0c, 0x0a, 0x0d, 0x09]

/-- The part of a string that a byte becomes when it is written: a code unit if it is a control
character without a short escape, and else itself. -/
def pieceOf (byte : UInt8) : Piece :=
  if byte < 0x20 ∧ byte ∉ shortened then .unit byte.toUInt16 else .byte byte

/-- A byte is written as a short escape, as four digits, or as it is. -/
theorem escapeByte_cases (byte : UInt8) :
    (∃ letter, letter ≠ 0x75 ∧ shortEscape? letter = some byte ∧
      escapeByte byte = [0x5c, letter] ∧ pieceOf byte = .byte byte) ∨
    (byte < 0x20 ∧ escapeByte byte =
        [0x5c, 0x75, Hex.digit 0, Hex.digit 0, Hex.digit (byte / 16), Hex.digit (byte % 16)] ∧
      pieceOf byte = .unit byte.toUInt16) ∨
    (¬ byte < 0x20 ∧ byte ≠ 0x22 ∧ byte ≠ 0x5c ∧ escapeByte byte = [byte] ∧
      pieceOf byte = .byte byte) := by
  have hshort : ∀ b ∈ shortened, ∃ letter, letter ≠ 0x75 ∧ shortEscape? letter = some b ∧
      escapeByte b = [0x5c, letter] ∧ pieceOf b = .byte b := by
    simp only [shortened, List.forall_mem_cons]
    exact ⟨⟨0x22, by decide⟩, ⟨0x5c, by decide⟩, ⟨0x62, by decide⟩, ⟨0x66, by decide⟩,
      ⟨0x6e, by decide⟩, ⟨0x72, by decide⟩, ⟨0x74, by decide⟩, nofun⟩
  by_cases hmem : byte ∈ shortened
  · exact .inl (hshort byte hmem)
  · have hother := hmem
    simp only [shortened, List.mem_cons, List.not_mem_nil, or_false, not_or] at hother
    obtain ⟨hquote, hbackslash, hbs, hff, hlf, hcr, htab⟩ := hother
    unfold escapeByte pieceOf
    rw [if_neg hquote, if_neg hbackslash, if_neg hbs, if_neg hff, if_neg hlf, if_neg hcr,
      if_neg htab]
    by_cases hcontrol : byte < 0x20
    · rw [if_pos hcontrol, if_pos ⟨hcontrol, hmem⟩]
      exact .inr (.inl ⟨hcontrol, rfl, rfl⟩)
    · rw [if_neg hcontrol, if_neg fun h => hcontrol h.1]
      exact .inr (.inr ⟨hcontrol, hquote, hbackslash, rfl, rfl⟩)

/-- The code unit of a control character stands for that character. -/
theorem bytes?_unit {byte : UInt8} (h : byte < 0x20) (rest : List Piece) :
    bytes? (.unit byte.toUInt16 :: rest) = (bytes? rest).map (byte :: ·) := by
  have hlow : ∀ k < 32,
      (isHigh (UInt8.ofNat k).toUInt16 || isLow (UInt8.ofNat k).toUInt16) = false ∧
      String.utf8EncodeChar (Char.ofNat k) = [UInt8.ofNat k] := by decide
  obtain ⟨hsurrogate, hchar⟩ := hlow byte.toNat (UInt8.lt_iff_toNat_lt.mp h)
  rw [UInt8.ofNat_toNat, Bool.or_eq_false_iff] at hsurrogate
  rw [UInt8.ofNat_toNat] at hchar
  match rest with
  | [] => simp [bytes?, hsurrogate, hchar]
  | .byte value :: rest => simp [bytes?, hsurrogate, hchar, Function.comp_def]
  | .unit value :: rest =>
    rw [bytes?]
    simp [hsurrogate, hchar]

theorem bytes?_pieces (bytes : Bytes) : bytes? (bytes.map pieceOf) = some bytes := by
  induction bytes with
  | nil => rfl
  | cons byte rest ih =>
    rw [List.map_cons, pieceOf]
    split
    · rename_i h
      rw [bytes?_unit h.1, ih]
      rfl
    · rw [bytes?, ih]
      rfl

theorem decode?_pieces (text : String) :
    decode? ((Bytes.ofText text).map pieceOf) = some text := by
  rw [decode?, bytes?_pieces]
  exact Bytes.text?_ofText text

end Text

namespace Token

namespace Scanner

theorem digit?_digit (s : Scanner) (seen : List Text.Piece) (digits : List UInt8) {n : UInt8}
    (h : n < 16) : s.digit? seen digits (Hex.digit n) =
      if (n :: digits).length < 4 then some { s with place := .inUnit seen (n :: digits) }
      else some { s with place := .inString (.unit (unitOf (n :: digits)) :: seen) } := by
  rw [digit?, Hex.digitValue?_digit h]
  rfl

/-- A byte of a text, as it is written, is read inside a string. -/
theorem run_escapeByte (held : List Token) (seen : List Text.Piece) (byte : UInt8) :
    (Text.escapeByte byte).foldlM step? ⟨held, .inString seen⟩ =
      some ⟨held, .inString (Text.pieceOf byte :: seen)⟩ := by
  rcases Text.escapeByte_cases byte with ⟨letter, hletter, hshort, htext, hpiece⟩ |
    ⟨hcontrol, htext, hpiece⟩ | ⟨hcontrol, hquote, hbackslash, htext, hpiece⟩
  · rw [htext, hpiece]
    simp [step?, inside?, escape?, hletter, hshort]
  · have hunit : ∀ k < 32, UInt8.ofNat k / 16 < 16 ∧ UInt8.ofNat k % 16 < 16 ∧
        unitOf [UInt8.ofNat k % 16, UInt8.ofNat k / 16, 0, 0] = (UInt8.ofNat k).toUInt16 := by
      decide
    obtain ⟨hhigh, hlow, hunit⟩ := hunit byte.toNat (UInt8.lt_iff_toNat_lt.mp hcontrol)
    rw [UInt8.ofNat_toNat] at hhigh hlow hunit
    rw [htext, hpiece, ← hunit]
    simp [step?, inside?, escape?, digit?_digit, hhigh, hlow]
  · rw [htext, hpiece]
    simp [step?, inside?, hcontrol, hquote, hbackslash]

end Scanner

end Token

/-! ## Tokens -/

namespace Token

/-- Tokens that have no mark of their own at their end. -/
def isBare : Token → Bool
  | .null => true
  | .bool _ => true
  | .number _ => true
  | _ => false

/-- Tokens that are read as they were written: their numbers are natural, and their strings are well
formed. -/
def Plain : Token → Prop
  | .number value => ∃ n, value = .ofNat n
  | .string text => text.isSome = true
  | _ => True

/-- Bytes that neither a literal nor a number goes on with. -/
def endsBare (byte : UInt8) : Bool := !isLetter byte && !isNumeric byte

theorem endsBare_of_isBlank {byte : UInt8} (h : isBlank byte = true) : endsBare byte = true := by
  simp only [isBlank, Bool.or_eq_true, beq_iff_eq] at h
  rcases h with ((rfl | rfl) | rfl) | rfl <;> rfl

/-- No two tokens that have no mark of their own stand next to each other. -/
def Separate (ts : List Token) : Prop := ts.IsChain fun t u => t.isBare = true → u.isBare = false

/-- A text that writes some tokens, with blanks where there is room for them. -/
inductive Spells : List Token → Bytes → Prop where
  | nil : Spells [] []
  | blank {ts : List Token} {text : Bytes} {byte : UInt8} (h : isBlank byte = true)
      (rest : Spells ts text) : Spells ts (byte :: text)
  | token {ts : List Token} {text : Bytes} {t : Token} (plain : t.Plain)
      (ends : t.isBare = true → ∀ byte ∈ text.head?, endsBare byte = true)
      (rest : Spells ts text) : Spells (t :: ts) (t.text ++ text)

theorem text_ne_nil {t : Token} (h : t.Plain) : t.text ≠ [] := by
  match t, h with
  | .number _, ⟨n, rfl⟩ =>
    obtain ⟨d, rest, hwhole, -⟩ := Number.whole_eq_cons n
    rw [text, Number.text_ofNat, hwhole]
    exact List.cons_ne_nil _ _
  | .string (some text), _ => exact List.cons_ne_nil _ _
  | .bool true, _ | .bool false, _ | .null, _ | .openArray, _ | .closeArray, _ | .openObject, _
  | .closeObject, _ | .comma, _ | .colon, _ => exact List.cons_ne_nil _ _

namespace Scanner

variable {s : Scanner} {held : List Token}

/-- Once the token that a scanner is in is over, it has read these tokens, the last one first. -/
def Holds (s : Scanner) (held : List Token) : Prop := s.settle? = some ⟨held, .between⟩

/-- A byte that ends every bare token is read as it is between tokens. -/
theorem Holds.step?_eq (h : s.Holds held) {byte : UInt8} (hends : endsBare byte = true) :
    s.step? byte = step? ⟨held, .between⟩ byte := by
  simp only [endsBare, Bool.and_eq_true, Bool.not_eq_true'] at hends
  obtain ⟨seen, place⟩ := s
  rw [Holds] at h
  cases place with
  | between => cases h; rfl
  | inWord word =>
    simp only [step?, hends.1, h]
    rfl
  | inNumber digits =>
    simp only [step?, hends.2, h]
    rfl
  | inString pieces => cases h
  | inEscape pieces => cases h
  | inUnit pieces digits => cases h

theorem Holds.run_eq (h : s.Holds held) {text : Bytes} (hne : text ≠ [])
    (hends : s = ⟨held, .between⟩ ∨ ∀ byte ∈ text.head?, endsBare byte = true) :
    text.foldlM step? s = text.foldlM step? ⟨held, .between⟩ := by
  rcases hends with rfl | hends
  · rfl
  · obtain ⟨byte, rest, rfl⟩ := List.exists_cons_of_ne_nil hne
    rw [List.foldlM_cons, List.foldlM_cons, h.step?_eq (hends byte rfl)]

theorem run_numeric (held : List Token) (seen : Bytes) {bytes : Bytes}
    (h : ∀ byte ∈ bytes, isNumeric byte = true) :
    bytes.foldlM step? ⟨held, .inNumber seen⟩ = some ⟨held, .inNumber (bytes.reverse ++ seen)⟩ := by
  induction bytes generalizing seen with
  | nil => rfl
  | cons byte rest ih =>
    rw [List.forall_mem_cons] at h
    have hstep : step? ⟨held, .inNumber seen⟩ byte = some ⟨held, .inNumber (byte :: seen)⟩ :=
      if_pos h.1
    rw [List.foldlM_cons, hstep]
    simpa using ih (byte :: seen) h.2

theorem run_escape (held : List Token) (seen : List Text.Piece) (bytes : Bytes) :
    (bytes.flatMap Text.escapeByte).foldlM step? ⟨held, .inString seen⟩ =
      some ⟨held, .inString ((bytes.map Text.pieceOf).reverse ++ seen)⟩ := by
  induction bytes generalizing seen with
  | nil => rfl
  | cons byte rest ih =>
    rw [List.flatMap_cons, List.foldlM_append, run_escapeByte]
    simp [ih]

/-- A digit between tokens begins a number. -/
theorem step?_digit (held : List Token) {byte : UInt8} (h : Number.isDigit byte = true) :
    step? ⟨held, .between⟩ byte = some ⟨held, .inNumber [byte]⟩ := by
  have hother : ∀ k < 58, Number.isDigit (UInt8.ofNat k) = true → isBlank (UInt8.ofNat k) = false ∧
      UInt8.ofNat k ≠ 0x22 ∧ ofByte? (UInt8.ofNat k) = none := by decide
  have hlt : byte.toNat < 58 := by
    simp only [Number.isDigit, Bool.and_eq_true, decide_eq_true_eq, UInt8.le_iff_toNat_le] at h
    exact Nat.lt_succ_of_le h.2
  have hbyte := hother byte.toNat hlt
  rw [UInt8.ofNat_toNat] at hbyte
  obtain ⟨hblank, hquote, hmark⟩ := hbyte h
  simp [step?, begin?, hblank, hquote, hmark, h]

/-- A number is read up to its end. -/
theorem run_number (held : List Token) (n : Nat) : ∃ s,
    (Number.ofNat n).text.foldlM step? ⟨held, .between⟩ = some s ∧
      s.Holds (.number (.ofNat n) :: held) := by
  obtain ⟨d, rest, hwhole, -⟩ := Number.whole_eq_cons n
  have hdigits := Number.digit_lt n
  rw [hwhole, List.forall_mem_cons] at hdigits
  have hnumeric : ∀ byte ∈ Number.digitText rest, isNumeric byte = true := fun byte hbyte => by
    simp [isNumeric, Number.isDigit_of_mem_digitText hdigits.2 hbyte]
  have htext : (Number.ofNat n).text = UInt8.ofNat (0x30 + d) :: Number.digitText rest := by
    rw [Number.text_ofNat, hwhole]
    rfl
  refine ⟨⟨held, .inNumber (Number.ofNat n).text.reverse⟩, ?_, ?_⟩
  · rw [htext, List.foldlM_cons, step?_digit held (Number.isDigit_ofNat hdigits.1),
      List.reverse_cons]
    exact run_numeric held _ hnumeric
  · simp [Holds, settle?, Number.ofText?_ofNat]

/-- A token is read up to its end. -/
theorem run_text (held : List Token) {t : Token} (h : t.Plain) : ∃ s,
    t.text.foldlM step? ⟨held, .between⟩ = some s ∧ s.Holds (t :: held) ∧
      (t.isBare = false → s = ⟨t :: held, .between⟩) := by
  match t, h with
  | .openArray, _ | .closeArray, _ | .openObject, _ | .closeObject, _ | .comma, _ | .colon, _ =>
    exact ⟨_, rfl, rfl, fun _ => rfl⟩
  | .null, _ | .bool true, _ | .bool false, _ => exact ⟨_, rfl, rfl, nofun⟩
  | .number _, ⟨n, rfl⟩ =>
    obtain ⟨s, hrun, hholds⟩ := run_number held n
    exact ⟨s, hrun, hholds, nofun⟩
  | .string (some text), _ =>
    refine ⟨⟨.string (some text) :: held, .between⟩, ?_, rfl, fun _ => rfl⟩
    have hquote : step? ⟨held, .between⟩ 0x22 = some ⟨held, .inString []⟩ := rfl
    rw [Token.text, List.cons_append, List.foldlM_cons, hquote]
    simp [Text.escape, run_escape, step?, inside?, Text.decode?_pieces]

/-- A text that writes tokens is read as these tokens. -/
theorem Holds.run (hs : s.Holds held) {ts : List Token} {text : Bytes} (h : Spells ts text)
    (hends : s = ⟨held, .between⟩ ∨ ∀ byte ∈ text.head?, endsBare byte = true) :
    ∃ after, text.foldlM step? s = some after ∧ after.Holds (ts.reverse ++ held) := by
  induction h generalizing s held with
  | nil => exact ⟨s, rfl, hs⟩
  | @blank ts text byte hblank _ ih =>
    have hends' : endsBare byte = true := endsBare_of_isBlank hblank
    have hstep : step? ⟨held, .between⟩ byte = some ⟨held, .between⟩ := if_pos hblank
    rw [hs.run_eq (List.cons_ne_nil _ _) (.inr fun _ hb => Option.some.inj hb ▸ hends'),
      List.foldlM_cons, hstep]
    exact ih rfl (.inl rfl)
  | @token ts text t plain ends rest ih =>
    obtain ⟨after, hrun, hafter, hmark⟩ := run_text held plain
    rw [hs.run_eq (List.append_ne_nil_of_left_ne_nil (text_ne_nil plain) _) hends,
      List.foldlM_append, hrun]
    simpa using ih hafter (by
      cases hbare : t.isBare with
      | true => exact .inr (ends hbare)
      | false => exact .inl (hmark hbare))

end Scanner

/-- Reading a text that writes tokens gives these tokens. -/
theorem scan?_of_spells {ts : List Token} {text : Bytes} (h : Spells ts text) :
    scan? text = some ts := by
  have hstart : Scanner.start.Holds [] := rfl
  obtain ⟨s, hrun, hs⟩ := hstart.run h (.inl rfl)
  have hfinish : s.finish? = some ts := by
    rw [Scanner.finish?, hs]
    simp
  rw [scan?, hrun]
  exact hfinish

end Token

end Json

end AuthoritySet
