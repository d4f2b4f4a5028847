import AuthoritySet.Json.Value
import AuthoritySet.Proofs.Json.Scan

/-!
# The parser reads what was written

The tokens of a value never have two bare ones side by side, so both layouts spell them. Where a
value may stand, the parser takes all its tokens and goes on with the value complete, whatever is
still open around it.

* `Token.spells_flatMap`, `Token.spells_layOut`: the two layouts.
* `Parser.foldlM_tokens`: a value inside open brackets.
* `Json.read?_compact`, `Json.read?_pretty`: documents of plain values, which have natural numbers
  and well-formed strings only.
-/

namespace AuthoritySet

namespace Json

open Token

/-! ## Tokens as text -/

namespace Token

/-- A text that writes tokens starts with a byte that ends bare tokens, unless its first token is
one. -/
theorem endsBare_of_spells {ts : List Token} {text : Bytes} (h : Spells ts text)
    (hstart : ∀ t ∈ ts.head?, t.isBare = false) : ∀ byte ∈ text.head?, endsBare byte = true := by
  cases h with
  | nil => exact nofun
  | blank hblank _ => exact fun _ hb => Option.some.inj hb ▸ endsBare_of_isBlank hblank
  | @token ts text t _ _ _ =>
    have hmarked := hstart t rfl
    match t, hmarked with
    | .openArray, _ | .closeArray, _ | .openObject, _ | .closeObject, _ | .comma, _ | .colon, _
    | .string none, _ | .string (some _), _ =>
      rintro _ ⟨⟩
      rfl

theorem Separate.tail {t : Token} {ts : List Token} (h : Separate (t :: ts)) : Separate ts :=
  List.IsChain.tail h

theorem Separate.head {t : Token} {ts : List Token} (h : Separate (t :: ts))
    (hbare : t.isBare = true) : ∀ u ∈ ts.head?, u.isBare = false := fun u hu =>
  (List.isChain_cons.mp h).1 u hu hbare

theorem Separate.cons {t : Token} {ts : List Token} (h : Separate ts) (ht : t.isBare = false) :
    Separate (t :: ts) :=
  List.isChain_cons.mpr ⟨fun _ _ hbare => absurd hbare (by simp [ht]), h⟩

/-- What stands behind a token in a text that writes separate tokens. -/
theorem spells_cons {t : Token} {ts : List Token} {text : Bytes} (hplain : t.Plain)
    (hapart : Separate (t :: ts)) (h : Spells ts text) : Spells (t :: ts) (t.text ++ text) :=
  .token hplain (fun hbare => endsBare_of_spells h (hapart.head hbare)) h

/-- Separate tokens can be written without blanks. -/
theorem spells_flatMap {ts : List Token} (hplain : ∀ t ∈ ts, t.Plain) (hapart : Separate ts) :
    Spells ts (ts.flatMap Token.text) := by
  induction ts with
  | nil => exact .nil
  | cons t rest ih =>
    rw [List.forall_mem_cons] at hplain
    exact spells_cons hplain.1 hapart (ih hplain.2 hapart.tail)

theorem spells_lineBreak (depth : Nat) {ts : List Token} {text : Bytes} (h : Spells ts text) :
    Spells ts (lineBreak depth ++ text) := by
  refine .blank rfl ?_
  induction 2 * depth with
  | zero => exact h
  | succ n ih => exact .blank rfl ih

/-- Separate tokens can be written with a line for each item. -/
theorem spells_layOut (depth : Nat) {ts : List Token} (hplain : ∀ t ∈ ts, t.Plain)
    (hapart : Separate ts) : Spells ts (layOut depth ts) := by
  fun_induction layOut depth ts with
  | case1 => exact .nil
  | case2 depth rest ih | case3 depth rest ih =>
    simp only [List.forall_mem_cons] at hplain
    exact spells_cons hplain.1 hapart
      (spells_cons hplain.2.1 hapart.tail (ih hplain.2.2 hapart.tail.tail))
  | case4 depth rest _ ih | case5 depth rest _ ih =>
    rw [List.forall_mem_cons] at hplain
    exact spells_cons hplain.1 hapart (spells_lineBreak _ (ih hplain.2 hapart.tail))
  | case6 depth rest ih | case7 depth rest ih =>
    rw [List.forall_mem_cons] at hplain
    exact spells_lineBreak _ (spells_cons hplain.1 hapart (ih hplain.2 hapart.tail))
  | case8 depth rest ih =>
    rw [List.forall_mem_cons] at hplain
    exact spells_cons hplain.1 hapart (spells_lineBreak _ (ih hplain.2 hapart.tail))
  | case9 depth rest ih =>
    rw [List.forall_mem_cons] at hplain
    exact spells_cons hplain.1 hapart (.blank rfl (ih hplain.2 hapart.tail))
  | case10 depth t rest =>
    rename_i ih
    rw [List.forall_mem_cons] at hplain
    exact spells_cons hplain.1 hapart (ih hplain.2 hapart.tail)

end Token

/-! ## Values as tokens -/

/-- What is behind an item of an array does not start with a bare token. -/
theorem isBare_head_itemTokens (items : List Json) (rest : List Token) :
    ∀ t ∈ (itemTokens items ++ rest).head?, t.isBare = false := by
  cases items <;> · rintro _ ⟨⟩; rfl

theorem isBare_head_memberTokens (members : List (Option String × Json)) (rest : List Token) :
    ∀ t ∈ (memberTokens members ++ rest).head?, t.isBare = false := by
  cases members <;> · rintro _ ⟨⟩; rfl

mutual

theorem separate_tokens (value : Json) {rest : List Token} (h : Separate rest)
    (hstart : ∀ t ∈ rest.head?, t.isBare = false) : Separate (value.tokens ++ rest) := by
  match value with
  | .null | .bool _ | .number _ => exact List.isChain_cons.mpr ⟨fun u hu _ => hstart u hu, h⟩
  | .string _ => exact h.cons rfl
  | .array [] | .object [] => exact (h.cons rfl).cons rfl
  | .array (first :: others) =>
    rw [tokens, List.cons_append, List.cons_append, List.append_assoc]
    exact (separate_tokens first (separate_itemTokens others h)
      (isBare_head_itemTokens others rest)).cons rfl
  | .object ((key, value) :: others) =>
    simp only [tokens, List.cons_append, List.append_assoc]
    exact (((separate_tokens value (separate_memberTokens others h)
      (isBare_head_memberTokens others rest)).cons rfl).cons rfl).cons rfl

theorem separate_itemTokens (items : List Json) {rest : List Token} (h : Separate rest) :
    Separate (itemTokens items ++ rest) := by
  match items with
  | [] => exact h.cons rfl
  | item :: others =>
    simp only [itemTokens, List.cons_append, List.append_assoc]
    exact (separate_tokens item (separate_itemTokens others h)
      (isBare_head_itemTokens others rest)).cons rfl

theorem separate_memberTokens (members : List (Option String × Json)) {rest : List Token}
    (h : Separate rest) : Separate (memberTokens members ++ rest) := by
  match members with
  | [] => exact h.cons rfl
  | (key, value) :: others =>
    simp only [memberTokens, List.cons_append, List.append_assoc]
    exact (((separate_tokens value (separate_memberTokens others h)
      (isBare_head_memberTokens others rest)).cons rfl).cons rfl).cons rfl

end

/-- A value starts with a token that does not end an array. -/
theorem tokens_eq_cons (value : Json) : ∃ t rest, value.tokens = t :: rest ∧ t ≠ .closeArray := by
  match value with
  | .null | .bool _ | .number _ | .string _ | .array [] | .object [] | .array (_ :: _)
  | .object ((_, _) :: _) => exact ⟨_, _, rfl, by simp⟩

namespace Parser

/-- Where an array may end, a value is read as its first item. -/
theorem foldlM_atFirstItem (stack : List Frame) (value : Json) (rest : List Token) :
    (value.tokens ++ rest).foldlM step? (.atFirstItem stack) =
      (value.tokens ++ rest).foldlM step? (.atValue (.items [] :: stack)) := by
  obtain ⟨t, others, htokens, ht⟩ := value.tokens_eq_cons
  have hstep : step? (.atFirstItem stack) t = step? (.atValue (.items [] :: stack)) t := by
    cases t <;> first | rfl | exact absurd rfl ht
  rw [htokens, List.cons_append, List.foldlM_cons, List.foldlM_cons, hstep]

mutual

/-- Where a value may stand, one is read up to its end. -/
theorem foldlM_tokens (value : Json) (stack : List Frame) (rest : List Token) :
    (value.tokens ++ rest).foldlM step? (.atValue stack) =
      rest.foldlM step? (.afterValue stack value) := by
  match value with
  | .null | .bool _ | .number _ | .string _ | .array [] | .object [] => rfl
  | .array (first :: others) =>
    have hopen : step? (.atValue stack) .openArray = some (.atFirstItem stack) := rfl
    rw [tokens, List.cons_append, List.cons_append, List.append_assoc, List.foldlM_cons, hopen]
    refine (foldlM_atFirstItem stack first _).trans ?_
    rw [foldlM_tokens first, foldlM_itemTokens others]
    rfl
  | .object ((key, value) :: others) =>
    simp only [tokens, List.cons_append, List.append_assoc, List.foldlM_cons]
    refine (foldlM_tokens value (.member [] key :: stack) _).trans ?_
    rw [foldlM_memberTokens others]
    rfl

theorem foldlM_itemTokens (items : List Json) (stack : List Frame) (before : List Json)
    (value : Json) (rest : List Token) :
    (itemTokens items ++ rest).foldlM step? (.afterValue (.items before :: stack) value) =
      rest.foldlM step? (.afterValue stack (.array ((value :: before).reverse ++ items))) := by
  match items with
  | [] => rw [List.append_nil]; rfl
  | item :: others =>
    simp only [itemTokens, List.cons_append, List.append_assoc, List.foldlM_cons]
    refine (foldlM_tokens item (.items (value :: before) :: stack) _).trans ?_
    rw [foldlM_itemTokens others]
    simp

theorem foldlM_memberTokens (members : List (Option String × Json)) (stack : List Frame)
    (before : List (Option String × Json)) (key : Option String) (value : Json)
    (rest : List Token) :
    (memberTokens members ++ rest).foldlM step? (.afterValue (.member before key :: stack) value) =
      rest.foldlM step?
        (.afterValue stack (.object (((key, value) :: before).reverse ++ members))) := by
  match members with
  | [] => rw [List.append_nil]; rfl
  | (next, item) :: others =>
    simp only [memberTokens, List.cons_append, List.append_assoc, List.foldlM_cons]
    refine (foldlM_tokens item (.member ((key, value) :: before) next :: stack) _).trans ?_
    rw [foldlM_memberTokens others]
    simp

end

end Parser

/-- The tokens of a value are read as that value. -/
theorem ofTokens?_tokens (value : Json) : ofTokens? value.tokens = some value := by
  have hrun := Parser.foldlM_tokens value [] []
  rw [List.append_nil] at hrun
  rw [ofTokens?, hrun]
  rfl

/-! ## Documents -/

/-- Values that are read as they are written: all their numbers are natural, and all their strings
are well formed. -/
def Plain (value : Json) : Prop := ∀ t ∈ value.tokens, t.Plain

variable {value : Json}

theorem separate_tokens_self (value : Json) : Separate value.tokens := by
  have h := @separate_tokens value [] List.isChain_nil nofun
  rwa [List.append_nil] at h

/-- A value that is written without blanks is read back. -/
theorem read?_compact (h : value.Plain) : read? value.compact = some value := by
  rw [read?, compact, scan?_of_spells (spells_flatMap h value.separate_tokens_self)]
  exact ofTokens?_tokens value

/-- A value that is written with a line for each item is read back. -/
theorem read?_pretty (h : value.Plain) : read? value.pretty = some value := by
  rw [read?, pretty, scan?_of_spells (spells_layOut 0 h value.separate_tokens_self)]
  exact ofTokens?_tokens value

theorem plain_bool (value : Bool) : (Json.bool value).Plain := by
  simp [Plain, tokens, Token.Plain]

theorem plain_natural (n : Nat) : (Json.number (.ofNat n)).Plain := by
  simp [Plain, tokens, Token.Plain]

theorem plain_string (text : String) : (Json.string (some text)).Plain := by
  simp [Plain, tokens, Token.Plain]

theorem plain_itemTokens {items : List Json} (h : ∀ item ∈ items, item.Plain) :
    ∀ t ∈ itemTokens items, t.Plain := by
  induction items with
  | nil => simp [itemTokens, Token.Plain]
  | cons item others ih =>
    rw [List.forall_mem_cons] at h
    simp only [itemTokens, List.cons_append, List.forall_mem_cons, List.forall_mem_append]
    exact ⟨trivial, h.1, ih h.2⟩

/-- An array is read as it is written if its items are. -/
theorem plain_array {items : List Json} (h : ∀ item ∈ items, item.Plain) :
    (Json.array items).Plain := by
  cases items with
  | nil => simp [Plain, tokens, Token.Plain]
  | cons first others =>
    rw [List.forall_mem_cons] at h
    simp only [Plain, tokens, List.cons_append, List.forall_mem_cons, List.forall_mem_append]
    exact ⟨trivial, h.1, plain_itemTokens h.2⟩

theorem plain_memberTokens {members : List (Option String × Json)}
    (h : ∀ m ∈ members, m.1.isSome = true ∧ m.2.Plain) : ∀ t ∈ memberTokens members, t.Plain := by
  induction members with
  | nil => simp [memberTokens, Token.Plain]
  | cons m others ih =>
    rw [List.forall_mem_cons] at h
    simp only [memberTokens, List.cons_append, List.forall_mem_cons, List.forall_mem_append]
    exact ⟨trivial, h.1.1, trivial, h.1.2, ih h.2⟩

/-- An object is read as it is written if its keys are well formed and its values are read so. -/
theorem plain_object {members : List (Option String × Json)}
    (h : ∀ m ∈ members, m.1.isSome = true ∧ m.2.Plain) : (Json.object members).Plain := by
  cases members with
  | nil => simp [Plain, tokens, Token.Plain]
  | cons m others =>
    rw [List.forall_mem_cons] at h
    simp only [Plain, tokens, List.cons_append, List.forall_mem_cons, List.forall_mem_append]
    exact ⟨trivial, h.1.1, trivial, h.1.2, plain_memberTokens h.2⟩

end Json

end AuthoritySet
