import SchemaTypings.TypeHint.Typing
import SchemaTypings.Proofs.Generation.Fields
import SchemaTypings.Proofs.Json.Verbatim

/-!
# Unions of literal texts

The values of an enumerated field, and those of a literal annotation, are written between double
quotes with bars between them. `isUnionOf_tokens_iff` says when the tokens of this text are the
values again: exactly when each of them is verbatim, since nothing is escaped. A value that is not
is read back as another one or not at all, or runs into the values behind it.
-/

namespace SchemaTypings

open Declaration Json

/-! ## Tokens of values -/

/-- The token is a string that stands for a value. -/
def Declaration.Token.StandsFor (t : Token) (value : String) : Prop :=
  t.kind = .string ∧ unquote t.text = .ok value

/-- The tokens of a union of values: a string for each of them, in order, with bars between. -/
inductive IsUnionOf : List String → List Token → Prop
  | one {value : String} {t : Token} (h : t.StandsFor value) : IsUnionOf [value] [t]
  | more {value : String} {values : List String} {t bar : Token} {ts : List Token}
    (h : t.StandsFor value) (hbar : bar.kind = .pipe) (hrest : IsUnionOf values ts) :
    IsUnionOf (value :: values) (t :: bar :: ts)

/-- A token in double quotes is read as a string literal. -/
theorem unquote_quoted (cs : List Char) :
    Declaration.unquote (String.ofList ('"' :: cs)) = Json.unquote (String.ofList ('"' :: cs)) := by
  rw [Declaration.unquote, String.toList_ofList]
  rfl

/-- A verbatim value in quotes is a token that stands for it. -/
theorem spells_value {value : String} (h : IsVerbatim value.toList) :
    Spells ('"' :: (value.toList ++ ['"'])) fun _ ts => ∃ t : Token, ts = [t] ∧ t.StandsFor value :=
  (spells_string h.stringRest).imp fun _ ts => by
    rintro ⟨l, rfl, htext, -⟩
    refine ⟨l.token, rfl, l.kind_eq, ?_⟩
    rw [htext, unquote_quoted, h.unquote_eq, String.ofList_toList]

/-- A bar between two blanks is a token. -/
theorem spells_bar :
    Spells " | ".toList fun _ ts => ∃ bar : Token, ts = [bar] ∧ bar.kind = .pipe := by
  have hblank : Spells [' '] Silent := spells_blanks (by simp; decide)
  have hpipe : Spells ['|'] (Single .pipe ['|']) := spells_sign (by decide)
  have hbehind := hpipe.append_silent hblank (parted_of_last (by simp; decide) _)
  have hbar := hblank.silent_append hbehind (parted_of_last (by simp; decide) _)
  exact Spells.imp hbar fun _ ts => by
    rintro ⟨l, rfl, -⟩
    exact ⟨l.token, rfl, l.kind_eq⟩

/-! ## Verbatim values -/

/-- A union of verbatim values is read as its values. -/
theorem spells_enumType {values : List String} (hne : values ≠ [])
    (h : ∀ value ∈ values, IsVerbatim value.toList) :
    Spells (enumType values).toList fun _ ts => IsUnionOf values ts := by
  induction values with
  | nil => exact absurd rfl hne
  | cons value values ih =>
    have hvalue := spells_value (h value (by simp))
    cases values with
    | nil =>
      have hunion : Spells ('"' :: (value.toList ++ ['"'])) fun _ ts => IsUnionOf [value] ts :=
        hvalue.imp fun _ ts => by
          rintro ⟨t, rfl, ht⟩
          exact .one ht
      simpa [enumType] using hunion
    | cons next values =>
      have hrest := ih (by simp) fun other hother => h other (by simp [hother])
      have hbar := spells_bar.append hrest (parted_of_last (by decide) _)
      have hunion := hvalue.append hbar (parted_of_head _ (by simp; decide))
      have htext : (enumType (value :: next :: values)).toList =
          '"' :: (value.toList ++ ['"']) ++ (" | ".toList ++ (enumType (next :: values)).toList) := by
        simp [enumType_cons]
      rw [htext]
      exact hunion.imp fun _ ts => by
        rintro ⟨_, _, rfl, ⟨t, rfl, ht⟩, _, us, rfl, ⟨bar, rfl, hbar⟩, hus⟩
        exact .more ht hbar hus

/-! ## Any values -/

/-- The pieces of a text that begins with a quote, when its first token is a string. -/
theorem exists_stringRest_of_place {cs : List Char} {offset line : Nat} {t : Token}
    {ts : List Token} (h : place offset line (pieces ('"' :: cs)) = t :: ts)
    (ht : t.kind = .string) :
    ∃ x rest offset' line', cs = x ++ rest ∧ StringRest '"' x ∧ t.text = String.ofList ('"' :: x) ∧
      ts = place offset' line' (pieces rest) := by
  obtain ⟨y, kind, rest, heq, hlex⟩ := exists_lexes '"' cs
  obtain ⟨d, x, rfl⟩ := List.exists_cons_of_ne_nil hlex.ne_nil
  obtain ⟨rfl, rfl⟩ := List.cons.inj heq
  have hkind : kind = some .string ∨ kind = some .other := by
    have hscan := hlex.scan_eq
    rw [List.cons_append, scan_quote (by decide)] at hscan
    split at hscan <;> simp_all
  obtain ⟨k, rfl⟩ : ∃ k, kind = some k := hkind.elim (fun h => ⟨_, h⟩) (fun h => ⟨_, h⟩)
  change place offset line (pieces ('"' :: x ++ rest)) = t :: ts at h
  rw [hlex.pieces_eq, place] at h
  obtain ⟨rfl, rfl⟩ := List.cons.inj h
  have hrest : StringRest '"' x := by
    obtain ⟨-, hrest⟩ | hother := hlex.of_quote
    · exact hrest
    · exact absurd (hother.symm.trans ht) (by decide)
  exact ⟨x, rest, _, _, rfl, hrest, rfl, rfl⟩

/-- A bar in front of a value. -/
theorem place_bar (offset line : Nat) (cs : List Char) :
    ∃ bar : Token, bar.kind = .pipe ∧ place offset line (pieces (" | ".toList ++ cs)) =
      bar :: place (offset + 3) line (pieces cs) := by
  have hblank : ∀ rest, Lexes [' '] none rest := fun _ => .blank (by decide)
  have hpipe : Lexes ['|'] (some .pipe) (' ' :: cs) := lexes_sign (by decide) _
  have hpieces : pieces (" | ".toList ++ cs) =
      ⟨none, [' ']⟩ :: ⟨some .pipe, ['|']⟩ :: ⟨none, [' ']⟩ :: pieces cs := by
    have hfirst := (hblank ('|' :: ' ' :: cs)).pieces_eq
    have hlast := (hblank cs).pieces_eq
    rw [List.singleton_append] at hfirst hlast
    rw [← hlast, ← hpipe.pieces_eq]
    exact hfirst
  exact ⟨⟨.pipe, "|", line, offset + 1⟩, rfl, by rw [hpieces]; rfl⟩

/-- The first value of a union, and what is behind its quote. -/
theorem exists_enumType_cons (value : String) (values : List String) :
    ∃ more, (enumType (value :: values)).toList = '"' :: (value.toList ++ '"' :: more) ∧
      EndsValue more ∧ (more = [] ∨ more = " | ".toList ++ (enumType values).toList) := by
  cases values with
  | nil => exact ⟨[], by simp [enumType], .inl rfl, .inl rfl⟩
  | cons next values =>
    refine ⟨" | ".toList ++ (enumType (next :: values)).toList, by simp [enumType_cons], .inr ?_,
      .inr rfl⟩
    exact ⟨(" | ".toList ++ (enumType (next :: values)).toList).drop 4, by simp [enumType]⟩

/-- Only verbatim values are read from the text of their union. -/
theorem isVerbatim_of_isUnionOf {values : List String} {offset line : Nat}
    (h : IsUnionOf values (place offset line (pieces (enumType values).toList))) :
    ∀ value ∈ values, IsVerbatim value.toList := by
  induction values generalizing offset line with
  | nil => nomatch h
  | cons value values ih =>
    obtain ⟨more, htext, hmore, hvalues⟩ := exists_enumType_cons value values
    rw [htext] at h
    generalize hplace : place offset line _ = ts at h
    -- the first token, of which the value is read
    obtain ⟨t, us, rfl, hstands⟩ : ∃ t us, ts = t :: us ∧ t.StandsFor value := by
      cases h with
      | one h | more h => exact ⟨_, _, rfl, h⟩
    obtain ⟨x, rest, offset', line', heq, hx, ht, rfl⟩ :=
      exists_stringRest_of_place hplace hstands.1
    have hunquote := hstands.2
    rw [ht, unquote_quoted] at hunquote
    obtain ⟨hverbatim, -, rfl⟩ := eq_of_stringRest hx heq.symm hmore hunquote
    rw [List.forall_mem_cons]
    refine ⟨hverbatim, ?_⟩
    obtain rfl | rfl := hvalues
    · rw [pieces_nil, place] at h
      cases h with
      | one h => simp
    · obtain ⟨bar, -, hbar⟩ := place_bar offset' line' (enumType values).toList
      rw [hbar] at h
      cases h with
      | more _ _ hrest => exact ih hrest

/-- A union is read as its values exactly when they are verbatim. -/
theorem isUnionOf_tokens_iff {values : List String} (hne : values ≠ []) :
    IsUnionOf values (tokens (enumType values)) ↔
      ∀ value ∈ values, IsVerbatim value.toList := by
  constructor
  · intro h
    rw [tokens_eq_place] at h
    exact isVerbatim_of_isUnionOf h
  · exact fun h => (spells_enumType hne h).tokens

/-! ## Enumerated fields and literal annotations -/

/-- Leaving texts out and leaving repetitions out can be done in either order. -/
theorem eraseDups_filter (p : String → Bool) (texts : List String) :
    (texts.filter p).eraseDups = texts.eraseDups.filter p := by
  induction hn : texts.length using Nat.strongRecOn generalizing texts with
  | ind n ih =>
    cases texts with
    | nil => rfl
    | cons s rest =>
      have hlength : (rest.filter fun t => !t == s).length < n := by
        have := List.length_filter_le (fun t => !t == s) rest
        rw [List.length_cons] at hn
        omega
      have hrest := ih _ hlength (rest.filter fun t => !t == s) rfl
      rw [List.filter_filter] at hrest
      rw [List.eraseDups_cons]
      by_cases hs : p s
      · rw [List.filter_cons_of_pos hs, List.eraseDups_cons, List.filter_cons_of_pos hs, ← hrest,
          List.filter_filter]
        simp only [Bool.and_comm]
      · rw [List.filter_cons_of_neg hs, List.filter_cons_of_neg hs, ← hrest]
        congr 1
        refine List.filter_congr fun t _ => ?_
        by_cases ht : t = s
        · simp [ht, hs]
        · simp [ht]

theorem eraseDups_ne_nil {texts : List String} (hne : texts ≠ []) : texts.eraseDups ≠ [] := by
  obtain ⟨s, rest, rfl⟩ := List.exists_cons_of_ne_nil hne
  simp [List.eraseDups_cons]

/-- The first of equal texts stays. -/
theorem distinctTexts_eq (texts : List String) : distinctTexts texts = texts.eraseDups := by
  induction texts with
  | nil => rfl
  | cons s rest ih =>
    rw [distinctTexts, ih, List.eraseDups_cons, eraseDups_filter]
    rfl

/-- The repetitions among texts are those among the texts that they are mapped to. -/
theorem distinctTexts_map {f : String → String} (hf : Function.Injective f) (texts : List String) :
    distinctTexts (texts.map f) = (distinctTexts texts).map f := by
  induction texts with
  | nil => rfl
  | cons s rest ih =>
    rw [List.map_cons, distinctTexts, ih, distinctTexts, List.map_cons, List.filter_map]
    congr 3
    funext t
    simp [bne, hf.eq_iff]

/-- A union is made of its values in quotes. -/
theorem enumType_eq_intercalate {values : List String} (hne : values ≠ []) :
    enumType values = " | ".intercalate (values.map fun s => "\"" ++ s ++ "\"") := by
  induction values with
  | nil => exact absurd rfl hne
  | cons value values ih =>
    cases values with
    | nil => simp [enumType]
    | cons next values =>
      rw [enumType_cons, ih (by simp)]
      simp [String.intercalate_cons_cons, ← String.toList_inj]

/-- A literal annotation of texts is the union of them without repetitions. -/
theorem typing_literal {values : List String} (hne : values ≠ []) (isResult : Bool) :
    (TypeHint.literal (values.map .text)).typing isResult = enumType values.eraseDups := by
  have hquote : Function.Injective fun s : String => "\"" ++ s ++ "\"" := fun s t h => by
    rwa [String.append_left_inj, String.append_right_inj] at h
  rw [enumType_eq_intercalate (eraseDups_ne_nil hne), ← distinctTexts_eq, ← distinctTexts_map hquote]
  simp only [TypeHint.typing, unionText, List.map_map]
  rfl

/-- An enumerated field of texts is given the union of them. -/
theorem baseType_enum {values : List String} (hne : values ≠ []) (shape : Shape) (key : String) :
    baseType shape key [("type", .tag .string), ("enum", .list (values.map .text))] =
      .named (enumType values) := by
  have hvalues : enumValues [("type", .tag .string), ("enum", .list (values.map .text))] =
      values := by
    simp [enumValues, List.lookup_cons, Function.comp_def, Value.display]
  change tagType shape key _ .string = _
  rw [tagType, hvalues]
  obtain ⟨value, rest, rfl⟩ := List.exists_cons_of_ne_nil hne
  rfl

/-- The type of an enumerated field, and that of a literal annotation with its repetitions left
out, is read as the values of the field or annotation exactly when all of them are verbatim. -/
theorem isUnionOf_typing_iff {values : List String} (hne : values ≠ []) :
    (∀ shape key, ∃ text,
      baseType shape key [("type", .tag .string), ("enum", .list (values.map .text))] =
          .named text ∧
        (IsUnionOf values (tokens text) ↔ ∀ value ∈ values, IsVerbatim value.toList)) ∧
    ∀ isResult, IsUnionOf values.eraseDups
        (tokens ((TypeHint.literal (values.map .text)).typing isResult)) ↔
      ∀ value ∈ values, IsVerbatim value.toList := by
  refine ⟨fun shape key => ⟨_, baseType_enum hne shape key, isUnionOf_tokens_iff hne⟩,
    fun isResult => ?_⟩
  rw [typing_literal hne, isUnionOf_tokens_iff (eraseDups_ne_nil hne)]
  simp only [List.mem_eraseDups]

/-- Sizes with a blank and a repetition among them are read back. -/
theorem isUnionOf_sizes :
    (∃ text, baseType .lean "size"
        [("type", .tag .string), ("enum", .list [.text "s", .text "extra large", .text "s"])] =
          .named text ∧ IsUnionOf ["s", "extra large", "s"] (tokens text)) ∧
      IsUnionOf ["s", "extra large"] (tokens
        ((TypeHint.literal [.text "s", .text "extra large", .text "s"]).typing false)) := by
  have hsizes : ["s", "extra large", "s"] ≠ [] := by decide
  obtain ⟨hfield, hliteral⟩ := isUnionOf_typing_iff hsizes
  obtain ⟨text, htext, hunion⟩ := hfield .lean "size"
  exact ⟨⟨text, htext, hunion.mpr (by decide)⟩, (hliteral false).mpr (by decide)⟩

theorem tokens_quoteInside : tokens "\"a\"b\"" =
    [⟨.string, "\"a\"", 1, 0⟩, ⟨.identifier, "b", 1, 3⟩, ⟨.other, "\"", 1, 4⟩] := by
  decide

/-- A value with a quote in it ends the string that it is written in. -/
theorem not_isUnionOf_quoteInside :
    baseType .lean "size" [("type", .tag .string), ("enum", .list [.text "a\"b"])] =
        .named "\"a\"b\"" ∧
      (TypeHint.literal [.text "a\"b"]).typing false = "\"a\"b\"" ∧
      ¬IsUnionOf ["a\"b"] (tokens "\"a\"b\"") := by
  refine ⟨by decide, by decide, fun h => ?_⟩
  rw [tokens_quoteInside] at h
  cases h with
  | more _ _ hrest => nomatch hrest

end SchemaTypings
