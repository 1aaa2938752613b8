import SchemaTypings.Proofs.Annotations.Parts
import SchemaTypings.Proofs.Derivation.Depth
import SchemaTypings.Proofs.Editing.Overwriting
import SchemaTypings.Proofs.Generation.Fields
import SchemaTypings.Proofs.Writing.Numbers

/-!
# The types of annotations

The type of an annotation is put together from the types of its parts with bars, brackets, commas
and an index signature. What results may stand in brackets when the parts may
(`composes_isEnclosable`), and is a type when the parts are (`composes_isExpression`). So the type of
an annotation is one, as long as each literal in it has a value: a literal without values has an
empty type.
-/

namespace SchemaTypings

open Declaration

/-! ## Texts in brackets -/

theorem isType_plain {s : String} (h : s ∈ plainTypes) : IsType s.toList := by
  have hplain : ∀ s ∈ plainTypes, s ∈ fixedTypes ∨ IsIdentifier s.toList := by decide
  exact (hplain s h).elim isType_fixed IsIdentifier.isType

theorem isEnclosable_nil : IsEnclosable [] :=
  isBalanced_nil.isEnclosable

/-- An enclosable text with a bar in front of it. -/
theorem isEnclosable_bar {t : String} (h : IsEnclosable t.toList) :
    IsEnclosable (" | " ++ t).toList := by
  have hbar : IsBalanced " | ".toList := spells_bar.imp fun _ ts => by
    rintro ⟨bar, rfl, hkind⟩
    exact .token (hkind ▸ by decide)
  rw [String.toList_append]
  exact hbar.append_isEnclosable h (by decide)

/-- A bar stops what stands in front of it. -/
theorem stops_bar (t : String) : Stops (" | " ++ t).toList := by
  rw [String.toList_append]
  exact stops_cons (by decide) _

/-- Two enclosable texts with a bar between them. -/
theorem Declaration.IsEnclosable.bar {s t : String} (h : IsEnclosable s.toList)
    (h' : IsEnclosable t.toList) : IsEnclosable (s ++ " | " ++ t).toList := by
  rw [String.append_assoc, String.toList_append]
  exact h.append (isEnclosable_bar h') (stops_bar t)

/-- The arguments of a container. -/
theorem isEnclosable_arguments {texts : List String} (h : ∀ s ∈ texts, IsEnclosable s.toList) :
    IsEnclosable (", ".intercalate texts).toList := by
  by_cases hne : texts = []
  · subst hne
    exact isEnclosable_nil
  · refine intercalate_induction (P := fun s => IsEnclosable s.toList) (fun s t hs ht => ?_) hne h
    simpa using hs.comma ht

theorem toList_dictionaryText (value : String) :
    (dictionaryText value).toList = dictionaryChars value.toList := by
  have hopen : "\x7b [key: string]: ".toList =
      ['\x7b', ' '] ++ ("[key: string]".toList ++ [':', ' ']) := by decide
  have hclose : " \x7d".toList = [' ', '\x7d'] := by decide
  unfold dictionaryText dictionaryChars
  rw [String.toList_append, String.toList_append, hopen, hclose]
  simp only [List.append_assoc]

/-- The type of an annotation may stand in brackets when the types of its parts may. -/
theorem composes_isEnclosable : Composes fun s => IsEnclosable s.toList where
  plain s h := (isType_plain h).isBalanced.isEnclosable
  union texts hne h := intercalate_induction (fun _ _ => .bar) hne h
  array element h := by
    have hbrackets : IsEnclosable ['[', ']'] := (isEnclosable_nil.isEnclosed .square).isEnclosable
    rw [toList_arrayText]
    -- the element stands in parentheses when there is a blank in it
    split
    · have hparen := (h.isEnclosed .paren).isEnclosable
      simpa [Bracket.chars] using hparen.append hbrackets (stops_cons (by decide) _)
    · exact h.append hbrackets (stops_cons (by decide) _)
  tuple texts h := by
    simpa [Bracket.chars] using ((isEnclosable_arguments h).isEnclosed .square).isEnclosable
  dictionary value h := toList_dictionaryText value ▸ h.dictionary
  promise result h := by
    have hpromise : IsIdentifier "Promise".toList := by decide
    have hgroup := (h.isEnclosed .angle).isEnclosable
    simpa [promiseText, Bracket.chars] using
      hpromise.isType.isBalanced.isEnclosable.append hgroup (stops_cons (by decide) _)

/-! ## Types -/

/-- The type of an annotation is a type when the types of its parts are. -/
theorem composes_isExpression : Composes fun s => IsExpression s.toList where
  plain s h := (isType_plain h).isExpression
  union texts hne h := by
    refine intercalate_induction (P := fun s => IsExpression s.toList) (fun s t hs ht => ?_) hne h
    simpa using hs.spaced (isType_pipe.isExpression.spaced ht)
  array element h := by
    rw [toList_arrayText]
    split
    · have hparen := (h.isEnclosable.isEnclosed .paren).isExpression (by decide)
      simpa [Bracket.chars] using hparen.group isEnclosable_nil (b := .square) (by decide)
    · simpa [Bracket.chars] using h.group isEnclosable_nil (b := .square) (by decide)
  tuple texts h := by
    have harguments := isEnclosable_arguments fun s hs => (h s hs).isEnclosable
    simpa [Bracket.chars] using (harguments.isEnclosed .square).isExpression (by decide)
  dictionary value h := toList_dictionaryText value ▸ h.dictionary
  promise result h := by
    have hpromise : IsIdentifier "Promise".toList := by decide
    simpa [promiseText, Bracket.chars] using
      hpromise.isType.isExpression.group h.isEnclosable (b := .angle) (by decide)

/-! ## Literals -/

/-- A literal value whose text can be read: a number, a text that stands in quotes as it is, or a
value of another kind whose text is a type. -/
def LiteralValue.IsReadable : LiteralValue → Prop
  | .real s => IsNumeral s.toList
  | .text s => IsQuotable s
  | .other s => IsExpression s.toList
  | .null => True
  | .bool _ => True
  | .int _ => True

/-- A readable value is a type. -/
theorem LiteralValue.IsReadable.isExpression {v : LiteralValue} (h : v.IsReadable) :
    IsExpression (TypeHint.literalTyping v).toList := by
  have hword : ∀ s ∈ ["true", "false", "null"], IsExpression s.toList := by
    have hidentifier : ∀ s ∈ ["true", "false", "null"], IsIdentifier s.toList := by decide
    exact fun s hs => (hidentifier s hs).isType.isExpression
  cases v with
  | null => exact hword "null" (by decide)
  | bool b => cases b <;> exact hword _ (by decide)
  | int i => exact (isNumeral_int i).isExpression
  | real s => exact IsNumeral.isExpression h
  | text s => simpa [TypeHint.literalTyping] using (IsQuotable.isType h).isExpression
  | other s => exact h

/-- A union of readable values is a type when there are any. -/
theorem isExpression_literal {values : List LiteralValue} (hne : values ≠ [])
    (h : ∀ v ∈ values, v.IsReadable) :
    IsExpression (unionText (values.map TypeHint.literalTyping)).toList := by
  refine composes_isExpression.unionText (by simpa using hne) fun s hs => ?_
  obtain ⟨v, hv, rfl⟩ := List.mem_map.mp hs
  exact (h v hv).isExpression

/-- A union of readable values may stand in brackets, also when there are none. -/
theorem isEnclosable_literal {values : List LiteralValue} (h : ∀ v ∈ values, v.IsReadable) :
    IsEnclosable (unionText (values.map TypeHint.literalTyping)).toList := by
  by_cases hne : values = []
  · subst hne
    exact isEnclosable_nil
  · exact (isExpression_literal hne h).isEnclosable

/-! ## Annotations -/

namespace TypeHint

/-- An annotation without texts and names, whose literals have values that can be read. -/
def IsReadable (a : TypeHint) : Prop :=
  a.Every (fun _ => False) fun values => values ≠ [] ∧ ∀ v ∈ values, v.IsReadable

/-- The type of a readable annotation is a type. -/
theorem IsReadable.isExpression {a : TypeHint} (h : a.IsReadable) (isResult : Bool) :
    IsExpression (a.typing isResult).toList :=
  composes_isExpression.typing (fun _ hs => hs.elim)
    (fun _ hvalues => isExpression_literal hvalues.1 hvalues.2) h isResult

/-- The tokens of the type of a readable annotation are those of a type, with commas and semicolons
in brackets only. When it overwrites the type of a property in a file whose characters all have a
meaning, the file is read again with exactly that type for the property. -/
theorem wellFormed_typing {a : TypeHint} (h : a.IsReadable) (isResult : Bool) :
    (∃ type : TypeTree, type.yield = tokens (a.typing isResult)) ∧
      IsSheltered (tokens (a.typing isResult)) ∧
      ∀ text file, SourceFile.ofText text = .ok file → NoOther text →
        ∀ p ∈ allProperties file.statements,
          ∃ file', SourceFile.ofText (file.setType p (a.typing isResult)).fullText = .ok file' ∧
            file'.outline = outlines
              (fun q => if q = p then a.typing isResult else file.typeText q) file.statements := by
  have hexpression := h.isExpression isResult
  obtain ⟨type, htype⟩ := Tokenizes.tokens hexpression none
  have hyield : type.yield = tokens (a.typing isResult) := htype.yield_eq
  refine ⟨⟨type, hyield⟩, hyield ▸ type.isSheltered, fun text file hfile hother p hp => ?_⟩
  exact outline_setType hfile hother hp hexpression

/-- Anything by name, with values that hold signs and separators. -/
def signsByName : TypeHint :=
  .union .bars
    [.generic .dict [.type .str, .literal [.int (-1), .real "1e-07", .text "a, b;"]], .nothing]

theorem signsByName_typing : signsByName.typing false =
    "\x7b [key: string]: -1 | 1e-07 | \"a, b;\" \x7d | null" := by
  decide +kernel

theorem signsByName_isReadable : signsByName.IsReadable := by
  have hreal : IsNumeral "1e-07".toList :=
    .positive (.scientific (x := ['1']) (y := ['0', '7']) (.whole (by decide)) (by decide)
      (by decide))
  have htext : IsQuotable "a, b;" := by
    unfold IsQuotable
    decide
  refine ⟨by simp, ⟨trivial, ⟨by simp, ?_⟩, trivial⟩, trivial, trivial⟩
  simpa [LiteralValue.IsReadable] using ⟨hreal, htext⟩

/-- The type of an annotation in the place of the type of a property. -/
theorem wellFormed_typing_signs :
    signsByName.IsReadable ∧
      (∃ type : TypeTree,
        type.yield = tokens "\x7b [key: string]: -1 | 1e-07 | \"a, b;\" \x7d | null") ∧
      IsSheltered (tokens "\x7b [key: string]: -1 | 1e-07 | \"a, b;\" \x7d | null") ∧
      ∃ file', SourceFile.ofText (SourceFile.setType ⟨"interface A \x7ba: b; c?: d\x7d", [],
          [.interface "A" false [⟨"a", false, 16, 17⟩, ⟨"c", true, 23, 24⟩]]⟩
          ⟨"a", false, 16, 17⟩
          "\x7b [key: string]: -1 | 1e-07 | \"a, b;\" \x7d | null").fullText = .ok file' ∧
        file'.outline = [.interface "A" false
          [⟨"a", false, "\x7b [key: string]: -1 | 1e-07 | \"a, b;\" \x7d | null"⟩,
            ⟨"c", true, "d"⟩]] := by
  obtain ⟨hderivable, hsheltered, hread⟩ := wellFormed_typing signsByName_isReadable false
  rw [signsByName_typing] at hderivable hsheltered
  refine ⟨signsByName_isReadable, hderivable, hsheltered, ?_⟩
  obtain ⟨file', hfile', houtline⟩ := hread "interface A \x7ba: b; c?: d\x7d"
    ⟨"interface A \x7ba: b; c?: d\x7d", [],
      [.interface "A" false [⟨"a", false, 16, 17⟩, ⟨"c", true, 23, 24⟩]]⟩
    (by
      unfold SourceFile.ofText parse
      rw [tokens_twoProperties]
      rfl)
    (by
      unfold NoOther
      decide +kernel)
    ⟨"a", false, 16, 17⟩ (by simp [allProperties, Statement.properties])
  rw [signsByName_typing] at hfile' houtline
  refine ⟨file', hfile', houtline.trans ?_⟩
  have hc : SourceFile.typeText ⟨"interface A \x7ba: b; c?: d\x7d", [],
      [.interface "A" false [⟨"a", false, 16, 17⟩, ⟨"c", true, 23, 24⟩]]⟩ ⟨"c", true, 23, 24⟩ =
      "d" := by
    decide +kernel
  simp only [outlines, Statement.outline, Property.outline, List.map_cons, List.map_nil, hc]
  rfl

/-- The type of a literal without values is empty, which is no type. -/
theorem not_derivable_emptyLiteral :
    (TypeHint.literal []).Every (fun _ => False) (fun values => ∀ v ∈ values, v.IsReadable) ∧
      ¬∃ type : TypeTree, type.yield = tokens ((TypeHint.literal []).typing false) := by
  have htokens : tokens ((TypeHint.literal []).typing false) = [] := by
    decide
  refine ⟨fun v hv => absurd hv List.not_mem_nil, ?_⟩
  rintro ⟨type, htype⟩
  obtain ⟨t, ts, hcons, -⟩ := type.yield_eq_cons
  rw [hcons, htokens] at htype
  contradiction

end TypeHint

end SchemaTypings
