import SchemaTypings.Proofs.Writing.Expressions

/-!
# Numbers

A number is a type. A sign in front of it, or in front of its exponent, has no meaning for the lexer
and is a token by itself, so that the number falls into several pieces.
-/

namespace SchemaTypings.Declaration

open Text (isDecimalDigit_of_isDigit)

variable {x y : List Char}

/-! ## The texts of numbers -/

/-- Some digits. -/
def IsDigits (x : List Char) : Prop :=
  x ≠ [] ∧ ∀ c ∈ x, c.isDigit

instance (x : List Char) : Decidable (IsDigits x) := inferInstanceAs (Decidable (_ ∧ _))

/-- A decimal number, with a fraction or without one. -/
inductive IsDecimal : List Char → Prop
  | whole {x : List Char} (h : IsDigits x) : IsDecimal x
  | fraction {x y : List Char} (h : IsDigits x) (h' : IsDigits y) : IsDecimal (x ++ '.' :: y)

/-- A number without its sign. Two floating-point numbers are words, and the exponent of a large or
small one has a sign. -/
inductive IsMagnitude : List Char → Prop
  | word {x : List Char} (h : x ∈ ["inf".toList, "nan".toList]) : IsMagnitude x
  | decimal {x : List Char} (h : IsDecimal x) : IsMagnitude x
  | scientific {x y : List Char} (h : IsDecimal x) {sign : Char} (hsign : sign ∈ ['+', '-'])
    (h' : IsDigits y) : IsMagnitude (x ++ 'e' :: sign :: y)

/-- A number, with a minus sign or without one. -/
inductive IsNumeral : List Char → Prop
  | positive {x : List Char} (h : IsMagnitude x) : IsNumeral x
  | negative {x : List Char} (h : IsMagnitude x) : IsNumeral ('-' :: x)

theorem isDigits_toDigits (n : Nat) : IsDigits (Nat.toDigits 10 n) :=
  ⟨Nat.toDigits_ne_nil, fun _ => Nat.isDigit_of_mem_toDigits (by decide) (by decide)⟩

/-- An integer is written as a number. -/
theorem isNumeral_int (i : Int) : IsNumeral (toString i).toList := by
  rw [Int.toString_eq_repr, Int.repr_eq_if]
  split
  · rw [Nat.toList_repr]
    exact .positive (.decimal (.whole (isDigits_toDigits _)))
  · rw [String.toList_append, Nat.toList_repr]
    exact .negative (.decimal (.whole (isDigits_toDigits _)))

/-! ## Their characters -/

/-- The characters of numbers that are no digits. -/
def numeralSigns : List Char := ['i', 'n', 'f', 'a', '.', 'e', '+', '-']

theorem IsDecimal.chars (h : IsDecimal x) : ∀ c ∈ x, c.isDigit ∨ c ∈ numeralSigns := by
  intro c hc
  cases h with
  | whole h => exact .inl (h.2 c hc)
  | fraction h h' =>
    simp only [List.mem_append, List.mem_cons] at hc
    obtain hc | rfl | hc := hc
    · exact .inl (h.2 c hc)
    · exact .inr (by decide)
    · exact .inl (h'.2 c hc)

theorem IsMagnitude.chars (h : IsMagnitude x) : ∀ c ∈ x, c.isDigit ∨ c ∈ numeralSigns := by
  intro c hc
  cases h with
  | word h =>
    have hall : ∀ x ∈ ["inf".toList, "nan".toList], ∀ c ∈ x, c ∈ numeralSigns := by decide
    exact .inr (hall x h c hc)
  | decimal h => exact h.chars c hc
  | scientific h hsign h' =>
    have hsigns : ∀ c ∈ ['+', '-'], c ∈ numeralSigns := by decide
    simp only [List.mem_append, List.mem_cons] at hc
    obtain hc | rfl | rfl | hc := hc
    · exact h.chars c hc
    · exact .inr (by decide)
    · exact .inr (hsigns c hsign)
    · exact .inl (h'.2 c hc)

theorem IsNumeral.chars (h : IsNumeral x) : ∀ c ∈ x, c.isDigit ∨ c ∈ numeralSigns := by
  intro c hc
  cases h with
  | positive h => exact h.chars c hc
  | negative h =>
    rcases List.mem_cons.mp hc with rfl | hc
    · exact .inr (by decide)
    · exact h.chars c hc

/-- No other character is in a number. -/
theorem IsNumeral.not_mem (h : IsNumeral x) {c : Char} (hdigit : c.isDigit = false)
    (hsign : c ∉ numeralSigns) : c ∉ x :=
  fun hc => (h.chars c hc).elim (by simp [hdigit]) hsign

/-! ## Their pieces -/

/-- Decimal numbers are tokens in front of anything that goes on no number. -/
theorem IsDecimal.lexes (h : IsDecimal x) {rest : List Char}
    (hrest : ∀ c ∈ rest.head?, Text.isDecimalDigit c = false ∧ c ≠ '.') :
    Lexes x (some .number) rest := by
  have hdigits {y : List Char} (h : IsDigits y) : ∃ c z, y = c :: z ∧ Text.isDecimalDigit c ∧
      ∀ d ∈ z, Text.isDecimalDigit d := by
    obtain ⟨c, z, rfl⟩ := List.exists_cons_of_ne_nil h.1
    exact ⟨c, z, rfl, isDecimalDigit_of_isDigit (h.2 c (by simp)),
      fun d hd => isDecimalDigit_of_isDigit (h.2 d (by simp [hd]))⟩
  cases h with
  | whole h =>
    obtain ⟨c, z, rfl, hc, hz⟩ := hdigits h
    refine .number hc hz (fun d hd => (hrest d hd).1) ((fractionLength_eq_zero_iff rest).mpr ?_)
    exact fun hdot => absurd rfl (hrest '.' hdot).2
  | fraction h h' =>
    obtain ⟨c, z, rfl, hc, hz⟩ := hdigits h
    obtain ⟨d, w, rfl, hd, hw⟩ := hdigits h'
    exact .fraction hc hz hd hw fun e he => (hrest e he).1

/-- A sign is a token by itself. -/
theorem lexes_numberSign {c : Char} (h : c ∈ ['+', '-']) (rest : List Char) :
    Lexes [c] (some .other) rest := by
  simp only [List.mem_cons, List.not_mem_nil, or_false] at h
  obtain rfl | rfl := h
  all_goals exact .sign (by decide) rfl rfl (by decide) (by decide) rfl

/-- Pieces of the kinds that types are made of are a type. -/
theorem isExpression_textOf {ps : List Piece} (hne : ps ≠ [])
    (hkinds : ∀ p ∈ ps, ∃ k ∈ typeKinds, p.kind = some k)
    (hcut : ∀ rest, Stops rest → Cut ps rest) : IsExpression (textOf ps) := by
  refine ⟨ps, rfl, hcut, fun offset line before => ?_⟩
  clear hcut
  -- each piece goes on the type that the pieces in front of it are
  induction ps generalizing offset line before with
  | nil => exact absurd rfl hne
  | cons p ps ih =>
    obtain ⟨k, hk, hkind⟩ := hkinds p (by simp)
    have hfirst : ∃ after, GoesOn before offset p.chars.length
        [⟨k, String.ofList p.chars, line, offset⟩] after :=
      GoesOn.exists_of_single before hk
        ⟨.ofKind ⟨k, String.ofList p.chars, line, offset⟩ rfl, rfl, rfl, rfl⟩
    obtain ⟨middle, hmiddle⟩ := hfirst
    simp only [place, hkind, Option.map_some, Option.toList_some, textOf_cons, List.length_append]
    by_cases hps : ps = []
    · subst hps
      exact ⟨middle, by simpa [place] using hmiddle⟩
    · obtain ⟨after, hafter⟩ := ih hps (fun q hq => hkinds q (by simp [hq]))
        (offset + p.chars.length) (line + p.chars.count '\n') (some middle)
      exact ⟨after, hmiddle.trans hafter (Nat.add_assoc ..)⟩

/-- The pieces that a number is made of. -/
theorem IsMagnitude.exists_pieces (h : IsMagnitude x) :
    ∃ ps, textOf ps = x ∧ ps ≠ [] ∧ (∀ p ∈ ps, ∃ k ∈ typeKinds, p.kind = some k) ∧
      ∀ rest, Stops rest → Cut ps rest := by
  have hstop {rest : List Char} (h : Stops rest) :
      ∀ c ∈ rest.head?, Text.isDecimalDigit c = false ∧ c ≠ '.' := fun c hc => (h c hc).2
  cases h with
  | word h =>
    have hword : ∀ x ∈ ["inf".toList, "nan".toList], IsIdentifier x := by decide
    obtain ⟨⟨⟨c, hc, hstart⟩, hall⟩, hkind⟩ := hword x h
    obtain ⟨y, rfl⟩ := List.head?_eq_some_iff.mp hc
    refine ⟨[⟨some .identifier, c :: y⟩], by simp, by simp, by simp; decide, fun rest hrest => ?_⟩
    have hlex := Lexes.word (y := y) hstart (fun d hd => hall d (List.mem_cons_of_mem c hd))
      fun d hd => (hrest d hd).1
    rw [hkind] at hlex
    exact ⟨hlex, trivial⟩
  | decimal h =>
    exact ⟨[⟨some .number, x⟩], by simp, by simp, by simp; decide,
      fun rest hrest => ⟨h.lexes (hstop hrest), trivial⟩⟩
  | @scientific x y h sign hsign h' =>
    -- the exponent's letter is a word, and its sign keeps it apart from the digits
    refine ⟨[⟨some .number, x⟩, ⟨some .identifier, ['e']⟩, ⟨some .other, [sign]⟩,
      ⟨some .number, y⟩], by simp, by simp, by simp; decide, fun rest hrest => ⟨?_, ?_, ?_, ?_,
      trivial⟩⟩
    · exact h.lexes (by simp; decide)
    · have hpart : ∀ c ∈ ['+', '-'], isIdentifierPart c = false := by decide
      exact .word (c := 'e') (y := []) (by decide) (by simp) (by simpa using hpart sign hsign)
    · exact lexes_numberSign hsign _
    · exact (IsDecimal.whole h').lexes (hstop hrest)

/-- A number is a type. -/
theorem IsNumeral.isExpression (h : IsNumeral x) : IsExpression x := by
  cases h with
  | positive h =>
    obtain ⟨ps, rfl, hne, hkinds, hcut⟩ := h.exists_pieces
    exact isExpression_textOf hne hkinds hcut
  | negative h =>
    obtain ⟨ps, rfl, -, hkinds, hcut⟩ := h.exists_pieces
    have hsigned : ∀ p ∈ ⟨some .other, ['-']⟩ :: ps, ∃ k ∈ typeKinds, p.kind = some k := by
      simpa using ⟨by decide, hkinds⟩
    exact isExpression_textOf (List.cons_ne_nil _ _) hsigned fun rest hrest =>
      ⟨lexes_numberSign (by decide) _, hcut rest hrest⟩

end SchemaTypings.Declaration
