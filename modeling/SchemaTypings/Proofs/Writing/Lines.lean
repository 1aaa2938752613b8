import SchemaTypings.Proofs.Json.Quoting
import SchemaTypings.Proofs.Writing.Types

/-!
# Lines of written texts

The texts that declarations are made of end lines by line feeds only, so that indenting them is
putting blanks in front of their lines: words, quoted texts and property keys hold no character that
ends a line, or a line feed (`isLined_propertyKey`).
-/

namespace SchemaTypings

open Declaration

namespace Declaration

instance (x : List Char) : Decidable (IsLined x) := inferInstanceAs (Decidable (∀ _ ∈ _, _))

variable {x y : List Char}

theorem isLined_append : IsLined (x ++ y) ↔ IsLined x ∧ IsLined y := by
  simp only [IsLined, List.mem_append, or_imp, forall_and]

/-- The visible characters of ASCII end no line. -/
theorem isLineBreak_of_visible {c : Char} (h : 0x20 ≤ c.toNat ∧ c.toNat ≤ 0x7E) :
    Text.isLineBreak c = false := by
  simp only [Text.isLineBreak, Bool.or_eq_false_iff, Bool.and_eq_false_iff, decide_eq_false_iff_not,
    beq_eq_false_iff_ne]
  omega

theorem isLined_of_visible (h : ∀ c ∈ x, 0x20 ≤ c.toNat ∧ c.toNat ≤ 0x7E) : IsLined x :=
  fun c hc hbreak => by simp [isLineBreak_of_visible (h c hc)] at hbreak

/-- The characters of words are visible. -/
theorem visible_of_isIdentifierPart {c : Char} (h : isIdentifierPart c) :
    0x20 ≤ c.toNat ∧ c.toNat ≤ 0x7E := by
  simp only [isIdentifierPart, isIdentifierStart, Bool.or_eq_true, Bool.and_eq_true,
    decide_eq_true_eq, Char.le_def, UInt32.le_iff_toNat_le] at h
  have htoNat : c.toNat = c.val.toNat := rfl
  obtain ((((⟨h1, h2⟩ | ⟨h1, h2⟩) | rfl) | rfl) | ⟨h1, h2⟩) := h
  · simp at h1 h2; omega
  · simp at h1 h2; omega
  · decide
  · decide
  · simp at h1 h2; omega

theorem isLined_of_isIdentifierPart (h : ∀ c ∈ x, isIdentifierPart c) : IsLined x :=
  isLined_of_visible fun c hc => visible_of_isIdentifierPart (h c hc)

theorem IsWord.isLined (h : IsWord x) : IsLined x :=
  isLined_of_isIdentifierPart h.2

theorem IsIdentifier.isLined (h : IsIdentifier x) : IsLined x :=
  h.1.isLined

end Declaration

/-! ## Quoted texts -/

namespace Json

/-- Digits are visible. -/
theorem visible_of_mem_hexDigits {width n : Nat} {c : Char} (h : c ∈ Text.hexDigits width n) :
    0x20 ≤ c.toNat ∧ c.toNat ≤ 0x7E := by
  have hall : ∀ n : Fin 16, 0x20 ≤ (Nat.digitChar n).toNat ∧ (Nat.digitChar n).toNat ≤ 0x7E := by
    decide
  induction width generalizing n with
  | zero => exact absurd h List.not_mem_nil
  | succ width ih =>
    rcases List.mem_append.mp h with h | h
    · exact ih h
    · rw [List.mem_singleton.mp h]
      exact hall ⟨n % 16, Nat.mod_lt n (by decide)⟩

/-- The escape of a unit is visible. -/
theorem visible_of_mem_unitEscape {n : Nat} {c : Char} (h : c ∈ unitEscape n) :
    0x20 ≤ c.toNat ∧ c.toNat ≤ 0x7E := by
  rcases List.mem_cons.mp h with rfl | h
  · decide
  · rcases List.mem_cons.mp h with rfl | h
    · decide
    · exact visible_of_mem_hexDigits h

/-- What is written for a character is visible. -/
theorem visible_of_mem_escapeChar {c d : Char} (h : d ∈ escapeChar c) :
    0x20 ≤ d.toNat ∧ d.toNat ≤ 0x7E := by
  unfold escapeChar at h
  split at h
  · next letter hletter =>
    have hletters : letter ∈ ['"', '\\', 'n', 'r', 't', 'f', 'b'] := by
      unfold shortEscape? at hletter
      split at hletter
      all_goals
        simp only [Option.some.injEq, reduceCtorEq] at hletter
        try (subst hletter; decide)
    have hall : ∀ e ∈ ['"', '\\', 'n', 'r', 't', 'f', 'b'], 0x20 ≤ e.toNat ∧ e.toNat ≤ 0x7E := by
      decide
    simp only [List.mem_cons, List.not_mem_nil, or_false] at h
    obtain rfl | rfl := h
    · decide
    · exact hall _ hletters
  · dsimp only at h
    split at h
    · next hvisible =>
      obtain rfl := List.mem_singleton.mp h
      simpa using hvisible
    · split at h
      · exact visible_of_mem_unitEscape h
      · rcases List.mem_append.mp h with h | h
        · exact visible_of_mem_unitEscape h
        · exact visible_of_mem_unitEscape h

/-- A quoted text stands on one line. -/
theorem isLined_quote (s : String) : IsLined (quote s).toList := by
  refine isLined_of_visible fun c hc => ?_
  simp only [quote, quoteChars, String.toList_ofList, List.cons_append, List.mem_cons,
    List.mem_append, List.mem_flatMap, List.not_mem_nil, or_false] at hc
  obtain rfl | ⟨d, -, hd⟩ | rfl := hc
  · decide
  · exact visible_of_mem_escapeChar hd
  · decide

end Json

/-- A word with at most one line feed behind it. -/
theorem exists_of_isIdentifierLine {cs : List Char} (h : isIdentifierLine cs = true) :
    IsWord (cs.takeWhile isIdentifierPart) ∧
      (cs = cs.takeWhile isIdentifierPart ∨ cs = cs.takeWhile isIdentifierPart ++ ['\n']) := by
  unfold isIdentifierLine at h
  split at h
  · contradiction
  · next c rest =>
    obtain ⟨hstart, hrest⟩ := Bool.and_eq_true_iff.mp h
    have hsplit := List.takeWhile_append_dropWhile (p := isIdentifierPart) (l := rest)
    have hfront : (c :: rest).takeWhile isIdentifierPart = c :: rest.takeWhile isIdentifierPart := by
      rw [List.takeWhile_cons, if_pos (isIdentifierPart_of_start hstart)]
    rw [hfront]
    refine ⟨⟨⟨c, rfl, hstart⟩, ?_⟩, ?_⟩
    · rw [← hfront]
      exact fun d hd => List.mem_takeWhile_imp hd
    · split at hrest
      · next hdrop => exact .inl (by rw [hdrop, List.append_nil] at hsplit; rw [hsplit])
      · next hdrop => exact .inr (by rw [hdrop] at hsplit; rw [List.cons_append, hsplit])
      · contradiction

/-- The key of a property ends no line but by a line feed. -/
theorem isLined_propertyKey (key : String) : IsLined (propertyKey key).toList := by
  unfold propertyKey
  split
  · next hline =>
    obtain ⟨hword, heq | heq⟩ := exists_of_isIdentifierLine hline
    · rw [heq]
      exact hword.isLined
    · rw [heq]
      exact isLined_append.mpr ⟨hword.isLined, by decide⟩
  · exact Json.isLined_quote key

end SchemaTypings
