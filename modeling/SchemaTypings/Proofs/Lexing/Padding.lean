import SchemaTypings.Proofs.Lexing.Locality
import SchemaTypings.Text.Lines

/-!
# Padded lines

When blanks are put in front of the lines of a text, its tokens stay the same, as long as each of
them has a meaning and stands on one line (`Cut.padded`). A text in which only line feeds end lines
is padded when it is indented (`padded_indentChars`).
-/

namespace SchemaTypings.Declaration

/-- A piece that is dropped, or a token with a meaning that stands on one line. -/
def Piece.IsFlat (p : Piece) : Prop :=
  ∀ k ∈ p.kind, k ≠ .other ∧ '\n' ∉ p.chars

/-- The second text is the first with blanks put in behind line feeds. -/
inductive Padded : List Char → List Char → Prop
  | nil : Padded [] []
  | char {x y : List Char} (c : Char) (h : Padded x y) : Padded (c :: x) (c :: y)
  | line {x y blanks : List Char} (hblanks : ∀ c ∈ blanks, c = ' ') (h : Padded x y) :
    Padded ('\n' :: x) ('\n' :: (blanks ++ y))

namespace Padded

variable {x y x' y' : List Char}

/-- A text without padding. -/
protected theorem refl (x : List Char) : Padded x x := by
  induction x with
  | nil => exact .nil
  | cons c x ih => exact .char c ih

theorem append (h : Padded x y) (h' : Padded x' y') : Padded (x ++ x') (y ++ y') := by
  induction h with
  | nil => exact h'
  | char c _ ih => exact .char c ih
  | line hblanks _ ih =>
    rw [List.cons_append, List.cons_append, List.append_assoc]
    exact .line hblanks ih

/-- Padding leaves the first character. -/
theorem head?_eq (h : Padded x y) : y.head? = x.head? := by
  cases h <;> rfl

/-- Nothing is put into what stands on one line. -/
theorem exists_of_flat (hx : '\n' ∉ x) (h : Padded (x ++ x') y) :
    ∃ y', y = x ++ y' ∧ Padded x' y' := by
  induction x generalizing y with
  | nil => exact ⟨y, rfl, h⟩
  | cons c x ih =>
    obtain ⟨hc, hx⟩ : '\n' ≠ c ∧ '\n' ∉ x := by simpa using hx
    cases h with
    | char _ h =>
      obtain ⟨y', rfl, h'⟩ := ih hx h
      exact ⟨y', rfl, h'⟩
    | line => exact absurd rfl hc

/-- A padded text goes on no other tokens than the text itself does. -/
theorem like (h : Padded x y) : Like x y where
  first c hc _ := by rwa [← h.head?_eq]
  second hdot c hc _ := by
    cases h with
    | nil => simp at hdot
    | char _ h => rwa [List.tail_cons, ← h.head?_eq]
    | line => simp at hdot

end Padded

/-- Blanks in front of the rest of a block comment belong to it. -/
theorem BlockRest.append_blanks {x blanks : List Char} (h : BlockRest x)
    (hblanks : ∀ c ∈ blanks, c = ' ') : BlockRest (blanks ++ x) := by
  induction blanks with
  | nil => exact h
  | cons b blanks ih =>
    obtain rfl := hblanks b (by simp)
    exact .char (by simp) (ih fun c hc => hblanks c (by simp [hc]))

/-- Blanks are cut off one by one. -/
theorem cut_blanks {blanks : List Char} (hblanks : ∀ c ∈ blanks, c = ' ') (rest : List Char) :
    Cut (blanks.map fun b => ⟨none, [b]⟩) rest := by
  induction blanks with
  | nil => trivial
  | cons b blanks ih =>
    obtain rfl := hblanks b (by simp)
    exact ⟨.blank (by decide), ih fun c hc => hblanks c (by simp [hc])⟩

/-- The rest of a block comment is one with padding too. -/
theorem BlockRest.exists_padded {x r y : List Char} (h : BlockRest x) (hpad : Padded (x ++ r) y) :
    ∃ x' r', y = x' ++ r' ∧ BlockRest x' ∧ Padded r r' := by
  induction h generalizing y with
  | close =>
    obtain ⟨r', rfl, hr⟩ := hpad.exists_of_flat (by decide)
    exact ⟨['*', '/'], r', rfl, .close, hr⟩
  | @char c x hstar hx ih =>
    cases hpad with
    | char _ hpad =>
      obtain ⟨x', r', rfl, hx', hr⟩ := ih hpad
      refine ⟨c :: x', r', rfl, .char (fun hc => ?_) hx', hr⟩
      -- neither rest is empty, so that both begin with the same character
      have hhead : (x' ++ r').head? = (x ++ r).head? := hpad.head?_eq
      have hne : ∀ {z}, BlockRest z → ∀ more : List Char, (z ++ more).head? = z.head? := by
        intro z hz more
        cases hz <;> rfl
      rw [hne hx', hne hx] at hhead
      rw [hhead]
      exact hstar hc
    | @line _ _ blanks hblanks hpad =>
      obtain ⟨x', r', rfl, hx', hr⟩ := ih hpad
      exact ⟨'\n' :: (blanks ++ x'), r', by simp, .char (by simp) (hx'.append_blanks hblanks), hr⟩

/-- What is dropped is dropped with padding too, together with the blanks behind it. -/
theorem Lexes.exists_padded_of_dropped {x r y : List Char} (h : Lexes x none r)
    (hpad : Padded (x ++ r) y) :
    ∃ qs r', y = textOf qs ++ r' ∧ Cut qs r' ∧ (∀ q ∈ qs, q.kind = none) ∧ Padded r r' := by
  cases h with
  | @blank c _ hc =>
    cases hpad with
    | char _ hpad => exact ⟨[⟨none, [c]⟩], _, rfl, ⟨.blank hc, trivial⟩, by simp, hpad⟩
    -- the blanks behind a line feed are dropped one by one
    | @line _ z blanks hblanks hpad =>
      refine ⟨⟨none, ['\n']⟩ :: blanks.map fun b => ⟨none, [b]⟩, z, ?_,
        ⟨.blank hc, cut_blanks hblanks z⟩, by simp, hpad⟩
      simp [textOf, List.flatMap_map]
  | block hx =>
    cases hpad with
    | char _ hpad =>
      cases hpad with
      | char _ hpad =>
        obtain ⟨x', r', rfl, hx', hr⟩ := hx.exists_padded hpad
        exact ⟨[⟨none, '/' :: '*' :: x'⟩], r', by simp, ⟨.block hx', trivial⟩, by simp, hr⟩
  | @line x _ hx hrest =>
    have hflat : '\n' ∉ '/' :: '/' :: x := by
      simpa using fun h => hx '\n' h rfl
    obtain ⟨r', rfl, hr⟩ := hpad.exists_of_flat hflat
    refine ⟨[⟨none, '/' :: '/' :: x⟩], r', by simp, ⟨.line hx ?_, trivial⟩, by simp, hr⟩
    simpa [hr.head?_eq] using hrest

/-! ## Lexemes -/

/-- A piece as a token without a place. -/
def Piece.lexeme? (p : Piece) : Option (Kind × String) :=
  p.kind.map fun k => (k, String.ofList p.chars)

/-- A token without its place. -/
def Token.lexeme (t : Token) : Kind × String :=
  (t.kind, t.text)

theorem map_lexeme_place (offset line : Nat) (ps : List Piece) :
    (place offset line ps).map Token.lexeme = ps.filterMap Piece.lexeme? := by
  induction ps generalizing offset line with
  | nil => rfl
  | cons p ps ih =>
    cases hkind : p.kind <;> simp [place, hkind, ih, Piece.lexeme?, Token.lexeme]

/-- Flat pieces that are cut off a text are cut off the padded text with the same lexemes. -/
theorem Cut.padded {ps : List Piece} {r y : List Char} (h : Cut ps r) (hflat : ∀ p ∈ ps, p.IsFlat)
    (hpad : Padded (textOf ps ++ r) y) :
    ∃ qs r', y = textOf qs ++ r' ∧ Cut qs r' ∧
      qs.filterMap Piece.lexeme? = ps.filterMap Piece.lexeme? ∧ Padded r r' := by
  induction ps generalizing y with
  | nil => exact ⟨[], y, rfl, trivial, rfl, hpad⟩
  | cons p ps ih =>
    obtain ⟨kind, chars⟩ := p
    obtain ⟨hlexes, hcut⟩ := h
    have hrest := fun {z} => ih (y := z) hcut fun q hq => hflat q (by simp [hq])
    rw [textOf_cons, List.append_assoc] at hpad
    cases kind with
    | none =>
      obtain ⟨us, z, rfl, hus, hdropped, hz⟩ := hlexes.exists_padded_of_dropped hpad
      obtain ⟨qs, r', rfl, hqs, hlexemes, hr⟩ := hrest hz
      refine ⟨us ++ qs, r', by simp, hus.append hqs, ?_, hr⟩
      have hnone : us.filterMap Piece.lexeme? = [] := by
        rw [List.filterMap_eq_nil_iff]
        intro u hu
        simp [Piece.lexeme?, hdropped u hu]
      rw [List.filterMap_append, hnone, List.nil_append, hlexemes]
      rfl
    -- a token has no line feed in it, and so no padding
    | some k =>
      obtain ⟨hother, hline⟩ := hflat ⟨some k, chars⟩ (by simp) k rfl
      obtain ⟨z, rfl, hz⟩ := hpad.exists_of_flat hline
      obtain ⟨qs, r', rfl, hqs, hlexemes, hr⟩ := hrest hz
      refine ⟨⟨some k, chars⟩ :: qs, r', by simp, ⟨hlexes.of_like hother hz.like, hqs⟩, ?_, hr⟩
      simp [Piece.lexeme?, hlexemes]

/-! ## Indentation -/

/-- A text in which only line feeds end lines. -/
def IsLined (x : List Char) : Prop :=
  ∀ c ∈ x, Text.isLineBreak c = true → c = '\n'

/-- The first line of a text. -/
theorem exists_line {x : List Char} (hne : x ≠ []) (h : IsLined x) :
    ∃ line, (x = line ∧ Text.lines x = [line]) ∨
      ∃ rest, x = line ++ '\n' :: rest ∧ Text.lines x = (line ++ ['\n']) :: Text.lines rest := by
  induction x with
  | nil => exact absurd rfl hne
  | cons c x ih =>
    by_cases hc : c = '\n'
    · subst hc
      exact ⟨[], .inr ⟨x, rfl, rfl⟩⟩
    · have hbreak : Text.isLineBreak c = false :=
        Bool.eq_false_iff.mpr fun hbreak => hc (h c (by simp) hbreak)
      have hreturn : c ≠ '\r' := by
        rintro rfl
        exact absurd hbreak (by decide)
      have hlines : Text.lines (c :: x) = Text.extendFirst c (Text.lines x) := by
        rw [Text.lines]
        · simp [hbreak]
        · exact fun _ heq => absurd heq hreturn
      cases x with
      | nil => exact ⟨[c], .inl ⟨rfl, hlines⟩⟩
      | cons d x =>
        obtain ⟨line, ⟨rfl, hline⟩ | ⟨rest, hx, hline⟩⟩ :=
          ih (by simp) fun e he => h e (by simp [he])
        · exact ⟨c :: d :: x, .inl ⟨rfl, by rw [hlines, hline]; rfl⟩⟩
        · exact ⟨c :: line, .inr ⟨rest, by rw [hx]; rfl, by rw [hlines, hline]; rfl⟩⟩

/-- A text that begins a line is padded when it is indented. -/
theorem padded_indentChars {lead : List Char} (hlead : ∀ c ∈ lead, c = ' ') {x : List Char}
    (h : IsLined x) : Padded ('\n' :: x) ('\n' :: Text.indentChars lead x) := by
  -- by induction on what follows the first line
  induction hn : x.length using Nat.strongRecOn generalizing x with
  | _ n ih =>
    by_cases hne : x = []
    · subst hne
      exact .refl _
    have hpad : ∀ (line : List Char) (isBlank : Bool) {tail tail' : List Char}, Padded tail tail' →
        Padded ('\n' :: (line ++ tail))
          ('\n' :: ((if isBlank then line else lead ++ line) ++ tail')) := by
      intro line isBlank tail tail' htail
      split
      · exact .char _ ((Padded.refl line).append htail)
      · rw [List.append_assoc]
        exact .line hlead ((Padded.refl line).append htail)
    obtain ⟨line, ⟨rfl, hlines⟩ | ⟨rest, hx, hlines⟩⟩ := exists_line hne h
    · simpa [Text.indentChars, hlines] using hpad x (x.all Text.isBlank) .nil
    · have hrest := ih rest.length (by simp [← hn, hx]; omega)
        (fun c hc => h c (by simp [hx, hc])) rfl
      have hwhole := hpad line ((line ++ ['\n']).all Text.isBlank) hrest
      rw [hx] at hlines ⊢
      have hindent : Text.indentChars lead (line ++ '\n' :: rest) =
          (if (line ++ ['\n']).all Text.isBlank then line else lead ++ line) ++
            '\n' :: Text.indentChars lead rest := by
        unfold Text.indentChars
        rw [hlines, List.flatMap_cons]
        split <;> simp
      rw [hindent]
      exact hwhole

end SchemaTypings.Declaration
