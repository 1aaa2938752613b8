import SchemaTypings.Proofs.Derivation.Concatenation

/-!
# Appended files

A text that is appended to a file is read as it is by itself: behind nothing, and behind a complete
line in which every character has a meaning, the lexer starts afresh (`tokens_append_of_endsLine`),
and a derivation of the whole is one of each part, side by side. So the statements are those of both
texts, and only the types of the second stand at other places (`append_distributes`).
-/

namespace SchemaTypings.Declaration

/-- The property with its type behind `n` more characters. -/
def Property.shift (n : Nat) (p : Property) : Property :=
  { p with typeStart := p.typeStart + n, typeEnd := p.typeEnd + n }

/-- The move of a whole text behind another one. -/
def Move.behind (x : List Char) : Move :=
  Move.between [] (pieces x)

theorem Move.property_behind (x : List Char) : (Move.behind x).property = Property.shift x.length := by
  funext p
  simp [Move.behind, Move.between, Move.property, Move.offset, Property.shift]

/-- Every token stands behind the start of a text. -/
theorem Move.fits_behind (x : List Char) (ts : List Token) : (Move.behind x).Fits ts :=
  fun t _ => Nat.zero_le t.offset

/-- A text that is appended to complete lines, in which every character has a meaning, has the tokens
that it has by itself, moved behind these. -/
theorem tokens_append_of_endsLine {s : String} (hother : NoOther s)
    (hline : s = "" ∨ EndsLine s.toList) (t : String) :
    tokens (s ++ t) = tokens s ++ (tokens t).map (Move.behind s.toList).token := by
  have hpieces : pieces (s ++ t).toList = pieces s.toList ++ pieces t.toList := by
    rw [String.toList_append]
    obtain rfl | hline := hline
    · simp
    · exact hline.pieces_append ((noOther_iff s).mp hother) t.toList
  rw [tokens_eq_place, tokens_eq_place, tokens_eq_place, hpieces, place_eq_append,
    Move.placeBehind_eq []]
  rfl

/-- When a file ends in a complete line, and each of its characters has a meaning, appending a text
that can be read by itself succeeds. The statements are then those of the two texts, those of the
second with their types behind the first text, into which the pending edits are made. -/
theorem append_distributes (f : SourceFile) (text : String) {ss ts : List Statement}
    (hfile : parse f.fullText = .ok ss) (hother : NoOther f.fullText)
    (hline : f.fullText = "" ∨ EndsLine f.fullText.toList) (htext : parse text = .ok ts) :
    f.append text = (⟨f.fullText ++ text, [],
        ss ++ mapProperties (Property.shift f.fullText.length) ts⟩, none) ∧
      (f.append text).1.fullText = f.fullText ++ text := by
  obtain ⟨d, hd, hnames, rfl⟩ := (parse_eq_ok_iff _ _).mp hfile
  obtain ⟨e, he, hnames', rfl⟩ := (parse_eq_ok_iff _ _).mp htext
  let m := Move.behind f.fullText.toList
  have hmoved : (e.move m.relocation).statements =
      mapProperties (Property.shift f.fullText.length) e.statements := by
    rw [e.statements_move (Move.fits_behind _ _), Move.property_behind, String.length_toList]
  -- both derivations side by side, the second one moved, are a derivation of the whole
  have hwhole : parse (f.fullText ++ text) =
      .ok (d.statements ++ mapProperties (Property.shift f.fullText.length) e.statements) := by
    refine (parse_eq_ok_iff _ _).mpr ⟨d.append (e.move m.relocation), ?_, fun t ht => ?_, ?_⟩
    · rw [Statements.yield_append, Statements.yield_move, hd, he,
        tokens_append_of_endsLine hother hline]
      rfl
    · rw [Statements.names_append, Statements.names_move, List.mem_append, List.mem_map] at ht
      obtain ht | ⟨u, hu, rfl⟩ := ht
      · exact hnames t ht
      · exact Relocation.isReadable _ (hnames' u hu)
    · rw [Statements.statements_append, hmoved]
  have happend : f.append text = (⟨f.fullText ++ text, [],
      d.statements ++ mapProperties (Property.shift f.fullText.length) e.statements⟩, none) := by
    simp only [SourceFile.append, hwhole]
  refine ⟨happend, ?_⟩
  rw [happend]
  simp [SourceFile.fullText, applyEdits]

theorem tokens_arrayAlias : tokens "type A = \x7bp: C[]\x7d\n" =
    [⟨.typeWord, "type", 1, 0⟩, ⟨.identifier, "A", 1, 5⟩, ⟨.equals, "=", 1, 7⟩,
      ⟨.leftBrace, "\x7b", 1, 9⟩, ⟨.identifier, "p", 1, 10⟩, ⟨.colon, ":", 1, 11⟩,
      ⟨.identifier, "C", 1, 13⟩, ⟨.leftBracket, "[", 1, 14⟩, ⟨.rightBracket, "]", 1, 15⟩,
      ⟨.rightBrace, "\x7d", 1, 16⟩] := by
  decide

theorem tokens_otherInterface : tokens "interface D \x7bq: E\x7d" =
    [⟨.interfaceWord, "interface", 1, 0⟩, ⟨.identifier, "D", 1, 10⟩, ⟨.leftBrace, "\x7b", 1, 12⟩,
      ⟨.identifier, "q", 1, 13⟩, ⟨.colon, ":", 1, 14⟩, ⟨.identifier, "E", 1, 16⟩,
      ⟨.rightBrace, "\x7d", 1, 17⟩] := by
  decide

/-- An alias without a semicolon, whose one property was given another type, has an interface
appended. -/
theorem append_distributes_alias :
    let f := SourceFile.setType ⟨"type A = \x7bp: B\x7d\n", [],
      [.alias "A" false (some [⟨"p", false, 13, 14⟩])]⟩ ⟨"p", false, 13, 14⟩ "C[]"
    f.append "interface D \x7bq: E\x7d" =
      (⟨"type A = \x7bp: C[]\x7d\ninterface D \x7bq: E\x7d", [],
        [.alias "A" false (some [⟨"p", false, 13, 16⟩]),
          .interface "D" false [⟨"q", false, 34, 35⟩]]⟩, none) := by
  intro f
  have hfull : f.fullText = "type A = \x7bp: C[]\x7d\n" := by decide
  have hfile : parse f.fullText = .ok [.alias "A" false (some [⟨"p", false, 13, 16⟩])] := by
    unfold parse
    rw [hfull, tokens_arrayAlias]
    rfl
  have htext : parse "interface D \x7bq: E\x7d" =
      .ok [.interface "D" false [⟨"q", false, 16, 17⟩]] := by
    unfold parse
    rw [tokens_otherInterface]
    rfl
  have hother : NoOther f.fullText := by
    unfold NoOther
    rw [hfull, tokens_arrayAlias]
    decide
  have hline : EndsLine f.fullText.toList := by
    rw [hfull]
    rfl
  have happend := (append_distributes f _ hfile hother (.inr hline) htext).1
  rw [hfull] at happend
  exact happend

end SchemaTypings.Declaration
