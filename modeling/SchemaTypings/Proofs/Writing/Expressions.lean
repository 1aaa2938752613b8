import SchemaTypings.Proofs.Writing.Types

/-!
# Type expressions

The type of an annotation may hold numbers, whose signs have no meaning for the lexer, so that it is
not spelled alike everywhere in the sense of `Spells`. `Tokenizes` asks for less: the text is cut
into the same pieces in front of anything that goes on no word and no number. `IsExpression` are the
types among these texts, `IsEnclosable` the texts that may stand in brackets, and both are put
together like the types of `IsType`.
-/

namespace SchemaTypings.Declaration

variable {x y : List Char} {T U : Nat → List Token → Prop}

/-! ## In front of a stop -/

/-- A text that goes on no word and no number in front of it. -/
def Stops (cs : List Char) : Prop :=
  ∀ c ∈ cs.head?, isIdentifierPart c = false ∧ Text.isDecimalDigit c = false ∧ c ≠ '.'

instance (cs : List Char) : Decidable (Stops cs) := by
  unfold Stops
  exact inferInstance

/-- These characters stop what stands in front of them. -/
theorem stops_cons {c : Char} (h : c ∈ [' ', '[', ']', '(', ')', '<', '>', ',', '|', '\x7d'])
    (cs : List Char) : Stops (c :: cs) := by
  have hall : ∀ c ∈ [' ', '[', ']', '(', ')', '<', '>', ',', '|', '\x7d'], Stops [c] := by decide
  exact hall c h

theorem Stops.append (h : Stops x) (h' : Stops y) : Stops (x ++ y) := by
  cases x with
  | nil => exact h'
  | cons c x => exact h

/-- A quiet text stops what stands in front of it. -/
theorem Quiet.stops (h : Quiet x) : Stops x := by
  intro c hc
  have hloud := h c hc
  simp only [isLoud, Bool.or_eq_false_iff, decide_eq_false_iff_not] at hloud
  exact ⟨hloud.1.1.1, hloud.1.1.2, hloud.1.2⟩

/-- What stops a text is parted from it. -/
theorem Stops.parted (h : Stops y) (x : List Char) : Parted x y :=
  parted_of_head x fun c hc => (h c hc).1

/-- A text that is cut into the same pieces in front of anything that stops it. At each offset its
tokens satisfy `T`. -/
def Tokenizes (x : List Char) (T : Nat → List Token → Prop) : Prop :=
  ∃ ps, textOf ps = x ∧ (∀ rest, Stops rest → Cut ps rest) ∧
    ∀ offset line, T offset (place offset line ps)

theorem Spells.tokenizes (h : Spells x T) : Tokenizes x T := by
  obtain ⟨ps, htext, -, hcut, htokens⟩ := h
  exact ⟨ps, htext, fun rest hrest => hcut rest (hrest.parted x), htokens⟩

theorem Tokenizes.imp (h : Tokenizes x T) (hT : ∀ offset ts, T offset ts → U offset ts) :
    Tokenizes x U := by
  obtain ⟨ps, htext, hcut, htokens⟩ := h
  exact ⟨ps, htext, hcut, fun offset line => hT _ _ (htokens offset line)⟩

theorem Tokenizes.append (h : Tokenizes x T) (h' : Tokenizes y U) (hstop : Stops y) :
    Tokenizes (x ++ y) (Joined x.length T U) := by
  obtain ⟨ps, rfl, hcut, htokens⟩ := h
  obtain ⟨qs, rfl, hcut', htokens'⟩ := h'
  refine ⟨ps ++ qs, textOf_append ps qs, fun rest hrest => ?_, fun offset line => ?_⟩
  · exact (hcut _ (hstop.append hrest)).append (hcut' _ hrest)
  · exact ⟨_, _, place_append offset line ps qs, htokens offset line, htokens' _ _⟩

/-- What ends in no word is spelled alike in front of anything. -/
theorem Spells.append_tokenizes (h : Spells x T) (h' : Tokenizes y U)
    (hlast : ∀ c ∈ x.getLast?, isIdentifierPart c = false) :
    Tokenizes (x ++ y) (Joined x.length T U) := by
  obtain ⟨ps, rfl, -, hcut, htokens⟩ := h
  obtain ⟨qs, rfl, hcut', htokens'⟩ := h'
  refine ⟨ps ++ qs, textOf_append ps qs, fun rest hrest => ?_, fun offset line => ?_⟩
  · exact (hcut _ (parted_of_last hlast _)).append (hcut' _ hrest)
  · exact ⟨_, _, place_append offset line ps qs, htokens offset line, htokens' _ _⟩

/-- The pieces of a text that stands by itself. -/
theorem Tokenizes.pieces (h : Tokenizes x T) :
    (∀ rest, Stops rest → Cut (pieces x) rest) ∧
      ∀ offset line, T offset (place offset line (pieces x)) := by
  obtain ⟨ps, rfl, hcut, htokens⟩ := h
  -- the end of the text stops it too
  have hpieces := (hcut [] (by decide)).pieces_eq
  rw [List.append_nil, pieces_nil, List.append_nil] at hpieces
  rw [hpieces]
  exact ⟨hcut, htokens⟩

/-- The tokens are those of the pieces that the text has by itself. -/
theorem Tokenizes.placed (h : Tokenizes x T) :
    Tokenizes x fun offset ts =>
      T offset ts ∧ ∃ line, ts = place offset line (Declaration.pieces x) := by
  obtain ⟨hcut, htokens⟩ := h.pieces
  exact ⟨Declaration.pieces x, textOf_pieces x, hcut, fun offset line => ⟨htokens offset line, line, rfl⟩⟩

/-- The tokens of a text that stands by itself. -/
theorem Tokenizes.tokens {s : String} (h : Tokenizes s.toList T) : T 0 (tokens s) := by
  rw [tokens_eq_place]
  exact h.pieces.2 0 1

/-! ## Texts in brackets -/

/-- A text that may stand in brackets. -/
def IsEnclosable (x : List Char) : Prop :=
  Tokenizes x fun _ ts => Balances ts

theorem IsBalanced.isEnclosable (h : IsBalanced x) : IsEnclosable x :=
  h.tokenizes

theorem IsEnclosable.append (h : IsEnclosable x) (h' : IsEnclosable y) (hstop : Stops y) :
    IsEnclosable (x ++ y) :=
  (Tokenizes.append h h' hstop).imp fun _ ts => by
    rintro ⟨us, vs, rfl, hus, hvs⟩
    exact hus.append hvs

/-- Behind what ends in no word anything may stand. -/
theorem IsBalanced.append_isEnclosable (h : IsBalanced x) (h' : IsEnclosable y)
    (hlast : ∀ c ∈ x.getLast?, isIdentifierPart c = false) : IsEnclosable (x ++ y) :=
  (Spells.append_tokenizes h h' hlast).imp fun _ ts => by
    rintro ⟨us, vs, rfl, hus, hvs⟩
    exact hus.append hvs

/-- A text that is a group in brackets. -/
def IsEnclosed (b : Bracket) (x : List Char) : Prop :=
  Tokenizes x fun offset ts => ∃ g : Group b, g.yield = ts ∧ g.opening.token.offset = offset ∧
    g.closing.token.stop = offset + x.length

/-- An enclosable text in brackets is a group. -/
theorem IsEnclosable.isEnclosed (h : IsEnclosable x) (b : Bracket) :
    IsEnclosed b (b.chars.1 :: (x ++ [b.chars.2])) := by
  -- inside, the closing bracket is what stops the text
  have hclose : Stops [b.chars.2] := by
    cases b <;> decide
  have hinside := Tokenizes.append h b.spells_closing.tokenizes hclose
  have hopen : ∀ c ∈ [b.chars.1].getLast?, isIdentifierPart c = false := by
    simpa using b.not_isIdentifierPart.1
  refine (b.spells_opening.append_tokenizes hinside hopen).imp fun offset ts => ?_
  rintro ⟨_, _, rfl, ⟨opening, rfl, -, hstart⟩, us, _, rfl, hus, ⟨closing, rfl, htext, hstop⟩⟩
  obtain ⟨inside, hinside⟩ := hus .empty
  refine ⟨⟨opening, inside, closing⟩, ?_, hstart, ?_⟩
  · simp [Group.yield, hinside, Balanced.yield]
  · rw [stop_of_text htext, hstop]
    simp
    omega

theorem IsEnclosed.isEnclosable {b : Bracket} (h : IsEnclosed b x) : IsEnclosable x :=
  h.imp fun _ ts => by
    rintro ⟨g, rfl, -⟩
    exact g.balances

/-- Two enclosable texts with a comma between them. -/
theorem IsEnclosable.comma (h : IsEnclosable x) (h' : IsEnclosable y) :
    IsEnclosable (x ++ ',' :: ' ' :: y) := by
  have hblank : Spells [' '] Silent := spells_blanks (by simp; decide)
  have hsign : Spells [','] (Single .comma [',']) := spells_sign (by decide)
  have hcomma : IsBalanced [',', ' '] :=
    isBalanced_single (hsign.append_silent hblank (parted_of_last (by simp; decide) _)) (by decide)
  exact h.append (hcomma.append_isEnclosable h' (by simp; decide)) (stops_cons (by decide) _)

/-! ## Types -/

/-- A text that is a type in front of anything that stops it, and takes up all of it. -/
def IsExpression (x : List Char) : Prop :=
  Tokenizes x fun offset ts => ∀ before, ∃ after, GoesOn before offset x.length ts after

theorem IsType.isExpression (h : IsType x) : IsExpression x :=
  h.tokenizes

theorem IsExpression.isEnclosable (h : IsExpression x) : IsEnclosable x :=
  h.imp fun _ ts hts => by
    obtain ⟨type, htype⟩ := hts none
    have hyield : type.yield = ts := htype.yield_eq
    exact hyield ▸ type.balances

/-- A group that is no object type is a type. -/
theorem IsEnclosed.isExpression {b : Bracket} (h : IsEnclosed b x) (hb : b ≠ .brace) :
    IsExpression x :=
  h.imp fun offset ts => by
    rintro ⟨g, rfl, hstart, hstop⟩ before
    exact ⟨_, .of_item (i := .group b hb g) before hstart hstop fun t ht => by
      simp [TypeItem.names] at ht⟩

theorem IsExpression.append (h : IsExpression x) (h' : IsExpression y) (hstop : Stops y) :
    IsExpression (x ++ y) :=
  (Tokenizes.append h h' hstop).imp fun offset ts => by
    rintro ⟨us, vs, rfl, hus, hvs⟩ before
    obtain ⟨middle, hmiddle⟩ := hus before
    obtain ⟨after, hafter⟩ := hvs (some middle)
    exact ⟨after, hmiddle.trans hafter (by rw [List.length_append, Nat.add_assoc])⟩

/-- Two types with a blank between them. -/
theorem IsExpression.spaced (h : IsExpression x) (h' : IsExpression y) :
    IsExpression (x ++ ' ' :: y) := by
  have hblank : Spells [' '] Silent := spells_blanks (by simp; decide)
  have hbehind := hblank.append_tokenizes h' (by simp; decide)
  refine (Tokenizes.append h hbehind (stops_cons (by decide) _)).imp fun offset ts => ?_
  rintro ⟨us, _, rfl, hus, _, vs, rfl, rfl, hvs⟩ before
  obtain ⟨middle, hmiddle⟩ := hus before
  obtain ⟨after, hafter⟩ := hvs (some middle)
  exact ⟨after, hmiddle.trans hafter (by simp; omega)⟩

/-- A type with something in brackets behind it. -/
theorem IsExpression.group (h : IsExpression x) (h' : IsEnclosable y) {b : Bracket}
    (hb : b ≠ .brace) : IsExpression (x ++ b.chars.1 :: (y ++ [b.chars.2])) := by
  have hstop : Stops (b.chars.1 :: (y ++ [b.chars.2])) := by
    cases b with
    | brace => contradiction
    | paren | square | angle => exact stops_cons (by decide) _
  exact h.append ((h'.isEnclosed b).isExpression hb) hstop

/-! ## Dictionaries -/

/-- A dictionary of the type `x`. -/
def dictionaryChars (x : List Char) : List Char :=
  ['\x7b', ' '] ++ ("[key: string]".toList ++ ([':', ' '] ++ (x ++ [' ', '\x7d'])))

/-- The key of a dictionary. -/
theorem isGroup_key : IsGroup .square "[key: string]".toList := by
  have hkey : IsIdentifier "key".toList := by decide
  have hstring : IsIdentifier "string".toList := by decide
  exact (hkey.isType.isBalanced.colon hstring.isType.isBalanced).isGroup .square

/-- A sign with a blank behind it. -/
theorem spells_sign_spaced {c : Char} (h : c ∈ ['\x7b', ':', ',']) :
    Spells [c, ' '] (Single (Kind.ofChar c) [c]) := by
  have hblank : Spells [' '] Silent := spells_blanks (by simp; decide)
  have hsigns : ∀ c ∈ ['\x7b', ':', ','], isIdentifierPart c = false ∧
      c ∈ ['\x7b', '\x7d', '(', ')', '[', ']', '<', '>', ':', ';', ',', '?', '|', '&'] := by
    decide
  exact (spells_sign (hsigns c h).2).append_silent hblank
    (parted_of_last (by simpa using (hsigns c h).1) _)

/-- The brace that closes a dictionary. -/
theorem spells_closing_spaced :
    Spells [' ', '\x7d'] fun offset ts => Single .rightBrace ['\x7d'] (offset + 1) ts := by
  have hblank : Spells [' '] Silent := spells_blanks (by simp; decide)
  have hclose : Spells ['\x7d'] (Single .rightBrace ['\x7d']) := spells_sign (by decide)
  exact hblank.silent_append hclose (parted_of_last (by simp; decide) _)

/-- A dictionary of a type is an object type with one member. -/
theorem IsExpression.dictionary (h : IsExpression x) : IsExpression (dictionaryChars x) := by
  have hopen : Spells ['\x7b', ' '] (Single .leftBrace ['\x7b']) := spells_sign_spaced (by decide)
  have hcolon : Spells [':', ' '] (Single .colon [':']) := spells_sign_spaced (by decide)
  have hvalue := Tokenizes.append h spells_closing_spaced.tokenizes (stops_cons (by decide) _)
  have htyped := hcolon.append_tokenizes hvalue (by simp; decide)
  have hmember := Spells.append_tokenizes isGroup_key htyped (by decide)
  refine (hopen.append_tokenizes hmember (by simp; decide)).imp fun offset ts => ?_
  rintro ⟨_, _, rfl, ⟨opening, rfl, -, hstart⟩, _, _, rfl, ⟨key, rfl, -⟩, _, _, rfl,
    ⟨colon, rfl, -⟩, us, _, rfl, hus, ⟨closing, rfl, htext, hstop⟩⟩ before
  -- the one member is an index signature, whose type begins afresh
  obtain ⟨type, htype⟩ := hus none
  let o : ObjectType := .mk opening (.last .empty (.mk (.index key none) colon type)) closing
  have hyield : TypeItem.yield (.object o) = opening.token :: (key.yield ++ colon.token ::
      (us ++ [closing.token])) := by
    have htypeYield : type.yield = us := htype.yield_eq
    simp [o, TypeItem.yield, ObjectType.yield, Members.yield, MemberList.yield, MemberTree.yield,
      MemberHead.yield, htypeYield]
  have hend : TypeItem.stop (.object o) = offset + (dictionaryChars x).length := by
    change closing.token.stop = _
    rw [stop_of_text htext, hstop]
    simp [dictionaryChars]
    omega
  have hnames : ∀ t ∈ TypeItem.names (.object o), t.IsReadable := by
    intro t ht
    have hmem : t ∈ type.names := by
      simpa [o, TypeItem.names, ObjectType.names, Members.names, MemberList.names,
        MemberTree.names, MemberHead.names] using ht
    exact (htype.names t hmem).resolve_left (by simp)
  have hgoes := GoesOn.of_item (i := .object o) before hstart hend hnames
  rw [hyield] at hgoes
  exact ⟨_, hgoes⟩

/-- A dictionary of what may stand in brackets may stand in brackets. -/
theorem IsEnclosable.dictionary (h : IsEnclosable x) : IsEnclosable (dictionaryChars x) := by
  have hcolon : IsBalanced [':', ' '] :=
    isBalanced_single (spells_sign_spaced (by decide)) (by decide)
  have hblank : IsBalanced [' '] :=
    (spells_blanks (by simp; decide)).imp fun _ ts (hts : ts = []) => hts ▸ .nil
  have hvalue := hcolon.append_isEnclosable
    (h.append hblank.isEnclosable (stops_cons (by decide) _)) (by simp; decide)
  have hmember := isGroup_key.isBalanced.append_isEnclosable hvalue (by decide)
  have hinside := hblank.append_isEnclosable hmember (by simp; decide)
  simpa [dictionaryChars, Bracket.chars] using (hinside.isEnclosed .brace).isEnclosable

end SchemaTypings.Declaration
