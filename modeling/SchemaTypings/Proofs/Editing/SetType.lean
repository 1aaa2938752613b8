import SchemaTypings.Proofs.Editing.TypeText

/-!
# Replacing types

A file stays a file when the types of some of its properties are replaced by other types: it says
the same as before with the new types in the place of the old ones. `IsFile.exists_replacement`
shows this for one property; the pieces in front of the type and behind it stay the same, and the
derivation of the new text is the old one with another type in the hole of the property. The edits
of a file are then made one after the other, the last one first, so that those that are left keep
their places.
-/

namespace SchemaTypings.Declaration

/-- The pieces in front of a type and behind it do not change with the type. -/
theorem pieces_replaced {cs : List Char} {before inside after ps : List Piece}
    (h : pieces cs = before ++ inside ++ after) (hother : ∀ p ∈ before, p.kind ≠ some .other)
    (hcolon : ∀ p ∈ before.getLast?, p.kind = none ∨ p.kind = some .colon)
    (hinside : ∃ q rest, inside = q :: rest ∧ q.kind ≠ none)
    (hafter : ∀ k ∈ (after.filterMap Piece.kind).head?, k ∈ [.semicolon, .comma, .rightBrace])
    (hps : ∀ rest, Quiet rest → Cut ps rest) :
    pieces (textOf before ++ textOf ps ++ textOf after) = before ++ ps ++ after := by
  have hpiecesAfter : pieces (textOf after) = after := pieces_textOf_of_pieces h
  have hhead : ∃ c ∈ (textOf (inside ++ after)).head?, c ≠ '\n' := by
    obtain ⟨q, rest, rfl, hkind⟩ := hinside
    obtain ⟨k, hk⟩ := Option.ne_none_iff_exists'.mp hkind
    have hmem : q ∈ pieces cs := by simp [h]
    obtain ⟨_, hlex⟩ := exists_lexes_of_mem_pieces hmem
    rw [hk] at hlex
    exact hlex.head_ne _
  have hcutBefore : Cut before (textOf ps ++ textOf after) :=
    (cut_of_pieces (by rw [h, List.append_assoc])).of_colon hother hcolon hhead
  have hcutType : Cut ps (textOf after) :=
    hps _ (quiet_of_pieces hpiecesAfter hafter)
  rw [List.append_assoc, hcutBefore.pieces_eq, hcutType.pieces_eq, hpiecesAfter, List.append_assoc]

/-- The derivation of a text in which every character has a meaning. -/
structure IsFile (cs : List Char) (d : Statements) : Prop where
  yield_eq : d.yield = place 0 1 (pieces cs)
  names : NamesReadable d
  noOther : ∀ p ∈ pieces cs, p.kind ≠ some .other

/-- The text with the span of a type replaced. -/
def replaced (cs : List Char) (p : Property) (s : String) : List Char :=
  cs.take p.typeStart ++ s.toList ++ cs.drop p.typeEnd

/-- The type of a property is not empty and within the text, and those of the properties in front of
it and behind it are outside it. -/
structure Around (cs : List Char) (p : Property) (left right : List Property) : Prop where
  span_lt : p.typeStart < p.typeEnd
  end_le : p.typeEnd ≤ cs.length
  left_lt : ∀ q ∈ left, q.typeStart < p.typeStart ∧ q.typeEnd ≤ p.typeStart
  right_ge : ∀ q ∈ right, p.typeEnd ≤ q.typeStart ∧ p.typeEnd ≤ q.typeEnd

/-- What replacing the type of a property changes: the properties in front of it stay as they are,
those behind it are moved, and nothing else that the statements say depends on it. -/
structure Replacement (cs : List Char) (d d' : Statements) (p : Property) (s : String) where
  left : List Property
  right : List Property
  move : Move
  from_eq : move.fromOffset = p.typeEnd
  to_eq : move.toOffset = p.typeStart + s.length
  properties_eq : allProperties d.statements = left ++ p :: right
  properties_eq' : allProperties d'.statements =
    left ++ { p with typeEnd := p.typeStart + s.length } :: right.map move.property
  outlines_eq : ∀ f g, (∀ q ∈ left, f q = g q) →
    f p = g { p with typeEnd := p.typeStart + s.length } →
    (∀ q ∈ right, f q = g (move.property q)) →
    outlines f d.statements = outlines g d'.statements
  around : Around cs p left right

/-- Every type is apart from the types of the other properties. -/
theorem Hole.around {cs : List Char} {d : Statements} {p : Property}
    (hole : Hole Reading.statements d p) (h : d.yield = place 0 1 (pieces cs)) :
    Around cs p hole.left hole.right := by
  obtain ⟨before, inside, after, hsplit, hbefore, -, hafter, hstart, hstop, ⟨q, rest, rfl, -⟩, -⟩ :=
    hole.exists_pieces h
  have hnonempty : ∀ r ∈ before ++ q :: rest ++ after, r.chars ≠ [] := fun r hr =>
    chars_ne_nil (hsplit ▸ hr)
  refine ⟨?_, ?_, fun r hr => ?_, fun r hr => ?_⟩
  · have hlength := List.length_pos_iff.mpr (hnonempty q (by simp))
    rw [hstart, hstop, textOf_append, textOf_cons, List.length_append, List.length_append]
    omega
  · have htext := congrArg (fun ps => (textOf ps).length) hsplit
    rw [hstop, ← textOf_pieces cs]
    simp only [textOf_append, List.length_append] at htext ⊢
    omega
  · obtain ⟨t, ht, u, hu, hrstart, hrstop⟩ := hole.left_span r hr
    rw [← hbefore] at ht hu
    have hbounds := bounds_of_mem_place ht fun r hr => hnonempty r (by simp [hr])
    have hbounds' := bounds_of_mem_place hu fun r hr => hnonempty r (by simp [hr])
    omega
  · obtain ⟨t, ht, u, hu, hrstart, hrstop⟩ := hole.right_span r hr
    rw [← hafter] at ht hu
    have hbounds := bounds_of_mem_place ht fun r hr => hnonempty r (by simp [hr])
    have hbounds' := bounds_of_mem_place hu fun r hr => hnonempty r (by simp [hr])
    omega

/-- The properties of a text stand around each of them. -/
theorem Statements.exists_around {cs : List Char} {d : Statements}
    (h : d.yield = place 0 1 (pieces cs)) {p : Property} (hp : p ∈ allProperties d.statements) :
    ∃ left right, allProperties d.statements = left ++ p :: right ∧ Around cs p left right := by
  obtain ⟨hole⟩ := Statements.exists_hole hp
  exact ⟨hole.left, hole.right, hole.properties_eq, hole.around h⟩

/-- The type of a property is in front of another one, the same, or behind it. -/
theorem Around.cases {cs : List Char} {p q : Property} {left right : List Property}
    (h : Around cs p left right) (hq : q ∈ left ++ p :: right) :
    q.typeStart < p.typeStart ∧ q.typeEnd ≤ p.typeStart ∨ q = p ∨ p.typeEnd ≤ q.typeStart := by
  rw [List.mem_append, List.mem_cons] at hq
  obtain hq | rfl | hq := hq
  · exact .inl (h.left_lt q hq)
  · exact .inr (.inl rfl)
  · exact .inr (.inr (h.right_ge q hq).1)

/-- The properties of a text come in the order of their types. -/
theorem Statements.sorted_allProperties {cs : List Char} {d : Statements}
    (h : d.yield = place 0 1 (pieces cs)) :
    (allProperties d.statements).Pairwise fun p q => p.typeStart < q.typeStart := by
  rw [List.pairwise_iff_forall_sublist]
  intro p q hpq
  obtain ⟨left, right, hproperties, haround⟩ := exists_around h (hpq.subset List.mem_cons_self)
  have hspan := haround.span_lt
  rw [hproperties, List.sublist_append_iff] at hpq
  obtain ⟨front, back, hsplit, hfront, hback⟩ := hpq
  cases front with
  | nil =>
    rw [List.nil_append] at hsplit
    rw [← hsplit, List.cons_sublist_cons, List.singleton_sublist] at hback
    have hge := (haround.right_ge q hback).1
    omega
  | cons r front =>
    -- the property does not stand in front of itself
    obtain rfl := (List.cons.inj hsplit).1
    have hlt := (haround.left_lt p (hfront.subset List.mem_cons_self)).1
    omega

/-- The text is a type in front of anything that goes on no token: `x`, behind the frame of type
texts. -/
structure IsTextOf (x : TypeTree) (s : String) : Prop where
  yield_eq : x.yield = placeBehind typeFrame (pieces s.toList)
  names : ∀ t ∈ x.names, t.IsReadable
  start_eq : x.start = (textOf typeFrame).length
  stop_eq : x.stop = (textOf typeFrame).length + s.length
  cut : ∀ rest, Quiet rest → Cut (pieces s.toList) rest

/-- A type text is a type wherever it stands. -/
theorem IsTypeText.exists_isTextOf {s : String} (h : IsTypeText s) : ∃ x, IsTextOf x s := by
  obtain ⟨x, hyield, hnames, hstart, hstop, hcut, hlast⟩ := h.readsAsType.exists_tree
  have hother := (noOther_iff s).mp h.1
  exact ⟨x, hyield, hnames, hstart, hstop, fun _ hquiet => hcut.of_quiet hother hlast hquiet⟩

/-- The span of a property whose type is a text, moved to where the type began. -/
theorem retype_move {s : String} {x : TypeTree} (h : IsTextOf x s) {p : Property}
    {before : List Piece} (hstart : p.typeStart = (textOf before).length) :
    p.retype (x.move (Move.between typeFrame before)) =
      { p with typeEnd := p.typeStart + s.length } := by
  have hfits : (Move.between typeFrame before).Fits x.yield := fun t ht =>
    (bounds_of_mem_place (h.yield_eq ▸ ht) fun q => chars_ne_nil).1
  have hxstart : (x.move (Move.between typeFrame before)).start = p.typeStart := by
    rw [TypeTree.start_move, h.start_eq, hstart]
    simp [Move.offset, Move.between]
  have hxstop : (x.move (Move.between typeFrame before)).stop = p.typeStart + s.length := by
    rw [TypeTree.stop_move hfits, h.stop_eq, hstart]
    simp only [Move.offset, Move.between]
    omega
  simp [Property.retype, hxstart, hxstop]

/-- The text in which a type is replaced, cut where the pieces of the type stood. -/
theorem replaced_eq {cs : List Char} {p : Property} {before inside after : List Piece}
    (hsplit : pieces cs = before ++ inside ++ after) (hstart : p.typeStart = (textOf before).length)
    (hstop : p.typeEnd = (textOf (before ++ inside)).length) (s : String) :
    replaced cs p s = textOf before ++ textOf (pieces s.toList) ++ textOf after := by
  have htext : cs = textOf before ++ textOf inside ++ textOf after := by
    rw [← textOf_append, ← textOf_append, ← hsplit, textOf_pieces]
  unfold replaced
  rw [hstart, hstop, textOf_append, htext, List.append_assoc (textOf before), List.take_left,
    ← List.append_assoc, List.drop_left' (by simp), textOf_pieces]

/-- The pieces of a text in which the type of a property is replaced by another type. -/
theorem Hole.pieces_around {cs : List Char} {d : Statements} {p : Property}
    (hole : Hole Reading.statements d p) (h : IsFile cs d) {before inside after : List Piece}
    (hsplit : pieces cs = before ++ inside ++ after) (hbefore : place 0 1 before = hole.before)
    (hinside : ∃ q rest, inside = q :: rest ∧ q.kind ≠ none)
    (hafter : placeBehind (before ++ inside) after = hole.after) {s : String}
    (hs : ∀ rest, Quiet rest → Cut (pieces s.toList) rest) :
    pieces (textOf before ++ textOf (pieces s.toList) ++ textOf after) =
      before ++ pieces s.toList ++ after := by
  -- the type stands between a colon and what ends a member
  refine pieces_replaced hsplit (fun q hq => h.noOther q (by simp [hsplit, hq])) ?_
    hinside ?_ hs
  · obtain ⟨ts, c, hts, hc⟩ := hole.colon
    rw [← hc]
    exact fun q => kind_of_getLast? (hbefore.trans hts)
  · obtain ⟨c, ts, hts, hc⟩ := hole.closing
    rw [← map_kind_place (textOf (before ++ inside)).length, ← placeBehind, hafter, hts]
    simpa using hc

/-- With a type whose names can be read in the hole of a property, all names can be read again. -/
theorem Hole.namesReadable_fill {d : Statements} {p : Property}
    (hole : Hole Reading.statements d p) (h : NamesReadable d) (m n : Move) {x : TypeTree}
    (hx : ∀ t ∈ x.names, t.IsReadable) : NamesReadable (hole.fill m (x.move n)) := by
  intro t ht
  have hnames : t ∈ Reading.statements.names (hole.fill m (x.move n)) := ht
  have hold : ∀ u ∈ Reading.statements.names d, u.IsReadable := h
  rw [hole.names_eq] at hold
  rw [hole.names_fill, TypeTree.names_move, List.mem_append, List.mem_append] at hnames
  obtain (hmem | hmem) | hmem := hnames
  · exact hold t (by simp [hmem])
  · obtain ⟨u, hu, rfl⟩ := List.mem_map.mp hmem
    exact n.relocation.isReadable (hx u hu)
  · obtain ⟨u, hu, rfl⟩ := List.mem_map.mp hmem
    exact m.relocation.isReadable (hold u (by simp [hu]))

/-- When the type of a property is replaced, the pieces around it stay, and the type of the text
takes its place in the derivation. -/
theorem IsFile.exists_replacement {cs : List Char} {d : Statements} (h : IsFile cs d) {p : Property}
    (hp : p ∈ allProperties d.statements) {s : String} {x : TypeTree} (hs : IsTextOf x s) :
    ∃ d', d'.yield = place 0 1 (pieces (replaced cs p s)) ∧ NamesReadable d' ∧
      (∀ q ∈ pieces (replaced cs p s), q ∈ pieces cs ∨ q ∈ pieces s.toList) ∧
      Nonempty (Replacement cs d d' p s) := by
  obtain ⟨hole⟩ := Statements.exists_hole hp
  obtain ⟨before, inside, after, hsplit, hbefore, hinside, hafter, hstart, hstop, hfirst, -⟩ :=
    hole.exists_pieces h.yield_eq
  have hpieces : pieces (replaced cs p s) = before ++ pieces s.toList ++ after := by
    rw [replaced_eq hsplit hstart hstop]
    exact hole.pieces_around h hsplit hbefore hfirst hafter hs.cut
  -- the type comes to stand behind the colon, and what follows it behind the type
  let toType := Move.between typeFrame before
  let toEnd := Move.between (before ++ inside) (before ++ pieces s.toList)
  have htypeYield : (x.move toType).yield = placeBehind before (pieces s.toList) := by
    rw [TypeTree.yield_move, hs.yield_eq, Move.relocation_token, ← Move.placeBehind_eq]
  have hafterYield : hole.after.map toEnd.token =
      placeBehind (before ++ pieces s.toList) after := by
    rw [← hafter, ← Move.placeBehind_eq]
  have hfits : toEnd.Fits hole.after := fun t ht => by
    rw [← hafter] at ht
    refine (bounds_of_mem_place ht fun q hq => ?_).1
    have hmem : q ∈ pieces cs := by simp [hsplit, hq]
    exact chars_ne_nil hmem
  have hretype : p.retype (x.move toType) = { p with typeEnd := p.typeStart + s.length } :=
    retype_move hs hstart
  refine ⟨hole.fill toEnd (x.move toType), ?_,
    hole.namesReadable_fill h.names toEnd toType hs.names, fun q hq => ?_, ⟨{
    left := hole.left
    right := hole.right
    move := toEnd
    from_eq := hstop.symm
    to_eq := by simp [toEnd, Move.between, hstart, String.length_toList]
    properties_eq := hole.properties_eq
    properties_eq' := hretype ▸ hole.properties_fill toEnd (x.move toType) hfits
    outlines_eq := fun f g hleft hp hright =>
      hole.view_fill toEnd (x.move toType) f g hfits hleft (hretype ▸ hp) hright
    around := hole.around h.yield_eq }⟩⟩
  · have hyield := hole.yield_fill toEnd (x.move toType)
    rw [htypeYield, hafterYield, ← hbefore, ← place_eq_append, ← place_eq_append] at hyield
    rw [hpieces]
    exact hyield
  · rw [hpieces, List.mem_append, List.mem_append] at hq
    obtain (hq | hq) | hq := hq
    · exact .inl (by simp [hsplit, hq])
    · exact .inr hq
    · exact .inl (by simp [hsplit, hq])

/-- A file with the type of a property replaced is a file. -/
theorem IsFile.replace {cs : List Char} {d : Statements} (h : IsFile cs d) {p : Property}
    (hp : p ∈ allProperties d.statements) {s : String} (hs : IsTypeText s) :
    ∃ d', IsFile (replaced cs p s) d' ∧ Nonempty (Replacement cs d d' p s) := by
  obtain ⟨x, hx⟩ := hs.exists_isTextOf
  obtain ⟨d', hyield, hnames, hmem, hreplacement⟩ := h.exists_replacement hp hx
  refine ⟨d', ⟨hyield, hnames, fun q hq => ?_⟩, hreplacement⟩
  exact (hmem q hq).elim (h.noOther q) ((noOther_iff s).mp hs.1 q)

end SchemaTypings.Declaration
