import SchemaTypings.Proofs.Derivation.Files
import SchemaTypings.Proofs.Derivation.Hole
import SchemaTypings.Proofs.Lexing.Placement

/-!
# Texts that are types

`IsTypeText` says of a text that it is a complete type: as the type of the one property of an
interface it can be read and is the whole type (`ReadsAsType`), and every character in it has a
meaning. `ReadsAsType.exists_tree` gives what replacing a type by such a text needs: its pieces are
the same in front of anything that ends a type, and they are the tokens of a type.
-/

namespace SchemaTypings.Declaration

/-- No character without a meaning is in the text. -/
def NoOther (text : String) : Prop :=
  ∀ t ∈ tokens text, t.kind ≠ .other

/-- The text is a complete type. -/
def IsTypeText (s : String) : Prop :=
  NoOther s ∧ ∃ file p, SourceFile.ofText ("interface X \x7bp: " ++ s ++ "\x7d") = .ok file ∧
    file.statements = [.interface "X" false [p]] ∧ file.typeText p = s

/-- The text can be read as a type and is the whole of it, whatever characters it has. -/
def ReadsAsType (s : String) : Prop :=
  ∃ file p, SourceFile.ofText ("interface X \x7bp: " ++ s ++ "\x7d") = .ok file ∧
    file.statements = [.interface "X" false [p]] ∧ file.typeText p = s

theorem IsTypeText.readsAsType {s : String} (h : IsTypeText s) : ReadsAsType s :=
  h.2

/-! ## Spans of text -/

/-- Beyond the end of the text there is nothing to take. -/
theorem slice_min (cs : List Char) (start stop : Nat) :
    slice cs (min cs.length start) (min cs.length stop) = slice cs start stop := by
  unfold slice
  by_cases h : start ≤ cs.length
  · rw [Nat.min_eq_right h]
    by_cases h' : stop ≤ cs.length
    · rw [Nat.min_eq_right h']
    · rw [Nat.min_eq_left (by omega), List.take_of_length_le (by simp),
        List.take_of_length_le (by simp; omega)]
  · have hstart : min cs.length start = cs.length := Nat.min_eq_left (by omega)
    rw [hstart, List.drop_length, List.drop_of_length_le (by omega)]
    simp

/-- The text of a type in a file without edits. -/
theorem typeText_eq_slice (text : String) (statements : List Statement) (p : Property) :
    SourceFile.typeText ⟨text, [], statements⟩ p =
      String.ofList (slice text.toList p.typeStart p.typeEnd) := by
  have hbound : ∀ length n : Nat, boundOffset length (n : Int) = min length n := by
    intro length n
    have h : ¬((n : Int) < 0) := by omega
    simp [boundOffset, h]
  simp only [SourceFile.typeText, SourceFile.spanText, List.find?_nil, hbound, slice_min]

/-- The length of what is between two offsets. -/
theorem length_slice (cs : List Char) (start stop : Nat) :
    (slice cs start stop).length = min (stop - start) (cs.length - start) := by
  simp [slice]

/-! ## The pieces around a type -/

/-- The pieces in front of the type of a property, those of the type, and those behind it. -/
theorem Hole.exists_pieces {d : Statements} {p : Property} (hole : Hole Reading.statements d p)
    {ps : List Piece} (h : d.yield = place 0 1 ps) :
    ∃ before inside after, ps = before ++ inside ++ after ∧
      place 0 1 before = hole.before ∧
      placeBehind before inside = hole.type.yield ∧
      placeBehind (before ++ inside) after = hole.after ∧
      p.typeStart = (textOf before).length ∧ p.typeEnd = (textOf (before ++ inside)).length ∧
      (∃ q rest, inside = q :: rest ∧ q.kind ≠ none) ∧
      ∃ rest r, inside = rest ++ [r] ∧ r.kind ≠ none := by
  obtain ⟨t, ts, hfirst, hstart⟩ := hole.type.yield_eq_cons
  obtain ⟨us, u, hlast, hstop⟩ := hole.type.yield_eq_append
  have hyield : place 0 1 ps = hole.before ++ hole.type.yield ++ hole.after :=
    h.symm.trans hole.yield_eq
  have hspan := hole.retype_eq
  -- first in front of the first token of the type, then behind its last one
  have hsplit : place 0 1 ps = hole.before ++ t :: (ts ++ hole.after) := by
    rw [hyield, hfirst]
    simp
  obtain ⟨before, q, rest, rfl, hbefore, -, hq, hoffset, -⟩ := exists_split hsplit
  rw [place_eq_append, hbefore, List.append_assoc, List.append_cancel_left_eq, hlast,
    List.append_assoc, List.singleton_append] at hyield
  obtain ⟨inside, r, after, hinside, -, hplace, hr, hend, hafter⟩ := exists_split hyield
  rw [Nat.zero_add] at hoffset
  refine ⟨before, inside ++ [r], after, by simp [hinside], hbefore, hplace.trans hlast.symm, ?_, ?_,
    ?_, ?_, inside, r, rfl, by simp [hr.1]⟩
  · rw [placeBehind, textOf_append, List.length_append, List.count_append, ← Nat.add_assoc]
    exact hafter
  · rw [← hspan]
    exact hstart.trans hoffset
  · rw [← hspan, ← List.append_assoc, textOf_append, List.length_append, textOf_append,
      List.length_append]
    have hlength := hr.stop_eq
    simp only [Property.retype, hstop, hlength, hend, textOf_cons, textOf_nil, List.append_nil]
  · have hkind : q.kind ≠ none := by simp [hq.1]
    cases inside with
    | nil =>
      obtain ⟨rfl, -⟩ := List.cons.inj hinside
      exact ⟨q, [], rfl, hkind⟩
    | cons q' inside =>
      obtain ⟨rfl, -⟩ := List.cons.inj hinside
      exact ⟨q, inside ++ [r], rfl, hkind⟩

/-! ## The tokens of a type text -/

/-- A text has no character without a meaning when none of its pieces is one. -/
theorem noOther_iff (text : String) :
    NoOther text ↔ ∀ p ∈ pieces text.toList, p.kind ≠ some .other := by
  have hkinds : (tokens text).map Token.kind = (pieces text.toList).filterMap Piece.kind := by
    rw [tokens_eq_place, map_kind_place]
  constructor
  · intro h p hp hkind
    have hmem : Kind.other ∈ (tokens text).map Token.kind := by
      rw [hkinds]
      exact List.mem_filterMap.mpr ⟨p, hp, hkind⟩
    obtain ⟨t, ht, hother⟩ := List.mem_map.mp hmem
    exact h t ht hother
  · intro h t ht hkind
    have hmem : Kind.other ∈ (pieces text.toList).filterMap Piece.kind := by
      rw [← hkinds, ← hkind]
      exact List.mem_map_of_mem ht
    obtain ⟨p, hp, hother⟩ := List.mem_filterMap.mp hmem
    exact h p hp hother

/-- What stands in front of the type in the interface of a type text. -/
def typeFrame : List Piece :=
  [⟨some .interfaceWord, "interface".toList⟩, ⟨none, [' ']⟩, ⟨some .identifier, ['X']⟩,
    ⟨none, [' ']⟩, ⟨some .leftBrace, ['\x7b']⟩, ⟨some .identifier, ['p']⟩, ⟨some .colon, [':']⟩,
    ⟨none, [' ']⟩]

/-- The frame of a type text is read the same whatever stands in it. -/
theorem cut_typeFrame (rest : List Char) : Cut typeFrame rest := by
  have hblank : ∀ rest, Lexes [' '] none rest := fun _ => .blank (by decide)
  refine ⟨?_, hblank _, ?_, hblank _, lexes_sign (by decide) _, ?_, lexes_sign (by decide) _,
    hblank _, trivial⟩
  · exact .word (c := 'i') (by decide) (List.all_eq_true.mp (by decide))
      (by simp [textOf]; decide)
  · exact .word (c := 'X') (by decide) (by simp) (by simp [textOf]; decide)
  · exact .word (c := 'p') (by decide) (by simp) (by simp [textOf]; decide)

/-- What comes behind a colon comes behind the frame. -/
theorem exists_of_colon {before rest more : List Piece}
    (hcolon : (before.filterMap Piece.kind).getLast? = some .colon)
    (hrest : ∃ q after, rest = q :: after ∧ q.kind ≠ none)
    (h : before ++ rest = typeFrame ++ more) : ∃ between, before = typeFrame ++ between := by
  obtain ⟨after, hframe, hafter⟩ | ⟨between, hbefore, -⟩ := List.append_eq_append_iff.mp h
  · obtain ⟨q, tail, rfl, hq⟩ := hrest
    have hblank : after = [⟨none, [' ']⟩] ∨ after = [] := by
      have hprefix : before ++ after = typeFrame := hframe.symm
      unfold typeFrame at hprefix
      obtain _ | ⟨_, _ | ⟨_, _ | ⟨_, _ | ⟨_, _ | ⟨_, _ | ⟨_, _ | ⟨_, _ | ⟨_, before⟩⟩⟩⟩⟩⟩⟩⟩ := before
      all_goals simp_all
    obtain rfl | rfl := hblank
    · obtain ⟨rfl, -⟩ := List.cons.inj hafter
      exact absurd rfl hq
    · exact ⟨[], by simp [hframe]⟩
  · exact ⟨between, hbefore⟩

/-- Pieces as long as a text with one more character behind it leave room for that character only:
nothing stands in front of them, and they make up the text. -/
theorem textOf_of_pieces_concat {cs : List Char} {c : Char} {before inside after : List Piece}
    (h : pieces (cs ++ [c]) = before ++ inside ++ after) (hafter : after ≠ [])
    (hinside : cs.length ≤ (textOf inside).length) :
    before = [] ∧ textOf inside = cs ∧ textOf after = [c] := by
  have hpositive : ∀ ps : List Piece, ps ≠ [] → (∀ p ∈ ps, p ∈ pieces (cs ++ [c])) →
      1 ≤ (textOf ps).length := by
    intro ps hps hmem
    obtain ⟨p, ps, rfl⟩ := List.exists_cons_of_ne_nil hps
    have := List.length_pos_iff.mpr (chars_ne_nil (hmem p List.mem_cons_self))
    rw [textOf_cons, List.length_append]
    omega
  have htext : cs ++ [c] = textOf before ++ textOf inside ++ textOf after := by
    rw [← textOf_pieces (cs ++ [c]), h, textOf_append, textOf_append]
  have hlength := congrArg List.length htext
  simp only [List.length_append, List.length_singleton] at hlength
  have hlast := hpositive after hafter (by simp +contextual [h])
  have hfirst : before = [] := by
    by_contra hne
    have := hpositive before hne (by simp +contextual [h])
    omega
  subst hfirst
  have htexts : cs = textOf inside ∧ [c] = textOf after :=
    List.append_inj htext (by simp only [textOf_nil, List.length_nil] at hlength; omega)
  exact ⟨rfl, htexts.1.symm, htexts.2.symm⟩

/-- In the interface of a type text the pieces behind the frame are those of the type and of what
closes the interface. -/
theorem ReadsAsType.exists_pieces {s : String} (h : ReadsAsType s) :
    ∃ (d : Statements) (p : Property) (hole : Hole Reading.statements d p) (inside : List Piece),
      (∀ t ∈ d.names, t.IsReadable) ∧ placeBehind typeFrame inside = hole.type.yield ∧
      p.typeStart = (textOf typeFrame).length ∧
      p.typeEnd = (textOf (typeFrame ++ inside)).length ∧ textOf inside = s.toList ∧
      Cut inside ['\x7d'] ∧ ∃ init r, inside = init ++ [r] ∧ r.kind ≠ none := by
  obtain ⟨file, p, hfile, hstatements, htype⟩ := h
  obtain ⟨d, hd, rfl⟩ := (ofText_eq_ok_iff _ _).mp hfile
  obtain ⟨hyield, hnames⟩ := (derive_eq_ok_iff _ d).mp hd
  have hmem : p ∈ allProperties d.statements := by
    simp [show d.statements = _ from hstatements, allProperties, Statement.properties]
  obtain ⟨hole⟩ := Statements.exists_hole hmem
  have htext : ("interface X \x7bp: " ++ s ++ "\x7d").toList =
      textOf typeFrame ++ (s.toList ++ ['\x7d']) := by
    simp [typeFrame, textOf]
  rw [tokens_eq_place, htext, (cut_typeFrame (s.toList ++ ['\x7d'])).pieces_eq] at hyield
  obtain ⟨before, inside, after, hsplit, hbefore, hinside, hafter, hstart, hstop,
    ⟨q, rest, hq, hqkind⟩, hlast⟩ := hole.exists_pieces hyield
  -- the type stands behind the colon of the frame, so that the frame is read in front of it
  obtain ⟨between, rfl⟩ : ∃ between, before = typeFrame ++ between := by
    obtain ⟨ts, c, hts, hc⟩ := hole.colon
    have hrest : ∃ q tail, inside ++ after = q :: tail ∧ q.kind ≠ none :=
      ⟨q, rest ++ after, by simp [hq], hqkind⟩
    refine exists_of_colon ?_ hrest (by simpa using hsplit.symm)
    rw [← map_kind_place 0 1, hbefore, hts]
    simp [hc]
  have hpieces : pieces (s.toList ++ ['\x7d']) = between ++ inside ++ after := by
    simpa using hsplit
  have hclosing : after ≠ [] := by
    rintro rfl
    obtain ⟨c, ts, hts, -⟩ := hole.closing
    simp [placeBehind, place, hts] at hafter
  -- and it is as long as the text, so that nothing but the last brace is left for the rest
  have hlong : s.toList.length ≤ (textOf inside).length := by
    have hlength := congrArg String.length htype
    rw [typeText_eq_slice, hstart, hstop, String.length_ofList, length_slice, textOf_append,
      List.length_append] at hlength
    rw [String.length_toList]
    omega
  obtain ⟨rfl, hinsideText, hafterText⟩ := textOf_of_pieces_concat hpieces hclosing hlong
  rw [List.append_nil] at hinside hstart hstop
  refine ⟨d, p, hole, inside, hnames, hinside, hstart, hstop, hinsideText, ?_, hlast⟩
  rw [← hafterText]
  exact cut_of_pieces hpieces

/-- What a type text is made of. -/
theorem ReadsAsType.exists_tree {s : String} (h : ReadsAsType s) :
    ∃ x : TypeTree, x.yield = placeBehind typeFrame (pieces s.toList) ∧
      (∀ t ∈ x.names, t.IsReadable) ∧ x.start = (textOf typeFrame).length ∧
      x.stop = (textOf typeFrame).length + s.length ∧ Cut (pieces s.toList) ['\x7d'] ∧
      ∀ p ∈ (pieces s.toList).getLast?, p.kind ≠ none := by
  obtain ⟨d, p, hole, inside, hnames, hinside, hstart, hstop, htext, hcut, init, r, hr, hrkind⟩ :=
    h.exists_pieces
  -- what is cut in front of the brace is cut by itself
  have hsame : pieces s.toList = inside := by
    have := (Cut.of_append (z := []) hcut).pieces_eq
    simpa [htext] using this
  rw [hsame]
  refine ⟨hole.type, hinside.symm, fun t ht => hnames t ?_, ?_, ?_, hcut, ?_⟩
  · change t ∈ Reading.statements.names d
    rw [hole.names_eq]
    simp [ht]
  · exact (congrArg Property.typeStart hole.retype_eq).trans hstart
  · rw [textOf_append, List.length_append, htext, String.length_toList] at hstop
    exact (congrArg Property.typeEnd hole.retype_eq).trans hstop
  · intro a ha
    rw [hr, List.getLast?_append] at ha
    obtain rfl : r = a := by simpa using ha
    exact hrkind

end SchemaTypings.Declaration
