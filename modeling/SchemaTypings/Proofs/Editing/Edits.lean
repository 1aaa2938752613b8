import Mathlib.Data.List.Induction
import Mathlib.Data.List.Nodup
import SchemaTypings.Proofs.Editing.SetType

/-!
# Editing files

The edits of a file are made all at once. `applyEdits_concat` makes the last one first, so that
`IsFile.applyEdits` follows from the replacement of one type by induction on the edits. It remains
to see that setting the types of some properties, in whatever order, collects exactly these edits.
-/

namespace SchemaTypings.Declaration

/-! ## Spans of an edited text -/

theorem slice_eq_drop_take (cs : List Char) (start stop : Nat) :
    slice cs start stop = (cs.take stop).drop start := by
  rw [slice, List.drop_take]

section Replaced

variable {cs : List Char} {p : Property} {left right : List Property}
  (h : Around cs p left right) (s : String)

include h

/-- What stands in front of the type is unchanged. -/
theorem slice_replaced_before {start stop : Nat} (hstop : stop ≤ p.typeStart) :
    slice (replaced cs p s) start stop = slice cs start stop := by
  have hlt := h.span_lt
  have hle := h.end_le
  rw [slice_eq_drop_take, slice_eq_drop_take, replaced, List.append_assoc,
    List.take_append_of_le_length (by simp; omega), List.take_take, Nat.min_eq_left hstop]

/-- The text stands in the place of the type. -/
theorem slice_replaced_at :
    slice (replaced cs p s) p.typeStart (p.typeStart + s.length) = s.toList := by
  have hlt := h.span_lt
  have hle := h.end_le
  rw [slice, replaced, List.append_assoc, List.drop_left' (by simp; omega),
    List.take_left' (by simp [String.length_toList])]

/-- What stands behind the type is moved. -/
theorem slice_replaced_behind {m : Move} (hfrom : m.fromOffset = p.typeEnd)
    (hto : m.toOffset = p.typeStart + s.length) {start stop : Nat} (hstart : p.typeEnd ≤ start)
    (hstop : p.typeEnd ≤ stop) :
    slice (replaced cs p s) (m.offset start) (m.offset stop) = slice cs start stop := by
  have hlt := h.span_lt
  have hle := h.end_le
  have hdrop : (replaced cs p s).drop (m.offset start) = cs.drop start := by
    have hoffset : m.offset start =
        (cs.take p.typeStart ++ s.toList).length + (start - p.typeEnd) := by
      simp only [Move.offset, hfrom, hto, List.length_append, List.length_take,
        String.length_toList]
      omega
    rw [hoffset, ← List.drop_drop, replaced, List.drop_left, List.drop_drop,
      Nat.add_sub_cancel' hstart]
  rw [slice, hdrop, slice, Move.offset, Move.offset, hfrom, hto]
  congr 1
  omega

end Replaced

/-! ## Making edits -/

/-- The last edit may be made first. -/
theorem applyEdits_concat {cs : List Char} {p : Property} {left right : List Property}
    (h : Around cs p left right) (s : String) {es : List Edit} (pos : Nat)
    (hpos : pos ≤ p.typeStart) (hes : ∀ e ∈ es, e.start ≤ p.typeStart ∧ e.stop ≤ p.typeStart) :
    applyEdits cs pos (es ++ [⟨p.typeStart, p.typeEnd, s⟩]) =
      applyEdits (replaced cs p s) pos es := by
  have hlt := h.span_lt
  have hle := h.end_le
  induction es generalizing pos with
  | nil =>
    rw [List.nil_append, applyEdits, applyEdits, applyEdits, replaced,
      List.append_assoc (cs.take p.typeStart), List.drop_append_of_le_length (by simp; omega),
      slice_eq_drop_take, List.append_assoc]
  | cons e es ih =>
    obtain ⟨hstart, hstop⟩ := hes e (by simp)
    rw [List.cons_append, applyEdits, applyEdits, slice_replaced_before h s hstart,
      ih _ hstop fun e he => hes e (by simp [he])]

/-- The type of a property under some edits. -/
def editedType (cs : List Char) (es : List Edit) (p : Property) : String :=
  match es.find? fun e => e.start = p.typeStart with
  | some e => e.text
  | none => String.ofList (slice cs p.typeStart p.typeEnd)

/-- The edits replace types of a derivation, in order. -/
def AreEdits (d : Statements) (es : List Edit) : Prop :=
  es.Pairwise (fun e f => e.start < f.start) ∧ ∀ e ∈ es, ∃ p ∈ allProperties d.statements,
    e.start = p.typeStart ∧ e.stop = p.typeEnd ∧ IsTypeText e.text

/-- The type of a property that no edit replaces. -/
theorem editedType_of_ne {cs : List Char} {es : List Edit} {p : Property}
    (h : ∀ e ∈ es, e.start ≠ p.typeStart) :
    editedType cs es p = String.ofList (slice cs p.typeStart p.typeEnd) := by
  have hnone : es.find? (fun e => e.start = p.typeStart) = none := by simpa using h
  rw [editedType, hnone]

/-- An edit of another property is none of this one. -/
theorem editedType_concat_of_ne {cs cs' : List Char} {es : List Edit} {e : Edit} {p : Property}
    (hne : e.start ≠ p.typeStart)
    (hslice : slice cs p.typeStart p.typeEnd = slice cs' p.typeStart p.typeEnd) :
    editedType cs (es ++ [e]) p = editedType cs' es p := by
  have hlast : [e].find? (fun e => e.start = p.typeStart) = none := by simpa using hne
  rw [editedType, editedType, List.find?_append, hlast, Option.or_none, hslice]

/-- The last edit is the one of the property that it names. -/
theorem editedType_concat_self {cs : List Char} {es : List Edit} {e : Edit} {p : Property}
    (hne : ∀ e ∈ es, e.start ≠ p.typeStart) (he : e.start = p.typeStart) :
    editedType cs (es ++ [e]) p = e.text := by
  have hnone : es.find? (fun e => e.start = p.typeStart) = none := by simpa using hne
  rw [editedType, List.find?_append, hnone]
  simp [he]

section Replacement

variable {cs : List Char} {d d' : Statements} {p : Property} {s : String}
  (r : Replacement cs d d' p s)

include r

/-- A property whose type starts earlier than the replaced one is in front of it. -/
theorem Replacement.mem_left {q : Property} (hq : q ∈ allProperties d.statements)
    (hlt : q.typeStart < p.typeStart) : q ∈ r.left := by
  have hspan := r.around.span_lt
  rw [r.properties_eq, List.mem_append, List.mem_cons] at hq
  obtain hq | rfl | hq := hq
  · exact hq
  · omega
  · have := (r.around.right_ge q hq).1
    omega

/-- With one type replaced, edits in front of it say what they say with its edit behind them. -/
theorem Replacement.outlines_concat {es : List Edit} (hes : ∀ e ∈ es, e.start < p.typeStart) :
    outlines (editedType (replaced cs p s) es) d'.statements =
      outlines (editedType cs (es ++ [⟨p.typeStart, p.typeEnd, s⟩])) d.statements := by
  have hspan := r.around.span_lt
  refine (r.outlines_eq _ _ (fun q hq => ?_) ?_ fun q hq => ?_).symm
  · -- in front nothing has moved, and the last edit is another's
    have hlt := r.around.left_lt q hq
    refine editedType_concat_of_ne (by simp only; omega) ?_
    rw [slice_replaced_before r.around s hlt.2]
  · have hne : ∀ e ∈ es, e.start ≠ p.typeStart := fun e he => (hes e he).ne
    rw [editedType_concat_self hne rfl, editedType_of_ne, slice_replaced_at r.around,
      String.ofList_toList]
    exact hne
  · -- behind it no property is edited, and the types are the same text further on
    have hge := r.around.right_ge q hq
    rw [editedType_of_ne, editedType_of_ne, Move.property,
      slice_replaced_behind r.around s r.from_eq r.to_eq hge.1 hge.2]
    · intro e he
      have := hes e he
      simp only [Move.property, Move.offset, r.to_eq]
      omega
    · intro e he
      obtain he | he := List.mem_append.mp he
      · have := hes e he
        omega
      · obtain rfl := List.mem_singleton.mp he
        simp only
        omega

end Replacement

/-- The edits of a file give a file, with the types that they say. -/
theorem IsFile.applyEdits {cs : List Char} {d : Statements} {es : List Edit} (h : IsFile cs d)
    (hes : AreEdits d es) :
    ∃ d', IsFile (applyEdits cs 0 es) d' ∧
      outlines (editedType (Declaration.applyEdits cs 0 es) []) d'.statements =
        outlines (editedType cs es) d.statements := by
  -- the last edit is made first, and leaves the properties of the others where they are
  induction es using List.reverseRecOn generalizing cs d with
  | nil => exact ⟨d, h, rfl⟩
  | append_singleton es e ih =>
    obtain ⟨hsorted, hmem⟩ := hes
    obtain ⟨p, hp, hestart, hestop, htype⟩ := hmem e (by simp)
    obtain ⟨d₁, h₁, ⟨r⟩⟩ := h.replace hp htype
    obtain ⟨start, stop, s⟩ := e
    obtain rfl : start = p.typeStart := hestart
    obtain rfl : stop = p.typeEnd := hestop
    have hbefore : ∀ e ∈ es, e.start < p.typeStart := fun e he =>
      (List.pairwise_append.mp hsorted).2.2 e he ⟨p.typeStart, p.typeEnd, s⟩ (by simp)
    have hleft : ∀ e ∈ es, ∃ q ∈ r.left, e.start = q.typeStart ∧ e.stop = q.typeEnd ∧
        IsTypeText e.text := fun e he => by
      obtain ⟨q, hq, hstart, hspan⟩ := hmem e (by simp [he])
      exact ⟨q, r.mem_left hq (hstart ▸ hbefore e he), hstart, hspan⟩
    have hes₁ : AreEdits d₁ es := by
      refine ⟨(List.pairwise_append.mp hsorted).1, fun e he => ?_⟩
      obtain ⟨q, hq, hspan⟩ := hleft e he
      exact ⟨q, by rw [r.properties_eq']; simp [hq], hspan⟩
    have hconcat := applyEdits_concat r.around s 0 (Nat.zero_le _) fun e he => by
      obtain ⟨q, hq, hstart, hstop, -⟩ := hleft e he
      have := r.around.left_lt q hq
      omega
    obtain ⟨d', h', houtlines⟩ := ih h₁ hes₁
    rw [hconcat]
    exact ⟨d', h', houtlines.trans (r.outlines_concat hbefore)⟩

/-! ## Collecting edits -/

/-- The edit that sets the type of a property. -/
def setTypeEdit (e : Property × String) : Edit :=
  ⟨e.1.typeStart, e.1.typeEnd, e.2⟩

/-- What one more edit leaves is that edit and others that were there. -/
theorem eq_or_mem_of_mem_insertEdit {e g : Edit} {es : List Edit} (h : g ∈ insertEdit e es) :
    g = e ∨ g ∈ es := by
  induction es with
  | nil => exact .inl (List.mem_singleton.mp h)
  | cons f es ih =>
    unfold insertEdit at h
    split_ifs at h
    · exact List.mem_cons.mp h
    · exact (List.mem_cons.mp h).imp_right (List.mem_cons_of_mem f)
    · obtain rfl | h := List.mem_cons.mp h
      · exact .inr List.mem_cons_self
      · exact (ih h).imp_right (List.mem_cons_of_mem f)

/-- An edit is added to those that agree with it on its place. -/
theorem mem_insertEdit {e g : Edit} {es : List Edit} (h : ∀ f ∈ es, f.start = e.start → f = e) :
    g ∈ insertEdit e es ↔ g = e ∨ g ∈ es := by
  refine ⟨eq_or_mem_of_mem_insertEdit, fun hg => ?_⟩
  induction es with
  | nil => simpa [insertEdit] using hg
  | cons f es ih =>
    have hrest := ih fun k hk => h k (List.mem_cons_of_mem f hk)
    rw [List.mem_cons] at hg
    unfold insertEdit
    split_ifs with hlt heq
    · simpa using hg
    · have hf : f = e := h f List.mem_cons_self heq.symm
      simpa [hf] using hg
    · obtain hg | hg | hg := hg
      · exact List.mem_cons_of_mem f (hrest (.inl hg))
      · exact List.mem_cons.mpr (.inl hg)
      · exact List.mem_cons_of_mem f (hrest (.inr hg))

/-- The edits stay in order. -/
theorem insertEdit_sorted {e : Edit} {es : List Edit}
    (hes : es.Pairwise fun e f => e.start < f.start) :
    (insertEdit e es).Pairwise fun e f => e.start < f.start := by
  induction es with
  | nil => simp [insertEdit]
  | cons f es ih =>
    obtain ⟨hf, hrest⟩ := List.pairwise_cons.mp hes
    unfold insertEdit
    split_ifs with hlt heq
    · refine List.pairwise_cons.mpr ⟨fun g hg => ?_, hes⟩
      obtain rfl | hg := List.mem_cons.mp hg
      · exact hlt
      · exact hlt.trans (hf g hg)
    · exact List.pairwise_cons.mpr ⟨fun g hg => heq ▸ hf g hg, hrest⟩
    · refine List.pairwise_cons.mpr ⟨fun g hg => ?_, ih hrest⟩
      obtain rfl | hg := eq_or_mem_of_mem_insertEdit hg
      · omega
      · exact hf g hg

/-- Edits that agree wherever they start at the same place are collected in order. -/
theorem foldl_replaceSpan (edits : List Edit) {f : SourceFile}
    (hsorted : f.edits.Pairwise fun e f => e.start < f.start)
    (hagree : ∀ e g, e ∈ edits ∨ e ∈ f.edits → g ∈ edits ∨ g ∈ f.edits → e.start = g.start → e = g) :
    ∃ es, edits.foldl (fun f e => f.replaceSpan e.start e.stop e.text) f = { f with edits := es } ∧
      (∀ e, e ∈ es ↔ e ∈ edits ∨ e ∈ f.edits) ∧ es.Pairwise fun e f => e.start < f.start := by
  induction edits generalizing f with
  | nil => exact ⟨f.edits, rfl, by simp, hsorted⟩
  | cons e edits ih =>
    have hinsert : ∀ g, g ∈ insertEdit e f.edits ↔ g = e ∨ g ∈ f.edits := fun g =>
      mem_insertEdit fun k hk => hagree k e (.inr hk) (.inl List.mem_cons_self)
    have hmove : ∀ g, g ∈ edits ∨ g ∈ insertEdit e f.edits ↔ g ∈ e :: edits ∨ g ∈ f.edits :=
      fun g => by rw [hinsert, List.mem_cons, or_left_comm, or_assoc]
    obtain ⟨es, hfold, hes, hsorted'⟩ := ih (f := f.replaceSpan e.start e.stop e.text)
      (insertEdit_sorted hsorted) fun g k hg hk => hagree g k ((hmove g).mp hg) ((hmove k).mp hk)
    exact ⟨es, hfold, fun g => (hes g).trans (hmove g), hsorted'⟩

/-- A property is told by the place of its type. -/
theorem Statements.eq_of_typeStart_eq {cs : List Char} {d : Statements}
    (h : d.yield = place 0 1 (pieces cs)) {p q : Property} (hp : p ∈ allProperties d.statements)
    (hq : q ∈ allProperties d.statements) (heq : p.typeStart = q.typeStart) : p = q := by
  obtain ⟨left, right, hproperties, haround⟩ := Statements.exists_around h hp
  have hlt := haround.span_lt
  obtain hfront | rfl | hbehind := haround.cases (hproperties ▸ hq)
  · omega
  · rfl
  · omega

/-- A text that is read without characters that have no meaning. -/
theorem isFile_of_ofText {text : String} {file : SourceFile} (hfile : SourceFile.ofText text = .ok file)
    (hother : NoOther text) :
    ∃ d, IsFile text.toList d ∧ file = ⟨text, [], d.statements⟩ := by
  obtain ⟨d, hd, hfile⟩ := (ofText_eq_ok_iff text file).mp hfile
  obtain ⟨hyield, hnames⟩ := (derive_eq_ok_iff text d).mp hd
  exact ⟨d, ⟨hyield.trans (tokens_eq_place text), hnames, (noOther_iff text).mp hother⟩, hfile⟩

/-- The text of a derivation is read as the file that the derivation says. -/
theorem ofText_of_yield {cs : List Char} {d : Statements} (hyield : d.yield = place 0 1 (pieces cs))
    (hnames : NamesReadable d) :
    SourceFile.ofText (String.ofList cs) = .ok ⟨String.ofList cs, [], d.statements⟩ := by
  refine (ofText_eq_ok_iff _ _).mpr ⟨d, (derive_eq_ok_iff _ d).mpr ⟨?_, hnames⟩, rfl⟩
  rw [tokens_eq_place, String.toList_ofList]
  exact hyield

theorem IsFile.ofText_eq {cs : List Char} {d : Statements} (h : IsFile cs d) :
    SourceFile.ofText (String.ofList cs) = .ok ⟨String.ofList cs, [], d.statements⟩ :=
  ofText_of_yield h.yield_eq h.names

/-- The type of a property under edits of other properties and of its own. -/
theorem editedType_eq_lookup {cs : List Char} {d : Statements} (h : IsFile cs d)
    {edits : List (Property × String)} (hmem : ∀ e ∈ edits, e.1 ∈ allProperties d.statements)
    (hnodup : (edits.map Prod.fst).Nodup) {es : List Edit}
    (hes : ∀ e, e ∈ es ↔ e ∈ edits.map setTypeEdit)
    {p : Property} (hp : p ∈ allProperties d.statements) :
    editedType cs es p =
      (edits.lookup p).getD (String.ofList (slice cs p.typeStart p.typeEnd)) := by
  have hedit : ∀ e ∈ es, e.start = p.typeStart → ∃ s, (p, s) ∈ edits ∧ e.text = s := by
    intro e he hstart
    obtain ⟨⟨q, s⟩, hqs, rfl⟩ := List.mem_map.mp ((hes e).mp he)
    obtain rfl := Statements.eq_of_typeStart_eq h.yield_eq (hmem _ hqs) hp hstart
    exact ⟨s, hqs, rfl⟩
  cases hlookup : edits.lookup p with
  | none =>
    refine editedType_of_ne fun e he hstart => ?_
    obtain ⟨s, hps, -⟩ := hedit e he hstart
    have := List.lookup_eq_none_iff.mp hlookup _ hps
    simp at this
  | some s =>
    have hps : (p, s) ∈ edits := by
      obtain ⟨before, after, rfl, -⟩ := List.lookup_eq_some_iff.mp hlookup
      simp
    have hes' : setTypeEdit (p, s) ∈ es := (hes _).mpr (List.mem_map_of_mem hps)
    rw [editedType]
    cases hfind : es.find? fun e => e.start = p.typeStart with
    | none => exact absurd (List.find?_eq_none.mp hfind _ hes') (by simp [setTypeEdit])
    | some e =>
      have hstart : e.start = p.typeStart := by simpa using List.find?_some hfind
      obtain ⟨s', hps', htext⟩ := hedit e (List.mem_of_find?_eq_some hfind) hstart
      have hsame := List.inj_on_of_nodup_map hnodup hps' hps rfl
      rw [Option.getD_some, ← (Prod.mk.inj hsame).2]
      exact htext

/-- Setting the types of some properties of a file and reading the text again gives the statements
of the file with the new types in the place of the old ones. -/
theorem outline_ofText_setTypes (text : String) (file : SourceFile)
    (hfile : SourceFile.ofText text = .ok file) (hother : NoOther text)
    (edits : List (Property × String)) (hmem : ∀ e ∈ edits, e.1 ∈ allProperties file.statements)
    (hnodup : (edits.map Prod.fst).Nodup) (htypes : ∀ e ∈ edits, IsTypeText e.2) :
    ∃ file', SourceFile.ofText (edits.foldl (fun f e => f.setType e.1 e.2) file).fullText =
        .ok file' ∧
      file'.outline =
        outlines (fun p => (edits.lookup p).getD (file.typeText p)) file.statements := by
  obtain ⟨d, h, rfl⟩ := isFile_of_ofText hfile hother
  -- no two of the edits begin at one place
  have hagree : ∀ e g, e ∈ edits.map setTypeEdit → g ∈ edits.map setTypeEdit →
      e.start = g.start → e = g := by
    intro e g he hg heq
    obtain ⟨e, hedit, rfl⟩ := List.mem_map.mp he
    obtain ⟨g, hother, rfl⟩ := List.mem_map.mp hg
    have hsame := Statements.eq_of_typeStart_eq h.yield_eq (hmem e hedit) (hmem g hother) heq
    rw [List.inj_on_of_nodup_map hnodup hedit hother hsame]
  obtain ⟨es, hfold, hmemEdits, hsorted⟩ := foldl_replaceSpan (edits.map setTypeEdit)
    (f := ⟨text, [], d.statements⟩) .nil (by simpa using hagree)
  replace hfold : edits.foldl (fun (f : SourceFile) e => f.setType e.1 e.2)
      ⟨text, [], d.statements⟩ = ⟨text, es, d.statements⟩ := List.foldl_map.symm.trans hfold
  simp only [List.not_mem_nil, or_false] at hmemEdits
  have hes : AreEdits d es := by
    refine ⟨hsorted, fun e he => ?_⟩
    obtain ⟨e, hedit, rfl⟩ := List.mem_map.mp ((hmemEdits e).mp he)
    exact ⟨e.1, hmem e hedit, rfl, rfl, htypes e hedit⟩
  obtain ⟨d', h', houtlines⟩ := h.applyEdits hes
  rw [hfold, SourceFile.fullText, h'.ofText_eq]
  refine ⟨_, rfl, ?_⟩
  -- the types of the new file are cut from the edited text
  have htypeText : SourceFile.typeText ⟨String.ofList (applyEdits text.toList 0 es), [],
      d'.statements⟩ = editedType (applyEdits text.toList 0 es) [] := by
    funext p
    rw [typeText_eq_slice, String.toList_ofList]
    rfl
  rw [SourceFile.outline, htypeText]
  refine houtlines.trans (outlines_congr _ fun p hp => ?_)
  rw [editedType_eq_lookup h hmem hnodup hmemEdits hp, typeText_eq_slice]

theorem tokens_twoProperties : tokens "interface A \x7ba: b; c?: d\x7d" =
    [⟨.interfaceWord, "interface", 1, 0⟩, ⟨.identifier, "A", 1, 10⟩, ⟨.leftBrace, "\x7b", 1, 12⟩,
      ⟨.identifier, "a", 1, 13⟩, ⟨.colon, ":", 1, 14⟩, ⟨.identifier, "b", 1, 16⟩,
      ⟨.semicolon, ";", 1, 17⟩, ⟨.identifier, "c", 1, 19⟩, ⟨.question, "?", 1, 20⟩,
      ⟨.colon, ":", 1, 21⟩, ⟨.identifier, "d", 1, 23⟩, ⟨.rightBrace, "\x7d", 1, 24⟩] := by
  decide

theorem tokens_arrayType : tokens ("interface X \x7bp: " ++ "e[]" ++ "\x7d") =
    [⟨.interfaceWord, "interface", 1, 0⟩, ⟨.identifier, "X", 1, 10⟩, ⟨.leftBrace, "\x7b", 1, 12⟩,
      ⟨.identifier, "p", 1, 13⟩, ⟨.colon, ":", 1, 14⟩, ⟨.identifier, "e", 1, 16⟩,
      ⟨.leftBracket, "[", 1, 17⟩, ⟨.rightBracket, "]", 1, 18⟩, ⟨.rightBrace, "\x7d", 1, 19⟩] := by
  decide

/-- An array type is a complete type. -/
theorem isTypeText_array : IsTypeText "e[]" := by
  refine ⟨?_, ⟨"interface X \x7bp: e[]\x7d", [], [.interface "X" false [⟨"p", false, 16, 19⟩]]⟩,
    ⟨"p", false, 16, 19⟩, ?_, rfl, by decide⟩
  · unfold NoOther
    decide
  · unfold SourceFile.ofText parse
    rw [tokens_arrayType]
    rfl

/-- A file with two properties, of which the second one gets another type. -/
theorem outline_ofText_setTypes_second :
    ∃ file', SourceFile.ofText (SourceFile.setType ⟨"interface A \x7ba: b; c?: d\x7d", [],
        [.interface "A" false [⟨"a", false, 16, 17⟩, ⟨"c", true, 23, 24⟩]]⟩
        ⟨"c", true, 23, 24⟩ "e[]").fullText = .ok file' ∧
      file'.outline =
        [.interface "A" false [⟨"a", false, "b"⟩, ⟨"c", true, "e[]"⟩]] := by
  obtain ⟨file', hfile', houtline⟩ := outline_ofText_setTypes "interface A \x7ba: b; c?: d\x7d"
    ⟨"interface A \x7ba: b; c?: d\x7d", [],
      [.interface "A" false [⟨"a", false, 16, 17⟩, ⟨"c", true, 23, 24⟩]]⟩
    (by
      unfold SourceFile.ofText parse
      rw [tokens_twoProperties]
      rfl)
    (by
      unfold NoOther
      decide +kernel)
    [(⟨"c", true, 23, 24⟩, "e[]")] (by simp [allProperties, Statement.properties]) (by simp)
    (by simpa using isTypeText_array)
  refine ⟨file', hfile', houtline.trans ?_⟩
  have ha : SourceFile.typeText ⟨"interface A \x7ba: b; c?: d\x7d", [],
      [.interface "A" false [⟨"a", false, 16, 17⟩, ⟨"c", true, 23, 24⟩]]⟩ ⟨"a", false, 16, 17⟩ =
      "b" := by
    decide +kernel
  simp only [outlines, Statement.outline, Property.outline, List.map_cons, List.map_nil, ha]
  rfl

end SchemaTypings.Declaration
