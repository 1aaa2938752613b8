import SchemaTypings.Proofs.Editing.Edits
import SchemaTypings.Proofs.Writing.Expressions
import SchemaTypings.Proofs.Writing.Members

/-!
# Overwriting a type

A type expression may hold signs that have no meaning for the lexer, so that it is no type text in
the sense of `IsTypeText`. It can take the place of a type all the same (`outline_setType`): behind
the property that is overwritten nothing depends on what its characters mean.
-/

namespace SchemaTypings.Declaration

/-- A type expression is a type in front of anything that goes on no token. -/
theorem IsExpression.exists_isTextOf {s : String} (h : IsExpression s.toList) :
    ∃ x, IsTextOf x s := by
  obtain ⟨hcut, htokens⟩ := Tokenizes.pieces h
  obtain ⟨x, hx⟩ := htokens (textOf typeFrame).length (1 + (textOf typeFrame).count '\n') none
  refine ⟨x, hx.yield_eq, fun t ht => (hx.names t ht).resolve_left (by simp), hx.start_eq, ?_,
    fun rest hquiet => hcut rest hquiet.stops⟩
  rw [← String.length_toList]
  exact hx.stop_eq

variable {cs : List Char} {d : Statements} {p : Property}

/-- The text of a file after one type was set. -/
theorem IsFile.applyEdits_setType (h : IsFile cs d) (hp : p ∈ allProperties d.statements)
    (s : String) : Declaration.applyEdits cs 0 [setTypeEdit (p, s)] = replaced cs p s := by
  obtain ⟨hole⟩ := Statements.exists_hole hp
  have hnone : ∀ e ∈ ([] : List Edit), e.start ≤ p.typeStart ∧ e.stop ≤ p.typeStart := by simp
  have hconcat := applyEdits_concat (hole.around h.yield_eq) s 0 (Nat.zero_le _) hnone
  simpa [Declaration.applyEdits, setTypeEdit] using hconcat

/-- What a file says after the type of a property is replaced. -/
theorem Replacement.outlines_replaced {d' : Statements} {s : String}
    (r : Replacement cs d d' p s) :
    outlines (typeIn (replaced cs p s)) d'.statements =
      outlines (fun q => if q = p then s else typeIn cs q) d.statements := by
  have hspan := r.around.span_lt
  -- the types in front keep their place, and those behind move along
  refine (r.outlines_eq _ _ (fun q hq => ?_) ?_ fun q hq => ?_).symm
  · have hlt := r.around.left_lt q hq
    have hne : q ≠ p := by
      rintro rfl
      omega
    rw [if_neg hne, typeIn, typeIn, slice_replaced_before r.around s hlt.2]
  · rw [if_pos rfl, typeIn, slice_replaced_at r.around, String.ofList_toList]
  · have hge := r.around.right_ge q hq
    have hne : q ≠ p := by
      rintro rfl
      omega
    rw [if_neg hne, typeIn, typeIn, Move.property,
      slice_replaced_behind r.around s r.from_eq r.to_eq hge.1 hge.2]

/-- A file whose characters all have a meaning, with the type of a property overwritten by a type
expression, is read again: it says what it said before, with the expression as the type of the
property. -/
theorem outline_setType {text : String} {file : SourceFile} (hfile : SourceFile.ofText text = .ok file)
    (hother : NoOther text) (hp : p ∈ allProperties file.statements) {s : String}
    (hs : IsExpression s.toList) :
    ∃ file', SourceFile.ofText (file.setType p s).fullText = .ok file' ∧
      file'.outline = outlines (fun q => if q = p then s else file.typeText q) file.statements := by
  obtain ⟨d, h, rfl⟩ := isFile_of_ofText hfile hother
  obtain ⟨x, hx⟩ := hs.exists_isTextOf
  obtain ⟨d', hyield, hnames, -, ⟨r⟩⟩ := h.exists_replacement hp hx
  have htext : (SourceFile.setType ⟨text, [], d.statements⟩ p s).fullText =
      String.ofList (replaced text.toList p s) :=
    congrArg String.ofList (h.applyEdits_setType hp s)
  rw [htext]
  refine ⟨_, ofText_of_yield hyield hnames, ?_⟩
  have htypes : ∀ (text : String) (statements : List Statement),
      SourceFile.typeText ⟨text, [], statements⟩ = typeIn text.toList := fun text statements =>
    funext (typeText_eq_slice text statements)
  rw [SourceFile.outline, htypes, htypes, String.toList_ofList]
  exact r.outlines_replaced

end SchemaTypings.Declaration
