import SchemaTypings.Proofs.Editing.Edits

/-!
# Replaced spans

`Spliced` says, without offsets into the result, that a text is another one with some spans of it
replaced. The types of the properties of a file that can be read are such spans: they are not empty,
lie in the text and do not overlap (`Statements.typeEnd_le`). So the edits of a file that give some
of its properties other types splice its text (`Statements.spliced`), whatever characters without a
meaning it holds.
-/

namespace SchemaTypings.Declaration

/-- Behind an offset, a text with some spans of it replaced, in order; what is between the spans
stays as it is. -/
inductive Spliced : Nat → List Char → List Edit → List Char → Prop
  | none (offset : Nat) (cs : List Char) : Spliced offset cs [] cs
  | span {offset start stop : Nat} {kept old rest out : List Char} {new : String} {es : List Edit} :
      start = offset + kept.length → stop = start + old.length → Spliced stop rest es out →
      Spliced offset (kept ++ old ++ rest) (⟨start, stop, new⟩ :: es) (kept ++ new.toList ++ out)

/-- A text is cut at two offsets into three parts. -/
theorem slice_append_slice_append_drop (cs : List Char) {offset start stop : Nat}
    (hstart : offset ≤ start) (hstop : start ≤ stop) :
    slice cs offset start ++ slice cs start stop ++ cs.drop stop = cs.drop offset := by
  have hcut : ∀ {i j : Nat}, i ≤ j → slice cs i j ++ cs.drop j = cs.drop i := fun {i j} hij => by
    rw [slice, show cs.drop j = (cs.drop i).drop (j - i) by
      rw [List.drop_drop, Nat.add_sub_cancel' hij], List.take_append_drop]
  rw [List.append_assoc, hcut hstop, hcut hstart]

/-- Edits of spans that follow each other in the text splice it. -/
theorem spliced_applyEdits {cs : List Char} {es : List Edit} {offset : Nat}
    (horder : es.Pairwise fun e f => e.stop ≤ f.start)
    (hspans : ∀ e ∈ es, offset ≤ e.start ∧ e.start ≤ e.stop ∧ e.stop ≤ cs.length) :
    Spliced offset (cs.drop offset) es (applyEdits cs offset es) := by
  induction es generalizing offset with
  | nil => exact .none offset _
  | cons e es ih =>
    obtain ⟨hbehind, horder⟩ := List.pairwise_cons.mp horder
    obtain ⟨hstart, hstop, hlength⟩ := hspans e List.mem_cons_self
    have hrest : Spliced e.stop (cs.drop e.stop) es (applyEdits cs e.stop es) :=
      ih horder fun f hf => ⟨hbehind f hf, (hspans f (List.mem_cons_of_mem e hf)).2⟩
    rw [applyEdits, ← slice_append_slice_append_drop cs hstart hstop]
    refine .span ?_ ?_ hrest
    · rw [length_slice]
      omega
    · rw [length_slice]
      omega

/-- An edit of a span that is not empty has the text of the span when it changes nothing. -/
theorem eq_of_applyEdits_singleton {cs : List Char} {e : Edit}
    (hne : slice cs e.start e.stop ≠ []) (h : applyEdits cs 0 [e] = cs) :
    slice cs e.start e.stop = e.text.toList := by
  have hspan : e.start ≤ e.stop := by
    by_contra hlt
    exact hne (by simp [slice, Nat.sub_eq_zero_of_le (Nat.le_of_not_le hlt)])
  have hparts := slice_append_slice_append_drop cs (Nat.zero_le e.start) hspan
  rw [List.drop_zero] at hparts
  rw [applyEdits, applyEdits] at h
  exact List.append_cancel_left (List.append_cancel_right (hparts.trans h.symm))

section Spans

variable {cs : List Char} {d : Statements} (h : d.yield = place 0 1 (pieces cs)) {p q : Property}

include h

/-- The type of a property is not empty and stands in the text. -/
theorem Statements.typeStart_lt (hp : p ∈ allProperties d.statements) :
    p.typeStart < p.typeEnd ∧ p.typeEnd ≤ cs.length := by
  obtain ⟨left, right, -, haround⟩ := Statements.exists_around h hp
  exact ⟨haround.span_lt, haround.end_le⟩

/-- A type ends before the next one starts. -/
theorem Statements.typeEnd_le (hp : p ∈ allProperties d.statements)
    (hq : q ∈ allProperties d.statements) (hlt : p.typeStart < q.typeStart) :
    p.typeEnd ≤ q.typeStart := by
  obtain ⟨left, right, hproperties, haround⟩ := Statements.exists_around h hp
  obtain hfront | rfl | hbehind := haround.cases (hproperties ▸ hq)
  · omega
  · omega
  · exact hbehind

/-- No property stands in two places. -/
theorem Statements.nodup_allProperties : (allProperties d.statements).Nodup :=
  (Statements.sorted_allProperties h).imp fun hlt heq => hlt.ne (congrArg Property.typeStart heq)

/-- Edits that give properties of a file other types, in order, are apart. -/
theorem Statements.apart {es : List Edit} (hsorted : es.Pairwise fun e f => e.start < f.start)
    (hes : ∀ e ∈ es, ∃ p ∈ allProperties d.statements, e.start = p.typeStart ∧ e.stop = p.typeEnd) :
    es.Pairwise (fun e f => e.stop ≤ f.start) ∧
      ∀ e ∈ es, 0 ≤ e.start ∧ e.start ≤ e.stop ∧ e.stop ≤ cs.length := by
  refine ⟨hsorted.imp_of_mem ?_, fun e he => ?_⟩
  · intro e f he hf hlt
    obtain ⟨p, hp, hstart, hstop⟩ := hes e he
    obtain ⟨q, hq, hstart', -⟩ := hes f hf
    rw [hstart, hstart'] at hlt
    rw [hstop, hstart']
    exact Statements.typeEnd_le h hp hq hlt
  · obtain ⟨p, hp, hstart, hstop⟩ := hes e he
    obtain ⟨hlt, hle⟩ := Statements.typeStart_lt h hp
    rw [hstart, hstop]
    exact ⟨Nat.zero_le _, hlt.le, hle⟩

/-- Such edits splice the text of the file. -/
theorem Statements.spliced {es : List Edit} (hsorted : es.Pairwise fun e f => e.start < f.start)
    (hes : ∀ e ∈ es, ∃ p ∈ allProperties d.statements, e.start = p.typeStart ∧ e.stop = p.typeEnd) :
    Spliced 0 cs es (applyEdits cs 0 es) := by
  obtain ⟨horder, hspans⟩ := Statements.apart h hsorted hes
  have hspliced : Spliced 0 (cs.drop 0) es (applyEdits cs 0 es) := spliced_applyEdits horder hspans
  exact hspliced

end Spans

end SchemaTypings.Declaration
