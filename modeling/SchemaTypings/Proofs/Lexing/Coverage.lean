import SchemaTypings.Declaration.Source
import SchemaTypings.Proofs.Lexing.Placement

/-!
# The lexer loses nothing

A text is its tokens one after the other with gaps between them, and a gap holds nothing but blanks
and complete comments (`tokens_cover`). What opens no string and no comment is a token by itself, so
that this is true of every text.
-/

namespace SchemaTypings.Declaration

/-- What may stand between tokens, in front of the rest of a text. -/
inductive Gap (rest : List Char) : List Char → Prop
  | nil : Gap rest []
  | blank {c : Char} {x : List Char} (h : c ∈ [' ', '\t', '\r', '\n']) (hx : Gap rest x) :
    Gap rest (c :: x)
  | block {y x : List Char} (h : BlockRest y) (hx : Gap rest x) : Gap rest ('/' :: '*' :: y ++ x)
  /-- A line comment goes up to the end of its line. -/
  | line {y x : List Char} (h : '\n' ∉ y) (hend : ∀ c ∈ (x ++ rest).head?, c = '\n')
    (hx : Gap rest x) : Gap rest ('/' :: '/' :: y ++ x)

/-- Where the tokens behind a place begin, which is at the end of the text when there are none. -/
def startOf (length : Nat) (ts : List Token) : Nat :=
  (ts.head?.map Token.offset).getD length

/-- Where the tokens in front of a place end. -/
def stopOf (ts : List Token) : Nat :=
  (ts.getLast?.map Token.stop).getD 0

/-- The tokens are all that a text holds besides gaps. -/
structure Covers (cs : List Char) (ts : List Token) : Prop where
  ne_empty : ∀ t ∈ ts, t.text ≠ ""
  slice_eq : ∀ t ∈ ts, slice cs t.offset t.stop = t.text.toList
  line_eq : ∀ t ∈ ts, t.line = 1 + (cs.take t.offset).count '\n'
  /-- No token begins before an earlier one has ended. -/
  ordered : ts.Pairwise fun t u => t.offset < u.offset ∧ t.stop ≤ u.offset
  /-- In front of the first token, behind the last one and between two of them there is a gap. -/
  gap : ∀ before after, ts = before ++ after →
    Gap (cs.drop (startOf cs.length after)) (slice cs (stopOf before) (startOf cs.length after))

/-! ## Gaps -/

/-- Pieces that are dropped make up a gap. -/
theorem Cut.gap {ps : List Piece} {rest : List Char} (h : Cut ps rest)
    (hnone : ∀ p ∈ ps, p.kind = none) : Gap rest (textOf ps) := by
  induction ps with
  | nil => exact .nil
  | cons p ps ih =>
    obtain ⟨hp, hps⟩ := h
    have hrest := ih hps fun q hq => hnone q (by simp [hq])
    rw [hnone p (by simp)] at hp
    rw [textOf_cons]
    generalize p.chars = x at hp
    cases hp with
    | blank h => exact .blank (by simpa [isSeparator, or_assoc] using h) hrest
    | block h => exact .block h hrest
    | line h hend => exact .line (fun hline => h _ hline rfl) hend hrest

/-- In front of the first token there are only pieces that are dropped. -/
theorem exists_gap_before (offset line : Nat) (ps : List Piece) :
    ∃ gap after, ps = gap ++ after ∧ (∀ p ∈ gap, p.kind = none) ∧
      offset + (textOf gap).length =
        startOf (offset + (textOf ps).length) (place offset line ps) := by
  induction ps generalizing offset line with
  | nil => exact ⟨[], [], rfl, by simp, rfl⟩
  | cons p ps ih =>
    cases hkind : p.kind with
    | some k => exact ⟨[], p :: ps, rfl, by simp, by simp [place, hkind, startOf]⟩
    | none =>
      obtain ⟨gap, after, rfl, hnone, hstart⟩ :=
        ih (offset + p.chars.length) (line + p.chars.count '\n')
      refine ⟨p :: gap, after, rfl, by simpa [hkind] using hnone, ?_⟩
      simpa [place, hkind, Nat.add_assoc] using hstart

/-- Between the tokens in front of a place and those behind it there are only pieces that are
dropped. -/
theorem exists_gap {ps : List Piece} {before after : List Token}
    (h : place 0 1 ps = before ++ after) :
    ∃ front gap back, ps = front ++ (gap ++ back) ∧ (∀ p ∈ gap, p.kind = none) ∧
      (textOf front).length = stopOf before ∧
      (textOf front).length + (textOf gap).length = startOf (textOf ps).length after := by
  obtain rfl | ⟨ts, t, rfl⟩ := before.eq_nil_or_concat
  · obtain ⟨gap, back, rfl, hnone, hstart⟩ := exists_gap_before 0 1 ps
    exact ⟨[], gap, back, rfl, hnone, rfl, by simpa [h] using hstart⟩
  · rw [List.concat_eq_append, List.append_assoc, List.singleton_append] at h
    obtain ⟨front, p, rest, rfl, -, -, hp, hoffset, hafter⟩ := exists_split h
    obtain ⟨gap, back, rfl, hnone, hstart⟩ := exists_gap_before (0 + (textOf (front ++ [p])).length)
      (1 + (textOf (front ++ [p])).count '\n') rest
    rw [hafter] at hstart
    refine ⟨front ++ [p], gap, back, by simp, hnone, ?_, ?_⟩
    · simp [stopOf, hp.stop_eq, hoffset]
    · simpa [Nat.add_assoc] using hstart

/-! ## The whole text -/

/-- Every text is its tokens and the gaps between them. -/
theorem tokens_cover (text : String) : Covers text.toList (tokens text) where
  ne_empty t ht hempty := by
    have hlt := offset_lt_stop ht
    simp [Token.stop, hempty] at hlt
  slice_eq t ht := by
    obtain ⟨before, p, after, hpieces, hp, hoffset, -⟩ := exists_piece_of_mem_tokens ht
    have hslice := slice_append (textOf before) p.chars (textOf after)
    rw [List.append_assoc, ← textOf_cons, ← textOf_append, ← hpieces, textOf_pieces] at hslice
    rw [hp.stop_eq, hoffset, hslice, hp.2, String.toList_ofList]
  line_eq t ht := line_of_mem_tokens ht
  ordered := pairwise_tokens text
  gap before after hsplit := by
    rw [tokens_eq_place] at hsplit
    obtain ⟨front, gap, back, hpieces, hnone, hstop, hstart⟩ := exists_gap hsplit
    rw [textOf_pieces] at hstart
    have hcs : text.toList = textOf front ++ textOf gap ++ textOf back := by
      rw [← textOf_pieces text.toList, hpieces, textOf_append, textOf_append, List.append_assoc]
    have hgap : slice text.toList (stopOf before) (startOf text.toList.length after) =
        textOf gap := by
      rw [← hstart, ← hstop, hcs]
      exact slice_append (textOf front) (textOf gap) (textOf back)
    have hrest : text.toList.drop (startOf text.toList.length after) = textOf back := by
      rw [← hstart, hcs, ← List.length_append, List.drop_left]
    rw [hgap, hrest]
    -- the gap is cut off in front of the pieces behind it, where its line comments end
    exact (cut_of_pieces (pieces_textOf_of_pieces hpieces)).gap hnone

end SchemaTypings.Declaration
