import SchemaTypings.Proofs.Lexing.Locality

/-!
# The places of tokens

Where the tokens of some pieces begin and end, and how a list of tokens is cut: `exists_split` cuts
the pieces in front of a token. The tokens of a text come one after the other (`pairwise_tokens`),
each on the line that its offset is on (`line_of_mem_tokens`).
-/

namespace SchemaTypings.Declaration

/-- The tokens of the pieces that stand behind others in a file. -/
def placeBehind (ps qs : List Piece) : List Token :=
  place (textOf ps).length (1 + (textOf ps).count '\n') qs

/-- The tokens of a file in two parts. -/
theorem place_eq_append (ps qs : List Piece) :
    place 0 1 (ps ++ qs) = place 0 1 ps ++ placeBehind ps qs := by
  rw [place_append, Nat.zero_add]
  rfl

/-- The tokens of the rest of a file in two parts. -/
theorem placeBehind_append (ps qs rs : List Piece) :
    placeBehind ps (qs ++ rs) = placeBehind ps qs ++ placeBehind (ps ++ qs) rs := by
  simp only [placeBehind, place_append, textOf_append, List.length_append, List.count_append,
    Nat.add_assoc]

/-- The token that a piece is at a place. -/
def Piece.IsToken (p : Piece) (t : Token) : Prop :=
  p.kind = some t.kind ∧ t.text = String.ofList p.chars

/-- A token is as long as its piece. -/
theorem Piece.IsToken.stop_eq {p : Piece} {t : Token} (h : p.IsToken t) :
    t.stop = t.offset + p.chars.length := by
  simp [Token.stop, h.2]

/-- The kinds of the tokens are those of the pieces. -/
theorem map_kind_place (offset line : Nat) (ps : List Piece) :
    (place offset line ps).map Token.kind = ps.filterMap Piece.kind := by
  induction ps generalizing offset line with
  | nil => rfl
  | cons p ps ih => cases hkind : p.kind <;> simp [place, hkind, ih]

/-- In front of each token stand the pieces whose tokens come before it. -/
theorem exists_split {offset line : Nat} {ps : List Piece} {ts us : List Token} {t : Token}
    (h : place offset line ps = ts ++ t :: us) :
    ∃ before p after, ps = before ++ p :: after ∧ place offset line before = ts ∧
      place offset line (before ++ [p]) = ts ++ [t] ∧ p.IsToken t ∧
      t.offset = offset + (textOf before).length ∧
      place (offset + (textOf (before ++ [p])).length)
        (line + (textOf (before ++ [p])).count '\n') after = us := by
  induction ps generalizing offset line ts with
  | nil => simp [place] at h
  | cons p ps ih =>
    -- behind the first piece the split is that of the others
    have hcons : ∀ ts', ts = place offset line [p] ++ ts' →
        place (offset + p.chars.length) (line + p.chars.count '\n') ps = ts' ++ t :: us →
        ∃ before q after, p :: ps = before ++ q :: after ∧ place offset line before = ts ∧
          place offset line (before ++ [q]) = ts ++ [t] ∧ q.IsToken t ∧
          t.offset = offset + (textOf before).length ∧
          place (offset + (textOf (before ++ [q])).length)
            (line + (textOf (before ++ [q])).count '\n') after = us := by
      intro ts' hts hrest
      obtain ⟨before, q, after, rfl, hbefore, htoken, hq, hoffset, hafter⟩ := ih hrest
      refine ⟨p :: before, q, after, rfl, ?_, ?_, hq, ?_, ?_⟩
      · simp [hts, place, hbefore]
      · simp [hts, place, htoken]
      · simp [hoffset, Nat.add_assoc]
      · simpa [Nat.add_assoc] using hafter
    cases hkind : p.kind with
    | none => exact hcons ts (by simp [place, hkind]) (by simpa [place, hkind] using h)
    | some k =>
      simp only [place, hkind, Option.map_some, Option.toList_some, List.cons_append,
        List.nil_append] at h
      cases ts with
      | nil =>
        obtain ⟨rfl, hrest⟩ := List.cons.inj h
        exact ⟨[], p, ps, rfl, rfl, by simp [place, hkind], ⟨hkind, rfl⟩, rfl, by simpa using hrest⟩
      | cons s ts =>
        obtain ⟨rfl, hrest⟩ := List.cons.inj h
        exact hcons ts (by simp [place, hkind]) hrest

/-- The tokens of pieces begin and end within the text of these. -/
theorem bounds_of_mem_place {offset line : Nat} {ps : List Piece} {t : Token}
    (h : t ∈ place offset line ps) (hne : ∀ p ∈ ps, p.chars ≠ []) :
    offset ≤ t.offset ∧ t.offset < t.stop ∧ t.stop ≤ offset + (textOf ps).length := by
  obtain ⟨ts, us, htoken⟩ := List.append_of_mem h
  obtain ⟨before, p, after, rfl, -, -, hp, hoffset, -⟩ := exists_split htoken
  have hlength := List.length_pos_iff.mpr (hne p (by simp))
  have hstop := hp.stop_eq
  simp only [textOf_append, textOf_cons, List.length_append]
  omega

/-- No piece of a text is empty. -/
theorem chars_ne_nil {p : Piece} {cs : List Char} (h : p ∈ pieces cs) : p.chars ≠ [] := by
  obtain ⟨rest, hlex⟩ := exists_lexes_of_mem_pieces h
  exact hlex.ne_nil

/-- A token ends before the next one begins. -/
theorem pairwise_place (offset line : Nat) {ps : List Piece} (hne : ∀ p ∈ ps, p.chars ≠ []) :
    (place offset line ps).Pairwise fun t u => t.stop ≤ u.offset := by
  induction ps generalizing offset line with
  | nil => exact .nil
  | cons p ps ih =>
    have hrest : ∀ q ∈ ps, q.chars ≠ [] := fun q hq => hne q (by simp [hq])
    cases hkind : p.kind with
    | none => simpa [place, hkind] using ih _ _ hrest
    | some k =>
      simp only [place, hkind, Option.map_some, Option.toList_some, List.singleton_append,
        List.pairwise_cons]
      refine ⟨fun u hu => ?_, ih _ _ hrest⟩
      have hstart := (bounds_of_mem_place hu hrest).1
      simpa [Token.stop] using hstart

/-- A token is not empty. -/
theorem offset_lt_stop {text : String} {t : Token} (h : t ∈ tokens text) : t.offset < t.stop := by
  rw [tokens_eq_place] at h
  exact (bounds_of_mem_place h fun _ hp => chars_ne_nil hp).2.1

/-- The tokens of a text come one after the other. -/
theorem pairwise_tokens (text : String) :
    (tokens text).Pairwise fun t u => t.offset < u.offset ∧ t.stop ≤ u.offset := by
  have hstops := pairwise_place 0 1 fun p (hp : p ∈ pieces text.toList) => chars_ne_nil hp
  rw [← tokens_eq_place] at hstops
  exact hstops.imp_of_mem fun ht _ hstop =>
    ⟨Nat.lt_of_lt_of_le (offset_lt_stop ht) hstop, hstop⟩

/-- No token of a text stands twice in it. -/
theorem nodup_tokens (text : String) : (tokens text).Nodup :=
  (pairwise_tokens text).imp fun h heq => by simp [heq] at h

/-- A token is a piece of its text. Its offset is the number of characters in front of it, and its
line counts the line feeds among these. -/
theorem exists_piece_of_mem_tokens {text : String} {t : Token} (h : t ∈ tokens text) :
    ∃ before p after, pieces text.toList = before ++ p :: after ∧ p.IsToken t ∧
      t.offset = (textOf before).length ∧ t.line = 1 + (textOf before).count '\n' := by
  obtain ⟨ts, us, hsplit⟩ := List.append_of_mem h
  rw [tokens_eq_place] at hsplit
  obtain ⟨before, p, after, hpieces, hbefore, htoken, hp, hoffset, -⟩ := exists_split hsplit
  have hplace := place_eq_append before [p]
  rw [htoken, hbefore] at hplace
  have hone := List.append_cancel_left hplace
  simp only [placeBehind, place, hp.1, Option.map_some, Option.toList_some, List.cons_append,
    List.nil_append, List.cons.injEq] at hone
  exact ⟨before, p, after, hpieces, hp, by rw [hoffset, Nat.zero_add], congrArg Token.line hone.1⟩

/-- A token stands on the line that its offset is on. -/
theorem line_of_mem_tokens {text : String} {t : Token} (h : t ∈ tokens text) :
    t.line = 1 + (text.toList.take t.offset).count '\n' := by
  obtain ⟨before, p, after, hpieces, -, hoffset, hline⟩ := exists_piece_of_mem_tokens h
  have htake : text.toList.take t.offset = textOf before := by
    rw [← textOf_pieces text.toList, hpieces, hoffset, textOf_append, List.take_left]
  rw [htake, hline]

/-- The last piece is dropped or the last token. -/
theorem kind_of_getLast? {offset line : Nat} {ps : List Piece} {ts : List Token} {t : Token}
    (h : place offset line ps = ts ++ [t]) {p : Piece} (hp : p ∈ ps.getLast?) :
    p.kind = none ∨ p.kind = some t.kind := by
  obtain ⟨before, rfl⟩ := List.getLast?_eq_some_iff.mp hp
  have hkinds : (before ++ [p]).filterMap Piece.kind = ts.map Token.kind ++ [t.kind] := by
    rw [← map_kind_place offset line, h, List.map_append, List.map_cons, List.map_nil]
  cases hkind : p.kind with
  | none => exact .inl rfl
  | some k =>
    rw [List.filterMap_append, List.filterMap_cons, hkind, List.filterMap_nil] at hkinds
    simp only [List.append_singleton_inj] at hkinds
    exact .inr (by rw [hkinds.2])

/-- A token does not begin with a line feed. -/
theorem Lexes.head_ne {x rest : List Char} {k : Kind} (h : Lexes x (some k) rest)
    (more : List Char) : ∃ c ∈ (x ++ more).head?, c ≠ '\n' := by
  cases h with
  | string hquote h => exact ⟨_, rfl, ne_of_test hquote (by decide)⟩
  | number hc hy hrest hpoint => exact ⟨_, rfl, ne_of_test hc (by decide)⟩
  | fraction hc hy hd hz hrest => exact ⟨_, rfl, ne_of_test hc (by decide)⟩
  | word hc hy hrest => exact ⟨_, rfl, ne_of_test hc (by decide)⟩
  | ellipsis => exact ⟨'.', rfl, by decide⟩
  | arrow => exact ⟨'=', rfl, by decide⟩
  | @sign c _ hblank =>
    refine ⟨c, rfl, ?_⟩
    rintro rfl
    exact absurd hblank (by decide)

/-- A token does not end in a blank. -/
theorem Lexes.last_ne {x rest : List Char} {k : Kind} (h : Lexes x (some k) rest) :
    x.getLast? ≠ some ' ' := by
  -- what passes a test that no blank passes does not end in one
  have htest : ∀ {p : Char → Bool} {y : List Char}, p ' ' = false → (∀ c ∈ y, p c) →
      y.getLast? ≠ some ' ' :=
    fun hp hy hlast => ne_of_test (hy ' ' (List.mem_of_getLast? hlast)) hp rfl
  cases h with
  | @string quote y _ hquote h =>
    rw [List.getLast?_cons, h.getLast?]
    exact fun hlast => ne_of_test hquote (by decide) (Option.some.inj hlast)
  | number hc hy hrest hpoint =>
    exact htest (by decide) (List.forall_mem_cons.mpr ⟨hc, hy⟩)
  | @fraction c d y z _ hc hy hd hz hrest =>
    have hpart := htest (by decide) (List.forall_mem_cons.mpr ⟨hd, hz⟩)
    simpa [List.getLast?_append, List.getLast?_cons] using hpart
  | @word c y _ hc hy hrest =>
    exact htest (by decide) (List.forall_mem_cons.mpr ⟨isIdentifierPart_of_start hc, hy⟩)
  | ellipsis => decide
  | arrow => decide
  | @sign c _ hblank =>
    rintro hlast
    obtain rfl : c = ' ' := by simpa using hlast
    exact absurd hblank (by decide)

end SchemaTypings.Declaration
