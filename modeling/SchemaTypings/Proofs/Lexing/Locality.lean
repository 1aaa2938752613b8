import SchemaTypings.Proofs.Lexing.Pieces

/-!
# What a piece depends on

Except for a character without a meaning, which may be a quote that opens nothing, a piece depends
on little of what follows it: a token on at most two characters, and of those only on the ones that
could go on a token, `isLoud`. So pieces stay the same when the text behind them changes. `Cut`
says that the lexer cuts some pieces off the front of a text; `Cut.of_quiet` and `Cut.of_colon` are
the two cases that arise where a type is replaced: the text behind the type, and the type itself.
-/

namespace SchemaTypings.Declaration

/-- Whether a character may go on a token that stands in front of it. -/
def isLoud (c : Char) : Bool :=
  isIdentifierPart c || Text.isDecimalDigit c || c = '.' || c = '>'

/-- A text that goes on no token in front of it. -/
def Quiet (cs : List Char) : Prop :=
  ∀ c ∈ cs.head?, isLoud c = false

/-- What goes on a token at the front of the second text does so at the front of the first. -/
structure Like (r r' : List Char) : Prop where
  first : ∀ c ∈ r'.head?, isLoud c → r.head? = some c
  second : r'.head? = some '.' → ∀ c ∈ r'.tail.head?, isLoud c → r.tail.head? = some c

theorem isLoud_of_isIdentifierPart {c : Char} (h : isIdentifierPart c) : isLoud c := by
  simp [isLoud, h]

theorem isLoud_of_isDecimalDigit {c : Char} (h : Text.isDecimalDigit c) : isLoud c := by
  simp [isLoud, h]

/-- A quiet text is like any other. -/
theorem Quiet.like {r' : List Char} (h : Quiet r') (r : List Char) : Like r r' where
  first c hc hloud := by simp [h c hc] at hloud
  second hdot := by
    have := h '.' hdot
    exact absurd this (by decide)

/-- Two texts with the same beginning are alike; a point at its end looks one character further. -/
theorem like_append {z : List Char} (hz : z ≠ []) {r r' : List Char}
    (h : z.getLast? = some '.' → ∀ c ∈ r'.head?, isLoud c → r.head? = some c) :
    Like (z ++ r) (z ++ r') := by
  obtain _ | ⟨c, z⟩ := z
  · exact absurd rfl hz
  refine ⟨fun d hd _ => hd, fun hdot d hd hloud => ?_⟩
  obtain rfl : c = '.' := by simpa using hdot
  cases z with
  | nil => exact h rfl d hd hloud
  | cons e z => exact hd

/-- A fraction begins with a point and a digit. -/
theorem fractionLength_eq_zero_iff (cs : List Char) :
    fractionLength cs = 0 ↔
      (cs.head? = some '.' → ∀ d ∈ cs.tail.head?, Text.isDecimalDigit d = false) := by
  unfold fractionLength
  split
  · rename_i rest
    cases rest with
    | nil => simp
    | cons d rest => by_cases hd : Text.isDecimalDigit d <;> simp [hd]
  · rename_i hne
    cases cs with
    | nil => simp
    | cons c cs =>
      have hc : c ≠ '.' := fun h => hne cs (by rw [h])
      simp [hc]

section Like

variable {r r' : List Char} (hr : Like r r')

include hr

/-- In front of a text like one without a loud character of some sort there is none either. -/
theorem Like.first_eq_false {f : Char → Bool} (hf : ∀ {d}, f d → isLoud d)
    (h : ∀ d ∈ r.head?, f d = false) : ∀ d ∈ r'.head?, f d = false := by
  refine fun d hd => Bool.eq_false_iff.mpr fun hd' => ?_
  have hsame := hr.first d hd (hf hd')
  simp [h d hsame] at hd'

/-- No fraction follows in front of a text like one that none follows in front of. -/
theorem Like.fractionLength_eq_zero (h : fractionLength r = 0) : fractionLength r' = 0 := by
  rw [fractionLength_eq_zero_iff] at h ⊢
  refine fun hdot d hd => Bool.eq_false_iff.mpr fun hd' => ?_
  have hsame := hr.second hdot d hd (isLoud_of_isDecimalDigit hd')
  simp [h (hr.first '.' hdot (by decide)) d hsame] at hd'

/-- The characters that make a longer sign of one are loud. -/
theorem Like.longSign?_eq_none {c : Char} (h : longSign? (c :: r) = none) :
    longSign? (c :: r') = none := by
  unfold longSign?
  split
  · rename_i rest heq
    obtain ⟨rfl, rfl⟩ := List.cons.inj heq
    have h1 := hr.first '.' rfl (by decide)
    have h2 := hr.second rfl '.' rfl (by decide)
    obtain _ | ⟨d, _ | ⟨e, r⟩⟩ := r <;> simp_all [longSign?]
  · rename_i rest heq
    obtain ⟨rfl, rfl⟩ := List.cons.inj heq
    have h1 := hr.first '>' rfl (by decide)
    obtain _ | ⟨d, r⟩ := r <;> simp_all [longSign?]
  · rfl

end Like

/-- A token stays one in front of a text that is like the one behind it. -/
theorem Lexes.of_like {x r r' : List Char} {k : Kind} (h : Lexes x (some k) r) (hk : k ≠ .other)
    (hr : Like r r') : Lexes x (some k) r' := by
  cases h with
  | string hquote h => exact .string hquote h
  | number hc hy hrest hpoint =>
    exact .number hc hy (hr.first_eq_false isLoud_of_isDecimalDigit hrest)
      (hr.fractionLength_eq_zero hpoint)
  | fraction hc hy hd hz hrest =>
    exact .fraction hc hy hd hz (hr.first_eq_false isLoud_of_isDecimalDigit hrest)
  | word hc hy hrest => exact .word hc hy (hr.first_eq_false isLoud_of_isIdentifierPart hrest)
  | ellipsis => exact .ellipsis
  | arrow => exact .arrow
  | @sign c _ hblank hcomment hstring hdigit hstart hlong =>
    -- a slash or a quote by itself has no meaning
    have hslash : c ≠ '/' := by
      rintro rfl
      exact hk rfl
    have hquote : isQuote c = false := by
      refine Bool.eq_false_iff.mpr fun hquote => ?_
      have hc : c = '"' ∨ c = '\'' ∨ c = '`' := by simpa [isQuote, or_assoc] using hquote
      obtain rfl | rfl | rfl := hc <;> exact hk rfl
    refine .sign hblank ?_ ?_ hdigit hstart (hr.longSign?_eq_none hlong)
    · unfold commentLength?
      split <;> simp_all
    · exact if_neg (Bool.eq_false_iff.mp hquote)

/-- What is dropped is dropped in front of another text; a line comment has to end there as well. -/
theorem Lexes.of_dropped {x r r' : List Char} (h : Lexes x none r)
    (hline : x.take 2 = ['/', '/'] → r'.head? = r.head?) : Lexes x none r' := by
  cases h with
  | blank h => exact .blank h
  | block h => exact .block h
  | line h hrest => exact .line h (by rw [hline rfl]; exact hrest)

/-- What is dropped begins with a blank or a slash. -/
theorem Lexes.quiet_of_dropped {x r : List Char} (h : Lexes x none r) (more : List Char) :
    Quiet (x ++ more) := by
  cases h with
  | @blank c _ h =>
    intro d hd
    obtain rfl : c = d := by simpa using hd
    have hc : c = ' ' ∨ c = '\t' ∨ c = '\r' ∨ c = '\n' := by simpa [isSeparator, or_assoc] using h
    obtain rfl | rfl | rfl | rfl := hc <;> decide
  | block h =>
    intro d hd
    obtain rfl : '/' = d := by simpa using hd
    decide
  | line h hrest =>
    intro d hd
    obtain rfl : '/' = d := by simpa using hd
    decide

/-- A word is an identifier or one of the words that open declarations. -/
theorem ofWord_mem (word : String) :
    Kind.ofWord word ∈ [.identifier, .exportWord, .interfaceWord, .typeWord, .declareWord,
      .moduleWord, .importWord, .extendsWord] := by
  unfold Kind.ofWord
  cases h : Kind.words.lookup word with
  | none => decide
  | some k =>
    obtain ⟨before, after, hwords, -⟩ := List.lookup_eq_some_iff.mp h
    have hmem : (word, k) ∈ Kind.words := by simp [hwords]
    have hkinds : ∀ w ∈ Kind.words, w.2 ∈ [.identifier, .exportWord, .interfaceWord, .typeWord,
      .declareWord, .moduleWord, .importWord, .extendsWord] := by decide
    exact hkinds _ hmem

/-- A sign that ends something is one character. -/
theorem Lexes.eq_sign {x r : List Char} {k : Kind} (h : Lexes x (some k) r)
    (hk : k ∈ [.colon, .semicolon, .comma, .rightBrace]) :
    ∃ c ∈ [':', ';', ',', '\x7d'], x = [c] ∧ Kind.ofChar c = k := by
  generalize hkind : some k = kind at h
  cases h with
  | @sign c =>
    obtain rfl := Option.some.inj hkind
    refine ⟨c, ?_, rfl, rfl⟩
    unfold Kind.ofChar at hk
    split at hk <;> simp at hk ⊢
  | @word c y =>
    obtain rfl := Option.some.inj hkind
    have := ofWord_mem (String.ofList (c :: y))
    grind
  | _ => simp_all

/-- A comment that begins in a text begins in a longer one. -/
theorem commentLength?_append {cs : List Char} (h : (commentLength? cs).isSome)
    (more : List Char) : (commentLength? (cs ++ more)).isSome := by
  obtain ⟨n, hn⟩ := Option.isSome_iff_exists.mp h
  unfold commentLength? at hn
  split at hn
  · obtain ⟨m, hm, -⟩ := Option.map_eq_some_iff.mp hn
    obtain ⟨y, rest, rfl, hy⟩ := exists_of_blockRest? hm
    simp [commentLength?, hy.blockRest?_eq]
  · simp [commentLength?]
  · exact absurd hn (by simp)

/-- A string that begins in a text begins in a longer one. -/
theorem stringLength?_append {cs : List Char} (h : (stringLength? cs).isSome)
    (more : List Char) : (stringLength? (cs ++ more)).isSome := by
  obtain ⟨n, hn⟩ := Option.isSome_iff_exists.mp h
  unfold stringLength? at hn
  split at hn
  · exact absurd hn (by simp)
  · rename_i c rest
    split at hn
    · rename_i hquote
      obtain ⟨m, hm, -⟩ := Option.map_eq_some_iff.mp hn
      obtain ⟨y, rest, rfl, hy⟩ := exists_of_stringRest? hm
      have hc : isQuote c := hquote
      have hslash : c ≠ '\\' := ne_of_test hc (by decide)
      have hmore : stringRest? c (y ++ rest ++ more) = some y.length := by
        rw [List.append_assoc, hy.stringRest?_eq hslash]
      rw [List.cons_append, stringLength?, if_pos hquote, hmore]
      rfl
    · exact absurd hn (by simp)

/-- A sign of several characters that begins in a text begins in a longer one. -/
theorem longSign?_append {cs : List Char} (h : (longSign? cs).isSome) (more : List Char) :
    (longSign? (cs ++ more)).isSome := by
  unfold longSign? at h
  split at h
  · rfl
  · rfl
  · exact absurd h (by simp)

/-- The beginning of a text is like the whole text. -/
theorem like_append_left (z more : List Char) : Like (z ++ more) z := by
  obtain _ | ⟨c, _ | ⟨d, z⟩⟩ := z
  · exact ⟨by simp, by simp⟩
  · exact ⟨by simp, by simp⟩
  · exact ⟨by simp, by simp⟩

/-- A piece is the same when the text is cut off somewhere behind it. -/
theorem Lexes.of_append {x z more : List Char} {kind : Option Kind}
    (h : Lexes x kind (z ++ more)) : Lexes x kind z := by
  -- what is not found in the longer text is not found in the shorter one
  have hhead {p : Char → Prop} (hp : ∀ c ∈ (z ++ more).head?, p c) : ∀ c ∈ z.head?, p c := by
    cases z with
    | nil => simp
    | cons c z => exact hp
  have hnone {α : Type} {f : List Char → Option α} (c : Char)
      (hf : ∀ {cs}, (f cs).isSome → ∀ more, (f (cs ++ more)).isSome)
      (h : f (c :: (z ++ more)) = none) : f (c :: z) = none := by
    cases hz : f (c :: z) with
    | none => rfl
    | some a =>
      have := hf (by rw [hz]; rfl) more
      rw [List.cons_append, h] at this
      simp at this
  cases h with
  | blank h => exact .blank h
  | block h => exact .block h
  | line h hrest => exact .line h (hhead hrest)
  | string hquote h => exact .string hquote h
  | number hc hy hrest hpoint =>
    exact (Lexes.number hc hy hrest hpoint).of_like (by decide) (like_append_left z more)
  | fraction hc hy hd hz hrest => exact .fraction hc hy hd hz (hhead hrest)
  | word hc hy hrest => exact .word hc hy (hhead hrest)
  | ellipsis => exact .ellipsis
  | arrow => exact .arrow
  | @sign c _ hblank hcomment hstring hdigit hstart hlong =>
    exact .sign hblank (hnone c commentLength?_append hcomment)
      (hnone c stringLength?_append hstring) hdigit hstart (hnone c longSign?_append hlong)

/-! ## Cutting pieces off a text -/

/-- The lexer cuts the pieces off their text, in front of the rest. -/
def Cut : List Piece → List Char → Prop
  | [], _ => True
  | p :: ps, rest => Lexes p.chars p.kind (textOf ps ++ rest) ∧ Cut ps rest

/-- Pieces that are cut off are the first pieces. -/
theorem Cut.pieces_eq {ps : List Piece} {rest : List Char} (h : Cut ps rest) :
    pieces (textOf ps ++ rest) = ps ++ pieces rest := by
  induction ps with
  | nil => rfl
  | cons p ps ih => rw [textOf_cons, List.append_assoc, h.1.pieces_eq, ih h.2, List.cons_append]

/-- Pieces are cut off one after the other. -/
theorem Cut.append {ps qs : List Piece} {rest : List Char} (h : Cut ps (textOf qs ++ rest))
    (h' : Cut qs rest) : Cut (ps ++ qs) rest := by
  induction ps with
  | nil => exact h'
  | cons p ps ih =>
    have hp : Lexes p.chars p.kind (textOf (ps ++ qs) ++ rest) := by
      rw [textOf_append, List.append_assoc]
      exact h.1
    exact ⟨hp, ih h.2⟩

/-- Pieces stay cut off when the text ends somewhere behind them. -/
theorem Cut.of_append {ps : List Piece} {z more : List Char} (h : Cut ps (z ++ more)) :
    Cut ps z := by
  induction ps with
  | nil => trivial
  | cons p ps ih =>
    obtain ⟨hp, hps⟩ := h
    rw [← List.append_assoc] at hp
    exact ⟨hp.of_append, ih hps⟩

/-- The first pieces of a text are cut off in front of the others. -/
theorem cut_of_pieces {ps qs : List Piece} {cs : List Char} (h : pieces cs = ps ++ qs) :
    Cut ps (textOf qs) := by
  induction ps generalizing cs with
  | nil => trivial
  | cons p ps ih =>
    cases cs with
    | nil => simp at h
    | cons c cs =>
      obtain ⟨x, kind, rest, heq, hx⟩ := exists_lexes c cs
      rw [heq, hx.pieces_eq, List.cons_append, List.cons.injEq] at h
      obtain ⟨rfl, hrest⟩ := h
      have htext : textOf ps ++ textOf qs = rest := by
        rw [← textOf_append, ← hrest, textOf_pieces]
      exact ⟨htext ▸ hx, ih hrest⟩

/-- The pieces behind others are the pieces of their text. -/
theorem pieces_textOf_of_pieces {ps qs : List Piece} {cs : List Char} (h : pieces cs = ps ++ qs) :
    pieces (textOf qs) = qs := by
  have hcs : cs = textOf ps ++ textOf qs := by rw [← textOf_append, ← h, textOf_pieces]
  rw [hcs, (cut_of_pieces h).pieces_eq] at h
  exact List.append_cancel_left h

/-- Pieces stay cut off when the rest changes, if the last of them and a point at their end do not
mind. -/
theorem Cut.of_like {ps : List Piece} {r r' : List Char} (h : Cut ps r)
    (hother : ∀ p ∈ ps, p.kind ≠ some .other)
    (hlast : ∀ p ∈ ps.getLast?, Lexes p.chars p.kind r → Lexes p.chars p.kind r')
    (hdot : (textOf ps).getLast? = some '.' → ∀ c ∈ r'.head?, isLoud c → r.head? = some c) :
    Cut ps r' := by
  induction ps with
  | nil => trivial
  | cons p ps ih =>
    obtain ⟨hp, hps⟩ := h
    cases ps with
    | nil => exact ⟨hlast p rfl hp, trivial⟩
    | cons q ps =>
      have hne : textOf (q :: ps) ≠ [] := by
        rw [textOf_cons]
        exact List.append_ne_nil_of_left_ne_nil hps.1.ne_nil _
      have hdot' : (textOf (q :: ps)).getLast? = some '.' →
          ∀ c ∈ r'.head?, isLoud c → r.head? = some c := fun h =>
        hdot (by rw [textOf_cons, List.getLast?_append, h]; rfl)
      have hrest := ih hps (fun p hp => hother p (by simp [hp])) (by simpa using hlast) hdot'
      refine ⟨?_, hrest⟩
      -- what stands behind this piece begins with the next one
      have hlike := like_append hne hdot'
      cases hkind : p.kind with
      | none =>
        rw [hkind] at hp
        refine hp.of_dropped fun _ => ?_
        obtain ⟨c, z, hz⟩ := List.exists_cons_of_ne_nil hne
        rw [hz]
        rfl
      | some k =>
        rw [hkind] at hp
        exact hp.of_like (fun hk => hother p (by simp) (by rw [hkind, hk])) hlike

/-- Behind a token pieces stay cut off in front of any quiet text. -/
theorem Cut.of_quiet {ps : List Piece} {r r' : List Char} (h : Cut ps r)
    (hother : ∀ p ∈ ps, p.kind ≠ some .other) (hlast : ∀ p ∈ ps.getLast?, p.kind ≠ none)
    (hquiet : Quiet r') : Cut ps r' := by
  refine h.of_like hother (fun p hp hlex => ?_) fun _ c hc hloud => ?_
  · obtain ⟨k, hk⟩ := Option.ne_none_iff_exists'.mp (hlast p hp)
    rw [hk] at hlex ⊢
    have hmem := hother p (List.mem_of_getLast? hp)
    exact hlex.of_like (fun h => hmem (by rw [hk, h])) (hquiet.like r)
  · simp [hquiet c hc] at hloud

/-- The last of some pieces is cut off right in front of the rest. -/
theorem Cut.last {ps : List Piece} {rest : List Char} (h : Cut ps rest) {p : Piece}
    (hp : p ∈ ps.getLast?) :
    Lexes p.chars p.kind rest ∧ (textOf ps).getLast? = p.chars.getLast? := by
  obtain ⟨before, rfl⟩ := List.getLast?_eq_some_iff.mp hp
  have hlex : Lexes p.chars p.kind rest := by
    induction before with
    | nil => simpa [Cut] using h
    | cons q before ih => exact ih h.2 (by simp)
  refine ⟨hlex, ?_⟩
  obtain ⟨c, hc⟩ := Option.ne_none_iff_exists'.mp (mt List.getLast?_eq_none_iff.mp hlex.ne_nil)
  simp [List.getLast?_append, hc]

/-- The rest of a block comment ends in a slash. -/
theorem BlockRest.getLast? {y : List Char} (h : BlockRest y) : y.getLast? = some '/' := by
  induction h with
  | close => rfl
  | @char c y hc hy ih => cases y <;> simp_all [List.getLast?_cons_cons]

/-- These signs are tokens whatever follows them. -/
theorem lexes_sign {c : Char}
    (h : c ∈ ['\x7b', '\x7d', '(', ')', '[', ']', '<', '>', ':', ';', ',', '?', '|', '&'])
    (rest : List Char) : Lexes [c] (some (Kind.ofChar c)) rest := by
  simp only [List.mem_cons, List.not_mem_nil, or_false] at h
  obtain rfl | rfl | rfl | rfl | rfl | rfl | rfl | rfl | rfl | rfl | rfl | rfl | rfl | rfl := h
  all_goals exact .sign (by decide) rfl rfl (by decide) (by decide) rfl

/-- What is dropped in front of a text that begins with no line feed does not depend on it, and does
not end in a point. -/
theorem Lexes.of_dropped_closed {x r : List Char} (h : Lexes x none r)
    (hr : ∃ c ∈ r.head?, c ≠ '\n') (r' : List Char) :
    Lexes x none r' ∧ x.getLast? ≠ some '.' := by
  cases h with
  | @blank c _ h =>
    refine ⟨.blank h, ?_⟩
    have hc : c ≠ '.' := ne_of_test h (by decide)
    simpa using hc
  | @block y _ h =>
    have hlast := h.getLast?
    refine ⟨.block h, ?_⟩
    cases y <;> simp_all [List.getLast?_cons_cons]
  | line h hrest =>
    obtain ⟨c, hc, hne⟩ := hr
    exact absurd (hrest c hc) hne

/-- Behind a colon, and what may be dropped behind that, pieces stay cut off in front of any
text. -/
theorem Cut.of_colon {ps : List Piece} {r r' : List Char} (h : Cut ps r)
    (hother : ∀ p ∈ ps, p.kind ≠ some .other)
    (hlast : ∀ p ∈ ps.getLast?, p.kind = none ∨ p.kind = some .colon)
    (hr : ∃ c ∈ r.head?, c ≠ '\n') : Cut ps r' := by
  -- the last piece looks at nothing behind it
  have hclosed : ∀ p ∈ ps.getLast?, Lexes p.chars p.kind r' ∧ p.chars.getLast? ≠ some '.' := by
    intro p hp
    have hlex := (h.last hp).1
    obtain hkind | hkind := hlast p hp
    · rw [hkind] at hlex ⊢
      exact hlex.of_dropped_closed hr r'
    · rw [hkind] at hlex ⊢
      have hsign : p.chars = [':'] := by
        obtain ⟨c, hc, hchars, hcolon⟩ := hlex.eq_sign (by decide)
        simp only [List.mem_cons, List.not_mem_nil, or_false] at hc
        obtain rfl | rfl | rfl | rfl := hc
        · exact hchars
        all_goals exact absurd hcolon (by decide)
      rw [hsign]
      exact ⟨lexes_sign (by decide) r', by decide⟩
  refine h.of_like hother (fun p hp _ => (hclosed p hp).1) fun hdot => ?_
  cases hp : ps.getLast? with
  | none =>
    rw [List.getLast?_eq_none_iff.mp hp] at hdot
    simp at hdot
  | some p => exact absurd ((h.last hp).2 ▸ hdot) (hclosed p hp).2

/-- A text is quiet when the first of its tokens ends a type. -/
theorem quiet_of_pieces {ps : List Piece} {cs : List Char} (h : pieces cs = ps)
    (hfirst : ∀ k ∈ (ps.filterMap Piece.kind).head?, k ∈ [.semicolon, .comma, .rightBrace]) :
    Quiet cs := by
  cases cs with
  | nil => simp [Quiet]
  | cons c cs =>
    obtain ⟨x, kind, rest, heq, hx⟩ := exists_lexes c cs
    rw [heq] at h ⊢
    rw [hx.pieces_eq] at h
    cases kind with
    | none => exact hx.quiet_of_dropped rest
    | some k =>
      have hk : k ∈ [.semicolon, .comma, .rightBrace] := hfirst k (by simp [← h])
      obtain ⟨c, hc, rfl, -⟩ := hx.eq_sign (List.mem_cons_of_mem _ hk)
      intro d hd
      obtain rfl : c = d := by simpa using hd
      simp only [List.mem_cons, List.not_mem_nil, or_false] at hc
      obtain rfl | rfl | rfl | rfl := hc <;> decide

end SchemaTypings.Declaration
