import SchemaTypings.Declaration.Lexer

/-!
# The pieces of a text

The lexer cuts a text into pieces: tokens, and what is dropped between them. `pieces` gives them in
order, without offsets and lines, and `tokens_eq_place` says that the tokens are those pieces that
have a kind, each at the place that the pieces before it give it.
-/

namespace SchemaTypings.Declaration

/-- A stretch of text that is read at once: a token of a kind, or something that is dropped. -/
structure Piece where
  kind : Option Kind
  chars : List Char
  deriving DecidableEq, Repr

/-- The pieces of a text. -/
def pieces : List Char → List Piece
  | [] => []
  | c :: rest =>
    let (kind, n) := scan (c :: rest)
    ⟨kind, (c :: rest).take n⟩ :: pieces (rest.drop (n - 1))
  termination_by cs => cs.length
  decreasing_by simp only [List.length_cons, List.length_drop]; omega

/-- The text of some pieces. -/
def textOf (ps : List Piece) : List Char :=
  ps.flatMap Piece.chars

@[simp] theorem textOf_nil : textOf [] = [] := rfl

@[simp] theorem textOf_cons (p : Piece) (ps : List Piece) :
    textOf (p :: ps) = p.chars ++ textOf ps := rfl

@[simp] theorem textOf_append (ps qs : List Piece) : textOf (ps ++ qs) = textOf ps ++ textOf qs :=
  List.flatMap_append

/-- The tokens among pieces that begin at an offset and a line. -/
def place (offset line : Nat) : List Piece → List Token
  | [] => []
  | p :: ps =>
    (p.kind.map fun k => ⟨k, String.ofList p.chars, line, offset⟩).toList ++
      place (offset + p.chars.length) (line + p.chars.count '\n') ps

/-- The pieces after others begin where those end. -/
theorem place_append (offset line : Nat) (ps qs : List Piece) :
    place offset line (ps ++ qs) = place offset line ps ++
      place (offset + (textOf ps).length) (line + (textOf ps).count '\n') qs := by
  induction ps generalizing offset line with
  | nil => simp [place]
  | cons p ps ih => simp [place, ih, Nat.add_assoc]

/-! ## What stands at the front of a text -/

/-- Whether a character opens a string. -/
def isQuote (c : Char) : Bool :=
  c = '"' || c = '\'' || c = '`'

/-- The rest of a block comment: up to the first `*/`. -/
inductive BlockRest : List Char → Prop
  | close : BlockRest ['*', '/']
  | char {c : Char} {y : List Char} (h : c = '*' → y.head? ≠ some '/') (hy : BlockRest y) :
    BlockRest (c :: y)

/-- The rest of a string: up to the first quote that no backslash takes along. -/
inductive StringRest (quote : Char) : List Char → Prop
  | close : StringRest quote [quote]
  | escape {c : Char} {y : List Char} (h : c ≠ '\n') (hy : StringRest quote y) :
    StringRest quote ('\\' :: c :: y)
  | char {c : Char} {y : List Char} (hslash : c ≠ '\\') (hquote : c ≠ quote)
    (hline : c = '\n' → quote = '`') (hy : StringRest quote y) : StringRest quote (c :: y)

/-- What the lexer takes from the front of a text: the stretch `x` of a kind, in front of the rest.
A stretch that has no kind is dropped. -/
inductive Lexes : List Char → Option Kind → List Char → Prop
  | blank {c : Char} {rest : List Char} (h : isSeparator c) : Lexes [c] none rest
  | block {y rest : List Char} (h : BlockRest y) : Lexes ('/' :: '*' :: y) none rest
  /-- A line comment goes up to the end of its line. -/
  | line {y rest : List Char} (h : ∀ c ∈ y, c ≠ '\n') (hrest : ∀ c ∈ rest.head?, c = '\n') :
    Lexes ('/' :: '/' :: y) none rest
  | string {quote : Char} {y rest : List Char} (hquote : isQuote quote)
    (h : StringRest quote y) : Lexes (quote :: y) (some .string) rest
  | number {c : Char} {y rest : List Char} (hc : Text.isDecimalDigit c)
    (hy : ∀ d ∈ y, Text.isDecimalDigit d) (hrest : ∀ d ∈ rest.head?, Text.isDecimalDigit d = false)
    (hpoint : fractionLength rest = 0) : Lexes (c :: y) (some .number) rest
  | fraction {c d : Char} {y z rest : List Char} (hc : Text.isDecimalDigit c)
    (hy : ∀ d ∈ y, Text.isDecimalDigit d) (hd : Text.isDecimalDigit d)
    (hz : ∀ d ∈ z, Text.isDecimalDigit d) (hrest : ∀ d ∈ rest.head?, Text.isDecimalDigit d = false) :
    Lexes (c :: y ++ '.' :: d :: z) (some .number) rest
  | word {c : Char} {y rest : List Char} (hc : isIdentifierStart c)
    (hy : ∀ d ∈ y, isIdentifierPart d) (hrest : ∀ d ∈ rest.head?, isIdentifierPart d = false) :
    Lexes (c :: y) (some (Kind.ofWord (String.ofList (c :: y)))) rest
  | ellipsis {rest : List Char} : Lexes ['.', '.', '.'] (some .ellipsis) rest
  | arrow {rest : List Char} : Lexes ['=', '>'] (some .arrow) rest
  /-- Any other character stands for itself. -/
  | sign {c : Char} {rest : List Char} (hblank : isSeparator c = false)
    (hcomment : commentLength? (c :: rest) = none) (hstring : stringLength? (c :: rest) = none)
    (hdigit : Text.isDecimalDigit c = false) (hstart : isIdentifierStart c = false)
    (hlong : longSign? (c :: rest) = none) : Lexes [c] (some (Kind.ofChar c)) rest

/-- The rest of a block comment is found whatever follows it. -/
theorem BlockRest.blockRest?_eq {y : List Char} (h : BlockRest y) (rest : List Char) :
    blockRest? (y ++ rest) = some y.length := by
  induction h with
  | close => rfl
  | @char c y hc hy ih =>
    rw [List.cons_append, blockRest?, ih]
    · rfl
    · rintro tail rfl hy'
      cases y with
      | nil => cases hy
      | cons d y =>
        obtain ⟨rfl, -⟩ := List.cons.inj hy'
        exact hc rfl rfl

/-- What is found as the rest of a block comment is one. -/
theorem exists_of_blockRest? {cs : List Char} {n : Nat} (h : blockRest? cs = some n) :
    ∃ y rest, cs = y ++ rest ∧ BlockRest y := by
  induction cs using blockRest?.induct generalizing n with
  | case1 => simp [blockRest?] at h
  | case2 rest => exact ⟨['*', '/'], rest, rfl, .close⟩
  | case3 c cs hc ih =>
    rw [blockRest?, Option.map_eq_some_iff] at h
    · obtain ⟨m, hm, -⟩ := h
      obtain ⟨y, rest, rfl, hy⟩ := ih hm
      refine ⟨c :: y, rest, rfl, .char ?_ hy⟩
      rintro rfl hhead
      cases y with
      | nil => cases hy
      | cons d y => exact hc (y ++ rest) rfl (by simpa using hhead)
    · exact hc

/-- The rest of a string is found whatever follows it. -/
theorem StringRest.stringRest?_eq {quote : Char} (hquote : quote ≠ '\\') {y : List Char}
    (h : StringRest quote y) (rest : List Char) :
    stringRest? quote (y ++ rest) = some y.length := by
  induction h with
  | close =>
    rw [List.cons_append, stringRest?]
    · simp
    · exact fun h => absurd h hquote
    · exact fun _ _ h => absurd h hquote
  | @escape c y hc hy ih => simp [stringRest?, hc, ih]
  | @char c y hslash hc hline hy ih =>
    rw [List.cons_append, stringRest?]
    · have hc' : ¬(c = '\n' ∧ quote ≠ '`') := fun h => h.2 (hline h.1)
      simp [hc, hc', ih]
    · exact fun h => absurd h hslash
    · exact fun _ _ h => absurd h hslash

/-- What is found as the rest of a string is one. -/
theorem exists_of_stringRest? {quote : Char} {cs : List Char} {n : Nat}
    (h : stringRest? quote cs = some n) : ∃ y rest, cs = y ++ rest ∧ StringRest quote y := by
  induction cs using stringRest?.induct quote generalizing n with
  | case1 => simp [stringRest?] at h
  | case2 => simp [stringRest?] at h
  | case3 rest => simp [stringRest?] at h
  -- an escaped character
  | case4 c cs hc ih =>
    simp only [stringRest?, hc, if_false, Option.map_eq_some_iff] at h
    obtain ⟨m, hm, -⟩ := h
    obtain ⟨y, rest, rfl, hy⟩ := ih hm
    exact ⟨'\\' :: c :: y, rest, rfl, .escape hc hy⟩
  | case5 cs => exact ⟨[quote], cs, rfl, .close⟩
  | case6 c cs h1 h2 hc hline =>
    rw [stringRest?] at h
    · simp [hc, hline] at h
    · exact h1
    · exact h2
  -- a character that is neither a quote nor a backslash nor a line break
  | case7 c cs h1 h2 hc hline ih =>
    rw [stringRest?] at h
    · rw [if_neg hc, if_neg hline, Option.map_eq_some_iff] at h
      obtain ⟨m, hm, -⟩ := h
      obtain ⟨y, rest, rfl, hy⟩ := ih hm
      refine ⟨c :: y, rest, rfl, .char ?_ hc ?_ hy⟩
      · rintro rfl
        cases hrest : y ++ rest with
        | nil => exact h1 rfl hrest
        | cons d more => exact h2 d more rfl hrest
      · rintro rfl
        simpa using hline
    · exact h1
    · exact h2

/-- The characters up to the first that fails a test. -/
theorem takeWhile_append_of_stop {p : Char → Bool} {y rest : List Char} (hy : ∀ c ∈ y, p c)
    (hrest : ∀ c ∈ rest.head?, p c = false) : (y ++ rest).takeWhile p = y := by
  rw [List.takeWhile_append_of_pos hy]
  cases rest with
  | nil => simp
  | cons c rest => simp [hrest c (by simp)]

/-- A character for which a test gives another answer is another character. -/
theorem ne_of_test {p : Char → Bool} {c d : Char} (hc : p c) (hd : p d = false) : c ≠ d := by
  rintro rfl
  simp [hc] at hd

/-- No blank, slash or quote passes a test that fails for each of them. -/
theorem scan_prefix_of_test {p : Char → Bool}
    (hp : [' ', '\t', '\r', '\n', '/', '"', '\'', '`'].any p = false) {c : Char} (hc : p c)
    (rest : List Char) :
    isSeparator c = false ∧ commentLength? (c :: rest) = none ∧
      stringLength? (c :: rest) = none := by
  have hne : ∀ d ∈ [' ', '\t', '\r', '\n', '/', '"', '\'', '`'], c ≠ d :=
    fun d hd => ne_of_test hc (by simpa using List.any_eq_false.mp hp d hd)
  simp only [List.mem_cons, List.not_mem_nil, or_false, forall_eq_or_imp, forall_eq] at hne
  obtain ⟨h1, h2, h3, h4, h5, h6, h7, h8⟩ := hne
  refine ⟨by simp [isSeparator, *], ?_, by simp [stringLength?, *]⟩
  unfold commentLength?
  split <;> simp_all

/-- A digit begins a number. -/
theorem scan_digit {c : Char} (h : Text.isDecimalDigit c) (rest : List Char) :
    scan (c :: rest) = (some .number, numberLength (c :: rest)) := by
  obtain ⟨hblank, hcomment, hstring⟩ := scan_prefix_of_test (by decide) h rest
  simp [scan, hblank, hcomment, hstring, h]

/-- Of the characters in front of the other digits only the ASCII digits are digits. -/
theorem isDecimalDigit_of_lt {c : Char} (h : c.toNat < 0x660) :
    Text.isDecimalDigit c = (0x30 ≤ c.toNat && c.toNat < 0x3A) := by
  unfold Text.isDecimalDigit Text.digitBounds
  generalize c.toNat = n at *
  by_cases hlow : n < 0x30
  · simp [Text.inStretches_of_lt hlow]
    omega
  · by_cases hhigh : n < 0x3A
    · simp [Text.inStretches, hlow, hhigh, Nat.not_lt.mp hlow]
    · simp [Text.inStretches, h, hlow, hhigh]

/-- What begins an identifier is no digit. -/
theorem isDecimalDigit_of_isIdentifierStart {c : Char} (h : isIdentifierStart c) :
    Text.isDecimalDigit c = false := by
  have hrange : c.toNat < 0x660 ∧ ¬(0x30 ≤ c.toNat ∧ c.toNat < 0x3A) := by
    simp only [isIdentifierStart, Bool.or_eq_true, Bool.and_eq_true, decide_eq_true_eq,
      Char.le_def, UInt32.le_iff_toNat_le] at h
    have htoNat : c.toNat = c.val.toNat := rfl
    obtain (((⟨h1, h2⟩ | ⟨h1, h2⟩) | rfl) | rfl) := h
    · simp at h1 h2; omega
    · simp at h1 h2; omega
    · decide
    · decide
  rw [isDecimalDigit_of_lt hrange.1]
  simpa using hrange.2

/-- A letter, an underscore or a dollar sign begins a word. -/
theorem scan_start {c : Char} (h : isIdentifierStart c) (rest : List Char) :
    scan (c :: rest) =
      (some (Kind.ofWord (String.ofList ((c :: rest).takeWhile isIdentifierPart))),
        ((c :: rest).takeWhile isIdentifierPart).length) := by
  obtain ⟨hblank, hcomment, hstring⟩ := scan_prefix_of_test (by decide) h rest
  have hdigit := isDecimalDigit_of_isIdentifierStart h
  simp [scan, hblank, hcomment, hstring, h, hdigit]

/-- What begins an identifier may stand inside one. -/
theorem isIdentifierPart_of_start {c : Char} (h : isIdentifierStart c) : isIdentifierPart c := by
  simp [isIdentifierPart, h]

/-- A quote begins nothing but a string. -/
theorem scan_quote {c : Char} (h : isQuote c) (rest : List Char) :
    scan (c :: rest) =
      match stringRest? c rest with
      | some n => (some .string, n + 1)
      | none => (some .other, 1) := by
  have hc : c = '"' ∨ c = '\'' ∨ c = '`' := by simpa [isQuote, or_assoc] using h
  obtain rfl | rfl | rfl := hc
  all_goals
    simp only [scan, commentLength?, stringLength?, longSign?]
    cases stringRest? _ rest <;> rfl

/-- The lexer takes each of these stretches. -/
theorem Lexes.scan_eq {x rest : List Char} {kind : Option Kind} (h : Lexes x kind rest) :
    scan (x ++ rest) = (kind, x.length) := by
  cases h with
  | blank h => simp [scan, h]
  | block h => simp [scan, commentLength?, h.blockRest?_eq, isSeparator]
  | @line y _ h hrest =>
    have hy : (y ++ rest).takeWhile (· != '\n') = y :=
      takeWhile_append_of_stop (by simpa using h) (by simpa using hrest)
    simp [scan, commentLength?, hy, isSeparator]
  | @string quote y _ hquote h =>
    rw [List.cons_append, scan_quote hquote, h.stringRest?_eq (ne_of_test hquote (by decide))]
    rfl
  | @number c y _ hc hy hrest hpoint =>
    have hall : ∀ d ∈ c :: y, Text.isDecimalDigit d := by simpa [hc] using hy
    have hlength := takeWhile_append_of_stop hall hrest
    rw [List.cons_append] at *
    rw [scan_digit hc, numberLength, hlength]
    simp [hpoint]
  | @fraction c d y z _ hc hy hd hz hrest =>
    have hall : ∀ d ∈ c :: y, Text.isDecimalDigit d := by simpa [hc] using hy
    have hall' : ∀ e ∈ d :: z, Text.isDecimalDigit e := by simpa [hd] using hz
    -- the first digits end at the point, those behind it where the text goes on
    have hwhole : (c :: y ++ ('.' :: d :: z ++ rest)).takeWhile Text.isDecimalDigit = c :: y :=
      takeWhile_append_of_stop hall (by simp; decide)
    have hpart := takeWhile_append_of_stop hall' hrest
    rw [List.append_assoc, List.cons_append, scan_digit hc, numberLength, ← List.cons_append,
      hwhole]
    rw [List.cons_append] at hpart
    have hfraction : fractionLength ('.' :: d :: (z ++ rest)) = z.length + 2 := by
      rw [fractionLength, hpart]
      rfl
    simp [hfraction]
    omega
  | @word c y _ hc hy hrest =>
    have hall : ∀ d ∈ c :: y, isIdentifierPart d := by
      simpa [isIdentifierPart_of_start hc] using hy
    have hlength := takeWhile_append_of_stop hall hrest
    rw [List.cons_append] at *
    rw [scan_start hc, hlength]
  | ellipsis => rfl
  | arrow => rfl
  | sign hblank hcomment hstring hdigit hstart hlong =>
    simp [scan, hblank, hcomment, hstring, hdigit, hstart, hlong]

/-- The characters up to the first that fails a test, and what follows them. -/
theorem exists_takeWhile (p : Char → Bool) (cs : List Char) :
    ∃ y rest, cs = y ++ rest ∧ (∀ c ∈ y, p c) ∧ ∀ c ∈ rest.head?, p c = false := by
  induction cs with
  | nil => exact ⟨[], [], rfl, by simp, by simp⟩
  | cons c cs ih =>
    by_cases hc : p c
    · obtain ⟨y, rest, rfl, hy, hrest⟩ := ih
      exact ⟨c :: y, rest, rfl, by simpa [hc] using hy, hrest⟩
    · exact ⟨[], c :: cs, rfl, by simp, by simpa using hc⟩

/-- A comment that begins here is taken. -/
theorem exists_lexes_of_comment {cs : List Char} {n : Nat} (h : commentLength? cs = some n) :
    ∃ x kind rest, cs = x ++ rest ∧ Lexes x kind rest := by
  unfold commentLength? at h
  split at h
  · obtain ⟨m, hm, -⟩ := Option.map_eq_some_iff.mp h
    obtain ⟨y, rest, rfl, hy⟩ := exists_of_blockRest? hm
    exact ⟨'/' :: '*' :: y, none, rest, rfl, .block hy⟩
  · rename_i after
    obtain ⟨y, rest, rfl, hy, hrest⟩ := exists_takeWhile (· != '\n') after
    exact ⟨'/' :: '/' :: y, none, rest, rfl, .line (by simpa using hy) (by simpa using hrest)⟩
  · exact absurd h (by simp)

/-- A string that begins here is taken. -/
theorem exists_lexes_of_string {cs : List Char} {n : Nat} (h : stringLength? cs = some n) :
    ∃ x kind rest, cs = x ++ rest ∧ Lexes x kind rest := by
  unfold stringLength? at h
  split at h
  · exact absurd h (by simp)
  · rename_i c after
    split at h
    · rename_i hquote
      obtain ⟨m, hm, -⟩ := Option.map_eq_some_iff.mp h
      obtain ⟨y, rest, rfl, hy⟩ := exists_of_stringRest? hm
      exact ⟨c :: y, _, rest, rfl, .string (by simpa [isQuote, or_assoc] using hquote) hy⟩
    · exact absurd h (by simp)

/-- A number that begins here is taken, with its fraction when it has one. -/
theorem exists_lexes_of_digit {c : Char} (hc : Text.isDecimalDigit c) (cs : List Char) :
    ∃ x kind rest, c :: cs = x ++ rest ∧ Lexes x kind rest := by
  obtain ⟨y, rest, rfl, hy, hrest⟩ := exists_takeWhile Text.isDecimalDigit cs
  by_cases hpoint : fractionLength rest = 0
  · exact ⟨c :: y, _, rest, rfl, .number hc hy hrest hpoint⟩
  · unfold fractionLength at hpoint
    split at hpoint
    · rename_i after
      obtain ⟨z, rest, rfl, hz, hstop⟩ := exists_takeWhile Text.isDecimalDigit after
      rw [takeWhile_append_of_stop hz hstop] at hpoint
      cases z with
      | nil => exact absurd rfl hpoint
      | cons d z =>
        have hd := hz d (by simp)
        have hz' : ∀ e ∈ z, Text.isDecimalDigit e := fun e he => hz e (by simp [he])
        exact ⟨c :: y ++ '.' :: d :: z, _, rest, by simp, .fraction hc hy hd hz' hstop⟩
    · exact absurd rfl hpoint

/-- The lexer takes something from the front of every text that is not empty. -/
theorem exists_lexes (c : Char) (cs : List Char) :
    ∃ x kind rest, c :: cs = x ++ rest ∧ Lexes x kind rest := by
  by_cases hblank : isSeparator c
  · exact ⟨[c], none, cs, rfl, .blank hblank⟩
  cases hcomment : commentLength? (c :: cs) with
  | some n => exact exists_lexes_of_comment hcomment
  | none =>
  cases hstring : stringLength? (c :: cs) with
  | some n => exact exists_lexes_of_string hstring
  | none =>
  by_cases hdigit : Text.isDecimalDigit c
  · exact exists_lexes_of_digit hdigit cs
  by_cases hstart : isIdentifierStart c
  · obtain ⟨y, rest, rfl, hy, hrest⟩ := exists_takeWhile isIdentifierPart cs
    exact ⟨c :: y, _, rest, rfl, .word hstart hy hrest⟩
  cases hlong : longSign? (c :: cs) with
  | some sign =>
    unfold longSign? at hlong
    split at hlong
    · rename_i rest heq
      exact ⟨_, _, rest, heq, .ellipsis⟩
    · rename_i rest heq
      exact ⟨_, _, rest, heq, .arrow⟩
    · exact absurd hlong (by simp)
  | none =>
    exact ⟨[c], _, cs, rfl, .sign (by simpa using hblank) hcomment hstring (by simpa using hdigit)
      (by simpa using hstart) hlong⟩

/-! ## Cutting a text -/

/-- What is taken is not empty. -/
theorem Lexes.ne_nil {x rest : List Char} {kind : Option Kind} (h : Lexes x kind rest) :
    x ≠ [] := by
  cases h <;> simp

/-- What the lexer takes from the front is the first piece. -/
theorem Lexes.pieces_eq {x rest : List Char} {kind : Option Kind} (h : Lexes x kind rest) :
    pieces (x ++ rest) = ⟨kind, x⟩ :: pieces rest := by
  have hscan := h.scan_eq
  cases x with
  | nil => exact absurd rfl h.ne_nil
  | cons c x =>
    rw [List.cons_append] at hscan ⊢
    rw [pieces, hscan]
    simp

@[simp] theorem pieces_nil : pieces [] = [] := by
  rw [pieces]

/-- The pieces of a text are taken one after the other. -/
theorem pieces_induction {motive : List Char → Prop} (nil : motive [])
    (step : ∀ x kind rest, Lexes x kind rest → motive rest → motive (x ++ rest)) (cs : List Char) :
    motive cs := by
  induction hn : cs.length using Nat.strongRecOn generalizing cs with
  | ind n ih =>
    cases cs with
    | nil => exact nil
    | cons c cs =>
      obtain ⟨x, kind, rest, heq, h⟩ := exists_lexes c cs
      have hx := List.length_pos_iff.mpr h.ne_nil
      have hlength : (c :: cs).length = x.length + rest.length := by rw [heq, List.length_append]
      rw [heq]
      exact step x kind rest h (ih rest.length (by omega) rest rfl)

/-- The pieces make up the text. -/
@[simp] theorem textOf_pieces (cs : List Char) : textOf (pieces cs) = cs := by
  induction cs using pieces_induction with
  | nil => simp
  | step x kind rest h ih => rw [h.pieces_eq, textOf_cons, ih]

/-- The tokens that begin behind some characters are placed behind them. -/
theorem tokensFrom_eq_place (pending offset line : Nat) (cs : List Char) :
    tokensFrom pending offset line cs =
      place (offset + (cs.take pending).length) (line + (cs.take pending).count '\n')
        (pieces (cs.drop pending)) := by
  induction cs generalizing pending offset line with
  | nil => simp [tokensFrom, place]
  | cons c cs ih =>
    -- a line feed counts, whether a token begins with it or goes on over it
    obtain ⟨k, hline, hcount⟩ : ∃ k, (if c = '\n' then line + 1 else line) = line + k ∧
        ∀ l : List Char, (c :: l).count '\n' = k + l.count '\n' := by
      by_cases h : c = '\n'
      · exact ⟨1, by simp [h], fun l => by simp [h, Nat.add_comm]⟩
      · exact ⟨0, by simp [h], fun l => by simp [h]⟩
    cases pending with
    | succ pending =>
      rw [tokensFrom, ih, hline, List.take_succ_cons, List.drop_succ_cons, hcount]
      simp only [List.length_cons, Nat.add_assoc, Nat.add_comm 1]
    | zero =>
      obtain ⟨x, kind, rest, heq, h⟩ := exists_lexes c cs
      have hscan := h.scan_eq
      rw [← heq] at hscan
      obtain _ | ⟨d, x⟩ := x
      · exact absurd rfl h.ne_nil
      rw [List.cons_append, List.cons.injEq] at heq
      obtain ⟨rfl, rfl⟩ := heq
      have hrest := ih x.length (offset + 1) (line + k)
      rw [List.take_left, List.drop_left] at hrest
      rw [List.drop_zero, ← List.cons_append, h.pieces_eq, List.cons_append]
      cases kind <;>
        simp [tokensFrom, hscan, hline, hrest, hcount, place, Nat.add_assoc, Nat.add_comm 1]

/-- The tokens of a text are its pieces that have a kind, each at its place. -/
theorem tokens_eq_place (text : String) : tokens text = place 0 1 (pieces text.toList) := by
  simp [tokens, tokensFrom_eq_place]

/-- Every piece of a text was taken in front of the rest of it. -/
theorem exists_lexes_of_mem_pieces {p : Piece} {cs : List Char} (h : p ∈ pieces cs) :
    ∃ rest, Lexes p.chars p.kind rest := by
  induction cs using pieces_induction with
  | nil => simp at h
  | step x kind rest hx ih =>
    rw [hx.pieces_eq, List.mem_cons] at h
    obtain rfl | h := h
    · exact ⟨rest, hx⟩
    · exact ih h

/-- A token that is placed is a piece. -/
theorem exists_mem_of_mem_place {t : Token} {offset line : Nat} {ps : List Piece}
    (h : t ∈ place offset line ps) :
    ∃ p ∈ ps, p.kind = some t.kind ∧ t.text = String.ofList p.chars := by
  induction ps generalizing offset line with
  | nil => simp [place] at h
  | cons p ps ih =>
    rw [place, List.mem_append] at h
    obtain h | h := h
    · rw [Option.mem_toList, Option.map_eq_some_iff] at h
      obtain ⟨k, hk, rfl⟩ := h
      exact ⟨p, by simp, hk, rfl⟩
    · obtain ⟨q, hq, hkind, htext⟩ := ih h
      exact ⟨q, by simp [hq], hkind, htext⟩

/-- Every token of a text was taken in front of the rest of it. -/
theorem exists_lexes_of_mem_tokens {t : Token} {text : String} (h : t ∈ tokens text) :
    ∃ rest, Lexes t.text.toList (some t.kind) rest := by
  rw [tokens_eq_place] at h
  obtain ⟨p, hp, hkind, htext⟩ := exists_mem_of_mem_place h
  obtain ⟨rest, hrest⟩ := exists_lexes_of_mem_pieces hp
  rw [htext, String.toList_ofList, ← hkind]
  exact ⟨rest, hrest⟩

/-- The rest of a string ends in its quote. -/
theorem StringRest.getLast? {quote : Char} {y : List Char} (h : StringRest quote y) :
    y.getLast? = some quote := by
  induction h with
  | close => rfl
  | @escape c y hc hy ih => cases y <;> simp_all [List.getLast?_cons_cons]
  | @char c y hslash hquote hline hy ih => cases y <;> simp_all [List.getLast?_cons_cons]

/-- A text on one line without quotes and backslashes ends in the quote behind it. -/
theorem stringRest_concat {cs : List Char} (h : ∀ c ∈ cs, c ≠ '"' ∧ c ≠ '\\' ∧ c ≠ '\n') :
    StringRest '"' (cs ++ ['"']) := by
  induction cs with
  | nil => exact .close
  | cons c cs ih =>
    obtain ⟨hquote, hslash, hline⟩ := h c (by simp)
    exact .char hslash hquote (fun heq => absurd heq hline) (ih fun d hd => h d (by simp [hd]))

/-- A quote inside a string has a backslash in front of it. -/
theorem StringRest.getLast?_of_quote {quote : Char} (hquote : quote ≠ '\\') {x y z : List Char}
    (h : StringRest quote x) (hx : x = y ++ quote :: z) (hz : z ≠ []) :
    y.getLast? = some '\\' := by
  induction h generalizing y with
  | close =>
    cases y with
    | nil => exact absurd (List.cons.inj hx).2.symm hz
    | cons c y => simp at hx
  | @escape c x hc _ ih =>
    cases y with
    | nil => exact absurd (List.cons.inj hx).1.symm hquote
    | cons d y =>
      obtain ⟨rfl, hx⟩ := List.cons.inj hx
      cases y with
      | nil => rfl
      | cons e y =>
        have hlast := ih (List.cons.inj (List.cons.inj hx).2).2
        rw [List.getLast?_cons_cons, List.getLast?_cons, hlast]
        rfl
  | @char c x hslash hc hline _ ih =>
    cases y with
    | nil => exact absurd (List.cons.inj hx).1 hc
    | cons d y =>
      have hlast := ih (List.cons.inj hx).2
      rw [List.getLast?_cons, hlast]
      rfl

end SchemaTypings.Declaration
