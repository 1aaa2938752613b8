import SchemaTypings.Declaration.Grammar
import SchemaTypings.Proofs.Lexing.Padding

/-!
# Texts that are spelled alike everywhere

The tokens of a written text do not depend on where it stands, as long as it does not make one word
with what follows it. `Spells` says so of a text and of its tokens, each of which has a meaning and
stands on one line; `Spells.append` puts two such texts side by side.
-/

namespace SchemaTypings.Declaration

/-! ## Deciding over a text -/

-- ahead of the instances that go through every character there is, in a text or not
instance (priority := high) decidableForallMemText (p : Char → Prop) [DecidablePred p]
    (x : List Char) : Decidable (∀ c ∈ x, p c) :=
  List.decidableBAll p x

instance (priority := high) decidableForallMemOption (p : Char → Prop) [DecidablePred p]
    (x : Option Char) : Decidable (∀ c ∈ x, p c) :=
  Option.decidableForallMem x

instance (priority := high) decidableExistsMemOption (p : Char → Prop) [DecidablePred p]
    (x : Option Char) : Decidable (∃ c ∈ x, p c) :=
  Option.decidableExistsMem x

/-- What holds of the characters that a text is made of holds of the text. A literal is made of its
characters as it stands, and is not decoded. -/
theorem forall_mem_ofList {p : Char → Prop} {x : List Char} (h : ∀ c ∈ x, p c) :
    ∀ c ∈ (String.ofList x).toList, p c := by
  rwa [String.toList_ofList]

/-! ## Spelled texts -/

/-- Two texts that make no word together when one stands in front of the other. -/
def Parted (x y : List Char) : Prop :=
  ∀ c ∈ x.getLast?, isIdentifierPart c → ∀ d ∈ y.head?, isIdentifierPart d = false

/-- A text that is cut into the same flat pieces wherever it stands, in front of anything that it
makes no word with. At each offset its tokens satisfy `T`. -/
def Spells (x : List Char) (T : Nat → List Token → Prop) : Prop :=
  ∃ ps, textOf ps = x ∧ (∀ p ∈ ps, p.IsFlat) ∧ (∀ rest, Parted x rest → Cut ps rest) ∧
    ∀ offset line, T offset (place offset line ps)

/-- The tokens of two texts side by side, of which the first has `n` characters. -/
def Joined (n : Nat) (T U : Nat → List Token → Prop) (offset : Nat) (ts : List Token) : Prop :=
  ∃ us vs, ts = us ++ vs ∧ T offset us ∧ U (offset + n) vs

/-- One token of a kind, which is the whole text. -/
def Single (k : Kind) (x : List Char) (offset : Nat) (ts : List Token) : Prop :=
  ∃ l : Leaf [k], ts = [l.token] ∧ l.token.text = String.ofList x ∧ l.token.offset = offset

/-- A token that is a whole text ends with it. -/
theorem stop_of_text {t : Token} {x : List Char} (h : t.text = String.ofList x) :
    t.stop = t.offset + x.length := by
  simp [Token.stop, h]

/-- No token at all. -/
def Silent (_ : Nat) (ts : List Token) : Prop :=
  ts = []

variable {x y : List Char} {T U : Nat → List Token → Prop}

/-! ## Side by side -/

/-- What ends in no word is parted from anything. -/
theorem parted_of_last (h : ∀ c ∈ x.getLast?, isIdentifierPart c = false) (y : List Char) :
    Parted x y := by
  intro c hc hpart
  simp [h c hc] at hpart

/-- Anything is parted from what begins with no word. -/
theorem parted_of_head (x : List Char) (h : ∀ d ∈ y.head?, isIdentifierPart d = false) :
    Parted x y :=
  fun _ _ _ => h

theorem parted_cons {c : Char} (h : isIdentifierPart c = false) (x y : List Char) :
    Parted x (c :: y) :=
  parted_of_head x (by simpa using h)

theorem parted_concat {c : Char} (h : isIdentifierPart c = false) (x y : List Char) :
    Parted (x ++ [c]) y :=
  parted_of_last (by simpa using h) y

/-- Whether two texts are parted does not depend on what stands around them. -/
theorem parted_append {x y rest : List Char} (h : Parted x y) (hrest : Parted (x ++ y) rest) :
    Parted x (y ++ rest) ∧ Parted y rest := by
  cases y with
  | nil => exact ⟨by simpa using hrest, fun c hc => by simp at hc⟩
  | cons d y =>
    refine ⟨fun c hc hpart e he => h c hc hpart e (by simpa using he), fun c hc => ?_⟩
    exact hrest c (by rw [List.getLast?_append, hc]; rfl)

theorem Spells.imp (h : Spells x T) (hT : ∀ offset ts, T offset ts → U offset ts) :
    Spells x U := by
  obtain ⟨ps, htext, hflat, hcut, htokens⟩ := h
  exact ⟨ps, htext, hflat, hcut, fun offset line => hT _ _ (htokens offset line)⟩

theorem Spells.append (h : Spells x T) (h' : Spells y U) (hparted : Parted x y) :
    Spells (x ++ y) (Joined x.length T U) := by
  obtain ⟨ps, rfl, hflat, hcut, htokens⟩ := h
  obtain ⟨qs, rfl, hflat', hcut', htokens'⟩ := h'
  refine ⟨ps ++ qs, textOf_append ps qs, fun p hp => ?_, fun rest hrest => ?_, fun offset line => ?_⟩
  · exact (List.mem_append.mp hp).elim (hflat p) (hflat' p)
  · obtain ⟨hfirst, hsecond⟩ := parted_append hparted hrest
    exact (hcut _ hfirst).append (hcut' _ hsecond)
  · exact ⟨_, _, place_append offset line ps qs, htokens offset line, htokens' _ _⟩

/-- The pieces of a spelled text that stands by itself. -/
theorem Spells.pieces (h : Spells x T) :
    (∀ p ∈ pieces x, p.IsFlat) ∧ ∀ offset line, T offset (place offset line (pieces x)) := by
  obtain ⟨ps, rfl, hflat, hcut, htokens⟩ := h
  have hpieces := (hcut [] (parted_of_head _ (by simp))).pieces_eq
  rw [List.append_nil, pieces_nil, List.append_nil] at hpieces
  rw [hpieces]
  exact ⟨hflat, htokens⟩

/-- The tokens of a spelled text that stands by itself. -/
theorem Spells.tokens {s : String} (h : Spells s.toList T) : T 0 (tokens s) := by
  rw [tokens_eq_place]
  exact h.pieces.2 0 1

/-- Nothing has no tokens. -/
theorem spells_nil : Spells [] Silent :=
  ⟨[], rfl, by simp, fun _ _ => trivial, fun _ _ => rfl⟩

/-! ## Pieces -/

/-- A token on one line is flat. -/
theorem Piece.isFlat_token {k : Kind} (hk : k ≠ .other) (hx : '\n' ∉ x) :
    Piece.IsFlat ⟨some k, x⟩ := by
  intro k' hk'
  obtain rfl := Option.mem_some_iff.mp hk'
  exact ⟨hk, hx⟩

/-- What is dropped is flat. -/
theorem Piece.isFlat_dropped (x : List Char) : Piece.IsFlat ⟨none, x⟩ :=
  fun _ h => nomatch h

/-- A text that is one token. -/
theorem Spells.of_lexes {k : Kind} (hk : k ≠ .other) (hx : '\n' ∉ x)
    (h : ∀ rest, Parted x rest → Lexes x (some k) rest) : Spells x (Single k x) :=
  ⟨[⟨some k, x⟩], by simp, by simpa using Piece.isFlat_token hk hx,
    fun rest hrest => ⟨h rest hrest, trivial⟩,
    fun offset line => ⟨.ofKind ⟨k, _, line, offset⟩ rfl, rfl, rfl, rfl⟩⟩

/-- A text that is dropped. -/
theorem Spells.of_dropped (h : ∀ rest, Lexes x none rest) : Spells x Silent :=
  ⟨[⟨none, x⟩], by simp, by simpa using Piece.isFlat_dropped x, fun rest _ => ⟨h rest, trivial⟩,
    fun _ _ => rfl⟩

/-- What stands behind a silent text. -/
theorem Spells.silent_append (h : Spells x Silent) (h' : Spells y T)
    (hparted : Parted x y) : Spells (x ++ y) fun offset ts => T (offset + x.length) ts :=
  (h.append h' hparted).imp fun _ ts => by
    rintro ⟨us, vs, rfl, rfl, hvs⟩
    exact hvs

/-- What stands in front of a silent text. -/
theorem Spells.append_silent (h : Spells x T) (h' : Spells y Silent)
    (hparted : Parted x y) : Spells (x ++ y) T :=
  (h.append h' hparted).imp fun _ ts => by
    rintro ⟨us, vs, rfl, hus, rfl⟩
    rwa [List.append_nil]

/-- Blanks are dropped. -/
theorem spells_blanks (h : ∀ c ∈ x, isSeparator c) : Spells x Silent := by
  induction x with
  | nil => exact spells_nil
  | cons c x ih =>
    have hc := h c (by simp)
    have hpart : isIdentifierPart c = false := by
      have hblank : c = ' ' ∨ c = '\t' ∨ c = '\r' ∨ c = '\n' := by
        simpa [isSeparator, or_assoc] using hc
      obtain rfl | rfl | rfl | rfl := hblank <;> decide
    have hfirst : Spells [c] Silent := .of_dropped fun _ => .blank hc
    exact hfirst.append_silent (ih fun d hd => h d (by simp [hd]))
      (parted_of_last (by simpa using hpart) x)

/-- A word: a letter, an underscore or a dollar sign, and digits among them. -/
def IsWord (x : List Char) : Prop :=
  (∃ c ∈ x.head?, isIdentifierStart c) ∧ ∀ c ∈ x, isIdentifierPart c

/-- A word stands on one line. -/
theorem IsWord.not_mem_line (h : IsWord x) : '\n' ∉ x :=
  fun hline => absurd (h.2 '\n' hline) (by decide)

/-- A word has a meaning. -/
theorem ofWord_ne_other (word : String) : Kind.ofWord word ≠ .other := fun h => by
  have hmem := ofWord_mem word
  rw [h] at hmem
  exact absurd hmem (by decide)

/-- A word ends in a character that may go on. -/
theorem IsWord.parted (h : IsWord x) {rest : List Char} (hrest : Parted x rest) :
    ∀ d ∈ rest.head?, isIdentifierPart d = false := by
  obtain ⟨⟨c, hc, -⟩, hall⟩ := h
  cases hlast : x.getLast? with
  | none => simp [List.getLast?_eq_none_iff.mp hlast] at hc
  | some e => exact hrest e hlast (hall e (List.mem_of_getLast? hlast))

/-- A word is a token. -/
theorem IsWord.spells (h : IsWord x) : Spells x (Single (Kind.ofWord (String.ofList x)) x) := by
  refine .of_lexes (ofWord_ne_other _) h.not_mem_line fun rest hrest => ?_
  have hstop := h.parted hrest
  obtain ⟨⟨c, hc, hstart⟩, hall⟩ := h
  obtain ⟨y, rfl⟩ := List.head?_eq_some_iff.mp hc
  exact .word hstart (fun d hd => hall d (by simp [hd])) hstop

/-- These signs are tokens. -/
theorem spells_sign {c : Char}
    (h : c ∈ ['\x7b', '\x7d', '(', ')', '[', ']', '<', '>', ':', ';', ',', '?', '|', '&']) :
    Spells [c] (Single (Kind.ofChar c) [c]) := by
  have hflat : ∀ c ∈ ['\x7b', '\x7d', '(', ')', '[', ']', '<', '>', ':', ';', ',', '?', '|', '&'],
      Kind.ofChar c ≠ .other ∧ '\n' ∉ [c] := by
    decide
  exact .of_lexes (hflat c h).1 (hflat c h).2 fun rest _ => lexes_sign h rest

theorem spells_ellipsis : Spells ['.', '.', '.'] (Single .ellipsis ['.', '.', '.']) :=
  .of_lexes (by decide) (by decide) fun _ _ => .ellipsis

theorem spells_arrow : Spells ['=', '>'] (Single .arrow ['=', '>']) :=
  .of_lexes (by decide) (by decide) fun _ _ => .arrow

/-- An equals sign with a blank behind it. -/
theorem spells_equals : Spells ['=', ' '] (Single .equals ['=']) := by
  refine ⟨[⟨some .equals, ['=']⟩, ⟨none, [' ']⟩], by simp, ?_, fun rest _ => ?_,
    fun offset line => ⟨.ofKind ⟨.equals, _, line, offset⟩ rfl, rfl, rfl, rfl⟩⟩
  · simpa using ⟨Piece.isFlat_token (by decide) (by decide), Piece.isFlat_dropped [' ']⟩
  exact ⟨.sign (by decide) rfl rfl (by decide) (by decide) rfl, .blank (by decide), trivial⟩

/-- A point with a word behind it. -/
theorem IsWord.spells_dot (h : IsWord x) :
    Spells ('.' :: x)
      (Joined 1 (Single .dot ['.']) (Single (Kind.ofWord (String.ofList x)) x)) := by
  obtain ⟨⟨c, hc, hstart⟩, hall⟩ := h
  obtain ⟨y, rfl⟩ := List.head?_eq_some_iff.mp hc
  have hne : c ≠ '.' := ne_of_test hstart (by decide)
  have hword : IsWord (c :: y) := ⟨⟨c, rfl, hstart⟩, hall⟩
  refine ⟨[⟨some .dot, ['.']⟩, ⟨some (Kind.ofWord (String.ofList (c :: y))), c :: y⟩], by simp,
    ?_, fun rest hrest => ?_, fun offset line => ⟨_, _, rfl,
      ⟨.ofKind ⟨.dot, _, line, offset⟩ rfl, rfl, rfl, rfl⟩,
      ⟨.ofKind ⟨_, _, line, offset + 1⟩ rfl, rfl, rfl, rfl⟩⟩⟩
  · simpa using ⟨Piece.isFlat_token (by decide) (by decide),
      Piece.isFlat_token (ofWord_ne_other _) hword.not_mem_line⟩
  have hstop := hword.parted (by simpa [Parted] using hrest)
  refine ⟨.sign (by decide) rfl rfl (by decide) (by decide) ?_,
    .word hstart (fun d hd => hall d (by simp [hd])) hstop, trivial⟩
  simp [longSign?, hne]

/-- A string in double quotes stands on one line. -/
theorem StringRest.not_mem_line (h : StringRest '"' x) : '\n' ∉ x := by
  induction h with
  | close => decide
  | escape hc _ ih => simpa [hc.symm] using ih
  | char _ _ hline _ ih =>
    rw [List.mem_cons, not_or]
    exact ⟨fun hc => absurd (hline hc.symm) (by decide), ih⟩

/-- A string in double quotes is a token. -/
theorem spells_string (h : StringRest '"' x) : Spells ('"' :: x) (Single .string ('"' :: x)) :=
  .of_lexes (by decide) (by simpa using h.not_mem_line) fun _ _ => .string (by decide) h

/-! ## Comments -/

/-- What holds no star does not end a comment. -/
theorem BlockRest.append (h : ∀ c ∈ x, c ≠ '*') (hy : BlockRest y) : BlockRest (x ++ y) := by
  induction x with
  | nil => exact hy
  | cons c x ih =>
    exact .char (fun hc => absurd hc (h c (by simp))) (ih fun d hd => h d (by simp [hd]))

/-- A block comment is dropped. -/
theorem spells_block (h : BlockRest x) : Spells ('/' :: '*' :: x) Silent :=
  .of_dropped fun _ => .block h

/-- A line comment is dropped with the end of its line. -/
theorem spells_line (h : ∀ c ∈ x, c ≠ '\n') : Spells ('/' :: '/' :: x ++ ['\n']) Silent := by
  refine ⟨[⟨none, '/' :: '/' :: x⟩, ⟨none, ['\n']⟩], by simp,
    by simpa using ⟨Piece.isFlat_dropped _, Piece.isFlat_dropped _⟩, fun rest _ => ?_, fun _ _ => rfl⟩
  exact ⟨.line h (by simp), .blank (by decide), trivial⟩

end SchemaTypings.Declaration
