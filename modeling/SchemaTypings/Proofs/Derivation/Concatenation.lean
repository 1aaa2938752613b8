import SchemaTypings.Proofs.Derivation.Hole
import SchemaTypings.Proofs.Editing.SetType

/-!
# Files one behind the other

Behind a line feed the lexer starts afresh, as long as every character in front of it has a meaning
(`pieces_append_line`), so a text that goes on a file has the tokens that it has by itself, moved.
The statements of a file that begins with an import are those behind the import
(`Statements.exists_behind_import`): the body of the file, which may be moved behind another file
(`IsBody.move`) and is then read as the rest of it (`IsFile.append_body`).
-/

namespace SchemaTypings.Declaration

/-! ## Behind a line feed -/

/-- A line feed by itself. -/
def lineFeed : Piece := ⟨none, ['\n']⟩

/-- Only a line feed by itself ends in one. -/
theorem Lexes.eq_lineFeed {x rest : List Char} {kind : Option Kind} (h : Lexes x kind rest)
    (hlast : x.getLast? = some '\n') : kind = none ∧ x = ['\n'] := by
  have hmem : '\n' ∈ x := List.mem_of_getLast? hlast
  cases h with
  | blank h => exact ⟨rfl, by simpa using hlast⟩
  | @block y _ h =>
    have hslash := h.getLast?
    cases y <;> simp_all [List.getLast?_cons_cons]
  | line h => exact absurd rfl (h '\n' (by simpa using hmem))
  | @string quote y _ hquote h =>
    have hclose : (quote :: y).getLast? = some quote := by
      rw [List.getLast?_cons, h.getLast?]
      rfl
    rw [hclose, Option.some.injEq] at hlast
    exact absurd hlast (ne_of_test hquote (by decide))
  | number hc hy =>
    rcases List.mem_cons.mp hmem with rfl | hmem
    · exact absurd hc (by decide)
    · exact absurd (hy _ hmem) (by decide)
  | fraction hc hy hd hz =>
    simp only [List.cons_append, List.mem_cons, List.mem_append] at hmem
    obtain rfl | hmem | hmem | rfl | hmem := hmem
    · exact absurd hc (by decide)
    · exact absurd (hy _ hmem) (by decide)
    · exact absurd hmem (by decide)
    · exact absurd hd (by decide)
    · exact absurd (hz _ hmem) (by decide)
  | word hc hy =>
    rcases List.mem_cons.mp hmem with rfl | hmem
    · exact absurd hc (by decide)
    · exact absurd (hy _ hmem) (by decide)
  | ellipsis => exact absurd hlast (by decide)
  | arrow => exact absurd hlast (by decide)
  | sign hblank =>
    obtain rfl : '\n' = _ := by simpa using hmem
    exact absurd hblank (by decide)

/-- A line feed at the end of a text is read by itself. -/
theorem pieces_concat_line (x : List Char) : pieces (x ++ ['\n']) = pieces x ++ [lineFeed] := by
  have hne : pieces (x ++ ['\n']) ≠ [] := fun hnil => by
    simpa [hnil] using textOf_pieces (x ++ ['\n'])
  obtain ⟨before, p, hpieces⟩ : ∃ before p, pieces (x ++ ['\n']) = before ++ [p] :=
    ⟨_, _, (List.dropLast_concat_getLast hne).symm⟩
  have hcut : Cut (before ++ [p]) (textOf []) := cut_of_pieces (by rw [hpieces, List.append_nil])
  obtain ⟨hlexes, hlast⟩ := hcut.last (p := p) (by simp)
  have htext : textOf (before ++ [p]) = x ++ ['\n'] := by rw [← hpieces, textOf_pieces]
  obtain ⟨hkind, hchars⟩ := hlexes.eq_lineFeed (by rw [← hlast, htext]; simp)
  obtain rfl : p = lineFeed := by
    cases p
    simp_all [lineFeed]
  have hbefore : textOf before = x := by simpa [lineFeed] using htext
  have hline : Cut before ([] ++ ['\n']) := cut_of_pieces hpieces
  have hfront : Cut before [] := hline.of_append
  have hx : pieces x = before := by simpa [hbefore] using hfront.pieces_eq
  rw [hpieces, hx]

/-- Behind a line feed the lexer starts afresh, when each character in front of it has a meaning. -/
theorem pieces_append_line {x : List Char} (hother : ∀ p ∈ pieces x, p.kind ≠ some .other)
    (rest : List Char) : pieces (x ++ '\n' :: rest) = pieces x ++ lineFeed :: pieces rest := by
  have hline : pieces ('\n' :: rest) = lineFeed :: pieces rest :=
    Lexes.pieces_eq (.blank (by decide))
  have hcut : Cut (pieces x) ['\n'] := cut_of_pieces (pieces_concat_line x)
  have hquiet : Quiet ('\n' :: rest) := by
    intro c hc
    obtain rfl : '\n' = c := by simpa using hc
    decide
  -- the last piece does not go on over a line feed, whatever stands behind that
  have hlexes : ∀ p ∈ (pieces x).getLast?, Lexes p.chars p.kind ['\n'] →
      Lexes p.chars p.kind ('\n' :: rest) := by
    intro p hp h
    cases hkind : p.kind with
    | none =>
      rw [hkind] at h
      exact h.of_dropped fun _ => rfl
    | some k =>
      rw [hkind] at h
      have hmem := hother p (List.mem_of_getLast? hp)
      exact h.of_like (fun hk => hmem (by rw [hkind, hk])) (hquiet.like _)
  have hrest : Cut (pieces x) ('\n' :: rest) :=
    hcut.of_like hother hlexes fun _ c hc hloud => by simp [hquiet c hc] at hloud
  rw [← hline, ← hrest.pieces_eq, textOf_pieces]

/-! ## Statements side by side -/

/-- The statements of two files, one after the other. -/
def Statements.append (d : Statements) : Statements → Statements
  | .empty => d
  | .more before s => .more (d.append before) s

section Append

variable (d : Statements)

@[simp] theorem Statements.yield_append : (e : Statements) →
    (d.append e).yield = d.yield ++ e.yield
  | .empty => by simp [append, yield]
  | .more before s => by simp [append, yield, yield_append before]

@[simp] theorem Statements.names_append : (e : Statements) →
    (d.append e).names = d.names ++ e.names
  | .empty => by simp [append, names]
  | .more before s => by simp [append, names, names_append before]

@[simp] theorem Statements.statements_append : (e : Statements) →
    (d.append e).statements = d.statements ++ e.statements
  | .empty => by simp [append, statements]
  | .more before s => by simp [append, statements, statements_append before]

end Append

/-- A statement in front of others. -/
def Statements.cons (s : StatementTree) (d : Statements) : Statements :=
  (Statements.more .empty s).append d

/-- Statements, if there are any, begin with one. -/
theorem Statements.eq_empty_or_cons : (d : Statements) → d = .empty ∨ ∃ s e, d = .cons s e
  | .empty => .inl rfl
  | .more before s => by
    refine .inr ?_
    obtain rfl | ⟨first, rest, rfl⟩ := before.eq_empty_or_cons
    · exact ⟨s, .empty, rfl⟩
    · exact ⟨first, .more rest s, rfl⟩

/-! ## The import of a file -/

/-- The tokens that begin a statement. -/
def openingKinds : List Kind :=
  [.exportWord, .interfaceWord, .typeWord, .declareWord, .importWord]

theorem DeclarationTree.exists_yield_eq (d : DeclarationTree) :
    ∃ t ts, d.yield = t :: ts ∧ t.kind ∈ [.interfaceWord, .typeWord] := by
  cases d with
  | interface i => exact ⟨_, _, rfl, by simp [i.word.kind_eq]⟩
  | «alias» a => exact ⟨_, _, rfl, by simp [a.word.kind_eq]⟩

/-- Of the statements only an import begins with its word. -/
theorem StatementTree.exists_yield_eq (s : StatementTree) :
    ∃ t ts, s.yield = t :: ts ∧ t.kind ∈ openingKinds ∧
      (t.kind = .importWord → ∃ i, s = .import i) := by
  cases s with
  | declaration d =>
    obtain ⟨t, ts, hyield, hkind⟩ := d.exists_yield_eq
    refine ⟨t, ts, hyield, ?_, fun h => ?_⟩
    · revert hkind
      generalize t.kind = k
      revert k
      decide
    · simp [h] at hkind
  | exported word d =>
    exact ⟨_, _, rfl, by simp [word.kind_eq, openingKinds], by simp [word.kind_eq]⟩
  | «import» i => exact ⟨_, _, rfl, by simp [i.word.kind_eq, openingKinds], fun _ => ⟨i, rfl⟩⟩
  | module declareWord =>
    exact ⟨_, _, rfl, by simp [declareWord.kind_eq, openingKinds], by simp [declareWord.kind_eq]⟩

/-- The items of what is imported. -/
def ImportClause.items : ImportClause → List ImportItem
  | .item i => [i]
  | .more before i => before.items ++ [i]

theorem ImportClause.yield_eq_items (c : ImportClause) : c.yield = c.items.flatMap ImportItem.yield := by
  induction c with
  | item i => simp [yield, items]
  | more before i ih => simp [yield, items, ih]

/-- An item of an import is a token, or a group whose bracket neither stands in an import by itself
nor ends it. -/
theorem ImportItem.yield_cases (i : ImportItem) :
    (∃ t, i.yield = [t] ∧ t.kind ∈ importKinds) ∨
      ∃ t ts, i.yield = t :: ts ∧ t.kind ∉ .semicolon :: importKinds := by
  cases i with
  | token l => exact .inl ⟨l.token, rfl, l.kind_mem⟩
  | group b hb g =>
    refine .inr ⟨_, _, rfl, ?_⟩
    rw [g.opening.kind_eq]
    obtain rfl | rfl := hb <;> decide

/-- The items of an import are over where a semicolon stands. -/
theorem items_eq_of_semicolon {items : List ImportItem} {names rest after : List Token}
    {semicolon : Token} (hnames : ∀ t ∈ names, t.kind ∈ importKinds)
    (hsemicolon : semicolon.kind = .semicolon) (hafter : ∀ t ∈ after.head?, t.kind ∉ importKinds)
    (h : items.flatMap ImportItem.yield ++ after = names ++ semicolon :: rest) :
    after = semicolon :: rest := by
  induction names generalizing items with
  | nil =>
    cases items with
    | nil => exact h
    | cons i items =>
      obtain ⟨t, hyield, hkind⟩ | ⟨t, ts, hyield, hkind⟩ := i.yield_cases
      -- no item begins with a semicolon
      all_goals
        rw [List.flatMap_cons, hyield] at h
        obtain ⟨rfl, -⟩ := List.cons.inj h
        rw [hsemicolon] at hkind
        exact absurd hkind (by decide)
  | cons n names ih =>
    have hn : n.kind ∈ importKinds := hnames n List.mem_cons_self
    cases items with
    | nil =>
      obtain rfl : after = n :: (names ++ semicolon :: rest) := h
      exact absurd hn (hafter n rfl)
    | cons i items =>
      obtain ⟨t, hyield, -⟩ | ⟨t, ts, hyield, hkind⟩ := i.yield_cases
      · -- the item is the next token
        rw [List.flatMap_cons, hyield] at h
        exact ih (fun t ht => hnames t (List.mem_cons_of_mem _ ht)) (List.cons.inj h).2
      · -- the bracket of a group is none of the names
        rw [List.flatMap_cons, hyield] at h
        obtain ⟨rfl, -⟩ := List.cons.inj h
        exact absurd (List.mem_cons_of_mem _ hn) hkind

/-- The first token of a file begins a statement. -/
theorem Statements.kind_mem_of_head {d : Statements} {t : Token} (h : t ∈ d.yield.head?) :
    t.kind ∈ openingKinds := by
  obtain rfl | ⟨s, e, rfl⟩ := d.eq_empty_or_cons
  · simp [yield] at h
  · obtain ⟨first, ts, hyield, hkind, -⟩ := s.exists_yield_eq
    obtain rfl : first = t := by simpa [cons, yield, hyield] using h
    exact hkind

/-- No token of an import begins a statement. -/
theorem not_mem_importKinds {k : Kind} (h : k ∈ openingKinds) : k ∉ importKinds := by
  revert h
  revert k
  decide

/-- A file that begins with the word of an import begins with one. -/
theorem Statements.exists_import {d : Statements} {word : Token} {ts : List Token}
    (hword : word.kind = .importWord) (h : d.yield = word :: ts) :
    ∃ i e, d = .cons (.import i) e ∧ i.yield ++ e.yield = word :: ts := by
  obtain rfl | ⟨s, e, rfl⟩ := d.eq_empty_or_cons
  · exact absurd h (by simp [yield])
  have hwhole : s.yield ++ e.yield = word :: ts := by
    rw [← h, cons, yield_append]
    rfl
  obtain ⟨t, ts', hyield, -, himport⟩ := s.exists_yield_eq
  obtain rfl : t = word := by
    rw [hyield] at hwhole
    exact (List.cons.inj hwhole).1
  obtain ⟨i, rfl⟩ := himport hword
  exact ⟨i, e, rfl, hwhole⟩

/-- What is in front of a semicolon begins no import that has a word `type`. -/
theorem optionalYield_eq_nil {typeWord : Option (Leaf [.typeWord])} {names rest ts : List Token}
    {semicolon : Token} (hnames : ∀ t ∈ names, t.kind ∈ importKinds)
    (hsemicolon : semicolon.kind = .semicolon)
    (h : optionalYield typeWord ++ ts = names ++ semicolon :: rest) : typeWord = none := by
  cases typeWord with
  | none => rfl
  | some l =>
    have hkind := l.kind_eq
    cases names with
    | nil =>
      obtain rfl : l.token = semicolon := (List.cons.inj h).1
      rw [hsemicolon] at hkind
      cases hkind
    | cons n names =>
      obtain rfl : l.token = n := (List.cons.inj h).1
      have hn := hnames _ List.mem_cons_self
      rw [hkind] at hn
      exact absurd hn (by decide)

/-- A file that begins with an import up to a semicolon goes on with the statements behind it. -/
theorem Statements.exists_behind_import {d : Statements} {word semicolon : Token}
    {names rest : List Token} (hword : word.kind = .importWord)
    (hnames : ∀ t ∈ names, t.kind ∈ importKinds) (hsemicolon : semicolon.kind = .semicolon)
    (h : d.yield = word :: names ++ semicolon :: rest) :
    ∃ i e, d = .cons (.import i) e ∧ e.yield = rest := by
  obtain ⟨i, e, rfl, hwhole⟩ := exists_import hword h
  refine ⟨i, e, rfl, ?_⟩
  obtain ⟨first, typeWord, clause, last⟩ := i
  have hitems : optionalYield typeWord ++ (clause.items.flatMap ImportItem.yield ++
      (optionalYield last ++ e.yield)) = names ++ semicolon :: rest := by
    simpa [ImportTree.yield, clause.yield_eq_items] using (List.cons.inj hwhole).2
  obtain rfl := optionalYield_eq_nil hnames hsemicolon hitems
  have hafter : ∀ t ∈ (optionalYield last ++ e.yield).head?, t.kind ∉ importKinds := by
    cases last with
    | none => exact fun t ht => not_mem_importKinds (kind_mem_of_head ht)
    | some l => simp [l.kind_eq, importKinds]
  have hrest := items_eq_of_semicolon hnames hsemicolon hafter hitems
  cases last with
  | none =>
    -- the semicolon would be the first token of the statements behind the import
    have hrest : e.yield = semicolon :: rest := hrest
    have hopens := kind_mem_of_head (d := e) (t := semicolon) (by rw [hrest]; rfl)
    rw [hsemicolon] at hopens
    exact absurd hopens (by decide)
  | some l => exact (List.cons.inj hrest).2

/-! ## Files in a row -/

/-- A text whose last line is complete. -/
def EndsLine (x : List Char) : Prop :=
  x.getLast? = some '\n'

theorem endsLine_concat (x : List Char) : EndsLine (x ++ ['\n']) :=
  List.getLast?_concat

/-- Behind a complete line a text has its own pieces. -/
theorem EndsLine.pieces_append {x : List Char} (h : EndsLine x)
    (hother : ∀ p ∈ pieces x, p.kind ≠ some .other) (rest : List Char) :
    pieces (x ++ rest) = pieces x ++ pieces rest := by
  obtain ⟨y, rfl⟩ := List.getLast?_eq_some_iff.mp h
  rw [pieces_concat_line] at hother ⊢
  rw [List.append_assoc, List.singleton_append,
    pieces_append_line fun p hp => hother p (List.mem_append_left _ hp)]
  simp

/-- A text in which every character has a meaning, and whose tokens are an import. -/
structure IsImportHead (head : List Char) : Prop where
  endsLine : EndsLine head
  noOther : ∀ p ∈ pieces head, p.kind ≠ some .other
  exists_import : ∃ word names semicolon, place 0 1 (pieces head) = word :: names ++ [semicolon] ∧
    word.kind = .importWord ∧ (∀ t ∈ names, t.kind ∈ importKinds) ∧ semicolon.kind = .semicolon

/-- The derivation of a text in which every character has a meaning, as it stands behind a head. -/
structure IsBody (head body : List Char) (d : Statements) : Prop where
  yield_eq : d.yield = placeBehind (pieces head) (pieces body)
  names : NamesReadable d
  noOther : ∀ p ∈ pieces body, p.kind ≠ some .other

/-- A line feed at the end changes nothing. -/
theorem placeBehind_concat_line (ps qs : List Piece) :
    placeBehind ps (qs ++ [lineFeed]) = placeBehind ps qs := by
  rw [placeBehind_append]
  simp [placeBehind, place, lineFeed]

/-- A file stays the same with another line feed at its end. -/
theorem IsFile.concat_line {x : List Char} {d : Statements} (h : IsFile x d) :
    IsFile (x ++ ['\n']) d where
  yield_eq := by
    rw [pieces_concat_line, place_append, h.yield_eq]
    simp [place, lineFeed]
  names := h.names
  noOther := by
    rw [pieces_concat_line]
    simpa [or_imp, forall_and, lineFeed] using h.noOther

/-- What a file that begins with an import says stands in its body. -/
theorem IsFile.exists_body {head body : List Char} {d : Statements} (hhead : IsImportHead head)
    (h : IsFile (head ++ body ++ ['\n']) d) :
    ∃ e, IsBody head body e ∧ e.statements = d.statements := by
  have hpieces : pieces (head ++ body ++ ['\n']) = pieces head ++ (pieces body ++ [lineFeed]) := by
    rw [List.append_assoc, hhead.endsLine.pieces_append hhead.noOther, pieces_concat_line]
  obtain ⟨word, names, semicolon, htokens, hword, hnames, hsemicolon⟩ := hhead.exists_import
  have hyield : d.yield =
      word :: names ++ semicolon :: placeBehind (pieces head) (pieces body) := by
    rw [h.yield_eq, hpieces, place_eq_append, htokens, placeBehind_concat_line]
    simp
  obtain ⟨i, e, rfl, he⟩ := Statements.exists_behind_import hword hnames hsemicolon hyield
  refine ⟨e, ⟨he, fun t ht => h.names t ?_, fun p hp => h.noOther p ?_⟩, ?_⟩
  · simp [Statements.cons, ht]
  · rw [hpieces]
    simp [hp]
  · simp [Statements.cons, Statements.statements, StatementTree.statement?]

/-- A body is moved behind another text. -/
theorem IsBody.move {head body : List Char} {d : Statements} (h : IsBody head body d)
    (x : List Char) :
    IsBody x body (d.move (Move.between (pieces head) (pieces x)).relocation) where
  yield_eq := by
    rw [Statements.yield_move, h.yield_eq, Move.placeBehind_eq (pieces head) (pieces x)]
    rfl
  names t ht := by
    rw [Statements.names_move, List.mem_map] at ht
    obtain ⟨u, hu, rfl⟩ := ht
    exact Relocation.isReadable _ (h.names u hu)
  noOther := h.noOther

/-- A file goes on with a body behind it. -/
theorem IsFile.append_body {x body : List Char} {d e : Statements} (h : IsFile x d)
    (hline : EndsLine x) (hbody : IsBody x body e) : IsFile (x ++ body ++ ['\n']) (d.append e) := by
  have hpieces : pieces (x ++ body ++ ['\n']) = pieces x ++ (pieces body ++ [lineFeed]) := by
    rw [List.append_assoc, hline.pieces_append h.noOther, pieces_concat_line]
  refine ⟨?_, fun t ht => ?_, fun p hp => ?_⟩
  · rw [Statements.yield_append, h.yield_eq, hbody.yield_eq, hpieces, place_eq_append,
      placeBehind_concat_line]
  · rw [Statements.names_append, List.mem_append] at ht
    exact ht.elim (h.names t) (hbody.names t)
  · rw [hpieces, List.mem_append, List.mem_append, List.mem_singleton] at hp
    obtain hp | hp | rfl := hp
    · exact h.noOther p hp
    · exact hbody.noOther p hp
    · simp [lineFeed]

/-- The types in a body stand in its text. -/
theorem IsBody.span_le {head body : List Char} {d : Statements} (h : IsBody head body d)
    {p : Property} (hp : p ∈ allProperties d.statements) :
    (head.length ≤ p.typeStart ∧ p.typeStart < head.length + body.length) ∧
      (head.length ≤ p.typeEnd ∧ p.typeEnd ≤ head.length + body.length) := by
  have hbounds : ∀ t ∈ d.yield, head.length ≤ t.offset ∧ t.offset < t.stop ∧
      t.stop ≤ head.length + body.length := by
    intro t ht
    rw [h.yield_eq, placeBehind, textOf_pieces] at ht
    simpa using bounds_of_mem_place ht fun _ => chars_ne_nil
  obtain ⟨t, ht, u, hu, hstart, hend⟩ := Statements.hasSpan hp
  have hfirst := hbounds t ht
  have hlast := hbounds u hu
  omega

end SchemaTypings.Declaration
