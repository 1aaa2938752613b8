import SchemaTypings.Proofs.Derivation.Move
import SchemaTypings.Proofs.Writing.Statements

/-!
# Layout

The lexemes of a text are its tokens without their places. Those of spelled texts side by side are
put side by side (`IsSpelled.lexemes_append`). A text of statements that is padded has the same lexemes
and is still a text of statements: its derivation is relocated (`IsStatements.exists_file_of_padded`).
-/

namespace SchemaTypings.Declaration

/-- The tokens of a text without their places. -/
def lexemes (text : String) : List (Kind × String) :=
  (tokens text).map Token.lexeme

theorem lexemes_eq (text : String) :
    lexemes text = (pieces text.toList).filterMap Piece.lexeme? := by
  rw [lexemes, tokens_eq_place, map_lexeme_place]

/-- A text with the same tokens wherever it stands. -/
def IsSpelled (s : String) : Prop :=
  ∃ T, Spells s.toList T

variable {s t : String}

theorem IsStatements.isSpelled {outs : List Outline} (h : IsStatements s.toList outs) :
    IsSpelled s :=
  ⟨_, h⟩

theorem IsDeclaration.isSpelled {out : Bool → Outline} (h : IsDeclaration s.toList out) :
    IsSpelled s :=
  ⟨_, h⟩

theorem IsSpelled.append (h : IsSpelled s) (h' : IsSpelled t) (hparted : Parted s.toList t.toList) :
    IsSpelled (s ++ t) := by
  obtain ⟨T, hs⟩ := h
  obtain ⟨U, ht⟩ := h'
  exact ⟨_, String.toList_append ▸ hs.append ht hparted⟩

/-- A spelled text in front of one that it makes no word with keeps its lexemes. -/
theorem IsSpelled.lexemes_append (h : IsSpelled s) (hparted : Parted s.toList t.toList) :
    lexemes (s ++ t) = lexemes s ++ lexemes t := by
  obtain ⟨T, ps, htext, -, hcut, -⟩ := h
  have hs := (hcut [] fun _ _ _ => by simp).pieces_eq
  have hst := (hcut _ hparted).pieces_eq
  rw [pieces_nil, List.append_nil, List.append_nil, htext] at hs
  rw [htext] at hst
  rw [lexemes_eq, lexemes_eq, lexemes_eq, String.toList_append, hst, hs, List.filterMap_append]

/-- A silent text has no lexemes. -/
theorem lexemes_silent (h : Spells s.toList Silent) : lexemes s = [] := by
  rw [lexemes, h.tokens]
  rfl

/-! ## Relocated derivations -/

/-- Among tokens with the same lexemes in a row, each is matched with one of its lexeme. -/
theorem lexeme_eq_of_lookup_zip {ts us : List Token} (h : us.map Token.lexeme = ts.map Token.lexeme)
    {t u : Token} (hlookup : (ts.zip us).lookup t = some u) : u.lexeme = t.lexeme := by
  induction ts generalizing us with
  | nil => simp at hlookup
  | cons t' ts ih =>
    cases us with
    | nil => simp at h
    | cons u' us =>
      rw [List.map_cons, List.map_cons, List.cons.injEq] at h
      rw [List.zip_cons_cons, List.lookup_cons] at hlookup
      split at hlookup
      · next heq =>
        obtain rfl := eq_of_beq heq
        obtain rfl := Option.some.inj hlookup
        exact h.1
      · exact ih h.2 hlookup

/-- Tokens that stand once are matched with the others in order. -/
theorem map_lookup_zip {ts us : List Token} (hnodup : ts.Nodup) (h : us.length = ts.length) :
    ts.map (fun t => ((ts.zip us).lookup t).getD t) = us := by
  induction ts generalizing us with
  | nil => rw [List.eq_nil_of_length_eq_zero h, List.map_nil]
  | cons t ts ih =>
    cases us with
    | nil => simp at h
    | cons u us =>
      obtain ⟨hnew, hnodup⟩ := List.nodup_cons.mp hnodup
      have hrest := ih hnodup (Nat.succ.inj h)
      rw [List.zip_cons_cons, List.map_cons, List.lookup_cons, beq_self_eq_true]
      refine congrArg (u :: ·) (Eq.trans (List.map_congr_left fun t' ht' => ?_) hrest)
      have hb : (t' == t) = false := by
        rw [beq_eq_false_iff_ne]
        rintro rfl
        exact hnew ht'
      rw [List.lookup_cons, hb]

/-- Tokens that stand once and others with the same lexemes are the same tokens at other places. -/
theorem exists_relocation {ts us : List Token} (hnodup : ts.Nodup)
    (h : us.map Token.lexeme = ts.map Token.lexeme) : ∃ r : Relocation, ts.map r.token = us := by
  have hlexeme : ∀ t, (((ts.zip us).lookup t).getD t).lexeme = t.lexeme := by
    intro t
    cases hlookup : (ts.zip us).lookup t with
    | none => rfl
    | some u => exact lexeme_eq_of_lookup_zip h hlookup
  have hlength : us.length = ts.length := by simpa using congrArg List.length h
  exact ⟨⟨_, fun t => congrArg Prod.fst (hlexeme t), fun t => congrArg Prod.snd (hlexeme t)⟩,
    map_lookup_zip hnodup hlength⟩

mutual
/-- Relocated statements have the same headings. -/
theorem Statements.headings_move (r : Relocation) :
    ∀ d : Statements, statementHeadings (d.move r).statements = statementHeadings d.statements
  | .empty => rfl
  | .more before s => by
    simp [Statements.move, Statements.statements, before.headings_move r, s.headings_move r]
  termination_by structural d => d

/-- A relocated statement has the same heading. -/
theorem StatementTree.headings_move (r : Relocation) :
    ∀ s : StatementTree,
      statementHeadings (s.move r).statement?.toList = statementHeadings s.statement?.toList
  | .declaration d | .exported _ d => by
    cases d <;>
      simp [StatementTree.move, StatementTree.statement?, DeclarationTree.move, InterfaceTree.move,
        AliasTree.move, DeclarationTree.statement, statementHeadings, Statement.heading]
  | .import _ => rfl
  | .module _ _ name _ body _ => by
    simp [StatementTree.move, StatementTree.statement?, statementHeadings, Statement.heading,
      body.headings_move r]
  termination_by structural s => s
end

/-- A text of statements has the same lexemes with padding and can be read with it: the statements
have the headings of what the text says. -/
theorem IsStatements.exists_file_of_padded {outs : List Outline} (h : IsStatements s.toList outs)
    (hpad : Padded s.toList t.toList) :
    lexemes t = lexemes s ∧ ∃ file, SourceFile.ofText t = .ok file ∧
      statementHeadings file.statements = outlineHeadings outs := by
  obtain ⟨file, hfile, -, houtline⟩ := h.exists_file
  obtain ⟨d, hderive, rfl⟩ := (ofText_eq_ok_iff s file).mp hfile
  obtain ⟨hyield, hnames⟩ := (derive_eq_ok_iff s d).mp hderive
  obtain ⟨ps, htext, hflat, hcut, -⟩ := h
  have hcut := hcut [] fun _ _ _ => by simp
  have hps := hcut.pieces_eq
  obtain ⟨qs, rest, hqs, hcut', hlexemes, hrest⟩ := hcut.padded hflat (by simpa [htext] using hpad)
  cases hrest
  have ht := hcut'.pieces_eq
  rw [pieces_nil, List.append_nil, List.append_nil] at hps ht
  rw [List.append_nil] at hqs
  have hsame : lexemes t = lexemes s := by
    rw [lexemes_eq, lexemes_eq, hqs, ht, ← htext, hps, hlexemes]
  obtain ⟨r, hr⟩ := exists_relocation (nodup_tokens s) hsame
  have hmoved : (d.move r).yield = tokens t := by rw [Statements.yield_move, hyield, hr]
  refine ⟨hsame, _, (ofText_eq_ok_iff t _).mpr
    ⟨d.move r, (derive_eq_ok_iff t _).mpr ⟨hmoved, fun u hu => ?_⟩, rfl⟩, ?_⟩
  · rw [Statements.names_move] at hu
    obtain ⟨v, hv, rfl⟩ := List.mem_map.mp hu
    exact r.isReadable (hnames v hv)
  · rw [← houtline, SourceFile.outline, headings_outlines]
    exact d.headings_move r

end SchemaTypings.Declaration
