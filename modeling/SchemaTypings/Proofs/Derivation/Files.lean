import SchemaTypings.Declaration.Source
import SchemaTypings.Proofs.Derivation.Completeness
import SchemaTypings.Proofs.Json.Literals
import SchemaTypings.Proofs.Lexing.Pieces

/-!
# The texts that are declaration files

A text can be read exactly when its tokens have a derivation in which every name in double quotes is
a string literal. There is then one derivation only, and the statements are those read off it.
-/

namespace SchemaTypings.Declaration

/-! ## The names of a derivation -/

/-- Tokens of a tree, each of a kind that may name something. -/
def NamesOf (names yield : List Token) : Prop :=
  ∀ t ∈ names, t ∈ yield ∧ t.kind ∈ nameKinds

theorem NamesOf.nil (ts : List Token) : NamesOf [] ts := by
  simp [NamesOf]

/-- The names stay names of more tokens. -/
theorem NamesOf.mono {names ts us : List Token} (h : NamesOf names ts) (hsub : ts ⊆ us) :
    NamesOf names us :=
  fun t ht => ⟨hsub (h t ht).1, (h t ht).2⟩

/-- The names of two trees side by side. -/
theorem NamesOf.append {names more ts us : List Token} (h : NamesOf names ts)
    (h' : NamesOf more us) : NamesOf (names ++ more) (ts ++ us) := by
  intro t ht
  obtain ht | ht := List.mem_append.mp ht
  · exact ⟨by simp [(h t ht).1], (h t ht).2⟩
  · exact ⟨by simp [(h' t ht).1], (h' t ht).2⟩

theorem MemberHead.namesOf (head : MemberHead) : NamesOf head.names head.yield := by
  cases head with
  | property name mark => simp [NamesOf, names, yield, name.kind_mem]
  | method name mark parameters => simp [NamesOf, names, yield, name.kind_mem]
  | call parameters => exact .nil _
  | index key mark => exact .nil _

mutual
/-- The names in members are tokens of these. -/
theorem Members.namesOf (m : Members) : NamesOf m.names m.yield := by
  cases m with
  | separated list => exact list.namesOf
  | last list member => exact list.namesOf.append member.namesOf

theorem MemberList.namesOf (list : MemberList) : NamesOf list.names list.yield := by
  cases list with
  | empty => exact .nil _
  | more before member separator =>
    exact (before.namesOf.append member.namesOf).mono (by simp [MemberList.yield])

theorem MemberTree.namesOf (m : MemberTree) : NamesOf m.names m.yield := by
  cases m with
  | mk head colon type =>
    exact (head.namesOf.append type.namesOf).mono (by intro t; simp [MemberTree.yield]; grind)

theorem TypeTree.namesOf (type : TypeTree) : NamesOf type.names type.yield := by
  cases type with
  | item i => exact i.namesOf
  | more before i => exact before.namesOf.append i.namesOf

theorem TypeItem.namesOf (i : TypeItem) : NamesOf i.names i.yield := by
  cases i with
  | token t => exact .nil _
  | group b hb g => exact .nil _
  | object o =>
    cases o with
    | mk opening members closing =>
      exact members.namesOf.mono (by intro t; simp [TypeItem.yield, ObjectType.yield]; grind)
end

theorem DeclarationTree.namesOf (d : DeclarationTree) : NamesOf d.names d.yield := by
  cases d with
  | interface i =>
    obtain ⟨word, name, parameters, heritage, ⟨opening, members, closing⟩⟩ := i
    exact members.namesOf.mono (by
      intro t
      simp [DeclarationTree.yield, InterfaceTree.yield, ObjectType.yield]
      grind)
  | «alias» a =>
    exact a.type.namesOf.mono (by intro t; simp [DeclarationTree.yield, AliasTree.yield]; grind)

mutual
/-- The names in statements are tokens of these. -/
theorem Statements.namesOf (d : Statements) : NamesOf d.names d.yield := by
  cases d with
  | empty => exact .nil _
  | more before s => exact before.namesOf.append s.namesOf

theorem StatementTree.namesOf (s : StatementTree) : NamesOf s.names s.yield := by
  cases s with
  | declaration d => exact d.namesOf
  | exported word d => exact d.namesOf.mono (by simp [StatementTree.yield])
  | «import» i => exact .nil _
  | module declareWord word name opening body closing =>
    have hname : NamesOf [name.token] [name.token] := by
      have hkind : name.token.kind ∈ nameKinds := by
        have h := name.kind_mem
        simp only [List.mem_cons, List.not_mem_nil, or_false] at h
        obtain h | h := h <;> rw [h] <;> decide
      simp [NamesOf, hkind]
    exact (hname.append body.namesOf).mono (by intro t; simp [StatementTree.yield]; grind)
end

/-! ## Names that can be read -/

/-- The check of a name asks for the text that it stands for. -/
theorem checkName_eq_ok_iff (t : Token) : checkName t = .ok () ↔ ∃ s, unquote t.text = .ok s := by
  unfold checkName
  cases unquote t.text <;> simp

/-- All names pass the check when each of them does. -/
theorem forM_checkName_eq_ok_iff (names : List Token) :
    forM names checkName = .ok () ↔ ∀ t ∈ names, checkName t = .ok () := by
  induction names with
  | nil => simp [pure, Except.pure]
  | cons t names ih =>
    simp only [List.forM_cons, List.mem_cons, forall_eq_or_imp, ← ih]
    cases h : checkName t with
    | error e => simp [bind, Except.bind]
    | ok u => simp [bind, Except.bind]

/-- A token that begins with a quote is a string or stands for nothing. -/
theorem Lexes.of_quote {y rest : List Char} {k : Kind} (h : Lexes ('"' :: y) (some k) rest) :
    k = .string ∧ StringRest '"' y ∨ k = .other := by
  generalize hx : '"' :: y = x at h
  cases h with
  | string hquote h =>
    obtain ⟨rfl, rfl⟩ := List.cons.inj hx
    exact .inl ⟨rfl, h⟩
  | number hc => exact absurd ((List.cons.inj hx).1 ▸ hc) (by decide)
  | fraction hc => exact absurd ((List.cons.inj hx).1 ▸ hc) (by decide)
  | word hc => exact absurd ((List.cons.inj hx).1 ▸ hc) (by decide)
  | ellipsis => exact absurd (List.cons.inj hx).1 (by decide)
  | arrow => exact absurd (List.cons.inj hx).1 (by decide)
  | sign =>
    obtain ⟨rfl, -⟩ := List.cons.inj hx
    exact .inr rfl

/-- A name in double quotes has to be a string literal; any other name is read as it stands. -/
def Token.IsReadable (t : Token) : Prop :=
  t.kind = .string → t.text.toList.head? = some '"' → Json.IsStringLiteral t.text.toList

/-- The names that can be read are those that stand for a text. -/
theorem unquote_isOk_of_mem_tokens {t : Token} {text : String} (h : t ∈ tokens text)
    (hkind : t.kind ∈ nameKinds) : (∃ s, unquote t.text = .ok s) ↔ t.IsReadable := by
  unfold Token.IsReadable
  obtain ⟨rest, hlex⟩ := exists_lexes_of_mem_tokens h
  by_cases hquote : t.text.toList.head? = some '"'
  · obtain ⟨y, hy⟩ : ∃ y, t.text.toList = '"' :: y := List.head?_eq_some_iff.mp hquote
    have htext : t.text = String.ofList ('"' :: y) := by rw [← hy, String.ofList_toList]
    rw [hy] at hlex
    obtain ⟨hstring, hrest⟩ | hother := hlex.of_quote
    · have hunquote : unquote t.text = Json.unquote t.text := by
        rw [unquote, hy]
        rfl
      rw [hunquote, hy, htext, Json.unquote_isOk_iff hrest.getLast?]
      simp [hstring]
    · exact absurd (hother ▸ hkind) (by decide)
  · have hok : ∃ s, unquote t.text = .ok s := by
      unfold unquote
      split
      · rename_i y hy
        simp [hy] at hquote
      · exact ⟨_, rfl⟩
      · exact ⟨_, rfl⟩
    simp [hok, hquote]

/-! ## Files -/

/-- The names of a derivation can be read. -/
def NamesReadable (d : Statements) : Prop :=
  ∀ t ∈ d.names, t.IsReadable

/-- The names of the derivation of a text pass the check when they can be read. -/
theorem forM_names_eq_ok_iff {d : Statements} {text : String} (h : d.yield = tokens text) :
    forM d.names checkName = .ok () ↔ NamesReadable d := by
  rw [forM_checkName_eq_ok_iff]
  refine forall₂_congr fun t ht => ?_
  obtain ⟨hmem, hkind⟩ := d.namesOf t ht
  rw [checkName_eq_ok_iff, unquote_isOk_of_mem_tokens (h ▸ hmem) hkind]

/-- The names of a derivation are checked before it is given. -/
theorem checked_eq_ok_iff (names : List Token) (d d' : Statements) :
    (do forM names checkName; return d' : Except ParseError Statements) = .ok d ↔
      forM names checkName = .ok () ∧ d' = d := by
  cases h : forM names checkName with
  | error e => simp [bind, Except.bind]
  | ok u => simp [bind, Except.bind, pure, Except.pure]

/-- The derivation that is found is the one whose tokens were read, when its names can be read. -/
theorem derive_eq_ok_iff (text : String) (d : Statements) :
    derive (tokens text) = .ok d ↔ d.yield = tokens text ∧ NamesReadable d := by
  constructor
  · intro h
    have hyield := yield_of_derive h
    rw [← hyield, derive_yield, checked_eq_ok_iff, forM_names_eq_ok_iff hyield] at h
    exact ⟨hyield, h.1⟩
  · rintro ⟨hyield, hnames⟩
    rw [← hyield, derive_yield, checked_eq_ok_iff, forM_names_eq_ok_iff hyield]
    exact ⟨hnames, rfl⟩

/-- Two derivations of one text are the same when the names of one of them can be read. -/
theorem derivation_unique {text : String} {d d' : Statements} (h : derive (tokens text) = .ok d)
    (h' : d'.yield = tokens text) : d' = d := by
  rw [← h', derive_yield, checked_eq_ok_iff] at h
  exact h.2

/-- A text is read as the statements of its derivation, when the names in this can be read. -/
theorem parse_eq_ok_iff (text : String) (ss : List Statement) :
    parse text = .ok ss ↔
      ∃ d : Statements, d.yield = tokens text ∧ NamesReadable d ∧ d.statements = ss := by
  have hderive : parse text = .ok ss ↔ ∃ d, derive (tokens text) = .ok d ∧ d.statements = ss := by
    unfold parse
    cases derive (tokens text) <;> simp [Except.map]
  simp only [hderive, derive_eq_ok_iff, and_assoc]

/-- A file is what its derivation says. -/
theorem ofText_eq_ok_iff (text : String) (file : SourceFile) :
    SourceFile.ofText text = .ok file ↔
      ∃ d, derive (tokens text) = .ok d ∧ file = ⟨text, [], d.statements⟩ := by
  unfold SourceFile.ofText parse
  cases derive (tokens text) with
  | error e => simp [Except.map]
  | ok d => simp [Except.map, eq_comm]

/-- A text can be read exactly when its tokens have a derivation whose names can be read. The file
then holds the text, no edits, and the statements of that derivation, which is the only one; each
of its names stands for the text that it was read as. -/
theorem ofText_isOk_iff_derivation (text : String) :
    ((∃ file, SourceFile.ofText text = .ok file) ↔
      ∃ d : Statements, d.yield = tokens text ∧ NamesReadable d) ∧
    ∀ file, SourceFile.ofText text = .ok file →
      ∃ d : Statements, d.yield = tokens text ∧ NamesReadable d ∧
        (∀ d', d'.yield = tokens text → d' = d) ∧ (∀ t ∈ d.names, unquote t.text = .ok t.name) ∧
        file = ⟨text, [], d.statements⟩ := by
  refine ⟨⟨?_, ?_⟩, ?_⟩
  · rintro ⟨file, hfile⟩
    obtain ⟨d, hd, -⟩ := (ofText_eq_ok_iff text file).mp hfile
    exact ⟨d, (derive_eq_ok_iff text d).mp hd⟩
  · rintro ⟨d, hd⟩
    exact ⟨_, (ofText_eq_ok_iff text _).mpr ⟨d, (derive_eq_ok_iff text d).mpr hd, rfl⟩⟩
  · intro file hfile
    obtain ⟨d, hd, hfile⟩ := (ofText_eq_ok_iff text file).mp hfile
    obtain ⟨hyield, hnames⟩ := (derive_eq_ok_iff text d).mp hd
    refine ⟨d, hyield, hnames, fun d' => derivation_unique hd, fun t ht => ?_, hfile⟩
    have hcheck := (forM_checkName_eq_ok_iff d.names).mp
      ((forM_names_eq_ok_iff hyield).mpr hnames) t ht
    obtain ⟨s, hs⟩ := (checkName_eq_ok_iff t).mp hcheck
    simp [Token.name, hs]

/-- The tokens of a file with one interface. -/
theorem tokens_interface : tokens "interface A \x7b\"b\"?: string\x7d" =
    [⟨.interfaceWord, "interface", 1, 0⟩, ⟨.identifier, "A", 1, 10⟩, ⟨.leftBrace, "\x7b", 1, 12⟩,
      ⟨.string, "\"b\"", 1, 13⟩, ⟨.question, "?", 1, 16⟩, ⟨.colon, ":", 1, 17⟩,
      ⟨.identifier, "string", 1, 19⟩, ⟨.rightBrace, "\x7d", 1, 25⟩] := by
  decide

/-- A file with one interface, whose one property is named by a string literal. -/
theorem ofText_isOk_interface :
    ∃ d : Statements, d.yield = tokens "interface A \x7b\"b\"?: string\x7d" ∧ NamesReadable d ∧
      d.statements = [.interface "A" false [⟨"b", true, 19, 25⟩]] := by
  have hfile : SourceFile.ofText "interface A \x7b\"b\"?: string\x7d" =
      .ok ⟨"interface A \x7b\"b\"?: string\x7d", [],
        [.interface "A" false [⟨"b", true, 19, 25⟩]]⟩ := by
    unfold SourceFile.ofText parse
    rw [tokens_interface]
    rfl
  obtain ⟨d, hyield, hnames, -, -, heq⟩ := (ofText_isOk_iff_derivation _).2 _ hfile
  exact ⟨d, hyield, hnames, (congrArg SourceFile.statements heq).symm⟩

end SchemaTypings.Declaration
