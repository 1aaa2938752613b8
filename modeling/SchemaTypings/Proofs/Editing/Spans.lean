import SchemaTypings.Proofs.Derivation.Depth
import SchemaTypings.Proofs.Editing.FailedAppend

/-!
# The spans of properties

A property that can be edited is declared by a member of the derivation of its file
(`Statements.allProperties_eq`), and such a member stands between the tokens in front of it and a
separator or a closing brace (`Statements.standsIn`). The span of the property is that of the
member's type, from its first token to its last. In a type every bracket is closed by one of the
same kind (`TypeTree.isBracketed`): `openBrackets` keeps those that are open on a stack, and
balanced tokens leave the stack as they found it.
-/

namespace SchemaTypings.Declaration

/-! ## Brackets -/

/-- The bracket that a token of this kind opens. -/
def Kind.opens? : Kind → Option Bracket
  | .leftBrace => some .brace
  | .leftParen => some .paren
  | .leftBracket => some .square
  | .less => some .angle
  | _ => none

/-- The bracket that a token of this kind closes. -/
def Kind.closes? : Kind → Option Bracket
  | .rightBrace => some .brace
  | .rightParen => some .paren
  | .rightBracket => some .square
  | .greater => some .angle
  | _ => none

/-- The brackets that are open behind a token, the innermost first. Only the innermost one can be
closed. -/
def bracketStep (stack : List Bracket) (t : Token) : Option (List Bracket) :=
  match t.kind.opens?, t.kind.closes? with
  | some b, _ => some (b :: stack)
  | none, some b => if stack.head? = some b then some stack.tail else none
  | none, none => some stack

/-- The brackets that are open behind some tokens, when those in the stack are open in front of
them. -/
def openBrackets (stack : List Bracket) (ts : List Token) : Option (List Bracket) :=
  ts.foldlM bracketStep stack

/-- Every bracket is closed by one of the same kind, and none is closed before those inside it. -/
def IsBracketed (ts : List Token) : Prop :=
  openBrackets [] ts = some []

@[simp] theorem openBrackets_nil (stack : List Bracket) : openBrackets stack [] = some stack := rfl

@[simp] theorem openBrackets_cons (stack : List Bracket) (t : Token) (ts : List Token) :
    openBrackets stack (t :: ts) = (bracketStep stack t).bind (openBrackets · ts) := by
  rw [openBrackets, List.foldlM_cons]
  rfl

@[simp] theorem openBrackets_append (stack : List Bracket) (ts us : List Token) :
    openBrackets stack (ts ++ us) = (openBrackets stack ts).bind (openBrackets · us) := by
  rw [openBrackets, List.foldlM_append]
  rfl

@[simp] theorem bracketStep_opening (stack : List Bracket) {b : Bracket} (l : Leaf [b.opening]) :
    bracketStep stack l.token = some (b :: stack) := by
  rw [bracketStep, l.kind_eq]
  cases b <;> rfl

@[simp] theorem bracketStep_closing (stack : List Bracket) {b : Bracket} (l : Leaf [b.closing]) :
    bracketStep (b :: stack) l.token = some stack := by
  rw [bracketStep, l.kind_eq]
  cases b <;> rfl

/-- A token that is no bracket leaves the stack as it is. -/
theorem bracketStep_of_mem (stack : List Bracket) {t : Token} (h : t.kind ∈ balancedKinds) :
    bracketStep stack t = some stack := by
  have hkinds : ∀ k ∈ balancedKinds, k.opens? = none ∧ k.closes? = none := by decide
  obtain ⟨hopens, hcloses⟩ := hkinds _ h
  rw [bracketStep, hopens, hcloses]

mutual
/-- Balanced tokens leave the brackets open that were open in front of them. -/
theorem Balanced.openBrackets_yield (b : Balanced) (stack : List Bracket) :
    openBrackets stack b.yield = some stack := by
  cases b with
  | empty => rfl
  | more before item =>
    rw [Balanced.yield, openBrackets_append, before.openBrackets_yield stack, Option.bind_some,
      item.openBrackets_yield stack]

theorem BalancedItem.openBrackets_yield (i : BalancedItem) (stack : List Bracket) :
    openBrackets stack i.yield = some stack := by
  cases i with
  | token t => simp [BalancedItem.yield, bracketStep_of_mem stack t.kind_mem]
  | group b opening inside closing =>
    -- what is inside leaves the bracket of the group the innermost one
    have hinside := inside.openBrackets_yield (b :: stack)
    simp [BalancedItem.yield, hinside]
end

/-- The brackets of a type are nested in each other. -/
theorem TypeTree.isBracketed (x : TypeTree) : IsBracketed x.yield := by
  obtain ⟨b, hb⟩ := x.balances .empty
  rw [Balanced.yield, List.nil_append] at hb
  exact hb ▸ b.openBrackets_yield []

/-! ## The members of a derivation -/

/-- The members in a list of members with their separators. -/
def MemberList.trees : MemberList → List MemberTree
  | .empty => []
  | .more before member _ => before.trees ++ [member]

/-- The members of an object type; those in the types of its members are not among them. -/
def ObjectType.trees : ObjectType → List MemberTree
  | .mk _ (.separated list) _ => list.trees
  | .mk _ (.last list member) _ => list.trees ++ [member]

/-- The members of a type that is one object type. -/
def TypeTree.trees : TypeTree → List MemberTree
  | .item (.object o) => o.trees
  | _ => []

/-- The members of an interface or of what an alias stands for. -/
def DeclarationTree.trees : DeclarationTree → List MemberTree
  | .interface i => i.body.trees
  | .alias a => a.type.trees

mutual
/-- The members of some statements, in order. -/
def Statements.trees : Statements → List MemberTree
  | .empty => []
  | .more before s => before.trees ++ s.trees
  termination_by structural s => s

/-- The members of a statement; those of a module block are the ones of its statements. -/
def StatementTree.trees : StatementTree → List MemberTree
  | .declaration d => d.trees
  | .exported _ d => d.trees
  | .import _ => []
  | .module _ _ _ _ body _ => body.trees
  termination_by structural s => s
end

/-! ### What they declare -/

theorem filterMap_property?_concat (trees : List MemberTree) (m : MemberTree) :
    (trees ++ [m]).filterMap MemberTree.property? =
      trees.filterMap MemberTree.property? ++ m.property?.toList := by
  cases h : m.property? <;> simp [h]

theorem MemberList.properties_eq (l : MemberList) :
    l.properties = l.trees.filterMap MemberTree.property? := by
  cases l with
  | empty => rfl
  | more before member separator =>
    rw [properties, trees, filterMap_property?_concat, before.properties_eq]

theorem ObjectType.properties_eq (o : ObjectType) :
    o.properties = o.trees.filterMap MemberTree.property? := by
  obtain ⟨opening, members, closing⟩ := o
  cases members with
  | separated list => exact list.properties_eq
  | last list member =>
    rw [properties, Members.properties, trees, filterMap_property?_concat, list.properties_eq]

theorem TypeTree.literal_eq (x : TypeTree) :
    x.literal.getD [] = x.trees.filterMap MemberTree.property? := by
  cases x with
  | item i =>
    cases i with
    | object o => exact o.properties_eq
    | token t => rfl
    | group b h g => rfl
  | more before i => rfl

theorem DeclarationTree.properties_eq (d : DeclarationTree) (isExported : Bool) :
    (d.statement isExported).properties = d.trees.filterMap MemberTree.property? := by
  cases d with
  | interface i => exact i.body.properties_eq
  | «alias» a => exact a.type.literal_eq

mutual
/-- The properties of some statements are what their members declare, in order. -/
theorem Statements.allProperties_eq (d : Statements) :
    allProperties d.statements = d.trees.filterMap MemberTree.property? := by
  cases d with
  | empty => rfl
  | more before s =>
    rw [Statements.statements, allProperties_append, before.allProperties_eq, s.allProperties_eq,
      Statements.trees, List.filterMap_append]

theorem StatementTree.allProperties_eq (s : StatementTree) :
    allProperties s.statement?.toList = s.trees.filterMap MemberTree.property? := by
  cases s with
  | declaration d =>
    rw [StatementTree.trees, ← d.properties_eq false]
    simp [StatementTree.statement?, allProperties]
  | exported word d =>
    rw [StatementTree.trees, ← d.properties_eq true]
    simp [StatementTree.statement?, allProperties]
  | «import» i => rfl
  | module declareWord word name opening body closing =>
    rw [StatementTree.trees, ← body.allProperties_eq]
    simp [StatementTree.statement?, allProperties, Statement.properties]
end

/-! ### Where they stand -/

/-- A member stands among some tokens, in front of a separator or a closing brace. -/
def MemberTree.StandsIn (m : MemberTree) (ts : List Token) : Prop :=
  ∃ before closing after, ts = before ++ m.yield ++ closing :: after ∧
    closing.kind ∈ [Kind.semicolon, .comma, .rightBrace]

theorem MemberTree.StandsIn.within {m : MemberTree} {ts : List Token} (h : m.StandsIn ts)
    (us vs : List Token) : m.StandsIn (us ++ ts ++ vs) := by
  obtain ⟨before, closing, after, rfl, hclosing⟩ := h
  exact ⟨us ++ before, closing, after ++ vs, by simp, hclosing⟩

variable {m : MemberTree}

theorem MemberList.standsIn {l : MemberList} (h : m ∈ l.trees) : m.StandsIn l.yield := by
  cases l with
  | empty => simp [trees] at h
  | more before member separator =>
    rw [trees, List.mem_append, List.mem_singleton] at h
    rw [MemberList.yield, List.append_assoc]
    obtain h | rfl := h
    · exact (MemberList.standsIn h).within [] _
    · exact ⟨before.yield, separator.token, [], by simp, separator_ends separator⟩

theorem ObjectType.standsIn {o : ObjectType} (h : m ∈ o.trees) : m.StandsIn o.yield := by
  obtain ⟨opening, members, closing⟩ := o
  rw [ObjectType.yield]
  cases members with
  | separated list => exact (MemberList.standsIn h).within [opening.token] [closing.token]
  | last list member =>
    rw [ObjectType.trees, List.mem_append, List.mem_singleton] at h
    rw [Members.yield]
    obtain h | rfl := h
    · simpa using (MemberList.standsIn h).within [opening.token] (member.yield ++ [closing.token])
    · exact ⟨opening.token :: list.yield, closing.token, [], by simp, by simp [closing.kind_eq]⟩

theorem TypeTree.standsIn {x : TypeTree} (h : m ∈ x.trees) : m.StandsIn x.yield := by
  cases x with
  | item i =>
    cases i with
    | object o =>
      rw [TypeTree.yield, TypeItem.yield]
      exact ObjectType.standsIn h
    | _ => simp [TypeTree.trees] at h
  | more before i => simp [TypeTree.trees] at h

theorem DeclarationTree.standsIn {d : DeclarationTree} (h : m ∈ d.trees) : m.StandsIn d.yield := by
  cases d with
  | interface i =>
    simpa [DeclarationTree.yield, InterfaceTree.yield] using
      (ObjectType.standsIn h).within (i.word.token :: i.name.token ::
        optionalGroupYield i.parameters ++ heritageYield i.heritage) []
  | «alias» a =>
    simpa [DeclarationTree.yield, AliasTree.yield] using
      (TypeTree.standsIn h).within (a.word.token :: a.name.token ::
        optionalGroupYield a.parameters ++ [a.equals.token]) (optionalYield a.semicolon)

mutual
/-- A member of some statements stands among their tokens. -/
theorem Statements.standsIn {d : Statements} (h : m ∈ d.trees) : m.StandsIn d.yield := by
  cases d with
  | empty => simp [Statements.trees] at h
  | more before s =>
    rw [Statements.trees, List.mem_append] at h
    rw [Statements.yield]
    obtain h | h := h
    · exact (Statements.standsIn h).within [] s.yield
    · simpa using (StatementTree.standsIn h).within before.yield []

theorem StatementTree.standsIn {s : StatementTree} (h : m ∈ s.trees) : m.StandsIn s.yield := by
  cases s with
  | declaration d =>
    rw [StatementTree.yield]
    exact DeclarationTree.standsIn h
  | exported word d =>
    simpa [StatementTree.yield] using (DeclarationTree.standsIn h).within [word.token] []
  | «import» i => simp [StatementTree.trees] at h
  | module declareWord word name opening body closing =>
    simpa [StatementTree.yield] using (Statements.standsIn h).within
      [declareWord.token, word.token, name.token, opening.token] [closing.token]
end

/-! ## Spans -/

/-- The span of a property is that of the type of its member. -/
theorem MemberTree.span_eq {p : Property} (h : m.property? = some p) :
    p.typeStart = m.type.start ∧ p.typeEnd = m.type.stop := by
  obtain ⟨head, colon, type⟩ := m
  cases head with
  | property name mark =>
    obtain rfl := Option.some.inj h
    exact ⟨rfl, rfl⟩
  | _ => simp [MemberTree.property?] at h

/-- In a text that can be read, every property is declared by a member of the derivation, in the
order of the members. Its span is not empty, starts where the first token of the member's type does
and stops where the last one does; in front of the type stands a colon, behind it a semicolon, a
comma or a closing brace, and the brackets in it are nested in each other. The spans come one after
the other. -/
theorem ofText_spans (text : String) (file : SourceFile) (h : SourceFile.ofText text = .ok file) :
    ∃ d : Statements, d.yield = tokens text ∧ d.statements = file.statements ∧
      allProperties file.statements = d.trees.filterMap MemberTree.property? ∧
      (∀ m ∈ d.trees, ∀ p, m.property? = some p →
        p.typeStart < p.typeEnd ∧ m.type.yield.head?.map Token.offset = some p.typeStart ∧
          m.type.yield.getLast?.map Token.stop = some p.typeEnd ∧
          (∃ before colon closing after,
            tokens text = before ++ m.head.yield ++ colon :: m.type.yield ++ closing :: after ∧
              colon.kind = .colon ∧ closing.kind ∈ [Kind.semicolon, .comma, .rightBrace]) ∧
          IsBracketed m.type.yield) ∧
      (allProperties file.statements).Pairwise fun p q => p.typeEnd ≤ q.typeStart := by
  have horderly := SourceFile.isOrderly_of_ofText h
  obtain ⟨d, hd, rfl⟩ := (ofText_eq_ok_iff text file).mp h
  have hyield := ((derive_eq_ok_iff text d).mp hd).1
  refine ⟨d, hyield, rfl, d.allProperties_eq, fun m hm p hp => ?_, horderly.apart⟩
  have hmem : p ∈ allProperties d.statements :=
    d.allProperties_eq ▸ List.mem_filterMap.mpr ⟨m, hm, hp⟩
  obtain ⟨hstart, hstop⟩ := MemberTree.span_eq hp
  obtain ⟨first, rest, hfirst, hoffset⟩ := m.type.yield_eq_cons
  obtain ⟨front, last, hlast, hend⟩ := m.type.yield_eq_append
  obtain ⟨before, closing, after, hplace, hclosing⟩ := Statements.standsIn hm
  refine ⟨horderly.span_lt p hmem, ?_, ?_, ⟨before, m.colon.token, closing, after, ?_,
    m.colon.kind_eq, hclosing⟩, m.type.isBracketed⟩
  · rw [hfirst, hstart, hoffset]
    rfl
  · rw [hlast, hstop, hend, List.getLast?_append]
    rfl
  · obtain ⟨head, colon, type⟩ := m
    simpa [MemberTree.yield] using hyield.symm.trans hplace

theorem tokens_twoSpans :
    tokens "declare module \"m\" \x7btype A = \x7bb: C<[D]>; e: \x7bf: 1\x7d\x7d\x7d" =
    [⟨.declareWord, "declare", 1, 0⟩, ⟨.moduleWord, "module", 1, 8⟩, ⟨.string, "\"m\"", 1, 15⟩,
      ⟨.leftBrace, "\x7b", 1, 19⟩, ⟨.typeWord, "type", 1, 20⟩, ⟨.identifier, "A", 1, 25⟩,
      ⟨.equals, "=", 1, 27⟩, ⟨.leftBrace, "\x7b", 1, 29⟩, ⟨.identifier, "b", 1, 30⟩,
      ⟨.colon, ":", 1, 31⟩, ⟨.identifier, "C", 1, 33⟩, ⟨.less, "<", 1, 34⟩,
      ⟨.leftBracket, "[", 1, 35⟩, ⟨.identifier, "D", 1, 36⟩, ⟨.rightBracket, "]", 1, 37⟩,
      ⟨.greater, ">", 1, 38⟩, ⟨.semicolon, ";", 1, 39⟩, ⟨.identifier, "e", 1, 41⟩,
      ⟨.colon, ":", 1, 42⟩, ⟨.leftBrace, "\x7b", 1, 44⟩, ⟨.identifier, "f", 1, 45⟩,
      ⟨.colon, ":", 1, 46⟩, ⟨.number, "1", 1, 48⟩, ⟨.rightBrace, "\x7d", 1, 49⟩,
      ⟨.rightBrace, "\x7d", 1, 50⟩, ⟨.rightBrace, "\x7d", 1, 51⟩] := by
  decide

/-- In a module block with an alias, the spans of two properties, one of them of an object type. -/
theorem ofText_spans_module :
    let text := "declare module \"m\" \x7btype A = \x7bb: C<[D]>; e: \x7bf: 1\x7d\x7d\x7d"
    ∃ d : Statements, d.yield = tokens text ∧
      d.trees.filterMap MemberTree.property? = [⟨"b", false, 33, 39⟩, ⟨"e", false, 44, 50⟩] ∧
      ∃ m ∈ d.trees, m.property? = some ⟨"e", false, 44, 50⟩ ∧
        m.type.yield.head?.map Token.offset = some 44 ∧
        m.type.yield.getLast?.map Token.stop = some 50 ∧ IsBracketed m.type.yield := by
  intro text
  have hfile : SourceFile.ofText text = .ok ⟨text, [], [.module "m"
      [.alias "A" false (some [⟨"b", false, 33, 39⟩, ⟨"e", false, 44, 50⟩])]]⟩ := by
    unfold SourceFile.ofText parse
    rw [show tokens text = _ from tokens_twoSpans]
    rfl
  obtain ⟨d, hyield, -, hall, hspans, -⟩ := ofText_spans text _ hfile
  have hdeclared : d.trees.filterMap MemberTree.property? =
      [⟨"b", false, 33, 39⟩, ⟨"e", false, 44, 50⟩] := by
    rw [← hall]
    rfl
  obtain ⟨m, hm, hp⟩ := List.mem_filterMap.mp
    (show (⟨"e", false, 44, 50⟩ : Property) ∈ d.trees.filterMap MemberTree.property? by
      simp [hdeclared])
  obtain ⟨-, hfirst, hlast, -, hbrackets⟩ := hspans m hm _ hp
  exact ⟨d, hyield, hdeclared, m, hm, hp, hfirst, hlast, hbrackets⟩

end SchemaTypings.Declaration
