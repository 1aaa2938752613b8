import SchemaTypings.Proofs.Derivation.Soundness

/-!
# Every derivation is read

Reading the tokens of a derivation leads from the position in front of it to the position behind
it, which then holds the derivation; only a name that is no literal stops it. `Progress.Reads` says
this of a piece of a file, and it is shown for every nonterminal by induction on its derivations. A
statement that may end without a semicolon is taken as complete only when the next token comes:
`Progress.GoesOnAs` compares the position behind it with the position of the next statement.
-/

namespace SchemaTypings.Declaration

namespace Progress

/-- Reading `ts` checks the names among them in order and leads from `p` to `q`. -/
def Reads (p : Progress) (ts names : List Token) (q : Progress) : Prop :=
  ts.foldlM step p = do
    forM names checkName
    return q

theorem Reads.nil (p : Progress) : p.Reads [] [] p := rfl

/-- Pieces of a file are read one after the other. -/
theorem Reads.append {p q r : Progress} {ts us names more : List Token} (h : p.Reads ts names q)
    (h' : q.Reads us more r) : p.Reads (ts ++ us) (names ++ more) r := by
  unfold Reads at *
  rw [List.foldlM_append, h, List.forM_append, bind_assoc, bind_assoc]
  simp only [pure_bind]
  rw [h']

/-- A step that checks no name reads its token. -/
theorem Reads.of_step {p q : Progress} {t : Token} (h : p.step t = .ok q) : p.Reads [t] [] q := by
  unfold Reads
  rw [List.foldlM_cons, h]
  rfl

/-- A step that checks a name reads its token. -/
theorem Reads.of_readName {p q : Progress} {t name : Token} (h : p.step t = readName name q) :
    p.Reads [t] [name] q := by
  unfold Reads
  rw [List.foldlM_cons, h]
  unfold readName
  simp

/-- A token and what follows it. -/
theorem Reads.cons {p q r : Progress} {t : Token} {us names : List Token} (h : p.step t = .ok q)
    (h' : q.Reads us names r) : p.Reads (t :: us) names r :=
  (Reads.of_step h).append h'

end Progress

/-! ## Balanced tokens -/

/-- No bracket stands in a group by itself. -/
theorem closing_not_mem_balancedKinds (b : Bracket) : b.closing ∉ balancedKinds := by
  cases b <;> decide

theorem opening_not_mem_balancedKinds (b : Bracket) : b.opening ∉ balancedKinds := by
  cases b <;> decide

theorem opening_ne_closing (b b' : Bracket) : b.opening ≠ b'.closing := by
  cases b <;> cases b' <;> decide

/-- The kind of a leaf that allows one kind. -/
theorem Leaf.kind_eq {k : Kind} (l : Leaf [k]) : l.token.kind = k :=
  List.mem_singleton.mp l.kind_mem

/-- A leaf that allows one kind is a token of that kind. -/
theorem Leaf.one {k : Kind} {motive : Leaf [k] → Prop}
    (mk : ∀ text line offset, motive (.ofKind ⟨k, text, line, offset⟩ rfl)) (l : Leaf [k]) :
    motive l := by
  obtain ⟨⟨kind, text, line, offset⟩, h⟩ := l
  obtain rfl := List.mem_singleton.mp h
  exact mk text line offset

namespace Progress

theorem step_balancedToken (p : Progress) (b : Bracket) (opening : Leaf [b.opening])
    (inside : Balanced) (use : GroupUse b) (t : Leaf balancedKinds) :
    (p.goto (.group b opening inside use)).step t.token =
      .ok (p.goto (.group b opening (.more inside (.token t)) use)) := by
  have hne : t.token.kind ≠ b.closing := fun h =>
    closing_not_mem_balancedKinds b (h ▸ t.kind_mem)
  simp only [step, goto, groupStep, dif_neg hne, dif_pos t.kind_mem]

theorem step_closing (p : Progress) (b : Bracket) (opening : Leaf [b.opening])
    (inside : Balanced) (use : GroupUse b) (closing : Leaf [b.closing]) :
    (p.goto (.group b opening inside use)).step closing.token =
      .ok (p.closeGroup ⟨opening, inside, closing⟩ use) := by
  simp only [step, goto, groupStep, dif_pos closing.kind_eq]
  rfl

theorem step_nestedOpening (p : Progress) (b c : Bracket) (opening : Leaf [b.opening])
    (inside : Balanced) (use : GroupUse b) (inner : Leaf [c.opening]) :
    (p.goto (.group b opening inside use)).step inner.token =
      .ok (p.openGroup c inner (.nested b opening inside use)) := by
  have hne : inner.token.kind ≠ b.closing := fun h =>
    opening_ne_closing c b (inner.kind_eq.symm.trans h)
  have hmem : inner.token.kind ∉ balancedKinds := fun h =>
    opening_not_mem_balancedKinds c (inner.kind_eq ▸ h)
  simp only [step, goto, groupStep, dif_neg hne, dif_neg hmem]
  cases inner using Leaf.one
  cases c <;> rfl

end Progress

open Progress

mutual
/-- A balanced run is read inside its group. -/
theorem Balanced.reads (run : Balanced) (p : Progress) (b : Bracket) (opening : Leaf [b.opening])
    (use : GroupUse b) :
    (p.openGroup b opening use).Reads run.yield [] (p.goto (.group b opening run use)) := by
  cases run with
  | empty => exact .nil _
  | more before item => exact (before.reads p b opening use).append (item.reads p b opening before use)

/-- An item goes on with a balanced run. -/
theorem BalancedItem.reads (item : BalancedItem) (p : Progress) (b : Bracket)
    (opening : Leaf [b.opening]) (before : Balanced) (use : GroupUse b) :
    (p.goto (.group b opening before use)).Reads item.yield []
      (p.goto (.group b opening (.more before item) use)) := by
  cases item with
  | token t => exact .of_step (step_balancedToken p b opening before use t)
  | group c inner inside closing =>
    have h := inside.reads p c inner (.nested b opening before use)
    exact .cons (step_nestedOpening p b c opening before use inner)
      (h.append (.of_step (step_closing p c inner inside _ closing)))
end

/-- What is behind the opening bracket of a group is read up to the end of the group. -/
theorem Group.reads {b : Bracket} (g : Group b) (p : Progress) (use : GroupUse b) :
    (p.openGroup b g.opening use).Reads (g.inside.yield ++ [g.closing.token]) []
      (p.closeGroup g use) :=
  (g.inside.reads p b g.opening use).append (.of_step (step_closing p b g.opening g.inside use _))

/-- A group is read by a step that opens it. -/
theorem Group.reads_of_step {b : Bracket} (g : Group b) {p q : Progress} {use : GroupUse b}
    (h : q.step g.opening.token = .ok (p.openGroup b g.opening use)) :
    q.Reads g.yield [] (p.closeGroup g use) :=
  .cons h (g.reads p use)

/-- A group that may be left out is read from the position without it to the position with it. -/
theorem reads_optionalGroup {b : Bracket} (p : Progress) (use : GroupUse b)
    (head : Option (Group b) → Position)
    (hopen : ∀ opening : Leaf [b.opening],
      (p.goto (head none)).step opening.token = .ok (p.openGroup b opening use))
    (hclose : ∀ g, p.closeGroup g use = p.goto (head (some g))) (g : Option (Group b)) :
    (p.goto (head none)).Reads (optionalGroupYield g) [] (p.goto (head g)) := by
  cases g with
  | none => exact .nil _
  | some g => exact hclose g ▸ g.reads_of_step (hopen g.opening)

/-! ## Members and types -/

namespace Progress

theorem step_name (p : Progress) (object : OpenObject) (name : Leaf nameKinds) :
    (p.goto (.member object)).step name.token = .ok (p.goto (.memberName name object)) := by
  simp only [step, goto, memberStep, dif_pos name.kind_mem]

theorem step_expected (p : Progress) (k : Kind) (next : Leaf [k] → Position) (t : Leaf [k]) :
    p.expect k t.token next = .ok (p.goto (next t)) := by
  simp only [expect, dif_pos t.kind_eq]
  rfl

theorem step_typeToken (p : Progress) (run : Option TypeTree) (use : TypeUse)
    (t : Leaf typeKinds) :
    (p.goto (.type run use)).step t.token =
      .ok (p.goto (.type (some (.extend run (.token t))) use)) := by
  simp only [step, goto, typeStep, dif_pos t.kind_mem]

theorem step_typeGroup (p : Progress) (run : Option TypeTree) (use : TypeUse) (b : Bracket)
    (hb : b ≠ .brace) (opening : Leaf [b.opening]) :
    (p.goto (.type run use)).step opening.token =
      .ok (p.openGroup b opening (.typeItem hb run use)) := by
  cases opening using Leaf.one
  cases b with
  | brace => exact absurd rfl hb
  | _ => rfl

theorem step_typeObject (p : Progress) (run : Option TypeTree) (use : TypeUse)
    (opening : Leaf [.leftBrace]) :
    (p.goto (.type run use)).step opening.token =
      .ok (p.goto (.member (.mk opening .empty (.typeItem run use)))) := by
  cases opening using Leaf.one
  rfl

theorem step_separator (p : Progress) (type : TypeTree) (head : MemberHead) (colon : Leaf [.colon])
    (opening : Leaf [.leftBrace]) (members : MemberList) (use : ObjectUse)
    (separator : Leaf [.semicolon, .comma]) :
    (p.goto (.type (some type) (.member head colon (.mk opening members use)))).step
        separator.token =
      .ok (p.goto (.member (.mk opening (.more members (.mk head colon type) separator) use))) := by
  obtain ⟨⟨k, text, line, offset⟩, hk⟩ := separator
  have hk' : k = .semicolon ∨ k = .comma := by simpa using hk
  rcases hk' with rfl | rfl <;> rfl

theorem step_lastMember (p : Progress) (type : TypeTree) (head : MemberHead)
    (colon : Leaf [.colon]) (opening : Leaf [.leftBrace]) (members : MemberList) (use : ObjectUse)
    (closing : Leaf [.rightBrace]) :
    (p.goto (.type (some type) (.member head colon (.mk opening members use)))).step
        closing.token =
      .ok (p.closeObject (.last members (.mk head colon type)) closing opening use) := by
  cases closing using Leaf.one
  rfl

theorem step_closeObject (p : Progress) (opening : Leaf [.leftBrace]) (members : MemberList)
    (use : ObjectUse) (closing : Leaf [.rightBrace]) :
    (p.goto (.member (.mk opening members use))).step closing.token =
      .ok (p.closeObject (.separated members) closing opening use) := by
  cases closing using Leaf.one
  rfl

end Progress

/-- The name of a property is read together with the colon, which shows that it is one. -/
theorem reads_propertyHead (p : Progress) (object : OpenObject) (name : Leaf nameKinds)
    (mark : Option (Leaf [.question])) (colon : Leaf [.colon]) :
    (p.goto (.member object)).Reads (name.token :: optionalYield mark ++ [colon.token])
      [name.token] (p.goto (.type none (.member (.property name mark) colon object))) := by
  cases colon using Leaf.one
  refine .cons (step_name p object name) ?_
  cases mark with
  | none => exact .of_readName rfl
  | some mark =>
    cases mark using Leaf.one
    exact .append (.of_readName rfl) (.of_step rfl)

/-- The name of a method is read together with its parameters. -/
theorem reads_methodHead (p : Progress) (object : OpenObject) (name : Leaf nameKinds)
    (mark : Option (Leaf [.question])) (parameters : Group .paren) :
    (p.goto (.member object)).Reads (name.token :: optionalYield mark ++ parameters.yield)
      [name.token] (p.goto (.colon (.method name mark parameters) object)) := by
  have hgroup := parameters.reads p (.method name mark object)
  obtain ⟨opening, inside, closing⟩ := parameters
  cases opening using Leaf.one
  refine .cons (step_name p object name) ?_
  cases mark with
  | none => exact .append (.of_readName rfl) hgroup
  | some mark =>
    cases mark using Leaf.one
    exact .append (.of_readName rfl) (.cons rfl hgroup)

/-- What stands in front of the type of a member is read up to its colon. -/
theorem MemberHead.reads (head : MemberHead) (p : Progress) (object : OpenObject)
    (colon : Leaf [.colon]) :
    (p.goto (.member object)).Reads (head.yield ++ [colon.token]) head.names
      (p.goto (.type none (.member head colon object))) := by
  have hcolon : ∀ head, (p.goto (.colon head object)).Reads [colon.token] []
      (p.goto (.type none (.member head colon object))) := fun head =>
    .of_step (step_expected (p.goto (.colon head object)) .colon
      (fun colon => .type none (.member head colon object)) colon)
  cases head with
  | property name mark => exact reads_propertyHead p object name mark colon
  | method name mark parameters =>
    exact (reads_methodHead p object name mark parameters).append (hcolon _)
  | call parameters =>
    have hopen : (p.goto (.member object)).step parameters.opening.token =
        .ok (p.openGroup .paren parameters.opening (.call object)) := by
      obtain ⟨opening, inside, closing⟩ := parameters
      cases opening using Leaf.one
      rfl
    exact (parameters.reads_of_step hopen).append (hcolon _)
  | index key mark =>
    have hopen : (p.goto (.member object)).step key.opening.token =
        .ok (p.openGroup .square key.opening (.index object)) := by
      obtain ⟨opening, inside, closing⟩ := key
      cases opening using Leaf.one
      rfl
    have hkey := key.reads_of_step hopen
    cases mark with
    | none =>
      cases colon using Leaf.one
      simpa [MemberHead.yield, MemberHead.names] using hkey.append (.of_step rfl)
    | some mark =>
      cases mark using Leaf.one
      simpa [MemberHead.yield, MemberHead.names] using (hkey.append (.of_step rfl)).append (hcolon _)

mutual
/-- The members of an object type are read up to its closing brace. -/
theorem Members.reads (m : Members) (p : Progress) (opening : Leaf [.leftBrace])
    (use : ObjectUse) (closing : Leaf [.rightBrace]) :
    (p.goto (.member (.mk opening .empty use))).Reads (m.yield ++ [closing.token]) m.names
      (p.closeObject m closing opening use) := by
  cases m with
  | separated list =>
    have hlist := list.reads p opening use
    have hclose := Reads.of_step (step_closeObject p opening list use closing)
    simpa [Members.yield, Members.names] using hlist.append hclose
  | last list member =>
    have hlist := list.reads p opening use
    have hmember := member.reads p (.mk opening list use)
    have hclose := Reads.of_step (step_lastMember p member.type member.head member.colon opening
      list use closing)
    simpa [Members.yield, Members.names] using
      (hlist.append hmember).append hclose

/-- Members with their separators are read behind the opening brace. -/
theorem MemberList.reads (list : MemberList) (p : Progress) (opening : Leaf [.leftBrace])
    (use : ObjectUse) :
    (p.goto (.member (.mk opening .empty use))).Reads list.yield list.names
      (p.goto (.member (.mk opening list use))) := by
  cases list with
  | empty => exact .nil _
  | more before member separator =>
    have hbefore := before.reads p opening use
    have hmember := member.reads p (.mk opening before use)
    have hseparator := Reads.of_step (step_separator p member.type member.head member.colon
      opening before use separator)
    simpa [MemberList.yield, MemberList.names] using (hbefore.append hmember).append hseparator

/-- A member is read up to the end of its type. -/
theorem MemberTree.reads (m : MemberTree) (p : Progress) (object : OpenObject) :
    (p.goto (.member object)).Reads m.yield m.names
      (p.goto (.type (some m.type) (.member m.head m.colon object))) := by
  cases m with
  | mk head colon type =>
    have hhead := head.reads p object colon
    have htype := type.reads p (.member head colon object)
    simpa [MemberTree.yield, MemberTree.names] using hhead.append htype

/-- A type is read up to its last item; the token behind it ends it. -/
theorem TypeTree.reads (type : TypeTree) (p : Progress) (use : TypeUse) :
    (p.goto (.type none use)).Reads type.yield type.names (p.goto (.type (some type) use)) := by
  cases type with
  | item i => exact i.reads p none use
  | more before i => exact (before.reads p use).append (i.reads p (some before) use)

/-- An item goes on with a type. -/
theorem TypeItem.reads (i : TypeItem) (p : Progress) (run : Option TypeTree) (use : TypeUse) :
    (p.goto (.type run use)).Reads i.yield i.names
      (p.goto (.type (some (.extend run i)) use)) := by
  cases i with
  | token t => exact .of_step (step_typeToken p run use t)
  | group b hb g => exact g.reads_of_step (step_typeGroup p run use b hb g.opening)
  | object o =>
    cases o with
    | mk opening members closing =>
      exact .cons (step_typeObject p run use opening)
        (members.reads p opening (.typeItem run use) closing)
end

/-! ## Interfaces -/

/-- The references in front of the last one, with the comma behind them. -/
def References.front : References → Option (References × Leaf [.comma])
  | .one _ => none
  | .more before comma _ => some (before, comma)

/-- The last reference. -/
def References.final : References → Reference
  | .one r | .more _ _ r => r

/-- Closing the references with the last one gives them all. -/
theorem close_front (start : InterfaceStart) (parameters : Option (Group .angle))
    (word : Leaf [.extendsWord]) (r : References) :
    OpenHeritage.close ⟨start, parameters, word, r.front⟩ r.final = r := by
  cases r <;> rfl

/-- A name with dots is read behind `extends` or a comma. -/
theorem QualifiedName.reads (n : QualifiedName) (p : Progress) (heritage : OpenHeritage) :
    (p.goto (.referenceName heritage none)).Reads n.yield []
      (p.goto (.referenceTail heritage n none)) := by
  induction n with
  | name n =>
    cases n using Leaf.one
    exact .of_step rfl
  | dotted before dot n ih =>
    cases dot using Leaf.one
    cases n using Leaf.one
    exact ih.append (.cons rfl (.of_step rfl))

/-- A reference is read behind `extends` or a comma. -/
theorem Reference.reads (r : Reference) (p : Progress) (heritage : OpenHeritage) :
    (p.goto (.referenceName heritage none)).Reads r.yield []
      (p.goto (.referenceTail heritage r.name r.arguments)) := by
  obtain ⟨name, arguments⟩ := r
  have harguments := reads_optionalGroup p (.referenceArguments heritage name)
    (.referenceTail heritage name) (fun opening => by cases opening using Leaf.one; rfl)
    (fun _ => rfl) arguments
  exact (name.reads p heritage).append harguments

theorem step_comma (p : Progress) (heritage : OpenHeritage) (r : Reference) (comma : Leaf [.comma]) :
    (p.goto (.referenceTail heritage r.name r.arguments)).step comma.token =
      .ok (p.goto (.referenceName { heritage with before := some (heritage.close r, comma) }
        none)) := by
  cases comma using Leaf.one
  obtain ⟨name, arguments⟩ := r
  cases arguments <;> rfl

theorem step_bodyBrace (p : Progress) (heritage : OpenHeritage) (r : Reference)
    (opening : Leaf [.leftBrace]) :
    (p.goto (.referenceTail heritage r.name r.arguments)).step opening.token =
      .ok (p.goto (.member (.mk opening .empty (.interfaceBody heritage.start heritage.parameters
        (some ⟨heritage.word, heritage.close r⟩))))) := by
  cases opening using Leaf.one
  obtain ⟨name, arguments⟩ := r
  cases arguments <;> rfl

/-- The references of an interface are read behind `extends`. -/
theorem References.reads (r : References) (p : Progress) (start : InterfaceStart)
    (parameters : Option (Group .angle)) (word : Leaf [.extendsWord]) :
    (p.goto (.referenceName ⟨start, parameters, word, none⟩ none)).Reads r.yield []
      (p.goto (.referenceTail ⟨start, parameters, word, r.front⟩ r.final.name
        r.final.arguments)) := by
  induction r with
  | one r => exact r.reads p _
  | more before comma r ih =>
    have hcomma := step_comma p ⟨start, parameters, word, before.front⟩ before.final comma
    rw [close_front] at hcomma
    exact ih.append (.cons hcomma (r.reads p ⟨start, parameters, word, some (before, comma)⟩))

/-- What an interface extends is read up to the brace of its body. -/
theorem reads_heritage (heritage : Option Heritage) (p : Progress) (start : InterfaceStart)
    (parameters : Option (Group .angle)) (opening : Leaf [.leftBrace]) :
    (p.goto (.interfaceHead start parameters)).Reads (heritageYield heritage ++ [opening.token]) []
      (p.goto (.member (.mk opening .empty (.interfaceBody start parameters heritage)))) := by
  cases heritage with
  | none =>
    cases opening using Leaf.one
    cases parameters <;> exact .of_step rfl
  | some h =>
    obtain ⟨word, references⟩ := h
    have hword : (p.goto (.interfaceHead start parameters)).step word.token =
        .ok (p.goto (.referenceName ⟨start, parameters, word, none⟩ none)) := by
      cases word using Leaf.one
      cases parameters <;> rfl
    have hbrace := step_bodyBrace p ⟨start, parameters, word, references.front⟩ references.final
      opening
    rw [close_front] at hbrace
    exact .cons hword ((references.reads p start parameters word).append (.of_step hbrace))

/-- An interface is read behind its first word. -/
theorem InterfaceTree.reads (i : InterfaceTree) (p q : Progress)
    (exportWord : Option (Leaf [.exportWord]))
    (h : q.step i.word.token = .ok (p.goto (.interfaceName exportWord i.word))) :
    q.Reads i.yield i.body.names (p.finish (.ofDeclaration exportWord (.interface i))) := by
  obtain ⟨word, name, parameters, heritage, ⟨opening, members, closing⟩⟩ := i
  have hname := step_expected (p.goto (.interfaceName exportWord word)) .identifier
    (fun name => .interfaceHead ⟨exportWord, word, name⟩ none) name
  have hparameters := reads_optionalGroup p (.interfaceParameters ⟨exportWord, word, name⟩)
    (.interfaceHead ⟨exportWord, word, name⟩)
    (fun opening => by cases opening using Leaf.one; rfl) (fun _ => rfl) parameters
  have hheritage := reads_heritage heritage p ⟨exportWord, word, name⟩ parameters opening
  have hbody := members.reads p opening
    (.interfaceBody ⟨exportWord, word, name⟩ parameters heritage) closing
  have hall := Reads.cons h (.cons hname ((hparameters.append hheritage).append hbody))
  simpa [InterfaceTree.yield, ObjectType.yield, ObjectType.names, closeObject] using hall

/-! ## Statements -/

/-- The kinds of the tokens that begin a statement or end a block. -/
def statementKinds : List Kind :=
  [.exportWord, .interfaceWord, .typeWord, .declareWord, .importWord, .rightBrace]

namespace Progress

/-- The position behind a statement goes on like the one in front of the next statement. -/
structure GoesOnAs (p q : Progress) : Prop where
  step_eq : ∀ t : Token, t.kind ∈ statementKinds → p.step t = q.step t
  complete_eq : p.complete = q.complete

/-- The word that begins a statement is read behind another one. -/
theorem GoesOnAs.step_leaf {p q : Progress} (h : p.GoesOnAs q) {k : Kind} (l : Leaf [k])
    (hk : k ∈ statementKinds) : p.step l.token = q.step l.token :=
  h.step_eq l.token (l.kind_eq.symm ▸ hk)

theorem GoesOnAs.refl (p : Progress) : p.GoesOnAs p := ⟨fun _ _ => rfl, rfl⟩

/-- An alias goes on behind its type as if it were complete. -/
theorem alias_goesOnAs (p : Progress) (start : AliasStart) (parameters : Option (Group .angle))
    (equals : Leaf [.equals]) (type : TypeTree) :
    (p.goto (.type (some type) (.alias start parameters equals))).GoesOnAs
      (p.finishAlias start parameters equals type none) where
  step_eq := by
    rintro ⟨k, text, line, offset⟩ h
    simp only [statementKinds, List.mem_cons, List.not_mem_nil, or_false] at h
    obtain rfl | rfl | rfl | rfl | rfl | rfl := h <;> rfl
  complete_eq := by
    obtain ⟨_ | ⟨m, enclosing⟩, done, position⟩ := p <;> rfl

/-- An import goes on behind its clause as if it were complete. -/
theorem import_goesOnAs (p : Progress) (word : Leaf [.importWord])
    (typeWord : Option (Leaf [.typeWord])) (clause : ImportClause) :
    (p.goto (.importItems ⟨word, typeWord, some clause⟩)).GoesOnAs
      (p.finishImport ⟨word, typeWord, none⟩ clause none) where
  step_eq := by
    rintro ⟨k, text, line, offset⟩ h
    simp only [statementKinds, List.mem_cons, List.not_mem_nil, or_false] at h
    obtain rfl | rfl | rfl | rfl | rfl | rfl := h <;> rfl
  complete_eq := by
    obtain ⟨_ | ⟨m, enclosing⟩, done, position⟩ := p <;> rfl

end Progress

/-- An alias is read behind its first word. -/
theorem AliasTree.reads (a : AliasTree) (p q : Progress)
    (exportWord : Option (Leaf [.exportWord]))
    (h : q.step a.word.token = .ok (p.goto (.aliasName exportWord a.word))) :
    ∃ r, q.Reads a.yield a.type.names r ∧
      r.GoesOnAs (p.finish (.ofDeclaration exportWord (.alias a))) := by
  obtain ⟨word, name, parameters, equals, type, semicolon⟩ := a
  have hname := step_expected (p.goto (.aliasName exportWord word)) .identifier
    (fun name => .aliasHead ⟨exportWord, word, name⟩ none) name
  have hparameters := reads_optionalGroup p (.aliasParameters ⟨exportWord, word, name⟩)
    (.aliasHead ⟨exportWord, word, name⟩)
    (fun opening => by cases opening using Leaf.one; rfl) (fun _ => rfl) parameters
  have hequals : (p.goto (.aliasHead ⟨exportWord, word, name⟩ parameters)).step equals.token =
      .ok (p.goto (.type none (.alias ⟨exportWord, word, name⟩ parameters equals))) := by
    cases equals using Leaf.one
    cases parameters <;> rfl
  have htype := type.reads p (.alias ⟨exportWord, word, name⟩ parameters equals)
  have hall := Reads.cons h (.cons hname (hparameters.append (.cons hequals htype)))
  cases semicolon with
  | none =>
    exact ⟨_, by simpa [AliasTree.yield] using hall,
      alias_goesOnAs p ⟨exportWord, word, name⟩ parameters equals type⟩
  | some semicolon =>
    have hend : (p.goto (.type (some type) (.alias ⟨exportWord, word, name⟩ parameters
        equals))).step semicolon.token =
        .ok (p.finishAlias ⟨exportWord, word, name⟩ parameters equals type (some semicolon)) := by
      cases semicolon using Leaf.one
      rfl
    have hread := hall.append (.of_step hend)
    exact ⟨_, by simpa [AliasTree.yield, finishAlias] using hread, .refl _⟩

/-- An item goes on with an import. -/
theorem ImportItem.reads (item : ImportItem) (p : Progress) (i : OpenImport) :
    (p.goto (.importItems i)).Reads item.yield []
      (p.goto (.importItems { i with clause := some (.extend i.clause item) })) := by
  cases item with
  | token t =>
    have hstep : (p.goto (.importItems i)).step t.token =
        .ok (p.goto (.importItems { i with clause := some (.extend i.clause (.token t)) })) := by
      simp only [step, goto, importStep, dif_pos t.kind_mem]
    exact .of_step hstep
  | group b hb g =>
    have hopen : (p.goto (.importItems i)).step g.opening.token =
        .ok (p.openGroup b g.opening (.importItem hb i)) := by
      obtain ⟨opening, inside, closing⟩ := g
      cases opening using Leaf.one
      obtain rfl | rfl := hb <;> rfl
    exact g.reads_of_step hopen

/-- What is imported is read behind the words in front of it. -/
theorem ImportClause.reads (clause : ImportClause) (p : Progress) (word : Leaf [.importWord])
    (typeWord : Option (Leaf [.typeWord])) :
    (p.goto (.importItems ⟨word, typeWord, none⟩)).Reads clause.yield []
      (p.goto (.importItems ⟨word, typeWord, some clause⟩)) := by
  induction clause with
  | item i => exact i.reads p ⟨word, typeWord, none⟩
  | more before i ih => exact ih.append (i.reads p ⟨word, typeWord, some before⟩)

/-- What is imported does not begin with the word `type`. -/
theorem ImportClause.yield_eq_cons (clause : ImportClause) :
    ∃ t rest, clause.yield = t :: rest ∧ t.kind ≠ .typeWord := by
  induction clause with
  | item i =>
    cases i with
    | token t => exact ⟨t.token, [], rfl, fun h => absurd (h ▸ t.kind_mem) (by decide)⟩
    | group b hb g =>
      refine ⟨g.opening.token, _, rfl, ?_⟩
      rw [g.opening.kind_eq]
      cases b <;> decide
  | more before i ih =>
    obtain ⟨t, rest, hyield, ht⟩ := ih
    exact ⟨t, rest ++ i.yield, by simp [ImportClause.yield, hyield], ht⟩

/-- Without the word `type` what is imported is read behind the first word of the import. -/
theorem ImportClause.reads_head (clause : ImportClause) (p : Progress) (word : Leaf [.importWord]) :
    (p.goto (.importHead word)).Reads clause.yield []
      (p.goto (.importItems ⟨word, none, some clause⟩)) := by
  have hreads := clause.reads p word none
  obtain ⟨t, rest, hyield, ht⟩ := clause.yield_eq_cons
  have hstep : (p.goto (.importHead word)).step t =
      (p.goto (.importItems ⟨word, none, none⟩)).step t := by
    simp only [step, goto, importHeadStep, dif_neg ht]
    rfl
  rw [hyield] at hreads ⊢
  unfold Reads at hreads ⊢
  rwa [List.foldlM_cons, hstep, ← List.foldlM_cons]

/-- An import is read behind its first word. -/
theorem ImportTree.reads (i : ImportTree) (p q : Progress)
    (h : q.step i.word.token = .ok (p.goto (.importHead i.word))) :
    ∃ r, q.Reads i.yield [] r ∧ r.GoesOnAs (p.finish (.import i)) := by
  obtain ⟨word, typeWord, clause, semicolon⟩ := i
  have hclause : (p.goto (.importHead word)).Reads (optionalYield typeWord ++ clause.yield) []
      (p.goto (.importItems ⟨word, typeWord, some clause⟩)) := by
    cases typeWord with
    | none => exact clause.reads_head p word
    | some typeWord =>
      have hreads := clause.reads p word (some typeWord)
      cases typeWord using Leaf.one
      exact .cons rfl hreads
  have hall := Reads.cons h hclause
  cases semicolon with
  | none => exact ⟨_, by simpa [ImportTree.yield] using hall, import_goesOnAs p word typeWord clause⟩
  | some semicolon =>
    have hend : (p.goto (.importItems ⟨word, typeWord, some clause⟩)).step semicolon.token =
        .ok (p.finish (.import ⟨word, typeWord, clause, some semicolon⟩)) := by
      cases semicolon using Leaf.one
      rfl
    have hread := hall.append (.of_step hend)
    exact ⟨_, by simpa [ImportTree.yield] using hread, .refl _⟩

/-- A declaration is read where a statement may begin, and behind the word that exports it. -/
theorem DeclarationTree.reads (d : DeclarationTree) (p q : Progress)
    (exportWord : Option (Leaf [.exportWord]))
    (hinterface : ∀ word : Leaf [.interfaceWord],
      q.step word.token = .ok (p.goto (.interfaceName exportWord word)))
    (halias : ∀ word : Leaf [.typeWord],
      q.step word.token = .ok (p.goto (.aliasName exportWord word))) :
    ∃ r, q.Reads d.yield d.names r ∧ r.GoesOnAs (p.finish (.ofDeclaration exportWord d)) := by
  cases d with
  | interface i => exact ⟨_, i.reads p q exportWord (hinterface i.word), .refl _⟩
  | «alias» a => exact a.reads p q exportWord (halias a.word)

namespace Progress

/-- The place of the next statement after some others, in the innermost of some module blocks. -/
def between (enclosing : List OpenModule) (before : Statements) : Progress :=
  ⟨enclosing, before, .statement⟩

variable (enclosing : List OpenModule) (before : Statements)

theorem step_interfaceWord (word : Leaf [.interfaceWord]) :
    (between enclosing before).step word.token =
      .ok ((between enclosing before).goto (.interfaceName none word)) := by
  cases word using Leaf.one
  rfl

theorem step_typeWord (word : Leaf [.typeWord]) :
    (between enclosing before).step word.token =
      .ok ((between enclosing before).goto (.aliasName none word)) := by
  cases word using Leaf.one
  rfl

theorem step_exportWord (word : Leaf [.exportWord]) :
    (between enclosing before).step word.token =
      .ok ((between enclosing before).goto (.exported word)) := by
  cases word using Leaf.one
  rfl

theorem step_importWord (word : Leaf [.importWord]) :
    (between enclosing before).step word.token =
      .ok ((between enclosing before).goto (.importHead word)) := by
  cases word using Leaf.one
  rfl

theorem step_declareWord (word : Leaf [.declareWord]) :
    (between enclosing before).step word.token =
      .ok ((between enclosing before).goto (.moduleWord word)) := by
  cases word using Leaf.one
  rfl

end Progress

/-- A declaration is read behind the word that exports it. -/
theorem DeclarationTree.reads_exported (d : DeclarationTree) (p : Progress)
    (word : Leaf [.exportWord]) :
    ∃ r, (p.goto (.exported word)).Reads d.yield d.names r ∧
      r.GoesOnAs (p.finish (.exported word d)) := by
  refine d.reads p (p.goto (.exported word)) (some word) (fun first => ?_) (fun first => ?_)
  · cases first using Leaf.one
    rfl
  · cases first using Leaf.one
    rfl

/-- What opens a module block is read up to its brace. -/
theorem reads_moduleHead (enclosing : List OpenModule) (before : Statements)
    (declareWord : Leaf [.declareWord]) (word : Leaf [.moduleWord])
    (name : Leaf [.string, .identifier]) (opening : Leaf [.leftBrace]) :
    ((between enclosing before).goto (.moduleWord declareWord)).Reads
      [word.token, name.token, opening.token] [name.token]
      (between (⟨before, declareWord, word, name, opening⟩ :: enclosing) .empty) := by
  have hword := step_expected ((between enclosing before).goto (.moduleWord declareWord))
    .moduleWord (fun word => .moduleName declareWord word) word
  have hname : ((between enclosing before).goto (.moduleName declareWord word)).step name.token =
      readName name.token
        ((between enclosing before).goto (.moduleBrace declareWord word name)) := by
    simp only [step, goto, moduleNameStep, dif_pos name.kind_mem]
  have hbrace : ((between enclosing before).goto (.moduleBrace declareWord word name)).step
      opening.token =
        .ok (between (⟨before, declareWord, word, name, opening⟩ :: enclosing) .empty) := by
    cases opening using Leaf.one
    rfl
  exact .cons hword (.append (.of_readName hname) (.of_step hbrace))

mutual
/-- Statements are read one after the other, each once the one in front of it is complete. -/
theorem Statements.reads (statements : Statements) (enclosing : List OpenModule) :
    ∃ r, (between enclosing .empty).Reads statements.yield statements.names r ∧
      r.GoesOnAs (between enclosing statements) := by
  cases statements with
  | empty => exact ⟨_, .nil _, .refl _⟩
  | more before s =>
    obtain ⟨q, hbefore, hgoes⟩ := before.reads enclosing
    obtain ⟨r, hs, hr⟩ := s.reads enclosing before q hgoes
    exact ⟨r, hbefore.append hs, hr⟩

/-- A statement is read behind others. -/
theorem StatementTree.reads (s : StatementTree) (enclosing : List OpenModule) (before : Statements)
    (q : Progress) (h : q.GoesOnAs (between enclosing before)) :
    ∃ r, q.Reads s.yield s.names r ∧ r.GoesOnAs (between enclosing (.more before s)) := by
  cases s with
  | declaration d =>
    have hinterface := fun word : Leaf [.interfaceWord] =>
      (h.step_leaf word (by decide)).trans (step_interfaceWord enclosing before word)
    have halias := fun word : Leaf [.typeWord] =>
      (h.step_leaf word (by decide)).trans (step_typeWord enclosing before word)
    exact d.reads (between enclosing before) q none hinterface halias
  | exported word d =>
    have hword := (h.step_leaf word (by decide)).trans (step_exportWord enclosing before word)
    obtain ⟨r, hd, hr⟩ := d.reads_exported (between enclosing before) word
    exact ⟨r, .cons hword hd, hr⟩
  | «import» i =>
    have hword := (h.step_leaf i.word (by decide)).trans (step_importWord enclosing before i.word)
    exact i.reads (between enclosing before) q hword
  | module declareWord word name opening body closing =>
    have hdeclare := (h.step_leaf declareWord (by decide)).trans
      (step_declareWord enclosing before declareWord)
    have hhead := reads_moduleHead enclosing before declareWord word name opening
    obtain ⟨r, hbody, hr⟩ :=
      body.reads (⟨before, declareWord, word, name, opening⟩ :: enclosing)
    have hclose := hr.step_leaf closing (by decide)
    have hlast : (between (⟨before, declareWord, word, name, opening⟩ :: enclosing) body).step
        closing.token = .ok (between enclosing
          (.more before (.module declareWord word name opening body closing))) := by
      cases closing using Leaf.one
      rfl
    have hall := ((Reads.cons hdeclare hhead).append hbody).append (.of_step (hclose.trans hlast))
    exact ⟨_, by simpa [StatementTree.yield, StatementTree.names] using hall, .refl _⟩
end

/-- Every derivation is found again in its tokens, up to the check of its names. -/
theorem derive_yield (d : Statements) :
    derive d.yield = do
      forM d.names checkName
      return d := by
  obtain ⟨r, hreads, hgoes⟩ := d.reads []
  have hcomplete : r.complete = .ok d := hgoes.complete_eq
  unfold Reads at hreads
  unfold derive
  rw [show start = between [] .empty from rfl, hreads, bind_assoc]
  simp only [pure_bind, hcomplete]
  rfl

end SchemaTypings.Declaration
