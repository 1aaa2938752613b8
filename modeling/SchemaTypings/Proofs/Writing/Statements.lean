import SchemaTypings.Proofs.Editing.TypeText
import SchemaTypings.Proofs.Writing.Members

/-!
# Texts that are statements

`IsStatements` says of a text that its tokens are those of statements wherever it stands, and what
these say. Interfaces, aliases, module blocks and imports are such texts, and so are comments and
blanks, which say nothing; `IsStatements.append` puts them one after the other. A whole text of
statements can be read, and the file says what they say (`IsStatements.exists_file`).
-/

namespace SchemaTypings.Declaration

variable {x y : List Char}

/-- The statements of a text that stands at an offset say these outlines. -/
abbrev StatementsSay (statements : List Statement) (offset : Nat) (x : List Char)
    (outs : List Outline) : Prop :=
  ReadAs (fun type => outlines type statements) offset x outs

theorem StatementsSay.append {ss ts : List Statement} {offset : Nat} {outs more : List Outline}
    (h : StatementsSay ss offset x outs) (h' : StatementsSay ts (offset + x.length) y more) :
    StatementsSay (ss ++ ts) offset (x ++ y) (outs ++ more) := by
  intro before after hbefore
  have hfirst := h.left y before after hbefore
  have hsecond := h'.right before after hbefore
  dsimp only at hfirst hsecond ⊢
  rw [outlines_append, hfirst, hsecond]

/-- Statements that go on others with the tokens of a text at an offset, and say `outs`. -/
structure StatementsGoOn (before : Statements) (offset : Nat) (x : List Char) (outs : List Outline)
    (ts : List Token) (after : Statements) : Prop where
  yield_eq : after.yield = before.yield ++ ts
  names : ∀ t ∈ after.names, t ∈ before.names ∨ t.IsReadable
  statements : ∃ new, after.statements = before.statements ++ new ∧ StatementsSay new offset x outs

/-- A text that is statements wherever it stands, which say `outs`. -/
def IsStatements (x : List Char) (outs : List Outline) : Prop :=
  Spells x fun offset ts => ∀ before, ∃ after, StatementsGoOn before offset x outs ts after

/-- A text without tokens is no statement. -/
theorem isStatements_silent (h : Spells x Silent) : IsStatements x [] :=
  h.imp fun offset ts => by
    rintro rfl before
    exact ⟨before, by simp, fun t ht => .inl ht, [], by simp, fun _ _ _ => rfl⟩

/-- Statements side by side. -/
theorem IsStatements.append {outs more : List Outline} (h : IsStatements x outs)
    (h' : IsStatements y more) (hparted : Parted x y) : IsStatements (x ++ y) (outs ++ more) := by
  refine (Spells.append h h' hparted).imp fun offset ts => ?_
  rintro ⟨us, vs, rfl, hus, hvs⟩ before
  obtain ⟨middle, hmiddle⟩ := hus before
  obtain ⟨after, hafter⟩ := hvs middle
  obtain ⟨new, hnew, hsay⟩ := hmiddle.statements
  obtain ⟨new', hnew', hsay'⟩ := hafter.statements
  refine ⟨after, ?_, fun t ht => ?_, new ++ new', ?_, hsay.append hsay'⟩
  · rw [hafter.yield_eq, hmiddle.yield_eq, List.append_assoc]
  · rcases hafter.names t ht with ht | ht
    · exact hmiddle.names t ht
    · exact .inr ht
  · rw [hnew', hnew, List.append_assoc]

/-- A whole text of statements can be read, and says what they say. -/
theorem IsStatements.exists_file {text : String} {outs : List Outline}
    (h : IsStatements text.toList outs) :
    ∃ file, SourceFile.ofText text = .ok file ∧ file.text = text ∧ file.outline = outs := by
  obtain ⟨d, hd⟩ := Spells.tokens h .empty
  have hyield : d.yield = tokens text := hd.yield_eq
  have hnames : NamesReadable d := fun t ht =>
    (hd.names t ht).resolve_left (by simp [Statements.names])
  obtain ⟨new, hnew, hsay⟩ := hd.statements
  have hstatements : d.statements = new := hnew
  refine ⟨_, (ofText_eq_ok_iff text _).mpr
    ⟨d, (derive_eq_ok_iff text d).mpr ⟨hyield, hnames⟩, rfl⟩, rfl, ?_⟩
  have hwhole := hsay [] [] rfl
  dsimp only at hwhole
  rw [List.nil_append, List.append_nil] at hwhole
  rw [← hwhole, ← hstatements]
  refine outlines_congr _ fun p _ => ?_
  exact typeText_eq_slice text d.statements p

/-- Statements have no character without a meaning. -/
theorem IsStatements.noOther {text : String} {outs : List Outline}
    (h : IsStatements text.toList outs) : NoOther text := by
  rw [noOther_iff]
  exact fun p hp hkind => ((Spells.pieces h).1 p hp .other hkind).1 rfl

/-! ## Declarations -/

/-- A word with a blank behind it, and what follows. -/
theorem IsWord.spells_append (h : IsWord x) {T : Nat → List Token → Prop} (h' : Spells y T) :
    Spells (x ++ ' ' :: y)
      (Joined (x.length + 1) (Single (Kind.ofWord (String.ofList x)) x) T) := by
  have hblank : Spells [' '] Silent := spells_blanks (by decide)
  have hword := h.spells.append_silent hblank (parted_cons (by decide) x [])
  simpa using hword.append h' (parted_concat (by decide) x y)

/-- A text that is the declaration of a type. What it says depends on whether it is exported. -/
def IsDeclaration (x : List Char) (out : Bool → Outline) : Prop :=
  Spells x fun offset ts => ∃ d : DeclarationTree, d.yield = ts ∧ (∀ t ∈ d.names, t.IsReadable) ∧
    ∀ isExported, StatementsSay [d.statement isExported] offset x [out isExported]

/-- A declaration is a statement. -/
theorem IsDeclaration.isStatements {out : Bool → Outline} (h : IsDeclaration x out) :
    IsStatements x [out false] :=
  h.imp fun offset ts => by
    rintro ⟨d, rfl, hnames, hsay⟩ before
    refine ⟨.more before (.declaration d), rfl, fun t ht => ?_, _, rfl, hsay false⟩
    rcases List.mem_append.mp ht with ht | ht
    · exact .inl ht
    · exact .inr (hnames t ht)

/-- A declaration may be exported. -/
theorem IsDeclaration.exported {out : Bool → Outline} (h : IsDeclaration x out) :
    IsStatements ("export".toList ++ ' ' :: x) [out true] := by
  have hword : IsWord "export".toList := by decide
  have hkind : Kind.ofWord (String.ofList "export".toList) = .exportWord := by decide
  have hexported := hword.spells_append h
  rw [hkind] at hexported
  refine hexported.imp fun offset ts => ?_
  rintro ⟨_, _, rfl, ⟨word, rfl, -⟩, d, rfl, hnames, hsay⟩ before
  have hright : StatementsSay [d.statement true] offset ("export".toList ++ ' ' :: x) [out true] :=
    (hsay true).of_part (a := "export".toList ++ [' ']) (b := []) (by simp) (by simp)
  refine ⟨.more before (.exported word d), rfl, fun t ht => ?_, _, rfl, hright⟩
  rcases List.mem_append.mp ht with ht | ht
  · exact .inl ht
  · exact .inr (hnames t ht)

/-! ## Interfaces -/

/-- A text that is a name with dots. -/
def IsQualified (x : List Char) : Prop :=
  Spells x fun _ ts => ∃ n : QualifiedName, n.yield = ts

theorem IsIdentifier.isQualified (h : IsIdentifier x) : IsQualified x :=
  h.spells.imp fun _ ts => by
    rintro ⟨l, rfl, -⟩
    exact ⟨.name l, rfl⟩

theorem IsQualified.dotted (h : IsQualified x) (h' : IsIdentifier y) :
    IsQualified (x ++ '.' :: y) := by
  have hdot := h'.1.spells_dot
  rw [h'.2] at hdot
  refine (Spells.append h hdot (parted_cons (by decide) x y)).imp fun _ ts => ?_
  rintro ⟨_, _, rfl, ⟨n, rfl⟩, _, _, rfl, ⟨dot, rfl, -⟩, ⟨name, rfl, -⟩⟩
  exact ⟨.dotted n dot name, rfl⟩

/-- A text that refers to a type, with type arguments or without. -/
def IsReference (x : List Char) : Prop :=
  Spells x fun _ ts => ∃ r : Reference, r.yield = ts

theorem IsQualified.isReference (h : IsQualified x) : IsReference x :=
  h.imp fun _ ts => by
    rintro ⟨n, rfl⟩
    exact ⟨⟨n, none⟩, by simp [Reference.yield]⟩

theorem IsQualified.generic (h : IsQualified x) (h' : IsBalanced y) :
    IsReference (x ++ '<' :: (y ++ ['>'])) := by
  have hgroup : IsGroup .angle ('<' :: (y ++ ['>'])) := h'.isGroup .angle
  refine (Spells.append h hgroup (parted_cons (by decide) x _)).imp fun _ ts => ?_
  rintro ⟨_, _, rfl, ⟨n, rfl⟩, g, rfl, -⟩
  exact ⟨⟨n, some g⟩, rfl⟩

/-- A text that names what an interface extends. -/
def IsReferences (x : List Char) : Prop :=
  Spells x fun _ ts => ∃ r : References, r.yield = ts

theorem IsReference.isReferences (h : IsReference x) : IsReferences x :=
  h.imp fun _ ts => by
    rintro ⟨r, rfl⟩
    exact ⟨.one r, rfl⟩

theorem IsReferences.comma (h : IsReferences x) (h' : IsReference y) :
    IsReferences (x ++ ',' :: ' ' :: y) := by
  have hcomma : Spells [',', ' '] (Single .comma [',']) :=
    spells_sign_blank (by decide) (by decide) (by decide)
  have hrest := hcomma.append h' (parted_of_last (by simp; decide) y)
  refine (Spells.append h hrest (parted_cons (by decide) x _)).imp fun _ ts => ?_
  rintro ⟨_, _, rfl, ⟨rs, rfl⟩, _, _, rfl, ⟨comma, rfl, -⟩, r, rfl⟩
  exact ⟨.more rs comma r, by simp [References.yield]⟩

/-- A text that says what an interface extends, if anything, with a blank in front. -/
def IsHeritage (x : List Char) : Prop :=
  (∀ c ∈ x.head?, c = ' ') ∧ Spells x fun _ ts => ∃ h : Option Heritage, heritageYield h = ts

theorem isHeritage_nil : IsHeritage [] :=
  ⟨by simp, spells_nil.imp fun _ _ h => ⟨none, h.symm⟩⟩

theorem IsReferences.isHeritage (h : IsReferences x) :
    IsHeritage (' ' :: ("extends".toList ++ ' ' :: x)) := by
  have hword : IsWord "extends".toList := by decide
  have hkind : Kind.ofWord (String.ofList "extends".toList) = .extendsWord := by decide
  have hblank : Spells [' '] Silent := spells_blanks (by decide)
  have hextends := hword.spells_append h
  rw [hkind] at hextends
  refine ⟨by simp, (hblank.silent_append hextends (parted_of_last (by decide) _)).imp fun _ ts => ?_⟩
  rintro ⟨_, _, rfl, ⟨word, rfl, -⟩, r, rfl⟩
  exact ⟨some ⟨word, r⟩, rfl⟩

/-- A text that is the name of an interface, with type parameters or without. -/
def IsInterfaceHead (x : List Char) (name : String) : Prop :=
  Spells x fun _ ts => ∃ (l : Leaf [.identifier]) (parameters : Option (Group .angle)),
    ts = l.token :: optionalGroupYield parameters ∧ l.token.text = name

theorem IsIdentifier.isInterfaceHead (h : IsIdentifier x) : IsInterfaceHead x (String.ofList x) :=
  h.spells.imp fun _ ts => by
    rintro ⟨l, rfl, htext, -⟩
    exact ⟨l, none, rfl, htext⟩

theorem IsIdentifier.isInterfaceHead_generic (h : IsIdentifier x) (h' : IsBalanced y) :
    IsInterfaceHead (x ++ '<' :: (y ++ ['>'])) (String.ofList x) := by
  have hgroup : IsGroup .angle ('<' :: (y ++ ['>'])) := h'.isGroup .angle
  refine (h.spells.append hgroup (parted_cons (by decide) x _)).imp fun _ ts => ?_
  rintro ⟨_, _, rfl, ⟨l, rfl, htext, -⟩, g, rfl, -⟩
  exact ⟨l, some g, rfl, htext⟩

/-- An interface says its name and the properties of its body. -/
theorem isDeclaration_interface {head heritage body : List Char} {name : String}
    {outs : List PropertyOutline} (hhead : IsInterfaceHead head name)
    (hheritage : IsHeritage heritage) (hbody : IsObject body outs) :
    IsDeclaration ("interface".toList ++ ' ' :: (head ++ (heritage ++ ' ' :: body)))
      fun isExported => .interface name isExported outs := by
  have hword : IsWord "interface".toList := by decide
  have hkind : Kind.ofWord (String.ofList "interface".toList) = .interfaceWord := by decide
  have hblank : Spells [' '] Silent := spells_blanks (by decide)
  have hrest := hheritage.2.append (hblank.append hbody (parted_of_last (by decide) body))
    (parted_cons (by decide) heritage _)
  have hnamed := Spells.append hhead hrest (parted_of_head head fun c hc => by
    obtain rfl : c = ' ' := by
      cases heritage with
      | nil => exact (Option.some.inj hc).symm
      | cons d heritage => exact hheritage.1 c hc
    decide)
  have hinterface := hword.spells_append hnamed
  rw [hkind] at hinterface
  refine hinterface.imp fun offset ts => ?_
  rintro ⟨_, _, rfl, ⟨word, rfl, -⟩, _, _, rfl, ⟨l, parameters, rfl, rfl⟩, _, _, rfl, ⟨h, rfl⟩, _,
    _, rfl, rfl, o, rfl, -, -, hnames, hsay⟩
  refine ⟨.interface ⟨word, l, parameters, h, o⟩, ?_, hnames, fun isExported => ?_⟩
  · simp [DeclarationTree.yield, InterfaceTree.yield]
  · intro before after hbefore
    have hwhole : PropertiesSay o.properties offset
        ("interface".toList ++ ' ' :: (head ++ (heritage ++ [' '])) ++ body ++ []) outs :=
      hsay.of_part rfl (by simp; omega)
    have hbody := hwhole before after hbefore
    simpa [outlines, Statement.outline, DeclarationTree.statement] using hbody

/-! ## Aliases -/

/-- A text that an alias may stand for. When it is one object type, it has these properties. -/
def IsAliased (x : List Char) (outs : Option (List PropertyOutline)) : Prop :=
  Spells x fun offset ts => ∃ type : TypeTree, type.yield = ts ∧ (∀ t ∈ type.names, t.IsReadable) ∧
    ReadAs (fun text => type.literal.map (List.map (Property.outline text))) offset x outs

theorem IsIdentifier.isAliased (h : IsIdentifier x) : IsAliased x none :=
  h.spells.imp fun offset ts => by
    rintro ⟨l, rfl, -⟩
    exact ⟨.item (.token ⟨l.token, by rw [l.kind_eq]; decide⟩), rfl, by simp [TypeTree.names,
      TypeItem.names], fun _ _ _ => rfl⟩

theorem IsObject.isAliased {outs : List PropertyOutline} (h : IsObject x outs) :
    IsAliased x (some outs) :=
  h.imp fun offset ts => by
    rintro ⟨o, rfl, -, -, hnames, hsay⟩
    refine ⟨.item (.object o), rfl, hnames, fun before after hbefore => ?_⟩
    exact congrArg some (hsay before after hbefore)

/-- A type in two parts is no object type. -/
theorem IsType.isAliased_append (h : IsType x) (h' : IsType y) (hparted : Parted x y) :
    IsAliased (x ++ y) none := by
  refine (Spells.append h h' hparted).imp fun offset ts => ?_
  rintro ⟨us, vs, rfl, hus, hvs⟩
  obtain ⟨middle, hmiddle⟩ := hus none
  obtain ⟨after, hafter⟩ := hvs (some middle)
  have hliteral := hafter.literal_eq rfl
  refine ⟨after, ?_, fun t ht => ?_, fun _ _ _ => by simp [hliteral]⟩
  · rw [hafter.yield_eq, runYield_some, hmiddle.yield_eq]
    simp
  · -- the second part goes on the first, and the first goes on nothing
    rcases hafter.names t ht with ⟨run, hrun, ht⟩ | ht
    · obtain rfl := Option.mem_some_iff.mp hrun
      rcases hmiddle.names t ht with ⟨run, hrun, -⟩ | ht
      · simp at hrun
      · exact ht
    · exact ht

/-- An alias says its name and what it stands for. -/
theorem isDeclaration_alias {name type : List Char} {outs : Option (List PropertyOutline)}
    (hname : IsIdentifier name) (htype : IsAliased type outs) :
    IsDeclaration ("type".toList ++ ' ' :: (name ++ (' ' :: '=' :: ' ' :: type)))
      fun isExported => .alias (String.ofList name) isExported outs := by
  have hword : IsWord "type".toList := by decide
  have hkind : Kind.ofWord (String.ofList "type".toList) = .typeWord := by decide
  have hblank : Spells [' '] Silent := spells_blanks (by decide)
  have hrest := hblank.silent_append
    (spells_equals.append htype (parted_of_last (by decide) type)) (parted_of_last (by decide) _)
  have halias := hword.spells_append
    (hname.spells.append hrest (parted_cons (by decide) name _))
  rw [hkind] at halias
  refine halias.imp fun offset ts => ?_
  rintro ⟨_, _, rfl, ⟨word, rfl, -⟩, _, _, rfl, ⟨l, rfl, htext, -⟩, _, _, rfl, ⟨equals, rfl, -⟩,
    type', rfl, hnames, hsay⟩
  refine ⟨.alias ⟨word, l, none, equals, type', none⟩, ?_, hnames, fun isExported => ?_⟩
  · simp [DeclarationTree.yield, AliasTree.yield]
  · intro before after hbefore
    have hwhole : ReadAs (fun text => type'.literal.map (List.map (Property.outline text))) offset
        ("type".toList ++ ' ' :: (name ++ [' ', '=', ' ']) ++ type ++ []) outs :=
      hsay.of_part rfl (by simp; omega)
    have hliteral := hwhole before after hbefore
    simpa [outlines, Statement.outline, DeclarationTree.statement, htext] using hliteral

/-! ## Module blocks, imports and comments -/

/-- Statements in a module block. -/
theorem IsStatements.module {outs : List Outline} (h : IsStatements x outs) (name : String) :
    IsStatements ("declare".toList ++ ' ' :: ("module".toList ++ ' ' ::
      ((Json.quote name).toList ++ (' ' :: '\x7b' :: (x ++ ['\x7d'])))))
      [.module name outs] := by
  have hdeclare : IsWord "declare".toList := by decide
  have hdeclareKind : Kind.ofWord (String.ofList "declare".toList) = .declareWord := by decide
  have hmodule : IsWord "module".toList := by decide
  have hmoduleKind : Kind.ofWord (String.ofList "module".toList) = .moduleWord := by decide
  have hblank : Spells [' '] Silent := spells_blanks (by decide)
  have hopen : Spells ['\x7b'] (Single .leftBrace ['\x7b']) := spells_sign (by decide)
  have hclose : Spells ['\x7d'] (Single .rightBrace ['\x7d']) := spells_sign (by decide)
  have hbody := hblank.silent_append (hopen.append
    (Spells.append h hclose (parted_cons (by decide) x [])) (parted_of_last (by decide) _))
    (parted_of_last (by decide) _)
  have hnamed := (spells_quote name).append hbody (parted_cons (by decide) _ _)
  have hwhole := hdeclare.spells_append (hmodule.spells_append hnamed)
  rw [hdeclareKind, hmoduleKind] at hwhole
  refine hwhole.imp fun offset ts => ?_
  rintro ⟨_, _, rfl, ⟨declareWord, rfl, -⟩, _, _, rfl, ⟨moduleWord, rfl, -⟩, _, _, rfl,
    ⟨l, rfl, rfl, hreadable⟩, _, _, rfl, ⟨opening, rfl, -⟩, _, _, rfl, hts, ⟨closing, rfl, -⟩⟩ before
  obtain ⟨body, hbody⟩ := hts .empty
  obtain ⟨new, hnew, hsay⟩ := hbody.statements
  have hstatements : body.statements = new := hnew
  refine ⟨.more before (.module declareWord moduleWord ⟨l.token, by rw [l.kind_eq]; decide⟩ opening
    body closing), ?_, fun t ht => ?_, _, rfl, ?_⟩
  · simp [Statements.yield, StatementTree.yield, hbody.yield_eq]
  · rcases List.mem_append.mp ht with ht | ht
    · exact .inl ht
    · rcases List.mem_cons.mp ht with rfl | ht
      · exact .inr hreadable
      · exact .inr ((hbody.names t ht).resolve_left (by simp [Statements.names]))
  · intro before after hbefore
    have hinside : StatementsSay new offset ("declare".toList ++ ' ' :: ("module".toList ++ ' ' ::
        ((Json.quote l.token.name).toList ++ [' ', '\x7b'])) ++ x ++ ['\x7d']) outs :=
      hsay.of_part rfl (by simp; omega)
    have hsaid := hinside before after hbefore
    simpa [outlines, Statement.outline, StatementTree.statement?, hstatements] using hsaid

/-- An import of a default export is no statement. -/
theorem isStatements_import {name : List Char} (h : IsIdentifier name) (source : String) :
    IsStatements ("import".toList ++ ' ' :: (name ++ ' ' :: ("from".toList ++ ' ' ::
      ((Json.quote source).toList ++ [';'])))) [] := by
  have himport : IsWord "import".toList := by decide
  have himportKind : Kind.ofWord (String.ofList "import".toList) = .importWord := by decide
  have hfrom : IsIdentifier "from".toList := by decide
  have hend : Spells [';'] (Single .semicolon [';']) := spells_sign (by decide)
  have hsource := (spells_quote source).append hend (parted_cons (by decide) _ _)
  have hwhole := himport.spells_append (h.1.spells_append (hfrom.1.spells_append hsource))
  rw [himportKind, h.2, hfrom.2] at hwhole
  refine hwhole.imp fun offset ts => ?_
  rintro ⟨_, _, rfl, ⟨word, rfl, -⟩, _, _, rfl, ⟨l, rfl, -⟩, _, _, rfl, ⟨l', rfl, -⟩, _, _, rfl,
    ⟨text, rfl, -⟩, ⟨semicolon, rfl, -⟩⟩ before
  have hitem : ∀ {k : Kind} (l : Leaf [k]), k ∈ importKinds → l.token.kind ∈ importKinds := by
    intro k l hk
    rw [l.kind_eq]
    exact hk
  refine ⟨.more before (.import ⟨word, none, .more (.more (.item
    (.token ⟨l.token, hitem l (by decide)⟩)) (.token ⟨l'.token, hitem l' (by decide)⟩))
      (.token ⟨text.token, hitem text (by decide)⟩), some semicolon⟩), ?_, fun t ht => ?_, [], ?_,
    fun _ _ _ => rfl⟩
  · simp [Statements.yield, StatementTree.yield, ImportTree.yield, ImportClause.yield,
      ImportItem.yield]
  · exact .inl (by simpa [Statements.names, StatementTree.names] using ht)
  · simp [Statements.statements, StatementTree.statement?]

end SchemaTypings.Declaration
