import SchemaTypings.Declaration.Syntax

/-!
# Derivations of declaration files

The grammar of declaration files, as the type of its derivation trees: every nonterminal is a type,
and each of its alternatives a constructor or, where the alternatives differ in an optional part
only, an option. A leaf holds a token of one of the kinds that its alternatives allow. A list of the
grammar grows at its end, and so do its trees.

`yield` gives the tokens of a tree in order, `names` those of them that are used as the name of a
property or of a module, and `statements` reads the statements off the tree of a file.
-/

namespace SchemaTypings.Declaration

/-- A token of one of some kinds. -/
structure Leaf (kinds : List Kind) where
  token : Token
  kind_mem : token.kind ∈ kinds

/-- A token as a leaf of its kind. -/
def Leaf.ofKind {k : Kind} (t : Token) (h : t.kind = k) : Leaf [k] := ⟨t, by simp [h]⟩

/-- The token of a leaf that may be left out. -/
def optionalYield {kinds : List Kind} : Option (Leaf kinds) → List Token
  | none => []
  | some l => [l.token]

@[simp] theorem optionalYield_none {kinds : List Kind} :
    optionalYield (none : Option (Leaf kinds)) = [] := rfl

@[simp] theorem optionalYield_some {kinds : List Kind} (l : Leaf kinds) :
    optionalYield (some l) = [l.token] := rfl

/-! ## Balanced tokens -/

/-- The words that open declarations. -/
def wordKinds : List Kind :=
  [.exportWord, .interfaceWord, .typeWord, .declareWord, .moduleWord, .importWord, .extendsWord]

/-- The tokens that may stand in a group by themselves. -/
def balancedKinds : List Kind :=
  [.identifier, .string, .number, .arrow, .ellipsis, .colon, .semicolon, .comma, .question, .equals,
    .pipe, .ampersand, .dot, .other] ++ wordKinds

mutual
/-- A run of balanced tokens. -/
inductive Balanced
  | empty
  | more (before : Balanced) (item : BalancedItem)

/-- A token, or a group in brackets of any kind. -/
inductive BalancedItem
  | token (t : Leaf balancedKinds)
  | group (b : Bracket) (opening : Leaf [b.opening]) (inside : Balanced) (closing : Leaf [b.closing])
end

/-- A run of balanced tokens in brackets. -/
structure Group (b : Bracket) where
  opening : Leaf [b.opening]
  inside : Balanced
  closing : Leaf [b.closing]

mutual
/-- The tokens of a balanced run. -/
def Balanced.yield : Balanced → List Token
  | .empty => []
  | .more before item => before.yield ++ item.yield
  termination_by structural b => b

/-- The tokens of an item of a balanced run. -/
def BalancedItem.yield : BalancedItem → List Token
  | .token t => [t.token]
  | .group _ opening inside closing => opening.token :: inside.yield ++ [closing.token]
  termination_by structural i => i
end

/-- The tokens of a group. -/
def Group.yield {b : Bracket} (g : Group b) : List Token :=
  g.opening.token :: g.inside.yield ++ [g.closing.token]

/-- The tokens of a group that may be left out. -/
def optionalGroupYield {b : Bracket} : Option (Group b) → List Token
  | none => []
  | some g => g.yield

@[simp] theorem optionalGroupYield_none {b : Bracket} :
    optionalGroupYield (none : Option (Group b)) = [] := rfl

@[simp] theorem optionalGroupYield_some {b : Bracket} (g : Group b) :
    optionalGroupYield (some g) = g.yield := rfl

/-! ## Object types and types -/

/-- The tokens that may name a property; a reserved word is as good a name as any. -/
def nameKinds : List Kind :=
  [.identifier, .string, .number] ++ wordKinds

/-- The tokens that may stand in a type by themselves. -/
def typeKinds : List Kind :=
  [.identifier, .string, .number, .dot, .pipe, .ampersand, .arrow, .ellipsis, .question, .colon,
    .extendsWord, .other]

/-- What stands in front of the colon of a member: the name of a property, that of a method with its
parameters, the parameters of a call signature, or the key of an index signature. -/
inductive MemberHead
  | property (name : Leaf nameKinds) (mark : Option (Leaf [.question]))
  | method (name : Leaf nameKinds) (mark : Option (Leaf [.question])) (parameters : Group .paren)
  | call (parameters : Group .paren)
  | index (key : Group .square) (mark : Option (Leaf [.question]))

mutual
/-- An object type. -/
inductive ObjectType
  | mk (opening : Leaf [.leftBrace]) (members : Members) (closing : Leaf [.rightBrace])

/-- The members of an object type, of which the last may stand without a separator. -/
inductive Members
  | separated (list : MemberList)
  | last (list : MemberList) (member : MemberTree)

/-- Members, each with a separator behind it. -/
inductive MemberList
  | empty
  | more (before : MemberList) (member : MemberTree) (separator : Leaf [.semicolon, .comma])

/-- A member of an object type. -/
inductive MemberTree
  | mk (head : MemberHead) (colon : Leaf [.colon]) (type : TypeTree)

/-- A type: a run of at least one item. -/
inductive TypeTree
  | item (i : TypeItem)
  | more (before : TypeTree) (i : TypeItem)

/-- An item of a type: a token, a group in other brackets than braces, or an object type. -/
inductive TypeItem
  | token (t : Leaf typeKinds)
  | group (b : Bracket) (h : b ≠ .brace) (g : Group b)
  | object (o : ObjectType)
end

namespace MemberTree

/-- What stands in front of the colon of a member. -/
def head : MemberTree → MemberHead
  | .mk head _ _ => head

/-- The colon of a member. -/
def colon : MemberTree → Leaf [.colon]
  | .mk _ colon _ => colon

/-- The type of a member. -/
def type : MemberTree → TypeTree
  | .mk _ _ type => type

variable (h : MemberHead) (c : Leaf [.colon]) (t : TypeTree)

@[simp] theorem head_mk : (mk h c t).head = h := rfl

@[simp] theorem colon_mk : (mk h c t).colon = c := rfl

@[simp] theorem type_mk : (mk h c t).type = t := rfl

/-- A member is what it is made of. -/
@[simp] theorem mk_eta (m : MemberTree) : mk m.head m.colon m.type = m := by cases m; rfl

end MemberTree

namespace ObjectType

/-- The opening brace of an object type. -/
def opening : ObjectType → Leaf [.leftBrace]
  | .mk opening _ _ => opening

/-- The members of an object type. -/
def members : ObjectType → Members
  | .mk _ members _ => members

/-- The closing brace of an object type. -/
def closing : ObjectType → Leaf [.rightBrace]
  | .mk _ _ closing => closing

variable (o : Leaf [.leftBrace]) (m : Members) (c : Leaf [.rightBrace])

@[simp] theorem opening_mk : (mk o m c).opening = o := rfl

@[simp] theorem members_mk : (mk o m c).members = m := rfl

@[simp] theorem closing_mk : (mk o m c).closing = c := rfl

end ObjectType

/-- The tokens in front of the colon of a member. -/
def MemberHead.yield : MemberHead → List Token
  | .property name mark => name.token :: optionalYield mark
  | .method name mark parameters => name.token :: optionalYield mark ++ parameters.yield
  | .call parameters => parameters.yield
  | .index key mark => key.yield ++ optionalYield mark

mutual
/-- The tokens of an object type. -/
def ObjectType.yield : ObjectType → List Token
  | .mk opening members closing => opening.token :: members.yield ++ [closing.token]
  termination_by structural o => o

/-- The tokens of members. -/
def Members.yield : Members → List Token
  | .separated list => list.yield
  | .last list member => list.yield ++ member.yield
  termination_by structural m => m

/-- The tokens of members and their separators. -/
def MemberList.yield : MemberList → List Token
  | .empty => []
  | .more before member separator => before.yield ++ member.yield ++ [separator.token]
  termination_by structural l => l

/-- The tokens of a member. -/
def MemberTree.yield : MemberTree → List Token
  | .mk head colon type => head.yield ++ colon.token :: type.yield
  termination_by structural m => m

/-- The tokens of a type. -/
def TypeTree.yield : TypeTree → List Token
  | .item i => i.yield
  | .more before i => before.yield ++ i.yield
  termination_by structural t => t

/-- The tokens of an item of a type. -/
def TypeItem.yield : TypeItem → List Token
  | .token t => [t.token]
  | .group _ _ g => g.yield
  | .object o => o.yield
  termination_by structural i => i
end

/-! ## Declarations -/

/-- A name with dots. -/
inductive QualifiedName
  | name (name : Leaf [.identifier])
  | dotted (before : QualifiedName) (dot : Leaf [.dot]) (name : Leaf [.identifier])

/-- A name with type arguments. -/
structure Reference where
  name : QualifiedName
  arguments : Option (Group .angle)

/-- What an interface extends. -/
inductive References
  | one (r : Reference)
  | more (before : References) (comma : Leaf [.comma]) (r : Reference)

/-- The word `extends` and what follows it. -/
structure Heritage where
  word : Leaf [.extendsWord]
  references : References

/-- An interface. -/
structure InterfaceTree where
  word : Leaf [.interfaceWord]
  name : Leaf [.identifier]
  parameters : Option (Group .angle)
  heritage : Option Heritage
  body : ObjectType

/-- A type alias. -/
structure AliasTree where
  word : Leaf [.typeWord]
  name : Leaf [.identifier]
  parameters : Option (Group .angle)
  equals : Leaf [.equals]
  type : TypeTree
  semicolon : Option (Leaf [.semicolon])

/-- A declaration of a type. -/
inductive DeclarationTree
  | interface (i : InterfaceTree)
  | alias (a : AliasTree)

/-- The tokens that may stand in an import by themselves. -/
def importKinds : List Kind :=
  [.identifier, .string, .comma, .dot, .equals, .other]

/-- An item of an import: a token, or a group in braces or parentheses. -/
inductive ImportItem
  | token (t : Leaf importKinds)
  | group (b : Bracket) (h : b = .brace ∨ b = .paren) (g : Group b)

/-- What is imported: a run of at least one item. -/
inductive ImportClause
  | item (i : ImportItem)
  | more (before : ImportClause) (i : ImportItem)

/-- An import. -/
structure ImportTree where
  word : Leaf [.importWord]
  typeWord : Option (Leaf [.typeWord])
  clause : ImportClause
  semicolon : Option (Leaf [.semicolon])

mutual
/-- The statements of a file or of a module block. -/
inductive Statements
  | empty
  | more (before : Statements) (s : StatementTree)

/-- A statement. -/
inductive StatementTree
  | declaration (d : DeclarationTree)
  | exported (word : Leaf [.exportWord]) (d : DeclarationTree)
  | import (i : ImportTree)
  | module (declareWord : Leaf [.declareWord]) (word : Leaf [.moduleWord])
      (name : Leaf [.string, .identifier]) (opening : Leaf [.leftBrace]) (body : Statements)
      (closing : Leaf [.rightBrace])
end

/-- The tokens of a name with dots. -/
def QualifiedName.yield : QualifiedName → List Token
  | .name n => [n.token]
  | .dotted before dot n => before.yield ++ [dot.token, n.token]

/-- The tokens of a reference. -/
def Reference.yield (r : Reference) : List Token :=
  r.name.yield ++ optionalGroupYield r.arguments

/-- The tokens of some references. -/
def References.yield : References → List Token
  | .one r => r.yield
  | .more before comma r => before.yield ++ comma.token :: r.yield

/-- The tokens of what an interface extends. -/
def heritageYield : Option Heritage → List Token
  | none => []
  | some h => h.word.token :: h.references.yield

/-- The tokens of an interface. -/
def InterfaceTree.yield (i : InterfaceTree) : List Token :=
  i.word.token :: i.name.token :: optionalGroupYield i.parameters ++ heritageYield i.heritage ++
    i.body.yield

/-- The tokens of an alias. -/
def AliasTree.yield (a : AliasTree) : List Token :=
  a.word.token :: a.name.token :: optionalGroupYield a.parameters ++ a.equals.token ::
    a.type.yield ++ optionalYield a.semicolon

/-- The tokens of a declaration. -/
def DeclarationTree.yield : DeclarationTree → List Token
  | .interface i => i.yield
  | .alias a => a.yield

/-- The tokens of an item of an import. -/
def ImportItem.yield : ImportItem → List Token
  | .token t => [t.token]
  | .group _ _ g => g.yield

/-- The tokens of what is imported. -/
def ImportClause.yield : ImportClause → List Token
  | .item i => i.yield
  | .more before i => before.yield ++ i.yield

/-- The tokens of an import. -/
def ImportTree.yield (i : ImportTree) : List Token :=
  i.word.token :: optionalYield i.typeWord ++ i.clause.yield ++ optionalYield i.semicolon

mutual
/-- The tokens of some statements. -/
def Statements.yield : Statements → List Token
  | .empty => []
  | .more before s => before.yield ++ s.yield
  termination_by structural s => s

/-- The tokens of a statement. -/
def StatementTree.yield : StatementTree → List Token
  | .declaration d => d.yield
  | .exported word d => word.token :: d.yield
  | .import i => i.yield
  | .module declareWord word name opening body closing =>
    declareWord.token :: word.token :: name.token :: opening.token :: body.yield ++ [closing.token]
  termination_by structural s => s
end

/-! ## Names -/

/-- The name of a property or a method. -/
def MemberHead.names : MemberHead → List Token
  | .property name _ | .method name _ _ => [name.token]
  | .call _ | .index _ _ => []

mutual
/-- The names of the properties and methods in an object type, at any depth. -/
def ObjectType.names : ObjectType → List Token
  | .mk _ members _ => members.names
  termination_by structural o => o

/-- The names in members. -/
def Members.names : Members → List Token
  | .separated list => list.names
  | .last list member => list.names ++ member.names
  termination_by structural m => m

/-- The names in members with their separators. -/
def MemberList.names : MemberList → List Token
  | .empty => []
  | .more before member _ => before.names ++ member.names
  termination_by structural l => l

/-- The names in a member: its own, and those in its type. -/
def MemberTree.names : MemberTree → List Token
  | .mk head _ type => head.names ++ type.names
  termination_by structural m => m

/-- The names in a type. -/
def TypeTree.names : TypeTree → List Token
  | .item i => i.names
  | .more before i => before.names ++ i.names
  termination_by structural t => t

/-- The names in an item of a type. -/
def TypeItem.names : TypeItem → List Token
  | .token _ => []
  | .group _ _ _ => []
  | .object o => o.names
  termination_by structural i => i
end

/-- The names in a declaration. -/
def DeclarationTree.names : DeclarationTree → List Token
  | .interface i => i.body.names
  | .alias a => a.type.names

mutual
/-- The tokens used as the name of a property, a method or a module in some statements. -/
def Statements.names : Statements → List Token
  | .empty => []
  | .more before s => before.names ++ s.names
  termination_by structural s => s

/-- The names in a statement. -/
def StatementTree.names : StatementTree → List Token
  | .declaration d => d.names
  | .exported _ d => d.names
  | .import _ => []
  | .module _ _ name _ body _ => name.token :: body.names
  termination_by structural s => s
end

/-! ## Reading a derivation -/

/-- The name that a token stands for. In a file that can be read no name is a faulty literal. -/
def Token.name (t : Token) : String :=
  match unquote t.text with
  | .ok name => name
  | .error _ => t.text

/-- The offset at which an item of a type starts. -/
def TypeItem.start : TypeItem → Nat
  | .token t => t.token.offset
  | .group _ _ g => g.opening.token.offset
  | .object o => o.opening.token.offset

/-- The offset behind an item of a type. -/
def TypeItem.stop : TypeItem → Nat
  | .token t => t.token.stop
  | .group _ _ g => g.closing.token.stop
  | .object o => o.closing.token.stop

/-- The offset at which a type starts. -/
def TypeTree.start : TypeTree → Nat
  | .item i => i.start
  | .more before _ => before.start

/-- The offset behind a type. -/
def TypeTree.stop : TypeTree → Nat
  | .item i | .more _ i => i.stop

/-- The property that a member declares; the other signatures declare none. -/
def MemberTree.property? : MemberTree → Option Property
  | .mk (.property name mark) _ type => some ⟨name.token.name, mark.isSome, type.start, type.stop⟩
  | _ => none

/-- The properties among members with their separators. -/
def MemberList.properties : MemberList → List Property
  | .empty => []
  | .more before member _ => before.properties ++ member.property?.toList

/-- The properties among members. -/
def Members.properties : Members → List Property
  | .separated list => list.properties
  | .last list member => list.properties ++ member.property?.toList

/-- The properties of an object type. -/
def ObjectType.properties : ObjectType → List Property
  | .mk _ members _ => members.properties

/-- The properties of a type that is one object type. -/
def TypeTree.literal : TypeTree → Option (List Property)
  | .item (.object o) => some o.properties
  | _ => none

/-- The statement that a declaration is. -/
def DeclarationTree.statement (isExported : Bool) : DeclarationTree → Statement
  | .interface i => .interface i.name.token.text isExported i.body.properties
  | .alias a => .alias a.name.token.text isExported a.type.literal

mutual
/-- The statements that are read off a derivation, in order. -/
def Statements.statements : Statements → List Statement
  | .empty => []
  | .more before s => before.statements ++ s.statement?.toList
  termination_by structural s => s

/-- The statement that is read off a derivation; an import gives none. -/
def StatementTree.statement? : StatementTree → Option Statement
  | .declaration d => some (d.statement false)
  | .exported _ d => some (d.statement true)
  | .import _ => none
  | .module _ _ name _ body _ => some (.module name.token.name body.statements)
  termination_by structural s => s
end

end SchemaTypings.Declaration
