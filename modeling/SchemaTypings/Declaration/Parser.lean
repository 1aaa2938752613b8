import SchemaTypings.Declaration.Grammar
import SchemaTypings.Declaration.Lexer

/-!
# Parsing declaration files

A file is read token by token. What has been read is kept as a position: what may come next, the
derivations of what is complete, and what the construct that is being read is part of. The brackets
that are open are told apart by their use, so that a position has exactly the continuations that the
grammar allows it. A token that none of them begins with is reported, and so is the end of a file
that is not complete. A name that is no literal is reported as soon as it is known to be a name.

The result is the derivation of the file, off which the statements are read.
-/

namespace SchemaTypings.Declaration

/-- The run of type items with one more. -/
def TypeTree.extend (run : Option TypeTree) (i : TypeItem) : TypeTree :=
  match run with
  | none => .item i
  | some before => .more before i

/-- The clause of an import with one more item. -/
def ImportClause.extend (clause : Option ImportClause) (i : ImportItem) : ImportClause :=
  match clause with
  | none => .item i
  | some before => .more before i

/-- An interface up to its name. -/
structure InterfaceStart where
  exportWord : Option (Leaf [.exportWord])
  word : Leaf [.interfaceWord]
  name : Leaf [.identifier]

/-- An alias up to its name. -/
structure AliasStart where
  exportWord : Option (Leaf [.exportWord])
  word : Leaf [.typeWord]
  name : Leaf [.identifier]

/-- The references of an interface up to the one that is being read: those before it, with the
comma behind them. -/
structure OpenHeritage where
  start : InterfaceStart
  parameters : Option (Group .angle)
  word : Leaf [.extendsWord]
  before : Option (References × Leaf [.comma])

/-- The references with the one that was being read. -/
def OpenHeritage.close (h : OpenHeritage) (r : Reference) : References :=
  match h.before with
  | none => .one r
  | some (before, comma) => .more before comma r

/-- An import up to the items that are being read. -/
structure OpenImport where
  word : Leaf [.importWord]
  typeWord : Option (Leaf [.typeWord])
  clause : Option ImportClause

mutual
/-- What an object type is part of. -/
inductive ObjectUse
  | interfaceBody (start : InterfaceStart) (parameters : Option (Group .angle))
      (heritage : Option Heritage)
  /-- An item of a type, after a run of others. -/
  | typeItem (run : Option TypeTree) (use : TypeUse)

/-- What a type is part of. -/
inductive TypeUse
  | alias (start : AliasStart) (parameters : Option (Group .angle)) (equals : Leaf [.equals])
  | member (head : MemberHead) (colon : Leaf [.colon]) (object : OpenObject)

/-- An object type that is being read: its brace, and its members so far. -/
inductive OpenObject
  | mk (opening : Leaf [.leftBrace]) (members : MemberList) (use : ObjectUse)
end

/-- What a group of balanced tokens is part of. -/
inductive GroupUse : Bracket → Type
  | interfaceParameters (start : InterfaceStart) : GroupUse .angle
  | referenceArguments (heritage : OpenHeritage) (name : QualifiedName) : GroupUse .angle
  | aliasParameters (start : AliasStart) : GroupUse .angle
  | importItem {b : Bracket} (h : b = .brace ∨ b = .paren) (i : OpenImport) : GroupUse b
  | typeItem {b : Bracket} (h : b ≠ .brace) (run : Option TypeTree) (use : TypeUse) : GroupUse b
  | method (name : Leaf nameKinds) (mark : Option (Leaf [.question])) (object : OpenObject) :
      GroupUse .paren
  | call (object : OpenObject) : GroupUse .paren
  /-- The key of an index signature. -/
  | index (object : OpenObject) : GroupUse .square
  /-- A group inside another one. -/
  | nested {b : Bracket} (outer : Bracket) (opening : Leaf [outer.opening]) (inside : Balanced)
      (use : GroupUse outer) : GroupUse b

/-- What may come next in the statement that is being read. -/
inductive Position
  /-- A statement. -/
  | statement
  /-- An interface or alias, after the word that exports it. -/
  | exported (word : Leaf [.exportWord])
  | interfaceName (exportWord : Option (Leaf [.exportWord])) (word : Leaf [.interfaceWord])
  /-- What follows the name of an interface. -/
  | interfaceHead (start : InterfaceStart) (parameters : Option (Group .angle))
  /-- A name in the list of what an interface extends, perhaps after a part of it and a dot. -/
  | referenceName (heritage : OpenHeritage) (qualifier : Option (QualifiedName × Leaf [.dot]))
  /-- What follows such a name. -/
  | referenceTail (heritage : OpenHeritage) (name : QualifiedName)
      (arguments : Option (Group .angle))
  | aliasName (exportWord : Option (Leaf [.exportWord])) (word : Leaf [.typeWord])
  | aliasHead (start : AliasStart) (parameters : Option (Group .angle))
  | moduleWord (declareWord : Leaf [.declareWord])
  | moduleName (declareWord : Leaf [.declareWord]) (word : Leaf [.moduleWord])
  | moduleBrace (declareWord : Leaf [.declareWord]) (word : Leaf [.moduleWord])
      (name : Leaf [.string, .identifier])
  /-- An import after its first word. -/
  | importHead (word : Leaf [.importWord])
  /-- An item of an import or, after at least one, what follows the import. -/
  | importItems (i : OpenImport)
  /-- A member of an object type, or its end. -/
  | member (object : OpenObject)
  /-- What follows the name of a member. -/
  | memberName (name : Leaf nameKinds) (object : OpenObject)
  /-- What follows the mark of an optional member. -/
  | memberMark (name : Leaf nameKinds) (mark : Leaf [.question]) (object : OpenObject)
  /-- What follows the key of an index signature. -/
  | indexTail (key : Group .square) (object : OpenObject)
  /-- The colon in front of the type of a member. -/
  | colon (head : MemberHead) (object : OpenObject)
  /-- An item of a type or, after at least one, what follows the type. -/
  | type (run : Option TypeTree) (use : TypeUse)
  /-- Balanced tokens, or the end of the group. -/
  | group (b : Bracket) (opening : Leaf [b.opening]) (inside : Balanced) (use : GroupUse b)

/-- A module block that is open, with the statements in front of it. -/
structure OpenModule where
  before : Statements
  declareWord : Leaf [.declareWord]
  word : Leaf [.moduleWord]
  name : Leaf [.string, .identifier]
  opening : Leaf [.leftBrace]

/-- What has been read of a file: the module blocks that are open, the innermost first, the
statements of the innermost block, and the position in the next one. -/
structure Progress where
  enclosing : List OpenModule
  done : Statements
  position : Position

/-- The declaration as a statement, after the word that exports it, if any. -/
def StatementTree.ofDeclaration (exportWord : Option (Leaf [.exportWord])) (d : DeclarationTree) :
    StatementTree :=
  match exportWord with
  | none => .declaration d
  | some word => .exported word d

/-- What comes of one more token: the progress with it, or why no file goes on with it. -/
abbrev Step := Except ParseError Progress

/-- A name in double quotes has to be a string literal. -/
def checkName (t : Token) : Except ParseError Unit :=
  match unquote t.text with
  | .ok _ => .ok ()
  | .error e => .error (.badName e)

namespace Progress

/-- Nothing has been read. -/
def start : Progress := ⟨[], .empty, .statement⟩

/-- The same place with another position. -/
def goto (p : Progress) (position : Position) : Progress := { p with position }

/-- The statement that was being read is complete. -/
def finish (p : Progress) (s : StatementTree) : Progress :=
  { p with done := .more p.done s, position := .statement }

/-- The token begins a statement, or ends the module block. -/
def beginStatement (p : Progress) (t : Token) : Step :=
  match h : t.kind with
  | .exportWord => .ok (p.goto (.exported (.ofKind t h)))
  | .interfaceWord => .ok (p.goto (.interfaceName none (.ofKind t h)))
  | .typeWord => .ok (p.goto (.aliasName none (.ofKind t h)))
  | .declareWord => .ok (p.goto (.moduleWord (.ofKind t h)))
  | .importWord => .ok (p.goto (.importHead (.ofKind t h)))
  | .rightBrace =>
    match p.enclosing with
    | m :: enclosing =>
      let s := .module m.declareWord m.word m.name m.opening p.done (.ofKind t h)
      .ok ⟨enclosing, .more m.before s, .statement⟩
    | [] => .error (.unexpected t)
  | _ => .error (.unexpected t)

/-- The token goes on after the word that exports a declaration. -/
def exportedStep (p : Progress) (word : Leaf [.exportWord]) (t : Token) : Step :=
  match h : t.kind with
  | .interfaceWord => .ok (p.goto (.interfaceName (some word) (.ofKind t h)))
  | .typeWord => .ok (p.goto (.aliasName (some word) (.ofKind t h)))
  | _ => .error (.unexpected t)

/-- The object type is complete; its closing brace is the token. -/
def closeObject (p : Progress) (members : Members) (closing : Leaf [.rightBrace])
    (opening : Leaf [.leftBrace]) : ObjectUse → Progress
  | .interfaceBody start parameters heritage =>
    let i := ⟨start.word, start.name, parameters, heritage, .mk opening members closing⟩
    p.finish (.ofDeclaration start.exportWord (.interface i))
  | .typeItem run use =>
    p.goto (.type (some (.extend run (.object (.mk opening members closing)))) use)

/-- The alias is complete, perhaps with a semicolon. -/
def finishAlias (p : Progress) (start : AliasStart) (parameters : Option (Group .angle))
    (equals : Leaf [.equals]) (type : TypeTree) (semicolon : Option (Leaf [.semicolon])) :
    Progress :=
  let a := ⟨start.word, start.name, parameters, equals, type, semicolon⟩
  p.finish (.ofDeclaration start.exportWord (.alias a))

/-- The import is complete, perhaps with a semicolon. -/
def finishImport (p : Progress) (i : OpenImport) (clause : ImportClause)
    (semicolon : Option (Leaf [.semicolon])) : Progress :=
  p.finish (.import ⟨i.word, i.typeWord, clause, semicolon⟩)

/-- The type is complete; the token follows it. -/
def endType (p : Progress) (type : TypeTree) (t : Token) : TypeUse → Step
  | .alias start parameters equals =>
    if h : t.kind = .semicolon then
      .ok (p.finishAlias start parameters equals type (some (.ofKind t h)))
    -- the semicolon may be left out where a statement or the end of a block follows
    else (p.finishAlias start parameters equals type none).beginStatement t
  | .member head colon (.mk opening members use) =>
    let m := .mk head colon type
    if h : t.kind ∈ [.semicolon, .comma] then
      .ok (p.goto (.member (.mk opening (.more members m ⟨t, h⟩) use)))
    else if h : t.kind = .rightBrace then
      .ok (p.closeObject (.last members m) (.ofKind t h) opening use)
    else .error (.unexpected t)

/-- The group is complete. -/
def closeGroup (p : Progress) {b : Bracket} (g : Group b) : GroupUse b → Progress
  | .interfaceParameters start => p.goto (.interfaceHead start (some g))
  | .referenceArguments heritage name => p.goto (.referenceTail heritage name (some g))
  | .aliasParameters start => p.goto (.aliasHead start (some g))
  | .importItem h i =>
    p.goto (.importItems { i with clause := some (.extend i.clause (.group _ h g)) })
  | .typeItem h run use => p.goto (.type (some (.extend run (.group _ h g))) use)
  | .method name mark object => p.goto (.colon (.method name mark g) object)
  | .call object => p.goto (.colon (.call g) object)
  | .index object => p.goto (.indexTail g object)
  | .nested outer opening inside use =>
    p.goto (.group outer opening (.more inside (.group _ g.opening g.inside g.closing)) use)

/-- The bracket opens a group. -/
def openGroup (p : Progress) (b : Bracket) (opening : Leaf [b.opening]) (use : GroupUse b) :
    Progress :=
  p.goto (.group b opening .empty use)

/-- The token goes on with balanced tokens. -/
def groupStep (p : Progress) (b : Bracket) (opening : Leaf [b.opening]) (inside : Balanced)
    (use : GroupUse b) (t : Token) : Step :=
  if h : t.kind = b.closing then .ok (p.closeGroup ⟨opening, inside, .ofKind t h⟩ use)
  else if h : t.kind ∈ balancedKinds then
    .ok (p.goto (.group b opening (.more inside (.token ⟨t, h⟩)) use))
  else
    match h : t.kind with
    | .leftBrace => .ok (p.openGroup .brace (.ofKind t h) (.nested b opening inside use))
    | .leftParen => .ok (p.openGroup .paren (.ofKind t h) (.nested b opening inside use))
    | .leftBracket => .ok (p.openGroup .square (.ofKind t h) (.nested b opening inside use))
    | .less => .ok (p.openGroup .angle (.ofKind t h) (.nested b opening inside use))
    -- a bracket of another kind cannot close the group
    | _ => .error (.unexpected t)

/-- The token goes on with an interface after its name. -/
def interfaceHeadStep (p : Progress) (start : InterfaceStart)
    (parameters : Option (Group .angle)) (t : Token) : Step :=
  match h : t.kind, parameters with
  | .less, none => .ok (p.openGroup .angle (.ofKind t h) (.interfaceParameters start))
  | .extendsWord, _ =>
    .ok (p.goto (.referenceName ⟨start, parameters, .ofKind t h, none⟩ none))
  | .leftBrace, _ =>
    .ok (p.goto (.member (.mk (.ofKind t h) .empty (.interfaceBody start parameters none))))
  | _, _ => .error (.unexpected t)

/-- The token goes on with the name of something that an interface extends. -/
def referenceNameStep (p : Progress) (heritage : OpenHeritage)
    (qualifier : Option (QualifiedName × Leaf [.dot])) (t : Token) : Step :=
  if h : t.kind = .identifier then
    let name :=
      match qualifier with
      | none => .name (.ofKind t h)
      | some (before, dot) => .dotted before dot (.ofKind t h)
    .ok (p.goto (.referenceTail heritage name none))
  else .error (.unexpected t)

/-- The token goes on after the name of something that an interface extends. -/
def referenceTailStep (p : Progress) (heritage : OpenHeritage) (name : QualifiedName)
    (arguments : Option (Group .angle)) (t : Token) : Step :=
  let references := heritage.close ⟨name, arguments⟩
  match h : t.kind, arguments with
  | .dot, none => .ok (p.goto (.referenceName heritage (some (name, .ofKind t h))))
  | .less, none => .ok (p.openGroup .angle (.ofKind t h) (.referenceArguments heritage name))
  | .comma, _ =>
    .ok (p.goto (.referenceName { heritage with before := some (references, .ofKind t h) } none))
  | .leftBrace, _ =>
    let use := .interfaceBody heritage.start heritage.parameters (some ⟨heritage.word, references⟩)
    .ok (p.goto (.member (.mk (.ofKind t h) .empty use)))
  | _, _ => .error (.unexpected t)

/-- The token goes on with an alias after its name. -/
def aliasHeadStep (p : Progress) (start : AliasStart) (parameters : Option (Group .angle))
    (t : Token) : Step :=
  match h : t.kind, parameters with
  | .less, none => .ok (p.openGroup .angle (.ofKind t h) (.aliasParameters start))
  | .equals, _ => .ok (p.goto (.type none (.alias start parameters (.ofKind t h))))
  | _, _ => .error (.unexpected t)

/-- Goes on where a token is a name. -/
def readName (t : Token) (p : Progress) : Step := do
  checkName t
  return p

/-- The token goes on with the name of a module. -/
def moduleNameStep (p : Progress) (declareWord : Leaf [.declareWord]) (word : Leaf [.moduleWord])
    (t : Token) : Step :=
  if h : t.kind ∈ [.string, .identifier] then
    readName t (p.goto (.moduleBrace declareWord word ⟨t, h⟩))
  else .error (.unexpected t)

/-- The token goes on with an import. -/
def importStep (p : Progress) (i : OpenImport) (t : Token) : Step :=
  if h : t.kind ∈ importKinds then
    .ok (p.goto (.importItems { i with clause := some (.extend i.clause (.token ⟨t, h⟩)) }))
  else if h : t.kind = .leftBrace then
    .ok (p.openGroup .brace (.ofKind t h) (.importItem (.inl rfl) i))
  else if h : t.kind = .leftParen then
    .ok (p.openGroup .paren (.ofKind t h) (.importItem (.inr rfl) i))
  else
    -- nothing else belongs to an import, which must not be empty
    match i.clause with
    | none => .error (.unexpected t)
    | some clause =>
      if h : t.kind = .semicolon then .ok (p.finishImport i clause (some (.ofKind t h)))
      else (p.finishImport i clause none).beginStatement t

/-- The token goes on with an import after its first word. -/
def importHeadStep (p : Progress) (word : Leaf [.importWord]) (t : Token) : Step :=
  if h : t.kind = .typeWord then .ok (p.goto (.importItems ⟨word, some (.ofKind t h), none⟩))
  else p.importStep ⟨word, none, none⟩ t

/-- The token goes on with a type. -/
def typeStep (p : Progress) (run : Option TypeTree) (use : TypeUse) (t : Token) : Step :=
  if h : t.kind ∈ typeKinds then .ok (p.goto (.type (some (.extend run (.token ⟨t, h⟩))) use))
  else
    match h : t.kind with
    | .leftParen => .ok (p.openGroup .paren (.ofKind t h) (.typeItem (by decide) run use))
    | .leftBracket => .ok (p.openGroup .square (.ofKind t h) (.typeItem (by decide) run use))
    | .less => .ok (p.openGroup .angle (.ofKind t h) (.typeItem (by decide) run use))
    | .leftBrace => .ok (p.goto (.member (.mk (.ofKind t h) .empty (.typeItem run use))))
    | _ =>
      match run with
      | some type => p.endType type t use
      | none => .error (.unexpected t)

/-- The token goes on with a member, or ends the object type. -/
def memberStep (p : Progress) (object : OpenObject) (t : Token) : Step :=
  if h : t.kind ∈ nameKinds then .ok (p.goto (.memberName ⟨t, h⟩ object))
  else
    match h : t.kind with
    | .leftParen => .ok (p.openGroup .paren (.ofKind t h) (.call object))
    | .leftBracket => .ok (p.openGroup .square (.ofKind t h) (.index object))
    | .rightBrace =>
      match object with
      | .mk opening members use =>
        .ok (p.closeObject (.separated members) (.ofKind t h) opening use)
    | _ => .error (.unexpected t)

/-- The token goes on after the name of a member. -/
def memberNameStep (p : Progress) (name : Leaf nameKinds) (object : OpenObject) (t : Token) :
    Step :=
  match h : t.kind with
  | .question => readName name.token (p.goto (.memberMark name (.ofKind t h) object))
  -- a method is no property, but its name has to be one
  | .leftParen => readName name.token (p.openGroup .paren (.ofKind t h) (.method name none object))
  | .colon =>
    readName name.token
      (p.goto (.type none (.member (.property name none) (.ofKind t h) object)))
  | _ => .error (.unexpected t)

/-- The token goes on after the mark of an optional member. -/
def memberMarkStep (p : Progress) (name : Leaf nameKinds) (mark : Leaf [.question])
    (object : OpenObject) (t : Token) : Step :=
  match h : t.kind with
  | .leftParen => .ok (p.openGroup .paren (.ofKind t h) (.method name (some mark) object))
  | .colon =>
    .ok (p.goto (.type none (.member (.property name (some mark)) (.ofKind t h) object)))
  | _ => .error (.unexpected t)

/-- The token goes on after the key of an index signature. -/
def indexTailStep (p : Progress) (key : Group .square) (object : OpenObject) (t : Token) : Step :=
  match h : t.kind with
  | .question => .ok (p.goto (.colon (.index key (some (.ofKind t h))) object))
  | .colon => .ok (p.goto (.type none (.member (.index key none) (.ofKind t h) object)))
  | _ => .error (.unexpected t)

/-- A token of one kind has to come next. -/
def expect (p : Progress) (k : Kind) (t : Token) (next : Leaf [k] → Position) : Step :=
  if h : t.kind = k then .ok (p.goto (next (.ofKind t h))) else .error (.unexpected t)

/-- The token opens the block of a module. -/
def moduleBraceStep (p : Progress) (declareWord : Leaf [.declareWord]) (word : Leaf [.moduleWord])
    (name : Leaf [.string, .identifier]) (t : Token) : Step :=
  if h : t.kind = .leftBrace then
    .ok ⟨⟨p.done, declareWord, word, name, .ofKind t h⟩ :: p.enclosing, .empty, .statement⟩
  else .error (.unexpected t)

/-- One more token. -/
def step (p : Progress) (t : Token) : Step :=
  match p.position with
  | .statement => p.beginStatement t
  | .exported word => p.exportedStep word t
  | .interfaceName lead word =>
    p.expect .identifier t fun name => .interfaceHead ⟨lead, word, name⟩ none
  | .interfaceHead start parameters => p.interfaceHeadStep start parameters t
  | .referenceName heritage qualifier => p.referenceNameStep heritage qualifier t
  | .referenceTail heritage name arguments => p.referenceTailStep heritage name arguments t
  | .aliasName lead word => p.expect .identifier t fun name => .aliasHead ⟨lead, word, name⟩ none
  | .aliasHead start parameters => p.aliasHeadStep start parameters t
  | .moduleWord declareWord => p.expect .moduleWord t fun word => .moduleName declareWord word
  | .moduleName declareWord word => p.moduleNameStep declareWord word t
  | .moduleBrace declareWord word name => p.moduleBraceStep declareWord word name t
  | .importHead word => p.importHeadStep word t
  | .importItems i => p.importStep i t
  | .member object => p.memberStep object t
  | .memberName name object => p.memberNameStep name object t
  | .memberMark name mark object => p.memberMarkStep name mark object t
  | .indexTail key object => p.indexTailStep key object t
  | .colon head object => p.expect .colon t fun colon => .type none (.member head colon object)
  | .type run use => p.typeStep run use t
  | .group b opening inside use => p.groupStep b opening inside use t

/-- The derivation of a file that ends here. -/
def complete (p : Progress) : Except ParseError Statements :=
  match p.enclosing, p.position with
  | [], .statement => .ok p.done
  -- an import or an alias may end without a semicolon
  | [], .importItems ⟨word, typeWord, some clause⟩ =>
    .ok (p.finishImport ⟨word, typeWord, none⟩ clause none).done
  | [], .type (some type) (.alias start parameters equals) =>
    .ok (p.finishAlias start parameters equals type none).done
  | _, _ => .error .unexpectedEnd

end Progress

/-- The derivation of some tokens. -/
def derive (ts : List Token) : Except ParseError Statements := do
  (← ts.foldlM Progress.step Progress.start).complete

/-- The statements of a text. -/
def parse (text : String) : Except ParseError (List Statement) :=
  (derive (tokens text)).map Statements.statements

end SchemaTypings.Declaration
