import SchemaTypings.Declaration.Parser

/-!
# Derivations hold the tokens that were read

Everything that a position holds is derivations of tokens that have been read, and every token that
has been read is in one of them. `Progress.read` lists these tokens in order; a step adds its token
behind them (`read_step`), so that the derivation of a file has the tokens of the file as its yield
(`yield_of_derive`).
-/

namespace SchemaTypings.Declaration

/-! ## The tokens of what is being read -/

/-- The tokens of an interface up to its name. -/
def InterfaceStart.yield (s : InterfaceStart) : List Token :=
  optionalYield s.exportWord ++ [s.word.token, s.name.token]

/-- The tokens of an alias up to its name. -/
def AliasStart.yield (s : AliasStart) : List Token :=
  optionalYield s.exportWord ++ [s.word.token, s.name.token]

/-- The tokens of the references in front of the one that is being read. -/
def OpenHeritage.yield (h : OpenHeritage) : List Token :=
  h.start.yield ++ optionalGroupYield h.parameters ++ h.word.token ::
    match h.before with
    | none => []
    | some (before, comma) => before.yield ++ [comma.token]

/-- The tokens of an import up to the items that are still to come. -/
def OpenImport.yield (i : OpenImport) : List Token :=
  i.word.token :: optionalYield i.typeWord ++
    match i.clause with
    | none => []
    | some clause => clause.yield

/-- The tokens of a run of type items. -/
def runYield : Option TypeTree → List Token
  | none => []
  | some type => type.yield

@[simp] theorem runYield_none : runYield none = [] := rfl

@[simp] theorem runYield_some (type : TypeTree) : runYield (some type) = type.yield := rfl

mutual
/-- The tokens in front of an object type. -/
def ObjectUse.yield : ObjectUse → List Token
  | .interfaceBody start parameters heritage =>
    start.yield ++ optionalGroupYield parameters ++ heritageYield heritage
  | .typeItem run use => use.yield ++ runYield run
  termination_by structural u => u

/-- The tokens in front of a type. -/
def TypeUse.yield : TypeUse → List Token
  | .alias start parameters equals =>
    start.yield ++ optionalGroupYield parameters ++ [equals.token]
  | .member head colon object => object.yield ++ head.yield ++ [colon.token]
  termination_by structural u => u

/-- The tokens of an object type that is being read, with those in front of it. -/
def OpenObject.yield : OpenObject → List Token
  | .mk opening members use => use.yield ++ opening.token :: members.yield
  termination_by structural o => o
end

/-- The tokens in front of a group. -/
def GroupUse.yield {b : Bracket} : GroupUse b → List Token
  | .interfaceParameters start => start.yield
  | .referenceArguments heritage name => heritage.yield ++ name.yield
  | .aliasParameters start => start.yield
  | .importItem _ i => i.yield
  | .typeItem _ run use => use.yield ++ runYield run
  | .method name mark object => object.yield ++ name.token :: optionalYield mark
  | .call object => object.yield
  | .index object => object.yield
  | .nested _ opening inside use => use.yield ++ opening.token :: inside.yield

/-- The tokens of the statement that is being read. -/
def Position.yield : Position → List Token
  | .statement => []
  | .exported word => [word.token]
  | .interfaceName lead word => optionalYield lead ++ [word.token]
  | .interfaceHead start parameters => start.yield ++ optionalGroupYield parameters
  | .referenceName heritage none => heritage.yield
  | .referenceName heritage (some (before, dot)) => heritage.yield ++ before.yield ++ [dot.token]
  | .referenceTail heritage name arguments =>
    heritage.yield ++ name.yield ++ optionalGroupYield arguments
  | .aliasName lead word => optionalYield lead ++ [word.token]
  | .aliasHead start parameters => start.yield ++ optionalGroupYield parameters
  | .moduleWord declareWord => [declareWord.token]
  | .moduleName declareWord word => [declareWord.token, word.token]
  | .moduleBrace declareWord word name => [declareWord.token, word.token, name.token]
  | .importHead word => [word.token]
  | .importItems i => i.yield
  | .member object => object.yield
  | .memberName name object => object.yield ++ [name.token]
  | .memberMark name mark object => object.yield ++ [name.token, mark.token]
  | .indexTail key object => object.yield ++ key.yield
  | .colon head object => object.yield ++ head.yield
  | .type run use => use.yield ++ runYield run
  | .group _ opening inside use => use.yield ++ opening.token :: inside.yield

/-- The tokens of the module blocks that are open, up to the statements of the innermost. -/
def enclosingYield : List OpenModule → List Token
  | [] => []
  | m :: rest =>
    enclosingYield rest ++ m.before.yield ++
      [m.declareWord.token, m.word.token, m.name.token, m.opening.token]

namespace Progress

/-- The tokens of all that is complete. -/
def settled (p : Progress) : List Token :=
  enclosingYield p.enclosing ++ p.done.yield

/-- The tokens that have been read. -/
def read (p : Progress) : List Token :=
  p.settled ++ p.position.yield

@[simp] theorem settled_goto (p : Progress) (q : Position) : (p.goto q).settled = p.settled := rfl

@[simp] theorem read_goto (p : Progress) (q : Position) :
    (p.goto q).read = p.settled ++ q.yield := rfl

@[simp] theorem settled_finish (p : Progress) (s : StatementTree) :
    (p.finish s).settled = p.settled ++ s.yield := by
  simp [settled, finish, Statements.yield]

@[simp] theorem read_finish (p : Progress) (s : StatementTree) :
    (p.finish s).read = p.settled ++ s.yield := by
  simp [read, settled, finish, Statements.yield, Position.yield]

end Progress

/-! ## The yields of what is put together -/

@[simp] theorem token_ofKind {k : Kind} (t : Token) (h : t.kind = k) :
    (Leaf.ofKind t h).token = t := rfl

@[simp] theorem yield_extend (run : Option TypeTree) (i : TypeItem) :
    (TypeTree.extend run i).yield = runYield run ++ i.yield := by
  cases run <;> simp [TypeTree.extend, TypeTree.yield]

@[simp] theorem yield_extendClause (clause : Option ImportClause) (i : ImportItem) :
    (ImportClause.extend clause i).yield =
      (match clause with | none => [] | some c => c.yield) ++ i.yield := by
  cases clause <;> simp [ImportClause.extend, ImportClause.yield]

@[simp] theorem yield_ofDeclaration (exportWord : Option (Leaf [.exportWord]))
    (d : DeclarationTree) :
    (StatementTree.ofDeclaration exportWord d).yield = optionalYield exportWord ++ d.yield := by
  cases exportWord <;> simp [StatementTree.ofDeclaration, StatementTree.yield]

/-- A reference comes behind the references in front of it. -/
theorem yield_close (h : OpenHeritage) (r : Reference) (rest : List Token) :
    h.start.yield ++ (optionalGroupYield h.parameters ++
        h.word.token :: ((h.close r).yield ++ rest)) =
      h.yield ++ (r.yield ++ rest) := by
  obtain ⟨start, parameters, word, before⟩ := h
  cases before <;> simp [OpenHeritage.yield, OpenHeritage.close, References.yield]

namespace Progress

@[simp] theorem settled_finishAlias (p : Progress) (start : AliasStart)
    (parameters : Option (Group .angle)) (equals : Leaf [.equals]) (type : TypeTree)
    (semicolon : Option (Leaf [.semicolon])) :
    (p.finishAlias start parameters equals type semicolon).settled =
      p.settled ++ (TypeUse.alias start parameters equals).yield ++ type.yield ++
        optionalYield semicolon := by
  simp [finishAlias, DeclarationTree.yield, AliasTree.yield, TypeUse.yield, AliasStart.yield]

@[simp] theorem settled_finishImport (p : Progress) (i : OpenImport) (clause : ImportClause)
    (semicolon : Option (Leaf [.semicolon])) :
    (p.finishImport i clause semicolon).settled =
      p.settled ++ OpenImport.yield { i with clause := some clause } ++
        optionalYield semicolon := by
  simp [finishImport, StatementTree.yield, ImportTree.yield, OpenImport.yield]

/-! ## What a step reads -/

/-- A token that begins a statement is read behind all that is complete. -/
theorem read_beginStatement {p q : Progress} {t : Token} (h : p.beginStatement t = .ok q) :
    q.read = p.settled ++ [t] := by
  unfold beginStatement at h
  split at h
  case h_6 =>
    split at h
    case h_1 m enclosing he =>
      obtain rfl := Except.ok.inj h
      simp [read, settled, he, enclosingYield, Statements.yield, StatementTree.yield,
        Position.yield]
    case h_2 => cases h
  case h_7 => cases h
  all_goals
    obtain rfl := Except.ok.inj h
    simp [Position.yield]

/-- Closing an object type reads its brace behind its members. -/
theorem read_closeObject (p : Progress) (members : Members) (closing : Leaf [.rightBrace])
    (opening : Leaf [.leftBrace]) (use : ObjectUse) :
    (p.closeObject members closing opening use).read =
      p.settled ++ use.yield ++ opening.token :: members.yield ++ [closing.token] := by
  cases use with
  | interfaceBody start parameters heritage =>
    simp [closeObject, DeclarationTree.yield, InterfaceTree.yield, ObjectType.yield,
      ObjectUse.yield, InterfaceStart.yield]
  | typeItem run use =>
    simp [closeObject, Position.yield, ObjectUse.yield, TypeItem.yield,
      ObjectType.yield]

/-- The token behind a type is read behind it. -/
theorem read_endType {p q : Progress} {type : TypeTree} {t : Token} {use : TypeUse}
    (h : p.endType type t use = .ok q) : q.read = p.settled ++ use.yield ++ type.yield ++ [t] := by
  cases use with
  | «alias» start parameters equals =>
    simp only [endType] at h
    split at h
    · obtain rfl := Except.ok.inj h
      simp [read, finishAlias, finish, Position.yield]
      simp [settled, Statements.yield, DeclarationTree.yield, AliasTree.yield, TypeUse.yield,
        AliasStart.yield]
    · rw [read_beginStatement h]
      simp
  | member head colon object =>
    obtain ⟨opening, members, use⟩ := object
    simp only [endType] at h
    split at h
    · obtain rfl := Except.ok.inj h
      simp [Position.yield, OpenObject.yield, MemberList.yield, MemberTree.yield, TypeUse.yield]
    · split at h
      · obtain rfl := Except.ok.inj h
        simp [read_closeObject, Members.yield, MemberTree.yield, TypeUse.yield, OpenObject.yield]
      · cases h

/-- Closing a group reads its bracket behind its tokens. -/
theorem read_closeGroup (p : Progress) {b : Bracket} (g : Group b) (use : GroupUse b) :
    (p.closeGroup g use).read = p.settled ++ use.yield ++ g.yield := by
  cases use <;>
    simp [closeGroup, Position.yield, GroupUse.yield, OpenImport.yield,
      ImportItem.yield, TypeItem.yield, MemberHead.yield, Balanced.yield,
      BalancedItem.yield, Group.yield]

/-- Opening a group reads its bracket. -/
@[simp] theorem read_openGroup (p : Progress) (b : Bracket) (opening : Leaf [b.opening])
    (use : GroupUse b) :
    (p.openGroup b opening use).read = p.settled ++ use.yield ++ [opening.token] := by
  simp [openGroup, Position.yield, Balanced.yield]

theorem read_groupStep {p q : Progress} {b : Bracket} {opening : Leaf [b.opening]}
    {inside : Balanced} {use : GroupUse b} {t : Token}
    (h : p.groupStep b opening inside use t = .ok q) :
    q.read = p.settled ++ (Position.group b opening inside use).yield ++ [t] := by
  unfold groupStep at h
  split at h
  · obtain rfl := Except.ok.inj h
    simp [read_closeGroup, Position.yield, Group.yield]
  · split at h
    · obtain rfl := Except.ok.inj h
      simp [Position.yield, Balanced.yield, BalancedItem.yield]
    · split at h
      case h_5 => cases h
      all_goals
        obtain rfl := Except.ok.inj h
        simp [Position.yield, GroupUse.yield]

theorem read_exportedStep {p q : Progress} {word : Leaf [.exportWord]} {t : Token}
    (h : p.exportedStep word t = .ok q) :
    q.read = p.settled ++ (Position.exported word).yield ++ [t] := by
  unfold exportedStep at h
  split at h
  case h_3 => cases h
  all_goals
    obtain rfl := Except.ok.inj h
    simp [Position.yield]

theorem read_interfaceHeadStep {p q : Progress} {start : InterfaceStart}
    {parameters : Option (Group .angle)} {t : Token}
    (h : p.interfaceHeadStep start parameters t = .ok q) :
    q.read = p.settled ++ (Position.interfaceHead start parameters).yield ++ [t] := by
  unfold interfaceHeadStep at h
  split at h
  case h_4 => cases h
  all_goals
    obtain rfl := Except.ok.inj h
    simp [Position.yield, GroupUse.yield, OpenHeritage.yield, OpenObject.yield, ObjectUse.yield,
      MemberList.yield, heritageYield]

theorem read_referenceNameStep {p q : Progress} {heritage : OpenHeritage}
    {qualifier : Option (QualifiedName × Leaf [.dot])} {t : Token}
    (h : p.referenceNameStep heritage qualifier t = .ok q) :
    q.read = p.settled ++ (Position.referenceName heritage qualifier).yield ++ [t] := by
  unfold referenceNameStep at h
  split at h
  · obtain rfl := Except.ok.inj h
    cases qualifier <;> simp [Position.yield, QualifiedName.yield]
  · cases h

theorem read_referenceTailStep {p q : Progress} {heritage : OpenHeritage} {name : QualifiedName}
    {arguments : Option (Group .angle)} {t : Token}
    (h : p.referenceTailStep heritage name arguments t = .ok q) :
    q.read = p.settled ++ (Position.referenceTail heritage name arguments).yield ++ [t] := by
  unfold referenceTailStep at h
  split at h
  case h_5 => cases h
  all_goals
    obtain rfl := Except.ok.inj h
    simp [Position.yield, GroupUse.yield, OpenObject.yield, ObjectUse.yield,
      MemberList.yield, heritageYield, yield_close, Reference.yield]
  rw [OpenHeritage.yield]
  simp [yield_close, Reference.yield]

theorem read_aliasHeadStep {p q : Progress} {start : AliasStart}
    {parameters : Option (Group .angle)} {t : Token}
    (h : p.aliasHeadStep start parameters t = .ok q) :
    q.read = p.settled ++ (Position.aliasHead start parameters).yield ++ [t] := by
  unfold aliasHeadStep at h
  split at h
  case h_3 => cases h
  all_goals
    obtain rfl := Except.ok.inj h
    simp [Position.yield, GroupUse.yield, TypeUse.yield]

/-- Going on where a token is a name changes nothing. -/
theorem eq_of_readName {t : Token} {p q : Progress} (h : readName t p = .ok q) : q = p := by
  unfold readName at h
  cases hc : checkName t with
  | error e =>
    rw [hc] at h
    cases h
  | ok u =>
    rw [hc] at h
    exact (Except.ok.inj h).symm

theorem read_moduleNameStep {p q : Progress} {declareWord : Leaf [.declareWord]}
    {word : Leaf [.moduleWord]} {t : Token}
    (h : p.moduleNameStep declareWord word t = .ok q) :
    q.read = p.settled ++ (Position.moduleName declareWord word).yield ++ [t] := by
  unfold moduleNameStep at h
  split at h
  · rw [eq_of_readName h]
    simp [Position.yield]
  · cases h

theorem read_moduleBraceStep {p q : Progress} {declareWord : Leaf [.declareWord]}
    {word : Leaf [.moduleWord]} {name : Leaf [.string, .identifier]} {t : Token}
    (h : p.moduleBraceStep declareWord word name t = .ok q) :
    q.read = p.settled ++ (Position.moduleBrace declareWord word name).yield ++ [t] := by
  unfold moduleBraceStep at h
  split at h
  · obtain rfl := Except.ok.inj h
    simp [read, settled, enclosingYield, Statements.yield, Position.yield]
  · cases h

theorem read_importStep {p q : Progress} {i : OpenImport} {t : Token}
    (h : p.importStep i t = .ok q) : q.read = p.settled ++ i.yield ++ [t] := by
  obtain ⟨word, typeWord, clause⟩ := i
  unfold importStep at h
  split at h
  · obtain rfl := Except.ok.inj h
    simp [Position.yield, OpenImport.yield, ImportItem.yield]
  · split at h
    · obtain rfl := Except.ok.inj h
      simp [GroupUse.yield]
    · split at h
      · obtain rfl := Except.ok.inj h
        simp [GroupUse.yield]
      · cases clause with
        | none => cases h
        | some clause =>
          simp only at h
          split at h
          · obtain rfl := Except.ok.inj h
            simp [finishImport, StatementTree.yield, ImportTree.yield, OpenImport.yield]
          · rw [read_beginStatement h]
            simp

theorem read_importHeadStep {p q : Progress} {word : Leaf [.importWord]} {t : Token}
    (h : p.importHeadStep word t = .ok q) :
    q.read = p.settled ++ (Position.importHead word).yield ++ [t] := by
  unfold importHeadStep at h
  split at h
  · obtain rfl := Except.ok.inj h
    simp [Position.yield, OpenImport.yield]
  · rw [read_importStep h]
    simp [Position.yield, OpenImport.yield]

theorem read_typeStep {p q : Progress} {run : Option TypeTree} {use : TypeUse} {t : Token}
    (h : p.typeStep run use t = .ok q) :
    q.read = p.settled ++ (Position.type run use).yield ++ [t] := by
  unfold typeStep at h
  split at h
  · obtain rfl := Except.ok.inj h
    simp [Position.yield, TypeItem.yield]
  · split at h
    case h_5 =>
      cases run with
      | none => cases h
      | some type =>
        rw [read_endType h]
        simp [Position.yield]
    all_goals
      obtain rfl := Except.ok.inj h
      simp [Position.yield, GroupUse.yield, OpenObject.yield, ObjectUse.yield, MemberList.yield]

theorem read_memberStep {p q : Progress} {object : OpenObject} {t : Token}
    (h : p.memberStep object t = .ok q) : q.read = p.settled ++ object.yield ++ [t] := by
  unfold memberStep at h
  split at h
  · obtain rfl := Except.ok.inj h
    simp [Position.yield]
  · split at h
    case h_3 =>
      obtain ⟨opening, members, use⟩ := object
      obtain rfl := Except.ok.inj h
      simp [read_closeObject, OpenObject.yield, Members.yield]
    case h_4 => cases h
    all_goals
      obtain rfl := Except.ok.inj h
      simp [GroupUse.yield]

theorem read_memberNameStep {p q : Progress} {name : Leaf nameKinds} {object : OpenObject}
    {t : Token} (h : p.memberNameStep name object t = .ok q) :
    q.read = p.settled ++ (Position.memberName name object).yield ++ [t] := by
  unfold memberNameStep at h
  split at h
  case h_4 => cases h
  all_goals
    rw [eq_of_readName h]
    simp [Position.yield, GroupUse.yield, TypeUse.yield, MemberHead.yield]

theorem read_memberMarkStep {p q : Progress} {name : Leaf nameKinds} {mark : Leaf [.question]}
    {object : OpenObject} {t : Token} (h : p.memberMarkStep name mark object t = .ok q) :
    q.read = p.settled ++ (Position.memberMark name mark object).yield ++ [t] := by
  unfold memberMarkStep at h
  split at h
  case h_3 => cases h
  all_goals
    obtain rfl := Except.ok.inj h
    simp [Position.yield, GroupUse.yield, TypeUse.yield, MemberHead.yield]

theorem read_indexTailStep {p q : Progress} {key : Group .square} {object : OpenObject} {t : Token}
    (h : p.indexTailStep key object t = .ok q) :
    q.read = p.settled ++ (Position.indexTail key object).yield ++ [t] := by
  unfold indexTailStep at h
  split at h
  case h_3 => cases h
  all_goals
    obtain rfl := Except.ok.inj h
    simp [Position.yield, TypeUse.yield, MemberHead.yield]

/-- A token that was expected is read behind the others. -/
theorem read_expect {p q : Progress} {k : Kind} {t : Token} {next : Leaf [k] → Position}
    (h : p.expect k t next = .ok q) :
    ∃ hk : t.kind = k, q.read = p.settled ++ (next (.ofKind t hk)).yield := by
  unfold expect at h
  split at h
  case isTrue hk =>
    obtain rfl := Except.ok.inj h
    exact ⟨hk, rfl⟩
  case isFalse => cases h

/-- A step reads its token behind those that were read. -/
theorem read_step {p q : Progress} {t : Token} (h : p.step t = .ok q) : q.read = p.read ++ [t] := by
  obtain ⟨enclosing, done, position⟩ := p
  unfold step at h
  cases position with
  | statement =>
    rw [read_beginStatement h]
    simp [read, Position.yield, settled]
  | exported word => exact read_exportedStep h
  | interfaceName lead word =>
    obtain ⟨hk, hq⟩ := read_expect h
    rw [hq]
    simp [read, Position.yield, settled, InterfaceStart.yield]
  | interfaceHead start parameters => exact read_interfaceHeadStep h
  | referenceName heritage qualifier => exact read_referenceNameStep h
  | referenceTail heritage name arguments => exact read_referenceTailStep h
  | aliasName lead word =>
    obtain ⟨hk, hq⟩ := read_expect h
    rw [hq]
    simp [read, Position.yield, settled, AliasStart.yield]
  | aliasHead start parameters => exact read_aliasHeadStep h
  | moduleWord declareWord =>
    obtain ⟨hk, hq⟩ := read_expect h
    rw [hq]
    simp [read, Position.yield, settled]
  | moduleName declareWord word => exact read_moduleNameStep h
  | moduleBrace declareWord word name => exact read_moduleBraceStep h
  | importHead word => exact read_importHeadStep h
  | importItems i => exact read_importStep h
  | member object => exact read_memberStep h
  | memberName name object => exact read_memberNameStep h
  | memberMark name mark object => exact read_memberMarkStep h
  | indexTail key object => exact read_indexTailStep h
  | colon head object =>
    obtain ⟨hk, hq⟩ := read_expect h
    rw [hq]
    simp [read, Position.yield, settled, TypeUse.yield]
  | type run use => exact read_typeStep h
  | group b opening inside use => exact read_groupStep h

/-- Reading some tokens puts them behind those that were read. -/
theorem read_steps {ts : List Token} {p q : Progress} (h : ts.foldlM step p = .ok q) :
    q.read = p.read ++ ts := by
  induction ts generalizing p with
  | nil =>
    obtain rfl := Except.ok.inj h
    simp
  | cons t rest ih =>
    rw [List.foldlM_cons] at h
    cases hs : p.step t with
    | error e =>
      rw [hs] at h
      cases h
    | ok r =>
      rw [hs] at h
      rw [ih h, read_step hs, List.append_assoc, List.singleton_append]

/-- The derivation of a file that ends here has the tokens that were read. -/
theorem yield_of_complete {p : Progress} {d : Statements} (h : p.complete = .ok d) :
    d.yield = p.read := by
  obtain ⟨enclosing, done, position⟩ := p
  unfold complete at h
  split at h
  case h_4 => cases h
  all_goals
    rename_i he hp
    simp only at he hp
    subst he hp
    obtain rfl := Except.ok.inj h
    simp [read, settled, enclosingYield, Position.yield, finishImport, finishAlias, finish,
      Statements.yield, StatementTree.yield, ImportTree.yield, OpenImport.yield,
      DeclarationTree.yield, AliasTree.yield, TypeUse.yield, AliasStart.yield]

end Progress

/-- The derivation of some tokens has these tokens as its yield. -/
theorem yield_of_derive {ts : List Token} {d : Statements} (h : derive ts = .ok d) :
    d.yield = ts := by
  unfold derive at h
  cases hs : ts.foldlM Progress.step Progress.start with
  | error e =>
    rw [hs] at h
    cases h
  | ok p =>
    rw [hs] at h
    rw [Progress.yield_of_complete h, Progress.read_steps hs]
    rfl

end SchemaTypings.Declaration
