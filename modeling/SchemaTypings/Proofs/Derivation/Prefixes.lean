import SchemaTypings.Proofs.Derivation.Completeness

/-!
# Everything that is read begins a file

Whatever has been read can be gone on with to a file: a few more tokens close what is open, the
innermost construct first. Reading these tokens leads to the end of the file (`Progress.canEnd`),
unless the last token is the name of a member and no literal, which a further token would bring to
light. All that has been read begins a file in any case (`Progress.beginsFile_read`).
-/

namespace SchemaTypings.Declaration

/-- Some file begins with these tokens. -/
def BeginsFile (ts : List Token) : Prop :=
  ∃ d : Statements, ts <+: d.yield

theorem BeginsFile.mono {ts us : List Token} (h : BeginsFile us) (hts : ts <+: us) :
    BeginsFile ts := by
  obtain ⟨d, hd⟩ := h
  exact ⟨d, hts.trans hd⟩

/-- A token of a kind, to go on with. -/
def Token.sample (k : Kind) : Token := ⟨k, "", 0, 0⟩

/-- A leaf that holds such a token. -/
def Leaf.sample (k : Kind) : Leaf [k] := .ofKind (.sample k) rfl

namespace Progress

/-- A file can end some tokens further on. -/
def CanEnd (p : Progress) : Prop :=
  ∃ (more : List Token) (q : Progress) (d : Statements),
    more.foldlM step p = .ok q ∧ q.complete = .ok d

/-- A file can end here when it can one step further on. -/
theorem canEnd_of_step {p q : Progress} {t : Token} (h : p.step t = .ok q) (hq : q.CanEnd) :
    p.CanEnd := by
  obtain ⟨more, r, d, hmore, hd⟩ := hq
  refine ⟨t :: more, r, d, ?_, hd⟩
  rw [List.foldlM_cons, h]
  exact hmore

/-- What has been read where a file can end begins a file. -/
theorem CanEnd.beginsFile {p : Progress} (h : p.CanEnd) : BeginsFile p.read := by
  obtain ⟨more, q, d, hmore, hd⟩ := h
  refine ⟨d, ?_⟩
  rw [yield_of_complete hd, read_steps hmore]
  exact List.prefix_append _ _

/-! ## Closing what is open -/

/-- Between two statements only the module blocks have to be closed. -/
theorem canEnd_between (enclosing : List OpenModule) (before : Statements) :
    (between enclosing before).CanEnd := by
  induction enclosing generalizing before with
  | nil => exact ⟨[], _, before, rfl, rfl⟩
  | cons m rest ih =>
    let closed := StatementTree.module m.declareWord m.word m.name m.opening before
      (.sample .rightBrace)
    have hstep : (between (m :: rest) before).step (.sample .rightBrace) =
        .ok (between rest (.more m.before closed)) := rfl
    exact canEnd_of_step hstep (ih _)

theorem canEnd_finish (p : Progress) (s : StatementTree) : (p.finish s).CanEnd :=
  canEnd_between p.enclosing (.more p.done s)

mutual
/-- Behind an object type, what it is part of is closed. -/
theorem canEnd_closeObject (use : ObjectUse) (p : Progress) (members : Members)
    (closing : Leaf [.rightBrace]) (opening : Leaf [.leftBrace]) :
    (p.closeObject members closing opening use).CanEnd := by
  cases use with
  | interfaceBody start parameters heritage => exact canEnd_finish p _
  | typeItem run use => exact canEnd_type use p _

/-- Behind a type, an alias is ended and a member is the last of its object type. -/
theorem canEnd_type (use : TypeUse) (p : Progress) (type : TypeTree) :
    (p.goto (.type (some type) use)).CanEnd := by
  cases use with
  | «alias» start parameters equals =>
    have hstep : (p.goto (.type (some type) (.alias start parameters equals))).step
        (.sample .semicolon) =
          .ok (p.finishAlias start parameters equals type (some (.sample .semicolon))) := rfl
    exact canEnd_of_step hstep (canEnd_finish p _)
  | member head colon object =>
    obtain ⟨opening, members, use⟩ := object
    have hstep := step_lastMember p type head colon opening members use (.sample .rightBrace)
    exact canEnd_of_step hstep (canEnd_closeObject use p _ _ _)
end

/-- A type that is still to come may be a name. -/
theorem canEnd_typeRun (p : Progress) (run : Option TypeTree) (use : TypeUse) :
    (p.goto (.type run use)).CanEnd :=
  canEnd_of_step (step_typeToken p run use ⟨.sample .identifier, by decide⟩)
    (canEnd_type use p _)

theorem canEnd_member (p : Progress) (object : OpenObject) :
    (p.goto (.member object)).CanEnd := by
  obtain ⟨opening, members, use⟩ := object
  exact canEnd_of_step (step_closeObject p opening members use (.sample .rightBrace))
    (canEnd_closeObject use p _ _ _)

theorem canEnd_colon (p : Progress) (head : MemberHead) (object : OpenObject) :
    (p.goto (.colon head object)).CanEnd := by
  have hstep : (p.goto (.colon head object)).step (.sample .colon) =
      .ok (p.goto (.type none (.member head (.sample .colon) object))) := rfl
  exact canEnd_of_step hstep (canEnd_typeRun p _ _)

theorem canEnd_indexTail (p : Progress) (key : Group .square) (object : OpenObject) :
    (p.goto (.indexTail key object)).CanEnd := by
  have hstep : (p.goto (.indexTail key object)).step (.sample .colon) =
      .ok (p.goto (.type none (.member (.index key none) (.sample .colon) object))) := rfl
  exact canEnd_of_step hstep (canEnd_typeRun p _ _)

theorem canEnd_memberMark (p : Progress) (name : Leaf nameKinds) (mark : Leaf [.question])
    (object : OpenObject) : (p.goto (.memberMark name mark object)).CanEnd := by
  have hstep : (p.goto (.memberMark name mark object)).step (.sample .colon) =
      .ok (p.goto (.type none
        (.member (.property name (some mark)) (.sample .colon) object))) := rfl
  exact canEnd_of_step hstep (canEnd_typeRun p _ _)

/-- The step behind a name checks it. -/
theorem canEnd_memberName (p : Progress) (name : Leaf nameKinds) (object : OpenObject)
    (hname : checkName name.token = .ok ()) : (p.goto (.memberName name object)).CanEnd := by
  have hstep : (p.goto (.memberName name object)).step (.sample .question) =
      readName name.token (p.goto (.memberMark name (.sample .question) object)) := rfl
  rw [readName, hname] at hstep
  exact canEnd_of_step hstep (canEnd_memberMark p name _ object)

theorem canEnd_interfaceHead (p : Progress) (start : InterfaceStart)
    (parameters : Option (Group .angle)) :
    (p.goto (.interfaceHead start parameters)).CanEnd := by
  let use := ObjectUse.interfaceBody start parameters none
  have hstep : (p.goto (.interfaceHead start parameters)).step (.sample .leftBrace) =
      .ok (p.goto (.member (.mk (.sample .leftBrace) .empty use))) := by
    cases parameters <;> rfl
  exact canEnd_of_step hstep (canEnd_member p _)

theorem canEnd_referenceTail (p : Progress) (heritage : OpenHeritage) (name : QualifiedName)
    (arguments : Option (Group .angle)) :
    (p.goto (.referenceTail heritage name arguments)).CanEnd := by
  let use := ObjectUse.interfaceBody heritage.start heritage.parameters
    (some ⟨heritage.word, heritage.close ⟨name, arguments⟩⟩)
  have hstep : (p.goto (.referenceTail heritage name arguments)).step (.sample .leftBrace) =
      .ok (p.goto (.member (.mk (.sample .leftBrace) .empty use))) := by
    cases arguments <;> rfl
  exact canEnd_of_step hstep (canEnd_member p _)

theorem canEnd_referenceName (p : Progress) (heritage : OpenHeritage)
    (qualifier : Option (QualifiedName × Leaf [.dot])) :
    (p.goto (.referenceName heritage qualifier)).CanEnd := by
  obtain ⟨q, hstep⟩ : ∃ name, (p.goto (.referenceName heritage qualifier)).step
      (.sample .identifier) = .ok (p.goto (.referenceTail heritage name none)) := ⟨_, rfl⟩
  exact canEnd_of_step hstep (canEnd_referenceTail p _ _ _)

theorem canEnd_aliasHead (p : Progress) (start : AliasStart)
    (parameters : Option (Group .angle)) :
    (p.goto (.aliasHead start parameters)).CanEnd := by
  have hstep : (p.goto (.aliasHead start parameters)).step (.sample .equals) =
      .ok (p.goto (.type none (.alias start parameters (.sample .equals)))) := by
    cases parameters <;> rfl
  exact canEnd_of_step hstep (canEnd_typeRun p _ _)

/-- An import that lacks its items gets one, which its end follows. -/
theorem canEnd_importItems (p : Progress) (i : OpenImport) :
    (p.goto (.importItems i)).CanEnd := by
  obtain ⟨word, typeWord, clause⟩ := i
  have hend : ∀ clause, (p.goto (.importItems ⟨word, typeWord, some clause⟩)).CanEnd := by
    intro clause
    have hstep : (p.goto (.importItems ⟨word, typeWord, some clause⟩)).step (.sample .semicolon) =
        .ok (p.finishImport ⟨word, typeWord, some clause⟩ clause (some (.sample .semicolon))) := rfl
    exact canEnd_of_step hstep (canEnd_finish p _)
  cases clause with
  | some clause => exact hend clause
  | none =>
    let item := ImportItem.token ⟨.sample .identifier, by decide⟩
    have hstep : (p.goto (.importItems ⟨word, typeWord, none⟩)).step (.sample .identifier) =
        .ok (p.goto (.importItems ⟨word, typeWord, some (.item item)⟩)) := rfl
    exact canEnd_of_step hstep (hend _)

/-- Behind a group, what it is part of is closed. -/
theorem canEnd_closeGroup {b : Bracket} (use : GroupUse b) (p : Progress) (g : Group b) :
    (p.closeGroup g use).CanEnd := by
  induction use with
  | interfaceParameters start => exact canEnd_interfaceHead p start _
  | referenceArguments heritage name => exact canEnd_referenceTail p heritage name _
  | aliasParameters start => exact canEnd_aliasHead p start _
  | importItem h i => exact canEnd_importItems p _
  | typeItem h run use => exact canEnd_type use p _
  | method name mark object => exact canEnd_colon p _ object
  | call object => exact canEnd_colon p _ object
  | index object => exact canEnd_indexTail p g object
  | nested outer opening inside use ih =>
    let closing : Leaf [outer.closing] := .sample outer.closing
    exact canEnd_of_step (step_closing p outer opening _ use closing) (ih _)

theorem canEnd_group (p : Progress) (b : Bracket) (opening : Leaf [b.opening])
    (inside : Balanced) (use : GroupUse b) :
    (p.goto (.group b opening inside use)).CanEnd :=
  canEnd_of_step (step_closing p b opening inside use (.sample b.closing))
    (canEnd_closeGroup use p _)

/-! ## The openings of declarations -/

theorem canEnd_interfaceName (p : Progress) (lead : Option (Leaf [.exportWord]))
    (word : Leaf [.interfaceWord]) : (p.goto (.interfaceName lead word)).CanEnd :=
  canEnd_of_step (step_expected (p.goto (.interfaceName lead word)) .identifier
    (fun name => .interfaceHead ⟨lead, word, name⟩ none) (.sample .identifier))
    (canEnd_interfaceHead p _ _)

theorem canEnd_exported (p : Progress) (word : Leaf [.exportWord]) :
    (p.goto (.exported word)).CanEnd := by
  have hstep : (p.goto (.exported word)).step (.sample .interfaceWord) =
      .ok (p.goto (.interfaceName (some word) (.sample .interfaceWord))) := rfl
  exact canEnd_of_step hstep (canEnd_interfaceName p _ _)

theorem canEnd_aliasName (p : Progress) (lead : Option (Leaf [.exportWord]))
    (word : Leaf [.typeWord]) : (p.goto (.aliasName lead word)).CanEnd :=
  canEnd_of_step (step_expected (p.goto (.aliasName lead word)) .identifier
    (fun name => .aliasHead ⟨lead, word, name⟩ none) (.sample .identifier))
    (canEnd_aliasHead p _ _)

/-- A module that is opened is one more that is to be closed. -/
theorem canEnd_moduleBrace (p : Progress) (declareWord : Leaf [.declareWord])
    (word : Leaf [.moduleWord]) (name : Leaf [.string, .identifier]) :
    (p.goto (.moduleBrace declareWord word name)).CanEnd := by
  have hstep : (p.goto (.moduleBrace declareWord word name)).step (.sample .leftBrace) =
      .ok (between (⟨p.done, declareWord, word, name, .sample .leftBrace⟩ :: p.enclosing) .empty) :=
    rfl
  exact canEnd_of_step hstep (canEnd_between _ _)

theorem canEnd_moduleName (p : Progress) (declareWord : Leaf [.declareWord])
    (word : Leaf [.moduleWord]) : (p.goto (.moduleName declareWord word)).CanEnd := by
  have hstep : (p.goto (.moduleName declareWord word)).step (.sample .identifier) =
      .ok (p.goto (.moduleBrace declareWord word ⟨.sample .identifier, by decide⟩)) := rfl
  exact canEnd_of_step hstep (canEnd_moduleBrace p _ _ _)

theorem canEnd_moduleWord (p : Progress) (declareWord : Leaf [.declareWord]) :
    (p.goto (.moduleWord declareWord)).CanEnd :=
  canEnd_of_step (step_expected (p.goto (.moduleWord declareWord)) .moduleWord
    (fun word => .moduleName declareWord word) (.sample .moduleWord)) (canEnd_moduleName p _ _)

/-- Without the word `type` an import starts with its items. -/
theorem canEnd_importHead (p : Progress) (word : Leaf [.importWord]) :
    (p.goto (.importHead word)).CanEnd := by
  let item := ImportItem.token ⟨.sample .identifier, by decide⟩
  have hstep : (p.goto (.importHead word)).step (.sample .identifier) =
      .ok (p.goto (.importItems ⟨word, none, some (.item item)⟩)) := rfl
  exact canEnd_of_step hstep (canEnd_importItems p _)

/-! ## Every position -/

/-- A file can end behind whatever has been read, but for the name of a member that is no literal.
-/
theorem canEnd (p : Progress) (hname : ∀ name object, p.position = .memberName name object →
    checkName name.token = .ok ()) : p.CanEnd := by
  obtain ⟨enclosing, done, position⟩ := p
  let p := between enclosing done
  change (p.goto position).CanEnd
  cases position with
  | statement => exact canEnd_between enclosing done
  | exported word => exact canEnd_exported p word
  | interfaceName lead word => exact canEnd_interfaceName p lead word
  | interfaceHead start parameters => exact canEnd_interfaceHead p start parameters
  | referenceName heritage qualifier => exact canEnd_referenceName p heritage qualifier
  | referenceTail heritage name arguments => exact canEnd_referenceTail p heritage name arguments
  | aliasName lead word => exact canEnd_aliasName p lead word
  | aliasHead start parameters => exact canEnd_aliasHead p start parameters
  | moduleWord declareWord => exact canEnd_moduleWord p declareWord
  | moduleName declareWord word => exact canEnd_moduleName p declareWord word
  | moduleBrace declareWord word name => exact canEnd_moduleBrace p declareWord word name
  | importHead word => exact canEnd_importHead p word
  | importItems i => exact canEnd_importItems p i
  | member object => exact canEnd_member p object
  | memberName name object => exact canEnd_memberName p name object (hname name object rfl)
  | memberMark name mark object => exact canEnd_memberMark p name mark object
  | indexTail key object => exact canEnd_indexTail p key object
  | colon head object => exact canEnd_colon p head object
  | type run use => exact canEnd_typeRun p run use
  | group b opening inside use => exact canEnd_group p b opening inside use

/-- Whatever has been read begins a file. A name at the end, which the next step would check, is
that of an optional member, whose mark is read without a check. -/
theorem beginsFile_read (p : Progress) : BeginsFile p.read := by
  obtain ⟨enclosing, done, position⟩ := p
  cases position with
  | memberName name object =>
    let p := between enclosing done
    change BeginsFile (p.goto (.memberName name object)).read
    apply (canEnd_memberMark p name (.sample .question) object).beginsFile.mono
    simp [Position.yield]
  | _ => exact (canEnd _ (by simp)).beginsFile

end Progress

end SchemaTypings.Declaration
