import SchemaTypings.Generate
import SchemaTypings.Proofs.Shapes.Declarations
import SchemaTypings.Proofs.Writing.Rendering
import SchemaTypings.Proofs.Writing.Sections

/-!
# The declarations of a file

A declaration file is a header, an import and the declarations of the models, two chunks a model: its
lean declarations and its document declarations. `Item` is one of these declarations, as it is
written and as it is read, `itemChunks` are those of some models, and `fileText` is the text that they
make; `declarationText_eq` says that it is the text of the file. Further import lines stand behind the
first one (`declarationText_eq_imports`).
-/

namespace SchemaTypings

open Declaration

/-! ## Texts of declarations -/

/-- The text of an interface. -/
def interfaceText (shape : Shape) (name heritage : String) (members : List Member) : String :=
  "interface " ++ name ++ heritage ++ " \x7b\n" ++ renderMembers shape 0 members ++ "\x7d"

/-- The text of the alias of a collection of functions. -/
def collectionText (model suffix : String) (names : List String) (role : Role) : String :=
  "type " ++ model ++ suffix ++ " = \x7b\n" ++ functionLines names model role "  " ++ "\x7d"

/-- What the placeholders of functions say. -/
def placeholderOutlines (names : List String) (role : Role) (model : String) :
    List PropertyOutline :=
  (declaredNames names).map fun name =>
    ⟨keyName name, false, boundSignature defaultSignature role model⟩

/-- The text of the interface that gives queries the helpers of a model. -/
def helpersText (model : String) : String :=
  "interface Query<ResultType, DocType extends Document> extends " ++ model ++ "Queries \x7b\x7d"

/-- A declaration of a file. -/
inductive Item
  /-- A declaration with the comment in front of it, and what it says when it is exported or not. -/
  | declared (docs name text : String) (out : Bool → Outline)
  /-- The interface that gives queries the helpers of a model. -/
  | helpers (model : String)

namespace Item

/-- An interface. -/
def interface (shape : Shape) (i : Interface) : Item :=
  .declared i.docs i.name (interfaceText shape i.name i.heritage i.members) fun isExported =>
    .interface i.name isExported (i.members.map (·.outline shape 0))

/-- The alias of a collection of functions. -/
def collection (docs model suffix : String) (names : List String) (role : Role) : Item :=
  .declared docs (model ++ suffix) (collectionText model suffix names role) fun isExported =>
    .alias (model ++ suffix) isExported (some (placeholderOutlines names role model))

/-- The alias of the plain data of a model. -/
def object (model : String) : Item :=
  .declared (Docs.object model) (model ++ "Object") ("type " ++ model ++ "Object = " ++ model)
    fun isExported => .alias (model ++ "Object") isExported none

/-- The interface of a model's constructor. -/
def model (model : String) : Item :=
  .declared (Docs.model model) (model ++ "Model")
    ("interface " ++ model ++ "Model extends mongoose.Model<" ++ model ++ "Document>, " ++ model ++
      "Statics \x7b\x7d")
    fun isExported => .interface (model ++ "Model") isExported []

/-- The alias of a model's schema. -/
def schema (model : String) : Item :=
  .declared (Docs.schema model) (model ++ "Schema")
    ("type " ++ model ++ "Schema = mongoose.Schema<" ++ model ++ "Document, " ++ model ++ "Model>")
    fun isExported => .alias (model ++ "Schema") isExported none

/-- The text of the declaration itself. -/
def text : Item → String
  | .declared _ _ text _ => text
  | .helpers model => helpersText model

/-- The declaration as it stands in a file. -/
def render (isAugmented : Bool) : Item → String
  | .declared docs _ text _ => docs ++ "\n" ++ exportLead isAugmented ++ text
  | .helpers model =>
    if isAugmented then helpersText model
    else Docs.augmentationHeader ++ helpersText model ++ Docs.augmentationFooter

/-- What the declaration says in a file. -/
def outlines (isAugmented : Bool) : Item → List Outline
  | .declared _ _ _ out => [out (!isAugmented)]
  | .helpers _ =>
    if isAugmented then [.interface "Query" false []]
    else [.module "mongoose" [.interface "Query" false []]]

end Item

/-! ## Chunks -/

/-- The interface of a schema's plain data. -/
def Schema.leanInterface (s : Schema) (model : String) (included : Bool) : Interface :=
  ⟨Docs.lean model none, model, "", Member.ofFields ⟨.lean, included⟩ (s.boundTree model)⟩

/-- The interface of a schema's documents. -/
def Schema.documentInterface (s : Schema) (model : String) (included : Bool) : Interface :=
  ⟨Docs.document model, model ++ "Document",
    " extends mongoose.Document<" ++ s.idType ++ ">, " ++ model ++ "Methods",
    Member.ofFields ⟨.document, included⟩ (s.boundTree model)⟩

/-- The aliases of a model, its model interface and its query helpers. -/
def Schema.modelItems (s : Schema) (model : String) : List Item :=
  let names := fun role => Entries.keys (s.functions role)
  .object model ::
    ((if s.query.isEmpty then []
      else [.collection (Docs.query model) model "Queries" (names .query) .query, .helpers model]) ++
    [.collection (Docs.method model) model "Methods" (names .methods) .methods,
      .collection (Docs.static model) model "Statics" (names .statics) .statics,
      .model model, .schema model])

/-- The declarations of a model's plain data, with what is hoisted out of its schema in front. -/
def Schema.leanItems (s : Schema) (model : String) (hoisted : List Hoisted) (included : Bool) :
    List Item :=
  hoisted.map (fun h => .interface .lean (h.interface .lean)) ++ s.modelItems model ++
    [.interface .lean (s.leanInterface model included)]

/-- The declarations of a model's documents. -/
def Schema.documentItems (s : Schema) (model : String) (hoisted : List Hoisted)
    (included : Bool) : List Item :=
  hoisted.map (fun h => .interface .document (h.interface .document)) ++
    [.interface .document (s.documentInterface model included)]

/-- The declarations of some models, in two chunks each. -/
def itemChunks : List (String × Schema) → Except SchemaError (List (List Item))
  | [] => .ok []
  | (model, s) :: rest => do
    let included ← includesVirtuals s.options
    let hoisted ← s.hoisted model
    let others ← itemChunks rest
    return s.leanItems model hoisted included :: s.documentItems model hoisted included :: others

/-- The texts that declare some models, two texts a model. -/
def modelTexts (isAugmented : Bool) : List (String × Schema) → Except SchemaError (List String)
  | [] => .ok []
  | (model, s) :: rest => do
    let lean ← leanDeclaration isAugmented model s
    let document ← documentDeclaration isAugmented model s
    let others ← modelTexts isAugmented rest
    return lean :: document :: others

/-- Texts with an empty line in front of each. -/
def spaced (texts : List String) : String :=
  String.join (texts.map ("\n\n" ++ ·))

/-- Declarations with an empty line between them. -/
def chunkText (isAugmented : Bool) (items : List Item) : String :=
  "\n\n".intercalate (items.map (·.render isAugmented))

/-- The parts of a file in an augmentation of the module. -/
def augmentation (texts : List String) : List String :=
  Docs.augmentationHeader :: texts ++ [Docs.augmentationFooter]

/-- The import lines of a file: its own one and those that are asked for, each once. -/
def importLines (imports : List String) : List String :=
  (Docs.mongooseImport :: imports).eraseDups

/-- The text of a file with these parts behind its header and its import lines. -/
def textOfImports (imports parts : List String) : String :=
  Docs.header ++ spaced ("\n".intercalate (importLines imports) :: parts) ++ "\n"

/-- The text of a file with these parts behind its header and its import. -/
def textOfParts (parts : List String) : String :=
  Docs.header ++ spaced (Docs.mongooseImport :: parts) ++ "\n"

/-- The text of a file with these declarations. -/
def fileText (isAugmented : Bool) (chunks : List (List Item)) : String :=
  let texts := chunks.map (chunkText isAugmented)
  textOfParts (if isAugmented then augmentation (texts.map (Text.indent "  ")) else texts)

/-! ## The text of a file -/

theorem spaced_nil : spaced [] = "" :=
  rfl

theorem spaced_cons (text : String) (texts : List String) :
    spaced (text :: texts) = "\n\n" ++ text ++ spaced texts :=
  String.join_cons

theorem spaced_append (texts more : List String) :
    spaced (texts ++ more) = spaced texts ++ spaced more := by
  rw [spaced, List.map_append, String.join_append]
  rfl

/-- Between texts there is an empty line in front of each but the first. -/
theorem intercalate_cons (first : String) (texts : List String) :
    "\n\n".intercalate (first :: texts) = first ++ spaced texts :=
  Text.intercalate_eq_join "\n\n" first texts

/-- The last declaration of a chunk ends without an empty line. -/
theorem chunkText_concat (isAugmented : Bool) (items : List Item) (last : Item) :
    chunkText isAugmented (items ++ [last]) =
      String.join (items.map fun i => i.render isAugmented ++ "\n\n") ++ last.render isAugmented := by
  unfold chunkText
  induction items with
  | nil => simp
  | cons i items ih =>
    obtain ⟨next, rest, hrest⟩ := List.exists_cons_of_ne_nil
      (show items ++ [last] ≠ [] by simp)
    rw [List.cons_append, List.map_cons, List.map_cons, String.join_cons, String.append_assoc, ← ih,
      hrest, List.map_cons, String.intercalate_cons_cons, String.append_assoc]

theorem Interface.render_eq (shape : Shape) (isAugmented : Bool) (i : Interface) :
    i.render shape (exportLead isAugmented) =
      (Item.interface shape i).render isAugmented ++ "\n\n" := by
  simp [Interface.render, Item.interface, Item.render, interfaceText, String.append_assoc]

theorem collectionAlias_eq (docs model suffix : String) (isAugmented : Bool) (names : List String)
    (role : Role) :
    collectionAlias docs (exportLead isAugmented) model suffix names role =
      (Item.collection docs model suffix names role).render isAugmented ++ "\n\n" := by
  simp [collectionAlias, Item.collection, Item.render, collectionText, String.append_assoc]

theorem queryAugmentation_eq (isAugmented : Bool) (model : String) :
    queryAugmentation isAugmented model = (Item.helpers model).render isAugmented ++ "\n\n" := by
  cases isAugmented <;> rfl

theorem Schema.modelTypes_eq (s : Schema) (isAugmented : Bool) (model : String) :
    s.modelTypes isAugmented model =
      String.join ((s.modelItems model).map fun i => i.render isAugmented ++ "\n\n") := by
  unfold Schema.modelTypes Schema.modelItems
  simp only [collectionAlias_eq, queryAugmentation_eq, Item.object, Item.model, Item.schema,
    Item.render]
  split <;> simp [String.append_assoc]

/-- The lean declarations of a model are a chunk. -/
theorem leanDeclaration_eq (isAugmented : Bool) {model : String} (hmodel : model ≠ "") (s : Schema) :
    leanDeclaration isAugmented model s =
      (includesVirtuals s.options).bind fun included =>
        (s.hoisted model).map fun hoisted =>
          chunkText isAugmented (s.leanItems model hoisted included) := by
  unfold leanDeclaration
  rw [Schema.declare_eq]
  refine congrArg _ (funext fun included => congrArg (Except.map · _) (funext fun hoisted => ?_))
  rw [Schema.leanItems, chunkText_concat]
  simp [Schema.declarationOf, hmodel, Interface.render_eq, Schema.modelTypes_eq, Schema.leanInterface,
    Item.interface, Item.render, interfaceText, String.append_assoc, Function.comp_def]

/-- The document declarations of a model are a chunk. -/
theorem documentDeclaration_eq (isAugmented : Bool) (model : String) (s : Schema) :
    documentDeclaration isAugmented model s =
      (includesVirtuals s.options).bind fun included =>
        (s.hoisted model).map fun hoisted =>
          chunkText isAugmented (s.documentItems model hoisted included) := by
  unfold documentDeclaration
  rw [Schema.declare_eq]
  refine congrArg _ (funext fun included => congrArg (Except.map · _) (funext fun hoisted => ?_))
  rw [Schema.documentItems, chunkText_concat]
  simp [Schema.declarationOf, Interface.render_eq, Schema.documentInterface, Item.interface,
    Item.render, interfaceText, ← String.toList_inj, Function.comp_def]

/-- Chunks with a break in front of each. -/
def broken (texts : List String) : List String :=
  texts.flatMap fun text => ["", text]

/-- Breaks become empty lines. -/
theorem intercalate_broken (first : String) (texts : List String) :
    "\n".intercalate (first :: broken texts) = first ++ spaced texts := by
  induction texts generalizing first with
  | nil => simp [broken, spaced]
  | cons text texts ih =>
    have hbroken : broken (text :: texts) = "" :: text :: broken texts := rfl
    rw [hbroken, String.intercalate_cons_cons, String.intercalate_cons_cons, ih, spaced_cons]
    simp [← String.toList_inj]

/-- Models are written to the main section, with a break in front of each text but the first of
all. -/
theorem SourceUnit.writeModels_eq (level : Nat) (isAugmented : Bool)
    (schemas : List (String × Schema)) (isFirst : Bool) (u : SourceUnit) :
    u.writeModels ⟨.main, level⟩ isAugmented isFirst schemas =
      (modelTexts isAugmented schemas).map fun texts =>
        let texts := texts.map (Text.indent (String.ofList (List.replicate (2 * level) ' ')))
        { u with main := u.main ++ if isFirst then (broken texts).tail else broken texts } := by
  induction schemas generalizing isFirst u with
  | nil => cases isFirst <;> simp [writeModels, modelTexts, Except.map, broken]
  | cons entry rest ih =>
    obtain ⟨model, s⟩ := entry
    rw [writeModels, writeModel, modelTexts]
    simp only [ih]
    cases leanDeclaration isAugmented model s with
    | error e => rfl
    | ok lean =>
      cases documentDeclaration isAugmented model s with
      | error e => rfl
      | ok document =>
        cases modelTexts isAugmented rest with
        | error e => rfl
        | ok others =>
          cases isFirst <;>
            simp [bind, Except.bind, Except.map, pure, Except.pure, broken, write, writeBreak, append]

/-- The texts of models are those of the first and those of the others. -/
theorem modelTexts_cons_eq_ok_iff {isAugmented : Bool} {entry : String × Schema}
    {rest : List (String × Schema)} {texts : List String} :
    modelTexts isAugmented (entry :: rest) = .ok texts ↔
      ∃ lean document others, leanDeclaration isAugmented entry.1 entry.2 = .ok lean ∧
        documentDeclaration isAugmented entry.1 entry.2 = .ok document ∧
        modelTexts isAugmented rest = .ok others ∧ lean :: document :: others = texts := by
  simp only [modelTexts, exceptBind_ok, pure, Except.pure, Except.ok.injEq, exists_and_left]

/-- The declarations of models are those of the first and those of the others. -/
theorem itemChunks_cons_eq_ok_iff {entry : String × Schema} {rest : List (String × Schema)}
    {chunks : List (List Item)} :
    itemChunks (entry :: rest) = .ok chunks ↔
      ∃ included hoisted others, includesVirtuals entry.2.options = .ok included ∧
        entry.2.hoisted entry.1 = .ok hoisted ∧ itemChunks rest = .ok others ∧
        entry.2.leanItems entry.1 hoisted included ::
          entry.2.documentItems entry.1 hoisted included :: others = chunks := by
  simp only [itemChunks, exceptBind_ok, pure, Except.pure, Except.ok.injEq, exists_and_left]

/-- One model at least has a text. -/
theorem exists_cons_of_modelTexts {isAugmented : Bool} {schemas : List (String × Schema)}
    (hne : schemas ≠ []) {texts : List String} (h : modelTexts isAugmented schemas = .ok texts) :
    ∃ first rest, texts = first :: rest := by
  obtain ⟨entry, others, rfl⟩ := List.exists_cons_of_ne_nil hne
  obtain ⟨lean, document, texts, -, -, -, rfl⟩ := modelTexts_cons_eq_ok_iff.mp h
  exact ⟨lean, document :: texts, rfl⟩

/-- Indenting by nothing changes nothing. -/
theorem Text.indent_nothing : Text.indent "" = id :=
  funext fun text => by simp [Text.indent, Text.indentChars_nil]

/-- A file begins as a unit with its header and its import. -/
theorem unit_eq : ((SourceUnit.empty Docs.header).addImport Docs.mongooseImport).addImports [] =
    ⟨Docs.header, [Docs.mongooseImport], [], []⟩ :=
  rfl

theorem mongooseImport_ne_empty : Docs.mongooseImport ≠ "" := by
  decide

/-- Without models a file has no parts but the lines around an augmentation. -/
theorem declarationText_nil (isAugmented : Bool) :
    declarationText [] ⟨isAugmented, []⟩ = .ok (textOfParts (if isAugmented then
      [Docs.augmentationHeader ++ "\n\n\n" ++ Docs.augmentationFooter] else [])) := by
  have hbreaks : "\n" ++ "\n\n" = "\n\n\n" := by decide
  unfold declarationText
  rw [unit_eq]
  cases isAugmented
  · simp [SourceUnit.writeModels, bind, Except.bind, pure, Except.pure, SourceUnit.render,
      SourceUnit.hasContent, SourceUnit.chunks, mongooseImport_ne_empty, textOfParts, spaced_cons,
      spaced_nil, String.append_assoc]
  · simp [Scope.top, Scope.turnTo, SourceUnit.writeModels, bind, Except.bind, pure, Except.pure,
      Text.indent_nothing, SourceUnit.write, SourceUnit.writeBreak, SourceUnit.append,
      SourceUnit.render, SourceUnit.hasContent, SourceUnit.chunks, mongooseImport_ne_empty,
      textOfParts, spaced_cons, spaced_nil, ← hbreaks, String.append_assoc]

/-- A file begins as a unit with its header and its import lines. -/
theorem unit_eq_imports (imports : List String) :
    ((SourceUnit.empty Docs.header).addImport Docs.mongooseImport).addImports imports =
      ⟨Docs.header, importLines imports, [], []⟩ := by
  have hown : ((SourceUnit.empty Docs.header).addImport Docs.mongooseImport).imports =
      [Docs.mongooseImport].eraseDups := rfl
  rw [SourceUnit.addImports_eq, SourceUnit.imports_addImports _ hown]
  rfl

theorem textOfImports_nil (parts : List String) : textOfImports [] parts = textOfParts parts :=
  rfl

theorem intercalate_importLines_ne_empty (imports : List String) :
    "\n".intercalate (importLines imports) ≠ "" := by
  intro h
  rw [importLines, List.eraseDups_cons] at h
  cases hmore : (imports.filter fun line => !line == Docs.mongooseImport).eraseDups with
  | nil =>
    rw [hmore] at h
    exact mongooseImport_ne_empty (by simpa using h)
  | cons line more =>
    rw [hmore, String.intercalate_cons_cons] at h
    exact mongooseImport_ne_empty (by simp_all)

/-- The text of a file is made of its import lines and the texts of its models. -/
theorem declarationText_eq_imports (isAugmented : Bool) {schemas : List (String × Schema)}
    (hne : schemas ≠ []) (imports : List String) :
    declarationText schemas ⟨isAugmented, imports⟩ =
      (modelTexts isAugmented schemas).map fun texts => textOfImports imports
        (if isAugmented then augmentation (texts.map (Text.indent "  ")) else texts) := by
  have hlines := intercalate_importLines_ne_empty imports
  unfold declarationText
  rw [unit_eq_imports]
  cases htexts : modelTexts isAugmented schemas with
  | error e =>
    cases isAugmented <;>
      simp [Scope.top, Scope.indented, SourceUnit.writeModels_eq, htexts, bind, Except.bind,
        Except.map]
  | ok texts =>
    obtain ⟨first, rest, rfl⟩ := exists_cons_of_modelTexts hne htexts
    have htail : ∀ (text : String) texts, (broken (text :: texts)).tail = text :: broken texts :=
      fun _ _ => rfl
    have hmain : ∀ (text : String) texts, "\n".intercalate
        (Docs.augmentationHeader :: "" :: text :: broken texts) =
          Docs.augmentationHeader ++ spaced (text :: texts) :=
      fun text texts => intercalate_broken _ (text :: texts)
    cases isAugmented
    · simp [Scope.top, SourceUnit.writeModels_eq, htexts, bind, Except.bind, Except.map, pure,
        Except.pure, Text.indent_nothing, SourceUnit.render, SourceUnit.hasContent, SourceUnit.chunks,
        htail, intercalate_broken, hlines, textOfImports, spaced_cons, String.append_assoc]
    · simp [Scope.top, Scope.indented, Scope.turnTo, SourceUnit.writeModels_eq, htexts, bind,
        Except.bind, Except.map, pure, Except.pure, Text.indent_nothing, SourceUnit.write,
        SourceUnit.writeBreak, SourceUnit.append, SourceUnit.render, SourceUnit.hasContent,
        SourceUnit.chunks, htail, hmain, hlines, textOfImports, augmentation, spaced_cons,
        spaced_nil, spaced_append, String.append_assoc]

/-- The text of a file is made of the texts of its models. -/
theorem declarationText_eq_parts (isAugmented : Bool) {schemas : List (String × Schema)}
    (hne : schemas ≠ []) :
    declarationText schemas ⟨isAugmented, []⟩ =
      (modelTexts isAugmented schemas).map fun texts =>
        textOfParts (if isAugmented then augmentation (texts.map (Text.indent "  ")) else texts) :=
  declarationText_eq_imports isAugmented hne []

/-- The texts of models with names are those of their declarations. -/
theorem modelTexts_eq (isAugmented : Bool) {schemas : List (String × Schema)}
    (hnames : ∀ entry ∈ schemas, entry.1 ≠ "") :
    modelTexts isAugmented schemas =
      (itemChunks schemas).map (List.map (chunkText isAugmented)) := by
  induction schemas with
  | nil => rfl
  | cons entry rest ih =>
    obtain ⟨model, s⟩ := entry
    rw [modelTexts, itemChunks, leanDeclaration_eq _ (hnames _ (List.mem_cons_self ..)),
      documentDeclaration_eq, ih fun entry hentry => hnames entry (List.mem_cons_of_mem _ hentry)]
    cases includesVirtuals s.options with
    | error e => rfl
    | ok included =>
      cases s.hoisted model with
      | error e => rfl
      | ok hoisted => cases itemChunks rest <;> rfl

/-- The text of a file is made of the declarations of its models. -/
theorem declarationText_eq (isAugmented : Bool) {schemas : List (String × Schema)}
    (hne : schemas ≠ []) (hnames : ∀ entry ∈ schemas, entry.1 ≠ "") :
    declarationText schemas ⟨isAugmented, []⟩ = (itemChunks schemas).map (fileText isAugmented) := by
  rw [declarationText_eq_parts isAugmented hne, modelTexts_eq isAugmented hnames]
  cases itemChunks schemas <;> rfl

/-- The file that is generated is read from that text. -/
theorem generateTypes_eq (isAugmented : Bool) {schemas : List (String × Schema)}
    (hne : schemas ≠ []) (hnames : ∀ entry ∈ schemas, entry.1 ≠ "") :
    generateTypes schemas ⟨isAugmented, []⟩ =
      ((itemChunks schemas).mapError .schema).bind fun chunks =>
        (SourceFile.ofText (fileText isAugmented chunks)).mapError .parse := by
  unfold generateTypes
  rw [declarationText_eq isAugmented hne hnames]
  cases itemChunks schemas <;> rfl

end SchemaTypings
