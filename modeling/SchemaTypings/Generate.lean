import SchemaTypings.Model.Patch
import SchemaTypings.Model.Types
import SchemaTypings.Unit

/-!
# Generating a declaration file

Every model contributes its lean declarations and then its document declarations. `generateTypes`
writes them with placeholders for the types of functions and virtuals, and `generate` puts the known
types in.
-/

namespace SchemaTypings

open Declaration

/-- Why no declaration file can be generated. -/
inductive GenerateError
  | schema (e : SchemaError)
  | parse (e : ParseError)
  deriving DecidableEq, Repr

/-- How a declaration file is generated. -/
structure GenerateOptions where
  /-- Whether all declarations go into an augmentation of the module. -/
  isAugmented : Bool
  /-- Further import lines. -/
  imports : List String
  deriving DecidableEq, Repr, Inhabited

/-- The text that declares the lean shape of a model. -/
def leanDeclaration (isAugmented : Bool) (model : String) (s : Schema) :
    Except SchemaError String :=
  s.declare
    { shape := .lean, model, addModel := true, isAugmented
      header :=
        Docs.lean model none ++ "\n" ++ exportLead isAugmented ++ "interface " ++ model ++ " \x7b\n"
      footer := "\x7d" }

/-- The text that declares the document of a model. -/
def documentDeclaration (isAugmented : Bool) (model : String) (s : Schema) :
    Except SchemaError String :=
  s.declare
    { shape := .document, model, addModel := true, isAugmented
      header :=
        Docs.document model ++ "\n" ++ exportLead isAugmented ++ "interface " ++ model ++
          "Document extends mongoose.Document<" ++ s.idType ++ ">, " ++ model ++ "Methods \x7b\n"
      footer := "\x7d" }

/-- The unit with the declarations of a model written to it. -/
def SourceUnit.writeModel (scope : Scope) (isAugmented isFirst : Bool) (u : SourceUnit)
    (model : String) (s : Schema) : Except SchemaError SourceUnit := do
  let u := if isFirst then u else u.writeBreak scope 1
  let u := (u.write scope (← leanDeclaration isAugmented model s)).writeBreak scope 1
  return u.write scope (← documentDeclaration isAugmented model s)

/-- The unit with the declarations of some models written to it. -/
def SourceUnit.writeModels (scope : Scope) (isAugmented : Bool) :
    (isFirst : Bool) → SourceUnit → List (String × Schema) → Except SchemaError SourceUnit
  | _, u, [] => .ok u
  | isFirst, u, (model, s) :: rest => do
    writeModels scope isAugmented false (← u.writeModel scope isAugmented isFirst model s) rest

/-- The text of the declaration file of some models, without known types. -/
def declarationText (schemas : List (String × Schema)) (o : GenerateOptions) :
    Except SchemaError String := do
  let u := ((SourceUnit.empty Docs.header).addImport Docs.mongooseImport).addImports o.imports
  if o.isAugmented then
    let u := (u.write .top Docs.augmentationHeader).writeBreak .top 1
    let u ← u.writeModels Scope.top.indented true true schemas
    return (u.write (Scope.top.turnTo .epilogue) Docs.augmentationFooter).render
  else
    return (← u.writeModels .top false true schemas).render

/-- The declaration file of some models, without known types. -/
def generateTypes (schemas : List (String × Schema)) (o : GenerateOptions) :
    Except GenerateError SourceFile := do
  let text ← (declarationText schemas o).mapError .schema
  (SourceFile.ofText text).mapError .parse

/-- The declaration file of some models; `isPatched` asks for the known types. -/
def generate (schemas : List (String × Schema)) (o : GenerateOptions) (isPatched : Bool) :
    Except GenerateError SourceFile := do
  let file ← generateTypes schemas o
  if isPatched then
    match patch file (knownTypes schemas) schemas o.isAugmented with
    | (file, none) => return file
    | (_, some e) => throw (.schema e)
  else return file

end SchemaTypings
