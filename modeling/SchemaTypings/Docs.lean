import SchemaTypings.Text.Case

/-!
# Doc comments

The fixed texts of a declaration file: its header, and the comment in front of each declaration.
-/

namespace SchemaTypings.Docs

/-- The comments that open a declaration file. -/
def header : String :=
  "/* tslint:disable */\n/* eslint-disable */\n\n" ++
  "// ######################################## THIS FILE WAS GENERATED BY MONGOTS " ++
  "######################################## //\n\n" ++
  "// NOTE: ANY CHANGES MADE WILL BE OVERWRITTEN ON SUBSEQUENT EXECUTIONS OF MONGOTS."

/-- The import that every declaration file needs. -/
def mongooseImport : String := "import mongoose from \"mongoose\";"

/-- The line that opens an augmentation of the module. -/
def augmentationHeader : String := "declare module \"mongoose\" \x7b"

/-- The line that closes an augmentation of the module. -/
def augmentationFooter : String := "\x7d"

/-- A comment of these lines. -/
def comment (lines : List String) : String :=
  "/**\n" ++ String.join (lines.map fun line =>
    (if line.isEmpty then " *" else " * " ++ line) ++ "\n") ++ " */"

/-- The comment on the alias of a model's plain data. -/
def object (model : String) : String :=
  let value := Text.toLower model
  comment
    ["Lean version of " ++ model ++ "Document (type alias of `" ++ model ++ "`)",
      "",
      "Use this type alias to avoid conflicts with model names:",
      "```",
      "import \x7b " ++ model ++ " \x7d from \"../models\"",
      "import \x7b " ++ model ++ "Object \x7d from \"../interfaces/mongoose.gen.ts\"",
      "",
      "const " ++ value ++ "Object: " ++ model ++ "Object = " ++ value ++ ".toObject();",
      "```"]

/-- The comment on a collection of functions. -/
def collection (title model member type : String) : String :=
  comment
    ["Mongoose " ++ title ++ " types",
      "",
      "Use type assertion to ensure " ++ model ++ " " ++ member ++ " type safety:",
      "```",
      model ++ "Schema." ++ member ++ " = <" ++ model ++ type ++ ">\x7b ... \x7d;",
      "```"]

/-- The comment on the query helpers of a model. -/
def query (model : String) : String := collection "Query" model "query" "Queries"

/-- The comment on the methods of a model. -/
def method (model : String) : String := collection "Method" model "methods" "Methods"

/-- The comment on the statics of a model. -/
def static (model : String) : String := collection "Static" model "statics" "Statics"

/-- The line that constructs a model. -/
def modelConstruction (model : String) : String :=
  "const " ++ model ++ " = mongoose.model<" ++ model ++ "Document, " ++ model ++ "Model>(\"" ++
    model ++ "\", " ++ model ++ "Schema);"

/-- The comment on the type of a model's constructor argument. -/
def constructor (title model : String) : String :=
  comment
    ["Mongoose " ++ title ++ " type",
      "",
      "Pass this type to the Mongoose Model constructor:",
      "```",
      modelConstruction model,
      "```"]

/-- The comment on the type of a model. -/
def model (name : String) : String := constructor "Model" name

/-- The comment on a document interface. -/
def document (model : String) : String := constructor "Document" model

/-- The comment on the type of a model's schema. -/
def schema (model : String) : String :=
  comment
    ["Mongoose Schema type",
      "",
      "Assign this type to new " ++ model ++ " schema instances:",
      "```",
      "const " ++ model ++ "Schema: " ++ model ++ "Schema = new mongoose.Schema(\x7b ... \x7d)",
      "```"]

/-- The comment on a lean interface. That of a sub-document names the sub-document in `full`; that
of the model itself hints at the alias. -/
def lean (model : String) (full : Option String) : String :=
  let value := Text.toLower model
  let given := full.filter (!·.isEmpty)
  let hint :=
    if given.isNone || given == some model then
      " To avoid conflicts with model names, use the type alias `" ++ model ++ "Object`."
    else ""
  comment
    ["Lean version of " ++ given.getD model ++ "Document",
      "",
      "This has all Mongoose getters & functions removed. This type will be returned from `" ++
        model ++ "Document.toObject()`." ++ hint,
      "```",
      "const " ++ value ++ "Object = " ++ value ++ ".toObject();",
      "```"]

/-- The comment on the document interface of the elements of a sub-document array. -/
def subDocument (model path : String) : String :=
  comment
    ["Mongoose Embedded Document type",
      "",
      "Type of `" ++ model ++ "Document[\"" ++ path ++ "\"]` element."]

end SchemaTypings.Docs
