import SchemaTypings.Interface
import SchemaTypings.Signature

/-!
# The declarations of a model

`Schema.declare` gives the text that declares a schema in one shape: the interfaces hoisted out of
it, the type aliases of the model, and the members between a header and a footer.
-/

namespace SchemaTypings

/-- The word in front of a declaration: none inside an augmentation. -/
def exportLead (isAugmented : Bool) : String :=
  if isAugmented then "" else "export "

/-- The alias of a collection of functions of a model, with the placeholder of each. -/
def collectionAlias (docs lead model suffix : String) (names : List String) (role : Role) :
    String :=
  docs ++ "\n" ++ lead ++ "type " ++ model ++ suffix ++ " = \x7b\n" ++
    functionLines names model role "  " ++ "\x7d\n\n"

/-- The declaration that gives queries the query helpers of a model, in the scope of mongoose. -/
def queryAugmentation (isAugmented : Bool) (model : String) : String :=
  let declaration :=
    "interface Query<ResultType, DocType extends Document> extends " ++ model ++ "Queries \x7b\x7d"
  (if isAugmented then declaration
    else "declare module \"mongoose\" \x7b" ++ declaration ++ "\x7d") ++ "\n\n"

/-- The type aliases of a model and its model interface. -/
def Schema.modelTypes (s : Schema) (isAugmented : Bool) (model : String) : String :=
  let lead := exportLead isAugmented
  let names := fun role => Entries.keys (s.functions role)
  Docs.object model ++ "\n" ++ lead ++ "type " ++ model ++ "Object = " ++ model ++ "\n\n" ++
  (if s.query.isEmpty then ""
    else
      collectionAlias (Docs.query model) lead model "Queries" (names .query) .query ++
        queryAugmentation isAugmented model) ++
  collectionAlias (Docs.method model) lead model "Methods" (names .methods) .methods ++
  collectionAlias (Docs.static model) lead model "Statics" (names .statics) .statics ++
  Docs.model model ++ "\n" ++ lead ++ "interface " ++ model ++ "Model extends mongoose.Model<" ++
    model ++ "Document>, " ++ model ++ "Statics \x7b\x7d\n\n" ++
  Docs.schema model ++ "\n" ++ lead ++ "type " ++ model ++ "Schema = mongoose.Schema<" ++ model ++
    "Document, " ++ model ++ "Model>\n\n"

/-- How a schema is declared. -/
structure DeclareOptions where
  shape : Shape
  /-- The name of the model; without one nothing is hoisted. -/
  model : String
  /-- Whether the type aliases of the model come along with the lean shape. -/
  addModel : Bool
  header : String
  footer : String
  isAugmented : Bool
  deriving Repr, Inhabited

/-- The text that declares a schema. -/
def Schema.declare (s : Schema) (o : DeclareOptions) : Except SchemaError String := do
  let outlook : Outlook := ⟨o.shape, ← includesVirtuals s.options⟩
  let hoisted ← hoist o.shape o.model s
  let lead := exportLead o.isAugmented
  let aliases :=
    if o.shape = .lean && !o.model.isEmpty && o.addModel then s.modelTypes o.isAugmented o.model
    else ""
  return String.join (hoisted.map (·.render o.shape lead)) ++ aliases ++ o.header ++
    renderMembers o.shape 0 (Member.ofFields outlook (s.boundTree o.model)) ++ o.footer

end SchemaTypings
