import SchemaTypings.Value.Display

/-!
# Terminal types

The TypeScript type of a field specification whose type is a native tag. Some tags read differently
in the two shapes of a model: plain data, and the live document.
-/

namespace SchemaTypings

/-- The two shapes in which a schema is declared. -/
inductive Shape
  /-- Plain data. -/
  | lean
  /-- The live document. -/
  | document
  deriving DecidableEq, Repr, Inhabited

/-- What the type of a field specification is. -/
inductive BaseType
  /-- The field has no place in the declarations. -/
  | omitted
  /-- A nested object. -/
  | nested
  | named (text : String)
  deriving DecidableEq, Repr, Inhabited

/-- The type of an object identifier. -/
def objectIdType : String := "mongoose.Types.ObjectId"

/-- The enumerated values of a field specification: a list, or a list among the entries of a
dictionary. -/
def enumValues (spec : Fields) : List String :=
  let given :=
    match spec.lookup "enum" with
    | some (.dict fields) => fields.lookup "values"
    | other => other
  match given with
  | some (.list items) | some (.tuple items) => items.map Value.display
  | _ => []

/-- The union of enumerated values, each in double quotes. -/
def enumType (values : List String) : String :=
  "\"" ++ "\" | \"".intercalate values ++ "\""

/-- The type of a tag; `key` is the name of the field. Version counters are left out. -/
def tagType (shape : Shape) (key : String) (spec : Fields) : Tag → BaseType
  | .string =>
    match enumValues spec with
    | [] => .named "string"
    | values => .named (enumType values)
  | .number => if key = "__v" then .omitted else .named "number"
  | .boolean => .named "boolean"
  | .date => .named "Date"
  | .buffer => .named "Buffer"
  | .decimal128 => .named (if shape = .document then "mongoose.Types.Decimal128" else "number")
  | .objectId => .named objectIdType
  | .mixed => .named "any"
  | .map => .named (if shape = .document then "mongoose.Types.Map<any>" else "Map<string, any>")

/-- The type of a field specification; without a tag it is a nested object. -/
def baseType (shape : Shape) (key : String) (spec : Fields) : BaseType :=
  match spec.lookup "type" with
  | some (.tag t) => tagType shape key spec t
  | _ => .nested

/-- The type of the identifier of a schema's documents. -/
def Schema.idType (s : Schema) : String :=
  let spec :=
    match s.tree.lookup "_id" with
    | some (.tag t) => [("type", .tag t)]
    | some (.dict fields) => fields
    | _ => []
  match baseType .document "_id" spec with
  | .named type => type
  | _ => objectIdType

end SchemaTypings
