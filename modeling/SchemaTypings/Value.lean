import SchemaTypings.Entries
import SchemaTypings.Function
import SchemaTypings.Tag

/-!
# Values, schemas and virtuals

A schema definition is a value: nested fields, native tags and their spellings, lists, embedded
schemas, virtuals and options. A schema holds the normalized tree of its definition together with
the functions and virtuals registered on it and the schemas embedded in it.
-/

namespace SchemaTypings

/-- A computed property. -/
structure Virtual where
  path : String
  getters : List Callable
  setters : List Callable
  /-- The type declared for the property. -/
  declaredType : Option String
  deriving Repr, Inhabited

/-- A sub-document that has an interface of its own. -/
structure SubDocument where
  name : String
  /-- The keys of the schema that it has the interface for. -/
  keys : List String
  isArray : Bool
  /-- Whether the array that mongoose would create by default was switched off. -/
  defaultIsUndefined : Bool
  required : Bool
  deriving DecidableEq, Repr, Inhabited

mutual
/-- A value in a schema definition, its options or its tree. -/
inductive Value
  | null
  | bool (b : Bool)
  | int (i : Int)
  /-- A floating-point number by its shortest text. -/
  | real (digits : String)
  | text (s : String)
  | list (items : List Value)
  | tuple (items : List Value)
  /-- Fields in order. -/
  | dict (fields : List (String × Value))
  | type (t : TypeObject)
  | tag (t : Tag)
  | schema (s : Schema)
  /-- A model, by its name and schema. -/
  | model (name : String) (s : Schema)
  | virtual (v : Virtual)
  /-- A sub-document that was given an interface; only the tree that is compiled holds these. -/
  | subDocument (d : SubDocument)

/-- A schema. -/
structure Schema where
  /-- The normalized definition with the implicit fields and the virtuals. -/
  tree : List (String × Value)
  options : List (String × Value)
  methods : List (String × Callable)
  statics : List (String × Callable)
  query : List (String × Callable)
  virtuals : List (String × Virtual)
  children : List ChildSchema

/-- A schema embedded in another, at a path of its tree. -/
structure ChildSchema where
  path : String
  schema : Schema
  isArray : Bool
  isMap : Bool
end

/-- The fields of a definition, in order. -/
abbrev Fields := List (String × Value)

instance : Inhabited Value := ⟨.null⟩

instance : Inhabited Schema := ⟨⟨[], [], [], [], [], [], []⟩⟩

namespace Value

/-- Whether a value counts as true: nothing, zero and what is empty does not. -/
def isTruthy : Value → Bool
  | .null => false
  | .bool b => b
  | .int i => i != 0
  | .real digits => digits != "0.0" && digits != "-0.0"
  | .text s => !s.isEmpty
  | .list items => !items.isEmpty
  | .tuple items => !items.isEmpty
  | .dict fields => !fields.isEmpty
  | _ => true

/-- The native tag that a value is or spells. -/
def tag? : Value → Option Tag
  | .tag t => some t
  | .type t => Tag.ofType? t
  | .text s => Tag.ofName? s
  | _ => none

/-- The text of a value that is a text; a tag is one. -/
def text? : Value → Option String
  | .text s => some s
  | .tag t => some t.name
  | _ => none

/-- Whether a value is a list. -/
def isList : Value → Bool
  | .list _ => true
  | _ => false

/-- Whether a value is a dictionary with something in it. -/
def isFilledDict : Value → Bool
  | .dict (_ :: _) => true
  | _ => false

end Value

/-- Whether fields are the specification of one field rather than a nested object: they have a
`type` entry that is not a nested object itself. -/
def isFieldSpec (fields : Fields) : Bool :=
  match fields.lookup "type" with
  | some t => !t.isFilledDict
  | none => false

/-- Whether a value is the specification of a field. -/
def Value.isFieldSpec : Value → Bool
  | .dict fields => SchemaTypings.isFieldSpec fields
  | _ => false

end SchemaTypings
