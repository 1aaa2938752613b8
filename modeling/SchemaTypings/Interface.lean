import SchemaTypings.Docs
import SchemaTypings.Member
import SchemaTypings.Schema.Basic

/-!
# Interfaces of embedded schemas

An embedded schema gets an interface of its own, named after its path, in front of the interface of
its owner: it is hoisted. `Schema.boundTree` is the owner's tree in which the embedded schemas are
replaced by the sub-documents that stand for them, and `hoist` gives the interfaces, each after
those that it needs itself.
-/

namespace SchemaTypings

/-- Whether the plain data of a schema holds its virtuals: the option `to_object` keeps virtuals or
getters, unless it turns the virtuals off while it turns the getters on. -/
def includesVirtuals (options : Fields) : Except SchemaError Bool :=
  match (options.lookup "to_object").filter Value.isTruthy with
  | none => .ok false
  | some (.dict fields) =>
    let virtuals := (fields.lookup "virtuals").getD .null
    let getters := (fields.lookup "getters").getD .null
    match virtuals, getters with
    | .bool false, .bool true => .ok false
    | _, _ => .ok (virtuals.isTruthy || getters.isTruthy)
  | some (.virtual _) => .ok true
  | some v => .error (if isFieldsClass v then .classOfFields else .toObjectNotFields)

/-- A declared interface. -/
structure Interface where
  docs : String
  name : String
  /-- What the interface extends, with the word for it, or nothing. -/
  heritage : String
  members : List Member

/-- The text of an interface, declared with these words in front. -/
def Interface.render (shape : Shape) (lead : String) (i : Interface) : String :=
  i.docs ++ "\n" ++ lead ++ "interface " ++ i.name ++ i.heritage ++ " \x7b\n" ++
    renderMembers shape 0 i.members ++ "\x7d\n\n"

/-! ## Binding sub-documents -/

/-- The sub-document that stands for an embedded schema. The array that mongoose creates by default
is off when the path has a default of nothing. -/
def ChildSchema.subDocument (c : ChildSchema) (owner : String) (flat : Fields) : SubDocument :=
  { name := subDocumentName c.path owner
    keys := Entries.keys c.schema.tree
    isArray := c.isArray
    defaultIsUndefined :=
      c.isArray &&
        match flat.lookup (c.path ++ ".default") with
        | some .null => true
        | _ => false
    required :=
      match flat.lookup (c.path ++ ".required") with
      | some (.bool true) => true
      | _ => false }

/-- The flat fields with an embedded schema replaced by its sub-document: at its path, or among the
values of a map. -/
def ChildSchema.bind (owner : String) (flat : Fields) (c : ChildSchema) : Fields :=
  let d := Value.subDocument (c.subDocument owner flat)
  if c.isMap then Tree.replacePath flat (c.path ++ ".of") d
  else Tree.replacePath flat c.path (if c.isArray then .list [d] else d)

/-- The tree of a schema with its embedded schemas replaced by sub-documents named after `owner`.
Without an owner nothing can be named, and the tree stays as it is. It is a new tree, and that of
the schema is left alone, also where an empty nested object of it is filled in the new one. -/
def Schema.boundTree (s : Schema) (owner : String) : Fields :=
  if s.children.isEmpty || owner.isEmpty then s.tree
  else Tree.unflatten (s.children.foldl (ChildSchema.bind owner) (Tree.flatten s.tree ""))

/-! ## Hoisting -/

/-- The interface of an embedded schema with these members. -/
def ChildSchema.interface (c : ChildSchema) (shape : Shape) (owner : String)
    (members : List Member) : Interface :=
  let name := subDocumentName c.path owner
  match shape with
  | .lean => ⟨Docs.lean owner (some name), name, "", members⟩
  | .document =>
    if c.isArray then
      ⟨Docs.subDocument owner c.path, name ++ "Document",
        " extends mongoose.Types.EmbeddedDocument", members⟩
    else
      ⟨Docs.document owner, name ++ "Document",
        " extends mongoose.Document<" ++ objectIdType ++ ">", members⟩

mutual
/-- The interfaces of the schemas embedded in a schema that is declared under a name. -/
def hoist (shape : Shape) (owner : String) : Schema → Except SchemaError (List Interface)
  | ⟨_, _, _, _, _, _, children⟩ =>
    if owner.isEmpty then .ok [] else hoistAll shape owner children
  termination_by structural s => s

/-- The interfaces of some embedded schemas, each after those that it needs. -/
def hoistAll (shape : Shape) (owner : String) :
    List ChildSchema → Except SchemaError (List Interface)
  | [] => .ok []
  | ⟨path, schema, isArray, isMap⟩ :: rest => do
    let name := subDocumentName path owner
    let outlook : Outlook := ⟨shape, ← includesVirtuals schema.options⟩
    let inner ← hoist shape name schema
    let members := Member.ofFields outlook (schema.boundTree name)
    let others ← hoistAll shape owner rest
    let interface := ChildSchema.interface ⟨path, schema, isArray, isMap⟩ shape owner members
    return inner ++ interface :: others
  termination_by structural children => children
end

end SchemaTypings
