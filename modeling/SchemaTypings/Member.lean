import SchemaTypings.BaseType
import SchemaTypings.Field
import SchemaTypings.Naming

/-!
# Members of declared types

The members that the fields of a schema tree become, and their text. `Member.ofFields` decides for
each field whether it is declared, under which mark and with which type; the shape enters the types
and the virtuals only. `Member.ofFields_eq` gives the members of a nested object as those of the
fields in its body. `Member.render` writes the members of an object one a line, two blanks deeper
than the object that holds them.
-/

namespace SchemaTypings

mutual
/-- The type of a member. -/
inductive TypeExpr
  /-- A type that is written as it is. -/
  | named (text : String)
  | object (members : List Member)
  | map (value : TypeExpr)
  | array (ofSubDocuments : Bool) (element : TypeExpr)

/-- A member of an interface or an object type. -/
structure Member where
  key : String
  isOptional : Bool
  isVirtual : Bool
  type : TypeExpr
end

/-- What the members of one interface depend on beside its fields. -/
structure Outlook where
  shape : Shape
  /-- Whether the plain data holds the virtuals. -/
  includesVirtuals : Bool
  deriving DecidableEq, Repr, Inhabited

/-- The names that belong to the type machinery of schemas and are no data. -/
def metadataKeys : List String :=
  ["get", "set", "schemaName", "defaultOptions", "_checkRequired", "_cast", "checkRequired", "cast",
    "__v"]

/-- The name that a reference to a model or to a sub-document gives. A dotted reference names the
interface of a sub-document. -/
def referenceName (ref : String) : String :=
  let name := String.ofList (ref.toList.filter (· != '\''))
  if name.contains '.' then subDocumentName name "" else name

/-- The type of a reference: the identifier of what is referred to, or that itself. -/
def referenceType (shape : Shape) (ref : Value) : Option String :=
  let text :=
    match ref with
    | .model name _ => some name
    | v => v.text?
  text.map fun ref =>
    let name := referenceName ref ++ (if shape = .document then "Document" else "")
    name ++ "[\"_id\"] | " ++ name

namespace Member

/-- The type with the array and the map of a field put around it. A buffer of a live document has a
type of its own, but not as the value of a map. -/
def wrap (shape : Shape) (f : Field) (ofSubDocuments : Bool) (type : TypeExpr) : TypeExpr :=
  let type :=
    match type, f.isMap, shape with
    | .named "Buffer", false, .document => .named "mongoose.Types.Buffer"
    | type, false, _ => type
    | type, true, _ => .map type
  if f.isArray then .array ofSubDocuments type else type

/-- The member of a specification or a nested object, whose own members are `nested`. A reference
wins over a type, and an identifier is never optional. -/
def ofSpec (outlook : Outlook) (key : String) (f : Field) (spec : Fields) (nested : List Member) :
    Option Member :=
  if metadataKeys.contains key then none
  else
    match (spec.lookup "ref").filter Value.isTruthy with
    | some ref =>
      (referenceType outlook.shape ref).map fun type =>
        ⟨key, f.isOptional, false, wrap outlook.shape f false (.named type)⟩
    | none =>
      match baseType outlook.shape key spec with
      | .omitted => none
      | .nested => some ⟨key, false, false, wrap outlook.shape f false (.object nested)⟩
      | .named type =>
        some ⟨key, f.isOptional && key != "_id", false, wrap outlook.shape f false (.named type)⟩

/-- The member that a field becomes, if any; `nested` holds the members of its body. -/
def ofField (outlook : Outlook) (key : String) (f : Field) (nested : List Member) : Option Member :=
  match f.target with
  | none => none
  | some (.subDocument d) =>
    let name := d.name ++ (if outlook.shape = .document then "Document" else "")
    let isOptional := if f.isArray then f.isOptional else !d.required
    if name.isEmpty then none
    else some ⟨key, isOptional, false, wrap outlook.shape f d.isArray (.named name)⟩
  | some .virtual =>
    if key = "id" then none
    else if outlook.shape = .lean && !outlook.includesVirtuals then none
    else some ⟨key, false, true, wrap outlook.shape f false (.named "any")⟩
  | some (.fields spec) => ofSpec outlook key f spec nested

/-- The members of fields, with bodies down to a depth. -/
def ofFieldsTo (outlook : Outlook) : Nat → Fields → List Member
  | 0, _ => []
  | depth + 1, fields => fields.filterMap fun (key, v) =>
    let f := Field.read v
    ofField outlook key f (ofFieldsTo outlook depth f.body)

/-- The members that fields become, in their order. -/
def ofFields (outlook : Outlook) (fields : Fields) : List Member :=
  ofFieldsTo outlook (fieldsDepth fields + 1) fields

theorem filterMap_eq_of_mem {α β : Type} {f g : α → Option β} {xs : List α}
    (h : ∀ x ∈ xs, f x = g x) : xs.filterMap f = xs.filterMap g := by
  induction xs with
  | nil => rfl
  | cons x rest ih =>
    simp only [List.filterMap_cons, h x (List.mem_cons_self ..),
      ih fun y hy => h y (List.mem_cons_of_mem _ hy)]

theorem ofFieldsTo_nil (outlook : Outlook) (depth : Nat) : ofFieldsTo outlook depth [] = [] := by
  cases depth <;> rfl

/-- Any two depths below which all fields are nested give the same members. -/
theorem ofFieldsTo_congr (outlook : Outlook) {m n : Nat} {fields : Fields}
    (hm : fieldsDepth fields < m) (hn : fieldsDepth fields < n) :
    ofFieldsTo outlook m fields = ofFieldsTo outlook n fields := by
  induction m generalizing n fields with
  | zero => omega
  | succ m ih =>
    cases n with
    | zero => omega
    | succ n =>
      refine filterMap_eq_of_mem fun (key, v) hmem => ?_
      have hv := depth_le_of_mem hmem
      by_cases hb : (Field.read v).body = []
      · simp only [hb, ofFieldsTo_nil]
      · have hlt := Field.depth_body_lt hb
        simp only [ih (by omega : fieldsDepth (Field.read v).body < m) (n := n) (by omega)]

/-- Each field is read once, and the members of its body are those of the body's fields. -/
theorem ofFields_eq (outlook : Outlook) (fields : Fields) :
    ofFields outlook fields = fields.filterMap fun (key, v) =>
      ofField outlook key (Field.read v) (ofFields outlook (Field.read v).body) := by
  refine filterMap_eq_of_mem fun (key, v) hmem => ?_
  have hv := depth_le_of_mem hmem
  by_cases hb : (Field.read v).body = []
  · simp only [hb, ofFieldsTo_nil, ofFields]
  · have hlt := Field.depth_body_lt hb
    simp only [ofFields, ofFieldsTo_congr outlook
      (show fieldsDepth (Field.read v).body < fieldsDepth fields by omega)
      (Nat.lt_succ_self (fieldsDepth (Field.read v).body))]

end Member

/-! ## Text -/

/-- The blanks in front of a line at a depth. -/
def indentation (depth : Nat) : String :=
  String.ofList (List.replicate (2 * depth) ' ')

/-- A line that declares a member: the key with its mark, and the type. Without a key the type
stands alone. -/
def memberLine (key type : String) (isOptional : Bool) (indent : String) : String :=
  let label :=
    if key.isEmpty then "" else propertyKey key ++ (if isOptional then "?" else "") ++ ": "
  indent ++ label ++ type ++ ";\n"

/-- The array type of an element type that is written as it is. -/
def arrayType (shape : Shape) (ofSubDocuments : Bool) (element : String) : String :=
  match shape with
  | .document =>
    let container := if ofSubDocuments then "DocumentArray" else "Array"
    "mongoose.Types." ++ container ++ "<" ++ element ++ ">"
  | .lean => (if element.contains ' ' then "(" ++ element ++ ")" else element) ++ "[]"

/-- The map type of a value type that is written as it is. -/
def mapType (shape : Shape) (value : String) : String :=
  match shape with
  | .document => "mongoose.Types.Map<" ++ value ++ ">"
  | .lean => "Map<string, " ++ value ++ ">"

mutual
/-- The text of a type whose member stands at a depth. -/
def TypeExpr.render (shape : Shape) (depth : Nat) : TypeExpr → String
  | .named text => text
  | .object members =>
    "\x7b\n" ++ renderMembers shape (depth + 1) members ++ indentation (depth + 1) ++ "\x7d"
  | .map value => mapType shape (value.render shape depth)
  | .array ofSubDocuments element => arrayType shape ofSubDocuments (element.render shape depth)
  termination_by structural t => t

/-- The line of a member at a depth. -/
def Member.render (shape : Shape) (depth : Nat) : Member → String
  | ⟨key, isOptional, _, type⟩ =>
    memberLine key (type.render shape depth) isOptional (indentation (depth + 1))
  termination_by structural m => m

/-- The lines of members at a depth. -/
def renderMembers (shape : Shape) (depth : Nat) : List Member → String
  | [] => ""
  | m :: rest => m.render shape depth ++ renderMembers shape depth rest
  termination_by structural members => members
end

end SchemaTypings
