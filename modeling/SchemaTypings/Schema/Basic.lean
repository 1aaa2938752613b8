import SchemaTypings.Text.Quoted
import SchemaTypings.Tree

/-!
# Building schemas

A definition is normalized once, when its schema is built: every spelling of a native type becomes
its tag, and a list of one plain nested object becomes a list of one schema. Then the implicit
fields are added as the options ask, and the embedded schemas are collected with their paths.
-/

namespace SchemaTypings

/-- Why a schema cannot be built, extended or compiled. -/
inductive SchemaError
  | unknownOptions (names : List String)
  /-- The options are no dictionary. -/
  | optionsNotFields
  /-- The definition is no dictionary. -/
  | definitionNotFields
  /-- The `to_object` option is no dictionary. -/
  | toObjectNotFields
  /-- A class of dictionaries stands where a dictionary is wanted. -/
  | classOfFields
  /-- A function is registered without a name and has none of its own. -/
  | unnamedFunction
  deriving DecidableEq, Repr

/-- The message of an error that the library words itself. -/
def SchemaError.message? : SchemaError → Option String
  | .unknownOptions names => some ("unknown schema options: " ++ ", ".intercalate names)
  | _ => none

/-- The collection function that schemas with timestamps get. -/
def timestampsInit : String := "initializeTimestamps"

/-- The options that a schema may have. -/
def schemaOptions : List String :=
  ["_id", "id", "version_key", "timestamps", "to_object"]

/-- Whether an option is on; it counts as given with `default` when it is absent. -/
def optionIsOn (options : Fields) (name : String) (default : Bool) : Bool :=
  ((options.lookup name).map Value.isTruthy).getD default

/-! ## Normalization -/

/-- A virtual without functions or a declared type. -/
def Virtual.empty (path : String) : Virtual :=
  ⟨path, [], [], none⟩

/-- The function that initializes timestamps. -/
def initializeTimestamps : Function :=
  { name := "_initialize_timestamps"
    parameters := [⟨"doc", some (.type .any), .positional, false⟩]
    result := some (.type .any)
    isCoroutine := false
    signature := none }

/-- The schema embedded in a field, with the way it is embedded. A list of one schema embeds an
array, and a map embeds the schema of its values. -/
def embedded? (v : Value) : Option (Schema × Bool × Bool) :=
  let (target, element) :=
    match v with
    | .dict fields =>
      if isFieldSpec fields then ((fields.lookup "type").getD .null, fields.lookup "of")
      else (v, none)
    | _ => (v, none)
  match target, element with
  | .schema s, _ => some (s, false, false)
  | .list [.schema s], _ => some (s, true, false)
  | .tag .map, some (.schema s) => some (s, false, true)
  | _, _ => none

mutual
/-- The schemas embedded in a field at a path: its own, or those in a nested object. -/
def childrenOfValue (path : String) : Value → List ChildSchema
  | .dict fields =>
    match embedded? (.dict fields) with
    | some (s, isArray, isMap) => [⟨path, s, isArray, isMap⟩]
    | none => if isFieldSpec fields then [] else childrenOfFields (path ++ ".") fields
  | v =>
    match embedded? v with
    | some (s, isArray, isMap) => [⟨path, s, isArray, isMap⟩]
    | none => []
  termination_by structural v => v

/-- The schemas embedded in fields whose paths begin with `lead`. -/
def childrenOfFields (lead : String) : Fields → List ChildSchema
  | [] => []
  | (key, v) :: rest => childrenOfValue (lead ++ key) v ++ childrenOfFields lead rest
  termination_by structural fields => fields
end

/-- The fields with the implicit ones that the options ask for, after the given ones. -/
def withImplicitFields (options tree : Fields) : Fields :=
  let tree :=
    if optionIsOn options "_id" true then
      Entries.putIfAbsent tree "_id" (.dict [("type", .tag .objectId), ("auto", .bool true)])
    else tree
  let tree :=
    if optionIsOn options "timestamps" false then
      Entries.putIfAbsent (Entries.putIfAbsent tree "createdAt" (.dict [("type", .tag .date)]))
        "updatedAt" (.dict [("type", .tag .date)])
    else tree
  if optionIsOn options "version_key" true then Entries.putIfAbsent tree "__v" (.tag .number)
  else tree

/-- The schema of a normalized tree. The identifier's virtual comes with the identifier. -/
def Schema.ofTree (tree options : Fields) : Schema :=
  let tree := withImplicitFields options tree
  let hasId := optionIsOn options "id" true && optionIsOn options "_id" true
  let tree := if hasId then Tree.setPath tree "id" (.virtual (.empty "id")) else tree
  { tree
    options
    methods :=
      if optionIsOn options "timestamps" false then
        [(timestampsInit, .function initializeTimestamps)]
      else []
    statics := []
    query := []
    virtuals := if hasId then [("id", .empty "id")] else []
    children := childrenOfFields "" tree }

/-- The options of the schema of an implicit sub-document. -/
def implicitOptions : Fields :=
  [("version_key", .bool false), ("id", .bool false)]

mutual
/-- The normal form of a value; `isOnlyItem` says that it is the only item of a list. A plain nested
object that is the only item of a list is an implicit sub-document and becomes a schema. -/
def normalize : Value → (isOnlyItem : Bool) → Value
  | .dict fields, isOnlyItem =>
    if isFieldSpec fields then .dict (normalizeSpec fields)
    else if isOnlyItem && !fields.isEmpty then
      .schema (Schema.ofTree (normalizeFields fields) implicitOptions)
    else .dict (normalizeFields fields)
  | .list items, _ => .list (normalizeItems items (items.length == 1))
  | .type t, _ => ((Tag.ofType? t).map .tag).getD (.type t)
  | .text s, _ => ((Tag.ofName? s).map .tag).getD (.text s)
  | .null, _ => .null
  | .bool b, _ => .bool b
  | .int i, _ => .int i
  | .real digits, _ => .real digits
  | .tuple items, _ => .tuple items
  | .tag t, _ => .tag t
  | .schema s, _ => .schema s
  | .model name s, _ => .model name s
  | .virtual v, _ => .virtual v
  | .subDocument d, _ => .subDocument d
  termination_by structural v => v

/-- The normal forms of the items of a list. -/
def normalizeItems : List Value → Bool → List Value
  | [], _ => []
  | v :: rest, isOnlyItem => normalize v isOnlyItem :: normalizeItems rest isOnlyItem
  termination_by structural items => items

/-- The fields of a nested object, each in normal form. -/
def normalizeFields : Fields → Fields
  | [] => []
  | (key, v) :: rest => (key, normalize v false) :: normalizeFields rest
  termination_by structural fields => fields

/-- The specification of a field with its type and the type of its map values in normal form. -/
def normalizeSpec : Fields → Fields
  | [] => []
  | (key, v) :: rest =>
    (key, if key = "type" || key = "of" then normalize v false else v) :: normalizeSpec rest
  termination_by structural fields => fields
end

/-! ## Building -/

/-- Whether a type object is a class of dictionaries. -/
def isFieldsClass (v : Value) : Bool :=
  match v with
  | .type .dict | .type .mapping | .type .mutableMapping | .type .typingDict
  | .type .typingMapping => true
  | _ => false

/-- The options that a value stands for; what counts as false stands for none. -/
def optionsOf (v : Value) : Except SchemaError Fields :=
  if v.isTruthy then
    match v with
    | .dict fields => .ok fields
    | _ => .error .optionsNotFields
  else .ok []

/-- The fields that a definition stands for; what counts as false stands for none. -/
def definitionOf (v : Value) : Except SchemaError Fields :=
  if v.isTruthy then
    match v with
    | .dict fields => .ok fields
    | _ => .error (if isFieldsClass v then .classOfFields else .definitionNotFields)
  else .ok []

/-- The schema of a definition. The options come as a value and as further named ones, which win;
an option that is not known is refused before the definition is looked at. -/
def Schema.build (definition options : Value) (named : Fields) : Except SchemaError Schema := do
  let options := Entries.putAll (← optionsOf options) named
  match (Entries.keys options).filter (!schemaOptions.contains ·) with
  | [] => return Schema.ofTree (normalizeFields (← definitionOf definition)) options
  | unknown => throw (.unknownOptions (unknown.mergeSort (· ≤ ·)))

/-! ## Registering -/

/-- The collections of functions that a schema holds. -/
inductive Role
  | methods | statics | query
  deriving DecidableEq, Repr, Inhabited

/-- The functions registered in a role. -/
def Schema.functions (s : Schema) : Role → List (String × Callable)
  | .methods => s.methods
  | .statics => s.statics
  | .query => s.query

/-- The schema with a function registered in a role, under a name or under its own. -/
def Schema.register (s : Schema) (role : Role) (fn : Callable) (name : Option String) :
    Except SchemaError Schema := do
  let given := name.filter (!·.isEmpty)
  let some name := given <|> fn.name? | throw .unnamedFunction
  return match role with
    | .methods => { s with methods := Entries.put s.methods name fn }
    | .statics => { s with statics := Entries.put s.statics name fn }
    | .query => { s with query := Entries.put s.query name fn }

/-- A virtual with further functions and, when one is given, a declared type. -/
def Virtual.extend (v : Virtual) (getters setters : List Callable) (declared : Option String) :
    Virtual :=
  { v with
    getters := v.getters ++ getters
    setters := v.setters ++ setters
    declaredType := declared <|> v.declaredType }

/-- The schema with a virtual declared or, when there is one of this name, extended. A new one takes
its place in the tree; an old one is the same virtual in both places, as long as the tree holds it.
-/
def Schema.declareVirtual (s : Schema) (name : String) (getters setters : List Callable)
    (declared : Option String) : Schema :=
  match s.virtuals.lookup name with
  | none =>
    let v := (Virtual.empty name).extend getters setters declared
    { s with
      virtuals := Entries.put s.virtuals name v
      tree := Tree.setPath s.tree name (.virtual v) }
  | some old =>
    let v := old.extend getters setters declared
    let tree :=
      match Tree.getPath? s.tree name with
      | some (.virtual _) => Tree.setPath s.tree name (.virtual v)
      | _ => s.tree
    { s with virtuals := Entries.put s.virtuals name v, tree }

end SchemaTypings
