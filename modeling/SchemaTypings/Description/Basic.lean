import SchemaTypings.Json.Reader
import SchemaTypings.Schema.Basic

/-!
# Descriptions in JSON

Schemas, values, functions and annotations described in JSON, as a description file holds them. A
value that JSON has no form for is an object of one member that says what it is. Within a list of
descriptions an earlier schema may be referred to by its name.
-/

namespace SchemaTypings.Description

/-- Why a description describes nothing. -/
inductive DescribeError
  | malformed
  | schema (e : SchemaError)
  deriving DecidableEq, Repr

/-- What a description gives. -/
abbrev Described (α : Type) := Except DescribeError α

/-- The message of an error in a description. -/
def DescribeError.message : DescribeError → String
  | .malformed => "malformed description"
  | .schema e => e.message?.getD "a schema cannot be built from its description"

mutual
/-- How deeply arrays and objects are nested in a value. -/
def jsonDepth : Json.Value → Nat
  | .array items => jsonItemsDepth items + 1
  | .object members => jsonMembersDepth members + 1
  | _ => 0
  termination_by structural v => v

/-- The depth of the deepest item. -/
def jsonItemsDepth : List Json.Value → Nat
  | [] => 0
  | v :: rest => max (jsonDepth v) (jsonItemsDepth rest)
  termination_by structural items => items

/-- The depth of the deepest member. -/
def jsonMembersDepth : List (String × Json.Value) → Nat
  | [] => 0
  | (_, v) :: rest => max (jsonDepth v) (jsonMembersDepth rest)
  termination_by structural members => members
end

/-! ## Reading JSON members -/

/-- The text of a value. -/
def textOf : Json.Value → Described String
  | .text s => .ok s
  | _ => .error .malformed

/-- The text of a value that may be absent or nothing. -/
def optionalText : Option Json.Value → Described (Option String)
  | none | some .null => .ok none
  | some v => (textOf v).map some

/-- The items of an array. -/
def itemsOf : Json.Value → Described (List Json.Value)
  | .array items => .ok items
  | _ => .error .malformed

/-- The items of an array that may be absent. -/
def optionalItems : Option Json.Value → Described (List Json.Value)
  | none | some .null => .ok []
  | some v => itemsOf v

/-- A name with what belongs to it. -/
def pairOf : Json.Value → Described (String × Json.Value)
  | .array [.text name, v] => .ok (name, v)
  | _ => .error .malformed

/-- Whether a value is true; what is absent is not. -/
def flagOf : Option Json.Value → Bool
  | some (.bool b) => b
  | _ => false

/-- A type object by its token. -/
def typeOf (v : Json.Value) : Described TypeObject := do
  match TypeObject.ofToken? (← textOf v) with
  | some t => return t
  | none => throw .malformed

/-! ## Type hints and functions -/

/-- A value of a literal type. -/
def literalOf : Json.Value → Described LiteralValue
  | .null => .ok .null
  | .bool b => .ok (.bool b)
  | .int i => .ok (.int i)
  | .real s => .ok (.real s)
  | .text s => .ok (.text s)
  | .object [("f", .text s)] => .ok (.real s)
  | _ => .error .malformed

/-- A class with arguments. The vocabulary's union and option make a union of their arguments. -/
def genericOf (head : TypeObject) (arguments : List TypeHint) : TypeHint :=
  match head, arguments with
  | .typingUnion, _ => .ofUnion arguments
  | .typingOptional, [a] => .ofOptional a
  | _, _ => .generic head arguments

/-- An annotation; the first argument bounds the nesting. -/
def hintTo : Nat → Json.Value → Described TypeHint
  | 0, _ => .error .malformed
  | depth + 1, v =>
    match v with
    | .null => .ok .nothing
    | .text s => .ok (.text s)
    | .bool _ | .int _ | .real _ => .ok .constant
    | .object [("t", t)] => do return .type (← typeOf t)
    | .object [("g", .array (.text "typing.Literal" :: values))] => do
      return .literal (← values.mapM literalOf)
    | .object [("g", .array (head :: arguments))] => do
      return genericOf (← typeOf head) (← arguments.mapM (hintTo depth))
    | .object [("callable", .array parts)] => do
      let parts ← parts.mapM (hintTo depth)
      return .function parts.dropLast (parts.getLastD .nothing)
    | .object [("union", .array members)] => do
      return .ofUnion (← members.mapM (hintTo depth))
    | .object [("pipe", .array members)] => do return .ofBars (← members.mapM (hintTo depth))
    | .object [("optional", a)] => do return .ofOptional (← hintTo depth a)
    | .object [("literal", .array values)] => do return .literal (← values.mapM literalOf)
    | .object [("annotated", a)] => do return .annotated (← hintTo depth a)
    | .object [("alias", a)] => do return .alias (← hintTo depth a)
    | .object [("fwd", .text s)] => .ok (.forward s)
    | .object [("f", _)] => .ok .constant
    | _ => .error .malformed

/-- An annotation. -/
def hint (v : Json.Value) : Described TypeHint :=
  hintTo (jsonDepth v + 1) v

/-- How a parameter takes its arguments. -/
def parameterKind : Option String → Described ParameterKind
  | none | some "pos" => .ok .positional
  | some "posonly" => .ok .positionalOnly
  | some "var" => .ok .variadic
  | some "kw" => .ok .keywordOnly
  | some "varkw" => .ok .variadicKeyword
  | some _ => .error .malformed

/-- A parameter of a function. -/
def parameter (v : Json.Value) : Described Parameter := do
  let some name := v.member? "name" | throw .malformed
  return {
    name := ← textOf name
    hint := ← (v.member? "ann").mapM hint
    kind := ← parameterKind (← optionalText (v.member? "kind"))
    hasDefault := flagOf (v.member? "default") }

/-- What a described function may name in its annotations: the builtin classes, nothing, and two
types that are made of these. -/
def denotations : List (String × TypeHint) :=
  let builtins : List TypeObject :=
    [.str, .int, .float, .bool, .bytes, .bytearray, .object, .complex, .list, .dict, .tuple, .set,
      .frozenset]
  builtins.map (fun t => (t.token, .type t)) ++
    [("None", .nothing), ("list[int]", .generic .list [.type .int]),
      ("int | None", .ofBars [.type .int, .nothing])]

/-- The parameters of a function that has one that takes the receiver and no others. -/
def receiverOnly : List Parameter := [⟨"self", none, .positional, false⟩]

/-- A callable. -/
def callable (v : Json.Value) : Described Callable := do
  match v.member? "callable" with
  | some (.text "none") | some (.text "number") => return .value
  | some (.text name) => return .builtin name
  | some _ => throw .malformed
  | none =>
    let parameters ← (v.member? "params").mapM fun ps => do (← itemsOf ps).mapM parameter
    return .function {
      name := (← optionalText (v.member? "name")).getD "fn"
      parameters := parameters.getD receiverOnly
      result := ← (v.member? "ret").mapM hint
      isCoroutine := flagOf (v.member? "async")
      signature := ← optionalText (v.member? "sig")
      denotations }

/-- The callables in an array that may be absent. -/
def callables (v : Option Json.Value) : Described (List Callable) := do
  (← optionalItems v).mapM callable

/-- A callable that may be given; what is no callable at all does not count as one. -/
def givenCallable (v : Option Json.Value) : Described (List Callable) :=
  match v with
  | none | some .null => .ok []
  | some v => if let some (.text "none") := v.member? "callable" then .ok [] else
    (callable v).map ([·])

/-- The registration of a virtual on a schema. -/
def declareVirtual (s : Schema) (v : Json.Value) : Described (String × Schema) := do
  let some name := v.member? "name" | throw .malformed
  let name ← textOf name
  let getter ← givenCallable (v.member? "getter")
  let setter ← givenCallable (v.member? "setter")
  let further ← callables (v.member? "getters")
  let declared ← optionalText (v.member? "ts_type")
  return (name, s.declareVirtual name (getter ++ further) setter declared)

/-- A virtual by itself. -/
def virtual (v : Json.Value) : Described Virtual := do
  return {
    path := (← optionalText (v.member? "path")).getD ""
    getters := ← callables (v.member? "getters")
    setters := ← callables (v.member? "setters")
    declaredType := ← optionalText (v.member? "ts_type") }

/-! ## Values and schemas -/

/-- A native tag by its name. -/
def tagOf (name : String) : Described Tag :=
  match Tag.all.find? (·.name == name) with
  | some t => .ok t
  | none => .error .malformed

/-- The schema with a function registered. -/
def register (s : Schema) (role : Role) (fn : Callable) (name : Option String) : Described Schema :=
  (s.register role fn name).mapError .schema

/-- The schema with the functions of an array of names and functions registered. -/
def registerAll (s : Schema) (role : Role) (v : Option Json.Value) : Described Schema := do
  (← optionalItems v).foldlM (fun s item =>
    match item with
    | .array [name, fn] => do register s role (← callable fn) (← optionalText (some name))
    | _ => .error .malformed) s

mutual
/-- A value; the first argument bounds the nesting, and `named` holds the earlier schemas. -/
def valueTo (named : List (String × Schema)) : Nat → Json.Value → Described Value
  | 0, _ => .error .malformed
  | depth + 1, v =>
    match v with
    | .null => .ok .null
    | .bool b => .ok (.bool b)
    | .int i => .ok (.int i)
    | .real s => .ok (.real s)
    | .text s => .ok (.text s)
    | .array items => do return .list (← items.mapM (valueTo named depth))
    | .object [("d", .array entries)] => do
      let pairs ← entries.mapM fun e => do
        let (name, v) ← pairOf e
        return (name, ← valueTo named depth v)
      return .dict (Entries.ofList pairs)
    | .object [("tuple", .array items)] => do return .tuple (← items.mapM (valueTo named depth))
    | .object [("f", .text s)] => .ok (.real s)
    | .object [("t", t)] => do return .type (← typeOf t)
    | .object [("tag", .text name)] => do return .tag (← tagOf name)
    | .object [("schema", s)] => do return .schema (← schemaTo named depth s)
    | .object [("use", .text name)] =>
      match named.lookup name with
      | some s => .ok (.schema s)
      | none => .error .malformed
    | .object [("model", .array [.text name, s])] => do
      match ← valueTo named depth s with
      | .schema s => return .model name s
      | _ => return .model name default
    | .object [("virtual", v)] => do return .virtual (← virtual v)
    | _ => .error .malformed

/-- A schema. Its definition is described first, then its options, then what is registered on it. -/
def schemaTo (named : List (String × Schema)) : Nat → Json.Value → Described Schema
  | 0, _ => .error .malformed
  | depth + 1, v => do
    let definition ← valueTo named depth ((v.member? "def").getD .null)
    let options ← valueTo named depth ((v.member? "options").getD .null)
    let further ← (← optionalItems (v.member? "kwargs")).mapM fun e => do
      let (name, v) ← pairOf e
      return (name, ← valueTo named depth v)
    let s ← (Schema.build definition options further).mapError .schema
    let s ← registerAll s .methods (v.member? "methods")
    let s ← registerAll s .statics (v.member? "statics")
    let s ← registerAll s .query (v.member? "query")
    (← optionalItems (v.member? "virtuals")).foldlM (fun s v => do
      return (← declareVirtual s v).2) s
end

/-- A value, in which the named schemas may be referred to. -/
def value (named : List (String × Schema)) (v : Json.Value) : Described Value :=
  valueTo named (jsonDepth v + 2) v

/-- A schema, in which the named schemas may be referred to. -/
def schema (named : List (String × Schema)) (v : Json.Value) : Described Schema :=
  schemaTo named (jsonDepth v + 2) v

/-- The models that an array of names and schemas describes. -/
def models (named : List (String × Schema)) (v : Json.Value) :
    Described (List (String × Schema)) := do
  let pairs ← (← itemsOf v).mapM fun e => do
    let (name, v) ← pairOf e
    match ← value named v with
    | .schema s => return (name, s)
    | _ => throw .malformed
  return Entries.ofList pairs

end SchemaTypings.Description
