import SchemaTypings.TypeHint.Hints
import SchemaTypings.TypeHint.Typing
import SchemaTypings.Naming
import SchemaTypings.Schema.Basic
import SchemaTypings.Text.Word

/-!
# Signatures

A signature is the text `(parameters) => result`. `Function.signatureText?` renders the signature of
an annotated function, without the parameter that receives the document, model or query. A signature
is bound to its receiver by `boundSignature`: methods to the document, statics to the model, and a
query helper to the query that it is called on and gives back.
-/

namespace SchemaTypings

/-! ## The signature of a function -/

/-- The annotations of a function under the names of its parameters and `return`, evaluated. -/
def Function.hints (f : Function) : List (String × TypeHint) :=
  let parameters := f.parameters.filterMap fun p => p.hint.map (p.name, ·)
  let result := f.result.toList.map ("return", ·)
  TypeHint.hints (f.denotations.lookup ·) (parameters ++ result)

/-- Whether a parameter may take the receiver. -/
def Parameter.takesReceiver (p : Parameter) : Bool :=
  p.kind == .positionalOnly || p.kind == .positional

/-- The parameters of a function after the one that takes the receiver, with the name of that. -/
def Function.withoutReceiver (f : Function) : Option String × List Parameter :=
  match f.parameters with
  | p :: rest => if p.takesReceiver then (some p.name, rest) else (none, p :: rest)
  | [] => (none, [])

/-- A parameter with its type, as a signature writes it. -/
def Parameter.declaration (p : Parameter) (hint : Option TypeHint) : String :=
  let type := (hint.map (·.typing false)).getD "any"
  match p.kind with
  | .variadic => "..." ++ p.name ++ ": " ++ arrayText type
  | .variadicKeyword => p.name ++ "?: " ++ dictionaryText type
  | _ => p.name ++ (if p.hasDefault then "?" else "") ++ ": " ++ type

/-- The signature of a function: the declared one, or the one that its annotations give. A function
whose receiver alone is annotated has none. A coroutine gives a promise. -/
def Function.signatureText? (f : Function) : Option String :=
  match f.signature with
  | some declared => some declared
  | none =>
    let (receiver, parameters) := f.withoutReceiver
    let hints := f.hints.filter fun hint => some hint.1 != receiver
    if hints.isEmpty then none
    else
      let declared := parameters.map fun p => p.declaration (hints.lookup p.name)
      let result := ((hints.lookup "return").map (·.typing true)).getD "any"
      -- what is annotated as a promise already stays one
      let result :=
        if f.isCoroutine && !"Promise<".toList.isPrefixOf result.toList then promiseText result
        else result
      some ("(" ++ ", ".intercalate declared ++ ") => " ++ result)

/-- The signature of a callable. -/
def Callable.signatureText? : Callable → Option String
  | .function f => f.signatureText?
  | _ => none

/-- The type that a getter's annotation gives. -/
def Callable.resultTyping? : Callable → Option String
  | .function f => (f.hints.lookup "return").map (·.typing false)
  | _ => none

/-- The known type of a virtual: the declared one, or that of the first annotated getter. -/
def Virtual.knownType? (v : Virtual) : Option String :=
  v.declaredType <|> v.getters.findSome? Callable.resultTyping?

/-! ## Binding a signature -/

/-- The texts before and after the last `) => ` of a text. -/
def splitArrow : List Char → Option (List Char × List Char)
  | [] => none
  | c :: rest =>
    match splitArrow rest with
    | some (before, after) => some (c :: before, after)
    | none =>
      match c :: rest with
      | ')' :: ' ' :: '=' :: '>' :: ' ' :: after => some ([], after)
      | _ => none

/-- The text after a leading `this: `, the word behind it and the comma and blank behind that. -/
def dropReceiver : List Char → List Char
  | 't' :: 'h' :: 'i' :: 's' :: ':' :: ' ' :: rest =>
    match rest.dropWhile Text.isWordChar with
    | ',' :: ' ' :: rest => rest
    | rest => rest
  | cs => cs

/-- The parameters of a signature, without an explicit receiver, and its result. -/
def splitSignature (signature : List Char) : Option (List Char × List Char) :=
  match signature with
  | '(' :: rest => splitArrow (dropReceiver rest)
  | _ => none

/-- The type of a member in a role of a model. A text that is no signature says nothing about
parameters or result. -/
def boundSignature (signature : String) (role : Role) (modelName : String) : String :=
  let (parameters, result) := (splitSignature signature.toList).getD ([], [])
  let extra := if parameters.isEmpty then "" else ", " ++ String.ofList parameters
  let result := if result.isEmpty then "any" else String.ofList result
  match role with
  -- a query helper gives back its query, whatever its signature says
  | .query =>
    "<Q extends mongoose.Query<any, " ++ modelName ++ "Document>>(this: Q" ++ extra ++ ") => Q"
  | .methods => "(this: " ++ modelName ++ "Document" ++ extra ++ ") => " ++ result
  | .statics => "(this: " ++ modelName ++ "Model" ++ extra ++ ") => " ++ result

/-- The signature of a function about which nothing is known. -/
def defaultSignature : String := "(...args: any[]) => any"

/-- The names in a collection that declarations show. -/
def declaredNames (names : List String) : List String :=
  names.filter (· != timestampsInit)

/-- The placeholder members of a collection of functions, one a line. -/
def functionLines (names : List String) (modelName : String) (role : Role) (indent : String) :
    String :=
  String.join <| (declaredNames names).map fun name =>
    indent ++ propertyKey name ++ ": " ++ boundSignature defaultSignature role modelName ++ ";\n"

end SchemaTypings
