import SchemaTypings.TypeHint.Basic
import SchemaTypings.Tag

/-!
# The TypeScript type of an annotation

`TypeHint.typing` renders an annotation as a type expression. What is nothing reads `void` as the
result of a function and `null` anywhere else. Union members that render alike appear once, and an
array element with a blank in its text is put in parentheses.
-/

namespace SchemaTypings

/-- The texts without the repeated ones; the first of equal ones stays. -/
def distinctTexts : List String → List String
  | [] => []
  | s :: rest => s :: (distinctTexts rest).filter (· != s)

/-- The union type of some type texts. -/
def unionText (members : List String) : String :=
  " | ".intercalate (distinctTexts members)

/-- The array type of an element type. -/
def arrayText (element : String) : String :=
  (if element.contains ' ' then "(" ++ element ++ ")" else element) ++ "[]"

/-- The type of an object with values of one type under any key. -/
def dictionaryText (value : String) : String :=
  "\x7b [key: string]: " ++ value ++ " \x7d"

/-- The promise of a type. -/
def promiseText (result : String) : String :=
  "Promise<" ++ result ++ ">"

namespace TypeHint

/-- The type that a name of a scalar class stands for in an annotation that was not evaluated. Any
other text is taken as a type as it is. -/
def textTyping (s : String) : String :=
  let names :=
    [("str", "string"), ("int", "number"), ("float", "number"), ("bool", "boolean"),
      ("bytes", "Buffer"), ("None", "void"), ("Any", "any"), ("datetime", "Date"), ("date", "Date")]
  (names.lookup s).getD s

/-- The type of a scalar class. -/
def scalarTyping? : TypeObject → Option String
  | .str => some "string"
  | .int | .float => some "number"
  | .bool => some "boolean"
  | .bytes | .bytearray => some "Buffer"
  | .datetime | .date => some "Date"
  | .decimal => some "mongoose.Types.Decimal128"
  | .object | .any => some "any"
  | _ => none

/-- The type of a native tag. -/
def tagTyping : Tag → String
  | .string => "string"
  | .number => "number"
  | .boolean => "boolean"
  | .date => "Date"
  | .buffer => "Buffer"
  | .objectId => "mongoose.Types.ObjectId"
  | .decimal128 => "mongoose.Types.Decimal128"
  | .mixed => "any"
  | .map => "Map<string, any>"

/-- The type of a container whose arguments have these types; `isVariadic` says that the second
argument is an ellipsis. What an awaitable gives is the type of its last argument. -/
def containerTyping (c : TypeObject.Container) (isVariadic : Bool) (arguments : List String) :
    String :=
  match c with
  | .sequence => arrayText (arguments.headD "any")
  | .tuple =>
    if isVariadic then arrayText (arguments.headD "any")
    else "[" ++ ", ".intercalate arguments ++ "]"
  | .mapping =>
    match arguments with
    | [_, value] => dictionaryText value
    | _ => dictionaryText "any"
  | .awaitable => promiseText (arguments.getLastD "any")

/-- The type of a class or name without arguments. A container name of the vocabulary is its class
with no arguments; a class that is awaitable says nothing about what it gives. -/
def typeTyping (t : TypeObject) : String :=
  match t.origin? with
  | some origin =>
    match origin.container? with
    | some c => containerTyping c false []
    | none => "any"
  | none =>
    match scalarTyping? t with
    | some s => s
    | none =>
      match t.container? with
      | some .sequence | some .tuple => "any[]"
      | some .mapping => dictionaryText "any"
      | _ => ((Tag.ofType? t).map tagTyping).getD "any"

/-- The type of a literal value. -/
def literalTyping : LiteralValue → String
  | .bool true => "true"
  | .bool false => "false"
  | .text s => "\"" ++ s ++ "\""
  | .null => "null"
  | .int i => toString i
  | .real s => s
  | .other s => s

/-- Whether these are the arguments of a tuple of any length. -/
def isVariadicTuple : List TypeHint → Bool
  | [_, .type t] => t == .ellipsis
  | _ => false

mutual
/-- The type of an annotation; `isResult` says that it annotates what a function gives back. -/
def typing : TypeHint → (isResult : Bool) → String
  | .nothing, isResult => if isResult then "void" else "null"
  | .text s, _ => textTyping s
  | .forward s, _ => textTyping s
  | .constant, _ => "any"
  | .type t, isResult =>
    if t = .noneType then if isResult then "void" else "null" else typeTyping t
  | .generic head arguments, _ =>
    match head.origin.container? with
    -- nothing reads as in a result when it is awaited
    | some .awaitable => promiseText (lastTyping arguments)
    | some c => containerTyping c (isVariadicTuple arguments) (typings arguments)
    | none => "any"
  | .function _ _, _ => "any"
  | .union _ members, _ => unionText (typings members)
  | .literal values, _ => unionText (values.map literalTyping)
  | .annotated inner, isResult => inner.typing isResult
  | .alias target, isResult => target.typing isResult
  termination_by structural a => a

/-- The types of some annotations. -/
def typings : List TypeHint → List String
  | [] => []
  | a :: rest => a.typing false :: typings rest
  termination_by structural as => as

/-- The type of the last annotation as a result, `any` when there is none. -/
def lastTyping : List TypeHint → String
  | [] => "any"
  | [a] => a.typing true
  | _ :: b :: rest => lastTyping (b :: rest)
  termination_by structural as => as
end

end TypeHint

end SchemaTypings
