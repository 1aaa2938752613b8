import SchemaTypings.Declaration.Token
import SchemaTypings.Json.Reader
import SchemaTypings.Text.Quoted

/-!
# Statements of declaration files

Only interfaces, type aliases and module blocks are kept, and of their members only the properties,
with the span of text that their type takes up.
-/

namespace SchemaTypings.Declaration

/-- A property of an object type; its type takes up the text from `typeStart` to `typeEnd`. -/
structure Property where
  name : String
  isOptional : Bool
  typeStart : Nat
  typeEnd : Nat
  deriving DecidableEq, Repr, Inhabited

/-- A statement of a file or of a module block. -/
inductive Statement
  | interface (name : String) (isExported : Bool) (properties : List Property)
  /-- An alias, with the properties of its type when that is one object type. -/
  | alias (name : String) (isExported : Bool) (properties : Option (List Property))
  | module (name : String) (statements : List Statement)
  deriving Repr, Inhabited

/-- The name of a statement. -/
def Statement.name : Statement → String
  | .interface name _ _ => name
  | .alias name _ _ => name
  | .module name _ => name

/-- Why a text is no declaration file. -/
inductive ParseError
  /-- No file goes on with this token. -/
  | unexpected (t : Token)
  /-- The file is not complete. -/
  | unexpectedEnd
  /-- A name in double quotes is no string literal. -/
  | badName (e : Json.ReadError)
  deriving DecidableEq, Repr

/-- The message of a parse error. -/
def ParseError.message : ParseError → String
  | .unexpected t => "unexpected " ++ Text.quoted t.text ++ " on line " ++ toString t.line
  | .unexpectedEnd => "unexpected end of declarations"
  | .badName e => e.message

/-- The name that the text of a token stands for: a name in double quotes is a string literal, one
between apostrophes is taken as it stands there, and any other text is the name itself. Names in which
surrogate units are left alone are told apart only by what else is in them. -/
def unquote (text : String) : Except Json.ReadError String :=
  match text.toList with
  | '"' :: _ => Json.unquote text
  | '\'' :: rest => .ok (String.ofList rest.dropLast)
  | _ => .ok text

/-! ## Looking statements up -/

/-- The properties of the first interface of this name. -/
def interface? (statements : List Statement) (name : String) : Option (List Property) :=
  statements.findSome? fun
    | .interface n _ properties => if n = name then some properties else none
    | _ => none

/-- What the first alias of this name stands for: its properties, or nothing when its type is no
object type. -/
def alias? (statements : List Statement) (name : String) : Option (Option (List Property)) :=
  statements.findSome? fun
    | .alias n _ properties => if n = name then some properties else none
    | _ => none

/-- The first module block, by its name and statements. -/
def firstModule? (statements : List Statement) : Option (String × List Statement) :=
  statements.findSome? fun
    | .module name body => some (name, body)
    | _ => none

/-- The first property of this name, compared as names are read (`unquote`). -/
def property? (properties : List Property) (name : String) : Option Property :=
  properties.find? (·.name == name)

end SchemaTypings.Declaration
