import SchemaTypings.Text.Quoted
import SchemaTypings.Value

/-!
# The texts of values

Enumerated values are written by `Value.display`: a text as it is, and any other value as it is
shown inside a list by `Value.shown`, except for a tag, which has a shorter text of its own.
-/

namespace SchemaTypings

/-- The text of a truth value. -/
def boolText (b : Bool) : String :=
  if b then "True" else "False"

/-- A list of names as it is shown in a message. -/
def namesText (names : List String) : String :=
  "[" ++ ", ".intercalate (names.map Text.quoted) ++ "]"

/-- What a schema with these keys is shown as. -/
def schemaText (keys : List String) : String :=
  "<Schema paths=" ++ namesText keys ++ ">"

/-- What a schema is shown as. -/
def Schema.display (s : Schema) : String :=
  schemaText (Entries.keys s.tree)

/-- What a callable is shown as. -/
def Callable.display : Callable → String
  | .function f => "<function " ++ f.name ++ ">"
  | .builtin name => "<class '" ++ name ++ "'>"
  | .value => "None"

/-- What a virtual is shown as. -/
def Virtual.display (v : Virtual) : String :=
  let shownAll := fun (fs : List Callable) =>
    "[" ++ ", ".intercalate (fs.map Callable.display) ++ "]"
  "VirtualType(path=" ++ Text.quoted v.path ++ ", getters=" ++ shownAll v.getters ++ ", setters=" ++
    shownAll v.setters ++ ", ts_type=" ++ (v.declaredType.map Text.quoted).getD "None" ++ ")"

/-- What a sub-document is shown as. -/
def SubDocument.display (d : SubDocument) : String :=
  "SubEntityBinding(name=" ++ Text.quoted d.name ++ ", schema=" ++ schemaText d.keys ++
    ", is_array=" ++ boolText d.isArray ++ ", default_is_undefined=" ++
    boolText d.defaultIsUndefined ++ ", required=" ++ boolText d.required ++ ")"

namespace Value

mutual
/-- What a value is shown as inside another. -/
def shown : Value → String
  | .null => "None"
  | .bool b => boolText b
  | .int i => toString i
  | .real digits => digits
  | .text s => Text.quoted s
  | .list items => "[" ++ ", ".intercalate (shownItems items) ++ "]"
  | .tuple items =>
    match items with
    | [v] => "(" ++ v.shown ++ ",)"
    | items => "(" ++ ", ".intercalate (shownItems items) ++ ")"
  | .dict fields => "\x7b" ++ ", ".intercalate (shownFields fields) ++ "\x7d"
  | .type t => t.display
  | .tag t => "<NativeTag." ++ t.name ++ ": " ++ Text.quoted t.name ++ ">"
  | .schema s => s.display
  | .model name s => "Model(model_name=" ++ Text.quoted name ++ ", schema=" ++ s.display ++ ")"
  | .virtual v => v.display
  | .subDocument d => d.display
  termination_by structural v => v

/-- What the items of a list are shown as. -/
def shownItems : List Value → List String
  | [] => []
  | v :: rest => v.shown :: shownItems rest
  termination_by structural items => items

/-- What the fields of a dictionary are shown as. -/
def shownFields : List (String × Value) → List String
  | [] => []
  | (key, v) :: rest => (Text.quoted key ++ ": " ++ v.shown) :: shownFields rest
  termination_by structural fields => fields
end

/-- The text of a value on its own. -/
def display : Value → String
  | .text s => s
  | .tag t => "NativeTag." ++ t.name
  | v => v.shown

end Value

end SchemaTypings
