import SchemaTypings.Text.Quoted

/-!
# JSON values and their texts

`Value` keeps the members of an object in the order of their first appearance. A number with a
fraction or an exponent keeps its text, and a text whose escapes leave a surrogate alone is set
apart from the others. `quote` writes a text as a JSON string of ASCII characters.
-/

namespace SchemaTypings.Json

/-- A JSON value; `real` is any number that is not an integer, as it was written. -/
inductive Value
  | null
  | bool (b : Bool)
  | int (i : Int)
  | real (text : String)
  | text (s : String)
  /-- A text with a surrogate unit that is left alone; `shown` has U+FFFD in place of each. -/
  | unpaired (shown : String)
  | array (items : List Value)
  | object (members : List (String × Value))
  deriving Inhabited

/-- The member of this name. -/
def Value.member? (name : String) : Value → Option Value
  | .object members => members.lookup name
  | _ => none

/-- The text of a value that is one, as it is shown. -/
def Value.text? : Value → Option String
  | .text s | .unpaired s => some s
  | _ => none

/-- Whether a value is no text with a surrogate left alone. -/
def Value.isPlain : Value → Bool
  | .unpaired _ => false
  | _ => true

/-- The letter that stands after the backslash in the short escape of a character. -/
def shortEscape? : Char → Option Char
  | '"' => some '"'
  | '\\' => some '\\'
  | '\n' => some 'n'
  | '\r' => some 'r'
  | '\t' => some 't'
  | '\x0c' => some 'f'
  | '\x08' => some 'b'
  | _ => none

/-- The escape of one UTF-16 unit. -/
def unitEscape (n : Nat) : List Char :=
  '\\' :: 'u' :: Text.hexDigits 4 n

/-- How a string literal writes one character: blank to tilde as they are, two escaped units for a
character beyond the first plane. -/
def escapeChar (c : Char) : List Char :=
  match shortEscape? c with
  | some letter => ['\\', letter]
  | none =>
    let n := c.toNat
    if 0x20 ≤ n && n ≤ 0x7E then [c]
    else if n < 0x10000 then unitEscape n
    else unitEscape (0xD800 + (n - 0x10000) / 0x400) ++ unitEscape (0xDC00 + (n - 0x10000) % 0x400)

/-- The characters of a string literal. -/
def quoteChars (cs : List Char) : List Char :=
  '"' :: cs.flatMap escapeChar ++ ['"']

/-- The string literal of a text. -/
def quote (s : String) : String :=
  String.ofList (quoteChars s.toList)

mutual
/-- The text of a value on one line. -/
def Value.render : Value → String
  | .null => "null"
  | .bool true => "true"
  | .bool false => "false"
  | .int i => toString i
  | .real text => text
  | .text s => quote s
  | .unpaired shown => quote shown
  | .array items => "[" ++ ", ".intercalate (renderItems items) ++ "]"
  | .object members => "\x7b" ++ ", ".intercalate (renderMembers members) ++ "\x7d"

/-- The texts of the items. -/
def renderItems : List Value → List String
  | [] => []
  | v :: rest => v.render :: renderItems rest

/-- The texts of the members. -/
def renderMembers : List (String × Value) → List String
  | [] => []
  | (name, v) :: rest => (quote name ++ ": " ++ v.render) :: renderMembers rest
end

end SchemaTypings.Json
