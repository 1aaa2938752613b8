/-!
# Tokens

The tokens of declaration files. A token keeps the exact text that it was read from, the line and
the offset at which it starts, so that it ends at `Token.stop`.
-/

namespace SchemaTypings.Declaration

/-- The kinds of tokens: names, literals, punctuation, any other character, and the words that open
declarations. -/
inductive Kind
  | identifier | string | number
  | arrow | ellipsis
  | leftBrace | rightBrace | leftParen | rightParen | leftBracket | rightBracket
  | less | greater
  | colon | semicolon | comma | question | equals | pipe | ampersand | dot
  | other
  | exportWord | interfaceWord | typeWord | declareWord | moduleWord | importWord | extendsWord
  deriving DecidableEq, Repr, Inhabited

namespace Kind

/-- The name of a kind. -/
def name : Kind → String
  | identifier => "IDENTIFIER"
  | string => "STRING"
  | number => "NUMBER"
  | arrow => "ARROW"
  | ellipsis => "ELLIPSIS"
  | leftBrace => "LBRACE"
  | rightBrace => "RBRACE"
  | leftParen => "LPAREN"
  | rightParen => "RPAREN"
  | leftBracket => "LBRACKET"
  | rightBracket => "RBRACKET"
  | less => "LT"
  | greater => "GT"
  | colon => "COLON"
  | semicolon => "SEMI"
  | comma => "COMMA"
  | question => "QUESTION"
  | equals => "EQUALS"
  | pipe => "PIPE"
  | ampersand => "AMP"
  | dot => "DOT"
  | other => "OTHER"
  | exportWord => "EXPORT"
  | interfaceWord => "INTERFACE"
  | typeWord => "TYPE"
  | declareWord => "DECLARE"
  | moduleWord => "MODULE"
  | importWord => "IMPORT"
  | extendsWord => "EXTENDS"

/-- The words that are no identifiers. -/
def words : List (String × Kind) :=
  [("export", exportWord), ("interface", interfaceWord), ("type", typeWord),
    ("declare", declareWord), ("module", moduleWord), ("import", importWord),
    ("extends", extendsWord)]

/-- The kind of a word. -/
def ofWord (word : String) : Kind :=
  (words.lookup word).getD identifier

/-- The kind of a character that is a token of its own. -/
def ofChar : Char → Kind
  | '\x7b' => leftBrace
  | '\x7d' => rightBrace
  | '(' => leftParen
  | ')' => rightParen
  | '[' => leftBracket
  | ']' => rightBracket
  | '<' => less
  | '>' => greater
  | ':' => colon
  | ';' => semicolon
  | ',' => comma
  | '?' => question
  | '=' => equals
  | '|' => pipe
  | '&' => ampersand
  | '.' => dot
  | _ => other

end Kind

/-- The pairs of brackets. -/
inductive Bracket
  | brace | paren | square | angle
  deriving DecidableEq, Repr, Inhabited

namespace Bracket

/-- The kind that opens a group in these brackets. -/
@[reducible] def opening : Bracket → Kind
  | brace => .leftBrace
  | paren => .leftParen
  | square => .leftBracket
  | angle => .less

/-- The kind that closes a group in these brackets. -/
@[reducible] def closing : Bracket → Kind
  | brace => .rightBrace
  | paren => .rightParen
  | square => .rightBracket
  | angle => .greater

end Bracket

/-- A token. -/
structure Token where
  kind : Kind
  text : String
  line : Nat
  offset : Nat
  deriving DecidableEq, Repr, Inhabited

/-- The offset behind a token. -/
def Token.stop (t : Token) : Nat :=
  t.offset + t.text.length

end SchemaTypings.Declaration
