import SchemaTypings.Declaration.Token
import SchemaTypings.Naming
import SchemaTypings.Text.Digit

/-!
# Reading tokens

At every place the first of these that begins there is taken: a comment, a string, a number, a word,
the longest sign. Blanks and comments are dropped. A quote that opens no string on its line, like
any character without a meaning, is a token by itself, so that every text has tokens.
-/

namespace SchemaTypings.Declaration

/-- The characters that separate tokens. -/
def isSeparator (c : Char) : Bool :=
  c = ' ' || c = '\t' || c = '\r' || c = '\n'

/-- The length of the rest of a block comment. -/
def blockRest? : List Char → Option Nat
  | [] => none
  | '*' :: '/' :: _ => some 2
  | _ :: rest => (blockRest? rest).map (· + 1)

/-- The length of the comment that begins here. -/
def commentLength? : List Char → Option Nat
  | '/' :: '*' :: rest => (blockRest? rest).map (· + 2)
  | '/' :: '/' :: rest => some ((rest.takeWhile (· != '\n')).length + 2)
  | _ => none

/-- The length of the rest of a string after its opening quote. A backslash takes the next character
along, which is no line feed; only a template goes over several lines. -/
def stringRest? (quote : Char) : List Char → Option Nat
  | [] => none
  | ['\\'] => none
  | '\\' :: c :: rest => if c = '\n' then none else (stringRest? quote rest).map (· + 2)
  | c :: rest =>
    if c = quote then some 1
    else if c = '\n' && quote != '`' then none
    else (stringRest? quote rest).map (· + 1)

/-- The length of the string that begins here. -/
def stringLength? : List Char → Option Nat
  | [] => none
  | c :: rest =>
    if c = '"' || c = '\'' || c = '`' then (stringRest? c rest).map (· + 1) else none

/-- The length of the fraction that begins here. -/
def fractionLength : List Char → Nat
  | '.' :: rest =>
    match (rest.takeWhile Text.isDecimalDigit).length with
    | 0 => 0
    | n => n + 1
  | _ => 0

/-- The length of the number that begins here. -/
def numberLength (cs : List Char) : Nat :=
  let whole := (cs.takeWhile Text.isDecimalDigit).length
  whole + fractionLength (cs.drop whole)

/-- The sign of several characters that begins here, with its length. -/
def longSign? : List Char → Option (Kind × Nat)
  | '.' :: '.' :: '.' :: _ => some (.ellipsis, 3)
  | '=' :: '>' :: _ => some (.arrow, 2)
  | _ => none

/-- What begins here and how long it is; nothing stands for what is dropped. -/
def scan : List Char → Option Kind × Nat
  | [] => (none, 0)
  | c :: rest =>
    if isSeparator c then (none, 1)
    else if let some n := commentLength? (c :: rest) then (none, n)
    else if let some n := stringLength? (c :: rest) then (some .string, n)
    else if Text.isDecimalDigit c then (some .number, numberLength (c :: rest))
    else if isIdentifierStart c then
      let word := (c :: rest).takeWhile isIdentifierPart
      (some (Kind.ofWord (String.ofList word)), word.length)
    else if let some (kind, n) := longSign? (c :: rest) then (some kind, n)
    else (some (Kind.ofChar c), 1)

/-- The tokens of the text that is left at an offset and a line, after `pending` more characters of
what was read last. -/
def tokensFrom (pending offset line : Nat) : List Char → List Token
  | [] => []
  | c :: rest =>
    let line' := if c = '\n' then line + 1 else line
    match pending with
    | pending + 1 => tokensFrom pending (offset + 1) line' rest
    | 0 =>
      match scan (c :: rest) with
      | (none, n) => tokensFrom (n - 1) (offset + 1) line' rest
      | (some kind, n) =>
        ⟨kind, String.ofList ((c :: rest).take n), line, offset⟩ ::
          tokensFrom (n - 1) (offset + 1) line' rest

/-- The tokens of a text. -/
def tokens (text : String) : List Token :=
  tokensFrom 0 0 1 text.toList

end SchemaTypings.Declaration
