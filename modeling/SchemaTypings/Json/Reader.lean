import SchemaTypings.Json.Value
import SchemaTypings.Entries

/-!
# Reading JSON

A reader takes the text that is left and gives a value and what follows it, or a fault and the text
left at the place of the fault; places become line and column only in the message. Beside the values
of the standard, the words `NaN`, `Infinity` and `-Infinity` are read as numbers. A member that is
given twice keeps its first place and takes its last value.
-/

namespace SchemaTypings.Json

/-- Why a text is not JSON. -/
inductive Fault
  | byteOrderMark
  | expectingValue
  | expectingName
  | expectingColon
  | expectingComma
  | extraData
  | unterminatedString
  | controlCharacter
  | badEscape
  | badUnitEscape
  | tooManyDigits (digits : Nat)
  deriving DecidableEq, Repr

/-- What is wrong, without the place. -/
def Fault.text : Fault → String
  | .byteOrderMark => "Unexpected UTF-8 BOM (decode using utf-8-sig)"
  | .expectingValue => "Expecting value"
  | .expectingName => "Expecting property name enclosed in double quotes"
  | .expectingColon => "Expecting ':' delimiter"
  | .expectingComma => "Expecting ',' delimiter"
  | .extraData => "Extra data"
  | .unterminatedString => "Unterminated string starting at"
  | .controlCharacter => "Invalid control character at"
  | .badEscape => "Invalid \\escape"
  | .badUnitEscape => "Invalid \\uXXXX escape"
  | .tooManyDigits digits =>
    "Exceeds the limit (4300 digits) for integer string conversion: " ++
      s!"value has {digits} digits; " ++
      "use sys.set_int_max_str_digits() to increase the limit"

/-- A fault and the text left where it was found. -/
structure Misread where
  fault : Fault
  left : List Char
  deriving DecidableEq, Repr

/-- A fault with its offset in the text and the line and column of that offset. -/
structure ReadError where
  fault : Fault
  line : Nat
  column : Nat
  offset : Nat
  deriving DecidableEq, Repr

/-- The message of a read error. A number with too many digits has no place. -/
def ReadError.message (e : ReadError) : String :=
  match e.fault with
  | .tooManyDigits _ => e.fault.text
  | _ => s!"{e.fault.text}: line {e.line} column {e.column} (char {e.offset})"

/-- The place of a misread in the whole text: lines count from one, and so do the columns. -/
def Misread.locate (text : List Char) (m : Misread) : ReadError :=
  let offset := text.length - m.left.length
  let before := text.take offset
  { fault := m.fault
    line := before.count '\n' + 1
    column := (before.reverse.takeWhile (· != '\n')).length + 1
    offset }

/-- What a reader gives: a value and the text after it. -/
abbrev Reading (α : Type) := Except Misread (α × List Char)

/-- The four characters that may stand between the parts of a value. -/
def isSpace (c : Char) : Bool :=
  c = ' ' || c = '\t' || c = '\n' || c = '\r'

/-- The text after the space in front of it. -/
def skipSpace (cs : List Char) : List Char :=
  cs.dropWhile isSpace

/-! ## Strings -/

/-- The value of a hexadecimal digit. -/
def hexValue? (c : Char) : Option Nat :=
  if '0' ≤ c && c ≤ '9' then some (c.toNat - 48)
  else if 'a' ≤ c && c ≤ 'f' then some (c.toNat - 87)
  else if 'A' ≤ c && c ≤ 'F' then some (c.toNat - 55)
  else none

/-- The value of four hexadecimal digits. -/
def unitValue? (a b c d : Char) : Option Nat := do
  return (((← hexValue? a) * 16 + (← hexValue? b)) * 16 + (← hexValue? c)) * 16 + (← hexValue? d)

/-- The character that a letter stands for after a backslash. -/
def unescape? : Char → Option Char
  | '"' => some '"'
  | '\\' => some '\\'
  | '/' => some '/'
  | 'b' => some '\x08'
  | 'f' => some '\x0c'
  | 'n' => some '\n'
  | 'r' => some '\r'
  | 't' => some '\t'
  | _ => none

/-- A piece of a string literal: a character, or an escaped UTF-16 unit. -/
inductive Piece
  | char (c : Char)
  | unit (n : Nat)
  deriving DecidableEq, Repr

/-- The pieces of a string literal after its opening quote; `opening` is the text from that quote
on. The escape of a unit has four digits and does not end the text. -/
def readPieces (opening : List Char) : List Char → Reading (List Piece)
  | [] => .error ⟨.unterminatedString, opening⟩
  | '"' :: rest => .ok ([], rest)
  | ['\\'] => .error ⟨.unterminatedString, opening⟩
  | '\\' :: 'u' :: a :: b :: c :: d :: rest =>
    match unitValue? a b c d with
    | some n =>
      if rest.isEmpty then .error ⟨.badUnitEscape, 'u' :: a :: b :: c :: d :: rest⟩
      else (readPieces opening rest).map fun (pieces, left) => (.unit n :: pieces, left)
    | none => .error ⟨.badUnitEscape, 'u' :: a :: b :: c :: d :: rest⟩
  | '\\' :: c :: rest =>
    if c = 'u' then .error ⟨.badUnitEscape, c :: rest⟩
    else
      match unescape? c with
      | some meant =>
        (readPieces opening rest).map fun (pieces, left) => (.char meant :: pieces, left)
      | none => .error ⟨.badEscape, '\\' :: c :: rest⟩
  | c :: rest =>
    if c.toNat < 0x20 then .error ⟨.controlCharacter, c :: rest⟩
    else (readPieces opening rest).map fun (pieces, left) => (.char c :: pieces, left)

/-- The text of the pieces: a high and a low surrogate unit in a row make one character. A unit that
is left alone is no character, and the replacement character stands for it: texts that differ in
such units only have the same text here (`hasUnpaired` says when there are any). -/
def joinPieces : List Piece → List Char
  | [] => []
  | .char c :: rest => c :: joinPieces rest
  | .unit high :: .unit low :: rest =>
    if 0xD800 ≤ high && high < 0xDC00 && 0xDC00 ≤ low && low < 0xE000 then
      Char.ofNat (0x10000 + (high - 0xD800) * 0x400 + (low - 0xDC00)) :: joinPieces rest
    else if 0xD800 ≤ high && high < 0xE000 then '\uFFFD' :: joinPieces (.unit low :: rest)
    else Char.ofNat high :: joinPieces (.unit low :: rest)
  | .unit n :: rest =>
    (if 0xD800 ≤ n && n < 0xE000 then '\uFFFD' else Char.ofNat n) :: joinPieces rest

/-- Whether a surrogate unit is left alone among the pieces. -/
def hasUnpaired : List Piece → Bool
  | [] => false
  | .char _ :: rest => hasUnpaired rest
  | .unit high :: .unit low :: rest =>
    if 0xD800 ≤ high && high < 0xDC00 && 0xDC00 ≤ low && low < 0xE000 then hasUnpaired rest
    else if 0xD800 ≤ high && high < 0xE000 then true
    else hasUnpaired (.unit low :: rest)
  | .unit n :: rest => (0xD800 ≤ n && n < 0xE000) || hasUnpaired rest

/-- The value of a string literal. -/
def textValue (pieces : List Piece) : Value :=
  let shown := String.ofList (joinPieces pieces)
  if hasUnpaired pieces then .unpaired shown else .text shown

/-- A string literal after its opening quote. -/
def readString (opening rest : List Char) : Reading String :=
  (readPieces opening rest).map fun (pieces, left) => (String.ofList (joinPieces pieces), left)

/-! ## Numbers -/

/-- The most digits that an integer may have. -/
def maxDigits : Nat := 4300

/-- The value of decimal digits. -/
def decimalValue (digits : List Char) : Nat :=
  digits.foldl (fun n c => n * 10 + (c.toNat - 48)) 0

/-- The digits of the whole part of a number: none after a leading zero. -/
def wholeDigits : List Char → List Char
  | '0' :: _ => ['0']
  | cs => cs.takeWhile Char.isDigit

/-- A point and the digits after it, when there is at least one. -/
def fractionPart : List Char → List Char
  | '.' :: rest =>
    match rest.takeWhile Char.isDigit with
    | [] => []
    | digits => '.' :: digits
  | _ => []

/-- The sign of an exponent. -/
def exponentSign : List Char → List Char
  | '-' :: _ => ['-']
  | '+' :: _ => ['+']
  | _ => []

/-- An exponent, when it has at least one digit. -/
def exponentPart : List Char → List Char
  | c :: rest =>
    if c = 'e' || c = 'E' then
      let sign := exponentSign rest
      match (rest.drop sign.length).takeWhile Char.isDigit with
      | [] => []
      | digits => c :: sign ++ digits
    else []
  | [] => []

/-- A number, `start` being the text from its sign on and `rest` the text after the sign. -/
def readNumber (start : List Char) (negative : Bool) (rest : List Char) : Reading Value :=
  match wholeDigits rest with
  | [] => .error ⟨.expectingValue, start⟩
  | whole =>
    let afterWhole := rest.drop whole.length
    let fraction := fractionPart afterWhole
    let afterFraction := afterWhole.drop fraction.length
    let exponent := exponentPart afterFraction
    let left := afterFraction.drop exponent.length
    if fraction.isEmpty && exponent.isEmpty then
      if whole.length > maxDigits then .error ⟨.tooManyDigits whole.length, start⟩
      else
        let n := decimalValue whole
        .ok (.int (if negative then -n else n), left)
    else
      let sign := if negative then ['-'] else []
      .ok (.real (String.ofList (sign ++ whole ++ fraction ++ exponent)), left)

/-! ## Values -/

/-- The value that a word stands for, with the text after the word. -/
def readWord? (cs : List Char) : Option (Value × List Char) :=
  [("null", Value.null), ("true", .bool true), ("false", .bool false), ("NaN", .real "NaN"),
    ("Infinity", .real "Infinity"), ("-Infinity", .real "-Infinity")].findSome? fun (word, v) =>
    if word.toList.isPrefixOf cs then some (v, cs.drop word.length) else none

mutual
/-- A value; the first argument bounds the nesting and the number of items. -/
def readValue : Nat → List Char → Reading Value
  | 0, cs => .error ⟨.expectingValue, cs⟩
  | fuel + 1, cs =>
    match cs with
    | '"' :: rest => (readPieces cs rest).map fun (pieces, left) => (textValue pieces, left)
    | '\x7b' :: rest =>
      match skipSpace rest with
      | '\x7d' :: left => .ok (.object [], left)
      | start => (readMembers fuel [] start).map fun (members, left) => (.object members, left)
    | '[' :: rest =>
      match skipSpace rest with
      | ']' :: left => .ok (.array [], left)
      | start => (readItems fuel start).map fun (items, left) => (.array items, left)
    | _ =>
      match readWord? cs with
      | some reading => .ok reading
      | none =>
        match cs with
        | '-' :: rest => readNumber cs true rest
        | _ => readNumber cs false cs

/-- The items of an array up to its closing bracket. -/
def readItems : Nat → List Char → Except Misread (List Value × List Char)
  | 0, cs => .error ⟨.expectingValue, cs⟩
  | fuel + 1, cs => do
    let (v, afterValue) ← readValue fuel cs
    match skipSpace afterValue with
    | ']' :: left => return ([v], left)
    | ',' :: rest =>
      let (items, left) ← readItems fuel (skipSpace rest)
      return (v :: items, left)
    | other => .error ⟨.expectingComma, other⟩

/-- The members of an object up to its closing brace, added to those before them. -/
def readMembers : Nat → List (String × Value) → List Char →
    Except Misread (List (String × Value) × List Char)
  | 0, _, cs => .error ⟨.expectingName, cs⟩
  | fuel + 1, before, cs =>
    match cs with
    | '"' :: rest => do
      let (name, afterName) ← readString cs rest
      match skipSpace afterName with
      | ':' :: rest =>
        let (v, afterValue) ← readValue fuel (skipSpace rest)
        let members := Entries.put before name v
        match skipSpace afterValue with
        | '\x7d' :: left => return (members, left)
        | ',' :: rest => readMembers fuel members (skipSpace rest)
        | other => .error ⟨.expectingComma, other⟩
      | other => .error ⟨.expectingColon, other⟩
    | other => .error ⟨.expectingName, other⟩
end

/-- The value that a whole text holds. -/
def readText (cs : List Char) : Except Misread Value :=
  match cs with
  | '\uFEFF' :: _ => .error ⟨.byteOrderMark, cs⟩
  | _ => do
    let (v, left) ← readValue (2 * cs.length + 2) (skipSpace cs)
    match skipSpace left with
    | [] => return v
    | extra => .error ⟨.extraData, extra⟩

/-- Reads a text. -/
def read (s : String) : Except ReadError Value :=
  (readText s.toList).mapError (Misread.locate s.toList)

/-- The text that a string literal stands for, with nothing but space around it. The replacement
character stands for surrogate units that are left alone. -/
def unquote (s : String) : Except ReadError String := do
  match (← read s).text? with
  | some t => return t
  | none => .error (Misread.locate s.toList ⟨.expectingValue, s.toList⟩)

end SchemaTypings.Json
