import SchemaTypings.Text.Printable

/-!
# Quoted texts in messages

A text that a message quotes stands between apostrophes, or between double quotes when it holds an
apostrophe and no double quote. The quote in use and the backslash are escaped, and so is every
character that is not printable.
-/

namespace SchemaTypings.Text

/-- The last `width` hexadecimal digits of `n`, in lower case. -/
def hexDigits : Nat → Nat → List Char
  | 0, _ => []
  | width + 1, n => hexDigits width (n / 16) ++ [Nat.digitChar (n % 16)]

/-- How a quoted text writes one character. -/
def quotedChar (quote c : Char) : List Char :=
  if c = quote || c = '\\' then ['\\', c]
  else if c = '\t' then ['\\', 't']
  else if c = '\n' then ['\\', 'n']
  else if c = '\r' then ['\\', 'r']
  else if isPrintable c then [c]
  else if c.toNat < 0x100 then '\\' :: 'x' :: hexDigits 2 c.toNat
  else if c.toNat < 0x10000 then '\\' :: 'u' :: hexDigits 4 c.toNat
  else '\\' :: 'U' :: hexDigits 8 c.toNat

/-- The quote that a text is put in. -/
def quoteFor (cs : List Char) : Char :=
  if '\'' ∈ cs && !('"' ∈ cs) then '"' else '\''

/-- The text in quotes. -/
def quoted (s : String) : String :=
  let quote := quoteFor s.toList
  String.ofList (quote :: s.toList.flatMap (quotedChar quote) ++ [quote])

end SchemaTypings.Text
