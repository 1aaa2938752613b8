/-!
# Lines and indentation

A text is cut into lines at every character or pair of characters that ends one, and each line keeps
its ending. `indent` puts a lead before every line that holds more than blanks; `flatten_lines` says
that cutting loses nothing.
-/

namespace SchemaTypings.Text

/-- The blank characters, line endings included. -/
def isBlank (c : Char) : Bool :=
  let n := c.toNat
  (9 ≤ n && n ≤ 13) || (28 ≤ n && n ≤ 32) || n == 0x85 || n == 0xA0 || n == 0x1680 ||
    (0x2000 ≤ n && n ≤ 0x200A) || n == 0x2028 || n == 0x2029 || n == 0x202F || n == 0x205F ||
    n == 0x3000

/-- The characters that end a line. -/
def isLineBreak (c : Char) : Bool :=
  let n := c.toNat
  (10 ≤ n && n ≤ 13) || (28 ≤ n && n ≤ 30) || n == 0x85 || n == 0x2028 || n == 0x2029

/-- Puts a character in front of the first line. -/
def extendFirst (c : Char) : List (List Char) → List (List Char)
  | [] => [[c]]
  | line :: rest => (c :: line) :: rest

/-- The lines of a text with their endings; a carriage return and a line feed end one line. -/
def lines : List Char → List (List Char)
  | [] => []
  | '\r' :: '\n' :: rest => ['\r', '\n'] :: lines rest
  | c :: rest => if isLineBreak c then [c] :: lines rest else extendFirst c (lines rest)

theorem flatten_extendFirst (c : Char) (ls : List (List Char)) :
    (extendFirst c ls).flatten = c :: ls.flatten := by
  cases ls <;> simp [extendFirst]

/-- The lines of a text make up the text. -/
theorem flatten_lines (cs : List Char) : (lines cs).flatten = cs := by
  fun_induction lines cs with
  | case1 => rfl
  | case2 rest ih => simp [ih]
  | case3 c rest _ _ ih => simp [ih]
  | case4 c rest _ _ ih => simp [flatten_extendFirst, ih]

/-- Puts `lead` before every line that is not blank. -/
def indentChars (lead : List Char) (cs : List Char) : List Char :=
  (lines cs).flatMap fun line => if line.all isBlank then line else lead ++ line

/-- Puts `lead` before every line that is not blank. -/
def indent (lead : String) (s : String) : String :=
  String.ofList (indentChars lead.toList s.toList)

/-- Without a lead the text stays as it is. -/
theorem indentChars_nil (cs : List Char) : indentChars [] cs = cs := by
  have h : indentChars [] cs = (lines cs).flatMap id := by
    simp [indentChars]
  rw [h, List.flatMap_id, flatten_lines]

end SchemaTypings.Text
