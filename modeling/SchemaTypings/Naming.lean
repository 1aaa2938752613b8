import SchemaTypings.Json.Value
import SchemaTypings.Text.Case
import SchemaTypings.Tree

/-!
# Names in declarations

`subDocumentName` derives the name of a sub-document's interface from its path, and `propertyKey`
writes the name of a property: as it is when it is an identifier, and as a string literal otherwise.
-/

namespace SchemaTypings

/-- Whether a character may begin an identifier. -/
def isIdentifierStart (c : Char) : Bool :=
  ('A' ≤ c && c ≤ 'Z') || ('a' ≤ c && c ≤ 'z') || c = '_' || c = '$'

/-- Whether a character may stand inside an identifier. -/
def isIdentifierPart (c : Char) : Bool :=
  isIdentifierStart c || ('0' ≤ c && c ≤ '9')

/-- Whether a text is an identifier, with at most one line feed after it. -/
def isIdentifierLine : List Char → Bool
  | [] => false
  | c :: rest =>
    isIdentifierStart c &&
      match rest.dropWhile isIdentifierPart with
      | [] | ['\n'] => true
      | _ => false

/-- How a declaration writes the name of a property. -/
def propertyKey (key : String) : String :=
  if isIdentifierLine key.toList then key else Json.quote key

/-- The text without the one `s` that it may end in. -/
def dropPlural (s : String) : String :=
  match s.toList.reverse with
  | 's' :: rest => String.ofList rest.reverse
  | _ => s

/-- The name of the interface of a sub-document: the owner's name, then the segments of the path
with capitals, without a plural ending. -/
def subDocumentName (path owner : String) : String :=
  dropPlural (owner ++ String.join ((pathSegments path).map Text.capitalize))

end SchemaTypings
