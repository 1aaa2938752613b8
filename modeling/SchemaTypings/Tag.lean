import SchemaTypings.TypeObject

/-!
# Native tags

The closed set of terminal field types. A definition may spell them as a type object or by name;
`Tag.ofType?` and `Tag.ofName?` fold all spellings into the tag.
-/

namespace SchemaTypings

/-- A terminal field type. -/
inductive Tag
  | string | number | boolean | date | buffer | objectId | decimal128 | mixed | map
  deriving DecidableEq, Repr, Inhabited

namespace Tag

/-- The name of a tag. -/
def name : Tag → String
  | .string => "String"
  | .number => "Number"
  | .boolean => "Boolean"
  | .date => "Date"
  | .buffer => "Buffer"
  | .objectId => "ObjectId"
  | .decimal128 => "Decimal128"
  | .mixed => "Mixed"
  | .map => "Map"

/-- All tags. -/
def all : List Tag :=
  [.string, .number, .boolean, .date, .buffer, .objectId, .decimal128, .mixed, .map]

/-- The tag that a name spells; the identifier tag has a second spelling. -/
def ofName? (s : String) : Option Tag :=
  if s = "ObjectID" then some .objectId else all.find? (·.name == s)

/-- Every tag is spelled by its name. -/
theorem ofName?_name (t : Tag) : ofName? t.name = some t := by
  cases t <;> decide

/-- The tag that a type object spells. -/
def ofType? : TypeObject → Option Tag
  | .str => some .string
  | .int | .float => some .number
  | .bool => some .boolean
  | .datetime | .date => some .date
  | .bytes | .bytearray | .buffer => some .buffer
  | .objectId => some .objectId
  | .decimal128 | .decimal => some .decimal128
  | .mixed | .any | .object => some .mixed
  | .map | .dict => some .map
  | _ => none

end Tag

end SchemaTypings
