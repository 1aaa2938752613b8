/-!
# Type objects

The types and special forms that a schema definition or an annotation may name: builtin classes,
date and number classes, the marker types of schema definitions, abstract containers, and the
container names of the annotation vocabulary. Each has one token by which descriptions refer to it.
-/

namespace SchemaTypings

/-- A type, or a special form of the annotation vocabulary. The `typing…` forms are the vocabulary's
own names without arguments. -/
inductive TypeObject
  | str | int | float | bool | bytes | bytearray | dict | list | tuple | set | frozenset
  | object | complex | type | noneType
  | datetime | date | time | decimal | uuid
  | any | ellipsis | typeVariable | newType
  | objectId | decimal128 | mixed | map | buffer | schemaType
  | sequence | mutableSequence | abstractSet | iterable | collection | mapping | mutableMapping
  | awaitable | coroutine | iterator | callable
  | typingList | typingDict | typingTuple | typingSet | typingSequence | typingMapping
  | typingAwaitable | typingUnion | typingOptional | typingLiteral
  deriving DecidableEq, Repr, Inhabited

namespace TypeObject

/-- The token of a type object, with what it is shown as. The marker types and the abstract
containers are shown as the last entries say. -/
def table : List (TypeObject × String × String) :=
  [(.str, "str", "<class 'str'>"), (.int, "int", "<class 'int'>"),
    (.float, "float", "<class 'float'>"), (.bool, "bool", "<class 'bool'>"),
    (.bytes, "bytes", "<class 'bytes'>"), (.bytearray, "bytearray", "<class 'bytearray'>"),
    (.dict, "dict", "<class 'dict'>"), (.list, "list", "<class 'list'>"),
    (.tuple, "tuple", "<class 'tuple'>"), (.set, "set", "<class 'set'>"),
    (.frozenset, "frozenset", "<class 'frozenset'>"), (.object, "object", "<class 'object'>"),
    (.complex, "complex", "<class 'complex'>"), (.type, "type", "<class 'type'>"),
    (.noneType, "NoneType", "<class 'NoneType'>"),
    (.datetime, "datetime", "<class 'datetime.datetime'>"),
    (.date, "date", "<class 'datetime.date'>"), (.time, "time", "<class 'datetime.time'>"),
    (.decimal, "Decimal", "<class 'decimal.Decimal'>"), (.uuid, "UUID", "<class 'uuid.UUID'>"),
    (.any, "Any", "typing.Any"), (.ellipsis, "Ellipsis", "Ellipsis"),
    (.typeVariable, "TypeVar", "~T"), (.newType, "NewType", "NewType"),
    (.objectId, "ObjectId", "<class 'mongots._internal._tags.ObjectId'>"),
    (.decimal128, "Decimal128", "<class 'mongots._internal._tags.Decimal128'>"),
    (.mixed, "Mixed", "<class 'mongots._internal._tags.Mixed'>"),
    (.map, "Map", "<class 'mongots._internal._tags.Map'>"),
    (.buffer, "Buffer", "<class 'mongots._internal._tags.Buffer'>"),
    (.schemaType, "SchemaType", "<class 'mongots._internal._tags.SchemaType'>"),
    (.sequence, "Sequence", "<class 'collections.abc.Sequence'>"),
    (.mutableSequence, "MutableSequence", "<class 'collections.abc.MutableSequence'>"),
    (.abstractSet, "Set", "<class 'collections.abc.Set'>"),
    (.iterable, "Iterable", "<class 'collections.abc.Iterable'>"),
    (.collection, "Collection", "<class 'collections.abc.Collection'>"),
    (.mapping, "Mapping", "<class 'collections.abc.Mapping'>"),
    (.mutableMapping, "MutableMapping", "<class 'collections.abc.MutableMapping'>"),
    (.awaitable, "Awaitable", "<class 'collections.abc.Awaitable'>"),
    (.coroutine, "Coroutine", "<class 'collections.abc.Coroutine'>"),
    (.iterator, "Iterator", "<class 'collections.abc.Iterator'>"),
    (.callable, "Callable", "<class 'collections.abc.Callable'>"),
    (.typingList, "typing.List", "typing.List"), (.typingDict, "typing.Dict", "typing.Dict"),
    (.typingTuple, "typing.Tuple", "typing.Tuple"), (.typingSet, "typing.Set", "typing.Set"),
    (.typingSequence, "typing.Sequence", "typing.Sequence"),
    (.typingMapping, "typing.Mapping", "typing.Mapping"),
    (.typingAwaitable, "typing.Awaitable", "typing.Awaitable"),
    (.typingUnion, "typing.Union", "typing.Union"),
    (.typingOptional, "typing.Optional", "typing.Optional"),
    (.typingLiteral, "typing.Literal", "typing.Literal")]

/-- The token of a type object. -/
def token (t : TypeObject) : String :=
  ((table.lookup t).map Prod.fst).getD ""

/-- What a type object is shown as. -/
def display (t : TypeObject) : String :=
  ((table.lookup t).map Prod.snd).getD ""

/-- The type object of a token. -/
def ofToken? (token : String) : Option TypeObject :=
  (table.find? fun (_, name, _) => name == token).map Prod.fst

/-- Every type object is found under its token. -/
theorem ofToken?_token (t : TypeObject) : ofToken? t.token = some t := by
  cases t <;> decide

/-- The class that a container name of the annotation vocabulary stands for. -/
def origin? : TypeObject → Option TypeObject
  | .typingList => some .list
  | .typingDict => some .dict
  | .typingTuple => some .tuple
  | .typingSet => some .set
  | .typingSequence => some .sequence
  | .typingMapping => some .mapping
  | .typingAwaitable => some .awaitable
  | _ => none

/-- The class itself, or the class that the name stands for. -/
def origin (t : TypeObject) : TypeObject :=
  t.origin?.getD t

/-- Whether the object is a class. The abstract containers are classes and the vocabulary's own
names are not; `any` counts as one. -/
def isClass : TypeObject → Bool
  | .ellipsis | .typeVariable | .newType => false
  | .typingList | .typingDict | .typingTuple | .typingSet | .typingSequence | .typingMapping
  | .typingAwaitable | .typingUnion | .typingOptional | .typingLiteral => false
  | _ => true

/-- The shapes of the containers that annotations are made of. -/
inductive Container
  | sequence | tuple | mapping | awaitable
  deriving DecidableEq, Repr

/-- The container that a class is. -/
def container? : TypeObject → Option Container
  | .list | .set | .frozenset | .sequence | .mutableSequence | .abstractSet | .iterable
  | .collection => some .sequence
  | .tuple => some .tuple
  | .dict | .mapping | .mutableMapping => some .mapping
  | .awaitable | .coroutine => some .awaitable
  | _ => none

end TypeObject

end SchemaTypings
