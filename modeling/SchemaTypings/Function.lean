import SchemaTypings.TypeHint.Basic

/-!
# Functions

What is known of a function that a schema registers: its name, its parameters with their
annotations, the annotation of its result, what the names in these annotations denote where the
function is defined, and a TypeScript signature when one was declared for it.
-/

namespace SchemaTypings

/-- How a parameter takes its arguments. -/
inductive ParameterKind
  | positionalOnly | positional | variadic | keywordOnly | variadicKeyword
  deriving DecidableEq, Repr, Inhabited

/-- A parameter of a function. -/
structure Parameter where
  name : String
  hint : Option TypeHint
  kind : ParameterKind
  hasDefault : Bool
  deriving Repr, Inhabited

/-- A function with its parameters in order. -/
structure Function where
  name : String
  parameters : List Parameter
  result : Option TypeHint
  isCoroutine : Bool
  /-- The signature declared for the function. -/
  signature : Option String
  /-- What the texts and names among the annotations denote where the function is defined. What is
  not listed denotes nothing there. -/
  denotations : List (String × TypeHint) := []
  deriving Repr, Inhabited

/-- What may be registered as a function. -/
inductive Callable
  | function (f : Function)
  /-- A class or builtin of this name; nothing is known of its parameters' types. -/
  | builtin (name : String)
  /-- A value that has no name and cannot be called. -/
  | value
  deriving Repr, Inhabited

/-- The name that a callable brings with it. -/
def Callable.name? : Callable → Option String
  | .function f => some f.name
  | .builtin name => some name
  | .value => none

end SchemaTypings
