import SchemaTypings.TypeObject

/-!
# Type hints

The annotations of functions with types. A union is built by `TypeHint.unionOf`, which flattens
nested unions and drops repeated members, so that one member alone is no union.
-/

namespace SchemaTypings

/-- A value of a literal type. -/
inductive LiteralValue
  | null
  | bool (b : Bool)
  | int (i : Int)
  | real (text : String)
  | text (s : String)
  /-- A value of another kind, such as bytes or a member of an enumeration, by its text. -/
  | other (text : String)
  deriving DecidableEq, Repr

/-- The two spellings of a union: members between bars, and members of the vocabulary's union. -/
inductive UnionSpelling
  | bars | named
  deriving DecidableEq, Repr

/-- A type annotation. -/
inductive TypeHint
  /-- The annotation of what is nothing. -/
  | nothing
  /-- A text that was not evaluated. -/
  | text (s : String)
  /-- A reference by name that was not evaluated. -/
  | forward (s : String)
  /-- A number or a truth value, which is no type. -/
  | constant
  | type (t : TypeObject)
  | generic (head : TypeObject) (arguments : List TypeHint)
  | function (parameters : List TypeHint) (result : TypeHint)
  | union (spelling : UnionSpelling) (members : List TypeHint)
  | literal (values : List LiteralValue)
  /-- An annotation with metadata. -/
  | annotated (inner : TypeHint)
  /-- A named alias. -/
  | alias (target : TypeHint)
  deriving Repr, Inhabited

namespace TypeHint

mutual
/-- Whether two annotations are equal. Literals and unions are equal as sets. -/
def same : TypeHint → TypeHint → Bool
  | .nothing, .nothing => true
  | .text s, .text t => s == t
  | .forward s, .forward t => s == t
  | .constant, .constant => true
  | .type s, .type t => s == t
  | .generic h as, .generic k bs => h == k && sameAll as bs
  | .function ps r, .function qs s => sameAll ps qs && same r s
  | .union _ ms, .union _ ns => ms.length == ns.length && subset ms ns
  | .literal vs, .literal ws => vs.all ws.contains && ws.all vs.contains
  | .annotated a, .annotated b => same a b
  | .alias a, .alias b => same a b
  | _, _ => false
  termination_by structural a => a

/-- Whether two lists of annotations are equal, one by one. -/
def sameAll : List TypeHint → List TypeHint → Bool
  | [], [] => true
  | a :: as, b :: bs => same a b && sameAll as bs
  | _, _ => false
  termination_by structural as => as

/-- Whether each of the first has an equal among the second. -/
def subset : List TypeHint → List TypeHint → Bool
  | [], _ => true
  | a :: as, bs => bs.any (same a) && subset as bs
  termination_by structural as => as
end

/-- The annotations without the repeated ones; the first of equal ones stays. -/
def dropRepeated (as : List TypeHint) : List TypeHint :=
  (as.foldl (fun kept a => if kept.any (same a) then kept else a :: kept) []).reverse

/-- What an annotation contributes to a union: the members of a union, a name for a text. -/
def unionMembers : TypeHint → List TypeHint
  | .union _ members => members
  | .text s => [.forward s]
  | .type .noneType => [.nothing]
  | a => [a]

/-- The union of some annotations. -/
def unionOf (spelling : UnionSpelling) (as : List TypeHint) : TypeHint :=
  match dropRepeated (as.flatMap unionMembers) with
  | [a] => a
  | members => .union spelling members

/-- Whether an annotation may stand between bars and leave the union one of bars. -/
def isBarMember : TypeHint → Bool
  | .nothing => true
  | .type t => t.isClass
  | .generic head _ => head.origin?.isNone
  | .function _ _ => true
  | .union .bars _ => true
  | _ => false

/-- The union written with bars; one member that is a construct of the vocabulary makes it the
vocabulary's union. -/
def ofBars (as : List TypeHint) : TypeHint :=
  unionOf (if as.all isBarMember then .bars else .named) as

/-- The vocabulary's union. -/
def ofUnion (as : List TypeHint) : TypeHint :=
  unionOf .named as

/-- The annotation or nothing. -/
def ofOptional (a : TypeHint) : TypeHint :=
  ofUnion [a, .nothing]

/-- Whether the annotation is nothing, or the type of nothing. -/
def isNone : TypeHint → Bool
  | .nothing => true
  | .type t => t == .noneType
  | _ => false

/-- Whether the annotation is a generic form: a class or name with arguments, a container name of
the vocabulary, a literal, an annotation with metadata, or the vocabulary's union. -/
def isGeneric : TypeHint → Bool
  | .type t => t.origin?.isSome
  | .generic _ _ | .function _ _ | .literal _ | .annotated _ => true
  | .union spelling _ => spelling == .named
  | _ => false

/-- Whether the annotation is a named alias. -/
def isAlias : TypeHint → Bool
  | .alias _ => true
  | _ => false

/-- Whether the annotation carries metadata. -/
def isAnnotated : TypeHint → Bool
  | .annotated _ => true
  | _ => false

/-- Whether the annotation is a literal type. -/
def isLiteral : TypeHint → Bool
  | .literal _ => true
  | _ => false

/-- Whether the annotation is a reference by name. -/
def isForward : TypeHint → Bool
  | .forward _ => true
  | _ => false

/-- Whether the annotation is a union of either spelling. -/
def isUnion : TypeHint → Bool
  | .union _ _ => true
  | _ => false

end TypeHint

end SchemaTypings
