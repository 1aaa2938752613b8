import SchemaTypings.TypeHint.Basic

/-!
# Evaluating annotations

The annotations of a function are evaluated together: texts and names become what they denote where
the function is defined, and metadata is dropped. When one of them denotes nothing there, none is
evaluated.
-/

namespace SchemaTypings.TypeHint

section Evaluation

variable (denotes : String → Option TypeHint)

mutual
/-- The annotation with all texts and names evaluated. The target of an alias is left alone. -/
def evaluate? : TypeHint → Option TypeHint
  | .text s => denotes s
  | .forward s => denotes s
  | .generic head arguments => (evaluateAll? arguments).map (.generic head)
  | .function parameters result => do
    return .function (← evaluateAll? parameters) (← result.evaluate?)
  | .union spelling members => (evaluateAll? members).map (unionOf spelling)
  | .annotated inner => (inner.evaluate?).map .annotated
  | .nothing => some .nothing
  | .constant => some .constant
  | .type t => some (.type t)
  | .literal values => some (.literal values)
  | .alias target => some (.alias target)
  termination_by structural a => a

/-- All annotations evaluated. -/
def evaluateAll? : List TypeHint → Option (List TypeHint)
  | [] => some []
  | a :: rest => do return (← a.evaluate?) :: (← evaluateAll? rest)
  termination_by structural as => as
end

end Evaluation

mutual
/-- The annotation without metadata. -/
def dropMetadata : TypeHint → TypeHint
  | .annotated inner => inner.dropMetadata
  | .generic head arguments => .generic head (dropMetadataAll arguments)
  | .function parameters result => .function (dropMetadataAll parameters) result.dropMetadata
  | .union spelling members => unionOf spelling (dropMetadataAll members)
  | .nothing => .nothing
  | .text s => .text s
  | .forward s => .forward s
  | .constant => .constant
  | .type t => .type t
  | .literal values => .literal values
  | .alias target => .alias target
  termination_by structural a => a

/-- The annotations without metadata. -/
def dropMetadataAll : List TypeHint → List TypeHint
  | [] => []
  | a :: rest => a.dropMetadata :: dropMetadataAll rest
  termination_by structural as => as
end

/-- Named annotations with what they denote, or as they are when one of them denotes nothing. -/
def hints (denotes : String → Option TypeHint) (named : List (String × TypeHint)) :
    List (String × TypeHint) :=
  match evaluateAll? denotes (named.map Prod.snd) with
  | some as => (named.map Prod.fst).zip (dropMetadataAll as)
  | none => named

end SchemaTypings.TypeHint
