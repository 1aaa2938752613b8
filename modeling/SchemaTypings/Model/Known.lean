import SchemaTypings.Signature

/-!
# Known types of a model

The signatures of the functions of a schema and the types of its virtuals, as far as annotations or
declarations give them.
-/

namespace SchemaTypings

/-- What is known of the members of a model, by their names. -/
structure KnownTypes where
  methods : List (String × String)
  statics : List (String × String)
  query : List (String × String)
  virtuals : List (String × String)
  deriving DecidableEq, Repr, Inhabited

namespace KnownTypes

/-- The known signatures in a role. -/
def signatures (k : KnownTypes) : Role → List (String × String)
  | .methods => k.methods
  | .statics => k.statics
  | .query => k.query

/-- Whether nothing is known. -/
def isEmpty (k : KnownTypes) : Bool :=
  k.methods.isEmpty && k.statics.isEmpty && k.query.isEmpty && k.virtuals.isEmpty

end KnownTypes

/-- The known signatures of the declared functions in a role. -/
def Schema.knownSignatures (s : Schema) (role : Role) : List (String × String) :=
  (s.functions role).filterMap fun (name, fn) =>
    if name = timestampsInit then none else fn.signatureText?.map (name, ·)

/-- The known types of the virtuals. -/
def Schema.knownVirtuals (s : Schema) : List (String × String) :=
  s.virtuals.filterMap fun (name, v) => v.knownType?.map (name, ·)

/-- What is known of a schema. -/
def Schema.knownTypes (s : Schema) : KnownTypes :=
  { methods := s.knownSignatures .methods
    statics := s.knownSignatures .statics
    query := s.knownSignatures .query
    virtuals := s.knownVirtuals }

/-- What is known of some models; those of which nothing is known are left out. -/
def knownTypes (schemas : List (String × Schema)) : List (String × KnownTypes) :=
  schemas.filterMap fun (name, s) =>
    let k := s.knownTypes
    if k.isEmpty then none else some (name, k)

end SchemaTypings
