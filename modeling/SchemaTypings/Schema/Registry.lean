import SchemaTypings.Schema.Basic

/-!
# Schemas under construction

A schema may be embedded in others before all its functions and virtuals are registered, and what is
registered later shows wherever it is embedded. A draft keeps how its schema is built from the
earlier ones and what was registered on it since; `Registry.schemas` settles all drafts in their
order.
-/

namespace SchemaTypings

/-- A named schema that can still be registered on. -/
structure Draft where
  name : String
  /-- The schema, given the settled schemas before it. -/
  build : List (String × Schema) → Option Schema
  /-- What was registered, in order. -/
  registrations : List (Schema → Schema)

/-- The settled schema of a draft. -/
def Draft.settle (d : Draft) (earlier : List (String × Schema)) : Option Schema :=
  (d.build earlier).map fun s => d.registrations.foldl (fun s register => register s) s

/-- The drafts, the latest first. A name that is used again is that of the latest draft. -/
structure Registry where
  drafts : List Draft

namespace Registry

/-- No drafts. -/
def empty : Registry := ⟨[]⟩

/-- The settled schemas of drafts that are given with the latest first. -/
def settleAll : List Draft → List (String × Schema)
  | [] => []
  | d :: earlier =>
    let settled := settleAll earlier
    match d.settle settled with
    | some s => (d.name, s) :: settled
    | none => settled

/-- The settled schemas, the latest first. -/
def schemas (r : Registry) : List (String × Schema) :=
  settleAll r.drafts

/-- The registry with one more draft. -/
def add (r : Registry) (name : String) (build : List (String × Schema) → Option Schema) :
    Registry :=
  ⟨⟨name, build, []⟩ :: r.drafts⟩

/-- The drafts with a registration on the latest of this name. -/
def registerOn (name : String) (registration : Schema → Schema) : List Draft → List Draft
  | [] => []
  | d :: earlier =>
    if d.name = name then { d with registrations := d.registrations ++ [registration] } :: earlier
    else d :: registerOn name registration earlier

/-- The registry with a registration on the latest draft of this name. -/
def register (r : Registry) (name : String) (registration : Schema → Schema) : Registry :=
  ⟨registerOn name registration r.drafts⟩

end Registry

end SchemaTypings
