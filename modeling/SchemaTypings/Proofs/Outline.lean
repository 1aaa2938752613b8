import SchemaTypings.Declaration.Source

/-!
# Outlines of files

An outline is what the statements of a file say, with the text of every type in the place of its
span. Two files with the same outline declare the same things with the same types, wherever these
stand in the files.
-/

namespace SchemaTypings.Declaration

/-- A property with the text of its type. -/
structure PropertyOutline where
  name : String
  isOptional : Bool
  type : String
  deriving DecidableEq, Repr

/-- A statement with the texts of the types of its properties. -/
inductive Outline
  | interface (name : String) (isExported : Bool) (properties : List PropertyOutline)
  | alias (name : String) (isExported : Bool) (properties : Option (List PropertyOutline))
  | module (name : String) (statements : List Outline)
  deriving Repr

/-- A property with the text that is given as its type. -/
def Property.outline (type : Property → String) (p : Property) : PropertyOutline :=
  ⟨p.name, p.isOptional, type p⟩

mutual
/-- A statement with the texts that are given as the types of its properties. -/
def Statement.outline (type : Property → String) : Statement → Outline
  | .interface name isExported properties =>
    .interface name isExported (properties.map (Property.outline type))
  | .alias name isExported properties =>
    .alias name isExported (properties.map (List.map (Property.outline type)))
  | .module name statements => .module name (outlines type statements)

/-- Statements with the texts that are given as the types of their properties. -/
def outlines (type : Property → String) : List Statement → List Outline
  | [] => []
  | s :: rest => s.outline type :: outlines type rest
end

/-- The outline of a file. -/
def SourceFile.outline (f : SourceFile) : List Outline :=
  outlines f.typeText f.statements

mutual
/-- The properties of a statement; those of a module block are the ones of its statements. -/
def Statement.properties : Statement → List Property
  | .interface _ _ properties => properties
  | .alias _ _ properties => properties.getD []
  | .module _ statements => allProperties statements

/-- The properties of some statements, in order. -/
def allProperties : List Statement → List Property
  | [] => []
  | s :: rest => s.properties ++ allProperties rest
end

@[simp] theorem outlines_append (type : Property → String) (ss ts : List Statement) :
    outlines type (ss ++ ts) = outlines type ss ++ outlines type ts := by
  induction ss with
  | nil => rfl
  | cons s ss ih => simp [outlines, ih]

@[simp] theorem allProperties_append (ss ts : List Statement) :
    allProperties (ss ++ ts) = allProperties ss ++ allProperties ts := by
  induction ss with
  | nil => rfl
  | cons s ss ih => simp [allProperties, ih]

mutual
/-- The outline of a statement only asks for the types of its properties. -/
theorem Statement.outline_congr (s : Statement) {f g : Property → String}
    (h : ∀ p ∈ s.properties, f p = g p) : s.outline f = s.outline g := by
  have hmap : ∀ ps : List Property, (∀ p ∈ ps, f p = g p) →
      ps.map (Property.outline f) = ps.map (Property.outline g) := fun ps hps =>
    List.map_congr_left fun p hp => by simp [Property.outline, hps p hp]
  cases s with
  | interface name isExported properties => simp [Statement.outline, hmap properties h]
  | «alias» name isExported properties =>
    cases properties with
    | none => rfl
    | some properties => simp [Statement.outline, hmap properties h]
  | module name statements => simp [Statement.outline, outlines_congr statements h]

/-- The outlines of some statements only ask for the types of their properties. -/
theorem outlines_congr (ss : List Statement) {f g : Property → String}
    (h : ∀ p ∈ allProperties ss, f p = g p) : outlines f ss = outlines g ss := by
  cases ss with
  | nil => rfl
  | cons s ss =>
    rw [outlines, outlines, s.outline_congr fun p hp => h p (by simp [allProperties, hp]),
      outlines_congr ss fun p hp => h p (by simp [allProperties, hp])]
end

/-! ## Other properties -/

mutual
/-- A statement with other properties in the places of its own. -/
def Statement.mapProperties (f : Property → Property) : Statement → Statement
  | .interface name isExported properties => .interface name isExported (properties.map f)
  | .alias name isExported properties => .alias name isExported (properties.map (List.map f))
  | .module name statements => .module name (mapProperties f statements)

/-- Statements with other properties in the places of their own. -/
def mapProperties (f : Property → Property) : List Statement → List Statement
  | [] => []
  | s :: rest => s.mapProperties f :: mapProperties f rest
end

section MapProperties

variable {f : Property → Property} {type : Property → String}

@[simp] theorem mapProperties_append (ss ts : List Statement) :
    mapProperties f (ss ++ ts) = mapProperties f ss ++ mapProperties f ts := by
  induction ss with
  | nil => rfl
  | cons s ss ih => simp [mapProperties, ih]

mutual
/-- A statement has the properties that are put in. -/
theorem Statement.properties_mapProperties (s : Statement) :
    (s.mapProperties f).properties = s.properties.map f := by
  cases s with
  | interface name isExported properties => rfl
  | «alias» name isExported properties => cases properties <;> rfl
  | module name statements => exact allProperties_mapProperties statements

theorem allProperties_mapProperties (ss : List Statement) :
    allProperties (mapProperties f ss) = (allProperties ss).map f := by
  cases ss with
  | nil => rfl
  | cons s ss =>
    simp [mapProperties, allProperties, s.properties_mapProperties, allProperties_mapProperties ss]
end

mutual
/-- A statement says the same when the properties that are put in do. -/
theorem Statement.outline_mapProperties
    (hf : ∀ p, (f p).outline type = p.outline fun p => type (f p)) (s : Statement) :
    (s.mapProperties f).outline type = s.outline fun p => type (f p) := by
  cases s with
  | interface name isExported properties =>
    simp [Statement.mapProperties, Statement.outline, hf]
  | «alias» name isExported properties =>
    cases properties <;> simp [Statement.mapProperties, Statement.outline, hf]
  | module name statements =>
    simp [Statement.mapProperties, Statement.outline, outlines_mapProperties hf statements]

theorem outlines_mapProperties
    (hf : ∀ p, (f p).outline type = p.outline fun p => type (f p)) (ss : List Statement) :
    outlines type (mapProperties f ss) = outlines (fun p => type (f p)) ss := by
  cases ss with
  | nil => rfl
  | cons s ss =>
    simp [mapProperties, outlines, s.outline_mapProperties hf, outlines_mapProperties hf ss]
end

end MapProperties

/-! ## Headings -/

/-- What a statement declares, without the properties. -/
inductive Heading
  | interface (name : String) (isExported : Bool)
  | alias (name : String) (isExported : Bool)
  | module (name : String) (headings : List Heading)

/-- The name that a statement declares in its scope; a module block declares none. -/
def Heading.declared? : Heading → Option String
  | .interface name _ => some name
  | .alias name _ => some name
  | .module _ _ => none

/-- The headings among which the generated ones stand: in an augmentation those of the first module
block, and those of the file when there is none. -/
def rootHeadings (isAugmented : Bool) (headings : List Heading) : List Heading :=
  if isAugmented then
    (headings.findSome? fun
      | .module _ body => some body
      | _ => none).getD headings
  else headings

mutual
/-- The heading of a statement. -/
def Statement.heading : Statement → Heading
  | .interface name isExported _ => .interface name isExported
  | .alias name isExported _ => .alias name isExported
  | .module name statements => .module name (statementHeadings statements)

/-- The headings of some statements. -/
def statementHeadings : List Statement → List Heading
  | [] => []
  | s :: rest => s.heading :: statementHeadings rest
end

mutual
/-- The heading of a statement with the texts of its types. -/
def Outline.heading : Outline → Heading
  | .interface name isExported _ => .interface name isExported
  | .alias name isExported _ => .alias name isExported
  | .module name statements => .module name (outlineHeadings statements)

/-- The headings of some statements with the texts of their types. -/
def outlineHeadings : List Outline → List Heading
  | [] => []
  | o :: rest => o.heading :: outlineHeadings rest
end

@[simp] theorem statementHeadings_append (ss ts : List Statement) :
    statementHeadings (ss ++ ts) = statementHeadings ss ++ statementHeadings ts := by
  induction ss with
  | nil => rfl
  | cons s ss ih => simp [statementHeadings, ih]

theorem outlineHeadings_eq (outs : List Outline) : outlineHeadings outs = outs.map Outline.heading := by
  induction outs with
  | nil => rfl
  | cons o outs ih => simp [outlineHeadings, ih]

mutual
/-- A statement has the heading of what it says. -/
theorem Statement.heading_outline (s : Statement) (type : Property → String) :
    (s.outline type).heading = s.heading := by
  cases s with
  | interface name isExported properties => rfl
  | «alias» name isExported properties => rfl
  | module name statements =>
    simp [Statement.outline, Outline.heading, Statement.heading, headings_outlines statements]

/-- Statements have the headings of what they say. -/
theorem headings_outlines (ss : List Statement) (type : Property → String) :
    outlineHeadings (outlines type ss) = statementHeadings ss := by
  cases ss with
  | nil => rfl
  | cons s ss =>
    simp [outlines, outlineHeadings, statementHeadings, s.heading_outline,
      headings_outlines ss]
end

/-- The names that are declared among the generated statements of a file. -/
def SourceFile.declaredNames (f : SourceFile) (isAugmented : Bool) : List String :=
  (f.root isAugmented).filterMap fun
    | .interface name _ _ => some name
    | .alias name _ _ => some name
    | .module _ _ => none

theorem statementHeadings_eq (ss : List Statement) :
    statementHeadings ss = ss.map Statement.heading := by
  induction ss with
  | nil => rfl
  | cons s ss ih => simp [statementHeadings, ih]

/-- The headings of the statements in the first module block, or of others without one. -/
theorem statementHeadings_firstModule? (ss whole : List Statement) :
    statementHeadings (((firstModule? ss).map Prod.snd).getD whole) =
      ((statementHeadings ss).findSome? fun
        | .module _ body => some body
        | _ => none).getD (statementHeadings whole) := by
  unfold firstModule?
  induction ss with
  | nil => rfl
  | cons s ss ih =>
    cases s with
    | module name body => rfl
    | _ => exact ih

/-- They are read off the headings. -/
theorem SourceFile.declaredNames_eq (f : SourceFile) (isAugmented : Bool) :
    f.declaredNames isAugmented =
      (rootHeadings isAugmented (statementHeadings f.statements)).filterMap Heading.declared? := by
  have hnames : ∀ ss : List Statement,
      (ss.filterMap fun
        | .interface name _ _ => some name
        | .alias name _ _ => some name
        | .module _ _ => none) = (statementHeadings ss).filterMap Heading.declared? := by
    intro ss
    rw [statementHeadings_eq, List.filterMap_map]
    congr
    funext s
    cases s <;> rfl
  have hroot : statementHeadings (f.root isAugmented) =
      rootHeadings isAugmented (statementHeadings f.statements) := by
    cases isAugmented with
    | false => rfl
    | true => exact statementHeadings_firstModule? f.statements f.statements
  rw [SourceFile.declaredNames, hnames, hroot]

/-- In a file of its own they are the names that it says. -/
theorem SourceFile.declaredNames_of_outline {f : SourceFile} {outs : List Outline}
    (h : f.outline = outs) :
    f.declaredNames false = (outs.map Outline.heading).filterMap Heading.declared? := by
  rw [SourceFile.declaredNames_eq, ← headings_outlines f.statements f.typeText, ← SourceFile.outline,
    h, outlineHeadings_eq]
  rfl

end SchemaTypings.Declaration
