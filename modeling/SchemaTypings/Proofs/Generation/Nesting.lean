import SchemaTypings.Interface
import SchemaTypings.Model.Types
import SchemaTypings.Proofs.Trees.Paths

/-!
# Nested objects in the declarations

A nested object comes down to itself, whatever fields it holds (`Field.read_nestedObject`), and has
no type but its own members (`baseType_nestedObject`). It is declared as an object type unless a
field of it is called `ref`: what that field holds is then taken for a reference
(`nestedObject_declared_iff`).
-/

namespace SchemaTypings

/-! ## Reading -/

/-- The type of a nested object is a nested object itself or none. -/
theorem lookup_type_of_nestedObject {object : Fields} (h : isFieldSpec object = false) :
    object.lookup "type" = none ∨
      ∃ entry rest, object.lookup "type" = some (.dict (entry :: rest)) := by
  unfold isFieldSpec at h
  cases htype : object.lookup "type" with
  | none => exact .inl rfl
  | some t =>
    have hfilled : t.isFilledDict = true := by simpa [htype] using h
    cases t with
    | dict fields =>
      cases fields with
      | nil => cases hfilled
      | cons entry rest => exact .inr ⟨entry, rest, rfl⟩
    | _ => cases hfilled

namespace Field

/-- A nested object is no array and no map, and comes down to its fields. -/
theorem read_nestedObject {object : Fields} (h : isFieldSpec object = false) :
    read (.dict object) = ⟨false, !isRequired (.dict object), false, some (.fields object)⟩ := by
  obtain htype | ⟨entry, rest, htype⟩ := lookup_type_of_nestedObject h <;>
    simp [read, htype, ofValue, targetOf]

/-- The body of a nested object is the nested object. -/
theorem body_nestedObject {object : Fields} (h : isFieldSpec object = false) :
    (read (.dict object)).body = object := by
  simp [read_nestedObject h, body, h]

end Field

/-- A nested object has no type of its own. -/
theorem baseType_nestedObject {object : Fields} (h : isFieldSpec object = false) (shape : Shape)
    (key : String) : baseType shape key object = .nested := by
  obtain htype | ⟨entry, rest, htype⟩ := lookup_type_of_nestedObject h <;>
    simp [baseType, htype]

/-! ## Declaring -/

namespace Member

theorem key_of_ofSpec {outlook : Outlook} {key : String} {f : Field} {spec : Fields}
    {nested : List Member} {m : Member} (h : ofSpec outlook key f spec nested = some m) :
    m.key = key := by
  unfold ofSpec at h
  split at h
  · contradiction
  · split at h
    · obtain ⟨type, -, rfl⟩ := Option.map_eq_some_iff.mp h
      rfl
    · split at h
      · contradiction
      · rw [← Option.some.inj h]
      · rw [← Option.some.inj h]

theorem key_of_ofField {outlook : Outlook} {key : String} {f : Field} {nested : List Member}
    {m : Member} (h : ofField outlook key f nested = some m) : m.key = key := by
  unfold ofField at h
  cases htarget : f.target with
  | none => simp [htarget] at h
  | some target =>
    rw [htarget] at h
    cases target with
    | subDocument d =>
      dsimp only at h
      generalize d.name ++ (if outlook.shape = .document then "Document" else "") = name at h
      by_cases hname : name.isEmpty = true
      · simp [hname] at h
      · rw [if_neg hname] at h
        rw [← Option.some.inj h]
    | virtual =>
      dsimp only at h
      by_cases hid : key = "id"
      · simp [hid] at h
      · rw [if_neg hid] at h
        split at h
        · contradiction
        · rw [← Option.some.inj h]
    | fields spec => exact key_of_ofSpec h

/-- A member is that of a field with its key. -/
theorem mem_ofFields {outlook : Outlook} {fields : Fields} {m : Member} :
    m ∈ ofFields outlook fields ↔ ∃ v, (m.key, v) ∈ fields ∧
      ofField outlook m.key (Field.read v)
        (ofFields outlook (Field.read v).body) = some m := by
  rw [ofFields_eq, List.mem_filterMap]
  constructor
  · rintro ⟨⟨key, v⟩, hv, hm⟩
    obtain rfl := key_of_ofField hm
    exact ⟨v, hv, hm⟩
  · rintro ⟨v, hv, hm⟩
    exact ⟨_, hv, hm⟩

/-- Fields with distinct keys have one member of a key at most. -/
theorem eq_of_mem_ofFields {outlook : Outlook} {fields : Fields}
    (hkeys : (Entries.keys fields).Nodup) {m m' : Member} (hm : m ∈ ofFields outlook fields)
    (hm' : m' ∈ ofFields outlook fields) (hkey : m.key = m'.key) : m = m' := by
  obtain ⟨v, hv, hfield⟩ := mem_ofFields.mp hm
  obtain ⟨w, hw, hfield'⟩ := mem_ofFields.mp hm'
  rw [hkey] at hv hfield
  obtain rfl : v = w := Option.some.inj
    ((Entries.lookup_of_mem hkeys hv).symm.trans (Entries.lookup_of_mem hkeys hw))
  exact Option.some.inj (hfield.symm.trans hfield')

theorem ofFields_append (outlook : Outlook) (fields more : Fields) :
    ofFields outlook (fields ++ more) = ofFields outlook fields ++ ofFields outlook more := by
  rw [ofFields_eq, ofFields_eq, ofFields_eq, List.filterMap_append]

/-- The value under `ref` that a nested object is taken to refer with. -/
def reference? (object : Fields) : Option Value :=
  (object.lookup "ref").filter Value.isTruthy

/-- A type that is written by name is no object type, whatever is put around it. -/
theorem wrap_named_ne_object (shape : Shape) (f : Field) (text : String) (members : List Member) :
    wrap shape f false (.named text) ≠ .object members := by
  unfold wrap
  cases f.isArray with
  | true => simp
  | false =>
    simp only [Bool.false_eq_true, if_false]
    split <;> rintro ⟨⟩

/-- What a nested object is declared as: an object type, or a reference when it holds one. -/
theorem ofFields_nestedObject (outlook : Outlook) {key : String} {object : Fields}
    (hkey : key ∉ metadataKeys) (hspec : isFieldSpec object = false) :
    ofFields outlook [(key, .dict object)] =
      match reference? object with
      | none => [⟨key, false, false, .object (ofFields outlook object)⟩]
      | some ref => ((referenceType outlook.shape ref).map fun type =>
          ⟨key, !Field.isRequired (.dict object), false,
            wrap outlook.shape (Field.read (.dict object)) false (.named type)⟩).toList := by
  rw [ofFields_eq, List.filterMap_cons, List.filterMap_nil]
  dsimp only
  rw [Field.body_nestedObject hspec, Field.read_nestedObject hspec]
  simp only [ofField, ofSpec, baseType_nestedObject hspec, List.contains_eq_mem, hkey,
    decide_false, Bool.false_eq_true, if_false, reference?]
  cases (object.lookup "ref").filter Value.isTruthy with
  | none => rfl
  | some ref => cases referenceType outlook.shape ref <;> rfl

end Member

theorem renderMembers_append (shape : Shape) (depth : Nat) (ms more : List Member) :
    renderMembers shape depth (ms ++ more) =
      renderMembers shape depth ms ++ renderMembers shape depth more := by
  induction ms with
  | nil => simp [renderMembers]
  | cons m ms ih => simp [renderMembers, ih, String.append_assoc]

/-- The lines of a property whose type is an object type. -/
def objectLines (key body : String) (depth : Nat) : String :=
  indentation (depth + 1) ++ propertyKey key ++ ": \x7b\n" ++ body ++ indentation (depth + 1) ++
    "\x7d;\n"

/-- An object type is written with its members one level deeper. -/
theorem render_object (shape : Shape) (depth : Nat) {key : String} (hkey : key ≠ "")
    (members : List Member) :
    Member.render shape depth ⟨key, false, false, .object members⟩ =
      objectLines key (renderMembers shape (depth + 1) members) depth := by
  simp only [Member.render, TypeExpr.render, memberLine, String.isEmpty_iff, hkey, if_false,
    Bool.false_eq_true, String.append_empty, objectLines, String.append_assoc]
  have hopen : ∀ rest, ": " ++ ("\x7b\n" ++ rest) = ": \x7b\n" ++ rest := by
    intro rest
    rw [← String.append_assoc]
    rfl
  rw [hopen]
  rfl

/-- A nested object under a key that is no metadata is declared as a property whose type is the
object type of its fields, and never an optional one, exactly when nothing that counts as true
stands under the name `ref` in it. Among whatever other fields and at any depth its lines are then
those of the property, with those of its fields one level deeper. -/
theorem nestedObject_declared_iff (outlook : Outlook) (key : String) (object : Fields)
    (hkey : key ∉ metadataKeys) (hspec : isFieldSpec object = false) :
    (Member.ofFields outlook [(key, .dict object)] =
        [⟨key, false, false, .object (Member.ofFields outlook object)⟩] ↔
      ∀ ref, object.lookup "ref" = some ref → ref.isTruthy = false) ∧
    ((∀ ref, object.lookup "ref" = some ref → ref.isTruthy = false) → key ≠ "" →
      ∀ (before after : Fields) (depth : Nat),
        renderMembers outlook.shape depth
            (Member.ofFields outlook (before ++ (key, .dict object) :: after)) =
          renderMembers outlook.shape depth (Member.ofFields outlook before) ++
            objectLines key
              (renderMembers outlook.shape (depth + 1) (Member.ofFields outlook object)) depth ++
            renderMembers outlook.shape depth (Member.ofFields outlook after)) := by
  have hnone : Member.reference? object = none ↔
      ∀ ref, object.lookup "ref" = some ref → ref.isTruthy = false := by
    simp [Member.reference?, Option.filter_eq_none_iff]
  have hmember : Member.ofFields outlook [(key, .dict object)] =
        [⟨key, false, false, .object (Member.ofFields outlook object)⟩] ↔
      Member.reference? object = none := by
    rw [Member.ofFields_nestedObject outlook hkey hspec]
    cases hreference : Member.reference? object with
    | none => simp
    | some ref =>
      -- a reference is written by name, or not at all
      cases referenceType outlook.shape ref <;> simp [Member.wrap_named_ne_object]
  refine ⟨hmember.trans hnone, fun href hne before after depth => ?_⟩
  have hone := hmember.mpr (hnone.mpr href)
  rw [← List.singleton_append, Member.ofFields_append, Member.ofFields_append, hone,
    renderMembers_append, renderMembers_append, renderMembers, renderMembers, render_object _ _ hne,
    String.append_empty, String.append_assoc]

/-- A payment with an amount is declared under its name, at the top of an interface. -/
theorem nestedObject_declared_payment :
    renderMembers .lean 0 (Member.ofFields ⟨.lean, false⟩
        [("payment", .dict [("amount", .tag .number)])]) =
      "  payment: \x7b\n    amount?: number;\n  \x7d;\n" := by
  have h := (nestedObject_declared_iff ⟨.lean, false⟩ "payment" [("amount", .tag .number)]
    (by decide) rfl).2 (by rintro ref ⟨⟩) (by decide) [] [] 0
  exact h.trans (by decide +kernel)

/-- A payment with a field that is called `ref` is declared as a reference: no object type is
written, and the amount is lost. -/
theorem nestedObject_taken_for_reference :
    ∃ s, Schema.build
        (.dict [("payment", .dict [("ref", .type .str), ("amount", .type .int)])]) .null
        [("_id", .bool false), ("version_key", .bool false)] = .ok s ∧
      s.tree = [("payment", .dict [("ref", .tag .string), ("amount", .tag .number)])] ∧
      "payment" ∉ metadataKeys ∧
      isFieldSpec [("ref", .tag .string), ("amount", .tag .number)] = false ∧
      s.declare ⟨.lean, "", false, "", "", false⟩ =
        .ok "  payment?: String[\"_id\"] | String;\n" ∧
      renderMembers .lean 0
          [⟨"payment", false, false, .object (Member.ofFields ⟨.lean, false⟩
            [("ref", .tag .string), ("amount", .tag .number)])⟩] =
        "  payment: \x7b\n    ref?: string;\n    amount?: number;\n  \x7d;\n" := by
  have hname : referenceName "String" = "String" := by
    have hfilter : "String".toList.filter (· != '\'') = "String".toList := by decide +kernel
    rw [referenceName, hfilter, String.ofList_toList]
    simp
  have hreference : referenceType .lean (.tag .string) = some "String[\"_id\"] | String" := by
    have h : referenceType .lean (.tag .string) =
        some (referenceName "String" ++ "" ++ "[\"_id\"] | " ++ (referenceName "String" ++ "")) := rfl
    rw [h, hname]
    decide +kernel
  have hmember : Member.ofFields ⟨.lean, false⟩
      [("payment", .dict [("ref", .tag .string), ("amount", .tag .number)])] =
        [⟨"payment", true, false, .named "String[\"_id\"] | String"⟩] := by
    rw [Member.ofFields_nestedObject _ (by decide) rfl]
    change ((referenceType .lean (.tag .string)).map _).toList = _
    rw [hreference]
    rfl
  refine ⟨_, rfl, rfl, by decide, rfl, ?_, by decide +kernel⟩
  have hline : String.join [] ++ "" ++ "" ++ renderMembers .lean 0 (Member.ofFields ⟨.lean, false⟩
      [("payment", .dict [("ref", .tag .string), ("amount", .tag .number)])]) ++ "" =
        "  payment?: String[\"_id\"] | String;\n" := by
    rw [hmember]
    decide +kernel
  exact congrArg Except.ok hline

end SchemaTypings
