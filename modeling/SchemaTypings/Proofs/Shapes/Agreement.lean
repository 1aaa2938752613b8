import SchemaTypings.Proofs.Trees.Every
import SchemaTypings.Member

/-!
# Members in both shapes

The members that the same fields become in the plain data and in the live document. `Agree` goes
through the fields in their order and says of each what the two lists of members hold for it: the
same key with the same mark, or nothing on either side, or a virtual; and under it the same again
for nested objects. `Agree.ofFields` is the simulation of the two runs: they take the same decision
at every field, since the shape enters the text of types alone, and the names of sub-documents,
which are empty in neither shape.
-/

namespace SchemaTypings

mutual
/-- The members that fields become, in the plain data and in the live document. `included` says
whether the plain data holds the virtuals. -/
inductive Agree (included : Bool) : Fields → List Member → List Member → Prop
  | nil : Agree included [] [] []
  /-- A field that neither shape declares. The identifier's virtual is one, and no other virtual. -/
  | absent {key : String} {v : Value} {fields : Fields} {lean document : List Member}
      (hvirtual : (Field.read v).target = some .virtual → key = "id")
      (rest : Agree included fields lean document) :
      Agree included ((key, v) :: fields) lean document
  /-- A virtual, which the live document always declares. -/
  | virtual {key : String} {v : Value} {fields : Fields} {lean document : List Member}
      {leanType documentType : TypeExpr} (hvirtual : (Field.read v).target = some .virtual)
      (hkey : key ≠ "id") (rest : Agree included fields lean document) :
      Agree included ((key, v) :: fields)
        ((if included then [⟨key, false, true, leanType⟩] else []) ++ lean)
        (⟨key, false, true, documentType⟩ :: document)
  /-- A field that both shapes declare under the same mark. -/
  | data {key : String} {v : Value} {fields : Fields} {lean document : List Member}
      {isOptional : Bool} {leanType documentType : TypeExpr}
      (hdata : (Field.read v).target ≠ some .virtual)
      (types : TypesAgree included (Field.read v).body leanType documentType)
      (rest : Agree included fields lean document) :
      Agree included ((key, v) :: fields) (⟨key, isOptional, false, leanType⟩ :: lean)
        (⟨key, isOptional, false, documentType⟩ :: document)

/-- The types of a member in both shapes; `body` holds the fields of a nested object. -/
inductive TypesAgree (included : Bool) : Fields → TypeExpr → TypeExpr → Prop
  | named {body : Fields} (lean document : String) :
      TypesAgree included body (.named lean) (.named document)
  | object {body : Fields} {lean document : List Member}
      (members : Agree included body lean document) :
      TypesAgree included body (.object lean) (.object document)
  | map {body : Fields} {lean document : TypeExpr}
      (values : TypesAgree included body lean document) :
      TypesAgree included body (.map lean) (.map document)
  | array {body : Fields} {lean document : TypeExpr} (ofSubDocuments : Bool)
      (elements : TypesAgree included body lean document) :
      TypesAgree included body (.array ofSubDocuments lean) (.array ofSubDocuments document)
end

/-! ## One field -/

/-- A sub-document has a name. -/
def Value.IsNamed : Value → Prop
  | .subDocument d => d.name ≠ ""
  | _ => True

/-- The type of a specification is of the same kind in both shapes. -/
theorem baseType_cases (key : String) (spec : Fields) :
    (baseType .lean key spec = .omitted ∧ baseType .document key spec = .omitted) ∨
      (baseType .lean key spec = .nested ∧ baseType .document key spec = .nested) ∨
        ∃ lean document, baseType .lean key spec = .named lean ∧
          baseType .document key spec = .named document := by
  unfold baseType
  split
  · next t _ =>
    cases t with
    | string =>
      refine .inr (.inr ?_)
      cases h : enumValues spec <;> simp [tagType, h]
    | number =>
      by_cases hkey : key = "__v"
      · simp [tagType, hkey]
      · simp [tagType, hkey]
    | _ => exact .inr (.inr ⟨_, _, rfl, rfl⟩)
  · exact .inr (.inl ⟨rfl, rfl⟩)

/-- Whether a reference has a type does not depend on the shape. -/
theorem referenceType_cases (ref : Value) :
    (referenceType .lean ref = none ∧ referenceType .document ref = none) ∨
      ∃ lean document, referenceType .lean ref = some lean ∧
        referenceType .document ref = some document := by
  cases ref <;> simp [referenceType, Value.text?]

namespace Member

/-- The type of a field inside its array: with the map around it, and a buffer of a live document
under its own name. -/
def elementType (shape : Shape) (isMap : Bool) (type : TypeExpr) : TypeExpr :=
  match type, isMap, shape with
  | .named "Buffer", false, .document => .named "mongoose.Types.Buffer"
  | type, false, _ => type
  | type, true, _ => .map type

theorem wrap_eq (shape : Shape) (f : Field) (ofSubDocuments : Bool) (type : TypeExpr) :
    wrap shape f ofSubDocuments type =
      if f.isArray then .array ofSubDocuments (elementType shape f.isMap type)
      else elementType shape f.isMap type :=
  rfl

theorem elementType_map (shape : Shape) (type : TypeExpr) :
    elementType shape true type = .map type := by
  unfold elementType
  split <;> trivial

theorem elementType_lean (type : TypeExpr) : elementType .lean false type = type := by
  unfold elementType
  split <;> trivial

theorem elementType_document (type : TypeExpr) :
    elementType .document false type = type ∨
      type = .named "Buffer" ∧ elementType .document false type = .named "mongoose.Types.Buffer" := by
  unfold elementType
  split
  · exact .inr ⟨rfl, rfl⟩
  · exact .inl rfl
  · contradiction

/-- An array and a map are put around the types in both shapes. -/
theorem wrap_agree {included : Bool} {body : Fields} {lean document : TypeExpr} (f : Field)
    (ofSubDocuments : Bool) (h : TypesAgree included body lean document) :
    TypesAgree included body (wrap .lean f ofSubDocuments lean)
      (wrap .document f ofSubDocuments document) := by
  have helement : TypesAgree included body (elementType .lean f.isMap lean)
      (elementType .document f.isMap document) := by
    cases f.isMap with
    | true =>
      rw [elementType_map, elementType_map]
      exact .map h
    | false =>
      rw [elementType_lean]
      rcases elementType_document document with heq | ⟨rfl, heq⟩
      · rw [heq]
        exact h
      · rw [heq]
        cases h with
        | named text => exact .named ..
  rw [wrap_eq, wrap_eq]
  split
  · exact .array _ helement
  · exact helement

/-- What the shapes hold for one field. -/
inductive EntryAgrees (included : Bool) (key : String) (f : Field) :
    Option Member → Option Member → Prop
  | absent (hvirtual : f.target = some .virtual → key = "id") :
      EntryAgrees included key f none none
  | virtual (leanType documentType : TypeExpr) (hvirtual : f.target = some .virtual)
      (hkey : key ≠ "id") :
      EntryAgrees included key f (if included then some ⟨key, false, true, leanType⟩ else none)
        (some ⟨key, false, true, documentType⟩)
  | data {isOptional : Bool} {leanType documentType : TypeExpr}
      (hdata : f.target ≠ some .virtual) (types : TypesAgree included f.body leanType documentType) :
      EntryAgrees included key f (some ⟨key, isOptional, false, leanType⟩)
        (some ⟨key, isOptional, false, documentType⟩)

variable {included : Bool} {key : String} {f : Field} {lean document : List Member}

/-- A specification or a nested object is declared by both shapes or by neither. -/
theorem ofSpec_agrees {spec : Fields} (htarget : f.target = some (.fields spec))
    (hnested : Agree included f.body lean document) :
    EntryAgrees included key f (ofSpec ⟨.lean, included⟩ key f spec lean)
      (ofSpec ⟨.document, included⟩ key f spec document) := by
  have hdata : f.target ≠ some .virtual := by simp [htarget]
  have habsent : EntryAgrees included key f none none := .absent fun h => absurd h hdata
  unfold ofSpec
  split
  · exact habsent
  · split
    · next ref _ =>
      rcases referenceType_cases ref with ⟨hl, hd⟩ | ⟨l, d, hl, hd⟩
      · rw [hl, hd]
        exact habsent
      · rw [hl, hd]
        exact .data hdata (wrap_agree f false (.named l d))
    · rcases baseType_cases key spec with ⟨hl, hd⟩ | ⟨hl, hd⟩ | ⟨l, d, hl, hd⟩
      · rw [hl, hd]
        exact habsent
      · rw [hl, hd]
        exact .data hdata (wrap_agree f false (.object hnested))
      · rw [hl, hd]
        exact .data hdata (wrap_agree f false (.named l d))

/-- Whether a field is declared, and under which mark, is the same in both shapes. -/
theorem ofField_agrees (hnamed : ∀ d, f.target = some (.subDocument d) → d.name ≠ "")
    (hnested : Agree included f.body lean document) :
    EntryAgrees included key f (ofField ⟨.lean, included⟩ key f lean)
      (ofField ⟨.document, included⟩ key f document) := by
  cases htarget : f.target with
  | none => simpa [ofField, htarget] using EntryAgrees.absent (by simp [htarget])
  | some target =>
    cases target with
    | fields spec =>
      simp only [ofField, htarget]
      exact ofSpec_agrees htarget hnested
    | subDocument d =>
      have hname := hnamed d htarget
      have hdata : f.target ≠ some .virtual := by simp [htarget]
      simp only [ofField, htarget]
      simp only [String.isEmpty_iff, String.append_eq_empty_iff, hname, false_and, if_false]
      exact .data hdata (wrap_agree f d.isArray (.named ..))
    | virtual =>
      by_cases hkey : key = "id"
      · simpa [ofField, htarget, hkey] using EntryAgrees.absent fun _ => rfl
      · have hentry := @EntryAgrees.virtual included _ _
          (wrap .lean f false (.named "any")) (wrap .document f false (.named "any")) htarget hkey
        cases included <;> simpa [ofField, htarget, hkey] using hentry

end Member

/-! ## All fields -/

/-- What agrees at each field agrees. -/
theorem Agree.filterMap {included : Bool} {fields : Fields}
    {lean document : String × Value → Option Member}
    (h : ∀ e ∈ fields, Member.EntryAgrees included e.1 (Field.read e.2) (lean e) (document e)) :
    Agree included fields (fields.filterMap lean) (fields.filterMap document) := by
  induction fields with
  | nil => exact .nil
  | cons e rest ih =>
    have hrest := ih fun e' he' => h e' (List.mem_cons_of_mem _ he')
    have he := h e (List.mem_cons_self ..)
    rw [List.filterMap_cons, List.filterMap_cons]
    generalize lean e = l at he ⊢
    generalize document e = d at he ⊢
    cases he with
    | absent hvirtual => exact .absent hvirtual hrest
    | virtual leanType documentType hvirtual hkey =>
      have hcons := @Agree.virtual _ _ _ _ _ _ leanType documentType hvirtual hkey hrest
      cases included <;> exact hcons
    | data hdata types => exact .data hdata types hrest

/-- The members of the same fields agree in both shapes, at every depth. -/
theorem Agree.ofFields (included : Bool) {fields : Fields}
    (hnamed : FieldsEvery (fun _ => True) Value.IsNamed fields) :
    Agree included fields (Member.ofFields ⟨.lean, included⟩ fields)
      (Member.ofFields ⟨.document, included⟩ fields) := by
  -- the body of a field is nested less deeply than the fields
  induction h : fieldsDepth fields using Nat.strongRecOn generalizing fields with
  | _ depth ih =>
    rw [Member.ofFields_eq, Member.ofFields_eq]
    refine Agree.filterMap fun (key, v) hmem => ?_
    have hv := hnamed.of_mem hmem
    have htarget : ∀ d, (Field.read v).target = some (.subDocument d) → d.name ≠ "" :=
      fun d hd => Field.targetEvery_of_read Field.keptByReading_true trivial hv hd
    refine Member.ofField_agrees htarget ?_
    by_cases hnil : (Field.read v).body = []
    · rw [hnil]
      exact .nil
    · have hlt := Field.depth_body_lt hnil
      have hle := depth_le_of_mem hmem
      have hbody := Field.every_body Field.keptByReading_true trivial hv hnil
      exact ih (fieldsDepth (Field.read v).body) (by omega) hbody.2 rfl

end SchemaTypings
