import SchemaTypings.Proofs.Shapes.Agreement
import SchemaTypings.Proofs.Writing.Identifiers
import SchemaTypings.Proofs.Writing.Rendering

/-!
# The types that fields are given

A field of a schema tree is declared with a type that is fixed, enumerated, or the name of an
interface. `IsNamedType` are the texts that such types have, and `membersEvery_ofFields` says that
the members which fields become hold no others, at any depth, when the keys and the references in
the tree are names. Of the enumerated values it takes only those that are rendered
(`RendersEnum`).
-/

namespace SchemaTypings

open Declaration

/-! ## Texts of types -/

/-- The types that do not depend on a field. -/
def fixedTypes : List String :=
  ["string", "number", "boolean", "Date", "Buffer", "mongoose.Types.Buffer",
    "mongoose.Types.Decimal128", objectIdType, "any", "mongoose.Types.Map<any>", "Map<string, any>"]

/-- The texts of the types that fields are declared with; `E` is what enumerated values satisfy. -/
inductive IsNamedType (E : String → Prop) : String → Prop
  | fixed {text : String} : text ∈ fixedTypes → IsNamedType E text
  | enum {values : List String} : values ≠ [] → (∀ v ∈ values, E v) → IsNamedType E (enumType values)
  | name {name : String} : IsIdentifier name.toList → IsNamedType E name
  | reference {name : String} : IsIdentifier name.toList →
      IsNamedType E (name ++ "[\"_id\"] | " ++ name)

/-- A text that stands in double quotes as it is. -/
def IsQuotable (s : String) : Prop :=
  ∀ c ∈ s.toList, c ≠ '"' ∧ c ≠ '\\' ∧ c ≠ '\n'

/-- A text that stands in double quotes as it is, on one line. -/
def IsInline (s : String) : Prop :=
  ∀ c ∈ s.toList, c ≠ '"' ∧ c ≠ '\\' ∧ Text.isLineBreak c = false

theorem IsInline.isQuotable {s : String} (h : IsInline s) : IsQuotable s := by
  intro c hc
  obtain ⟨hquote, hescape, hbreak⟩ := h c hc
  refine ⟨hquote, hescape, ?_⟩
  rintro rfl
  exact absurd hbreak (by decide)

/-- A quotable text in double quotes is a type. -/
theorem IsQuotable.isType {s : String} (h : IsQuotable s) :
    IsType ('"' :: (s.toList ++ ['"'])) :=
  isType_string (stringRest_concat h)

theorem enumType_cons (first next : String) (rest : List String) :
    enumType (first :: next :: rest) = "\"" ++ first ++ "\" | " ++ enumType (next :: rest) := by
  simp [enumType, String.intercalate_cons_cons, ← String.toList_inj]

/-- A union of quotable values is a type. -/
theorem isType_enumType {values : List String} (hne : values ≠ []) (h : ∀ v ∈ values, IsQuotable v) :
    IsType (enumType values).toList := by
  induction values with
  | nil => exact absurd rfl hne
  | cons first rest ih =>
    have hfirst := (h first (by simp)).isType
    cases rest with
    | nil => simpa [enumType] using hfirst
    | cons next rest =>
      have hrest := ih (by simp) fun v hv => h v (by simp [hv])
      have hunion := hfirst.spaced (isType_pipe.spaced hrest)
      rw [enumType_cons]
      simpa using hunion

/-- A union is lined when its values are. -/
theorem isLined_enumType {values : List String} (h : ∀ v ∈ values, IsLined v.toList) :
    IsLined (enumType values).toList := by
  induction values with
  | nil => decide
  | cons first rest ih =>
    have hfirst := h first (by simp)
    cases rest with
    | nil =>
      simp only [enumType, String.intercalate_singleton, String.toList_append, isLined_append,
        hfirst, and_true]
      decide
    | cons next rest =>
      have hrest := ih fun v hv => h v (by simp [hv])
      simp only [enumType_cons, String.toList_append, isLined_append, hfirst, hrest, and_true]
      decide

theorem isType_fixed {text : String} (h : text ∈ fixedTypes) : IsType text.toList := by
  have hname : ∀ name : String, IsIdentifier name.toList → IsType name.toList := fun _ h => h.isType
  have hany : IsIdentifier "any".toList := by decide
  have hmap : IsIdentifier "Map".toList := by decide
  have hbuffer := isType_mongooseTypes (show IsIdentifier "Buffer".toList by decide)
  have hdecimal := isType_mongooseTypes (show IsIdentifier "Decimal128".toList by decide)
  have hobjectId := isType_mongooseTypes (show IsIdentifier "ObjectId".toList by decide)
  have hstring : IsIdentifier "string".toList := by decide
  have hdocuments := (isType_mongooseTypes hmap).generic hany.isType.isBalanced
  have hvalues := hmap.isType.generic (hstring.isType.isBalanced.comma hany.isType.isBalanced)
  simp only [fixedTypes, List.mem_cons, List.not_mem_nil, or_false] at h
  rcases h with rfl | rfl | rfl | rfl | rfl | rfl | rfl | rfl | rfl | rfl | rfl
  · exact hname _ (by decide)
  · exact hname _ (by decide)
  · exact hname _ (by decide)
  · exact hname _ (by decide)
  · exact hname _ (by decide)
  · simpa using hbuffer
  · simpa using hdecimal
  · simpa [objectIdType] using hobjectId
  · exact hname _ (by decide)
  · simpa using hdocuments
  · simpa using hvalues

/-- The type of a reference is a type. -/
theorem isType_reference {name : String} (h : IsIdentifier name.toList) :
    IsType (name ++ "[\"_id\"] | " ++ name).toList := by
  have hid : IsQuotable "_id" := by
    intro c hc
    revert c
    decide
  have hmember := h.isType.group hid.isType.isBalanced (b := .square) (by decide)
  have hunion := hmember.spaced (isType_pipe.spaced h.isType)
  simpa [Bracket.chars] using hunion

variable {E : String → Prop}

/-- The texts of the types of fields are types. -/
theorem IsNamedType.isType {text : String} (h : IsNamedType E text)
    (hE : ∀ v, E v → IsQuotable v) : IsType text.toList := by
  cases h with
  | fixed h => exact isType_fixed h
  | enum hne h => exact isType_enumType hne fun v hv => hE v (h v hv)
  | name h => exact h.isType
  | reference h => exact isType_reference h

theorem IsNamedType.isLined {text : String} (h : IsNamedType E text)
    (hE : ∀ v, E v → IsInline v) : IsLined text.toList := by
  cases h with
  | fixed h =>
    have hall : ∀ text ∈ fixedTypes, IsLined text.toList := by decide
    exact hall text h
  | enum hne h =>
    refine isLined_enumType fun v hv c hc hbreak => ?_
    have hinline := (hE v (h v hv) c hc).2.2
    rw [hinline] at hbreak
    exact absurd hbreak (by decide)
  | name h => exact h.isLined
  | @reference name h =>
    have hlined := h.isLined
    simp only [String.toList_append, isLined_append, hlined, and_true, true_and]
    decide

/-! ## Fields -/

/-- The name that a value gives when it stands for a reference. -/
def refText? : Value → Option String
  | .model name _ => some name
  | v => v.text?

theorem referenceType_eq (shape : Shape) (ref : Value) :
    referenceType shape ref = (refText? ref).map fun text =>
      let name := referenceName text ++ (if shape = .document then "Document" else "")
      name ++ "[\"_id\"] | " ++ name := by
  unfold referenceType refText?
  rfl

/-- The keys of a dictionary are distinct names, and what its reference says is the name of a model
or a dotted path. -/
structure HasNames (fields : Fields) : Prop where
  nodup : (Entries.keys fields).Nodup
  isKey : ∀ key ∈ Entries.keys fields, IsKey key
  isReferable : ∀ text ∈ (fields.lookup "ref").bind refText?, IsReferable text

/-- A sub-document has the name of an interface. -/
def Value.IsDeclared : Value → Prop
  | .subDocument d => IsIdentifier d.name.toList
  | _ => True

/-- A specification whose type is rendered: its key is no part of the type machinery, and it refers
to nothing. -/
def IsTyped (key : String) (spec : Fields) : Prop :=
  key ∉ metadataKeys ∧ (spec.lookup "ref").filter Value.isTruthy = none

/-- A value is rendered among the enumerated values of some fields, or of a nested object in them. -/
inductive RendersEnum : Fields → String → Prop
  | own {fields spec : Fields} {key value : String} {v : Value} (hmem : (key, v) ∈ fields)
      (htarget : (Field.read v).target = some (.fields spec)) (htyped : IsTyped key spec)
      (htype : spec.lookup "type" = some (.tag .string)) (hvalue : value ∈ enumValues spec) :
      RendersEnum fields value
  | nested {fields spec : Fields} {key value : String} {v : Value} (hmem : (key, v) ∈ fields)
      (htarget : (Field.read v).target = some (.fields spec)) (htyped : IsTyped key spec)
      (hinner : RendersEnum (Field.read v).body value) : RendersEnum fields value

/-- The type of a tag is fixed or enumerated. -/
theorem isNamedType_of_tagType {shape : Shape} {key text : String} {spec : Fields} {t : Tag}
    (h : tagType shape key spec t = .named text)
    (henum : t = .string → ∀ value ∈ enumValues spec, E value) : IsNamedType E text := by
  cases t with
  | string =>
    cases hvalues : enumValues spec with
    | nil =>
      obtain rfl : "string" = text := by simpa [tagType, hvalues] using h
      exact .fixed (by simp [fixedTypes])
    | cons value values =>
      obtain rfl : enumType (value :: values) = text := by simpa [tagType, hvalues] using h
      exact .enum (List.cons_ne_nil _ _) (hvalues ▸ henum rfl)
  | number =>
    by_cases hversion : key = "__v"
    · simp [tagType, hversion] at h
    · obtain rfl : "number" = text := by simpa [tagType, hversion] using h
      exact .fixed (by simp [fixedTypes])
  | decimal128 | map =>
    obtain rfl := BaseType.named.inj h
    cases shape <;> exact .fixed (by simp [fixedTypes])
  | _ =>
    obtain rfl := BaseType.named.inj h
    exact .fixed (by simp [fixedTypes])

/-- The type of a specification is fixed or enumerated. -/
theorem isNamedType_of_baseType {shape : Shape} {key text : String} {spec : Fields}
    (h : baseType shape key spec = .named text)
    (henum : spec.lookup "type" = some (.tag .string) → ∀ value ∈ enumValues spec, E value) :
    IsNamedType E text := by
  unfold baseType at h
  split at h
  · next t htype => exact isNamedType_of_tagType h fun hstring => henum (hstring ▸ htype)
  · contradiction

variable {K : String → Prop}

/-- An array and a map put around a type hold no other text than the type of a live buffer. -/
theorem Member.every_wrap (shape : Shape) (f : Field) (ofSubDocuments : Bool) {type : TypeExpr}
    (h : type.Every (IsNamedType E) K) :
    (Member.wrap shape f ofSubDocuments type).Every (IsNamedType E) K := by
  have helement : (Member.elementType shape f.isMap type).Every (IsNamedType E) K := by
    cases f.isMap with
    | true =>
      rw [Member.elementType_map]
      exact h
    | false =>
      cases shape with
      | lean =>
        rw [Member.elementType_lean]
        exact h
      | document =>
        rcases Member.elementType_document type with heq | ⟨-, heq⟩
        · rw [heq]
          exact h
        · rw [heq]
          exact .fixed (by simp [fixedTypes])
  rw [Member.wrap_eq]
  split
  · exact helement
  · exact helement

/-- The text of the name of an interface in a shape. -/
theorem isIdentifier_shaped (shape : Shape) {name : String} (h : IsIdentifier name.toList) :
    IsIdentifier (name ++ (if shape = .document then "Document" else "")).toList := by
  cases shape with
  | lean => simpa using h
  | document =>
    rw [if_pos rfl, String.toList_append]
    exact h.1.isIdentifier_append (by decide) (by decide)

/-- The member of a specification holds the types of fields. -/
theorem Member.every_ofSpec {outlook : Outlook} {key : String} {f : Field} {spec : Fields}
    {nested : List Member} {m : Member} (h : ofSpec outlook key f spec nested = some m)
    (hkey : K key) (href : ∀ text ∈ (spec.lookup "ref").bind refText?, IsReferable text)
    (henum : IsTyped key spec → spec.lookup "type" = some (.tag .string) →
      ∀ value ∈ enumValues spec, E value)
    (hnested : IsTyped key spec → MembersEvery (IsNamedType E) K nested) :
    m.Every (IsNamedType E) K := by
  unfold ofSpec at h
  split at h
  · contradiction
  · next hmeta =>
    have hdata : key ∉ metadataKeys := by simpa using hmeta
    split at h
    · -- a member that refers to a model
      next ref hfilter =>
      obtain ⟨hlookup, -⟩ := Option.filter_eq_some_iff.mp hfilter
      rw [referenceType_eq] at h
      cases htext : refText? ref with
      | none => simp [htext] at h
      | some text =>
        simp only [htext, Option.map_some, Option.some.injEq] at h
        subst h
        have hname := isIdentifier_referenceName (href text (by simp [hlookup, htext]))
        exact ⟨hkey, every_wrap outlook.shape f false
          (.reference (isIdentifier_shaped outlook.shape hname))⟩
    · -- a member of a nested object or of a type
      next hnone =>
      have htyped : IsTyped key spec := ⟨hdata, hnone⟩
      split at h
      · contradiction
      · obtain rfl := Option.some.inj h
        exact ⟨hkey, every_wrap outlook.shape f false (hnested htyped)⟩
      · next text htext =>
        obtain rfl := Option.some.inj h
        exact ⟨hkey, every_wrap outlook.shape f false
          (isNamedType_of_baseType htext (henum htyped))⟩

section Named

/-- A property of dictionaries, kept by what fields are read as, that says of their keys that they
satisfy `K`, and of what their references say that it may be referred to. -/
structure NamesFields (D : Fields → Prop) (K : String → Prop) : Prop where
  kept : Field.KeptByReading D
  key : ∀ {fields}, D fields → ∀ key ∈ Entries.keys fields, K key
  isReferable : ∀ {fields}, D fields →
    ∀ text ∈ (fields.lookup "ref").bind refText?, IsReferable text

variable {D : Fields → Prop} (hD : NamesFields D K)

include hD

/-- The member of a field holds the types of fields. -/
theorem Member.every_ofField {outlook : Outlook} {key : String} {f : Field} {nested : List Member}
    {m : Member} (h : ofField outlook key f nested = some m) (hkey : K key)
    (htarget : ∀ target, f.target = some target →
      Field.TargetEvery D Value.IsDeclared target)
    (henum : ∀ spec, f.target = some (.fields spec) → IsTyped key spec →
      spec.lookup "type" = some (.tag .string) → ∀ value ∈ enumValues spec, E value)
    (hnested : ∀ spec, f.target = some (.fields spec) → IsTyped key spec →
      MembersEvery (IsNamedType E) K nested) :
    m.Every (IsNamedType E) K := by
  unfold ofField at h
  split at h
  · contradiction
  · -- a sub-document is named in the shape of its owner
    next d hd =>
    have hname : IsIdentifier d.name.toList := htarget _ hd
    have hshaped := isIdentifier_shaped outlook.shape hname
    dsimp only at h
    generalize d.name ++ (if outlook.shape = .document then "Document" else "") = name at h hshaped
    split at h
    · contradiction
    · obtain rfl := Option.some.inj h
      exact ⟨hkey, every_wrap outlook.shape f d.isArray (.name hshaped)⟩
  · split at h
    · contradiction
    · split at h
      · contradiction
      · obtain rfl := Option.some.inj h
        exact ⟨hkey, every_wrap outlook.shape f false (.fixed (by simp [fixedTypes]))⟩
  · next spec hspec =>
    have hnames : Tree.Every D Value.IsDeclared spec := htarget _ hspec
    exact every_ofSpec h hkey (hD.isReferable hnames.1) (henum spec hspec) (hnested spec hspec)

/-- The members that fields become hold the types of fields alone, under their keys. -/
theorem membersEvery_ofFields (outlook : Outlook) {fields : Fields}
    (hnames : Tree.Every D Value.IsDeclared fields)
    (henum : ∀ value, RendersEnum fields value → E value) :
    MembersEvery (IsNamedType E) K (Member.ofFields outlook fields) := by
  -- the body of a field is nested less deeply than the fields
  induction h : fieldsDepth fields using Nat.strongRecOn generalizing fields with
  | _ depth ih =>
    rw [Member.ofFields_eq]
    refine MembersEvery.of_forall fun m hm => ?_
    obtain ⟨⟨key, v⟩, hmem, hfield⟩ := List.mem_filterMap.mp hm
    have hv := hnames.2.of_mem hmem
    have hkey : K key := hD.key hnames.1 key (List.mem_map_of_mem hmem)
    have htarget : ∀ target, (Field.read v).target = some target →
        Field.TargetEvery D Value.IsDeclared target :=
      fun _ h => Field.targetEvery_of_read hD.kept trivial hv h
    refine Member.every_ofField hD hfield hkey htarget
      (fun spec hspec htyped htype value hvalue => henum value (.own hmem hspec htyped htype hvalue))
      fun spec hspec htyped => ?_
    by_cases hnil : (Field.read v).body = []
    · rw [hnil, Member.ofFields_eq]
      trivial
    · have hlt := Field.depth_body_lt hnil
      have hle := depth_le_of_mem hmem
      have hbody := Field.every_body hD.kept trivial hv hnil
      exact ih (fieldsDepth (Field.read v).body) (by omega) hbody
        (fun value hinner => henum value (.nested hmem hspec htyped hinner)) rfl

end Named

/-! ## What names keep -/

theorem isKey_type : IsKey "type" := by decide

/-- Putting a value under a name keeps names, as long as it is no reference. -/
theorem HasNames.put {fields : Fields} (h : HasNames fields) {key : String} (hkey : IsKey key)
    {v : Value} (hv : key = "ref" → ∀ text ∈ refText? v, IsReferable text) :
    HasNames (Entries.put fields key v) where
  nodup := Entries.nodup_keys_put h.nodup key v
  isKey other hother := by
    rcases Entries.eq_or_mem_of_mem_keys_put hother with rfl | hother
    · exact hkey
    · exact h.isKey other hother
  isReferable := by
    by_cases heq : key = "ref"
    · rw [heq, Entries.lookup_put_self]
      exact hv heq
    · rw [Entries.lookup_put_of_ne _ _ (Ne.symm heq)]
      exact h.isReferable

theorem hasNames_nil : HasNames [] :=
  ⟨List.nodup_nil, (fun _ h => nomatch h), fun _ h => nomatch h⟩

/-- What a field is read as keeps names. -/
theorem keptByReading_hasNames : Field.KeptByReading HasNames where
  ofType v := hasNames_nil.put isKey_type (v := v) (by simp)
  putType h v := h.put isKey_type (by simp)
  inherit := by
    intro inner fields hinner h key hkey
    have hname : IsKey key := by
      revert key
      decide
    unfold Field.inherit
    split
    · next v hv =>
      refine h.put hname fun heq => ?_
      subst heq
      exact fun text htext => hinner.isReferable text (by simp [hv, Option.mem_def.mp htext])
    · exact h

/-- Names are keys, and references to them can be written. -/
theorem namesFields_hasNames : NamesFields HasNames IsKey :=
  ⟨keptByReading_hasNames, fun h => h.isKey, fun h => h.isReferable⟩

/-! ## Fields without enumerated values -/

theorem not_renders_nil {value : String} : ¬RendersEnum [] value := by
  intro h
  cases h with
  | own hmem | nested hmem => cases hmem

/-- Nothing is said of enumerated values in a dictionary. -/
def LacksEnum (fields : Fields) : Prop :=
  fields.lookup "enum" = none

/-- What is read of fields that say nothing of enumerated values says nothing of them. -/
theorem keptByReading_lacksEnum : Field.KeptByReading LacksEnum where
  ofType _ := rfl
  putType h v := (Entries.lookup_put_of_ne _ v (by decide)).trans h
  inherit := by
    intro inner fields hinner h key _
    unfold Field.inherit
    split
    · next v hv =>
      have hne : "enum" ≠ key := by
        rintro rfl
        exact absurd (hinner.symm.trans hv) (by simp)
      exact (Entries.lookup_put_of_ne _ v hne).trans h
    · exact h

/-- Fields that say nothing of enumerated values render none. -/
theorem not_rendersEnum {fields : Fields} {value : String}
    (h : Tree.Every LacksEnum (fun _ => True) fields) : ¬RendersEnum fields value := by
  intro hrenders
  induction hrenders with
  | own hmem htarget htyped htype hvalue =>
    have hspec : Field.TargetEvery LacksEnum (fun _ => True) _ :=
      Field.targetEvery_of_read keptByReading_lacksEnum trivial (h.2.of_mem hmem) htarget
    simp [enumValues, show _ = none from hspec.1] at hvalue
  | @nested fields spec key value v hmem htarget htyped hinner ih =>
    by_cases hnil : (Field.read v).body = []
    · exact not_renders_nil (hnil ▸ hinner)
    · exact ih (Field.every_body keptByReading_lacksEnum trivial (h.2.of_mem hmem) hnil)

end SchemaTypings
