import SchemaTypings.Proofs.Generation.Nesting
import SchemaTypings.Proofs.Generation.References
import SchemaTypings.Proofs.Schemas.Occurrence

/-!
# Embedded schemas in the declarations

A schema that occurs in a definition is recorded under the path of its field, hoisted as an
interface, and named in the type of the field's member, which stands in the object types of the
nested objects on the way (`Schema.embedded_declared`). The element of an array that has a
specification of its own is not recorded, though it is unwrapped when it is declared: an empty object
is declared for it.
-/

namespace SchemaTypings

/-! ## Members in object types -/

/-- A member that is found under keys that lead to it through members with object types. -/
inductive MemberAt : List Member → List String → Member → Prop
  | here {members : List Member} {key : String} {m : Member} : m ∈ members → m.key = key →
      MemberAt members [key] m
  | inside {members inner : List Member} {key : String} {keys : List String} {m : Member} :
      ⟨key, false, false, .object inner⟩ ∈ members → MemberAt inner keys m →
      MemberAt members (key :: keys) m

theorem memberAt_singleton {members : List Member} {key : String} {m : Member} :
    MemberAt members [key] m ↔ m ∈ members ∧ m.key = key := by
  constructor
  · intro h
    cases h with
    | here hm hkey => exact ⟨hm, hkey⟩
    | inside _ hinner => cases hinner
  · rintro ⟨hm, hkey⟩
    exact .here hm hkey

/-- What keeps a nested object a nested object when the schemas in it are bound, and has it
declared as an object type. -/
structure IsOpen (key : String) (object : Fields) : Prop where
  data : key ∉ metadataKeys
  /-- No field of the name `ref` makes the object a reference. -/
  unreferring : ∀ v, object.lookup "ref" = some v → v.isTruthy = false
  /-- No schema embedded under `type` makes the object a specification. -/
  untyped : ∀ v, object.lookup "type" = some v →
    ∀ inner isArray, embedded? v ≠ some (inner, isArray, false)

/-- The type of the member for an embedded schema whose interface has a name. -/
def ChildSchema.memberType (c : ChildSchema) (name : String) : TypeExpr :=
  if c.isMap then .map (.named name) else if c.isArray then .array true (.named name) else .named name

theorem Member.mem_ofFields_nestedObject (outlook : Outlook) {fields object : Fields} {key : String}
    (hmem : (key, .dict object) ∈ fields) (hkey : key ∉ metadataKeys)
    (hspec : isFieldSpec object = false) (href : Member.reference? object = none) :
    ⟨key, false, false, .object (Member.ofFields outlook object)⟩ ∈
      Member.ofFields outlook fields := by
  have hmember := Member.ofFields_nestedObject outlook hkey hspec
  rw [href] at hmember
  obtain ⟨before, after, rfl⟩ := List.append_of_mem hmem
  rw [← List.singleton_append, Member.ofFields_append, Member.ofFields_append, hmember]
  simp

/-- The name of the interface of an embedded schema in a shape. -/
def ChildSchema.interfaceName (c : ChildSchema) (shape : Shape) (owner : String) : String :=
  subDocumentName c.path owner ++ (if shape = .document then "Document" else "")

variable {s : Schema} {c : ChildSchema} {owner : String}

/-- Only in the lean shape an interface is called by the bare name of its sub-document. -/
theorem ChildSchema.interfaceName_ne_empty {shape : Shape}
    (h : shape = .lean → subDocumentName c.path owner ≠ "") : c.interfaceName shape owner ≠ "" := by
  unfold interfaceName
  cases shape with
  | lean => simpa using h rfl
  | document => simp

/-- No interface of a document is called like a buffer. -/
theorem Member.elementType_interfaceName (shape : Shape) :
    elementType shape false (.named (c.interfaceName shape owner)) =
      .named (c.interfaceName shape owner) := by
  cases shape with
  | lean => exact elementType_lean _
  | document =>
    refine (elementType_document _).resolve_right fun hbuffer => ?_
    have hlength := congrArg String.length (TypeExpr.named.inj hbuffer.1)
    rw [ChildSchema.interfaceName, if_pos rfl, String.length_append] at hlength
    have hdocument : "Document".length = 8 := by decide
    have hbuffer : "Buffer".length = 6 := by decide
    omega

/-- A field that comes down to the sub-document of an embedded schema has a member that names the
interface of that schema. Unless it is an array, the sub-document decides whether it is optional. -/
theorem Member.ofField_binding (outlook : Outlook) (key : String) (tree : Fields) (isOptional : Bool)
    (nested : List Member) (hmaps : c.isMap = true → c.isArray = false)
    (hname : c.interfaceName outlook.shape owner ≠ "") :
    ofField outlook key
        ⟨c.isArray, isOptional, c.isMap, some (.subDocument (c.binding owner tree))⟩ nested =
      some ⟨key, if c.isArray then isOptional else !(c.binding owner tree).required, false,
        c.memberType (c.interfaceName outlook.shape owner)⟩ := by
  have htype : wrap outlook.shape
      ⟨c.isArray, isOptional, c.isMap, some (.subDocument (c.binding owner tree))⟩ c.isArray
        (.named (c.interfaceName outlook.shape owner)) =
      c.memberType (c.interfaceName outlook.shape owner) := by
    rw [wrap_eq]
    unfold ChildSchema.memberType
    cases hmap : c.isMap with
    | true => simp [hmaps hmap, elementType_map]
    | false => cases c.isArray <;> simp [elementType_interfaceName]
  have hfull : (c.interfaceName outlook.shape owner).isEmpty = false := by simpa using hname
  have hbinding : (c.binding owner tree).name ++
      (if outlook.shape = .document then "Document" else "") =
        c.interfaceName outlook.shape owner := rfl
  have harray : (c.binding owner tree).isArray = c.isArray := rfl
  simp only [ofField, hbinding, harray, htype, hfull]
  rfl

/-! ## Fields in bound trees -/

theorem Field.read_bound (d : SubDocument) (hmap : c.isMap = false) :
    ∃ isOptional, read (c.bound d) = ⟨c.isArray, isOptional, false, some (.subDocument d)⟩ := by
  unfold ChildSchema.bound
  rw [hmap]
  cases c.isArray with
  | true => exact ⟨_, rfl⟩
  | false => exact ⟨_, rfl⟩

theorem Field.read_mapOf {fields : Fields} {d : SubDocument}
    (htype : fields.lookup "type" = some (.tag .map))
    (hof : fields.lookup "of" = some (.subDocument d)) :
    read (.dict fields) = ⟨false, !isRequired (.dict fields), true, some (.subDocument d)⟩ := by
  simp [read, htype, ofValue, targetOf, hof]

/-- What embeds a schema counts as true. -/
theorem isTruthy_of_embedded? {v : Value} {e : Schema × Bool × Bool} (h : embedded? v = some e) :
    v.isTruthy = true := by
  cases v with
  | dict fields =>
    cases fields with
    | nil => cases h
    | cons field rest => rfl
  | list items =>
    cases items with
    | nil => cases h
    | cons item rest => rfl
  | schema inner => rfl
  | tag t => rfl
  | _ => cases h

namespace Schema.StandsApart

variable (h : s.StandsApart) (hc : c ∈ s.children) (owner : String)

include h hc

/-- The field of an embedded schema comes down to its sub-document. -/
theorem read_bound {v : Value} (hv : Tree.getPath? s.tree c.path = some v) :
    (c.isMap = true → c.isArray = false) ∧
    ∃ isOptional, Field.read
        (Tree.substituteValue (s.replacements owner) (pathSegments c.path) v) =
      ⟨c.isArray, isOptional, c.isMap, some (.subDocument (c.binding owner s.tree))⟩ := by
  obtain ⟨w, hw, hembedded⟩ := h.getPath? hc
  obtain rfl : v = w := Option.some.inj (hv.symm.trans hw)
  have hhere := h.lookup_replacements hc owner (.inl (List.prefix_refl (pathSegments c.path)))
  have hunder := fun key => h.lookup_replacements hc owner
    (.inr (List.prefix_append (pathSegments c.path) [key]))
  cases hmap : c.isMap with
  | false =>
    rw [c.pathSegments_place, hmap, if_neg Bool.false_ne_true, if_pos rfl] at hhere
    rw [Tree.substituteValue_of_lookup hhere]
    exact ⟨fun htrue => absurd htrue Bool.false_ne_true, Field.read_bound _ hmap⟩
  | true =>
    -- the map stays, and its values are the sub-documents
    rw [c.pathSegments_place, hmap, if_pos rfl] at hhere
    simp only [c.pathSegments_place, hmap, if_true] at hunder
    rw [hmap] at hembedded
    obtain ⟨fields, rfl, htype, hof, harray⟩ := exists_of_embedded?_map hembedded
    rw [if_neg (by simp)] at hhere
    rw [Tree.substituteValue_dict hhere, harray]
    have hmapType := Tree.lookup_substituteFields (s.replacements owner) (pathSegments c.path) fields
      "type"
    have hmapOf := Tree.lookup_substituteFields (s.replacements owner) (pathSegments c.path) fields
      "of"
    have hleaf := (hunder "type").trans (if_neg (by simp))
    simp only [htype, Option.map_some, Tree.substituteValue, hleaf, Option.getD_none] at hmapType
    rw [hof, Option.map_some,
      Tree.substituteValue_of_lookup ((hunder "of").trans (if_pos rfl))] at hmapOf
    have hbound : c.bound (c.binding owner s.tree) = .subDocument (c.binding owner s.tree) := by
      simp [ChildSchema.bound, hmap]
    rw [hbound] at hmapOf
    exact ⟨fun _ => rfl, _, Field.read_mapOf hmapType hmapOf⟩

omit hc

/-- An open object that is not replaced itself has a member of its own, with an object type. -/
theorem mem_ofFields_of_isOpen (outlook : Outlook) {fields object : Fields} {key : String}
    {before : List String}
    (hbefore : Tree.valueAt? (.dict s.tree) before = some (.dict fields))
    (hlookup : fields.lookup key = some (.dict object)) (hnested : isFieldSpec object = false)
    (hopen : IsOpen key object)
    (hhere : (s.replacements owner).lookup (before ++ [key]) = none) :
    ⟨key, false, false, .object (Member.ofFields outlook
        (Tree.substituteFields (s.replacements owner) (before ++ [key]) object))⟩ ∈
      Member.ofFields outlook (Tree.substituteFields (s.replacements owner) before fields) := by
  have hobject := Tree.valueAt?_append_singleton hbefore hlookup
  have hfield := Tree.lookup_substituteFields (s.replacements owner) before fields key
  rw [hlookup, Option.map_some, Tree.substituteValue_dict hhere] at hfield
  -- neither its type nor what it might refer with is replaced
  have htype : ∀ v, object.lookup "type" = some v →
      (s.replacements owner).lookup (before ++ [key] ++ ["type"]) = none := fun v hv =>
    h.lookup_replacements_eq_none owner (Tree.valueAt?_append_singleton hobject hv)
      (hopen.untyped v hv) (by simp)
  have href : ∀ v, object.lookup "ref" = some v →
      (s.replacements owner).lookup (before ++ [key] ++ ["ref"]) = none := fun v hv =>
    h.lookup_replacements_eq_none owner (Tree.valueAt?_append_singleton hobject hv)
      (fun _ _ hembedded =>
        absurd (isTruthy_of_embedded? hembedded) (by simp [hopen.unreferring v hv]))
      (by simp)
  have hspec := (Tree.isFieldSpec_substituteFields htype).trans hnested
  refine Member.mem_ofFields_nestedObject outlook (mem_of_lookup hfield) hopen.data hspec ?_
  rw [Member.reference?, Tree.lookup_substituteFields, Option.filter_eq_none_iff]
  intro w hw
  obtain ⟨v, hv, rfl⟩ := Option.map_eq_some_iff.mp hw
  rw [Tree.isTruthy_substituteValue (href v hv), hopen.unreferring v hv]
  exact Bool.false_ne_true

include hc

/-- In the tree in which the embedded schemas are bound, the keys that lead to an embedded schema
through open objects lead to one member, which names its interface. Unless it is embedded as an
array, what the tree says of its requirement decides whether the member is optional. -/
theorem exists_memberAt (outlook : Outlook) {fields : Fields} {keys before : List String} {v : Value}
    (hname : c.interfaceName outlook.shape owner ≠ "") (hat : FieldAt IsOpen fields keys v)
    (hplain : Tree.IsPlain fields)
    (hbefore : Tree.valueAt? (.dict s.tree) before = some (.dict fields))
    (hpath : pathSegments c.path = before ++ keys) :
    ∃ m, (∀ m', MemberAt (Member.ofFields outlook
        (Tree.substituteFields (s.replacements owner) before fields)) keys m' ↔ m' = m) ∧
      m.type = c.memberType (c.interfaceName outlook.shape owner) ∧
      (c.isArray = false → m.isOptional = !(c.binding owner s.tree).required) := by
  -- along the keys, with the segments of the tree that are behind and those that are still to come
  induction hat generalizing before with
  | @here fields key v hlookup =>
    have hkeys : (Entries.keys (Tree.substituteFields (s.replacements owner) before fields)).Nodup :=
      Tree.keys_substituteFields _ _ fields ▸ hplain.1.1
    have hv := Tree.valueAt?_append_singleton hbefore hlookup
    rw [← hpath, Tree.valueAt?_dict _ (pathSegments_ne_nil _)] at hv
    obtain ⟨hmaps, isOptional, hread⟩ := h.read_bound hc owner hv
    have hfield := Tree.lookup_substituteFields (s.replacements owner) before fields key
    rw [hlookup, Option.map_some, ← hpath] at hfield
    have hmember := Member.ofField_binding outlook key s.tree isOptional
      (Member.ofFields outlook (Field.read
        (Tree.substituteValue (s.replacements owner) (pathSegments c.path) v)).body) hmaps hname
    have hmem : ⟨key, if c.isArray then isOptional else !(c.binding owner s.tree).required, false,
          c.memberType (c.interfaceName outlook.shape owner)⟩ ∈
        Member.ofFields outlook
          (Tree.substituteFields (s.replacements owner) before fields) := by
      refine Member.mem_ofFields.mpr ⟨_, mem_of_lookup hfield, ?_⟩
      rw [hread] at hmember ⊢
      exact hmember
    refine ⟨_, fun m' => ⟨fun hm' => ?_, fun heq => .here (heq ▸ hmem) (heq ▸ rfl)⟩, rfl,
      fun hsingle => by simp [hsingle]⟩
    cases hm' with
    | here hm' hkey => exact Member.eq_of_mem_ofFields hkeys hm' hmem hkey
    | inside _ hinner => cases hinner
  | @inside fields object key keys v hlookup hnested hopen hrest ih =>
    have hkeys : (Entries.keys (Tree.substituteFields (s.replacements owner) before fields)).Nodup :=
      Tree.keys_substituteFields _ _ fields ▸ hplain.1.1
    have hmore : pathSegments c.path = (before ++ [key]) ++ keys := by simpa using hpath
    obtain ⟨m, hm, htype, hmark⟩ := ih (hplain.2.of_lookup hlookup)
      (Tree.valueAt?_append_singleton hbefore hlookup) hmore
    have hobject := h.mem_ofFields_of_isOpen owner outlook hbefore hlookup hnested hopen
      (h.lookup_replacements_above hc owner hrest.ne_nil hmore)
    refine ⟨m, fun m' => ⟨fun hm' => ?_, fun heq => .inside hobject ((hm m').mpr heq)⟩, htype,
      hmark⟩
    cases hm' with
    | here => exact absurd rfl hrest.ne_nil
    | inside hmem hinner =>
      have heq := Member.eq_of_mem_ofFields hkeys hmem hobject rfl
      obtain rfl := TypeExpr.object.inj (congrArg Member.type heq)
      exact (hm m').mp hinner

end Schema.StandsApart

/-! ## Declarations -/

/-- A schema is declared with an interface for an embedded schema, and with one member under some
keys, whose type names that interface. -/
def Schema.Declares (s : Schema) (o : DeclareOptions) (keys : List String) (c : ChildSchema) : Prop :=
  ∃ interfaces members, s.declare o = .ok (s.declarationOf o interfaces members) ∧
    ∃ included, ∃ i ∈ interfaces, i = Hoisted.interface ⟨o.model, c, included⟩ o.shape ∧
      ∃ m, (∀ m', MemberAt members keys m' ↔ m' = m) ∧ m.type = c.memberType i.name

/-- An embedded schema to which keys lead through open objects is declared, when all options are
readable. -/
theorem Schema.StandsApart.declares (h : s.StandsApart) (hc : c ∈ s.children) {keys : List String}
    {v : Value} (hpath : pathSegments c.path = keys) (hat : FieldAt IsOpen s.tree keys v)
    {o : DeclareOptions} (hmodel : o.model ≠ "") (hname : c.interfaceName o.shape o.model ≠ "")
    (hreadable : s.IsReadable) : s.Declares o keys c := by
  obtain ⟨included, hincluded⟩ := (Schema.every_iff.mp hreadable).1
  obtain ⟨all, hall⟩ := s.exists_hoisted o.model hreadable
  obtain ⟨own, -, -, hmem, -⟩ := mem_hoisted_of_mem_children hmodel hall hc
  have hdeclare := s.declare_eq o
  rw [hincluded, hall, h.boundTree_eq hmodel] at hdeclare
  have hinterface : (Hoisted.interface ⟨o.model, c, own⟩ o.shape).name =
      c.interfaceName o.shape o.model := by
    rw [Hoisted.interface, ChildSchema.name_interface]
    rfl
  obtain ⟨m, hm, htype, -⟩ := h.exists_memberAt hc o.model ⟨o.shape, included⟩ hname hat h.plain
    (show Tree.valueAt? (.dict s.tree) [] = some (.dict s.tree) from rfl) hpath
  exact ⟨_, _, hdeclare, own, _, List.mem_map_of_mem hmem, rfl, m, hm, hinterface ▸ htype⟩

/-- A schema that occurs in a definition, at any depth of nested objects, is recorded under the path
of its field, unless it is the element of an array in a specification of its own, or the identifier's
virtual takes the place of its field; when the keys hold no dots, it is recorded in no other case. A
recorded schema is declared: there is an interface for it, and the type of its field names the
interface, when the objects on the way are declared as object types and all options are readable. -/
theorem Schema.embedded_declared {definition options : Value} {named fields : Fields}
    {s inner : Schema} (hdefinition : definitionOf definition = .ok fields)
    (hbuild : Schema.build definition options named = .ok s) {keys : List String} {v : Value}
    {spelling : Spelling} (hfield : FieldAt (fun _ _ => True) fields keys v)
    (hoccurs : Occurs inner spelling v) :
    (s.Collects keys spelling → spelling.child keys inner ∈ s.children) ∧
      (Tree.IsPlain fields →
        (spelling.child keys inner ∈ s.children → s.Collects keys spelling) ∧
        (s.Collects keys spelling →
          FieldAt (fun key object => IsOpen key (normalizeFields object)) fields keys v →
          s.IsReadable → ∀ o : DeclareOptions, o.model ≠ "" →
          (spelling.child keys inner).interfaceName o.shape o.model ≠ "" →
          s.Declares o keys (spelling.child keys inner))) := by
  obtain ⟨given, options, hgiven, rfl⟩ := Schema.exists_ofTree_of_build hbuild
  obtain rfl : given = fields := Except.ok.inj (hgiven.symm.trans hdefinition)
  refine ⟨fun hcollects => hcollects.mem_children hfield hoccurs, fun hplain =>
    ⟨Schema.collects_of_mem_children hplain hfield hoccurs,
      fun hcollects hopen hreadable o hmodel hname => ?_⟩⟩
  have hkeys : ∀ key ∈ keys, '.' ∉ key.toList :=
    hplain.not_mem_of_getSegments? (hfield.getSegments? ▸ rfl)
  exact (Schema.standsApart_ofTree hplain.normalizeFields options).declares
    (hcollects.mem_children hfield hoccurs) (pathSegments_intercalate hfield.ne_nil hkeys)
    (hcollects.fieldAt hopen fun _ _ hobject => hobject) hmodel hname hreadable

/-- A post with notes in an object. -/
def threadFields : Fields :=
  [("thread", .dict [("notes", .list [.schema noteSchema]), ("isOpen", .type .bool)])]

/-- The notes in the thread of a post are declared. -/
theorem embedded_declared_notes :
    ∃ s, Schema.build (.dict threadFields) .null [] = .ok s ∧
      ⟨"thread.notes", noteSchema, true, false⟩ ∈ s.children ∧
      s.Declares ⟨.document, "Post", false, "", "", false⟩ ["thread", "notes"]
        ⟨"thread.notes", noteSchema, true, false⟩ := by
  have hplain : Tree.IsPlain threadFields := by
    simp [threadFields, Tree.Every, FieldsEvery, Value.Every, ItemsEvery, HasPlainKeys, Entries.keys]
  have hopen : FieldAt (fun key object => IsOpen key (normalizeFields object)) threadFields
      ["thread", "notes"] (.list [.schema noteSchema]) :=
    .inside rfl rfl ⟨by decide, fun _ h => (by cases h), fun _ h => (by cases h)⟩ (.here rfl)
  have hfield : FieldAt (fun _ _ => True) threadFields ["thread", "notes"]
      (.list [.schema noteSchema]) :=
    .inside rfl rfl trivial (.here rfl)
  obtain ⟨hrecorded, hdeclared⟩ := Schema.embedded_declared rfl
    (show Schema.build (.dict threadFields) .null [] = .ok _ from rfl) hfield .items
  refine ⟨_, rfl, hrecorded ⟨rfl, fun _ => by decide⟩, ?_⟩
  exact (hdeclared hplain).2 ⟨rfl, fun _ => by decide⟩ hopen
    (Schema.every_iff.mpr ⟨⟨false, rfl⟩, trivial, Schema.every_iff.mpr ⟨⟨false, rfl⟩, trivial⟩,
      trivial⟩) _ (by decide) (by decide)

/-- A schema that is the element of an array in a specification of its own is lost: it is not
recorded, and the field is declared as an array of empty objects. -/
theorem embedded_in_element_lost :
    ∃ s, Schema.build
          (.dict [("notes", .list [.dict [("type", .schema noteSchema)]])]) .null
          [("_id", .bool false), ("version_key", .bool false)] = .ok s ∧
      Occurs noteSchema .itemSpec (.list [.dict [("type", .schema noteSchema)]]) ∧
      s.children = [] ∧ hoist .lean "Post" s = .ok [] ∧
      Member.ofFields ⟨.lean, false⟩ (s.boundTree "Post") =
        [⟨"notes", false, false, .array false (.object [])⟩] :=
  ⟨_, rfl, .itemSpec rfl, rfl, rfl, rfl⟩

end SchemaTypings
