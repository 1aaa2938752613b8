import SchemaTypings.Proofs.Generation.DocumentIds
import SchemaTypings.Proofs.Generation.Embedded

/-!
# Required fields

The specification of a field may say whether the field is required. For a native field the truth of
what it says decides whether the member is optional (`Schema.DefinesField.marks_native`). For a
sub-document, and for the values of a map, the sub-document that is bound decides, and it takes what
is said for a requirement only when that is the truth value itself
(`Schema.DefinesField.marks_embedded`): a requirement with a message is none. So the three are
declared alike for what counts as false and for the truth value, and for nothing else
(`required_alike_iff`).
-/

namespace SchemaTypings

/-! ## Marks -/

/-- Whether a value is the truth value itself, and does not only count as true. -/
def Value.isTrue : Value → Bool
  | .bool b => b
  | _ => false

theorem Value.isTrue_iff {v : Value} : v.isTrue = true ↔ v = .bool true := by
  cases v <;> simp [isTrue]

/-- What counts as false is not the truth value. -/
theorem Value.isTrue_of_isTruthy_eq_false {v : Value} (h : v.isTruthy = false) :
    v.isTrue = false := by
  cases v with
  | bool b => exact h
  | _ => rfl

/-- The members of a schema's own declaration. -/
def Schema.ownMembers (s : Schema) (o : DeclareOptions) (included : Bool) : List Member :=
  Member.ofFields ⟨o.shape, included⟩ (s.boundTree o.model)

/-- A schema is declared, and one of its own members has this key, and this mark. -/
def Schema.Marks (s : Schema) (o : DeclareOptions) (key : String) (isOptional : Bool) : Prop :=
  ∃ included interfaces, includesVirtuals s.options = .ok included ∧
    s.declare o = .ok (s.declarationOf o interfaces (s.ownMembers o included)) ∧
    ∃ m, (∀ m', m' ∈ s.ownMembers o included ∧ m'.key = key ↔ m' = m) ∧ m.isOptional = isOptional

variable {s : Schema} {o : DeclareOptions} {key : String}

theorem Schema.Marks.unique {isOptional isOptional' : Bool} (h : s.Marks o key isOptional)
    (h' : s.Marks o key isOptional') : isOptional = isOptional' := by
  obtain ⟨included, -, hincluded, -, m, hm, rfl⟩ := h
  obtain ⟨included', -, hincluded', -, m', hm', rfl⟩ := h'
  obtain rfl : included = included' := Except.ok.inj (hincluded.symm.trans hincluded')
  rw [(hm' m).mp ((hm m).mpr rfl)]

/-- A schema whose options are readable is declared with the marks of its members. -/
theorem Schema.IsReadable.marks (h : s.IsReadable) {isOptional : Bool}
    (hmember : ∀ included, ∃ m, (∀ m', m' ∈ s.ownMembers o included ∧ m'.key = key ↔ m' = m) ∧
      m.isOptional = isOptional) : s.Marks o key isOptional := by
  obtain ⟨included, hincluded⟩ := (Schema.every_iff.mp h).1
  obtain ⟨hoisted, hhoisted⟩ := s.exists_hoisted o.model h
  have hdeclare := s.declare_eq o
  rw [hincluded, hhoisted] at hdeclare
  exact ⟨included, _, hincluded, hdeclare, hmember included⟩

/-! ## Fields of definitions -/

/-- A schema is built of a definition whose keys hold no dots, with this field among the others. The
identifier's virtual does not take its place, and all options are readable. -/
structure Schema.DefinesField (s : Schema) (key : String) (v : Value) : Prop where
  exists_build : ∃ (fields named : Fields) (given : Value), Tree.IsPlain fields ∧
    fields.lookup key = some v ∧ Schema.build (.dict fields) given named = .ok s
  kept : asksForIdVirtual s.options = true → key ≠ "id"
  readable : s.IsReadable

theorem definitionOf_dict (fields : Fields) : definitionOf (.dict fields) = .ok fields := by
  cases fields <;> rfl

/-- The schema is made of the normal form of its definition. -/
theorem Schema.DefinesField.exists_ofTree {v : Value} (h : s.DefinesField key v) :
    ∃ fields options, Tree.IsPlain fields ∧ fields.lookup key = some v ∧
      s = Schema.ofTree (normalizeFields fields) options := by
  obtain ⟨fields, named, given, hplain, hfield, hbuild⟩ := h.exists_build
  obtain ⟨fields', options, hgiven, rfl⟩ := Schema.exists_ofTree_of_build hbuild
  obtain rfl : fields = fields' := Except.ok.inj ((definitionOf_dict fields).symm.trans hgiven)
  exact ⟨fields, options, hplain, hfield, rfl⟩

/-- The tree of the schema holds the normal form of the field. -/
theorem Schema.DefinesField.lookup_tree {v : Value} (h : s.DefinesField key v) :
    s.tree.lookup key = some (normalize v false) := by
  obtain ⟨fields, options, -, hfield, rfl⟩ := h.exists_ofTree
  have hnormal : (normalizeFields fields).lookup key = some (normalize v false) := by
    rw [lookup_normalizeFields, hfield]
    rfl
  exact (Schema.lookup_tree_ofTree (Entries.mem_keys_of_lookup hnormal) h.kept).trans hnormal

theorem Schema.DefinesField.hasPlainDefinition {v : Value} (h : s.DefinesField key v) :
    s.HasPlainDefinition := by
  obtain ⟨fields, named, given, hplain, -, hbuild⟩ := h.exists_build
  exact ⟨.dict fields, .build hbuild, hplain⟩

variable {spec : Fields}

/-! ## Native fields -/

/-- A specification of a native type that refers to nothing is declared with the mark of its
field. -/
theorem Member.ofField_tag (outlook : Outlook) {t : Tag} (hkey : key ∉ metadataKeys)
    (hid : key ≠ "_id") (htype : spec.lookup "type" = some (.tag t))
    (href : spec.lookup "ref" = none) (isOptional isMap : Bool) (nested : List Member) :
    ∃ type, ofField outlook key ⟨false, isOptional, isMap, some (.fields spec)⟩ nested =
      some ⟨key, isOptional, false, type⟩ := by
  have hversion : key ≠ "__v" := fun h => hkey (h ▸ by decide)
  obtain ⟨text, htext⟩ := exists_tagType_named outlook.shape hversion spec t
  have hbase : baseType outlook.shape key spec = .named text := by
    rw [baseType, htype]
    exact htext
  have hmember := ofSpec_named outlook ⟨false, isOptional, isMap, some (.fields spec)⟩ nested hkey
    (by rw [href]; rfl) hbase
  have hmark : (isOptional && key != "_id") = isOptional := by simp [hid]
  rw [hmark] at hmember
  exact ⟨_, hmember⟩

/-- A native field that refers to nothing is optional unless what it says of its requirement counts
as true. -/
theorem Member.ofField_native (outlook : Outlook) {t : Tag} (hkey : key ∉ metadataKeys)
    (hid : key ≠ "_id") (hnative : IsNative (some (.dict spec)) t)
    (href : spec.lookup "ref" = none) (nested : List Member) :
    ∃ type, ofField outlook key (Field.read (.dict spec)) nested =
      some ⟨key, !Field.isRequired (.dict spec), false, type⟩ := by
  rw [hnative.read]
  by_cases hmap : t = .map
  · -- a map is declared by the type of its values
    rw [if_pos hmap]
    exact ofField_tag outlook hkey hid rfl rfl _ _ nested
  · rw [if_neg hmap]
    exact ofField_tag outlook hkey hid hnative.type href _ _ nested

/-- A native field is declared, and is optional unless what it says of its requirement counts as
true. -/
theorem Schema.DefinesField.marks_native (h : s.DefinesField key (.dict spec))
    (hkey : key ∉ metadataKeys) (hid : key ≠ "_id") {t : Value} {tag : Tag}
    (htype : spec.lookup "type" = some t) (htag : normalize t false = .tag tag)
    (hof : spec.lookup "of" = none) (href : spec.lookup "ref" = none) :
    s.Marks o key (!Field.isRequired (.dict spec)) := by
  have hfilled : t.isFilledDict = false := by
    rw [← isFilledDict_normalize, htag]
    rfl
  obtain ⟨hnormal, hnormalType, -⟩ := normalize_spec htype hfilled false
  have hnative : IsNative (some (.dict (normalizeSpec spec))) tag := by
    refine ⟨hnormalType.trans (congrArg some htag), fun _ => ?_⟩
    rw [specOf, lookup_normalizeSpec, hof]
    rfl
  -- the tree holds the normal form of the field, and no binding of another field touches it
  have htree := h.lookup_tree
  rw [hnormal] at htree
  obtain ⟨hbound, hnodup⟩ := h.hasPlainDefinition.lookup_boundTree o.model (htree.symm ▸ hnative)
  rw [htree] at hbound
  have hrequired : Field.isRequired (.dict (normalizeSpec spec)) =
      Field.isRequired (.dict spec) := by
    rw [Field.isRequired, Field.isRequired, lookup_normalizeSpec_of_ne (by decide) (by decide)]
  refine h.readable.marks fun included => ?_
  obtain ⟨type, hmember⟩ := Member.ofField_native ⟨o.shape, included⟩ hkey hid hnative
    ((lookup_normalizeSpec_of_ne (by decide) (by decide)).trans href)
    (Member.ofFields ⟨o.shape, included⟩ (Field.read (.dict (normalizeSpec spec))).body)
  have hmem : ⟨key, _, false, type⟩ ∈ s.ownMembers o included :=
    Member.mem_ofFields.mpr ⟨_, mem_of_lookup hbound, hmember⟩
  refine ⟨⟨key, _, false, type⟩, fun m' => ⟨?_, ?_⟩, congrArg (!·) hrequired⟩
  · rintro ⟨hm', heq⟩
    exact Member.eq_of_mem_ofFields hnodup hm' hmem heq
  · rintro rfl
    exact ⟨hmem, rfl⟩

/-! ## Embedded schemas -/

/-- The sub-document of an embedded schema is required when the specification of its field says so
with the truth value itself. -/
theorem ChildSchema.required_binding (c : ChildSchema) (owner : String) {tree : Fields}
    (hspec : Tree.getPath? tree c.path = some (.dict spec)) :
    (c.binding owner tree).required = (spec.lookup "required").any Value.isTrue := by
  have hsegments : pathSegments (c.path ++ ".required") = pathSegments c.path ++ ["required"] := by
    have happend := pathSegments_append c.path "required"
    rw [String.append_assoc] at happend
    exact happend
  have hpath : Tree.getPath? tree (c.path ++ ".required") = spec.lookup "required" :=
    calc
      Tree.getPath? tree (c.path ++ ".required")
        = Tree.getSegments? tree (pathSegments c.path ++ ["required"]) := by
          rw [Tree.getPath?, hsegments]
      _ = (Tree.getPath? tree c.path).bind (Tree.valueAt? · ["required"]) :=
          Tree.getSegments?_append tree (pathSegments_ne_nil _) ["required"]
      _ = spec.lookup "required" := by
          rw [hspec]
          rfl
  rw [ChildSchema.binding]
  dsimp only
  rw [hpath]
  cases spec.lookup "required" with
  | none => rfl
  | some v =>
    cases v with
    | bool b => cases b <;> rfl
    | _ => rfl

/-- A field that embeds a schema, and is no array, is declared, and is optional unless its
specification says with the truth value itself that it is required. -/
theorem Schema.DefinesField.marks_embedded (h : s.DefinesField key (.dict spec)) {inner : Schema}
    {spelling : Spelling} (hoccurs : Occurs inner spelling (.dict spec))
    (hsingle : spelling.isArray = false) (hmodel : o.model ≠ "")
    (hname : o.shape = .lean → subDocumentName key o.model ≠ "") :
    s.Marks o key (!(spec.lookup "required").any Value.isTrue) := by
  have hnormal := hoccurs.normalize_dict false
  have htree := h.lookup_tree
  obtain ⟨fields, options, hplain, hfield, rfl⟩ := h.exists_ofTree
  have hcollects : (Schema.ofTree (normalizeFields fields) options).Collects [key] spelling :=
    ⟨Spelling.isElementSpec_eq_false hsingle,
      fun hasks hhead => h.kept hasks (Option.some.inj hhead)⟩
  have hfieldAt : FieldAt (fun name object => IsOpen name (normalizeFields object)) fields [key]
      (.dict spec) := .here hfield
  have hc := hcollects.mem_children hfieldAt hoccurs
  have hat := hcollects.fieldAt hfieldAt fun _ _ hopen => hopen
  have hdot : '.' ∉ key.toList := hplain.1.2 key (Entries.mem_keys_of_lookup hfield)
  have hpath : pathSegments (spelling.child [key] inner).path = [key] :=
    pathSegments_intercalate (List.cons_ne_nil _ _) (by simpa using hdot)
  have hcalled : (spelling.child [key] inner).interfaceName o.shape o.model ≠ "" := by
    refine ChildSchema.interfaceName_ne_empty ?_
    rwa [Spelling.child, String.intercalate_singleton]
  have happart := Schema.standsApart_ofTree hplain.normalizeFields options
  -- the requirement is read back from under the path, and normal forms leave it alone
  have hthere : Tree.getPath? (Schema.ofTree (normalizeFields fields) options).tree
      (spelling.child [key] inner).path = some (.dict (normalizeSpec spec)) := by
    rw [Tree.getPath?, hpath]
    exact htree.trans (congrArg some hnormal)
  have hrequired := ChildSchema.required_binding _ o.model hthere
  rw [lookup_normalizeSpec_of_ne (by decide) (by decide)] at hrequired
  refine h.readable.marks fun included => ?_
  obtain ⟨m, hm, -, hmark⟩ := happart.exists_memberAt hc o.model ⟨o.shape, included⟩ hcalled hat
    happart.plain (show Tree.valueAt? (.dict _) [] = some _ from rfl) hpath
  refine ⟨m, fun m' => ?_, (hmark hsingle).trans (congrArg (!·) hrequired)⟩
  rw [Schema.ownMembers, happart.boundTree_eq hmodel, ← memberAt_singleton]
  exact hm m'

/-! ## Three fields -/

/-- The specification of a field that says a type, and whether the field is required. -/
def requiringSpec (type required : Value) : Value :=
  .dict [("type", type), ("required", required)]

/-- The same of a map, with what its values are. -/
def requiringMapSpec (type values required : Value) : Value :=
  .dict [("type", type), ("of", values), ("required", required)]

/-- A field of a native type, one of an embedded schema and one of a map of it that say the same
about their requirement are declared. The first is optional unless that counts as true, and the
others unless it is the truth value: all have the same mark exactly when it counts as false or is
the truth value. -/
theorem required_alike_iff {native embedded mapped inner : Schema} {t w r : Value} {tag : Tag}
    (hkey : key ∉ metadataKeys) (hid : key ≠ "_id") (htag : normalize t false = .tag tag)
    (hmap : normalize w false = .tag .map) (hnative : native.DefinesField key (requiringSpec t r))
    (hembedded : embedded.DefinesField key (requiringSpec (.schema inner) r))
    (hmapped : mapped.DefinesField key (requiringMapSpec w (.schema inner) r))
    (hmodel : o.model ≠ "") (hname : o.shape = .lean → subDocumentName key o.model ≠ "") :
    native.Marks o key (!r.isTruthy) ∧ embedded.Marks o key (!r.isTrue) ∧
      mapped.Marks o key (!r.isTrue) ∧
      ((∃ isOptional, native.Marks o key isOptional ∧ embedded.Marks o key isOptional ∧
          mapped.Marks o key isOptional) ↔
        r.isTruthy = false ∨ r = .bool true) := by
  have hnativeMark : native.Marks o key (!r.isTruthy) :=
    hnative.marks_native hkey hid rfl htag rfl rfl
  have hembeddedMark : embedded.Marks o key (!r.isTrue) :=
    hembedded.marks_embedded (.typed rfl) rfl hmodel hname
  have hmappedMark : mapped.Marks o key (!r.isTrue) :=
    hmapped.marks_embedded (.mapValues rfl hmap rfl) rfl hmodel hname
  refine ⟨hnativeMark, hembeddedMark, hmappedMark, ?_⟩
  constructor
  · rintro ⟨isOptional, hmark, hmark', -⟩
    have hsame : r.isTruthy = r.isTrue := by
      simpa using (hnativeMark.unique hmark).trans (hmark'.unique hembeddedMark)
    rw [hsame, ← Value.isTrue_iff]
    exact (Bool.eq_false_or_eq_true r.isTrue).symm
  · rintro (hfalse | rfl)
    · rw [hfalse] at hnativeMark
      rw [Value.isTrue_of_isTruthy_eq_false hfalse] at hembeddedMark hmappedMark
      exact ⟨true, hnativeMark, hembeddedMark, hmappedMark⟩
    · exact ⟨false, hnativeMark, hembeddedMark, hmappedMark⟩

/-- A city, without an identifier. -/
def citySchema : Schema :=
  Schema.ofTree [("city", .tag .string)] [("_id", .bool false), ("version_key", .bool false)]

/-- A user with a home. -/
def homeOwner (home : Value) : Schema :=
  Schema.ofTree (normalizeFields [("home", home)])
    [("_id", .bool false), ("version_key", .bool false)]

theorem homeOwner_definesField {home : Value} (hplain : home.Every HasPlainKeys (fun _ => True))
    (hreadable : (homeOwner home).IsReadable) : (homeOwner home).DefinesField "home" home where
  exists_build := by
    refine ⟨[("home", home)], [("_id", .bool false), ("version_key", .bool false)], .null, ?_, rfl,
      rfl⟩
    simp [Tree.Every, FieldsEvery, HasPlainKeys, Entries.keys, hplain]
  kept := fun _ => by decide
  readable := hreadable

theorem every_requiringSpec {type required : Value}
    (htype : type.Every HasPlainKeys (fun _ => True))
    (hrequired : required.Every HasPlainKeys (fun _ => True)) :
    (requiringSpec type required).Every HasPlainKeys (fun _ => True) := by
  simp [requiringSpec, Value.Every, FieldsEvery, HasPlainKeys, Entries.keys, htype, hrequired]

variable {required : Value} (hrequired : required.Every HasPlainKeys (fun _ => True))

include hrequired

theorem homeOwner_definesText :
    (homeOwner (requiringSpec (.type .str) required)).DefinesField "home"
      (requiringSpec (.type .str) required) :=
  homeOwner_definesField (every_requiringSpec trivial hrequired)
    (Schema.every_iff.mpr ⟨⟨false, rfl⟩, trivial⟩)

theorem homeOwner_definesCity :
    (homeOwner (requiringSpec (.schema citySchema) required)).DefinesField "home"
      (requiringSpec (.schema citySchema) required) :=
  homeOwner_definesField (every_requiringSpec trivial hrequired)
    (Schema.every_iff.mpr ⟨⟨false, rfl⟩, trivial, Schema.every_iff.mpr ⟨⟨false, rfl⟩, trivial⟩,
      trivial⟩)

omit hrequired

/-- How a user is declared. -/
def homeOptions (shape : Shape) : DeclareOptions :=
  ⟨shape, "User", false, "", "", false⟩

/-- A home that is required is so as a text, as a city and as a map of cities. -/
theorem required_alike_home :
    (homeOwner (requiringSpec (.type .str) (.bool true))).Marks (homeOptions .document) "home"
        false ∧
      (homeOwner (requiringSpec (.schema citySchema) (.bool true))).Marks (homeOptions .document)
        "home" false ∧
      (homeOwner (requiringMapSpec (.type .dict) (.schema citySchema) (.bool true))).Marks
        (homeOptions .document) "home" false := by
  have hcities : (homeOwner (requiringMapSpec (.type .dict) (.schema citySchema)
      (.bool true))).DefinesField "home"
        (requiringMapSpec (.type .dict) (.schema citySchema) (.bool true)) := by
    refine homeOwner_definesField ?_ (Schema.every_iff.mpr ⟨⟨false, rfl⟩, trivial,
      Schema.every_iff.mpr ⟨⟨false, rfl⟩, trivial⟩, trivial⟩)
    simp [requiringMapSpec, Value.Every, FieldsEvery, HasPlainKeys, Entries.keys]
  have hplain : (Value.bool true).Every HasPlainKeys (fun _ => True) := trivial
  have htag : normalize (.type .str) false = .tag .string := rfl
  obtain ⟨htext, hcity, hmap, -⟩ := required_alike_iff (o := homeOptions .document) (by decide)
    (by decide) htag rfl (homeOwner_definesText hplain) (homeOwner_definesCity hplain) hcities
    (by decide) (fun hlean => Shape.noConfusion hlean)
  exact ⟨htext, hcity, hmap⟩

/-- What a home is required with when a message comes along. -/
def requiredMessage : Value :=
  .list [.bool true, .text "needed"]

/-- A home that is required with a message is required as a text, and optional as a city. -/
theorem required_message_not_alike :
    (homeOwner (requiringSpec (.type .str) requiredMessage)).DefinesField "home"
        (requiringSpec (.type .str) requiredMessage) ∧
      (homeOwner (requiringSpec (.schema citySchema) requiredMessage)).DefinesField "home"
        (requiringSpec (.schema citySchema) requiredMessage) ∧
      renderMembers .lean 0 ((homeOwner (requiringSpec (.type .str) requiredMessage)).ownMembers
        (homeOptions .lean) false) = "  home: string;\n" ∧
      renderMembers .lean 0 ((homeOwner (requiringSpec (.schema citySchema)
        requiredMessage)).ownMembers (homeOptions .lean) false) = "  home?: UserHome;\n" ∧
      ¬∃ isOptional,
        (homeOwner (requiringSpec (.type .str) requiredMessage)).Marks (homeOptions .lean) "home"
            isOptional ∧
          (homeOwner (requiringSpec (.schema citySchema) requiredMessage)).Marks (homeOptions .lean)
            "home" isOptional := by
  have hplain : requiredMessage.Every HasPlainKeys (fun _ => True) := ⟨trivial, trivial, trivial⟩
  have htext := homeOwner_definesText hplain
  have hcity := homeOwner_definesCity hplain
  have htag : normalize (.type .str) false = .tag .string := rfl
  refine ⟨htext, hcity, by decide +kernel, by decide +kernel, ?_⟩
  rintro ⟨isOptional, hmark, hmark'⟩
  have hasked := htext.marks_native (o := homeOptions .lean) (by decide) (by decide) rfl htag rfl
    rfl
  have hoptional := hcity.marks_embedded (o := homeOptions .lean) (.typed rfl) rfl (by decide)
    fun _ => by decide
  exact Bool.noConfusion ((hasked.unique hmark).trans (hmark'.unique hoptional))

end SchemaTypings
