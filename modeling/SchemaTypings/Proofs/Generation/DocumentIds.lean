import SchemaTypings.Proofs.Generation.Nesting
import SchemaTypings.Proofs.Generation.References
import SchemaTypings.Proofs.Schemas.PlainDefinition

/-!
# The identifiers of documents

The interface of a document extends the document of mongoose, which is told the type of the
identifier, and holds the identifier as a member. The model's own interface names the type there
that the member has when the identifier has a native type, and falls back to object identifiers when
it has none. An interface that is hoisted names object identifiers always, whatever its member is.
-/

namespace SchemaTypings

/-! ## Members -/

/-- The type of a native field is no buffer of a live document unless it is one. -/
theorem tagType_ne_buffer {shape : Shape} {key : String} {spec : Fields} {t : Tag}
    (ht : t ≠ .buffer) : tagType shape key spec t ≠ .named "Buffer" := by
  have henum : ∀ values, enumType values ≠ "Buffer" := by
    intro values heq
    have hhead := congrArg (fun s => s.toList.head?) heq
    simp [enumType] at hhead
  cases t with
  | string =>
    rw [tagType]
    split
    · simp
    · simpa using henum _
  | number =>
    rw [tagType]
    split <;> simp
  | buffer => exact absurd rfl ht
  | decimal128 => cases shape <;> simp [tagType]
  | map => cases shape <;> simp [tagType]
  | objectId => simp [tagType, objectIdType]
  | _ => simp [tagType]

/-- All native types are declared but that of a version counter. -/
theorem exists_tagType_named (shape : Shape) {key : String} (hkey : key ≠ "__v") (spec : Fields)
    (t : Tag) : ∃ text, tagType shape key spec t = .named text := by
  cases t with
  | string =>
    rw [tagType]
    split
    · exact ⟨_, rfl⟩
    · exact ⟨_, rfl⟩
  | number => exact ⟨_, if_neg hkey⟩
  | _ => exact ⟨_, rfl⟩

/-- What refers to nothing has the type of its specification. -/
theorem Member.ofSpec_named (outlook : Outlook) {key text : String} (f : Field) {spec : Fields}
    (nested : List Member) (hkey : key ∉ metadataKeys)
    (href : (spec.lookup "ref").filter Value.isTruthy = none)
    (hbase : baseType outlook.shape key spec = .named text) :
    Member.ofSpec outlook key f spec nested =
      some ⟨key, f.isOptional && key != "_id", false, wrap outlook.shape f false (.named text)⟩ := by
  simp [ofSpec, hkey, href, hbase]

/-! ## Identifiers -/

/-- The identifier of a schema's documents has a native type, refers to nothing and is no buffer. -/
structure Schema.HasNativeId (s : Schema) (t : Tag) : Prop where
  native : IsNative (s.tree.lookup "_id") t
  plain : ∀ ref, s.idSpec.lookup "ref" = some ref → ref.isTruthy = false
  ne_buffer : t ≠ .buffer

theorem Schema.idSpec_eq (s : Schema) : s.idSpec = specOf (s.tree.lookup "_id") :=
  rfl

/-- A native field is read as its specification, or as a map of anything. -/
theorem IsNative.read {v : Value} {t : Tag} (h : IsNative (some v) t) :
    Field.read v =
      ⟨false, !Field.isRequired v, decide (t = .map),
        some (.fields (if t = .map then [("type", .tag .mixed)] else specOf (some v)))⟩ := by
  obtain ⟨htype, hvalues⟩ := h
  have hof : Field.ofValue false (!Field.isRequired v) v =
      ⟨false, !Field.isRequired v, decide (t = .map),
        some (.fields (if t = .map then [("type", .tag .mixed)] else specOf (some v)))⟩ := by
    have htarget : Field.targetOf v = some (.fields (specOf (some v))) := by
      cases v with
      | tag | dict => rfl
      | _ => cases htype
    by_cases hmap : t = .map
    · subst hmap
      simp only [Field.ofValue, htarget, htype, hvalues rfl]
      rfl
    · simp only [Field.ofValue, htarget, htype, hmap, decide_false, if_false]
      split
      · next heq => exact absurd (Value.tag.inj (Option.some.inj heq)) hmap
      · rfl
  cases v with
  | tag other => exact hof
  | dict fields =>
    have hlookup : fields.lookup "type" = some (.tag t) := htype
    simp only [Field.read, hlookup]
    exact hof
  | _ => cases htype

section Identifier

variable {s : Schema} {t : Tag} {v : Value}

theorem Schema.HasNativeId.lookup_type (h : s.HasNativeId t) :
    s.idSpec.lookup "type" = some (.tag t) := by
  rw [s.idSpec_eq]
  exact h.native.type

theorem Schema.idType_of_named {text : String}
    (h : baseType .document "_id" s.idSpec = .named text) : s.idType = text := by
  rw [s.idType_eq, h]

/-- The member of an identifier that is a map is one of anything. -/
theorem Schema.HasNativeId.member_map (h : s.HasNativeId .map) (hv : s.tree.lookup "_id" = some v)
    (included : Bool) (nested : List Member) :
    Member.ofField ⟨.document, included⟩ "_id" (Field.read v) nested =
        some ⟨"_id", false, false, .map (.named "any")⟩ ∧
      s.idType = "mongoose.Types.Map<any>" := by
  have hbase : baseType .document "_id" s.idSpec = .named "mongoose.Types.Map<any>" := by
    rw [baseType, h.lookup_type]
    rfl
  refine ⟨?_, Schema.idType_of_named hbase⟩
  have hread : Field.read v =
      ⟨false, !Field.isRequired v, true, some (.fields [("type", .tag .mixed)])⟩ := by
    simpa using (hv ▸ h.native).read
  have hkey : "_id" ∉ metadataKeys := by decide
  have href : (List.lookup "ref" [("type", Value.tag .mixed)]).filter Value.isTruthy = none := rfl
  have hmember := Member.ofSpec_named ⟨.document, included⟩ (Field.read v) nested hkey href rfl
  rw [hread] at hmember ⊢
  exact hmember.trans (by simp [Member.wrap_eq, Member.elementType_map])

/-- The member of any other identifier and the document read the type off the same specification. -/
theorem Schema.HasNativeId.member_of_ne_map (h : s.HasNativeId t) (hmap : t ≠ .map)
    (hv : s.tree.lookup "_id" = some v) (included : Bool) (nested : List Member) :
    Member.ofField ⟨.document, included⟩ "_id" (Field.read v) nested =
      some ⟨"_id", false, false, .named s.idType⟩ := by
  have hspec : s.idSpec = specOf (some v) := by rw [s.idSpec_eq, hv]
  have hread : Field.read v = ⟨false, !Field.isRequired v, false, some (.fields s.idSpec)⟩ := by
    have hnative : IsNative (some v) t := hv ▸ h.native
    simpa [hmap, hspec] using hnative.read
  have hkey : "_id" ∉ metadataKeys := by decide
  have href : (s.idSpec.lookup "ref").filter Value.isTruthy = none := by
    rw [Option.filter_eq_none_iff]
    intro ref href
    simpa using h.plain ref href
  have htag : baseType .document "_id" s.idSpec = tagType .document "_id" s.idSpec t := by
    rw [baseType, h.lookup_type]
  obtain ⟨text, htext⟩ := exists_tagType_named .document (show "_id" ≠ "__v" by decide) s.idSpec t
  have hmember := Member.ofSpec_named ⟨.document, included⟩ (Field.read v) nested hkey href
    (htag.trans htext)
  have hwrap : Member.elementType .document false (.named text) = .named text := by
    refine (Member.elementType_document _).resolve_right fun hbuffer => ?_
    exact tagType_ne_buffer h.ne_buffer (htext.trans (congrArg _ (TypeExpr.named.inj hbuffer.1)))
  rw [Schema.idType_of_named (htag.trans htext)]
  rw [hread] at hmember ⊢
  exact hmember.trans (by simp [Member.wrap_eq, hwrap])

/-- The member of a native identifier is never optional, and has the type that the document is
told. -/
theorem Schema.HasNativeId.member (h : s.HasNativeId t) (hv : s.tree.lookup "_id" = some v)
    (included : Bool) (nested : List Member) :
    ∃ type, Member.ofField ⟨.document, included⟩ "_id" (Field.read v) nested =
        some ⟨"_id", false, false, type⟩ ∧ type.render .document 0 = s.idType := by
  by_cases hmap : t = .map
  · subst hmap
    obtain ⟨hmember, htype⟩ := h.member_map hv included nested
    exact ⟨_, hmember, htype.symm⟩
  · exact ⟨_, h.member_of_ne_map hmap hv included nested, rfl⟩

end Identifier

/-- The identifier is a member of the interface, never optional, and this is its type. -/
def Interface.IsIdentifiedBy (i : Interface) (type : String) : Prop :=
  (∃ m ∈ i.members, m.key = "_id") ∧
    ∀ m ∈ i.members, m.key = "_id" → m.isOptional = false ∧ m.type.render .document 0 = type

/-- With a native identifier every interface of a schema's documents is identified by the type that
is read off the schema. -/
theorem Schema.HasNativeId.isIdentifiedBy {s : Schema} {t : Tag} (h : s.HasNativeId t)
    (hplain : s.HasPlainDefinition) {owner : String} {included : Bool} {i : Interface}
    (hi : i.members = Member.ofFields ⟨.document, included⟩ (s.boundTree owner)) :
    i.IsIdentifiedBy s.idType := by
  obtain ⟨hlookup, hnodup⟩ := hplain.lookup_boundTree owner h.native
  obtain ⟨v, hv⟩ : ∃ v, s.tree.lookup "_id" = some v := by
    cases hv : s.tree.lookup "_id" with
    | none =>
      have htype := h.native.type
      rw [hv] at htype
      cases htype
    | some v => exact ⟨v, rfl⟩
  rw [hv] at hlookup
  unfold Interface.IsIdentifiedBy
  rw [hi]
  constructor
  · obtain ⟨type, hmember, -⟩ := h.member hv included
      (Member.ofFields ⟨.document, included⟩ (Field.read v).body)
    exact ⟨⟨"_id", false, false, type⟩,
      Member.mem_ofFields.mpr ⟨v, mem_of_lookup hlookup, hmember⟩, rfl⟩
  · intro m hm hkey
    obtain ⟨w, hw, hmember⟩ := Member.mem_ofFields.mp hm
    rw [hkey] at hw hmember
    -- the field of the identifier is the only one of its key
    obtain rfl : v = w :=
      Option.some.inj (hlookup.symm.trans (Entries.lookup_of_mem hnodup hw))
    obtain ⟨type, hof, hrender⟩ := h.member hv included
      (Member.ofFields ⟨.document, included⟩ (Field.read v).body)
    obtain rfl := Option.some.inj (hof.symm.trans hmember)
    exact ⟨rfl, hrender⟩

/-- Among native types object identifiers alone are written so. -/
theorem tagType_objectId_iff {shape : Shape} {key : String} {spec : Fields} {t : Tag} :
    tagType shape key spec t = .named objectIdType ↔ t = .objectId := by
  constructor
  · intro h
    have henum : ∀ values, enumType values ≠ objectIdType := by
      intro values heq
      have hhead := congrArg (fun s => s.toList.head?) heq
      simp [enumType, objectIdType] at hhead
    cases t with
    | objectId => rfl
    | string =>
      rw [tagType] at h
      split at h
      · simp [objectIdType] at h
      · exact absurd (BaseType.named.inj h) (henum _)
    | number =>
      rw [tagType] at h
      split at h <;> simp [objectIdType] at h
    | decimal128 | map => cases shape <;> simp [tagType, objectIdType] at h
    | _ => simp [tagType, objectIdType] at h
  · rintro rfl
    rfl

theorem Schema.HasNativeId.idType_eq_iff {s : Schema} {t : Tag} (h : s.HasNativeId t) :
    s.idType = objectIdType ↔ t = .objectId := by
  have htype : s.idSpec.lookup "type" = some (.tag t) := by
    rw [s.idSpec_eq]
    exact h.native.type
  obtain ⟨text, htext⟩ := exists_tagType_named .document (show "_id" ≠ "__v" by decide) s.idSpec t
  rw [s.idType_eq, baseType, htype]
  dsimp only
  rw [← @tagType_objectId_iff .document "_id" s.idSpec, htext]
  simp

/-- Without a native type for the identifier the document is told of object identifiers. -/
theorem Schema.idType_of_not_tag {s : Schema}
    (h : ∀ t, s.idSpec.lookup "type" ≠ some (.tag t)) : s.idType = objectIdType := by
  have hnested : baseType .document "_id" s.idSpec = .nested := by
    unfold baseType
    split
    · next t htype => exact absurd htype (h t)
    · rfl
  rw [s.idType_eq, hnested]

/-- The document of a model is told the type of its identifier: that of the identifier's member when
it is native, and object identifiers when it has no native type. The interfaces that are hoisted out
of the model and extend the document of mongoose are told of object identifiers always, and their
members have the types of their own identifiers, which are the same for object identifiers alone. -/
theorem Schema.document_identifiers {s : Schema} {model : String} {included : Bool}
    {hoisted : List Hoisted} (hincluded : includesVirtuals s.options = .ok included)
    (hhoisted : s.hoisted model = .ok hoisted) :
    (∀ isAugmented, documentDeclaration isAugmented model s =
      .ok (chunkText isAugmented (s.documentItems model hoisted included))) ∧
    ((s.documentInterface model included).heritage =
        " extends mongoose.Document<" ++ s.idType ++ ">, " ++ model ++ "Methods" ∧
      (s.HasPlainDefinition → ∀ t, s.HasNativeId t →
        (s.documentInterface model included).IsIdentifiedBy s.idType) ∧
      ((∀ t, s.idSpec.lookup "type" ≠ some (.tag t)) → s.idType = objectIdType)) ∧
    ∀ h ∈ hoisted, h.child.isArray = false →
      (h.interface .document).heritage = " extends mongoose.Document<" ++ objectIdType ++ ">" ∧
      (h.child.schema.HasPlainDefinition → ∀ t, h.child.schema.HasNativeId t →
        (h.interface .document).IsIdentifiedBy h.child.schema.idType ∧
          (h.child.schema.idType = objectIdType ↔ t = .objectId)) := by
  refine ⟨fun isAugmented => ?_, ⟨rfl, ?_, Schema.idType_of_not_tag⟩, fun h _ hsingle => ⟨?_, ?_⟩⟩
  · rw [documentDeclaration_eq, hincluded, hhoisted]
    rfl
  · intro hplain t hid
    have hmembers : (s.documentInterface model included).members =
        Member.ofFields ⟨.document, included⟩ (s.boundTree model) := rfl
    exact hid.isIdentifiedBy hplain hmembers
  · simp [Hoisted.interface, ChildSchema.interface, hsingle]
  · intro hplain t hid
    exact ⟨hid.isIdentifiedBy hplain (h.members_interface .document), hid.idType_eq_iff⟩

/-- An account that is found by a number, with a home that is found by an object identifier. -/
def accountSchema : Schema :=
  Schema.ofTree [("_id", .tag .number), ("home", .schema (Schema.ofTree [] []))] []

theorem hasPlainDefinition_ofTree_nil : (Schema.ofTree [] []).HasPlainDefinition :=
  ⟨.dict [], .build (show Schema.build (.dict []) .null [] = .ok _ from rfl), HasPlainKeys.nil,
    trivial⟩

theorem hasNativeId_ofTree_nil : (Schema.ofTree [] []).HasNativeId .objectId :=
  ⟨⟨rfl, fun h => Tag.noConfusion h⟩, fun _ h => (by cases h), fun h => Tag.noConfusion h⟩

/-- The document of an account is told of numbers, and that of its home of object identifiers. -/
theorem document_identifiers_account :
    ∃ hoisted, accountSchema.hoisted "Account" = .ok hoisted ∧
      (accountSchema.documentInterface "Account" false).heritage =
        " extends mongoose.Document<number>, AccountMethods" ∧
      (accountSchema.documentInterface "Account" false).IsIdentifiedBy "number" ∧
      ∃ h ∈ hoisted, (h.interface .document).name = "AccountHomeDocument" ∧
        (h.interface .document).heritage =
          " extends mongoose.Document<mongoose.Types.ObjectId>" ∧
        (h.interface .document).IsIdentifiedBy "mongoose.Types.ObjectId" := by
  have hplain : accountSchema.HasPlainDefinition := by
    have hbuild : Schema.build (.dict [("_id", .type .int), ("home", .schema (Schema.ofTree [] []))])
        .null [] = .ok accountSchema := rfl
    refine ⟨_, .build hbuild, ?_, ⟨trivial, trivial, trivial⟩⟩
    simp [HasPlainKeys, Entries.keys]
  have hid : accountSchema.HasNativeId .number :=
    ⟨⟨rfl, fun h => Tag.noConfusion h⟩, fun _ h => (by cases h), fun h => Tag.noConfusion h⟩
  obtain ⟨-, ⟨hheritage, hmodel, -⟩, hhoisted⟩ := Schema.document_identifiers
    (show includesVirtuals accountSchema.options = .ok false from rfl)
    (show accountSchema.hoisted "Account" = .ok _ from rfl)
  refine ⟨_, rfl, hheritage, hmodel hplain .number hid, _, List.mem_cons_self, by decide, ?_⟩
  obtain ⟨hextends, hmember⟩ := hhoisted _ List.mem_cons_self rfl
  obtain ⟨hidentified, hiff⟩ :=
    hmember hasPlainDefinition_ofTree_nil .objectId hasNativeId_ofTree_nil
  rw [hiff.mpr rfl] at hidentified
  exact ⟨hextends, hidentified⟩

/-- The members of an interface with the texts of their types. -/
def Interface.typeTexts (i : Interface) : List (String × String) :=
  i.members.map fun m => (m.key, m.type.render .document 0)

/-- A user with a home that is found by a name. -/
def userSchema : Schema :=
  Schema.ofTree [("home", .schema (Schema.ofTree [("_id", .tag .string)] []))]
    [("_id", .bool false), ("version_key", .bool false)]

/-- A user of a definition is told one type for its identifier, and its document holds the members
with these types. -/
def TellsUser (definition : Fields) (told : String) (held : List (String × String)) : Prop :=
  ∃ s, Schema.build (.dict definition) .null [("version_key", .bool false)] = .ok s ∧
    s.idType = told ∧ (s.documentInterface "User" false).typeTexts = held

/-- A home that is found by a name is told to be found by object identifiers. So is a user that is
found by an object or by what it refers to. A user that is found by a buffer or a map is told another
type than its member has, and so is one in which something that is embedded at a path takes the place
of the identifier. -/
theorem document_identifiers_differ :
    (∃ i, Schema.build (.dict [("home", .schema (Schema.ofTree [("_id", .tag .string)] []))]) .null
          [("_id", .bool false), ("version_key", .bool false)] = .ok userSchema ∧
        hoist .document "User" userSchema = .ok [i] ∧ i.name = "UserHomeDocument" ∧
        i.heritage = " extends mongoose.Document<mongoose.Types.ObjectId>" ∧
        i.typeTexts = [("_id", "string")]) ∧
      TellsUser [("_id", .dict [("a", .type .str)])] "mongoose.Types.ObjectId"
        [("_id", "\x7b\n    a?: string;\n  \x7d")] ∧
      TellsUser [("_id", .dict [("type", .type .objectId), ("ref", .text "Person")])]
        "mongoose.Types.ObjectId" [("_id", "PersonDocument[\"_id\"] | PersonDocument")] ∧
      TellsUser [("_id", .type .bytes)] "Buffer" [("_id", "mongoose.Types.Buffer")] ∧
      TellsUser [("_id", .dict [("type", .type .map), ("of", .type .str)])]
        "mongoose.Types.Map<any>" [("_id", "mongoose.Types.Map<string>")] ∧
      TellsUser [("_id", .type .str), ("_id.x", .schema (Schema.ofTree [] []))] "string"
        [("_id", "\x7b\n    x?: User_idXDocument;\n  \x7d")] := by
  have hperson : referenceName "Person" = "Person" := by
    have hdot : (String.ofList ("Person".toList.filter (· != '\''))).contains '.' = false := by simp
    unfold referenceName
    simp only [hdot]
    decide
  refine ⟨⟨_, rfl, rfl, ?_, ?_, ?_⟩, ⟨_, rfl, ?_, ?_⟩, ⟨_, rfl, ?_, ?_⟩, ⟨_, rfl, ?_, ?_⟩,
    ⟨_, rfl, ?_, ?_⟩, ⟨_, rfl, ?_, ?_⟩⟩
  case refine_7 =>
    change (Member.ofFields ⟨.document, false⟩
      ([("_id", .dict [("type", .tag .objectId), ("ref", .text "Person")])] ++
        [("id", .virtual (.empty "id"))])).map (fun m => (m.key, m.type.render .document 0)) = _
    rw [Member.ofFields_append, Member.ofFields_reference ⟨.document, false⟩ (by decide) rfl rfl
      (by decide), hperson]
    decide
  all_goals decide

end SchemaTypings
