import SchemaTypings.Proofs.Generation.Fields
import SchemaTypings.Proofs.Generation.Reading

/-!
# Schemas that can be written

The declarations of a schema are read as they were meant when the keys and the references in it are
names, at every depth and in every embedded schema, and the enumerated values that are rendered
stand in double quotes as they are (`Schema.IsWritable`). Every declaration of such schemas is read,
and ends its lines by line feeds when the enumerated values have none (`AllWritable.of_mem`). There
are such declarations when the options of all schemas are readable (`exists_itemChunks_iff`).
-/

namespace SchemaTypings

open Declaration

variable {E : String → Prop}

/-! ## Compiled schemas -/

/-- The schemas that are compiled with a schema, and the names under which they are declared: that
schema, and those embedded in it. -/
inductive Schema.Compiles (s : Schema) (owner : String) : Schema → String → Prop
  | self : s.Compiles owner s owner
  | embedded {t : Schema} {name : String} {c : ChildSchema} : s.Compiles owner t name →
      c ∈ t.children → s.Compiles owner c.schema (subDocumentName c.path name)

/-- Without embedded schemas there is nothing else to compile. -/
theorem Schema.Compiles.eq_self {s t : Schema} {owner name : String} (h : s.Compiles owner t name)
    (hchildren : s.children = []) : t = s ∧ name = owner := by
  induction h with
  | self => exact ⟨rfl, rfl⟩
  | embedded _ hc ih =>
    rw [ih.1, hchildren] at hc
    exact nomatch hc

/-- A schema whose embedded schemas embed none themselves is compiled with them alone. -/
theorem Schema.Compiles.eq_self_or_mem {s t : Schema} {owner name : String}
    (h : s.Compiles owner t name) (hchildren : ∀ c ∈ s.children, c.schema.children = []) :
    (t = s ∧ name = owner) ∨ ∃ c ∈ s.children, t = c.schema := by
  induction h with
  | self => exact .inl ⟨rfl, rfl⟩
  | @embedded t _ c _ hc ih =>
    obtain ⟨ht, -⟩ | ⟨d, hd, ht⟩ := ih
    · exact .inr ⟨c, ht ▸ hc, rfl⟩
    · rw [ht, hchildren d hd] at hc
      exact nomatch hc

/-- The specification of the identifier of a schema's documents. -/
def Schema.idSpec (s : Schema) : Fields :=
  match s.tree.lookup "_id" with
  | some (.tag t) => [("type", .tag t)]
  | some (.dict fields) => fields
  | _ => []

/-- A value is rendered among the enumerated values of a schema declared under a name: by a field of
a compiled schema, or by the identifier. -/
inductive Schema.Renders (s : Schema) (owner value : String) : Prop
  | field {t : Schema} {name : String} (hcompiles : s.Compiles owner t name)
      (hrenders : RendersEnum (t.boundTree name) value)
  | id (htype : s.idSpec.lookup "type" = some (.tag .string)) (hvalue : value ∈ enumValues s.idSpec)

/-- The keys and the references in a schema are names, at every depth and in every embedded schema,
and embedded schemas are at paths of names. -/
abbrev Schema.HasNames (s : Schema) : Prop :=
  s.Every (fun s => Tree.Every SchemaTypings.HasNames Value.IsUnbound s.tree)
    (fun path => ∀ segment ∈ pathSegments path, IsKey segment)

/-- A schema that can be written under a name, with enumerated values that satisfy `E`. -/
structure Schema.IsWritable (E : String → Prop) (s : Schema) (owner : String) : Prop where
  names : s.HasNames
  isEnum : ∀ value, s.Renders owner value → E value

theorem Schema.idType_eq (s : Schema) :
    s.idType = match baseType .document "_id" s.idSpec with
      | .named type => type
      | _ => objectIdType :=
  rfl

/-- The type of the identifier is one that fields are given. -/
theorem Schema.isNamedType_idType {s : Schema} {owner : String}
    (henum : ∀ value, s.Renders owner value → E value) : IsNamedType E s.idType := by
  rw [s.idType_eq]
  split
  · next type htype =>
    exact isNamedType_of_baseType htype fun hstring value hvalue => henum value (.id hstring hvalue)
  · exact .fixed (by simp [fixedTypes])

/-! ## Bound sub-documents -/

/-- A sub-document is put at a path of names when its schema is embedded at one. -/
theorem ChildSchema.isKey_of_mem_place {c : ChildSchema}
    (hpath : ∀ segment ∈ pathSegments c.path, IsKey segment) :
    ∀ segment ∈ pathSegments c.place, IsKey segment := by
  intro segment hsegment
  rw [c.pathSegments_place] at hsegment
  split at hsegment
  · rcases List.mem_append.mp hsegment with hsegment | hof
    · exact hpath segment hsegment
    · obtain rfl := List.mem_singleton.mp hof
      decide
  · exact hpath segment hsegment

/-- What is bound is declared when the name of the sub-document is an identifier. -/
theorem ChildSchema.every_bound (c : ChildSchema) {d : SubDocument} {D : Fields → Prop}
    (hname : IsIdentifier d.name.toList) : (c.bound d).Every D Value.IsDeclared := by
  unfold ChildSchema.bound
  split
  · exact ⟨hname, trivial⟩
  · exact hname

/-- What is bound is no reference. -/
theorem ChildSchema.refText?_bound (c : ChildSchema) (d : SubDocument) :
    refText? (c.bound d) = none := by
  unfold ChildSchema.bound
  split <;> rfl

theorem Value.IsUnbound.isDeclared {v : Value} (h : v.IsUnbound) : v.IsDeclared := by
  cases v with
  | subDocument d => exact absurd h id
  | _ => trivial

/-- The names in the tree of a schema stay names when sub-documents are bound in it. -/
theorem Schema.every_boundTree {s : Schema} (hs : s.HasNames) {owner : String}
    (howner : IsWord owner.toList) :
    Tree.Every SchemaTypings.HasNames Value.IsDeclared (s.boundTree owner) := by
  obtain ⟨htree, hchildren⟩ := Schema.every_iff.mp hs
  have hplain : Tree.IsPlain s.tree :=
    htree.mono (fun _ h => ⟨h.nodup, fun key hkey => (h.isKey key hkey).not_mem_dot⟩)
      fun _ _ => trivial
  have hdeclared : Tree.Every SchemaTypings.HasNames Value.IsDeclared s.tree :=
    htree.mono (fun _ h => h) fun _ h => h.isDeclared
  refine s.boundTree_induction owner hplain hdeclared fun tree c d hc hd htree => ?_
  have hpath := (hchildren.of_mem hc).1
  have hname : IsIdentifier d.name.toList := hd ▸ isIdentifier_subDocumentName howner hpath
  refine htree.setSegments hasNames_nil ?_ (c.every_bound hname)
  intro key hkey fields w hw hfields
  -- neither a sub-document nor a dictionary on the way to it is a reference
  have hput : refText? w = none := by
    rcases hw with ⟨rfl, -⟩ | ⟨inner, rfl⟩
    · exact c.refText?_bound d
    · rfl
  exact hfields.put (ChildSchema.isKey_of_mem_place hpath key hkey) (by simp [hput])

/-! ## Schemas that name what they hold -/

/-- A property of schemas that passes to the schemas embedded in them, which are at paths of keys, and
that leaves a tree all of whose dictionaries satisfy `D` when sub-documents are bound in it. -/
structure NamesSchemas (G : Schema → Prop) (D : Fields → Prop) (K : String → Prop) : Prop where
  fields : NamesFields D K
  path : ∀ {s c}, G s → c ∈ s.children → ∀ segment ∈ pathSegments c.path, IsKey segment
  child : ∀ {s c}, G s → c ∈ s.children → G c.schema
  bound : ∀ {s owner}, G s → IsWord owner.toList →
    Tree.Every D Value.IsDeclared (s.boundTree owner)

/-- Schemas with names are such. -/
theorem namesSchemas_hasNames : NamesSchemas Schema.HasNames SchemaTypings.HasNames IsKey where
  fields := namesFields_hasNames
  path hs hc := ((Schema.every_iff.mp hs).2.of_mem hc).1
  child hs hc := ((Schema.every_iff.mp hs).2.of_mem hc).2
  bound hs howner := Schema.every_boundTree hs howner

/-! ## Interfaces -/

/-- What the interfaces of schemas extend. -/
inductive IsSchemaHeritage (E : String → Prop) : String → Prop
  | none : IsSchemaHeritage E ""
  | element : IsSchemaHeritage E " extends mongoose.Types.EmbeddedDocument"
  | document {id : String} : IsNamedType E id →
      IsSchemaHeritage E (" extends mongoose.Document<" ++ id ++ ">")
  | model {id model : String} : IsNamedType E id → IsWord model.toList →
      IsSchemaHeritage E (" extends mongoose.Document<" ++ id ++ ">, " ++ model ++ "Methods")

/-- An interface whose parts can be written, with keys that satisfy `K`. -/
structure Interface.IsWritable (E K : String → Prop) (i : Interface) : Prop where
  isDocs : IsDocs i.docs
  isIdentifier : IsIdentifier i.name.toList
  isHeritage : IsSchemaHeritage E i.heritage
  members : MembersEvery (IsNamedType E) K i.members

theorem IsSchemaHeritage.isHeritage {heritage : String} (h : IsSchemaHeritage E heritage)
    (hE : ∀ v, E v → IsQuotable v) : IsHeritage heritage.toList := by
  have hmongoose : IsIdentifier "mongoose".toList := by decide
  have htypes : IsIdentifier "Types".toList := by decide
  have helement : IsIdentifier "EmbeddedDocument".toList := by decide
  have hdocument : IsIdentifier "Document".toList := by decide
  have hbase := hmongoose.isQualified.dotted hdocument
  cases h with
  | none => exact isHeritage_nil
  | element =>
    have hreference := ((hmongoose.isQualified.dotted htypes).dotted helement).isReference
    simpa using hreference.isReferences.isHeritage
  | document hid =>
    have hreference := hbase.generic (hid.isType hE).isBalanced
    simpa using hreference.isReferences.isHeritage
  | model hid hmodel =>
    have hmethods := hmodel.isIdentifier_append (show ∀ c ∈ "Methods".toList, isIdentifierPart c by
      decide) (by decide)
    have hreference := (hbase.generic (hid.isType hE).isBalanced).isReferences.comma
      hmethods.isQualified.isReference
    simpa using hreference.isHeritage

theorem IsSchemaHeritage.isLined {heritage : String} (h : IsSchemaHeritage E heritage)
    (hE : ∀ v, E v → IsInline v) : IsLined heritage.toList := by
  cases h with
  | none => decide
  | element => decide
  | document hid =>
    simp only [String.toList_append, isLined_append, hid.isLined hE, and_true]
    decide
  | model hid hmodel =>
    simp only [String.toList_append, isLined_append, hid.isLined hE, hmodel.isLined, and_true]
    decide

theorem Interface.IsWritable.reads {i : Interface} (h : i.IsWritable E IsKey)
    (hE : ∀ v, E v → IsQuotable v) (shape : Shape) : (Item.interface shape i).Reads := by
  have hmembers : MembersWritable i.members :=
    h.members.mono (fun _ htext => htext.isType hE) fun _ hkey => ⟨hkey.1, hkey.isPlainName⟩
  exact Item.reads_interface shape h.isDocs h.isIdentifier (h.isHeritage.isHeritage hE) hmembers

theorem Interface.IsWritable.isLined {K : String → Prop} {i : Interface} (h : i.IsWritable E K)
    (hE : ∀ v, E v → IsInline v) (shape : Shape) : (Item.interface shape i).IsLined := by
  have hmembers : MembersEvery (fun text => IsLined text.toList) K i.members :=
    h.members.mono (fun _ htext => htext.isLined hE) fun _ hkey => hkey
  exact Item.isLined_interface shape h.isIdentifier.isLined (h.isHeritage.isLined hE) hmembers

/-! ## The declarations of a model -/

variable {s : Schema} {model : String}

section Named

variable {G : Schema → Prop} {D : Fields → Prop} {K : String → Prop} (hG : NamesSchemas G D K)
  (hs : G s) (hmodel : IsIdentifier model.toList)

include hG hs hmodel

/-- What is hoisted out of a schema is compiled with it, under an identifier. -/
theorem Schema.compiles_of_mem_hoisted {hoisted : List Hoisted}
    (hhoisted : s.hoisted model = .ok hoisted) {h : Hoisted} (hmem : h ∈ hoisted) :
    s.Compiles model h.child.schema h.name ∧ G h.child.schema ∧ IsIdentifier h.owner.toList ∧
      ∀ segment ∈ pathSegments h.child.path, IsKey segment := by
  have hstep : ∀ (t : Schema) (name : String),
      s.Compiles model t name ∧ G t ∧ IsIdentifier name.toList → ∀ c ∈ t.children,
        s.Compiles model c.schema (subDocumentName c.path name) ∧ G c.schema ∧
          IsIdentifier (subDocumentName c.path name).toList := by
    rintro t name ⟨hcompiles, hnames, hname⟩ c hc
    exact ⟨.embedded hcompiles hc, hG.child hnames hc,
      isIdentifier_subDocumentName hname.1 (hG.path hnames hc)⟩
  obtain ⟨t, ⟨hcompiles, hnames, howner⟩, hc, -⟩ :=
    hoisted_induction hstep s model hoisted ⟨.self, hs, hmodel⟩ hhoisted h hmem
  exact ⟨.embedded hcompiles hc, hG.child hnames hc, howner, hG.path hnames hc⟩

variable (henum : ∀ value, s.Renders model value → E value)

include henum

/-- The interfaces of what is hoisted can be written. -/
theorem Hoisted.isWritable_interface {hoisted : List Hoisted}
    (hhoisted : s.hoisted model = .ok hoisted) {h : Hoisted} (hmem : h ∈ hoisted) (shape : Shape) :
    (h.interface shape).IsWritable E K := by
  obtain ⟨hcompiles, hnames, howner, hpath⟩ :=
    Schema.compiles_of_mem_hoisted hG hs hmodel hhoisted hmem
  have hname : IsIdentifier h.name.toList := isIdentifier_subDocumentName howner.1 hpath
  have hdocument : IsIdentifier (h.name ++ "Document").toList :=
    Item.isIdentifier_suffix hname.1 (by decide) (by decide)
  have hmembers := membersEvery_ofFields hG.fields ⟨shape, h.included⟩ (hG.bound hnames hname.1)
    fun value hvalue => henum value (.field hcompiles hvalue)
  unfold Hoisted.interface ChildSchema.interface
  cases shape with
  | lean =>
    have hfull : ∀ name ∈ some h.name, IsCommentLine name := by
      rintro name hsome
      obtain rfl := Option.mem_some_iff.mp hsome
      exact isCommentLine_of_isWord hname.1
    exact ⟨isDocs_lean howner.1 hfull, hname, .none, hmembers⟩
  | document =>
    dsimp only
    split
    · exact ⟨isDocs_subDocument howner.1 (isCommentLine_path hpath), hdocument, .element, hmembers⟩
    · exact ⟨isDocs_constructor howner.1 (by decide), hdocument,
        .document (.fixed (by simp [fixedTypes])), hmembers⟩

theorem Schema.isWritable_leanInterface (included : Bool) :
    (s.leanInterface model included).IsWritable E K :=
  ⟨isDocs_lean hmodel.1 (fun _ h => nomatch h), hmodel, .none,
    membersEvery_ofFields hG.fields ⟨.lean, included⟩ (hG.bound hs hmodel.1)
      fun value hvalue => henum value (.field .self hvalue)⟩

theorem Schema.isWritable_documentInterface (included : Bool) :
    (s.documentInterface model included).IsWritable E K :=
  ⟨isDocs_constructor hmodel.1 (by decide),
    Item.isIdentifier_suffix hmodel.1 (by decide) (by decide),
    .model (Schema.isNamedType_idType henum) hmodel.1,
    membersEvery_ofFields hG.fields ⟨.document, included⟩ (hG.bound hs hmodel.1)
      fun value hvalue => henum value (.field .self hvalue)⟩

/-- The declarations of a model are its aliases and interfaces that can be written. -/
theorem Schema.cases_of_mem_items {hoisted : List Hoisted} (hhoisted : s.hoisted model = .ok hoisted)
    (included : Bool) {i : Item}
    (hi : i ∈ s.leanItems model hoisted included ∨ i ∈ s.documentItems model hoisted included) :
    i ∈ s.modelItems model ∨
      ∃ (shape : Shape) (j : Interface), j.IsWritable E K ∧ i = .interface shape j := by
  simp only [Schema.leanItems, Schema.documentItems, List.mem_append, List.mem_map,
    List.mem_singleton] at hi
  have hinterface := fun {h : Hoisted} (hmem : h ∈ hoisted) (shape : Shape) =>
    Hoisted.isWritable_interface hG hs hmodel henum hhoisted hmem shape
  rcases hi with ((⟨h, hmem, rfl⟩ | hi) | rfl) | ⟨h, hmem, rfl⟩ | rfl
  · exact .inr ⟨.lean, _, hinterface hmem .lean, rfl⟩
  · exact .inl hi
  · exact .inr ⟨.lean, _, Schema.isWritable_leanInterface hG hs hmodel henum included, rfl⟩
  · exact .inr ⟨.document, _, hinterface hmem .document, rfl⟩
  · exact .inr ⟨.document, _, Schema.isWritable_documentInterface hG hs hmodel henum included, rfl⟩

end Named

/-- A declaration that is read as it was meant and whose lines end by line feeds when the enumerated
values in it allow for it. -/
structure Item.IsWritable (E : String → Prop) (i : Item) : Prop where
  reads : (∀ v, E v → IsQuotable v) → i.Reads
  isLined : (∀ v, E v → IsInline v) → i.IsLined

theorem Interface.IsWritable.item {i : Interface} (h : i.IsWritable E IsKey) (shape : Shape) :
    (Item.interface shape i).IsWritable E :=
  ⟨fun hE => h.reads hE shape, fun hE => h.isLined hE shape⟩

/-- The alias of a collection of functions can be written. -/
theorem Item.isWritable_collection (hmodel : IsIdentifier model.toList)
    {title member type suffix : String} (htitle : IsCommentLine title)
    (hmember : IsCommentLine member) (htype : IsCommentLine type)
    (hsuffix : ∀ c ∈ suffix.toList, isIdentifierPart c)
    (hcapital : suffix.toList.all (fun c => 'a' ≤ c && c ≤ 'z') = false) (names : List String)
    (role : Role) :
    (Item.collection (Docs.collection title model member type) model suffix names role).IsWritable E :=
  ⟨fun _ => Item.reads_collection (isDocs_collection hmodel.1 htitle hmember htype) hmodel.1
      (Item.isIdentifier_suffix hmodel.1 hsuffix hcapital) names role,
    fun _ => Item.isLined_collection _ hmodel.1 (isLined_of_isIdentifierPart hsuffix) names role⟩

/-- The aliases of a model can be written. -/
theorem Schema.isWritable_of_mem_modelItems (s : Schema) (hmodel : IsIdentifier model.toList) {i : Item}
    (hi : i ∈ s.modelItems model) : i.IsWritable E := by
  have hobject : (Item.object model).IsWritable E :=
    ⟨fun _ => Item.reads_object hmodel, fun _ => Item.isLined_object hmodel.1⟩
  have hconstructor : (Item.model model).IsWritable E :=
    ⟨fun _ => Item.reads_model hmodel.1, fun _ => Item.isLined_model hmodel.1⟩
  have hschema : (Item.schema model).IsWritable E :=
    ⟨fun _ => Item.reads_schema hmodel.1, fun _ => Item.isLined_schema hmodel.1⟩
  have hhelpers : (Item.helpers model).IsWritable E :=
    ⟨fun _ => hmodel.1, fun _ => Item.isLined_helpers hmodel.1⟩
  have hcollections : ∀ role names,
      (Item.collection (Docs.query model) model "Queries" names role).IsWritable E ∧
        (Item.collection (Docs.method model) model "Methods" names role).IsWritable E ∧
        (Item.collection (Docs.static model) model "Statics" names role).IsWritable E :=
    fun role names =>
      ⟨Item.isWritable_collection hmodel (by decide) (by decide) (by decide)
          (by decide) (by decide) names role,
        Item.isWritable_collection hmodel (by decide) (by decide) (by decide)
          (by decide) (by decide) names role,
        Item.isWritable_collection hmodel (by decide) (by decide) (by decide)
          (by decide) (by decide) names role⟩
  unfold Schema.modelItems at hi
  dsimp only at hi
  simp only [List.mem_cons, List.mem_append, List.not_mem_nil, or_false] at hi
  rcases hi with rfl | hi | rfl | rfl | rfl | rfl
  · exact hobject
  · split at hi
    · cases hi
    · simp only [List.mem_cons, List.not_mem_nil, or_false] at hi
      rcases hi with rfl | rfl
      · exact (hcollections _ _).1
      · exact hhelpers
  · exact (hcollections _ _).2.1
  · exact (hcollections _ _).2.2
  · exact hconstructor
  · exact hschema

/-- All declarations of a model can be written. -/
theorem Schema.isWritable_of_mem_items (hs : s.IsWritable E model)
    (hmodel : IsIdentifier model.toList) {hoisted : List Hoisted}
    (hhoisted : s.hoisted model = .ok hoisted) (included : Bool) {i : Item}
    (hi : i ∈ s.leanItems model hoisted included ∨ i ∈ s.documentItems model hoisted included) :
    i.IsWritable E := by
  rcases Schema.cases_of_mem_items namesSchemas_hasNames hs.names hmodel hs.isEnum hhoisted included
    hi with hi | ⟨shape, j, hj, rfl⟩
  · exact s.isWritable_of_mem_modelItems hmodel hi
  · exact hj.item shape

/-! ## The declarations of a file -/

variable {schemas : List (String × Schema)}

/-- Models that can be written: their names are identifiers and their schemas can be written. -/
def AllWritable (E : String → Prop) (schemas : List (String × Schema)) : Prop :=
  ∀ entry ∈ schemas, IsIdentifier entry.1.toList ∧ entry.2.IsWritable E entry.1

theorem AllWritable.mono {F : String → Prop} (h : AllWritable E schemas) (hEF : ∀ v, E v → F v) :
    AllWritable F schemas := by
  intro entry hentry
  obtain ⟨hmodel, hnames, henum⟩ := h entry hentry
  exact ⟨hmodel, hnames, fun value hvalue => hEF value (henum value hvalue)⟩

theorem AllWritable.ne_empty (h : AllWritable E schemas) : ∀ entry ∈ schemas, entry.1 ≠ "" :=
  fun entry hentry => (IsWord.isKey (h entry hentry).1.1).1

/-- A chunk holds the declarations of one model in one shape. -/
theorem exists_of_mem_itemChunks {chunks : List (List Item)} (h : itemChunks schemas = .ok chunks)
    {chunk : List Item} (hmem : chunk ∈ chunks) :
    ∃ entry ∈ schemas, ∃ hoisted included, entry.2.hoisted entry.1 = .ok hoisted ∧
      includesVirtuals entry.2.options = .ok included ∧
      (chunk = entry.2.leanItems entry.1 hoisted included ∨
        chunk = entry.2.documentItems entry.1 hoisted included) := by
  induction schemas generalizing chunks with
  | nil =>
    obtain rfl := Except.ok.inj h
    exact nomatch hmem
  | cons entry rest ih =>
    obtain ⟨included, hoisted, others, hincluded, hhoisted, hothers, rfl⟩ :=
      itemChunks_cons_eq_ok_iff.mp h
    rcases List.mem_cons.mp hmem with rfl | hmem
    · exact ⟨_, List.mem_cons_self, hoisted, included, hhoisted, hincluded, .inl rfl⟩
    · rcases List.mem_cons.mp hmem with rfl | hmem
      · exact ⟨_, List.mem_cons_self, hoisted, included, hhoisted, hincluded, .inr rfl⟩
      · obtain ⟨entry, hentry, hrest⟩ := ih hothers hmem
        exact ⟨entry, List.mem_cons_of_mem _ hentry, hrest⟩

/-- All declarations of a file can be written when its models can. -/
theorem AllWritable.of_mem (h : AllWritable E schemas) {chunks : List (List Item)}
    (hchunks : itemChunks schemas = .ok chunks) :
    ∀ chunk ∈ chunks, ∀ i ∈ chunk, i.IsWritable E := by
  intro chunk hchunk i hi
  obtain ⟨entry, hentry, hoisted, included, hhoisted, -, hkind⟩ :=
    exists_of_mem_itemChunks hchunks hchunk
  obtain ⟨hmodel, hs⟩ := h entry hentry
  refine Schema.isWritable_of_mem_items hs hmodel hhoisted included ?_
  rcases hkind with rfl | rfl
  · exact .inl hi
  · exact .inr hi

/-- They are read as they were meant. -/
theorem AllWritable.reads (h : AllWritable E schemas) (hE : ∀ v, E v → IsQuotable v)
    {chunks : List (List Item)} (hchunks : itemChunks schemas = .ok chunks) :
    ∀ chunk ∈ chunks, ∀ i ∈ chunk, i.Reads :=
  fun chunk hchunk i hi => (h.of_mem hchunks chunk hchunk i hi).reads hE

/-- Their lines end by line feeds. -/
theorem AllWritable.isLined (h : AllWritable E schemas) (hE : ∀ v, E v → IsInline v)
    {chunks : List (List Item)} (hchunks : itemChunks schemas = .ok chunks) :
    ∀ chunk ∈ chunks, ∀ i ∈ chunk, i.IsLined :=
  fun chunk hchunk i hi => (h.of_mem hchunks chunk hchunk i hi).isLined hE

/-- Embedded schemas are at paths of names, whatever is said of the schemas themselves. -/
abbrev Schema.IsAtKeys (S : Schema → Prop) (s : Schema) : Prop :=
  s.Every S fun path => ∀ segment ∈ pathSegments path, IsKey segment

/-- The declarations of a schema are known when its options are readable and those of all embedded
schemas. -/
theorem Schema.isReadable_iff {S : Schema → Prop} (hs : s.IsAtKeys S) (hmodel : model ≠ "") :
    s.IsReadable ↔ (∃ included, includesVirtuals s.options = .ok included) ∧
      ∃ hoisted, s.hoisted model = .ok hoisted := by
  have hname : ∀ path owner, (∀ segment ∈ pathSegments path, IsKey segment) → owner ≠ "" →
      subDocumentName path owner ≠ "" := fun path owner hpath howner =>
    subDocumentName_ne_empty howner fun segment hsegment => (hpath segment hsegment).1
  have hok := isOk_hoisted hname s model hmodel hs
  exact Schema.every_iff.trans (and_congr_right fun _ => hok.symm)

/-- The declarations of a file are known when all options are readable, and its embedded schemas are
at paths of names. -/
theorem exists_itemChunks_iff_of_isAtKeys {S : Schema → Prop}
    (h : ∀ entry ∈ schemas, entry.1 ≠ "" ∧ entry.2.IsAtKeys S) :
    (∃ chunks, itemChunks schemas = .ok chunks) ↔ ∀ entry ∈ schemas, entry.2.IsReadable := by
  induction schemas with
  | nil => exact ⟨(fun _ _ hentry => nomatch hentry), fun _ => ⟨[], rfl⟩⟩
  | cons entry rest ih =>
    obtain ⟨hmodel, hs⟩ := h _ List.mem_cons_self
    have hrest := ih fun entry hentry => h entry (List.mem_cons_of_mem _ hentry)
    rw [List.forall_mem_cons, ← hrest, Schema.isReadable_iff hs hmodel]
    simp only [itemChunks_cons_eq_ok_iff]
    constructor
    · rintro ⟨_, included, hoisted, others, hincluded, hhoisted, hothers, -⟩
      exact ⟨⟨⟨included, hincluded⟩, hoisted, hhoisted⟩, others, hothers⟩
    · rintro ⟨⟨⟨included, hincluded⟩, hoisted, hhoisted⟩, others, hothers⟩
      exact ⟨_, included, hoisted, others, hincluded, hhoisted, hothers, rfl⟩

/-- The declarations of a file that can be written are known when all options are readable. -/
theorem exists_itemChunks_iff (h : AllWritable E schemas) :
    (∃ chunks, itemChunks schemas = .ok chunks) ↔ ∀ entry ∈ schemas, entry.2.IsReadable :=
  exists_itemChunks_iff_of_isAtKeys fun entry hentry =>
    ⟨h.ne_empty entry hentry, (h entry hentry).2.names⟩

/-! ## A model that can be written -/

/-- A note on a ticket. -/
def noteSchema : Schema :=
  { tree := [("text", .tag .string)]
    options := [("_id", .bool false), ("version_key", .bool false)]
    methods := []
    statics := []
    query := []
    virtuals := []
    children := [] }

/-- A ticket in one of two states, with an owner and notes. -/
def ticketSchema : Schema :=
  { tree := [("state", .dict [("type", .tag .string), ("enum", .list [.text "open", .text "closed"])]),
      ("owner", .dict [("type", .tag .objectId), ("ref", .text "User"), ("required", .bool true)]),
      ("notes", .list [.schema noteSchema])]
    options := [("_id", .bool false), ("version_key", .bool false)]
    methods := [("close", .value)]
    statics := []
    query := [("open", .value)]
    virtuals := []
    children := [⟨"notes", noteSchema, true, false⟩] }

theorem boundTree_ticketSchema :
    ticketSchema.boundTree "Ticket" =
      [("state", .dict [("type", .tag .string), ("enum", .list [.text "open", .text "closed"])]),
        ("owner", .dict [("type", .tag .objectId), ("ref", .text "User"), ("required", .bool true)]),
        ("notes", .list [.subDocument ⟨"TicketNote", ["text"], true, false, false⟩])] :=
  rfl

/-- The states of a ticket are all that is rendered among enumerated values. -/
theorem isInline_of_renders_ticketSchema {value : String}
    (h : RendersEnum (ticketSchema.boundTree "Ticket") value) : IsInline value := by
  have hstates : ∀ state ∈ ["open", "closed"], IsInline state := by
    unfold IsInline
    decide
  rw [boundTree_ticketSchema] at h
  cases h with
  | own hmem htarget htyped htype hvalue =>
    simp only [List.mem_cons, Prod.mk.injEq, List.not_mem_nil, or_false] at hmem
    rcases hmem with ⟨rfl, rfl⟩ | ⟨rfl, rfl⟩ | ⟨rfl, rfl⟩
    · obtain rfl : _ = _ := Target.fields.inj (Option.some.inj htarget)
      exact hstates value hvalue
    · obtain rfl : _ = _ := Target.fields.inj (Option.some.inj htarget)
      exact absurd htype (by simp)
    · cases htarget
  | nested hmem htarget htyped hinner =>
    simp only [List.mem_cons, Prod.mk.injEq, List.not_mem_nil, or_false] at hmem
    rcases hmem with ⟨rfl, rfl⟩ | ⟨rfl, rfl⟩ | ⟨rfl, rfl⟩ <;> exact absurd hinner not_renders_nil

/-- Nothing is rendered by a note. -/
theorem not_renders_noteSchema {owner value : String} :
    ¬RendersEnum (noteSchema.boundTree owner) value :=
  not_rendersEnum ⟨rfl, trivial, trivial⟩

theorem hasNames_noteSchema : noteSchema.HasNames :=
  Schema.every_iff.mpr ⟨⟨⟨by decide, by decide, fun _ h => nomatch h⟩, trivial, trivial⟩,
    trivial⟩

theorem hasNames_ticketSchema : ticketSchema.HasNames := by
  have hticket : HasNames ticketSchema.tree := ⟨by decide, by decide, fun _ h => nomatch h⟩
  have hstate : HasNames [("type", .tag .string), ("enum", .list [.text "open", .text "closed"])] :=
    ⟨by decide, by decide, fun _ h => nomatch h⟩
  have hreferable : IsReferable "User" := .inl (by decide)
  have howner : HasNames
      [("type", .tag .objectId), ("ref", .text "User"), ("required", .bool true)] := by
    refine ⟨by decide, by decide, fun text htext => ?_⟩
    obtain rfl := Option.some.inj htext
    exact hreferable
  have hpath : ∀ segment ∈ pathSegments "notes", IsKey segment := by decide
  exact Schema.every_iff.mpr ⟨⟨hticket, ⟨hstate, trivial, ⟨trivial, trivial, trivial⟩, trivial⟩,
    ⟨howner, trivial, trivial, trivial, trivial⟩, ⟨trivial, trivial⟩, trivial⟩, hpath,
    hasNames_noteSchema, trivial⟩

/-- The ticket can be written. -/
theorem isWritable_ticketSchema : ticketSchema.IsWritable IsInline "Ticket" where
  names := hasNames_ticketSchema
  isEnum := by
    have hchildren : ∀ c ∈ ticketSchema.children, c.schema.children = [] :=
      List.forall_mem_singleton.mpr rfl
    rintro value (⟨hcompiles, hrenders⟩ | ⟨htype, -⟩)
    · obtain ⟨rfl, rfl⟩ | ⟨c, hc, rfl⟩ := hcompiles.eq_self_or_mem hchildren
      · exact isInline_of_renders_ticketSchema hrenders
      · obtain rfl := List.mem_singleton.mp hc
        exact absurd hrenders not_renders_noteSchema
    · exact nomatch htype

theorem isReadable_ticketSchema : ticketSchema.IsReadable :=
  Schema.every_iff.mpr ⟨⟨false, rfl⟩, trivial, Schema.every_iff.mpr ⟨⟨false, rfl⟩, trivial⟩, trivial⟩

theorem allWritable_ticket : AllWritable IsInline [("Ticket", ticketSchema)] := by
  intro entry hentry
  obtain rfl := List.mem_singleton.mp hentry
  exact ⟨by decide, isWritable_ticketSchema⟩

end SchemaTypings
