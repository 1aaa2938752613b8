import SchemaTypings.Model.Types
import SchemaTypings.Proofs.Naming
import SchemaTypings.Proofs.Schemas.Plain
import SchemaTypings.Proofs.Shapes.Agreement
import SchemaTypings.Proofs.Trees.Binding

/-!
# Declarations in both shapes

A schema is declared in two separate runs, one a shape, and each hoists the embedded schemas of its
own accord. Both runs go through the same list (`Schema.hoisted`), fail alike, and hold in each body
members that agree (`declare_agrees`).
-/

namespace SchemaTypings

variable {S : Schema → Prop} {C : String → Prop}

/-! ## Hoisted bodies -/

/-- The options of a schema and of every embedded schema say whether the plain data holds the
virtuals. -/
abbrev Schema.IsReadable (s : Schema) : Prop :=
  s.Every (fun s => ∃ included, includesVirtuals s.options = .ok included) (fun _ => True)

/-- An embedded schema that is hoisted out of an owner. -/
structure Hoisted where
  owner : String
  child : ChildSchema
  /-- Whether the plain data of the embedded schema holds its virtuals. -/
  included : Bool

namespace Hoisted

/-- The name of the interface in the plain data. -/
def name (h : Hoisted) : String :=
  subDocumentName h.child.path h.owner

/-- The interface in a shape. -/
def interface (h : Hoisted) (shape : Shape) : Interface :=
  h.child.interface shape h.owner
    (Member.ofFields ⟨shape, h.included⟩ (h.child.schema.boundTree h.name))

theorem members_interface (h : Hoisted) (shape : Shape) :
    (h.interface shape).members =
      Member.ofFields ⟨shape, h.included⟩ (h.child.schema.boundTree h.name) := by
  unfold interface ChildSchema.interface
  cases shape with
  | lean => rfl
  | document =>
    dsimp only
    split <;> rfl

end Hoisted

mutual
/-- What is hoisted out of a schema that is declared under a name, whatever the shape. -/
def Schema.hoisted (owner : String) : Schema → Except SchemaError (List Hoisted)
  | ⟨_, _, _, _, _, _, children⟩ =>
    if owner.isEmpty then .ok [] else hoistedAll owner children
  termination_by structural s => s

/-- What is hoisted for some embedded schemas. -/
def hoistedAll (owner : String) : List ChildSchema → Except SchemaError (List Hoisted)
  | [] => .ok []
  | ⟨path, schema, isArray, isMap⟩ :: rest => do
    let included ← includesVirtuals schema.options
    let inner ← schema.hoisted (subDocumentName path owner)
    let others ← hoistedAll owner rest
    return inner ++ ⟨owner, ⟨path, schema, isArray, isMap⟩, included⟩ :: others
  termination_by structural children => children
end

/-- Two computations in a row succeed when the first does and the second does with its result. -/
theorem exceptBind_ok {ε α β : Type} {x : Except ε α} {f : α → Except ε β} {b : β} :
    (x >>= f) = .ok b ↔ ∃ a, x = .ok a ∧ f a = .ok b := by
  cases x <;> simp [bind, Except.bind]

/-- What is hoisted for an embedded schema stands in front of it, and what is hoisted for the others
behind it. -/
theorem hoistedAll_cons_eq_ok {owner : String} {c : ChildSchema} {rest : List ChildSchema}
    {all : List Hoisted} :
    hoistedAll owner (c :: rest) = .ok all ↔
      ∃ included inner others, includesVirtuals c.schema.options = .ok included ∧
        c.schema.hoisted (subDocumentName c.path owner) = .ok inner ∧
        hoistedAll owner rest = .ok others ∧ inner ++ ⟨owner, c, included⟩ :: others = all := by
  obtain ⟨path, schema, isArray, isMap⟩ := c
  simp only [hoistedAll, exceptBind_ok, pure, Except.pure, Except.ok.injEq, exists_and_left]

mutual
/-- In a shape the interfaces are those of what is hoisted. -/
theorem hoist_eq (shape : Shape) :
    ∀ (s : Schema) (owner : String),
      hoist shape owner s = (s.hoisted owner).map (List.map (Hoisted.interface · shape))
  | ⟨_, _, _, _, _, _, children⟩, owner => by
    unfold hoist Schema.hoisted
    split
    · rfl
    · exact hoistAll_eq shape children owner
  termination_by structural s => s

theorem hoistAll_eq (shape : Shape) :
    ∀ (children : List ChildSchema) (owner : String),
      hoistAll shape owner children =
        (hoistedAll owner children).map (List.map (Hoisted.interface · shape))
  | [], _ => rfl
  | ⟨path, schema, isArray, isMap⟩ :: rest, owner => by
    have hinner := hoist_eq shape schema (subDocumentName path owner)
    have hrest := hoistAll_eq shape rest owner
    simp only [hoistAll, hoistedAll, hinner, hrest]
    cases includesVirtuals schema.options with
    | error e => rfl
    | ok included =>
      cases schema.hoisted (subDocumentName path owner) with
      | error e => rfl
      | ok inner =>
        cases hoistedAll owner rest with
        | error e => rfl
        | ok others =>
          simp [bind, Except.bind, pure, Except.pure, Except.map, Hoisted.interface, Hoisted.name]
  termination_by structural children => children
end

variable {G : Schema → String → Prop}

mutual
/-- What passes from each schema with the name it is declared under to the schemas embedded in it
holds wherever something is hoisted. -/
theorem hoisted_induction
    (hG : ∀ t name, G t name → ∀ c ∈ t.children, G c.schema (subDocumentName c.path name)) :
    ∀ (s : Schema) (owner : String) (all : List Hoisted), G s owner → s.hoisted owner = .ok all →
      ∀ h ∈ all, ∃ t, G t h.owner ∧ h.child ∈ t.children ∧
        includesVirtuals h.child.schema.options = .ok h.included
  | ⟨tree, options, methods, statics, query, virtuals, children⟩, owner, all, hs, heq => by
    unfold Schema.hoisted at heq
    split at heq
    · obtain rfl := Except.ok.inj heq
      simp
    · exact hoistedAll_induction hG children owner all _ hs (fun _ hc => hc) heq
  termination_by structural s => s

theorem hoistedAll_induction
    (hG : ∀ t name, G t name → ∀ c ∈ t.children, G c.schema (subDocumentName c.path name)) :
    ∀ (children : List ChildSchema) (owner : String) (all : List Hoisted) (s : Schema), G s owner →
      (∀ c ∈ children, c ∈ s.children) → hoistedAll owner children = .ok all →
      ∀ h ∈ all, ∃ t, G t h.owner ∧ h.child ∈ t.children ∧
        includesVirtuals h.child.schema.options = .ok h.included
  | [], _, all, _, _, _, heq => by
    obtain rfl := Except.ok.inj heq
    simp
  | ⟨path, schema, isArray, isMap⟩ :: rest, owner, all, s, hs, hmem, heq => by
    have hc := hmem _ (List.mem_cons_self ..)
    have hinner := hoisted_induction hG schema (subDocumentName path owner)
    have hothers := hoistedAll_induction hG rest owner
    obtain ⟨included, inner, others, hincluded, hin, hot, rfl⟩ := hoistedAll_cons_eq_ok.mp heq
    intro h hh
    rcases List.mem_append.mp hh with hh | hh
    · exact hinner inner (hG s owner hs _ hc) hin h hh
    · rcases List.mem_cons.mp hh with rfl | hh
      · exact ⟨s, hs, hc, hincluded⟩
      · exact hothers others s hs (fun c' hc' => hmem c' (List.mem_cons_of_mem _ hc')) hot h hh
  termination_by structural children => children
end

/-- What is hoisted is an embedded schema with a name and readable options. -/
theorem mem_hoisted (hC : ∀ path owner, C path → owner ≠ "" → subDocumentName path owner ≠ "")
    {s : Schema} {owner : String} (howner : owner ≠ "") {all : List Hoisted} (hs : s.Every S C)
    (heq : s.hoisted owner = .ok all) {h : Hoisted} (hmem : h ∈ all) :
    h.child.schema.Every S C ∧ h.name ≠ "" ∧
      includesVirtuals h.child.schema.options = .ok h.included := by
  have hG : ∀ (t : Schema) (name : String), t.Every S C ∧ name ≠ "" → ∀ c ∈ t.children,
      c.schema.Every S C ∧ subDocumentName c.path name ≠ "" := by
    rintro t name ⟨ht, hname⟩ c hc
    obtain ⟨hpath, hschema⟩ := (Schema.every_iff.mp ht).2.of_mem hc
    exact ⟨hschema, hC c.path name hpath hname⟩
  obtain ⟨t, ht, hc, hincluded⟩ := hoisted_induction hG s owner all ⟨hs, howner⟩ heq h hmem
  obtain ⟨hschema, hname⟩ := hG t h.owner ht h.child hc
  exact ⟨hschema, hname, hincluded⟩

mutual
/-- What is to be hoisted is known when all options are readable. -/
theorem isOk_hoisted (hC : ∀ path owner, C path → owner ≠ "" → subDocumentName path owner ≠ "") :
    ∀ (s : Schema) (owner : String), owner ≠ "" → s.Every S C →
      ((∃ all, s.hoisted owner = .ok all) ↔
        ChildrenEvery (fun s => ∃ included, includesVirtuals s.options = .ok included)
          (fun _ => True) s.children)
  | ⟨_, _, _, _, _, _, children⟩, owner, howner, hs => by
    unfold Schema.hoisted
    rw [if_neg (by simpa using howner)]
    exact isOk_hoistedAll hC children owner howner hs.2
  termination_by structural s => s

theorem isOk_hoistedAll
    (hC : ∀ path owner, C path → owner ≠ "" → subDocumentName path owner ≠ "") :
    ∀ (children : List ChildSchema) (owner : String), owner ≠ "" → ChildrenEvery S C children →
      ((∃ all, hoistedAll owner children = .ok all) ↔
        ChildrenEvery (fun s => ∃ included, includesVirtuals s.options = .ok included)
          (fun _ => True) children)
  | [], _, _, _ => ⟨fun _ => trivial, fun _ => ⟨[], rfl⟩⟩
  | ⟨path, schema, isArray, isMap⟩ :: rest, owner, howner, ⟨hpath, hschema, hrest⟩ => by
    have hinner := isOk_hoisted hC schema _ (hC path owner hpath howner) hschema
    have hothers := isOk_hoistedAll hC rest owner howner hrest
    simp only [hoistedAll_cons_eq_ok, ChildrenEvery, Schema.every_iff, ← hinner, ← hothers]
    constructor
    · rintro ⟨_, included, inner, others, hincluded, hhoisted, hrest, -⟩
      exact ⟨trivial, ⟨⟨included, hincluded⟩, inner, hhoisted⟩, others, hrest⟩
    · rintro ⟨-, ⟨⟨included, hincluded⟩, inner, hhoisted⟩, others, hrest⟩
      exact ⟨_, included, inner, others, hincluded, hhoisted, hrest, rfl⟩
  termination_by structural children => children
end

/-! ## Both runs -/

/-- The text of a declaration from its parts: the hoisted interfaces, the aliases of the model when
they are asked for, and the members between header and footer. -/
def Schema.declarationOf (s : Schema) (o : DeclareOptions) (hoisted : List Interface)
    (members : List Member) : String :=
  let aliases :=
    if o.shape = .lean && !o.model.isEmpty && o.addModel then s.modelTypes o.isAugmented o.model
    else ""
  String.join (hoisted.map (·.render o.shape (exportLead o.isAugmented))) ++ aliases ++ o.header ++
    renderMembers o.shape 0 members ++ o.footer

/-- A schema is declared from what is hoisted out of it and its own members. -/
theorem Schema.declare_eq (s : Schema) (o : DeclareOptions) :
    s.declare o =
      (includesVirtuals s.options).bind fun included =>
        (s.hoisted o.model).map fun hoisted =>
          s.declarationOf o (hoisted.map (·.interface o.shape))
            (Member.ofFields ⟨o.shape, included⟩ (s.boundTree o.model)) := by
  unfold Schema.declare
  rw [hoist_eq]
  cases includesVirtuals s.options with
  | error e => rfl
  | ok included =>
    cases s.hoisted o.model with
    | error e => rfl
    | ok hoisted => rfl

/-- The members that a schema declared under a name has in both shapes. They agree at the fields of
the tree in which its embedded schemas are bound; a place that is apart from those of the embedded
schemas holds there what it holds in the tree of the schema. -/
structure Schema.BodiesAgree (s : Schema) (owner : String) (included : Bool)
    (lean document : List Member) : Prop where
  options : includesVirtuals s.options = .ok included
  members : Agree included (s.boundTree owner) lean document
  reads : ∀ path,
    (∀ c ∈ s.children, Tree.Apart (pathSegments path) (pathSegments c.place)) →
      Tree.getPath? (s.boundTree owner) path = Tree.getPath? s.tree path

/-- Both shapes of a schema are declared from the same hoisted schemas in the same order, under a
name and under that name with an ending, and all of their bodies agree. -/
def Schema.ShapesAgree (s : Schema) (lean document : DeclareOptions) : Prop :=
  ∃ (hoisted : List Hoisted) (included : Bool) (leanMembers documentMembers : List Member),
    s.declare lean =
        .ok (s.declarationOf lean (hoisted.map (Hoisted.interface · .lean)) leanMembers) ∧
      s.declare document =
        .ok (s.declarationOf document (hoisted.map (Hoisted.interface · .document))
          documentMembers) ∧
      s.BodiesAgree lean.model included leanMembers documentMembers ∧
      ∀ h ∈ hoisted,
        (h.interface .lean).name = h.name ∧
          (h.interface .document).name = h.name ++ "Document" ∧
          h.child.schema.BodiesAgree h.name h.included (h.interface .lean).members
            (h.interface .document).members

/-- A place apart from those of all embedded schemas keeps what it holds when they are bound. -/
theorem Schema.getPath?_boundTree {s : Schema} (owner : String) (hplain : Tree.IsPlain s.tree)
    {path : String}
    (h : ∀ c ∈ s.children, Tree.Apart (pathSegments path) (pathSegments c.place)) :
    Tree.getPath? (s.boundTree owner) path = Tree.getPath? s.tree path :=
  s.boundTree_induction (M := fun tree => Tree.getPath? tree path = Tree.getPath? s.tree path) owner
    hplain rfl fun tree c _ hc _ ih =>
      (Tree.getSegments?_setSegments tree (h c hc) _).trans ih

/-- The sub-documents in a bound tree have names. -/
theorem Schema.isNamed_boundTree {s : Schema} {owner : String} (hs : s.IsPlain)
    (howner : owner ≠ "") : FieldsEvery (fun _ => True) Value.IsNamed (s.boundTree owner) := by
  obtain ⟨htree, hchildren⟩ := Schema.every_iff.mp hs
  have hplain : Tree.IsPlain s.tree := htree.mono (fun _ h => h.1) fun _ _ => trivial
  have hnamed : Tree.Every (fun _ => True) Value.IsNamed s.tree :=
    htree.mono (fun _ _ => trivial) fun v h => by cases v <;> trivial
  refine (s.boundTree_induction (M := Tree.Every (fun _ => True) Value.IsNamed) owner hplain hnamed
    fun tree c d hc hd htree => ?_).2
  have hpath := (hchildren.of_mem hc).1
  have hname : d.name ≠ "" := by
    rw [hd]
    exact subDocumentName_ne_empty howner fun segment hsegment heq => hpath (heq ▸ hsegment)
  have hbound : (c.bound d).Every (fun _ => True) Value.IsNamed := by
    unfold ChildSchema.bound
    split
    · exact ⟨hname, trivial⟩
    · exact hname
  exact htree.setSegments trivial (fun _ _ _ _ _ _ => trivial) hbound

/-- The members of a schema agree in both shapes. -/
theorem Schema.bodiesAgree {s : Schema} {owner : String} {included : Bool} (hs : s.IsPlain)
    (howner : owner ≠ "") (hincluded : includesVirtuals s.options = .ok included) :
    s.BodiesAgree owner included
      (Member.ofFields ⟨.lean, included⟩ (s.boundTree owner))
      (Member.ofFields ⟨.document, included⟩ (s.boundTree owner)) := by
  have hplain : Tree.IsPlain s.tree :=
    (Schema.every_iff.mp hs).1.mono (fun _ h => h.1) fun _ _ => trivial
  exact ⟨hincluded, Agree.ofFields included (Schema.isNamed_boundTree hs howner),
    fun path h => Schema.getPath?_boundTree owner hplain h⟩

/-- The two shapes of a schema agree: they hoist the same embedded schemas in the same order, and
each body holds the same members in both, but for the texts of types and for the virtuals, which the
live document always holds and the plain data as the options of the body's schema say. When some
options cannot be read, there is no text in either shape, and for the same reason. -/
theorem Schema.declare_agrees {s : Schema} {lean document : DeclareOptions} (hs : s.IsPlain)
    (hlean : lean.shape = .lean) (hdocument : document.shape = .document)
    (hmodel : lean.model ≠ "") (hsame : document.model = lean.model) :
    (s.IsReadable → s.ShapesAgree lean document) ∧
      (¬ s.IsReadable → ∃ e, s.declare lean = .error e ∧ s.declare document = .error e) := by
  have hC : ∀ path owner, "" ∉ pathSegments path → owner ≠ "" → subDocumentName path owner ≠ "" :=
    fun path owner hpath howner =>
      subDocumentName_ne_empty howner fun segment hsegment heq => hpath (heq ▸ hsegment)
  have hok := isOk_hoisted hC s lean.model hmodel hs
  have hreadable : s.IsReadable ↔
      (∃ included, includesVirtuals s.options = .ok included) ∧
        ∃ all, s.hoisted lean.model = .ok all :=
    Schema.every_iff.trans (and_congr_right fun _ => hok.symm)
  rw [hreadable]
  constructor
  · rintro ⟨⟨included, hincluded⟩, hoisted, hhoisted⟩
    refine ⟨hoisted, included, _, _, ?_, ?_, Schema.bodiesAgree hs hmodel hincluded, ?_⟩
    · rw [Schema.declare_eq, hincluded, hhoisted, hlean]
      rfl
    · rw [Schema.declare_eq, hincluded, hsame, hhoisted, hdocument]
      rfl
    · intro h hmem
      obtain ⟨hplain, hname, hoptions⟩ := mem_hoisted hC hmodel hs hhoisted hmem
      refine ⟨rfl, ?_, ?_⟩
      · unfold Hoisted.interface ChildSchema.interface
        dsimp only
        split <;> rfl
      · rw [h.members_interface, h.members_interface]
        exact Schema.bodiesAgree hplain hname hoptions
  · -- both shapes read the options of the schema first, and then those of the embedded ones
    intro hnot
    rw [Schema.declare_eq, Schema.declare_eq, hsame]
    cases hincluded : includesVirtuals s.options with
    | error e => exact ⟨e, rfl, rfl⟩
    | ok included =>
      cases hhoisted : s.hoisted lean.model with
      | error e => exact ⟨e, rfl, rfl⟩
      | ok hoisted => exact absurd ⟨⟨included, hincluded⟩, hoisted, hhoisted⟩ hnot

/-- A room, whose virtuals the plain data holds. -/
def roomSchema : Schema :=
  { tree := [("size", .dict [("type", .tag .number), ("required", .bool true)]),
      ("title", .virtual (.empty "title"))]
    options := [("_id", .bool false), ("version_key", .bool false),
      ("to_object", .dict [("virtuals", .bool true)])]
    methods := []
    statics := []
    query := []
    virtuals := [("title", .empty "title")]
    children := [] }

/-- A house with rooms, whose own virtuals are in the live document alone. -/
def houseSchema : Schema :=
  { tree := [("street", .dict [("name", .tag .string), ("label", .virtual (.empty "label"))]),
      ("rooms", .list [.schema roomSchema])]
    options := [("_id", .bool false), ("version_key", .bool false)]
    methods := []
    statics := []
    query := []
    virtuals := [("street.label", .empty "label")]
    children := [⟨"rooms", roomSchema, true, false⟩] }

/-- How the house is declared in a shape. -/
def houseOptions (shape : Shape) : DeclareOptions :=
  ⟨shape, "House", true, "interface House \x7b\n", "\x7d", false⟩

theorem isPlain_houseSchema : houseSchema.IsPlain := by
  have hrooms : "" ∉ pathSegments "rooms" := by decide
  simp [houseSchema, roomSchema, Schema.every_iff, ChildrenEvery, Tree.Every, FieldsEvery,
    Value.Every, ItemsEvery, HasFullKeys, HasPlainKeys, Entries.keys, Value.IsUnbound, hrooms]
  rintro key v (⟨rfl, -⟩ | ⟨rfl, -⟩) <;> decide

theorem isReadable_houseSchema : houseSchema.IsReadable :=
  Schema.every_iff.mpr ⟨⟨false, rfl⟩, trivial, Schema.every_iff.mpr ⟨⟨true, rfl⟩, trivial⟩, trivial⟩

/-- The house and its rooms agree in both shapes. -/
theorem declare_agrees_house :
    houseSchema.ShapesAgree (houseOptions .lean) (houseOptions .document) :=
  (@Schema.declare_agrees houseSchema (houseOptions .lean) (houseOptions .document)
    isPlain_houseSchema rfl rfl (by decide) rfl).1 isReadable_houseSchema

end SchemaTypings
