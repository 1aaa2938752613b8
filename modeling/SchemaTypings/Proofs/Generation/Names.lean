import Mathlib.Data.List.Forall2
import Mathlib.Data.List.Nodup
import SchemaTypings.Proofs.Generation.Writable

/-!
# Which declarations have the same name

The names that a model declares all begin with its own. Behind it stand a fixed ending, or what is
made of the path of an embedded schema (`Schema.endings`): the capitals of its keys behind the
ending of its owner, without a plural. Models of which none begins with another's name never declare
the same name; within one model the names are distinct exactly when those endings are, are none of
the fixed ones, and none of them is another one with `Document` behind it
(`nodup_declaredNames_iff`). Two keys that differ in a plural are enough to break this.
-/

namespace SchemaTypings

open Declaration

/-! ## Endings -/

mutual
/-- What stands behind the name of a model in the names of the interfaces hoisted out of its schema;
`lead` is what stands behind it in the name of the schema's own. -/
def Schema.endings (lead : String) : Schema → List String
  | ⟨_, _, _, _, _, _, children⟩ => childEndings lead children
  termination_by structural s => s

/-- The same for some embedded schemas. -/
def childEndings (lead : String) : List ChildSchema → List String
  | [] => []
  | ⟨path, schema, _, _⟩ :: rest =>
    schema.endings (subDocumentName path lead) ++ subDocumentName path lead ::
      childEndings lead rest
  termination_by structural children => children
end

theorem dropPlural_of_eq {s : String} {rest : List Char} (h : s.toList = rest ++ ['s']) :
    dropPlural s = String.ofList rest := by
  unfold dropPlural
  simp [h]

theorem dropPlural_of_ne {s : String} (h : ∀ rest, s.toList ≠ rest ++ ['s']) : dropPlural s = s :=
  (dropPlural_eq s).resolve_right (h _)

/-- The plural of a text goes from what stands last in it. -/
theorem dropPlural_append (s : String) {t : String} (h : t ≠ "") :
    dropPlural (s ++ t) = s ++ dropPlural t := by
  have hne : t.toList ≠ [] := fun hnil => h (String.toList_eq_nil_iff.mp hnil)
  obtain ⟨rest, c, ht⟩ := (List.eq_nil_or_concat t.toList).resolve_left hne
  rw [List.concat_eq_append] at ht
  have hst : (s ++ t).toList = (s.toList ++ rest) ++ [c] := by
    rw [String.toList_append, ht, List.append_assoc]
  by_cases hc : c = 's'
  · subst hc
    rw [dropPlural_of_eq hst, dropPlural_of_eq ht]
    simp
  · have hplain : ∀ {u : String} {before : List Char}, u.toList = before ++ [c] → dropPlural u = u := by
      intro u before hu
      refine dropPlural_of_ne fun more heq => hc ?_
      rw [hu] at heq
      exact List.singleton_inj.mp (List.append_inj_right' heq rfl)
    rw [hplain hst, hplain ht]

/-- A path of keys. -/
def IsKeyPath (path : String) : Prop :=
  ∀ segment ∈ pathSegments path, IsKey segment

/-- The capitals of a path of keys are not all of a plural. -/
theorem IsKeyPath.exists_capital {path : String} (h : IsKeyPath path) :
    ∃ c ∈ (String.join ((pathSegments path).map Text.capitalize)).toList, isSmall c = false :=
  (join_capitalize (pathSegments_ne_nil path) h).2

/-- The owner of a sub-document may have anything in front of its name. -/
theorem subDocumentName_append (model lead : String) {path : String} (h : IsKeyPath path) :
    subDocumentName path (model ++ lead) = model ++ subDocumentName path lead := by
  obtain ⟨c, hc, -⟩ := h.exists_capital
  unfold subDocumentName
  rw [String.append_assoc, dropPlural_append]
  intro hempty
  have hnil := String.append_eq_empty_iff.mp hempty
  rw [hnil.2] at hc
  exact nomatch hc

/-- The name of a sub-document holds something even when its owner has no name. -/
theorem IsKeyPath.subDocumentName_ne_empty (lead : String) {path : String} (h : IsKeyPath path) :
    subDocumentName path lead ≠ "" := by
  obtain ⟨c, hc, hsmall⟩ := h.exists_capital
  unfold subDocumentName
  rcases dropPlural_eq (lead ++ String.join ((pathSegments path).map Text.capitalize)) with heq | heq
  · rw [heq]
    intro hempty
    rw [(String.append_eq_empty_iff.mp hempty).2] at hc
    exact nomatch hc
  · intro hempty
    rw [hempty, String.toList_append] at heq
    have hmem : c ∈ ['s'] := by
      have hall : c ∈ lead.toList ++ (String.join ((pathSegments path).map Text.capitalize)).toList :=
        List.mem_append_right _ hc
      rw [heq] at hall
      simpa using hall
    rw [List.mem_singleton.mp hmem] at hsmall
    exact absurd hsmall (by decide)

/-- Embedded schemas are at paths of keys. -/
abbrev Schema.HasKeyPaths (s : Schema) : Prop :=
  s.Every (fun _ => True) IsKeyPath

mutual
/-- What is hoisted out of a schema has the name of the model with the schema's endings. -/
theorem Schema.names_hoisted (model : String) (hmodel : model ≠ "") :
    ∀ (s : Schema) (lead : String) (all : List Hoisted), s.HasKeyPaths →
      s.hoisted (model ++ lead) = .ok all →
      all.map Hoisted.name = (s.endings lead).map (model ++ ·)
  | ⟨_, _, _, _, _, _, children⟩, lead, all, hs, h => by
    unfold Schema.hoisted at h
    rw [if_neg (by simp [hmodel])] at h
    exact names_hoistedAll model hmodel children lead all hs.2 h
  termination_by structural s => s

theorem names_hoistedAll (model : String) (hmodel : model ≠ "") :
    ∀ (children : List ChildSchema) (lead : String) (all : List Hoisted),
      ChildrenEvery (fun _ => True) IsKeyPath children →
      hoistedAll (model ++ lead) children = .ok all →
      all.map Hoisted.name = (childEndings lead children).map (model ++ ·)
  | [], _, all, _, h => by
    obtain rfl := Except.ok.inj h
    rfl
  | ⟨path, schema, isArray, isMap⟩ :: rest, lead, all, ⟨hpath, hschema, hrest⟩, h => by
    have hname := subDocumentName_append model lead hpath
    have hinner := Schema.names_hoisted model hmodel schema (subDocumentName path lead)
    have hothers := names_hoistedAll model hmodel rest lead
    obtain ⟨included, inner, others, -, hin, hot, rfl⟩ := hoistedAll_cons_eq_ok.mp h
    rw [hname] at hin
    rw [childEndings, List.map_append, List.map_append, List.map_cons, List.map_cons,
      hinner inner hschema hin, hothers others hrest hot, Hoisted.name, hname]
  termination_by structural children => children
end

mutual
/-- No ending is empty. -/
theorem Schema.ne_empty_of_mem_endings :
    ∀ (s : Schema) (lead : String), s.HasKeyPaths → ∀ ending ∈ s.endings lead, ending ≠ ""
  | ⟨_, _, _, _, _, _, children⟩, lead, hs => ne_empty_of_mem_childEndings children lead hs.2
  termination_by structural s => s

theorem ne_empty_of_mem_childEndings :
    ∀ (children : List ChildSchema) (lead : String), ChildrenEvery (fun _ => True) IsKeyPath children →
      ∀ ending ∈ childEndings lead children, ending ≠ ""
  | [], _, _ => fun _ h => nomatch h
  | ⟨path, schema, _, _⟩ :: rest, lead, ⟨hpath, hschema, hrest⟩ => by
    intro ending hending
    rw [childEndings, List.mem_append, List.mem_cons] at hending
    rcases hending with hinner | rfl | hothers
    · exact schema.ne_empty_of_mem_endings _ hschema ending hinner
    · exact hpath.subDocumentName_ne_empty lead
    · exact ne_empty_of_mem_childEndings rest lead hrest ending hothers
  termination_by structural children => children
end

/-! ## The names of a model -/

/-- The name that a declaration declares. The interface of query helpers has none of its own: it
extends one of the module. -/
def Item.name? : Item → Option String
  | .declared _ name _ _ => some name
  | .helpers _ => none

/-- What stands behind the name of a model in the names of its aliases. -/
def Schema.aliasEndings (s : Schema) : List String :=
  "Object" :: ((if s.query.isEmpty then [] else ["Queries"]) ++
    ["Methods", "Statics", "Model", "Schema"])

/-- The names of the interfaces hoisted out of a schema are told apart from each other and from the
other names of the model. -/
structure Schema.HasDistinctEndings (s : Schema) : Prop where
  nodup : (s.endings "").Nodup
  not_alias : ∀ ending ∈ s.endings "", ending ∉ "Document" :: s.aliasEndings
  not_document : ∀ ending ∈ s.endings "", ending ++ "Document" ∉ s.endings ""

/-- The endings of all names that a model declares. -/
def Schema.allEndings (s : Schema) : List String :=
  (s.endings "" ++ s.aliasEndings ++ [""]) ++ ((s.endings "").map (· ++ "Document") ++ ["Document"])

variable {model : String}

theorem ChildSchema.name_interface (c : ChildSchema) (shape : Shape) (owner : String)
    (members : List Member) :
    (c.interface shape owner members).name =
      subDocumentName c.path owner ++ (if shape = .document then "Document" else "") := by
  unfold ChildSchema.interface
  cases shape with
  | lean => simp
  | document =>
    dsimp only
    split <;> rfl

/-- The declarations of a model have its name with these endings. -/
theorem Schema.names_items {s : Schema} (hs : s.HasKeyPaths) (hmodel : model ≠ "")
    {hoisted : List Hoisted} (hhoisted : s.hoisted model = .ok hoisted) (included : Bool) :
    (s.leanItems model hoisted included ++ s.documentItems model hoisted included).filterMap
        Item.name? = s.allEndings.map (model ++ ·) := by
  have hnames : hoisted.map Hoisted.name = (s.endings "").map (model ++ ·) := by
    refine s.names_hoisted model hmodel "" hoisted hs ?_
    rwa [String.append_empty]
  have hinterfaces : ∀ shape,
      (hoisted.map fun h => Item.interface shape (h.interface shape)).filterMap Item.name? =
        (hoisted.map Hoisted.name).map (· ++ (if shape = .document then "Document" else "")) := by
    intro shape
    rw [List.filterMap_map, List.map_map, ← List.filterMap_eq_map]
    exact Member.filterMap_eq_of_mem fun h _ => congrArg some (h.child.name_interface shape _ _)
  have hmodelItems : (s.modelItems model).filterMap Item.name? = s.aliasEndings.map (model ++ ·) := by
    unfold Schema.modelItems Schema.aliasEndings
    dsimp only
    split <;> rfl
  unfold Schema.leanItems Schema.documentItems Schema.allEndings
  simp only [List.filterMap_append, hinterfaces, hmodelItems, hnames, List.map_append, List.map_map]
  simp [Item.name?, Item.interface, Schema.leanInterface, Schema.documentInterface, Function.comp_def,
    String.append_assoc]

/-- The endings of the aliases of a model are distinct, not empty, and end in no `Document`. -/
theorem Schema.aliasEndings_facts (s : Schema) :
    ("" :: s.aliasEndings).Nodup ∧
      ∀ fixed ∈ "" :: s.aliasEndings, ∀ ending, ending ++ "Document" ≠ fixed := by
  have hends : ∀ fixed ∈ ["", "Object", "Queries", "Methods", "Statics", "Model", "Schema"],
      ¬ "Document".toList <:+ fixed.toList := by decide
  have hmem : ∀ fixed ∈ "" :: s.aliasEndings,
      fixed ∈ ["", "Object", "Queries", "Methods", "Statics", "Model", "Schema"] := by
    unfold Schema.aliasEndings
    split <;> decide
  refine ⟨?_, fun fixed hfixed ending heq => hends fixed (hmem fixed hfixed) ?_⟩
  · unfold Schema.aliasEndings
    split <;> decide
  · rw [← heq, String.toList_append]
    exact List.suffix_append _ _

/-- The names of a model are distinct exactly when the endings of what is hoisted are told apart. -/
theorem Schema.nodup_allEndings {s : Schema} (hs : s.HasKeyPaths) :
    s.allEndings.Nodup ↔ s.HasDistinctEndings := by
  have hempty := s.ne_empty_of_mem_endings "" hs
  obtain ⟨hfixed, hdocument⟩ := s.aliasEndings_facts
  obtain ⟨hblank, halias⟩ := List.nodup_cons.mp hfixed
  have hinjective : Function.Injective (· ++ "Document" : String → String) := fun x y h => by
    simpa [← String.toList_inj] using h
  unfold Schema.allEndings
  -- the names are those of the plain data, of the aliases and the model, and of the documents
  constructor
  · intro h
    obtain ⟨hlean, -, hacross⟩ := List.nodup_append.mp h
    obtain ⟨hnames, -, -⟩ := List.nodup_append.mp hlean
    obtain ⟨hendings, -, hapart⟩ := List.nodup_append.mp hnames
    refine ⟨hendings, fun ending hending hmem => ?_, fun ending hending hmem => ?_⟩
    · rcases List.mem_cons.mp hmem with rfl | hmem
      · exact hacross "Document" (by simp [hending]) "Document" (by simp) rfl
      · exact hapart ending hending ending hmem rfl
    · have hshaped : ending ++ "Document" ∈ (s.endings "").map (· ++ "Document") :=
        List.mem_map_of_mem hending
      exact hacross _ (by simp [hmem]) _ (List.mem_append_left _ hshaped) rfl
  · rintro ⟨hendings, hother, hshaped⟩
    refine List.nodup_append.mpr ⟨List.nodup_append.mpr ⟨List.nodup_append.mpr ⟨hendings, halias, ?_⟩,
      List.pairwise_singleton .., ?_⟩,
      List.nodup_append.mpr ⟨?_, List.pairwise_singleton .., ?_⟩, ?_⟩
    · rintro ending hending other hmem rfl
      exact hother ending hending (List.mem_cons_of_mem _ hmem)
    · -- the model has no ending
      rintro name hname blank hmem rfl
      rw [List.mem_singleton.mp hmem] at hname
      rcases List.mem_append.mp hname with hname | hname
      · exact hempty "" hname rfl
      · exact hblank hname
    · exact List.Pairwise.map _ (fun _ _ hne heq => hne (hinjective heq)) hendings
    · -- the document of the model
      rintro name hname last hmem rfl
      obtain ⟨ending, hending, heq⟩ := List.mem_map.mp hname
      rw [List.mem_singleton.mp hmem] at heq
      have hsame : ending ++ "Document" = "" ++ "Document" := heq.trans String.empty_append.symm
      exact hempty ending hending (hinjective hsame)
    · -- a name of a document is another one with `Document` behind it
      rintro name hname other hmem rfl
      obtain ⟨ending, hending, rfl⟩ : ∃ ending ∈ "" :: s.endings "", ending ++ "Document" = name := by
        rcases List.mem_append.mp hmem with hmem | hmem
        · obtain ⟨ending, hending, heq⟩ := List.mem_map.mp hmem
          exact ⟨ending, List.mem_cons_of_mem _ hending, heq⟩
        · exact ⟨"", List.mem_cons_self, (List.mem_singleton.mp hmem).symm⟩
      rw [List.append_assoc, List.mem_append] at hname
      rcases hname with hname | hname
      · rcases List.mem_cons.mp hending with rfl | hending
        · exact hother _ hname (by simp)
        · exact hshaped ending hending hname
      · refine hdocument _ ?_ ending rfl
        simpa [or_comm] using hname

/-! ## The names of a file -/

variable {schemas : List (String × Schema)}

/-- The declarations that a file makes for one of its models. -/
def IsItemsOf (entry : String × Schema) (items : List Item) : Prop :=
  ∃ chunks, itemChunks [entry] = .ok chunks ∧ chunks.flatten = items

/-- The declarations of a file are those of its models, one model after the other. -/
theorem exists_itemsOf {chunks : List (List Item)} (hchunks : itemChunks schemas = .ok chunks) :
    ∃ groups, List.Forall₂ IsItemsOf schemas groups ∧ groups.flatten = chunks.flatten := by
  induction schemas generalizing chunks with
  | nil =>
    obtain rfl := Except.ok.inj hchunks
    exact ⟨[], .nil, rfl⟩
  | cons entry rest ih =>
    obtain ⟨included, hoisted, others, hincluded, hhoisted, hothers, rfl⟩ :=
      itemChunks_cons_eq_ok_iff.mp hchunks
    obtain ⟨groups, hgroups, hflatten⟩ := ih hothers
    have hentry : IsItemsOf entry (entry.2.leanItems entry.1 hoisted included ++
        entry.2.documentItems entry.1 hoisted included) :=
      ⟨_, itemChunks_cons_eq_ok_iff.mpr ⟨included, hoisted, [], hincluded, hhoisted, rfl, rfl⟩,
        by simp⟩
    exact ⟨_, .cons hentry hgroups, by simp [hflatten]⟩

/-- The declarations of a model have the model's name with its endings behind it. -/
theorem IsItemsOf.names_eq {entry : String × Schema} {items : List Item}
    (h : IsItemsOf entry items) (hname : entry.1 ≠ "") (hpaths : entry.2.HasKeyPaths) :
    items.filterMap Item.name? = entry.2.allEndings.map (entry.1 ++ ·) := by
  obtain ⟨chunks, hchunks, rfl⟩ := h
  obtain ⟨included, hoisted, others, -, hhoisted, hothers, rfl⟩ :=
    itemChunks_cons_eq_ok_iff.mp hchunks
  obtain rfl := Except.ok.inj hothers
  rw [← Schema.names_items hpaths hname hhoisted included]
  simp

/-- The names of one model are distinct when its endings are. -/
theorem IsItemsOf.nodup_names_iff {entry : String × Schema} {items : List Item}
    (h : IsItemsOf entry items) (hname : entry.1 ≠ "") (hpaths : entry.2.HasKeyPaths) :
    (items.filterMap Item.name?).Nodup ↔ entry.2.HasDistinctEndings := by
  have hinjective : Function.Injective (entry.1 ++ · : String → String) := fun x y h => by
    simpa [← String.toList_inj] using h
  rw [h.names_eq hname hpaths, List.nodup_map_iff hinjective, Schema.nodup_allEndings hpaths]

/-- Neither of two models begins with the other's name. -/
def ApartModels (entry other : String × Schema) : Prop :=
  ¬ entry.1.toList <+: other.1.toList ∧ ¬ other.1.toList <+: entry.1.toList

/-- Models of which none begins with another's name declare no name in common. -/
theorem ApartModels.ne {entry other : String × Schema} (h : ApartModels entry other)
    (ending ending' : String) : entry.1 ++ ending ≠ other.1 ++ ending' := by
  intro heq
  have hchars := congrArg String.toList heq
  rw [String.toList_append, String.toList_append] at hchars
  have hleft : entry.1.toList <+: entry.1.toList ++ ending.toList := List.prefix_append _ _
  have hright : other.1.toList <+: entry.1.toList ++ ending.toList := hchars ▸ List.prefix_append _ _
  exact (List.prefix_or_prefix_of_prefix hleft hright).elim h.1 h.2

/-- No name is declared both among these and among those declarations. -/
def DisjointNames (own others : List Item) : Prop :=
  (own.filterMap Item.name?).Disjoint (others.filterMap Item.name?)

/-- No name is declared for two of the models, also when one of them declares a name twice. -/
theorem pairwise_disjointNames (hnames : ∀ entry ∈ schemas, entry.1 ≠ "")
    (hpaths : ∀ entry ∈ schemas, entry.2.HasKeyPaths) (hapart : schemas.Pairwise ApartModels)
    {groups : List (List Item)} (hgroups : List.Forall₂ IsItemsOf schemas groups) :
    groups.Pairwise DisjointNames := by
  induction hgroups with
  | nil => exact .nil
  | @cons entry own rest groups hown hgroups ih =>
    obtain ⟨hfirst, hrest⟩ := List.pairwise_cons.mp hapart
    obtain ⟨hname, hnames⟩ := List.forall_mem_cons.mp hnames
    obtain ⟨hpath, hpaths⟩ := List.forall_mem_cons.mp hpaths
    refine .cons (fun others hothers => ?_) (ih hnames hpaths hrest)
    -- the other model stands at the place of its declarations
    obtain ⟨⟨i, hi⟩, rfl⟩ := List.mem_iff_get.mp hothers
    have hi' : i < rest.length := hgroups.length_eq ▸ hi
    have hitems := hgroups.get hi' hi
    have hother := rest.get_mem ⟨i, hi'⟩
    unfold DisjointNames
    rw [hown.names_eq hname hpath, hitems.names_eq (hnames _ hother) (hpaths _ hother)]
    rintro name hmem hmem'
    obtain ⟨ending, -, rfl⟩ := List.mem_map.mp hmem
    obtain ⟨ending', -, heq⟩ := List.mem_map.mp hmem'
    exact (hfirst _ hother).ne ending ending' heq.symm

/-- The names of a file are distinct when those of each model are. -/
theorem nodup_names_iff (hnames : ∀ entry ∈ schemas, entry.1 ≠ "")
    (hpaths : ∀ entry ∈ schemas, entry.2.HasKeyPaths) (hapart : schemas.Pairwise ApartModels)
    {groups : List (List Item)} (hgroups : List.Forall₂ IsItemsOf schemas groups) :
    (groups.flatten.filterMap Item.name?).Nodup ↔
      ∀ entry ∈ schemas, entry.2.HasDistinctEndings := by
  have hdisjoint := pairwise_disjointNames hnames hpaths hapart hgroups
  have hmodels : (∀ items ∈ groups, (items.filterMap Item.name?).Nodup) ↔
      ∀ entry ∈ schemas, entry.2.HasDistinctEndings := by
    clear hapart hdisjoint
    induction hgroups with
    | nil => simp
    | cons hown _ ih =>
      obtain ⟨hname, hnames⟩ := List.forall_mem_cons.mp hnames
      obtain ⟨hpath, hpaths⟩ := List.forall_mem_cons.mp hpaths
      rw [List.forall_mem_cons, List.forall_mem_cons, hown.nodup_names_iff hname hpath,
        ih hnames hpaths]
  -- distinct in each model, and none in common
  rw [List.filterMap_flatten, List.nodup_flatten, List.forall_mem_map, List.pairwise_map, hmodels]
  exact and_iff_left hdisjoint

/-! ## Declared names -/

/-- The names that a declaration declares among the generated ones: its own, and in an augmentation
that of the interface which query helpers extend. -/
def Item.scopeNames (isAugmented : Bool) : Item → List String
  | .declared _ name _ _ => [name]
  | .helpers _ => if isAugmented then ["Query"] else []

/-- In a file of its own a declaration declares its name. -/
theorem flatMap_scopeNames (items : List Item) :
    items.flatMap (·.scopeNames false) = items.filterMap Item.name? := by
  induction items with
  | nil => rfl
  | cons i items ih =>
    rw [List.flatMap_cons, ih]
    cases i <;> rfl

/-- A declaration that says its name. -/
def Item.IsTitled : Item → Prop
  | .declared _ name _ out => ∀ isExported, (out isExported).heading.declared? = some name
  | .helpers _ => True

theorem Schema.isTitled_of_mem_items {s : Schema} {hoisted : List Hoisted} {included : Bool}
    {i : Item}
    (hi : i ∈ s.leanItems model hoisted included ∨ i ∈ s.documentItems model hoisted included) :
    i.IsTitled := by
  have hinterface : ∀ shape i, (Item.interface shape i).IsTitled := fun _ _ _ => rfl
  have haliases : ∀ i ∈ s.modelItems model, i.IsTitled := by
    unfold Schema.modelItems
    dsimp only
    intro i hi
    split at hi
    · simp only [List.nil_append, List.mem_cons, List.not_mem_nil, or_false] at hi
      rcases hi with rfl | rfl | rfl | rfl | rfl <;> exact fun _ => rfl
    · simp only [List.cons_append, List.nil_append, List.mem_cons, List.not_mem_nil, or_false] at hi
      rcases hi with rfl | rfl | rfl | rfl | rfl | rfl | rfl
      · exact fun _ => rfl
      · exact fun _ => rfl
      · exact trivial
      · exact fun _ => rfl
      · exact fun _ => rfl
      · exact fun _ => rfl
      · exact fun _ => rfl
  simp only [Schema.leanItems, Schema.documentItems, List.mem_append, List.mem_map,
    List.mem_singleton] at hi
  rcases hi with ((⟨h, -, rfl⟩ | hi) | rfl) | ⟨h, -, rfl⟩ | rfl
  · exact hinterface _ _
  · exact haliases i hi
  · exact hinterface _ _
  · exact hinterface _ _
  · exact hinterface _ _

/-- Titled declarations declare their names. -/
theorem declared_outlines (isAugmented : Bool) {items : List Item} (h : ∀ i ∈ items, i.IsTitled) :
    (outlineHeadings (items.flatMap (·.outlines isAugmented))).filterMap Heading.declared? =
      items.flatMap (·.scopeNames isAugmented) := by
  have hitem : ∀ i : Item, i.IsTitled →
      ((i.outlines isAugmented).map Outline.heading).filterMap Heading.declared? =
        i.scopeNames isAugmented := by
    intro i hi
    cases i with
    | declared docs name text out => simp [Item.outlines, Item.scopeNames, hi (!isAugmented)]
    | helpers model => cases isAugmented <;> rfl
  induction items with
  | nil => rfl
  | cons i items ih =>
    have hrest := ih fun j hj => h j (List.mem_cons_of_mem _ hj)
    rw [outlineHeadings_eq] at hrest ⊢
    rw [List.flatMap_cons, List.map_append, List.filterMap_append, hitem i (h i List.mem_cons_self),
      hrest, List.flatMap_cons]

/-- The file that is generated declares the names of its declarations. -/
theorem declaredNames_generateTypes (hne : schemas ≠ []) (hwritable : AllWritable IsInline schemas)
    {chunks : List (List Item)} (hchunks : itemChunks schemas = .ok chunks) (isAugmented : Bool) :
    ∃ file, generateTypes schemas ⟨isAugmented, []⟩ = .ok file ∧
      file.declaredNames isAugmented = chunks.flatten.flatMap (·.scopeNames isAugmented) := by
  have hreads := hwritable.reads (fun _ h => h.isQuotable) hchunks
  have hlined := hwritable.isLined (fun _ h => h) hchunks
  have htitled : ∀ i ∈ chunks.flatten, i.IsTitled := by
    intro i hi
    obtain ⟨chunk, hchunk, hmem⟩ := List.mem_flatten.mp hi
    obtain ⟨entry, -, hoisted, included, -, -, hkind⟩ := exists_of_mem_itemChunks hchunks hchunk
    rcases hkind with rfl | rfl
    · exact Schema.isTitled_of_mem_items (.inl hmem)
    · exact Schema.isTitled_of_mem_items (.inr hmem)
  have hdeclared := declared_outlines isAugmented htitled
  -- the declarations are those of the file, or of the one module block of an augmentation
  have hfile : ∃ file, SourceFile.ofText (fileText isAugmented chunks) = .ok file ∧
      rootHeadings isAugmented (statementHeadings file.statements) =
        outlineHeadings (chunks.flatten.flatMap (·.outlines isAugmented)) := by
    cases isAugmented with
    | false =>
      obtain ⟨file, hfile, -, houtline⟩ := exists_file_plain hreads
      exact ⟨file, hfile, by rw [← houtline, SourceFile.outline, headings_outlines]; rfl⟩
    | true =>
      obtain ⟨-, file, hfile, hheadings⟩ := exists_file_augmented hreads hlined
      exact ⟨file, hfile, by rw [hheadings]; rfl⟩
  obtain ⟨file, hfile, hroot⟩ := hfile
  refine ⟨file, ?_, ?_⟩
  · rw [generateTypes_eq isAugmented hne hwritable.ne_empty, hchunks]
    simp only [Except.mapError, Except.bind, hfile]
  · rw [SourceFile.declaredNames_eq, hroot, hdeclared]

/-- No name is declared for two models of which none begins with another's name, and no name is
declared twice exactly when every model tells the interfaces that are hoisted out of its schema apart
from each other and from its other declarations. These are the declarations that the text of the file
is made of, and those of the file that is read from it when it can be read: what an augmentation
declares besides is only the interface that query helpers extend. -/
theorem nodup_declaredNames_iff (hne : schemas ≠ []) (hnames : ∀ entry ∈ schemas, entry.1 ≠ "")
    (hpaths : ∀ entry ∈ schemas, entry.2.HasKeyPaths) (hapart : schemas.Pairwise ApartModels)
    {chunks : List (List Item)} (hchunks : itemChunks schemas = .ok chunks) :
    (∃ groups, List.Forall₂ IsItemsOf schemas groups ∧ groups.flatten = chunks.flatten ∧
      groups.Pairwise DisjointNames) ∧
    ((chunks.flatten.filterMap Item.name?).Nodup ↔
      ∀ entry ∈ schemas, entry.2.HasDistinctEndings) ∧
    ∀ isAugmented,
      declarationText schemas ⟨isAugmented, []⟩ = .ok (fileText isAugmented chunks) ∧
      (AllWritable IsInline schemas → ∃ file, generateTypes schemas ⟨isAugmented, []⟩ = .ok file ∧
        file.declaredNames isAugmented = chunks.flatten.flatMap (·.scopeNames isAugmented)) := by
  obtain ⟨groups, hgroups, hflatten⟩ := exists_itemsOf hchunks
  refine ⟨⟨groups, hgroups, hflatten, pairwise_disjointNames hnames hpaths hapart hgroups⟩, ?_,
    fun isAugmented => ⟨?_, fun hwritable => ?_⟩⟩
  · rw [← hflatten]
    exact nodup_names_iff hnames hpaths hapart hgroups
  · rw [declarationText_eq isAugmented hne hnames, hchunks]
    rfl
  · exact declaredNames_generateTypes hne hwritable hchunks isAugmented

theorem hasKeyPaths_ticketSchema : ticketSchema.HasKeyPaths := by
  have hnotes : IsKeyPath "notes" := by
    unfold IsKeyPath
    decide
  exact Schema.every_iff.mpr ⟨trivial, hnotes, Schema.every_iff.mpr ⟨trivial, trivial⟩, trivial⟩

/-- Tickets and notes on their own declare no name twice. -/
theorem nodup_declaredNames_ticket :
    ∃ chunks, itemChunks [("Ticket", ticketSchema), ("Note", noteSchema)] = .ok chunks ∧
      (chunks.flatten.filterMap Item.name?).Nodup := by
  have hpaths : ∀ entry ∈ [("Ticket", ticketSchema), ("Note", noteSchema)], entry.2.HasKeyPaths :=
    List.forall_mem_cons.mpr ⟨hasKeyPaths_ticketSchema,
      List.forall_mem_singleton.mpr (Schema.every_iff.mpr ⟨trivial, trivial⟩)⟩
  have hapart : [("Ticket", ticketSchema), ("Note", noteSchema)].Pairwise ApartModels := by
    refine List.pairwise_cons.mpr ⟨List.forall_mem_singleton.mpr ?_, List.pairwise_singleton ..⟩
    exact ⟨by decide, by decide⟩
  have hticket : ticketSchema.endings "" = ["Note"] := rfl
  have hnote : noteSchema.endings "" = [] := rfl
  obtain ⟨chunks, hchunks⟩ :
      ∃ chunks, itemChunks [("Ticket", ticketSchema), ("Note", noteSchema)] = .ok chunks := ⟨_, rfl⟩
  refine ⟨chunks, hchunks, (nodup_declaredNames_iff (List.cons_ne_nil _ _)
    (by simp) hpaths hapart hchunks).2.1.mpr ?_⟩
  refine List.forall_mem_cons.mpr ⟨?_, List.forall_mem_singleton.mpr ?_⟩
  · exact ⟨by rw [hticket]; decide, by rw [hticket]; decide, by rw [hticket]; decide⟩
  · exact ⟨by rw [hnote]; decide, by rw [hnote]; decide, by rw [hnote]; decide⟩

/-- Somebody with a friend and with friends. -/
def friendsSchema : Schema :=
  { tree := [("friend", .schema noteSchema), ("friends", .list [.schema noteSchema])]
    options := [("_id", .bool false), ("version_key", .bool false)]
    methods := []
    statics := []
    query := []
    virtuals := []
    children := [⟨"friend", noteSchema, false, false⟩, ⟨"friends", noteSchema, true, false⟩] }

theorem isWritable_friendsSchema : friendsSchema.IsWritable IsInline "User" where
  names := by
    have hfields : HasNames friendsSchema.tree :=
      ⟨by decide, by decide, fun _ h => by cases h⟩
    have hpaths : IsKeyPath "friend" ∧ IsKeyPath "friends" := by
      unfold IsKeyPath
      decide
    exact Schema.every_iff.mpr ⟨⟨hfields, trivial, ⟨trivial, trivial⟩, trivial⟩, hpaths.1,
      hasNames_noteSchema, hpaths.2, hasNames_noteSchema, trivial⟩
  isEnum := by
    have htree : friendsSchema.boundTree "User" =
        [("friend", .subDocument ⟨"UserFriend", ["text"], false, false, false⟩),
          ("friends", .list [.subDocument ⟨"UserFriend", ["text"], true, false, false⟩])] := rfl
    have hschema : ∀ c ∈ friendsSchema.children, c.schema = noteSchema := by
      simp [friendsSchema]
    rintro value (⟨hcompiles, hrenders⟩ | ⟨htype, -⟩)
    · obtain ⟨rfl, rfl⟩ | ⟨c, hc, rfl⟩ :=
        hcompiles.eq_self_or_mem fun c hc => by rw [hschema c hc]; rfl
      · rw [htree] at hrenders
        refine absurd hrenders (not_rendersEnum ?_)
        exact ⟨rfl, trivial, ⟨trivial, trivial⟩, trivial⟩
      · rw [hschema c hc] at hrenders
        exact absurd hrenders not_renders_noteSchema
    · cases htype

/-- A plural is enough for two embedded schemas to get the same name. -/
theorem exists_declared_twice :
    Schema.build (.dict [("friend", .schema noteSchema), ("friends", .list [.schema noteSchema])])
        .null [("_id", .bool false), ("version_key", .bool false)] = .ok friendsSchema ∧
      ∃ file, generateTypes [("User", friendsSchema)] ⟨false, []⟩ = .ok file ∧
        ¬ (file.declaredNames false).Nodup := by
  have hwritable : AllWritable IsInline [("User", friendsSchema)] :=
    List.forall_mem_singleton.mpr ⟨by decide, isWritable_friendsSchema⟩
  have hpaths : ∀ entry ∈ [("User", friendsSchema)], entry.2.HasKeyPaths := by
    have hfriends : IsKeyPath "friend" ∧ IsKeyPath "friends" := by
      unfold IsKeyPath
      decide +kernel
    have hnote : noteSchema.HasKeyPaths := Schema.every_iff.mpr ⟨trivial, trivial⟩
    exact List.forall_mem_singleton.mpr (Schema.every_iff.mpr
      ⟨trivial, hfriends.1, hnote, hfriends.2, hnote, trivial⟩)
  have hendings : friendsSchema.endings "" = ["Friend", "Friend"] := rfl
  obtain ⟨chunks, hchunks⟩ : ∃ chunks, itemChunks [("User", friendsSchema)] = .ok chunks := ⟨_, rfl⟩
  obtain ⟨file, hfile, hdeclared⟩ :=
    declaredNames_generateTypes (List.cons_ne_nil _ _) hwritable hchunks false
  refine ⟨rfl, file, hfile, fun hnodup => ?_⟩
  rw [hdeclared, flatMap_scopeNames, IsItemsOf.nodup_names_iff ⟨chunks, hchunks, rfl⟩
    (hwritable.ne_empty _ List.mem_cons_self) (hpaths _ List.mem_cons_self)] at hnodup
  have hdistinct := hnodup.nodup
  rw [hendings] at hdistinct
  exact absurd hdistinct (by decide)

end SchemaTypings
