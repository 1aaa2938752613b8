import Mathlib.Data.List.Forall2
import SchemaTypings.Proofs.Schemas.Construction
import SchemaTypings.Proofs.Trees.Substitution

/-!
# Hoisting is substitution

The embedded schemas of a schema are collected from its tree when it is built, and stand apart from
each other there (`pairwise_embeddedInFields`). They stay where they are as long as virtuals are
declared apart from them (`Schema.GrownFrom.holdsChildren`). So the tree in which they are bound is
the tree of the schema with their sub-documents substituted (`Schema.bound_eq_substitute`).

Keys are told from the segments of paths: a key of a definition may hold dots, as long as it is
gone when the schema is declared.
-/

namespace SchemaTypings

open SchemaTypings.Tree (Apart)

/-- The keys of a dictionary are distinct. -/
def HasDistinctKeys (fields : Fields) : Prop :=
  (Entries.keys fields).Nodup

/-! ## Where schemas are embedded -/

mutual
/-- The schemas embedded in a value, with the keys that lead to each and the way it is embedded. -/
def embeddedInValue : Value → List (List String × Schema × Bool × Bool)
  | .dict fields =>
    match embedded? (.dict fields) with
    | some e => [([], e)]
    | none => if isFieldSpec fields then [] else embeddedInFields fields
  | v => (embedded? v).toList.map ([], ·)
  termination_by structural v => v

/-- The schemas embedded in fields. -/
def embeddedInFields : Fields → List (List String × Schema × Bool × Bool)
  | [] => []
  | (key, v) :: rest =>
    (embeddedInValue v).map (Prod.map (key :: ·) id) ++ embeddedInFields rest
  termination_by structural fields => fields
end

/-- A collected schema is one that is embedded behind some segments. -/
def IsCollected (before : List String) (c : ChildSchema) (e : List String × Schema × Bool × Bool) :
    Prop :=
  pathSegments c.path = before ++ e.1.flatMap pathSegments ∧ e.2 = (c.schema, c.isArray, c.isMap)

mutual
/-- The schemas embedded in a value are collected in order. -/
theorem childrenOfValue_isCollected (path : String) :
    ∀ v : Value, List.Forall₂ (IsCollected (pathSegments path)) (childrenOfValue path v)
      (embeddedInValue v)
  | .dict fields => by
    unfold childrenOfValue embeddedInValue
    cases embedded? (.dict fields) with
    | some e => exact .cons ⟨by simp, rfl⟩ .nil
    | none =>
      dsimp only
      split
      · exact .nil
      · exact childrenOfFields_isCollected (path ++ ".") _ (pathSegments_append path) fields
  | .null | .bool _ | .int _ | .real _ | .text _ | .list _ | .tuple _ | .type _ | .tag _
  | .schema _ | .model _ _ | .virtual _ | .subDocument _ => by
    unfold childrenOfValue embeddedInValue
    split
    · next heq =>
      rw [heq]
      exact .cons ⟨by simp, rfl⟩ .nil
    · next heq =>
      rw [heq]
      exact .nil
  termination_by structural v => v

theorem childrenOfFields_isCollected (lead : String) (before : List String)
    (hlead : ∀ key, pathSegments (lead ++ key) = before ++ pathSegments key) :
    ∀ fields : List (String × Value),
      List.Forall₂ (IsCollected before) (childrenOfFields lead fields) (embeddedInFields fields)
  | [] => .nil
  | (key, v) :: rest => by
    have hv := childrenOfValue_isCollected (lead ++ key) v
    have hkey : List.Forall₂ (IsCollected before) (childrenOfValue (lead ++ key) v)
        ((embeddedInValue v).map (Prod.map (key :: ·) id)) := by
      refine List.forall₂_map_right_iff.mpr (hv.imp fun c e hc => ⟨?_, hc.2⟩)
      rw [hc.1, hlead, List.append_assoc]
      rfl
    exact List.rel_append hkey (childrenOfFields_isCollected lead before hlead rest)
  termination_by structural fields => fields
end

/-- What is in one of two related lists has its counterpart in the other. -/
theorem exists_of_mem_left {α β : Type} {R : α → β → Prop} {xs : List α} {ys : List β}
    (h : List.Forall₂ R xs ys) {x : α} (hx : x ∈ xs) : ∃ y ∈ ys, R x y := by
  induction h with
  | nil => exact absurd hx List.not_mem_nil
  | cons hhead _ ih =>
    rcases List.mem_cons.mp hx with rfl | hx
    · exact ⟨_, List.mem_cons_self, hhead⟩
    · obtain ⟨y, hy, hxy⟩ := ih hx
      exact ⟨y, List.mem_cons_of_mem _ hy, hxy⟩

theorem exists_of_mem_right {α β : Type} {R : α → β → Prop} {xs : List α} {ys : List β}
    (h : List.Forall₂ R xs ys) {y : β} (hy : y ∈ ys) : ∃ x ∈ xs, R x y :=
  exists_of_mem_left h.flip hy

/-- What is embedded in fields is embedded in one of them. -/
theorem mem_embeddedInFields {fields : Fields} {e : List String × Schema × Bool × Bool} :
    e ∈ embeddedInFields fields ↔
      ∃ key v, (key, v) ∈ fields ∧ ∃ inner ∈ embeddedInValue v, e = (key :: inner.1, inner.2) := by
  induction fields with
  | nil => simp [embeddedInFields]
  | cons field rest ih =>
    obtain ⟨k, w⟩ := field
    rw [embeddedInFields, List.mem_append, ih, List.mem_map]
    constructor
    · rintro (⟨inner, hinner, rfl⟩ | ⟨key, v, hv, hinner⟩)
      · exact ⟨k, w, List.mem_cons_self, inner, hinner, rfl⟩
      · exact ⟨key, v, List.mem_cons_of_mem _ hv, hinner⟩
    · rintro ⟨key, v, hv, inner, hinner, rfl⟩
      rcases List.mem_cons.mp hv with heq | hv
      · obtain ⟨rfl, rfl⟩ := Prod.mk.inj heq
        exact .inl ⟨inner, hinner, rfl⟩
      · exact .inr ⟨key, v, hv, inner, hinner, rfl⟩

/-- What is embedded in fields is found under one of their keys. -/
theorem exists_key_of_mem_embeddedInFields {fields : Fields}
    {e : List String × Schema × Bool × Bool} (h : e ∈ embeddedInFields fields) :
    ∃ key ∈ Entries.keys fields, ∃ rest, e.1 = key :: rest := by
  obtain ⟨key, v, hv, inner, -, rfl⟩ := mem_embeddedInFields.mp h
  exact ⟨key, List.mem_map_of_mem hv, inner.1, rfl⟩

mutual
/-- Schemas are embedded in a value apart from each other. -/
theorem pairwise_embeddedInValue :
    ∀ v : Value, v.Every HasDistinctKeys (fun _ => True) →
      (embeddedInValue v).Pairwise fun e e' => Apart e.1 e'.1
  | .dict fields, hv => by
    unfold embeddedInValue
    split
    · exact List.pairwise_singleton ..
    · split
      · exact .nil
      · exact pairwise_embeddedInFields fields hv.1 hv.2
  | .null, _ | .bool _, _ | .int _, _ | .real _, _ | .text _, _ | .list _, _ | .tuple _, _
  | .type _, _ | .tag _, _ | .schema _, _ | .model _ _, _ | .virtual _, _ | .subDocument _, _ => by
    unfold embeddedInValue
    generalize embedded? _ = e
    cases e with
    | none => exact .nil
    | some e => exact List.pairwise_singleton ..
  termination_by structural v => v

/-- Schemas are embedded in fields apart from each other. -/
theorem pairwise_embeddedInFields :
    ∀ fields : List (String × Value), HasDistinctKeys fields →
      FieldsEvery HasDistinctKeys (fun _ => True) fields →
      (embeddedInFields fields).Pairwise fun e e' => Apart e.1 e'.1
  | [], _, _ => .nil
  | (key, v) :: rest, hkeys, hfields => by
    obtain ⟨hnew, hrest⟩ := List.nodup_cons.mp hkeys
    refine List.pairwise_append.mpr ⟨?_, pairwise_embeddedInFields rest hrest hfields.2, ?_⟩
    · refine List.pairwise_map.mpr ((pairwise_embeddedInValue v hfields.1).imp fun h => ?_)
      simpa [Apart] using h
    · -- what is embedded in the rest stands under other keys
      intro e he e' he'
      obtain ⟨e, -, rfl⟩ := List.mem_map.mp he
      obtain ⟨k, hk, segments, hhead⟩ := exists_key_of_mem_embeddedInFields he'
      have hne : key ≠ k := fun heq => hnew (heq ▸ hk)
      rw [hhead]
      simp [Apart, hne, hne.symm]
  termination_by structural fields => fields
end

mutual
/-- A schema embedded in a value is found where its keys lead. -/
theorem valueAt?_of_mem_embedded :
    ∀ v : Value, v.Every HasDistinctKeys (fun _ => True) → ∀ e ∈ embeddedInValue v,
      ∃ w, Tree.valueAt? v e.1 = some w ∧ embedded? w = some e.2
  | .dict fields, hv, e, he => by
    unfold embeddedInValue at he
    split at he
    · next found hfound =>
      obtain rfl := List.mem_singleton.mp he
      exact ⟨_, rfl, hfound⟩
    · split at he
      · simp at he
      · obtain ⟨key, -, rest, hhead⟩ := exists_key_of_mem_embeddedInFields he
        have hfound := getSegments?_of_mem_embedded fields hv.1 hv.2 e he
        rw [hhead] at hfound ⊢
        exact hfound
  | .null, _, e, he | .bool _, _, e, he | .int _, _, e, he | .real _, _, e, he
  | .text _, _, e, he | .list _, _, e, he | .tuple _, _, e, he | .type _, _, e, he
  | .tag _, _, e, he | .schema _, _, e, he | .model _ _, _, e, he | .virtual _, _, e, he
  | .subDocument _, _, e, he => by
    unfold embeddedInValue at he
    obtain ⟨found, hfound, rfl⟩ := List.mem_map.mp he
    exact ⟨_, rfl, Option.mem_toList.mp hfound⟩
  termination_by structural v => v

theorem getSegments?_of_mem_embedded :
    ∀ fields : List (String × Value), HasDistinctKeys fields →
      FieldsEvery HasDistinctKeys (fun _ => True) fields → ∀ e ∈ embeddedInFields fields,
      ∃ w, Tree.getSegments? fields e.1 = some w ∧ embedded? w = some e.2
  | [], _, _, e, he => by simp [embeddedInFields] at he
  | (key, v) :: rest, hkeys, hfields, e, he => by
    obtain ⟨hnew, hrest⟩ := List.nodup_cons.mp hkeys
    rcases List.mem_append.mp he with he | he
    · obtain ⟨e, hmem, rfl⟩ := List.mem_map.mp he
      obtain ⟨w, hw, hembedded⟩ := valueAt?_of_mem_embedded v hfields.1 e hmem
      refine ⟨w, ?_, hembedded⟩
      rw [Prod.map_fst, Tree.getSegments?_eq_bind, List.lookup_cons_self]
      exact hw
    · -- it stands under another key, as the keys are distinct
      obtain ⟨k, hk, segments, hhead⟩ := exists_key_of_mem_embeddedInFields he
      obtain ⟨w, hw, hembedded⟩ := getSegments?_of_mem_embedded rest hrest hfields.2 e he
      have hb : (k == key) = false := by simpa using fun heq : k = key => hnew (heq ▸ hk)
      refine ⟨w, ?_, hembedded⟩
      rw [hhead, Tree.getSegments?_eq_bind] at hw ⊢
      rw [List.lookup_cons, hb]
      exact hw
  termination_by structural fields => fields
end

/-! ## Schemas that hold their children -/

/-- The collected schemas are embedded in the tree of the schema, apart from each other. -/
def Schema.HoldsChildren (s : Schema) : Prop :=
  ∃ embedded : List (List String × Schema × Bool × Bool),
    List.Forall₂ (IsCollected []) s.children embedded ∧
    embedded.Pairwise (fun e e' => Apart e.1 e'.1) ∧
    ∀ e ∈ embedded, ∃ v, Tree.getSegments? s.tree e.1 = some v ∧ embedded? v = some e.2

/-- Distinct keys stay distinct. -/
theorem HasDistinctKeys.put {fields : Fields} (h : HasDistinctKeys fields) (key : String)
    (v : Value) : HasDistinctKeys (Entries.put fields key v) :=
  Entries.nodup_keys_put h key v

theorem admitsImplicit_hasDistinctKeys : AdmitsImplicit HasDistinctKeys (fun _ => True) where
  put h key _ v := h.put key v
  nil := List.nodup_nil
  objectId := by simp [HasDistinctKeys, Entries.keys]
  date := by simp [HasDistinctKeys, Entries.keys]
  tag _ := trivial
  isAutomatic := trivial
  virtual := trivial

theorem keptByNormalizing_hasDistinctKeys : KeptByNormalizing HasDistinctKeys (fun _ => True) where
  fields h := by
    unfold HasDistinctKeys
    rw [keys_normalizeFields]
    exact h
  spec h _ := by
    unfold HasDistinctKeys
    rw [keys_normalizeSpec]
    exact h
  tag _ := trivial
  schema _ := trivial

/-- A schema that is built holds its children. -/
theorem Schema.holdsChildren_ofTree {tree : Fields}
    (h : Tree.Every HasDistinctKeys (fun _ => True) tree) (options : Fields) :
    (Schema.ofTree tree options).HoldsChildren := by
  obtain ⟨hkeys, hfields⟩ := admitsImplicit_hasDistinctKeys.every_tree_ofTree h options
  exact ⟨_, childrenOfFields_isCollected "" [] (by simp) _,
    pairwise_embeddedInFields _ hkeys hfields, getSegments?_of_mem_embedded _ hkeys hfields⟩

/-- Keys without dots are their own segments. -/
theorem flatMap_pathSegments {keys : List String} (h : ∀ key ∈ keys, '.' ∉ key.toList) :
    keys.flatMap pathSegments = keys := by
  induction keys with
  | nil => rfl
  | cons key keys ih =>
    rw [List.flatMap_cons, pathSegments_of_not_mem (h key List.mem_cons_self),
      ih fun other hother => h other (List.mem_cons_of_mem _ hother)]
    rfl

/-- Keys whose segments are apart from others that hold no dots are apart from them. -/
theorem apart_of_flatMap {keys segments : List String}
    (h : Apart (keys.flatMap pathSegments) segments)
    (hdots : ∀ segment ∈ segments, '.' ∉ segment.toList) : Apart keys segments := by
  constructor
  · -- keys that begin the segments hold no dots either
    intro hbegins
    rw [flatMap_pathSegments fun key hkey => hdots key (hbegins.subset hkey)] at h
    exact h.1 hbegins
  · rintro ⟨more, rfl⟩
    rw [List.flatMap_append, flatMap_pathSegments hdots] at h
    exact h.2 (List.prefix_append ..)

/-- A virtual that is declared apart from the children leaves them where they are. -/
theorem Schema.HoldsChildren.declareVirtual {s : Schema} (h : s.HoldsChildren) {name : String}
    (hname : ∀ c ∈ s.children, Apart (pathSegments name) (pathSegments c.path))
    (getters setters : List Callable) (declared : Option String) :
    (s.declareVirtual name getters setters declared).HoldsChildren := by
  obtain ⟨hchildren, -, -, htree⟩ := s.declareVirtual_eq name getters setters declared
  obtain ⟨embedded, hcollected, hapart, hthere⟩ := h
  refine ⟨embedded, hchildren ▸ hcollected, hapart, fun e he => ?_⟩
  obtain htree | ⟨v, htree⟩ := htree
  · rw [htree]
    exact hthere e he
  · obtain ⟨c, hc, hsegments, -⟩ := exists_of_mem_right hcollected he
    have hkeys : Apart e.1 (pathSegments name) := by
      refine apart_of_flatMap ?_ fun segment => not_mem_of_mem_pathSegments
      rw [← List.nil_append (e.1.flatMap _), ← hsegments]
      exact (hname c hc).symm
    rw [htree, Tree.setPath, Tree.getSegments?_setSegments _ hkeys]
    exact hthere e he

/-- A schema holds its children as long as its virtuals are declared apart from them. -/
theorem Schema.GrownFrom.holdsChildren {definition : Value} {s : Schema}
    (h : s.GrownFrom definition) (hdefinition : definition.Every HasDistinctKeys (fun _ => True))
    (hvirtuals : ∀ name ∈ Entries.keys s.virtuals, ∀ c ∈ s.children,
      Apart (pathSegments name) (pathSegments c.path)) : s.HoldsChildren := by
  induction h with
  | build hbuild =>
    obtain ⟨tree, options, htree, rfl⟩ := Schema.every_of_build keptByNormalizing_hasDistinctKeys
      admitsImplicit_hasDistinctKeys hdefinition hbuild
    exact Schema.holdsChildren_ofTree htree options
  | register _ hregister ih =>
    -- a function changes neither the tree nor the embedded schemas
    obtain ⟨htree, hchildren, hsame, -⟩ := Schema.register_eq hregister
    rw [hchildren, hsame] at hvirtuals
    unfold Schema.HoldsChildren
    rw [htree, hchildren]
    exact ih hvirtuals
  | @declareVirtual s name getters setters declared _ ih =>
    obtain ⟨hchildren, -, ⟨v, hput⟩, -⟩ := s.declareVirtual_eq name getters setters declared
    -- the virtual counts among those that are declared apart from the embedded schemas
    have hmem : ∀ other, other = name ∨ other ∈ Entries.keys s.virtuals →
        other ∈ Entries.keys (s.declareVirtual name getters setters declared).virtuals := by
      intro other hother
      rw [hput, Entries.keys_put]
      split
      · next hold => exact hother.elim (fun heq => heq ▸ hold) id
      · exact List.mem_append.mpr (hother.symm.imp_right fun heq => by simp [heq])
    rw [hchildren] at hvirtuals
    exact (ih fun other hother => hvirtuals other (hmem other (.inr hother))).declareVirtual
      (hvirtuals name (hmem name (.inl rfl))) getters setters declared

/-- Keys that lead somewhere in a plain tree hold no dots. -/
theorem Tree.IsPlain.not_mem_of_getSegments? {tree : Fields} (h : Tree.IsPlain tree)
    {keys : List String} (hthere : (Tree.getSegments? tree keys).isSome = true) :
    ∀ key ∈ keys, '.' ∉ key.toList := by
  induction keys generalizing tree with
  | nil => simp
  | cons part rest ih =>
    have hpart := h.1.2 part (Tree.mem_keys_of_getSegments? hthere)
    by_cases hrest : rest = []
    · simpa [hrest] using hpart
    · rw [Tree.getSegments?_cons _ _ hrest] at hthere
      have hbelow := h.below ⟨List.nodup_nil, nofun⟩ part
      exact List.forall_mem_cons.mpr ⟨hpart, ih hbelow hthere⟩

/-- Collected schemas whose keys hold no dots stand at their paths. -/
theorem eq_map_of_isCollected {children : List ChildSchema}
    {embedded : List (List String × Schema × Bool × Bool)}
    (h : List.Forall₂ (IsCollected []) children embedded)
    (hkeys : ∀ e ∈ embedded, e.1.flatMap pathSegments = e.1) :
    embedded = children.map fun c => (pathSegments c.path, c.schema, c.isArray, c.isMap) := by
  induction h with
  | nil => rfl
  | @cons c e children embedded hhead _ ih =>
    have hpath : pathSegments c.path = e.1 := hhead.1.trans (hkeys e List.mem_cons_self)
    rw [List.map_cons, hpath, ← hhead.2, ih fun e he => hkeys e (List.mem_cons_of_mem _ he)]

/-- In a plain tree the children stand at their paths. -/
theorem Schema.HoldsChildren.of_isPlain {s : Schema} (h : s.HoldsChildren)
    (hplain : Tree.IsPlain s.tree) :
    s.children.Pairwise (fun c c' => Apart (pathSegments c.path) (pathSegments c'.path)) ∧
      ∀ c ∈ s.children, ∃ v, Tree.getPath? s.tree c.path = some v ∧
        embedded? v = some (c.schema, c.isArray, c.isMap) := by
  obtain ⟨embedded, hcollected, hapart, hthere⟩ := h
  have hkeys : ∀ e ∈ embedded, e.1.flatMap pathSegments = e.1 := by
    intro e he
    obtain ⟨v, hv, -⟩ := hthere e he
    have hdots := hplain.not_mem_of_getSegments? (Option.isSome_iff_exists.mpr ⟨v, hv⟩)
    rw [List.flatMap_congr fun k hk => pathSegments_of_not_mem (hdots k hk), List.flatMap_singleton']
  obtain rfl := eq_map_of_isCollected hcollected hkeys
  have hpaths := List.pairwise_map.mp hapart
  exact ⟨hpaths, fun c hc => hthere _ (List.mem_map_of_mem hc)⟩

/-- A map embeds the schema of its values. -/
theorem exists_of_embedded?_map {v : Value} {s : Schema} {isArray : Bool}
    (h : embedded? v = some (s, isArray, true)) :
    ∃ fields, v = .dict fields ∧ fields.lookup "type" = some (.tag .map) ∧
      fields.lookup "of" = some (.schema s) ∧ isArray = false := by
  cases embeds_of_embedded? h with
  | mapValues htype hof => exact ⟨_, rfl, htype, hof, rfl⟩

/-- Where an embedded schema is bound there is something to replace. -/
theorem isSome_getPath?_place {tree : Fields} {c : ChildSchema} {v : Value}
    (hv : Tree.getPath? tree c.path = some v)
    (hembedded : embedded? v = some (c.schema, c.isArray, c.isMap)) :
    (Tree.getPath? tree c.place).isSome = true := by
  rw [Tree.getPath?] at hv ⊢
  rw [c.pathSegments_place]
  split
  · next hmap =>
    rw [hmap] at hembedded
    obtain ⟨fields, rfl, -, hof, -⟩ := exists_of_embedded?_map hembedded
    rw [Tree.getSegments?_append tree (pathSegments_ne_nil _), hv]
    simp [Tree.valueAt?, Tree.getSegments?, hof]
  · rw [hv]
    rfl

/-- Without embedded schemas the tree is not flattened, which changes nothing. -/
theorem Schema.boundTree_eq_of_unflatten {s : Schema} {owner : String} (howner : owner ≠ "")
    (h : Tree.unflatten (s.children.foldl (ChildSchema.bind owner) (Tree.flatten s.tree "")) =
      Tree.substitute (s.children.map (ChildSchema.replacement owner s.tree)) s.tree) :
    s.boundTree owner =
      Tree.substitute (s.children.map (ChildSchema.replacement owner s.tree)) s.tree := by
  unfold Schema.boundTree
  split
  · next hnone =>
    have hempty : s.children = [] := by simpa [howner] using hnone
    rw [hempty]
    exact (Tree.substituteFields_nil [] s.tree).symm
  · exact h

/-- The tree of a schema in which the embedded schemas are bound is the tree of the schema with the
sub-document of each put in its place, and nothing else changed, the order of the keys included. The
embedded schemas stand in the tree at their paths, of which none begins another. -/
theorem Schema.bound_eq_substitute {definition : Value} {s : Schema}
    (hdefinition : definition.Every HasDistinctKeys (fun _ => True))
    (hgrown : s.GrownFrom definition) (hplain : Tree.IsPlain s.tree)
    (hvirtuals : ∀ name ∈ Entries.keys s.virtuals, ∀ c ∈ s.children,
      Apart (pathSegments name) (pathSegments c.path)) :
    s.children.Pairwise (fun c c' => Apart (pathSegments c.path) (pathSegments c'.path)) ∧
      (∀ c ∈ s.children, ∃ v, Tree.getPath? s.tree c.path = some v ∧
        embedded? v = some (c.schema, c.isArray, c.isMap)) ∧
      ∀ owner,
        Tree.unflatten (s.children.foldl (ChildSchema.bind owner) (Tree.flatten s.tree "")) =
            Tree.substitute (s.children.map (ChildSchema.replacement owner s.tree)) s.tree ∧
          (owner ≠ "" → s.boundTree owner =
            Tree.substitute (s.children.map (ChildSchema.replacement owner s.tree)) s.tree) := by
  obtain ⟨hapart, hthere⟩ := (hgrown.holdsChildren hdefinition hvirtuals).of_isPlain hplain
  have hbound := fun owner => unflatten_foldl_bind hplain owner hapart fun c hc => by
    obtain ⟨v, hv, hembedded⟩ := hthere c hc
    exact isSome_getPath?_place hv hembedded
  exact ⟨hapart, hthere, fun owner =>
    ⟨hbound owner, fun howner => Schema.boundTree_eq_of_unflatten howner (hbound owner)⟩⟩

/-- A shelf with an array of books whose default is nothing, and an object with a map of books. -/
def shelfFields : Fields :=
  [("b", .dict [("type", .list [.schema default]), ("default", .null)]), ("bc", .text "String"),
    ("n", .dict [("m", .dict [("type", .tag .map), ("of", .schema default)]), ("e", .dict [])])]

/-- The schema of a shelf without implicit fields, with a virtual beside the map. -/
def shelfSchema : Schema :=
  (Schema.ofTree (normalizeFields shelfFields)
    [("_id", .bool false), ("version_key", .bool false)]).declareVirtual "n.full" [] [] none

theorem shelfSchema_tree : shelfSchema.tree =
    [("b", .dict [("type", .list [.schema default]), ("default", .null)]), ("bc", .tag .string),
      ("n", .dict [("m", .dict [("type", .tag .map), ("of", .schema default)]), ("e", .dict []),
        ("full", .virtual (.empty "n.full"))])] :=
  rfl

theorem shelfSchema_children :
    shelfSchema.children = [⟨"b", default, true, false⟩, ⟨"n.m", default, false, true⟩] :=
  rfl

/-- On a shelf the array and the values of the map are bound, and everything else stays. -/
theorem bound_eq_substitute_shelf :
    shelfSchema.boundTree "Shelf" =
      [("b", .list [.subDocument ⟨"ShelfB", [], true, true, false⟩]), ("bc", .tag .string),
        ("n", .dict [("m", .dict [("type", .tag .map),
            ("of", .subDocument ⟨"ShelfNM", [], false, false, false⟩)]),
          ("e", .dict []), ("full", .virtual (.empty "n.full"))])] := by
  have hdefinition : (Value.dict shelfFields).Every HasDistinctKeys (fun _ => True) := by
    simp [shelfFields, Value.Every, FieldsEvery, ItemsEvery, HasDistinctKeys, Entries.keys]
  have hgrown : shelfSchema.GrownFrom (.dict shelfFields) :=
    .declareVirtual "n.full" [] [] none
      (.build (show Schema.build (.dict shelfFields) .null
        [("_id", .bool false), ("version_key", .bool false)] = .ok _ from rfl))
  have hplain : Tree.IsPlain shelfSchema.tree := by
    rw [shelfSchema_tree]
    simp [Tree.Every, Value.Every, FieldsEvery, ItemsEvery, HasPlainKeys, Entries.keys]
  have hvirtuals : ∀ name ∈ Entries.keys shelfSchema.virtuals, ∀ c ∈ shelfSchema.children,
      Apart (pathSegments name) (pathSegments c.path) := by
    have hnames : Entries.keys shelfSchema.virtuals = ["n.full"] := rfl
    rw [hnames, shelfSchema_children]
    simp [Apart]
    decide +kernel
  have hbound := (Schema.bound_eq_substitute hdefinition hgrown hplain hvirtuals).2.2 "Shelf"
  rw [hbound.2 (by decide), shelfSchema_tree, shelfSchema_children]
  rfl

end SchemaTypings
