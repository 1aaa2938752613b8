import SchemaTypings.Proofs.Schemas.Embedding

/-!
# Schemas of plain definitions

The keys of a definition that hold no dots are found again in the tree of its schema, whatever is
registered and declared on it (`Schema.HasPlainDefinition.isPlain`). A key that has a native type
keeps it, and nothing is embedded under it (`Schema.HasPlainDefinition.not_embedded`): what is
declared later sets virtuals only, and those are no types.
-/

namespace SchemaTypings

/-! ## Plain trees -/

theorem admitsImplicit_hasPlainKeys : AdmitsImplicit HasPlainKeys (fun _ => True) where
  put h key hkey v := by
    have hplain : ∀ key ∈ implicitKeys, '.' ∉ key.toList := by decide
    exact h.put (hplain key hkey) v
  nil := HasPlainKeys.nil
  objectId := by simp [HasPlainKeys, Entries.keys]
  date := by simp [HasPlainKeys, Entries.keys]
  tag _ := trivial
  isAutomatic := trivial
  virtual := trivial

theorem keptByNormalizing_hasPlainKeys : KeptByNormalizing HasPlainKeys (fun _ => True) where
  fields h := h.congr (keys_normalizeFields _)
  spec h _ := h.congr (keys_normalizeSpec _)
  tag _ := trivial
  schema _ := trivial

/-- A schema that is made of a definition whose keys hold no dots. -/
def Schema.HasPlainDefinition (s : Schema) : Prop :=
  ∃ definition, s.GrownFrom definition ∧ definition.Every HasPlainKeys (fun _ => True)

/-- Declaring a virtual sets segments of its name, which hold no dots. -/
theorem Tree.IsPlain.setPath {tree : Fields} (h : Tree.IsPlain tree) (path : String) (v : Virtual) :
    Tree.IsPlain (Tree.setPath tree path (.virtual v)) :=
  Tree.Every.setSegments h HasPlainKeys.nil
    (fun _ hkey _ _ _ hfields => hfields.put (not_mem_of_mem_pathSegments hkey) _)
    (v := .virtual v) trivial

theorem Schema.GrownFrom.isPlain {definition : Value} {s : Schema} (h : s.GrownFrom definition)
    (hdefinition : definition.Every HasPlainKeys (fun _ => True)) : Tree.IsPlain s.tree := by
  induction h with
  | build hbuild =>
    obtain ⟨tree, options, htree, rfl⟩ := Schema.every_of_build keptByNormalizing_hasPlainKeys
      admitsImplicit_hasPlainKeys hdefinition hbuild
    exact admitsImplicit_hasPlainKeys.every_tree_ofTree htree options
  | register _ hregister ih =>
    rw [(Schema.register_eq hregister).1]
    exact ih
  | @declareVirtual s name getters setters declared _ ih =>
    obtain ⟨-, -, -, htree⟩ := s.declareVirtual_eq name getters setters declared
    rcases htree with htree | ⟨v, htree⟩
    · rw [htree]
      exact ih
    · rw [htree]
      exact ih.setPath name v

/-- A sub-document is put under the key that the path of its schema begins with. -/
theorem ChildSchema.head?_place (c : ChildSchema) :
    (pathSegments c.place).head? = (pathSegments c.path).head? := by
  obtain ⟨more, hplace⟩ := c.segments_place
  rw [hplace, List.head?_append_of_ne_nil _ (pathSegments_ne_nil _)]

/-! ## Native fields -/

/-- What a field says of its type: a tag says it alone. -/
def specOf : Option Value → Fields
  | some (.tag t) => [("type", .tag t)]
  | some (.dict fields) => fields
  | _ => []

/-- The field has a native type, and is no map but one of anything. -/
structure IsNative (v : Option Value) (t : Tag) : Prop where
  type : (specOf v).lookup "type" = some (.tag t)
  values : t = .map → ((specOf v).lookup "of").getD (.tag .mixed) = .tag .mixed

/-- Nothing is embedded in a native field. -/
theorem IsNative.embeddedInValue {v : Value} {t : Tag} (h : IsNative (some v) t) :
    embeddedInValue v = [] := by
  obtain ⟨htype, hvalues⟩ := h
  cases v with
  | tag other =>
    have hnone : embedded? (.tag other) = none := by cases other <;> rfl
    simp [SchemaTypings.embeddedInValue, hnone]
  | dict fields =>
    have hspec : isFieldSpec fields = true := by
      unfold isFieldSpec
      have hlookup : fields.lookup "type" = some (.tag t) := htype
      simp [hlookup, Value.isFilledDict]
    have hlookup : fields.lookup "type" = some (.tag t) := htype
    have hnone : embedded? (.dict fields) = none := by
      cases hembedded : embedded? (.dict fields) with
      | none => rfl
      | some e =>
        obtain ⟨s, isArray, isMap⟩ := e
        cases embeds_of_embedded? hembedded with
        | typed htype' => cases hlookup.symm.trans htype'
        | typedItems htype' => cases hlookup.symm.trans htype'
        | mapValues htype' hof =>
          -- the values of a native map are anything
          cases hlookup.symm.trans htype'
          have hmixed := hvalues rfl
          unfold specOf at hmixed
          rw [hof] at hmixed
          contradiction
    simp [SchemaTypings.embeddedInValue, hnone, hspec]
  | _ => cases htype

/-- Where a virtual is set nothing changes but the entry of one key, and that is no tag then. -/
theorem lookup_setSegments_virtual (tree : Fields) (segments : List String) (v : Virtual)
    (key : String) :
    (Tree.setSegments tree segments (.virtual v)).lookup key = tree.lookup key ∨
      ∃ w, (Tree.setSegments tree segments (.virtual v)).lookup key = some w ∧
        ∀ t, w ≠ .tag t := by
  cases segments with
  | nil => exact .inl rfl
  | cons part rest =>
    by_cases hkey : part = key
    · subst hkey
      refine .inr ?_
      cases rest with
      | nil => exact ⟨_, Entries.lookup_put_self _ _ _, fun _ => Value.noConfusion⟩
      | cons next more => exact ⟨_, Entries.lookup_put_self _ _ _, fun _ => Value.noConfusion⟩
    · obtain ⟨w, hput, -⟩ := Tree.setSegments_eq_put tree part rest (.virtual v)
      rw [hput, Entries.lookup_put_of_ne _ _ (Ne.symm hkey)]
      exact .inl rfl

/-- A field that is native after a virtual was declared was the same native field before. -/
theorem IsNative.of_setPath {tree : Fields} {path key : String} {v : Virtual} {t : Tag}
    (h : IsNative ((Tree.setPath tree path (.virtual v)).lookup key) t) :
    IsNative (tree.lookup key) t := by
  obtain ⟨part, rest, hsegments⟩ := List.exists_cons_of_ne_nil (pathSegments_ne_nil path)
  rw [Tree.setPath, hsegments] at h
  by_cases hkey : part = key
  · subst hkey
    by_cases hrest : rest = []
    · -- a virtual in the place of the field is no native
      subst hrest
      have hvirtual : (Tree.setSegments tree [part] (.virtual v)).lookup part = some (.virtual v) :=
        Entries.lookup_put_self _ _ _
      rw [hvirtual] at h
      cases h.type
    · -- the virtual is set in the specification, and neither for its type nor for its values
      rw [Tree.setSegments_cons _ _ hrest, Entries.lookup_put_self] at h
      obtain ⟨htype, hvalues⟩ := h
      have hfields : IsNative (some (.dict (Tree.below tree part))) t := by
        constructor
        · rcases lookup_setSegments_virtual (Tree.below tree part) rest v "type" with heq | ⟨w, hw, hne⟩
          · exact heq.symm.trans htype
          · exact absurd (Option.some.inj (hw.symm.trans htype)) (hne t)
        · intro hmap
          have hof : ((Tree.setSegments (Tree.below tree part) rest (.virtual v)).lookup "of").getD
              (.tag .mixed) = .tag .mixed := hvalues hmap
          rcases lookup_setSegments_virtual (Tree.below tree part) rest v "of" with heq | ⟨w, hw, hne⟩
          · rwa [heq] at hof
          · rw [hw] at hof
            exact absurd hof (hne .mixed)
      unfold Tree.below at hfields
      split at hfields
      · next heq => rwa [heq]
      · cases hfields.type
  · -- another key holds what it held
    obtain ⟨w, hput, -⟩ := Tree.setSegments_eq_put tree part rest (.virtual v)
    rwa [hput, Entries.lookup_put_of_ne _ _ (Ne.symm hkey)] at h

/-- Nothing is embedded under the key of a native field. -/
theorem Schema.GrownFrom.not_embedded {definition : Value} {s : Schema}
    (h : s.GrownFrom definition) (hdefinition : definition.Every HasPlainKeys (fun _ => True))
    {key : String} {t : Tag} (hnative : IsNative (s.tree.lookup key) t) :
    ∀ c ∈ s.children, (pathSegments c.path).head? ≠ some key := by
  induction h with
  | build hbuild =>
    obtain ⟨tree, options, htree, rfl⟩ := Schema.every_of_build keptByNormalizing_hasPlainKeys
      admitsImplicit_hasPlainKeys hdefinition hbuild
    obtain ⟨⟨hnodup, hdots⟩, -⟩ := admitsImplicit_hasPlainKeys.every_tree_ofTree htree options
    intro c hc hhead
    obtain ⟨e, he, hsegments, -⟩ :=
      exists_of_mem_left (childrenOfFields_isCollected "" [] (by simp) _) hc
    obtain ⟨k, v, hv, inner, hinner, rfl⟩ := mem_embeddedInFields.mp he
    -- the path of what is embedded in a field begins with the key of that field
    have hk : pathSegments k = [k] :=
      pathSegments_of_not_mem (hdots k (List.mem_map_of_mem hv))
    rw [hsegments, List.nil_append, List.flatMap_cons, hk] at hhead
    obtain rfl : k = key := Option.some.inj hhead
    rw [Entries.lookup_of_mem hnodup hv] at hnative
    rw [hnative.embeddedInValue] at hinner
    exact absurd hinner List.not_mem_nil
  | register _ hregister ih =>
    obtain ⟨htree, hchildren, -⟩ := Schema.register_eq hregister
    rw [htree] at hnative
    rw [hchildren]
    exact ih hnative
  | @declareVirtual s name getters setters declared _ ih =>
    obtain ⟨hchildren, -, -, htree⟩ := s.declareVirtual_eq name getters setters declared
    rw [hchildren]
    rcases htree with htree | ⟨v, htree⟩
    · rw [htree] at hnative
      exact ih hnative
    · rw [htree] at hnative
      exact ih hnative.of_setPath

/-- A native field is the same in the tree in which the embedded schemas are bound. -/
theorem Schema.HasPlainDefinition.lookup_boundTree {s : Schema} (h : s.HasPlainDefinition)
    (owner : String) {key : String} {t : Tag} (hnative : IsNative (s.tree.lookup key) t) :
    (s.boundTree owner).lookup key = s.tree.lookup key ∧
      (Entries.keys (s.boundTree owner)).Nodup := by
  obtain ⟨definition, hgrown, hdefinition⟩ := h
  have hplain := hgrown.isPlain hdefinition
  have happart := hgrown.not_embedded hdefinition hnative
  refine s.boundTree_induction
    (M := fun tree => tree.lookup key = s.tree.lookup key ∧ (Entries.keys tree).Nodup) owner hplain
    ⟨rfl, hplain.1.1⟩ fun tree c d hc _ htree => ?_
  obtain ⟨part, rest, hsegments⟩ := List.exists_cons_of_ne_nil (pathSegments_ne_nil c.place)
  obtain ⟨w, hput, -⟩ := Tree.setSegments_eq_put tree part rest (c.bound d)
  have hne : key ≠ part := by
    rintro rfl
    refine happart c hc ?_
    rw [← ChildSchema.head?_place, hsegments, List.head?_cons]
  rw [Tree.setPath, hsegments, hput, Entries.lookup_put_of_ne _ _ hne]
  exact ⟨htree.1, Entries.nodup_keys_put htree.2 _ _⟩

end SchemaTypings
