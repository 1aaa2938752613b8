import SchemaTypings.Proofs.Schemas.Occurrence

/-!
# Normal forms

A definition that is in normal form stays as it is (`normalizeFields_idem`), and so does the tree of
a schema (`Schema.normalizeFields_tree_of_build`): it may be used as a definition again. In a normal
form no type is spelled but by its tag, and normalizing turns no nested object into a field
specification or the other way round (`normalizeFields_normal`).
-/

namespace SchemaTypings

/-! ## Steps into a value -/

namespace Value

/-- One step into a value: to what stands under a key, or to an item. -/
inductive Step
  | key (name : String)
  | item (index : Nat)
  deriving DecidableEq, Repr

/-- What a step into a value leads to. The fields of a schema are those of its tree. -/
def child? : Value → Step → Option Value
  | .dict fields, .key name => fields.lookup name
  | .schema s, .key name => s.tree.lookup name
  | .list items, .item i | .tuple items, .item i => items[i]?
  | _, _ => none

/-- The type that a step into a value leads to: the type of a specification or that of its map's
values, a field of a nested object or of a schema, or an item of a list. A tuple is no array. -/
def typeChild? : Value → Step → Option Value
  | .dict fields, .key name =>
    if SchemaTypings.isFieldSpec fields = true → name = "type" ∨ name = "of" then
      fields.lookup name
    else none
  | .schema s, .key name => s.tree.lookup name
  | .list items, .item i => items[i]?
  | _, _ => none

/-- What some steps lead to, when `next` says what each of them leads to. -/
def follow (next : Value → Step → Option Value) : Value → List Step → Option Value
  | v, [] => some v
  | v, step :: rest => (next v step).bind (follow next · rest)

/-- What some steps into a value lead to. -/
def at? : Value → List Step → Option Value :=
  follow child?

/-- The type that some steps into a value lead to, from type to type. -/
def typeAt? : Value → List Step → Option Value :=
  follow typeChild?

/-- No native type is spelled but by its tag. -/
def IsNormal (v : Value) : Prop :=
  ∀ path w t, v.typeAt? path = some w → w.tag? = some t → w = .tag t

end Value

/-- No native type in a tree is spelled but by its tag. -/
def Tree.IsNormal (tree : Fields) : Prop :=
  ∀ key v, tree.lookup key = some v → v.IsNormal

namespace Value

theorem child?_dict (fields : Fields) (name : String) :
    (Value.dict fields).child? (.key name) = fields.lookup name :=
  rfl

theorem at?_cons (v : Value) (step : Step) (rest : List Step) :
    v.at? (step :: rest) = (v.child? step).bind (·.at? rest) :=
  rfl

theorem typeAt?_cons (v : Value) (step : Step) (rest : List Step) :
    v.typeAt? (step :: rest) = (v.typeChild? step).bind (·.typeAt? rest) :=
  rfl

/-- A value is in normal form when it is no other spelling of a tag and its types are. -/
theorem isNormal_of_children {v : Value} (hself : ∀ t, v.tag? = some t → v = .tag t)
    (hchildren : ∀ step w, v.typeChild? step = some w → w.IsNormal) : v.IsNormal := by
  intro path w t hw ht
  cases path with
  | nil =>
    obtain rfl := Option.some.inj hw
    exact hself t ht
  | cons step rest =>
    rw [typeAt?_cons, Option.bind_eq_some_iff] at hw
    obtain ⟨u, hu, hw⟩ := hw
    exact hchildren step u hu rest w t hw ht

theorem isNormal_tag (t : Tag) : (Value.tag t).IsNormal :=
  isNormal_of_children (fun _ h => congrArg _ (Option.some.inj h)) fun _ _ h => by
    simp [Value.typeChild?] at h

theorem isNormal_virtual (v : Virtual) : (Value.virtual v).IsNormal :=
  isNormal_of_children (by simp [tag?]) (by simp [Value.typeChild?])

/-- A specification is in normal form when its type is, and that of its map's values if it has any.
-/
theorem isNormal_spec {fields : Fields} (hspec : SchemaTypings.isFieldSpec fields = true)
    (htype : ∀ v, fields.lookup "type" = some v → v.IsNormal)
    (hof : ∀ v, fields.lookup "of" = some v → v.IsNormal) : (Value.dict fields).IsNormal := by
  refine isNormal_of_children (by simp [tag?]) fun step w hw => ?_
  cases step with
  | item i => simp [Value.typeChild?] at hw
  | key name =>
    simp only [Value.typeChild?, Option.ite_none_right_eq_some] at hw
    obtain rfl | rfl := hw.1 hspec
    · exact htype w hw.2
    · exact hof w hw.2

/-- A schema is in normal form when its tree is. -/
theorem isNormal_schema {s : Schema} (h : Tree.IsNormal s.tree) : (Value.schema s).IsNormal := by
  refine isNormal_of_children (by simp [tag?]) fun step w hw => ?_
  cases step with
  | key name => exact h name w hw
  | item i => simp [Value.typeChild?] at hw

end Value

/-! ## Specifications and nested objects -/

theorem lookup_normalizeFields_of_lookup {fields : Fields} {key : String} {v : Value}
    (h : fields.lookup key = some v) :
    (normalizeFields fields).lookup key = some (normalize v false) := by
  rw [lookup_normalizeFields, h, Option.map_some]

/-- What a field holds in a normal form is the normal form of what it held. -/
theorem exists_of_lookup_normalizeFields {fields : Fields} {key : String} {w : Value}
    (h : (normalizeFields fields).lookup key = some w) :
    ∃ v, fields.lookup key = some v ∧ w = normalize v false := by
  rw [lookup_normalizeFields, Option.map_eq_some_iff] at h
  obtain ⟨v, hv, rfl⟩ := h
  exact ⟨v, hv, rfl⟩

theorem isFieldSpec_normalizeSpec (fields : Fields) :
    isFieldSpec (normalizeSpec fields) = isFieldSpec fields := by
  unfold isFieldSpec
  rw [lookup_normalizeSpec]
  cases fields.lookup "type" with
  | none => rfl
  | some v => exact congrArg (!·) (isFilledDict_normalize v)

theorem isEmpty_normalizeFields (fields : Fields) :
    (normalizeFields fields).isEmpty = fields.isEmpty := by
  cases fields <;> rfl

theorem normalize_dict (fields : Fields) (isOnlyItem : Bool) :
    normalize (.dict fields) isOnlyItem =
      if isFieldSpec fields then .dict (normalizeSpec fields)
      else if isOnlyItem && !fields.isEmpty then
        .schema (Schema.ofTree (normalizeFields fields) implicitOptions)
      else .dict (normalizeFields fields) := by
  rw [normalize]

/-- A dictionary that stays one is a specification then if it was one before. -/
theorem isFieldSpec_of_normalize_dict {fields fields' : Fields} {isOnlyItem : Bool}
    (h : normalize (.dict fields) isOnlyItem = .dict fields') :
    isFieldSpec fields' = isFieldSpec fields := by
  rw [normalize_dict] at h
  split at h
  · rw [← Value.dict.inj h, isFieldSpec_normalizeSpec]
  · split at h
    · cases h
    · rw [← Value.dict.inj h, isFieldSpec_normalizeFields]

/-! ## Normalizing twice -/

theorem length_normalizeItems (items : List Value) (isOnlyItem : Bool) :
    (normalizeItems items isOnlyItem).length = items.length := by
  induction items with
  | nil => rfl
  | cons v rest ih => exact congrArg (· + 1) ih

mutual
/-- A value in normal form stays as it is. -/
theorem normalize_idem :
    ∀ (v : Value) (isOnlyItem : Bool),
      normalize (normalize v isOnlyItem) isOnlyItem = normalize v isOnlyItem
  | .dict fields, isOnlyItem => by
    rw [normalize_dict fields]
    split
    · next hspec =>
      rw [normalize_dict, isFieldSpec_normalizeSpec, if_pos hspec, normalizeSpec_idem fields]
    · next hspec =>
      split
      · rfl
      · next hitem =>
        rw [normalize_dict, isFieldSpec_normalizeFields, if_neg hspec, isEmpty_normalizeFields,
          if_neg hitem, normalizeFields_idem fields]
  | .list items, _ => by
    simp only [normalize, length_normalizeItems, normalizeItems_idem items]
  | .type t, _ => by
    cases h : Tag.ofType? t <;> simp [normalize, h]
  | .text s, _ => by
    cases h : Tag.ofName? s <;> simp [normalize, h]
  | .null, _ | .bool _, _ | .int _, _ | .real _, _ | .tuple _, _ | .tag _, _ | .schema _, _
  | .model _ _, _ | .virtual _, _ | .subDocument _, _ => rfl
  termination_by structural v => v

theorem normalizeItems_idem :
    ∀ (items : List Value) (isOnlyItem : Bool),
      normalizeItems (normalizeItems items isOnlyItem) isOnlyItem = normalizeItems items isOnlyItem
  | [], _ => rfl
  | v :: rest, isOnlyItem => by
    rw [normalizeItems, normalizeItems, normalize_idem v, normalizeItems_idem rest]
  termination_by structural items => items

theorem normalizeFields_idem :
    ∀ fields : List (String × Value),
      normalizeFields (normalizeFields fields) = normalizeFields fields
  | [] => rfl
  | (key, v) :: rest => by
    rw [normalizeFields, normalizeFields, normalize_idem v, normalizeFields_idem rest]
  termination_by structural fields => fields

theorem normalizeSpec_idem :
    ∀ fields : List (String × Value), normalizeSpec (normalizeSpec fields) = normalizeSpec fields
  | [] => rfl
  | (key, v) :: rest => by
    have hv : (if key = "type" || key = "of" then
        normalize (if key = "type" || key = "of" then normalize v false else v) false
        else if key = "type" || key = "of" then normalize v false else v) =
          if key = "type" || key = "of" then normalize v false else v := by
      split
      · exact normalize_idem v false
      · rfl
    rw [normalizeSpec, normalizeSpec, hv, normalizeSpec_idem rest]
  termination_by structural fields => fields
end

/-! ## Types in a normal form -/

/-- A normal form is no other spelling of a tag. -/
theorem eq_tag_of_normalize {v : Value} {isOnlyItem : Bool} {t : Tag}
    (h : (normalize v isOnlyItem).tag? = some t) : normalize v isOnlyItem = .tag t := by
  cases v with
  | dict fields =>
    rw [normalize_dict] at h
    split at h
    · cases h
    · split at h <;> cases h
  | type u =>
    cases hu : Tag.ofType? u with
    | none => simp [normalize, hu, Value.tag?] at h
    | some tag => simpa [normalize, hu, Value.tag?] using h
  | text s =>
    cases hs : Tag.ofName? s with
    | none => simp [normalize, hs, Value.tag?] at h
    | some tag => simpa [normalize, hs, Value.tag?] using h
  | tag u => exact congrArg _ (Option.some.inj h)
  | _ => cases h

theorem getElem?_normalizeItems (items : List Value) (isOnlyItem : Bool) (i : Nat) :
    (normalizeItems items isOnlyItem)[i]? = items[i]?.map (normalize · isOnlyItem) := by
  induction items generalizing i with
  | nil => rfl
  | cons v rest ih =>
    cases i with
    | zero => rfl
    | succ i => exact ih i

/-- An implicit field is an identifier, a date, a number or the identifier's virtual. -/
theorem eq_of_mem_implicitFields {options : Fields} {e : String × Value}
    (h : e ∈ implicitFields options) :
    e.2 = .dict [("type", .tag .objectId), ("auto", .bool true)] ∨
      e.2 = .dict [("type", .tag .date)] ∨ e.2 = .tag .number ∨ e.2 = .virtual (.empty "id") := by
  simp only [implicitFields, storedFields, List.mem_append, List.mem_ite_nil_right, List.mem_cons,
    List.not_mem_nil, or_false] at h
  obtain ((⟨-, rfl⟩ | ⟨-, rfl | rfl⟩) | ⟨-, rfl⟩) | ⟨-, rfl⟩ := h <;> simp

/-- Implicit fields are in normal form. -/
theorem isNormal_of_mem_implicitFields {options : Fields} {e : String × Value}
    (h : e ∈ implicitFields options) : e.2.IsNormal := by
  have htagged : ∀ (t : Tag) (more : Fields), more.lookup "of" = none →
      (Value.dict (("type", .tag t) :: more)).IsNormal := by
    intro t more hof
    refine Value.isNormal_spec rfl (fun v hv => ?_) fun v hv => ?_
    · obtain rfl := Option.some.inj hv
      exact Value.isNormal_tag t
    · rw [List.lookup_cons, show ("of" == "type") = false by decide] at hv
      exact absurd (hof.symm.trans hv) (by simp)
  obtain he | he | he | he := eq_of_mem_implicitFields h
  · exact he ▸ htagged _ _ (by decide)
  · exact he ▸ htagged _ _ rfl
  · exact he ▸ Value.isNormal_tag _
  · exact he ▸ Value.isNormal_virtual _

/-- The tree of a schema holds nothing but the fields that the schema is made of and implicit ones.
-/
theorem Schema.mem_tree_ofTree_cases {tree options : Fields} {e : String × Value}
    (h : e ∈ (Schema.ofTree tree options).tree) : e ∈ tree ∨ e ∈ implicitFields options := by
  have hall : ∀ {e}, e ∈ tree ++ (implicitFields options).filter (·.1 ∉ Entries.keys tree) →
      e ∈ tree ∨ e ∈ implicitFields options := fun he =>
    (List.mem_append.mp he).imp_right List.mem_of_mem_filter
  rw [Schema.tree_ofTree] at h
  dsimp only at h
  split at h
  · next hid =>
    obtain rfl | h := Entries.eq_or_mem_of_mem_put h
    · exact .inr (by simp [implicitFields, hid.1])
    · exact hall h
  · exact hall h

/-- What a key holds in the tree of a schema it holds in the tree that the schema is made of, or it
is an implicit field. -/
theorem Schema.lookup_tree_ofTree_cases {tree options : Fields} {key : String} {v : Value}
    (h : (Schema.ofTree tree options).tree.lookup key = some v) :
    tree.lookup key = some v ∨ (key, v) ∈ implicitFields options := by
  by_cases hid : asksForIdVirtual options = true ∧ key = "id"
  · obtain ⟨hasks, rfl⟩ := hid
    rw [Schema.tree_ofTree_eq_put, if_pos hasks, Entries.lookup_put_self] at h
    obtain rfl := Option.some.inj h
    exact .inr (by simp [implicitFields, hasks])
  · refine (Schema.mem_tree_ofTree_cases (mem_of_lookup h)).imp_left fun hmem => ?_
    have hkey : key ∈ Entries.keys tree := List.mem_map_of_mem hmem
    rwa [Schema.lookup_tree_ofTree hkey fun hasks heq => hid ⟨hasks, heq⟩] at h

/-- A schema made of a tree in normal form is in normal form. -/
theorem Schema.isNormal_tree_ofTree {tree : Fields} (h : Tree.IsNormal tree) (options : Fields) :
    Tree.IsNormal (Schema.ofTree tree options).tree := by
  intro key v hv
  obtain hv | hv := Schema.lookup_tree_ofTree_cases hv
  · exact h key v hv
  · exact isNormal_of_mem_implicitFields hv

/-- A type in the normal form of a dictionary is the normal form of what stands in its place, or an
implicit field. -/
theorem typeChild?_normalize_dict {fields : Fields} {isOnlyItem : Bool} {name : String} {w : Value}
    (h : (normalize (.dict fields) isOnlyItem).typeChild? (.key name) = some w) :
    (∃ u isOnly, fields.lookup name = some u ∧ w = normalize u isOnly) ∨ w.IsNormal := by
  have hfield : ∀ w, (normalizeFields fields).lookup name = some w →
      ∃ u isOnly, fields.lookup name = some u ∧ w = normalize u isOnly := by
    intro w hw
    obtain ⟨u, hu, rfl⟩ := exists_of_lookup_normalizeFields hw
    exact ⟨u, false, hu, rfl⟩
  rw [normalize_dict] at h
  split at h
  · -- of a specification only the `type` is one
    next hspec =>
    simp only [Value.typeChild?, isFieldSpec_normalizeSpec, Option.ite_none_right_eq_some] at h
    obtain ⟨hname, hw⟩ := h
    rw [lookup_normalizeSpec, Option.map_eq_some_iff] at hw
    obtain ⟨u, hu, rfl⟩ := hw
    exact .inl ⟨u, false, hu, if_pos (by simpa using hname hspec)⟩
  · split at h
    · -- an implicit sub-document
      obtain hw | hw := Schema.lookup_tree_ofTree_cases h
      · exact .inl (hfield w hw)
      · exact .inr (isNormal_of_mem_implicitFields hw)
    · simp only [Value.typeChild?, Option.ite_none_right_eq_some] at h
      exact .inl (hfield w h.2)

/-- A type in a normal form is the normal form of what stands in its place, or an implicit field,
unless it is a type of a schema. -/
theorem typeChild?_normalize {v : Value} {isOnlyItem : Bool} {step : Value.Step} {w : Value}
    (h : (normalize v isOnlyItem).typeChild? step = some w) :
    (∃ u isOnly, v.child? step = some u ∧ w = normalize u isOnly) ∨ (∃ s, v = .schema s) ∨
      w.IsNormal := by
  cases v with
  | schema s => exact .inr (.inl ⟨s, rfl⟩)
  | dict fields =>
    cases step with
    | item i =>
      rw [normalize_dict] at h
      split at h
      · cases h
      · split at h <;> cases h
    | key name => exact (typeChild?_normalize_dict h).imp_right .inr
  | list items =>
    cases step with
    | key name => cases h
    | item i =>
      have hitem : (normalizeItems items (items.length == 1))[i]? = some w := h
      rw [getElem?_normalizeItems, Option.map_eq_some_iff] at hitem
      obtain ⟨u, hu, rfl⟩ := hitem
      exact .inl ⟨u, _, hu, rfl⟩
  | type t =>
    unfold normalize at h
    cases ht : Tag.ofType? t <;> simp [ht, Value.typeChild?] at h
  | text s =>
    unfold normalize at h
    cases hs : Tag.ofName? s <;> simp [hs, Value.typeChild?] at h
  | _ => simp [normalize, Value.typeChild?] at h

/-- A type in a normal form is no other spelling of a tag, if the schemas on the way to it are in
normal form. -/
theorem eq_tag_of_typeAt?_normalize {path : List Value.Step} {v w : Value} {isOnlyItem : Bool}
    {t : Tag} (hw : (normalize v isOnlyItem).typeAt? path = some w) (ht : w.tag? = some t)
    (hschemas : ∀ front s, front <+: path → front ≠ path → v.at? front = some (.schema s) →
      Tree.IsNormal s.tree) : w = .tag t := by
  induction path generalizing v isOnlyItem with
  | nil =>
    obtain rfl := Option.some.inj hw
    exact eq_tag_of_normalize ht
  | cons step rest ih =>
    have hall := hw
    rw [Value.typeAt?_cons, Option.bind_eq_some_iff] at hw
    obtain ⟨c, hc, hw⟩ := hw
    obtain ⟨u, isOnly, hu, rfl⟩ | ⟨s, rfl⟩ | hnormal := typeChild?_normalize hc
    · -- the step leads to the normal form of what stands there
      refine ih hw fun front s hfront hne hs => ?_
      refine hschemas (step :: front) s (List.cons_prefix_cons.mpr ⟨rfl, hfront⟩) (by simpa) ?_
      rw [Value.at?_cons, hu]
      exact hs
    · -- it leads into a schema
      have hs := hschemas [] s List.nil_prefix (by simp) rfl
      exact Value.isNormal_schema hs (step :: rest) w t hall ht
    · -- it leads to an implicit field
      exact hnormal rest w t hw ht

/-! ## Dictionaries in a normal form -/

/-- What a step leads to in a normal form is what it leads to in the value, or its normal form. -/
theorem child?_normalize {v u w : Value} {isOnlyItem : Bool} {step : Value.Step}
    (hu : v.child? step = some u) (hw : (normalize v isOnlyItem).child? step = some w) :
    w = u ∨ ∃ isOnly, w = normalize u isOnly := by
  cases v with
  | dict fields =>
    cases step with
    | item i => cases hu
    | key name =>
      rw [Value.child?_dict] at hu
      have hfield := lookup_normalizeFields_of_lookup hu
      rw [normalize_dict] at hw
      split at hw
      · rw [Value.child?_dict, lookup_normalizeSpec, hu] at hw
        obtain rfl := Option.some.inj hw
        split
        · exact .inr ⟨false, rfl⟩
        · exact .inl rfl
      · split at hw
        · -- the fields of an implicit sub-document come first in its tree
          have hkey : name ∈ Entries.keys (normalizeFields fields) :=
            Entries.mem_keys_of_lookup hfield
          have htree : (Schema.ofTree (normalizeFields fields) implicitOptions).tree.lookup name =
              some w := hw
          rw [Schema.lookup_tree_ofTree hkey fun hid => absurd hid (by decide), hfield] at htree
          exact .inr ⟨false, (Option.some.inj htree).symm⟩
        · exact .inr ⟨false, Option.some.inj (hw.symm.trans hfield)⟩
  | list items =>
    cases step with
    | key name => cases hu
    | item i =>
      have hitem : (normalizeItems items (items.length == 1))[i]? = some w := hw
      rw [getElem?_normalizeItems, show items[i]? = some u from hu] at hitem
      exact .inr ⟨_, (Option.some.inj hitem).symm⟩
  | tuple items => exact .inl (Option.some.inj (hw.symm.trans hu))
  | schema s => exact .inl (Option.some.inj (hw.symm.trans hu))
  | _ => cases hu

/-- A dictionary that stays one, wherever it stands, is a specification then if it was one before.
-/
theorem isFieldSpec_of_at?_normalize {path : List Value.Step} {v : Value} {isOnlyItem : Bool}
    {fields fields' : Fields} (h : v.at? path = some (.dict fields))
    (h' : (normalize v isOnlyItem).at? path = some (.dict fields')) :
    isFieldSpec fields' = isFieldSpec fields := by
  induction path generalizing v isOnlyItem with
  | nil =>
    obtain rfl := Option.some.inj h
    exact isFieldSpec_of_normalize_dict (Option.some.inj h')
  | cons step rest ih =>
    rw [Value.at?_cons, Option.bind_eq_some_iff] at h h'
    obtain ⟨u, hu, h⟩ := h
    obtain ⟨w, hw, h'⟩ := h'
    obtain rfl | ⟨isOnly, rfl⟩ := child?_normalize hu hw
    · rw [Value.dict.inj (Option.some.inj (h'.symm.trans h))]
    · exact ih h h'

/-! ## Definitions -/

/-- Normalizing is complete. A tree in normal form stays as it is. In the tree that a definition is
brought to, no native type stands in the place of a type, at any depth, but as its tag; the schemas
that the definition holds are taken as they are, and this goes on into them as far as it holds of
their own trees. And a dictionary of the definition that stays one, wherever it stands, is a field
specification then exactly when it was one before. -/
theorem normalizeFields_normal (definition : Fields) :
    normalizeFields (normalizeFields definition) = normalizeFields definition ∧
    (∀ key v path w t, (normalizeFields definition).lookup key = some v →
      v.typeAt? path = some w → w.tag? = some t →
      (∀ front s, front <+: path → front ≠ path →
        (Value.dict definition).at? (.key key :: front) = some (.schema s) →
          Tree.IsNormal s.tree) → w = .tag t) ∧
    ∀ path fields fields', (Value.dict definition).at? path = some (.dict fields) →
      (Value.dict (normalizeFields definition)).at? path = some (.dict fields') →
      isFieldSpec fields' = isFieldSpec fields := by
  refine ⟨normalizeFields_idem definition, ?_, ?_⟩
  · intro key v path w t hv hw ht hschemas
    obtain ⟨u, hu, rfl⟩ := exists_of_lookup_normalizeFields hv
    refine eq_tag_of_typeAt?_normalize hw ht fun front s hfront hne hs => ?_
    refine hschemas front s hfront hne ?_
    rw [Value.at?_cons, Value.child?_dict, hu]
    exact hs
  · intro path fields fields' h h'
    cases path with
    | nil =>
      obtain rfl := Value.dict.inj (Option.some.inj h)
      obtain rfl := Value.dict.inj (Option.some.inj h')
      exact isFieldSpec_normalizeFields definition
    | cons step rest =>
      rw [Value.at?_cons, Option.bind_eq_some_iff] at h h'
      obtain ⟨u, hu, h⟩ := h
      obtain ⟨w, hw, h'⟩ := h'
      cases step with
      | item i => cases hu
      | key name =>
        rw [Value.child?_dict] at hu hw
        rw [lookup_normalizeFields_of_lookup hu] at hw
        obtain rfl := Option.some.inj hw
        exact isFieldSpec_of_at?_normalize h h'

/-- A definition of comments, each a plain nested object of its own. -/
def commentsDefinition : Fields :=
  [("comments", .list [.dict [("body", .dict [("type", .type .str)])]])]

/-- The type of a field in an array of nested objects is a tag, and its specification is one as
before. -/
theorem normalizeFields_normal_comments :
    (∃ v w, (normalizeFields commentsDefinition).lookup "comments" = some v ∧
      v.typeAt? [.item 0, .key "body", .key "type"] = some w ∧ w.tag? = some .string ∧
      w = .tag .string) ∧
    ∃ fields fields', (Value.dict commentsDefinition).at? [.key "comments", .item 0, .key "body"] =
        some (.dict fields) ∧
      (Value.dict (normalizeFields commentsDefinition)).at?
        [.key "comments", .item 0, .key "body"] = some (.dict fields') ∧
      isFieldSpec fields' = isFieldSpec fields := by
  obtain ⟨-, htype, hspec⟩ := normalizeFields_normal commentsDefinition
  refine ⟨⟨_, _, rfl, rfl, rfl, htype "comments" _ [.item 0, .key "body", .key "type"] _ _ rfl rfl
    rfl fun front s hfront _ hs => ?_⟩, _, _, rfl, rfl,
    hspec [.key "comments", .item 0, .key "body"] _ _ rfl rfl⟩
  -- the definition holds no schema
  simp only [List.prefix_cons_iff, List.prefix_nil] at hfront
  obtain rfl | ⟨_, rfl, rfl | ⟨_, rfl, rfl | ⟨_, rfl, rfl⟩⟩⟩ := hfront <;> cases hs

/-! ## Trees of schemas -/

/-- Fields stay as they are when their values do. -/
theorem normalizeFields_eq_self {fields : Fields}
    (h : ∀ e ∈ fields, normalize e.2 false = e.2) : normalizeFields fields = fields := by
  induction fields with
  | nil => rfl
  | cons field rest ih =>
    obtain ⟨key, v⟩ := field
    obtain ⟨hv, hrest⟩ := List.forall_mem_cons.mp h
    rw [normalizeFields, ih hrest, hv]

theorem normalize_of_mem_normalizeFields {fields : Fields} {e : String × Value}
    (h : e ∈ normalizeFields fields) : normalize e.2 false = e.2 := by
  induction fields with
  | nil => exact absurd h List.not_mem_nil
  | cons field rest ih =>
    obtain ⟨key, v⟩ := field
    obtain rfl | h := List.mem_cons.mp h
    · exact normalize_idem v false
    · exact ih h

theorem normalize_of_mem_implicitFields {options : Fields} {e : String × Value}
    (h : e ∈ implicitFields options) : normalize e.2 false = e.2 := by
  obtain he | he | he | he := eq_of_mem_implicitFields h <;> rw [he] <;> rfl

/-- The tree of a schema stays as it is when it is normalized, so that it may be used as a
definition again. -/
theorem Schema.normalizeFields_tree_of_build {definition options : Value} {named : Fields}
    {s : Schema} (h : Schema.build definition options named = .ok s) :
    normalizeFields s.tree = s.tree := by
  obtain ⟨fields, options, -, rfl⟩ := Schema.exists_ofTree_of_build h
  refine normalizeFields_eq_self fun e he => ?_
  obtain he | he := Schema.mem_tree_ofTree_cases he
  · exact normalize_of_mem_normalizeFields he
  · exact normalize_of_mem_implicitFields he

/-- A schema has a tree in normal form when all schemas that its definition holds have one. -/
theorem Schema.isNormal_tree_of_build {definition options : Value} {named : Fields} {s : Schema}
    (h : Schema.build definition options named = .ok s)
    (hheld : ∀ path held, definition.at? path = some (.schema held) → Tree.IsNormal held.tree) :
    Tree.IsNormal s.tree := by
  obtain ⟨fields, options, hfields, rfl⟩ := Schema.exists_ofTree_of_build h
  refine Schema.isNormal_tree_ofTree (fun key v hv path w t hw ht => ?_) options
  obtain ⟨u, hu, rfl⟩ := exists_of_lookup_normalizeFields hv
  refine eq_tag_of_typeAt?_normalize hw ht fun front held _ _ hs => ?_
  refine hheld (.key key :: front) held ?_
  unfold definitionOf at hfields
  split at hfields
  · split at hfields
    · next given _ =>
      obtain rfl := Except.ok.inj hfields
      rw [Value.at?_cons, Value.child?_dict, hu]
      exact hs
    · cases hfields
  · -- no definition has no fields
    obtain rfl := Except.ok.inj hfields
    cases hu

end SchemaTypings
