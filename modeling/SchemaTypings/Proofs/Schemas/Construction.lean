import SchemaTypings.Schema.Basic
import SchemaTypings.Proofs.Trees.Every

/-!
# What construction keeps

A definition is normalized, gets the implicit fields, and its embedded schemas are collected.
`KeptByNormalizing` and `AdmitsImplicit` say what a property of dictionaries and leaves needs to
pass from a definition to the tree of its schema (`Schema.every_of_build`) and on to the embedded
schemas (`every_of_mem_children`). `Schema.GrownFrom` are the schemas that the operations of the
library make of a definition.
-/

namespace SchemaTypings

variable {D : Fields → Prop} {P : Value → Prop}

/-! ## Implicit fields -/

/-- The keys that fields are put under when a schema is made. -/
def implicitKeys : List String :=
  ["_id", "createdAt", "updatedAt", "__v", "id"]

/-- Properties of dictionaries and of leaves that the implicit fields have and keep. -/
structure AdmitsImplicit (D : Fields → Prop) (P : Value → Prop) : Prop where
  put : ∀ {fields}, D fields → ∀ key ∈ implicitKeys, ∀ v, D (Entries.put fields key v)
  nil : D []
  objectId : D [("type", .tag .objectId), ("auto", .bool true)]
  date : D [("type", .tag .date)]
  tag : ∀ t, P (.tag t)
  isAutomatic : P (.bool true)
  virtual : P (.virtual (.empty "id"))

namespace AdmitsImplicit

variable (h : AdmitsImplicit D P)

include h

theorem putIfAbsent {tree : Fields} (htree : Tree.Every D P tree) (key : String)
    (hkey : key ∈ implicitKeys) {v : Value} (hv : v.Every D P) :
    Tree.Every D P (Entries.putIfAbsent tree key v) := by
  unfold Entries.putIfAbsent
  split
  · exact htree
  · exact ⟨h.put htree.1 key hkey v, htree.2.put key hv⟩

omit h in
theorem ite {tree other : Fields} (c : Prop) [Decidable c] (htree : Tree.Every D P tree)
    (hother : Tree.Every D P other) : Tree.Every D P (if c then tree else other) := by
  split
  · exact htree
  · exact hother

/-- Adding the implicit fields keeps the properties. -/
theorem withImplicitFields {tree : Fields} (htree : Tree.Every D P tree) (options : Fields) :
    Tree.Every D P (withImplicitFields options tree) := by
  have hid : (Value.dict [("type", .tag .objectId), ("auto", .bool true)]).Every D P :=
    ⟨h.objectId, h.tag .objectId, h.isAutomatic, trivial⟩
  have hdate : (Value.dict [("type", .tag .date)]).Every D P := ⟨h.date, h.tag .date, trivial⟩
  have h1 := ite (optionIsOn options "_id" true)
    (h.putIfAbsent htree "_id" (by simp [implicitKeys]) hid) htree
  have h2 := ite (optionIsOn options "timestamps" false)
    (h.putIfAbsent (h.putIfAbsent h1 "createdAt" (by simp [implicitKeys]) hdate)
      "updatedAt" (by simp [implicitKeys]) hdate) h1
  exact ite (optionIsOn options "version_key" true)
    (h.putIfAbsent h2 "__v" (by simp [implicitKeys]) (v := .tag .number) (h.tag .number)) h2

/-- The tree of a schema has the properties that the tree it is made of has. -/
theorem every_tree_ofTree {tree : Fields} (htree : Tree.Every D P tree) (options : Fields) :
    Tree.Every D P (Schema.ofTree tree options).tree := by
  have himplicit := h.withImplicitFields htree options
  refine ite (optionIsOn options "id" true && optionIsOn options "_id" true) ?_ himplicit
  have hsegments : pathSegments "id" = ["id"] := by decide
  refine himplicit.setSegments h.nil (fun key hkey fields v _ hfields => ?_) (v := .virtual _)
    h.virtual
  rw [hsegments, List.mem_singleton] at hkey
  exact h.put hfields key (by simp [hkey, implicitKeys]) v

end AdmitsImplicit

/-! ## Normal forms -/

theorem keys_normalizeFields (fields : Fields) :
    Entries.keys (normalizeFields fields) = Entries.keys fields := by
  induction fields with
  | nil => rfl
  | cons field rest ih =>
    obtain ⟨key, v⟩ := field
    exact congrArg (key :: ·) ih

theorem keys_normalizeSpec (fields : Fields) :
    Entries.keys (normalizeSpec fields) = Entries.keys fields := by
  induction fields with
  | nil => rfl
  | cons field rest ih =>
    obtain ⟨key, v⟩ := field
    exact congrArg (key :: ·) ih

/-- Properties of dictionaries and of leaves that normal forms keep. -/
structure KeptByNormalizing (D : Fields → Prop) (P : Value → Prop) : Prop where
  fields : ∀ {fields}, D fields → D (normalizeFields fields)
  spec : ∀ {fields}, D fields → isFieldSpec fields = true → D (normalizeSpec fields)
  tag : ∀ t, P (.tag t)
  /-- The schema of an implicit sub-document. -/
  schema : ∀ {tree}, Tree.Every D P tree → P (.schema (Schema.ofTree tree implicitOptions))

mutual
/-- The normal form of a value has the properties that the value has. -/
theorem every_normalize (h : KeptByNormalizing D P) :
    ∀ (v : Value) (isOnlyItem : Bool), v.Every D P → (normalize v isOnlyItem).Every D P
  | .dict fields, isOnlyItem, ⟨hkeys, hfields⟩ => by
    have hall : Tree.Every D P (normalizeFields fields) :=
      ⟨h.fields hkeys, fieldsEvery_normalizeFields h fields hfields⟩
    unfold normalize
    split
    · next hspec => exact ⟨h.spec hkeys hspec, fieldsEvery_normalizeSpec h fields hfields⟩
    · split
      · exact h.schema hall
      · exact hall
  | .list items, _, hv => itemsEvery_normalizeItems h items _ hv
  | .type t, _, hv => by
    unfold normalize
    cases Tag.ofType? t with
    | none => exact hv
    | some t => exact h.tag t
  | .text s, _, hv => by
    unfold normalize
    cases Tag.ofName? s with
    | none => exact hv
    | some t => exact h.tag t
  | .null, _, hv | .bool _, _, hv | .int _, _, hv | .real _, _, hv | .tuple _, _, hv
  | .tag _, _, hv | .schema _, _, hv | .model _ _, _, hv | .virtual _, _, hv
  | .subDocument _, _, hv => hv
  termination_by structural v => v

theorem itemsEvery_normalizeItems (h : KeptByNormalizing D P) :
    ∀ (items : List Value) (isOnlyItem : Bool), ItemsEvery D P items →
      ItemsEvery D P (normalizeItems items isOnlyItem)
  | [], _, _ => trivial
  | v :: rest, isOnlyItem, hitems =>
    ⟨every_normalize h v isOnlyItem hitems.1, itemsEvery_normalizeItems h rest isOnlyItem hitems.2⟩
  termination_by structural items => items

theorem fieldsEvery_normalizeFields (h : KeptByNormalizing D P) :
    ∀ fields : List (String × Value), FieldsEvery D P fields →
      FieldsEvery D P (normalizeFields fields)
  | [], _ => trivial
  | (_, v) :: rest, hfields =>
    ⟨every_normalize h v false hfields.1, fieldsEvery_normalizeFields h rest hfields.2⟩
  termination_by structural fields => fields

theorem fieldsEvery_normalizeSpec (h : KeptByNormalizing D P) :
    ∀ fields : List (String × Value), FieldsEvery D P fields →
      FieldsEvery D P (normalizeSpec fields)
  | [], _ => trivial
  | (key, v) :: rest, hfields => by
    have hv := every_normalize h v false hfields.1
    have hrest := fieldsEvery_normalizeSpec h rest hfields.2
    unfold normalizeSpec
    refine ⟨?_, hrest⟩
    split
    · exact hv
    · exact hfields.1
  termination_by structural fields => fields
end

/-! ## Embedded schemas -/

/-- The ways in which a field embeds a schema, as an array or not and as the values of a map or not:
by itself or in a list of its own, each also as the type of a specification, and as that of the
values of a map. -/
inductive Embeds : Value → Schema → Bool → Bool → Prop
  | bare {s : Schema} : Embeds (.schema s) s false false
  | items {s : Schema} : Embeds (.list [.schema s]) s true false
  | typed {fields : Fields} {s : Schema} (htype : fields.lookup "type" = some (.schema s)) :
      Embeds (.dict fields) s false false
  | typedItems {fields : Fields} {s : Schema}
      (htype : fields.lookup "type" = some (.list [.schema s])) : Embeds (.dict fields) s true false
  | mapValues {fields : Fields} {s : Schema} (htype : fields.lookup "type" = some (.tag .map))
      (hof : fields.lookup "of" = some (.schema s)) : Embeds (.dict fields) s false true

/-- There is no other way. -/
theorem embeds_of_embedded? {v : Value} {s : Schema} {isArray isMap : Bool}
    (h : embedded? v = some (s, isArray, isMap)) : Embeds v s isArray isMap := by
  cases v with
  | dict fields =>
    by_cases hspec : isFieldSpec fields = true
    · simp only [embedded?, hspec, if_true] at h
      cases htype : fields.lookup "type" with
      | none => simp [isFieldSpec, htype] at hspec
      | some w =>
        rw [htype, Option.getD_some] at h
        split at h
        · cases h
          exact .typed htype
        · cases h
          exact .typedItems htype
        · next hof =>
          cases h
          exact .mapValues htype hof
        · contradiction
    · simp [embedded?, hspec] at h
  | schema inner =>
    cases h
    exact .bare
  | list items =>
    simp only [embedded?] at h
    split at h
    · contradiction
    · next heq =>
      cases h
      obtain rfl := Value.list.inj heq
      exact .items
    · contradiction
    · contradiction
  | _ => simp [embedded?] at h

/-- A schema embedded in a field is a leaf of it. -/
theorem every_of_embedded? {v : Value} (hv : v.Every D P) {s : Schema} {isArray isMap : Bool}
    (h : embedded? v = some (s, isArray, isMap)) : P (.schema s) := by
  cases embeds_of_embedded? h with
  | bare => exact hv
  | items => exact hv.1
  | typed htype =>
    have hschema : (Value.schema s).Every D P := hv.2.of_lookup htype
    exact hschema
  | typedItems htype =>
    have hlist : (Value.list [.schema s]).Every D P := hv.2.of_lookup htype
    exact hlist.1
  | mapValues _ hof =>
    have hschema : (Value.schema s).Every D P := hv.2.of_lookup hof
    exact hschema

section Children

variable {G : String → Prop}

/-- The segments of the keys of a dictionary satisfy `G`. -/
def KeysEvery (G : String → Prop) (fields : Fields) : Prop :=
  ∀ key ∈ Entries.keys fields, ∀ segment ∈ pathSegments key, G segment

mutual
/-- The schemas embedded in a value are leaves of it, and the segments of their paths are those of
its path and of its keys. -/
theorem every_of_mem_childrenOfValue (hD : ∀ fields, D fields → KeysEvery G fields)
    (path : String) (hpath : ∀ segment ∈ pathSegments path, G segment) :
    ∀ v : Value, v.Every D P → ∀ c ∈ childrenOfValue path v,
      P (.schema c.schema) ∧ ∀ segment ∈ pathSegments c.path, G segment
  | .dict fields, hv, c, hc => by
    unfold childrenOfValue at hc
    split at hc
    · next s isArray isMap hs =>
      obtain rfl := List.mem_singleton.mp hc
      exact ⟨every_of_embedded? hv hs, hpath⟩
    · split at hc
      · simp at hc
      · exact every_of_mem_childrenOfFields hD (path ++ ".") _ (pathSegments_append path) hpath fields
          (hD fields hv.1) hv.2 c hc
  | .null, hv, c, hc | .bool _, hv, c, hc | .int _, hv, c, hc | .real _, hv, c, hc
  | .text _, hv, c, hc | .list _, hv, c, hc | .tuple _, hv, c, hc | .type _, hv, c, hc
  | .tag _, hv, c, hc | .schema _, hv, c, hc | .model _ _, hv, c, hc | .virtual _, hv, c, hc
  | .subDocument _, hv, c, hc => by
    unfold childrenOfValue at hc
    split at hc
    · next s isArray isMap hs =>
      obtain rfl := List.mem_singleton.mp hc
      exact ⟨every_of_embedded? hv hs, hpath⟩
    · simp at hc
  termination_by structural v => v

theorem every_of_mem_childrenOfFields (hD : ∀ fields, D fields → KeysEvery G fields)
    (lead : String) (before : List String)
    (hlead : ∀ key, pathSegments (lead ++ key) = before ++ pathSegments key)
    (hbefore : ∀ segment ∈ before, G segment) :
    ∀ fields : List (String × Value),
      KeysEvery G fields → FieldsEvery D P fields → ∀ c ∈ childrenOfFields lead fields,
      P (.schema c.schema) ∧ ∀ segment ∈ pathSegments c.path, G segment
  | [], _, _, c, hc => by simp [childrenOfFields] at hc
  | (key, v) :: rest, hkeys, ⟨hv, hrest⟩, c, hc => by
    have hkey : ∀ segment ∈ pathSegments (lead ++ key), G segment := by
      intro segment hsegment
      rw [hlead, List.mem_append] at hsegment
      exact hsegment.elim (hbefore segment) (hkeys key List.mem_cons_self segment)
    rw [childrenOfFields, List.mem_append] at hc
    rcases hc with hc | hc
    · exact every_of_mem_childrenOfValue hD (lead ++ key) hkey v hv c hc
    · exact every_of_mem_childrenOfFields hD lead before hlead hbefore rest
        (fun k hk => hkeys k (List.mem_cons_of_mem _ hk)) hrest c hc
  termination_by structural fields => fields
end

/-- The schemas embedded in the tree of a schema are leaves of it, and the segments of their paths
are those of its keys. -/
theorem every_of_mem_children (hD : ∀ fields, D fields → KeysEvery G fields) {tree options : Fields}
    (htree : Tree.Every D P (Schema.ofTree tree options).tree) :
    ∀ c ∈ (Schema.ofTree tree options).children,
      P (.schema c.schema) ∧ ∀ segment ∈ pathSegments c.path, G segment :=
  every_of_mem_childrenOfFields hD "" [] (by simp) (by simp) _ (hD _ htree.1) htree.2

end Children

/-! ## Building -/

/-- The fields of a definition are its own, or none. -/
theorem every_of_definitionOf {definition : Value} {fields : Fields} (hnil : D [])
    (hdefinition : definition.Every D P) (h : definitionOf definition = .ok fields) :
    Tree.Every D P fields := by
  unfold definitionOf at h
  split at h
  · split at h
    · obtain rfl := Except.ok.inj h
      exact hdefinition
    · contradiction
  · obtain rfl := Except.ok.inj h
    exact ⟨hnil, trivial⟩

/-- A schema is built from the normal form of the fields of its definition. -/
theorem Schema.exists_ofTree_of_build {definition options : Value} {named : Fields} {s : Schema}
    (h : Schema.build definition options named = .ok s) :
    ∃ fields options, definitionOf definition = .ok fields ∧
      s = Schema.ofTree (normalizeFields fields) options := by
  unfold Schema.build at h
  cases hoptions : optionsOf options with
  | error e => simp [hoptions, bind, Except.bind] at h
  | ok given =>
    simp only [hoptions, bind, Except.bind] at h
    split at h
    · cases hfields : definitionOf definition with
      | error e => simp [hfields] at h
      | ok fields =>
        simp only [hfields, pure, Except.pure, Except.ok.injEq] at h
        exact ⟨fields, _, rfl, h.symm⟩
    · simp [throw, throwThe, MonadExceptOf.throw] at h

/-- A schema is made of a tree that has the properties of the definition. -/
theorem Schema.every_of_build (hnormal : KeptByNormalizing D P) (himplicit : AdmitsImplicit D P)
    {definition options : Value} {named : Fields} {s : Schema} (hdefinition : definition.Every D P)
    (h : Schema.build definition options named = .ok s) :
    ∃ tree options, Tree.Every D P tree ∧ s = Schema.ofTree tree options := by
  obtain ⟨fields, options, hfields, rfl⟩ := Schema.exists_ofTree_of_build h
  obtain ⟨hkeys, hvalues⟩ := every_of_definitionOf himplicit.nil hdefinition hfields
  exact ⟨_, options, ⟨hnormal.fields hkeys, fieldsEvery_normalizeFields hnormal fields hvalues⟩, rfl⟩

/-! ## Registering -/

/-- The schemas that a definition grows into: the one that it builds, with functions registered and
virtuals declared on it. -/
inductive Schema.GrownFrom (definition : Value) : Schema → Prop
  | build {options : Value} {named : Fields} {s : Schema} :
      Schema.build definition options named = .ok s → GrownFrom definition s
  | register {s registered : Schema} {role : Role} {fn : Callable} {name : Option String} :
      GrownFrom definition s → s.register role fn name = .ok registered →
      GrownFrom definition registered
  | declareVirtual {s : Schema} (name : String) (getters setters : List Callable)
      (declared : Option String) :
      GrownFrom definition s → GrownFrom definition (s.declareVirtual name getters setters declared)

/-- Registering a function changes neither the tree nor what is embedded in it or computed. -/
theorem Schema.register_eq {s registered : Schema} {role : Role} {fn : Callable}
    {name : Option String} (h : s.register role fn name = .ok registered) :
    registered.tree = s.tree ∧ registered.children = s.children ∧
      registered.virtuals = s.virtuals ∧ registered.options = s.options := by
  unfold Schema.register at h
  dsimp only at h
  split at h
  · cases role <;> (obtain rfl := Except.ok.inj h; exact ⟨rfl, rfl, rfl, rfl⟩)
  · contradiction

/-- Declaring a virtual sets virtuals at its name in the tree, or leaves the tree as it is. -/
theorem Schema.declareVirtual_eq (s : Schema) (name : String) (getters setters : List Callable)
    (declared : Option String) :
    (s.declareVirtual name getters setters declared).children = s.children ∧
      (s.declareVirtual name getters setters declared).options = s.options ∧
      (∃ v, (s.declareVirtual name getters setters declared).virtuals =
        Entries.put s.virtuals name v) ∧
      ((s.declareVirtual name getters setters declared).tree = s.tree ∨
        ∃ v, (s.declareVirtual name getters setters declared).tree =
          Tree.setPath s.tree name (.virtual v)) := by
  unfold Schema.declareVirtual
  split
  · exact ⟨rfl, rfl, ⟨_, rfl⟩, .inr ⟨_, rfl⟩⟩
  · refine ⟨rfl, rfl, ⟨_, rfl⟩, ?_⟩
    dsimp only
    split
    · exact .inr ⟨_, rfl⟩
    · exact .inl rfl

end SchemaTypings
