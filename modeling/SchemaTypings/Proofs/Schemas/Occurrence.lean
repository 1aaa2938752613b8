import SchemaTypings.Proofs.Schemas.Implicit
import SchemaTypings.Proofs.Schemas.PlainDefinition
import SchemaTypings.Proofs.Schemas.Replacements

/-!
# Where schemas occur

A definition may spell an embedded schema in several ways (`Occurs`), at any depth of nested objects
(`FieldAt`). The schema that is built records it under the path of its field
(`Schema.Collects.mem_children`), unless it is the element of an array in a specification of its own,
or the identifier's virtual takes the place of the field.
-/

namespace SchemaTypings

/-! ## Spellings -/

/-- The ways to spell an embedded schema. -/
inductive Spelling
  | bare
  /-- The type of a specification. -/
  | typed
  /-- The only item of a list. -/
  | items
  | typedItems
  /-- The values of a map. -/
  | mapValues
  /-- The type in the specification of the only item of a list. -/
  | itemSpec
  | typedItemSpec
  deriving DecidableEq, Repr

namespace Spelling

def isArray : Spelling → Bool
  | items | typedItems | itemSpec | typedItemSpec => true
  | bare | typed | mapValues => false

def isMap : Spelling → Bool
  | mapValues => true
  | _ => false

/-- The element of an array has a specification of its own. -/
def isElementSpec : Spelling → Bool
  | itemSpec | typedItemSpec => true
  | _ => false

/-- What is no array has no elements. -/
theorem isElementSpec_eq_false {spelling : Spelling} (h : spelling.isArray = false) :
    spelling.isElementSpec = false := by
  cases spelling <;> first | rfl | exact h

end Spelling

/-- A value of a definition spells an embedded schema. -/
inductive Occurs (s : Schema) : Spelling → Value → Prop
  | bare : Occurs s .bare (.schema s)
  | typed {spec : Fields} : spec.lookup "type" = some (.schema s) → Occurs s .typed (.dict spec)
  | items : Occurs s .items (.list [.schema s])
  | typedItems {spec : Fields} : spec.lookup "type" = some (.list [.schema s]) →
      Occurs s .typedItems (.dict spec)
  | mapValues {spec : Fields} {w : Value} : spec.lookup "type" = some w →
      normalize w false = .tag .map → spec.lookup "of" = some (.schema s) →
      Occurs s .mapValues (.dict spec)
  | itemSpec {spec : Fields} : spec.lookup "type" = some (.schema s) →
      Occurs s .itemSpec (.list [.dict spec])
  | typedItemSpec {spec element : Fields} : spec.lookup "type" = some (.list [.dict element]) →
      element.lookup "type" = some (.schema s) → Occurs s .typedItemSpec (.dict spec)

theorem lookup_normalizeSpec (fields : Fields) (key : String) :
    (normalizeSpec fields).lookup key =
      (fields.lookup key).map fun v => if key = "type" || key = "of" then normalize v false else v := by
  induction fields with
  | nil => rfl
  | cons field rest ih =>
    obtain ⟨k, v⟩ := field
    rw [normalizeSpec, List.lookup_cons, List.lookup_cons, ih]
    by_cases hk : key = k
    · subst hk
      simp
    · have hne : (key == k) = false := by simpa using hk
      rw [hne]

/-- Of a specification nothing is brought into normal form but its type and that of its values. -/
theorem lookup_normalizeSpec_of_ne {fields : Fields} {key : String} (htype : key ≠ "type")
    (hof : key ≠ "of") : (normalizeSpec fields).lookup key = fields.lookup key := by
  rw [lookup_normalizeSpec]
  simp [htype, hof]

theorem isFieldSpec_of_lookup {fields : Fields} {v : Value} (h : fields.lookup "type" = some v)
    (hv : v.isFilledDict = false) : isFieldSpec fields = true := by
  unfold isFieldSpec
  rw [h]
  simp [hv]

/-- The normal form of a value is a dictionary with something in it when the value is. -/
theorem isFilledDict_normalize (v : Value) : (normalize v false).isFilledDict = v.isFilledDict := by
  cases v with
  | dict fields =>
    unfold normalize
    cases fields with
    | nil => rfl
    | cons field rest => split <;> rfl
  | type t =>
    unfold normalize
    cases Tag.ofType? t <;> rfl
  | text s =>
    unfold normalize
    cases Tag.ofName? s <;> rfl
  | _ => rfl

/-- The normal form of a nested object is one, and that of a specification is none. -/
theorem isFieldSpec_normalizeFields (fields : Fields) :
    isFieldSpec (normalizeFields fields) = isFieldSpec fields := by
  unfold isFieldSpec
  rw [lookup_normalizeFields]
  cases fields.lookup "type" with
  | none => rfl
  | some v => exact congrArg (!·) (isFilledDict_normalize v)

/-- A specification that says its type by no dictionary stays a specification, with the normal form
of its type. -/
theorem normalize_spec {fields : Fields} {v : Value} (h : fields.lookup "type" = some v)
    (hv : v.isFilledDict = false) (isOnlyItem : Bool) :
    normalize (.dict fields) isOnlyItem = .dict (normalizeSpec fields) ∧
      (normalizeSpec fields).lookup "type" = some (normalize v false) ∧
      isFieldSpec (normalizeSpec fields) = true := by
  have htype : (normalizeSpec fields).lookup "type" = some (normalize v false) := by
    rw [lookup_normalizeSpec, h]
    rfl
  refine ⟨?_, htype, isFieldSpec_of_lookup htype (isFilledDict_normalize v ▸ hv)⟩
  rw [normalize, if_pos (isFieldSpec_of_lookup h hv)]

/-- A specification that embeds a schema stays a specification. -/
theorem Occurs.normalize_dict {s : Schema} {spelling : Spelling} {spec : Fields}
    (h : Occurs s spelling (.dict spec)) (isOnlyItem : Bool) :
    normalize (.dict spec) isOnlyItem = .dict (normalizeSpec spec) := by
  cases h with
  | typed htype => exact (normalize_spec htype rfl isOnlyItem).1
  | typedItems htype => exact (normalize_spec htype rfl isOnlyItem).1
  | typedItemSpec htype => exact (normalize_spec htype rfl isOnlyItem).1
  | mapValues htype hmap =>
    have hfilled := isFilledDict_normalize _ ▸ congrArg Value.isFilledDict hmap
    exact (normalize_spec htype hfilled isOnlyItem).1

/-- An embedded schema is found in the normal form of its spelling, unless the element of an array
has a specification of its own. -/
theorem Occurs.embedded? {s : Schema} {spelling : Spelling} {v : Value} (h : Occurs s spelling v) :
    embedded? (normalize v false) =
      if spelling.isElementSpec then none else some (s, spelling.isArray, spelling.isMap) := by
  cases h with
  | bare => rfl
  | items => rfl
  | typed htype =>
    obtain ⟨hnormal, hlookup, hspec⟩ := normalize_spec htype rfl false
    rw [hnormal]
    simp only [SchemaTypings.embedded?, hspec, if_true, hlookup, Option.getD_some]
    rfl
  | typedItems htype =>
    obtain ⟨hnormal, hlookup, hspec⟩ := normalize_spec htype rfl false
    rw [hnormal]
    simp only [SchemaTypings.embedded?, hspec, if_true, hlookup, Option.getD_some]
    rfl
  | @mapValues spec w htype hmap hof =>
    have hfilled : w.isFilledDict = false := by
      rw [← isFilledDict_normalize, hmap]
      rfl
    obtain ⟨hnormal, hlookup, hspec⟩ := normalize_spec htype hfilled false
    have hvalues : (normalizeSpec spec).lookup "of" = some (.schema s) := by
      rw [lookup_normalizeSpec, hof]
      rfl
    rw [hnormal]
    simp only [SchemaTypings.embedded?, hspec, if_true, hlookup, hmap, hvalues, Option.getD_some]
    rfl
  | @itemSpec spec htype =>
    -- the element stays a dictionary, and a list of one embeds nothing
    obtain ⟨hnormal, -, -⟩ := normalize_spec htype rfl true
    have hlist : normalize (.list [.dict spec]) false = .list [normalize (.dict spec) true] := rfl
    rw [hlist, hnormal]
    rfl
  | @typedItemSpec spec element htype helement =>
    obtain ⟨helement, -, -⟩ := normalize_spec helement rfl true
    obtain ⟨hnormal, hlookup, hspec⟩ := normalize_spec htype rfl false
    have hlist : normalize (.list [.dict element]) false = .list [normalize (.dict element) true] :=
      rfl
    rw [hlist, helement] at hlookup
    rw [hnormal]
    simp only [SchemaTypings.embedded?, hspec, if_true, hlookup, Option.getD_some]
    rfl

/-! ## Fields in nested objects -/

/-- What stands in fields under keys that lead to it through nested objects. Each of the objects
satisfies `N` together with its key. -/
inductive FieldAt (N : String → Fields → Prop) : Fields → List String → Value → Prop
  | here {fields : Fields} {key : String} {v : Value} : fields.lookup key = some v →
      FieldAt N fields [key] v
  | inside {fields inner : Fields} {key : String} {keys : List String} {v : Value} :
      fields.lookup key = some (.dict inner) → isFieldSpec inner = false → N key inner →
      FieldAt N inner keys v → FieldAt N fields (key :: keys) v

namespace FieldAt

variable {N M : String → Fields → Prop} {fields other : Fields} {keys : List String} {v : Value}

theorem exists_cons (h : FieldAt N fields keys v) :
    ∃ key rest, keys = key :: rest ∧ key ∈ Entries.keys fields := by
  cases h with
  | here hlookup => exact ⟨_, _, rfl, Entries.mem_keys_of_lookup hlookup⟩
  | inside hlookup => exact ⟨_, _, rfl, Entries.mem_keys_of_lookup hlookup⟩

theorem ne_nil (h : FieldAt N fields keys v) : keys ≠ [] := by
  obtain ⟨key, rest, rfl, -⟩ := h.exists_cons
  exact List.cons_ne_nil _ _

/-- Only the first of the keys is looked up in the fields themselves. -/
theorem congr (h : FieldAt N fields keys v)
    (hother : ∀ key, keys.head? = some key → other.lookup key = fields.lookup key) :
    FieldAt N other keys v := by
  cases h with
  | here hlookup => exact .here ((hother _ rfl).trans hlookup)
  | inside hlookup hnested hinner hrest =>
    exact .inside ((hother _ rfl).trans hlookup) hnested hinner hrest

/-- The keys lead in the tree to what stands there. -/
theorem getSegments? (h : FieldAt N fields keys v) : Tree.getSegments? fields keys = some v := by
  induction h with
  | here hlookup => exact hlookup
  | inside hlookup _ _ hrest ih =>
    rw [Tree.getSegments?_eq_bind, hlookup, Option.bind_some]
    obtain ⟨next, more, rfl, -⟩ := hrest.exists_cons
    exact ih

/-- The normal form of a field stands where the field stands. -/
theorem normalize (hN : ∀ key inner, N key inner → M key (normalizeFields inner))
    (h : FieldAt N fields keys v) :
    FieldAt M (normalizeFields fields) keys (SchemaTypings.normalize v false) := by
  induction h with
  | here hlookup => exact .here (by rw [lookup_normalizeFields, hlookup]; rfl)
  | @inside fields inner key keys v hlookup hnested hinner _ ih =>
    have hdict : SchemaTypings.normalize (.dict inner) false = .dict (normalizeFields inner) := by
      rw [SchemaTypings.normalize]
      simp [hnested]
    refine .inside ?_ (isFieldSpec_normalizeFields inner ▸ hnested) (hN _ _ hinner) ih
    rw [lookup_normalizeFields, hlookup, Option.map_some, hdict]

end FieldAt

/-! ## Collecting -/

theorem childrenOfValue_of_embedded? {v : Value} {s : Schema} {isArray isMap : Bool}
    (h : embedded? v = some (s, isArray, isMap)) (path : String) :
    childrenOfValue path v = [⟨path, s, isArray, isMap⟩] := by
  cases v with
  | dict fields =>
    unfold childrenOfValue
    rw [h]
  | _ =>
    unfold childrenOfValue
    rw [h]

theorem embedded?_of_nested {fields : Fields} (h : isFieldSpec fields = false) :
    embedded? (.dict fields) = none := by
  simp [embedded?, h]

theorem childrenOfValue_of_nested {fields : Fields} (h : isFieldSpec fields = false)
    (path : String) : childrenOfValue path (.dict fields) = childrenOfFields (path ++ ".") fields := by
  unfold childrenOfValue
  rw [embedded?_of_nested h]
  simp [h]

theorem childrenOfValue_subset {fields : Fields} {key : String} {v : Value}
    (h : (key, v) ∈ fields) (lead : String) :
    childrenOfValue (lead ++ key) v ⊆ childrenOfFields lead fields := by
  induction fields with
  | nil => exact absurd h List.not_mem_nil
  | cons field rest ih =>
    rw [childrenOfFields]
    rcases List.mem_cons.mp h with rfl | h
    · exact List.subset_append_left _ _
    · exact List.Subset.trans (ih h) (List.subset_append_right _ _)

/-- What is embedded in a field is collected under the path of the field. -/
theorem FieldAt.mem_childrenOfFields {N : String → Fields → Prop} {fields : Fields}
    {keys : List String} {v : Value} (h : FieldAt N fields keys v) {s : Schema}
    {isArray isMap : Bool} (hv : SchemaTypings.embedded? v = some (s, isArray, isMap))
    (lead : String) :
    ⟨lead ++ ".".intercalate keys, s, isArray, isMap⟩ ∈ childrenOfFields lead fields := by
  induction h generalizing lead with
  | here hlookup =>
    refine childrenOfValue_subset (mem_of_lookup hlookup) lead ?_
    rw [childrenOfValue_of_embedded? hv, String.intercalate_singleton]
    exact List.mem_cons_self
  | @inside fields inner key keys v hlookup hnested _ hrest ih =>
    refine childrenOfValue_subset (mem_of_lookup hlookup) lead ?_
    -- in the object the paths begin with its own
    have hmem := ih hv (lead ++ key ++ ".")
    rw [childrenOfValue_of_nested hnested, String.intercalate_cons_of_ne_nil hrest.ne_nil]
    simpa [String.append_assoc] using hmem

theorem pathSegments_intercalate {keys : List String} (hne : keys ≠ [])
    (h : ∀ key ∈ keys, '.' ∉ key.toList) : pathSegments (".".intercalate keys) = keys := by
  induction keys with
  | nil => exact absurd rfl hne
  | cons key rest ih =>
    have hkey := pathSegments_of_not_mem (h key List.mem_cons_self)
    by_cases hrest : rest = []
    · rw [hrest, String.intercalate_singleton, hkey]
    · have hmore := ih hrest fun other hother => h other (List.mem_cons_of_mem _ hother)
      rw [String.intercalate_cons_of_ne_nil hrest, pathSegments_append, hkey, hmore]
      rfl

/-! ## The tree of a schema -/

/-- A field that is spelled like this under these keys is kept as it is and embeds a schema. -/
structure Schema.Collects (s : Schema) (keys : List String) (spelling : Spelling) : Prop where
  whole : spelling.isElementSpec = false
  /-- The identifier's virtual takes the place of no object on the way and of no field. -/
  kept : asksForIdVirtual s.options = true → keys.head? ≠ some "id"

variable {N : String → Fields → Prop} {tree options : Fields} {keys : List String} {v : Value}

/-- A field stands in the tree of a schema where it stands in what the schema is made of, unless the
identifier's virtual takes its place. -/
theorem FieldAt.ofTree (h : FieldAt N tree keys v)
    (hid : asksForIdVirtual options = true → keys.head? ≠ some "id") :
    FieldAt N (Schema.ofTree tree options).tree keys v := by
  obtain ⟨first, rest, rfl, hfirst⟩ := h.exists_cons
  refine h.congr fun key hkey => ?_
  obtain rfl : first = key := Option.some.inj hkey
  exact Schema.lookup_tree_ofTree hfirst fun hasks heq => hid hasks (heq ▸ rfl)

/-- Where the identifier's virtual is, nothing is embedded. -/
theorem embedded?_of_getSegments?_id (hasks : asksForIdVirtual options = true)
    (rest : List String) {w : Value}
    (hw : Tree.getSegments? (Schema.ofTree tree options).tree ("id" :: rest) = some w) :
    embedded? w = none := by
  have hvirtual : (Schema.ofTree tree options).tree.lookup "id" =
      some (.virtual (.empty "id")) := by
    rw [Schema.tree_ofTree_eq_put, if_pos hasks, Entries.lookup_put_self]
  rw [Tree.getSegments?_eq_bind, hvirtual, Option.bind_some] at hw
  cases rest with
  | nil =>
    obtain rfl := Option.some.inj hw
    rfl
  | cons => cases hw

/-! ## Recorded children -/

/-- How a schema that occurs under these keys in this spelling is recorded. -/
def Spelling.child (spelling : Spelling) (keys : List String) (s : Schema) : ChildSchema :=
  ⟨".".intercalate keys, s, spelling.isArray, spelling.isMap⟩

variable {fields : Fields} {inner : Schema} {spelling : Spelling}

/-- What a definition embeds under some keys stands there in the tree of its schema. -/
theorem Schema.Collects.fieldAt
    (h : (Schema.ofTree (normalizeFields fields) options).Collects keys spelling)
    (hfield : FieldAt N fields keys v) {M : String → Fields → Prop}
    (hN : ∀ key nested, N key nested → M key (normalizeFields nested)) :
    FieldAt M (Schema.ofTree (normalizeFields fields) options).tree keys (normalize v false) :=
  (hfield.normalize hN).ofTree h.kept

/-- A schema that occurs in a definition is recorded under the path of its field. -/
theorem Schema.Collects.mem_children
    (h : (Schema.ofTree (normalizeFields fields) options).Collects keys spelling)
    (hfield : FieldAt N fields keys v) (hoccurs : Occurs inner spelling v) :
    spelling.child keys inner ∈ (Schema.ofTree (normalizeFields fields) options).children := by
  have hembedded := hoccurs.embedded?
  rw [h.whole] at hembedded
  have hthere := h.fieldAt hfield (M := fun _ _ => True) fun _ _ _ => trivial
  have hmem := hthere.mem_childrenOfFields hembedded ""
  rw [String.empty_append] at hmem
  exact hmem

/-- The normal form of a definition whose keys hold no dots is plain. -/
theorem Tree.IsPlain.normalizeFields (h : Tree.IsPlain fields) :
    Tree.IsPlain (normalizeFields fields) :=
  ⟨keptByNormalizing_hasPlainKeys.fields h.1,
    fieldsEvery_normalizeFields keptByNormalizing_hasPlainKeys fields h.2⟩

/-- In the tree of a schema that is made of a plain tree the embedded schemas stand at their
paths. -/
theorem Schema.standsApart_ofTree (h : Tree.IsPlain tree) (options : Fields) :
    (Schema.ofTree tree options).StandsApart :=
  ⟨admitsImplicit_hasPlainKeys.every_tree_ofTree h options,
    Schema.holdsChildren_ofTree (Tree.Every.mono (fun _ hkeys => hkeys.1) (fun _ _ => trivial) h)
      options⟩

/-- When the keys of a definition hold no dots, nothing else is recorded under the path of the
field. -/
theorem Schema.collects_of_mem_children (hplain : Tree.IsPlain fields)
    (hfield : FieldAt N fields keys v) (hoccurs : Occurs inner spelling v)
    (hmem : spelling.child keys inner ∈
      (Schema.ofTree (normalizeFields fields) options).children) :
    (Schema.ofTree (normalizeFields fields) options).Collects keys spelling := by
  obtain ⟨w, hw, hembedded⟩ :=
    (Schema.standsApart_ofTree hplain.normalizeFields options).getPath? hmem
  have hkeys : ∀ key ∈ keys, '.' ∉ key.toList :=
    hplain.not_mem_of_getSegments? (hfield.getSegments? ▸ rfl)
  have hpath : pathSegments (spelling.child keys inner).path = keys :=
    pathSegments_intercalate hfield.ne_nil hkeys
  rw [Tree.getPath?, hpath] at hw
  have hid : asksForIdVirtual options = true → keys.head? ≠ some "id" := by
    intro hasks hhead
    obtain ⟨rest, rfl⟩ := List.head?_eq_some_iff.mp hhead
    rw [embedded?_of_getSegments?_id hasks rest hw] at hembedded
    cases hembedded
  refine ⟨?_, hid⟩
  -- what is found there is the normal form of the field
  have hthere := (hfield.normalize (M := fun _ _ => True) fun _ _ _ => trivial).ofTree hid
  obtain rfl : normalize v false = w := Option.some.inj (hthere.getSegments?.symm.trans hw)
  rw [hoccurs.embedded?] at hembedded
  cases hspelling : spelling.isElementSpec with
  | false => rfl
  | true =>
    rw [hspelling] at hembedded
    cases hembedded

end SchemaTypings
