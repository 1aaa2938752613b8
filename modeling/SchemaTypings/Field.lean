import SchemaTypings.Value

/-!
# Reading fields

A field of a schema tree is read once, before anything is decided about the shape it is declared in:
whether it is an array, a map, optional, and what it comes down to. Arrays are written as a list or
as a specification whose type is a list; the specification of an element is merged into that of the
array. `Field.body` holds the fields of a nested object, and `depth_body_lt` says that they are
nested less deeply than the field, so that reading may go on with them.
-/

namespace SchemaTypings

/-- What a field comes down to once arrays and maps around it are taken off. -/
inductive Target
  | subDocument (d : SubDocument)
  | virtual
  /-- A specification or a nested object. -/
  | fields (fields : Fields)
  deriving Inhabited

/-- A field as it is read from a schema tree. -/
structure Field where
  isArray : Bool
  isOptional : Bool
  isMap : Bool
  /-- Nothing, when the field cannot be declared. -/
  target : Option Target
  deriving Inhabited

namespace Field

/-- What a value comes down to. An embedded schema without an interface cannot be declared; any
value that is no dictionary is the type of a specification. -/
def targetOf : Value → Option Target
  | .dict fields => some (.fields fields)
  | .subDocument d => some (.subDocument d)
  | .virtual _ => some .virtual
  | .schema _ | .null => none
  | v => some (.fields [("type", v)])

/-- The field that a value makes: a map comes down to its values, which are of any type unless the
specification says what they are. -/
def ofValue (isArray isOptional : Bool) (v : Value) : Field :=
  match targetOf v with
  | some (.fields fields) =>
    match fields.lookup "type" with
    | some (.tag .map) =>
      ⟨isArray, isOptional, true, targetOf ((fields.lookup "of").getD (.tag .mixed))⟩
    | _ => ⟨isArray, isOptional, false, some (.fields fields)⟩
  | target => ⟨isArray, isOptional, false, target⟩

/-- Whether a value is a specification that asks for the field. -/
def isRequired : Value → Bool
  | .dict fields => ((fields.lookup "required").map Value.isTruthy).getD false
  | _ => false

/-- The fields with the value under a key taken from other fields, when they have it. -/
def inherit (inner fields : Fields) (key : String) : Fields :=
  match inner.lookup key with
  | some v => Entries.put fields key v
  | none => fields

/-- The specification of an array with that of its elements merged into it. -/
def mergeElement (fields inner : Fields) : Fields :=
  ["type", "ref", "enum", "of"].foldl (inherit inner) fields

/-- The field of a specification whose type is a list of elements. A default that was switched off
makes it optional, and an element with a specification of its own makes it required again. -/
def ofElements (fields : Fields) (elements : List Value) : Field :=
  let element := elements.headD (.tag .mixed)
  let isOptional :=
    match fields.lookup "default" with
    | some .null => true
    | _ => false
  let fields := Entries.put fields "type" element
  match element with
  | .dict inner =>
    if (inner.lookup "type").isSome then ofValue true false (.dict (mergeElement fields inner))
    else ofValue true isOptional (.dict fields)
  | _ => ofValue true isOptional (.dict fields)

/-- The field of a list: an array of its first item, or of anything when it is empty. -/
def ofItems (items : List Value) : Field :=
  let item := items.headD (.tag .mixed)
  let isOptional :=
    match item with
    | .subDocument d => d.defaultIsUndefined
    | _ => false
  ofValue true isOptional item

/-- A value of a schema tree as a field. -/
def read (v : Value) : Field :=
  match v with
  | .list items => ofItems items
  | .dict fields =>
    match fields.lookup "type" with
    | some (.list elements) => ofElements fields elements
    | _ => ofValue false (!isRequired v) v
  | _ => ofValue false (!isRequired v) v

/-- The fields of the nested object that a field comes down to. A specification of an unknown type
has none. -/
def body (f : Field) : Fields :=
  match f.target with
  | some (.fields fields) => if isFieldSpec fields then [] else fields
  | _ => []

end Field

/-! ## Depth -/

mutual
/-- How deeply dictionaries and lists are nested in a value. -/
def Value.depth : Value → Nat
  | .dict fields => fieldsDepth fields + 1
  | .list items => itemsDepth items + 1
  | _ => 0
  termination_by structural v => v

/-- The depth of the deepest item. -/
def itemsDepth : List Value → Nat
  | [] => 0
  | v :: rest => max v.depth (itemsDepth rest)
  termination_by structural items => items

/-- The depth of the deepest field. -/
def fieldsDepth : List (String × Value) → Nat
  | [] => 0
  | (_, v) :: rest => max v.depth (fieldsDepth rest)
  termination_by structural fields => fields
end

theorem depth_le_of_mem {fields : Fields} {key : String} {v : Value} (h : (key, v) ∈ fields) :
    v.depth ≤ fieldsDepth fields := by
  induction fields with
  | nil => simp at h
  | cons e rest ih =>
    obtain ⟨k, w⟩ := e
    simp only [fieldsDepth]
    rcases List.mem_cons.mp h with h | h
    · obtain ⟨rfl, rfl⟩ := Prod.mk.inj h
      exact Nat.le_max_left _ _
    · exact Nat.le_trans (ih h) (Nat.le_max_right _ _)

theorem mem_of_lookup {fields : Fields} {key : String} {v : Value}
    (h : fields.lookup key = some v) : (key, v) ∈ fields := by
  induction fields with
  | nil => simp at h
  | cons e rest ih =>
    obtain ⟨k, w⟩ := e
    by_cases hk : key = k
    · subst hk
      simp only [List.lookup_cons, beq_self_eq_true, Option.some.injEq] at h
      simp [h]
    · have hb : (key == k) = false := by simpa using hk
      simp only [List.lookup_cons, hb] at h
      exact List.mem_cons_of_mem _ (ih h)

theorem depth_le_of_lookup {fields : Fields} {key : String} {v : Value}
    (h : fields.lookup key = some v) : v.depth ≤ fieldsDepth fields :=
  depth_le_of_mem (mem_of_lookup h)

theorem fieldsDepth_put_le (fields : Fields) (key : String) (v : Value) :
    fieldsDepth (Entries.put fields key v) ≤ max (fieldsDepth fields) v.depth := by
  induction fields with
  | nil => simp [Entries.put, fieldsDepth]
  | cons e rest ih =>
    obtain ⟨k, w⟩ := e
    by_cases h : k = key
    · simp only [Entries.put, h, if_true, fieldsDepth]
      omega
    · simp only [Entries.put, h, if_false, fieldsDepth]
      omega

theorem headD_depth_le (items : List Value) :
    (items.headD (.tag .mixed)).depth ≤ itemsDepth items := by
  cases items with
  | nil => simp [Value.depth]
  | cons v rest => simp only [List.headD_cons, itemsDepth]; exact Nat.le_max_left _ _

theorem itemsDepth_lt_of_lookup {fields : Fields} {key : String} {items : List Value}
    (h : fields.lookup key = some (.list items)) : itemsDepth items < fieldsDepth fields := by
  have := depth_le_of_lookup h
  simp only [Value.depth] at this
  omega

namespace Field

theorem fieldsDepth_inherit_le (inner fields : Fields) (key : String) :
    fieldsDepth (inherit inner fields key) ≤ max (fieldsDepth fields) (fieldsDepth inner) := by
  unfold inherit
  split
  case h_1 v h =>
    have := fieldsDepth_put_le fields key v
    have := depth_le_of_lookup h
    omega
  case h_2 => exact Nat.le_max_left _ _

theorem fieldsDepth_mergeElement_le (fields inner : Fields) :
    fieldsDepth (mergeElement fields inner) ≤ max (fieldsDepth fields) (fieldsDepth inner) := by
  have step := fun fs key => fieldsDepth_inherit_le inner fs key
  simp only [mergeElement, List.foldl_cons, List.foldl_nil]
  have h1 := step fields "type"
  have h2 := step (inherit inner fields "type") "ref"
  have h3 := step (inherit inner (inherit inner fields "type") "ref") "enum"
  have h4 := step (inherit inner (inherit inner (inherit inner fields "type") "ref") "enum") "of"
  omega

/-- A value that is no dictionary makes a specification, which has no body. -/
theorem targetOf_cases (v : Value) :
    (∃ fields, v = .dict fields ∧ targetOf v = some (.fields fields)) ∨
      (∀ fields, targetOf v = some (.fields fields) → isFieldSpec fields = true ∧
        fields = [("type", v)]) := by
  cases v with
  | dict fields => exact .inl ⟨fields, rfl, rfl⟩
  | _ =>
    refine .inr fun fields h => ?_
    simp only [targetOf, Option.some.injEq, Target.fields.injEq, reduceCtorEq] at h
    try subst h
    try exact ⟨rfl, rfl⟩

/-- The fields of what a value comes down to are nested less deeply than the value. -/
theorem depth_body_of_targetOf {isArray isOptional isMap : Bool} {v : Value}
    (h : body ⟨isArray, isOptional, isMap, targetOf v⟩ ≠ []) :
    fieldsDepth (body ⟨isArray, isOptional, isMap, targetOf v⟩) < v.depth := by
  rcases targetOf_cases v with ⟨fields, rfl, ht⟩ | hs
  · simp only [body, ht, ne_eq, ite_eq_left_iff, Classical.not_imp] at h ⊢
    simp [h.1, Value.depth]
  · simp only [body] at h
    split at h
    case h_1 fields ht => exact absurd (by simp [(hs fields ht).1]) h
    case h_2 => exact absurd rfl h

/-- The same once a map around it is taken off. -/
theorem depth_body_ofValue {isArray isOptional : Bool} {v : Value}
    (h : (ofValue isArray isOptional v).body ≠ []) :
    fieldsDepth (ofValue isArray isOptional v).body < v.depth := by
  rcases targetOf_cases v with ⟨fields, rfl, ht⟩ | hs
  · by_cases hm : fields.lookup "type" = some (.tag .map)
    · have he : ofValue isArray isOptional (.dict fields) =
          ⟨isArray, isOptional, true, targetOf ((fields.lookup "of").getD (.tag .mixed))⟩ := by
        simp [ofValue, ht, hm]
      rw [he] at h ⊢
      have hlt := depth_body_of_targetOf h
      have hle : ((fields.lookup "of").getD (.tag .mixed)).depth ≤ fieldsDepth fields := by
        cases ho : fields.lookup "of" with
        | none => simp [Value.depth]
        | some w => simpa using depth_le_of_lookup ho
      simp only [Value.depth]
      omega
    · have he : ofValue isArray isOptional (.dict fields) =
          ⟨isArray, isOptional, false, targetOf (.dict fields)⟩ := by
        simp only [ofValue, ht]
      rw [he] at h ⊢
      exact depth_body_of_targetOf h
  · exfalso
    cases ht : targetOf v with
    | none => simp [ofValue, ht, body] at h
    | some t =>
      cases t with
      | fields fields =>
        obtain ⟨hspec, rfl⟩ := hs fields ht
        by_cases hm : v = .tag .map
        · subst hm
          exact h rfl
        · simp [ofValue, ht, body, hspec, hm] at h
      | _ => simp [ofValue, ht, body] at h

theorem depth_body_ofElements {fields : Fields} {elements : List Value}
    (he : fields.lookup "type" = some (.list elements))
    (h : (ofElements fields elements).body ≠ []) :
    fieldsDepth (ofElements fields elements).body < (Value.dict fields).depth := by
  have hhead := headD_depth_le elements
  have hlist := itemsDepth_lt_of_lookup he
  have hput := fieldsDepth_put_le fields "type" (elements.headD (.tag .mixed))
  unfold ofElements at h ⊢
  generalize elements.headD (.tag .mixed) = element at *
  simp only [Value.depth] at *
  cases element with
  | dict inner =>
    have hmerge := fieldsDepth_mergeElement_le (Entries.put fields "type" (.dict inner)) inner
    simp only [Value.depth] at *
    by_cases ht : (inner.lookup "type").isSome = true
    · simp only [ht, if_true] at h ⊢
      have := depth_body_ofValue h
      simp only [Value.depth] at this
      omega
    · simp only [ht, Bool.false_eq_true, if_false] at h ⊢
      have := depth_body_ofValue h
      simp only [Value.depth] at this
      omega
  | _ =>
    have := depth_body_ofValue h
    simp only [Value.depth] at *
    omega

/-- The fields of the nested object that a field comes down to are nested less deeply than the
field's value. -/
theorem depth_body_lt {v : Value} (h : (read v).body ≠ []) :
    fieldsDepth (read v).body < v.depth := by
  unfold read at h ⊢
  cases v with
  | list items =>
    have := depth_body_ofValue h
    have := headD_depth_le items
    simp only [Value.depth, ofItems] at *
    omega
  | dict fields =>
    cases ht : fields.lookup "type" with
    | none =>
      simp only [ht] at h ⊢
      exact depth_body_ofValue h
    | some t =>
      cases t with
      | list elements =>
        simp only [ht] at h ⊢
        exact depth_body_ofElements ht h
      | _ =>
        simp only [ht] at h ⊢
        exact depth_body_ofValue h
  | _ => exact depth_body_ofValue h

end Field

end SchemaTypings
