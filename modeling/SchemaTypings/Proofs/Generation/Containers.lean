import SchemaTypings.Proofs.Generation.Nesting
import SchemaTypings.Proofs.Shapes.Agreement

/-!
# Arrays and maps of fields

A field is read with one array and one map taken off, and they are put around its type again
(`isTypedAs_iff`). So the type of an array of a value, and that of a map of it, is the one that the
value has with an array or a map put around it, as long as the value has none that is already taken
off. `container_types` says for which values that is so: an array inside another container is read
as a specification of an unknown type, a map inside a map loses what its values are, and the buffer
of a live document has a type of its own that it does not have inside a map.
-/

namespace SchemaTypings

/-- The field is declared, and at the depth its type is written as the text. -/
def IsTypedAs (outlook : Outlook) (key : String) (v : Value) (depth : Nat) (t : String) : Prop :=
  ∃ m, Member.ofFields outlook [(key, v)] = [m] ∧ m.type.render outlook.shape depth = t

/-- A field has one type. -/
theorem IsTypedAs.unique {outlook : Outlook} {key : String} {v : Value} {depth : Nat}
    {t t' : String} (h : IsTypedAs outlook key v depth t) (h' : IsTypedAs outlook key v depth t') :
    t = t' := by
  obtain ⟨m, hm, rfl⟩ := h
  obtain ⟨m', hm', rfl⟩ := h'
  rw [(List.cons.inj (hm.symm.trans hm')).1]

/-- A map whose values are as the value says. -/
def mapOf (v : Value) : Value :=
  .dict [("type", .tag .map), ("of", v)]

/-- The value under `ref` that the fields of a value refer with. -/
def Value.reference? : Value → Option Value
  | .dict fields => Member.reference? fields
  | _ => none

/-! ## Reading -/

namespace Field

theorem isArray_ofValue (isArray isOptional : Bool) (v : Value) :
    (ofValue isArray isOptional v).isArray = isArray := by
  unfold ofValue
  split
  · split <;> rfl
  · rfl

theorem isArray_ofElements (fields : Fields) (elements : List Value) :
    (ofElements fields elements).isArray = true := by
  unfold ofElements
  dsimp only
  split
  · split <;> exact isArray_ofValue ..
  · exact isArray_ofValue ..

/-- A dictionary is an array when its type is a list, and is read as it is otherwise. -/
theorem read_dict (fields : Fields) :
    (∃ elements, fields.lookup "type" = some (.list elements) ∧
        read (.dict fields) = ofElements fields elements) ∨
      (∀ elements, fields.lookup "type" ≠ some (.list elements)) ∧
        read (.dict fields) = ofValue false (!isRequired (.dict fields)) (.dict fields) := by
  cases htype : fields.lookup "type" with
  | none => exact .inr ⟨by simp, by simp [read, htype]⟩
  | some type =>
    cases type with
    | list elements => exact .inl ⟨elements, rfl, by simp [read, htype]⟩
    | _ => exact .inr ⟨by simp, by simp [read, htype]⟩

/-- A value that is no array is read as it is. -/
theorem read_eq_of_not_isArray {v : Value} (h : (read v).isArray = false) :
    read v = ofValue false (!isRequired v) v := by
  cases v with
  | list items => simp [read, ofItems, isArray_ofValue] at h
  | dict fields =>
    obtain ⟨elements, -, hread⟩ | ⟨-, hread⟩ := read_dict fields
    · simp [hread, isArray_ofElements] at h
    · exact hread
  | _ => rfl

/-- What an array comes down to when it is not read as one has a list as its type. -/
theorem exists_list_of_isArray {v : Value} (h : (read v).isArray = true) :
    ∃ spec elements, targetOf v = some (.fields spec) ∧
      spec.lookup "type" = some (.list elements) := by
  cases v with
  | list items => exact ⟨_, items, rfl, rfl⟩
  | dict fields =>
    obtain ⟨elements, htype, -⟩ | ⟨-, hread⟩ := read_dict fields
    · exact ⟨fields, elements, rfl, htype⟩
    · simp [hread, isArray_ofValue] at h
  | _ => exact absurd h (by simp [read, isArray_ofValue])

/-- A map is a specification with that type, and comes down to its values. -/
theorem ofValue_of_isMap {isArray isOptional : Bool} {v : Value}
    (h : (ofValue isArray isOptional v).isMap = true) :
    ∃ spec, targetOf v = some (.fields spec) ∧ spec.lookup "type" = some (.tag .map) := by
  unfold ofValue at h
  split at h
  · next spec hspec =>
    split at h
    · next htype => exact ⟨spec, hspec, htype⟩
    · simp at h
  · simp at h

/-- What is no map comes down to itself. -/
theorem ofValue_of_not_isMap {isArray isOptional : Bool} {v : Value}
    (h : (ofValue isArray isOptional v).isMap = false) :
    ofValue isArray isOptional v = ⟨isArray, isOptional, false, targetOf v⟩ := by
  unfold ofValue at h ⊢
  split at h
  · next spec hspec =>
    split at h
    · simp at h
    · simp [hspec]
  · rfl

/-- Whether a value is a map, and what it comes down to, does not depend on the array around it. -/
theorem ofValue_congr (isArray isOptional isArray' isOptional' : Bool) (v : Value) :
    (ofValue isArray isOptional v).isMap = (ofValue isArray' isOptional' v).isMap ∧
      (ofValue isArray isOptional v).target = (ofValue isArray' isOptional' v).target := by
  unfold ofValue
  split
  · split <;> exact ⟨rfl, rfl⟩
  · exact ⟨rfl, rfl⟩

theorem read_mapOf_eq (v : Value) : read (mapOf v) = ⟨false, true, true, targetOf v⟩ :=
  rfl

/-- The fields that a value comes down to refer as the value does. -/
theorem reference?_of_targetOf {v : Value} {spec : Fields}
    (h : targetOf v = some (.fields spec)) : Member.reference? spec = v.reference? := by
  cases v with
  | dict fields =>
    obtain rfl : fields = spec := by simpa [targetOf] using h
    rfl
  | _ =>
    simp only [targetOf, Option.some.injEq, Target.fields.injEq, reduceCtorEq] at h
    try subst h
    try rfl

end Field

/-! ## The type inside an array and a map -/

namespace Member

/-- The type of a specification or a nested object, without an array or a map around it. -/
def specType? (outlook : Outlook) (key : String) (spec : Fields) : Option TypeExpr :=
  if metadataKeys.contains key then none
  else
    match reference? spec with
    | some ref => (referenceType outlook.shape ref).map .named
    | none =>
      match baseType outlook.shape key spec with
      | .omitted => none
      | .nested => some (.object (ofFields outlook (if isFieldSpec spec then [] else spec)))
      | .named text => some (.named text)

theorem type_ofField (outlook : Outlook) (key : String) {f : Field} {spec : Fields}
    (h : f.target = some (.fields spec)) :
    (ofField outlook key f (ofFields outlook f.body)).map Member.type =
      (specType? outlook key spec).map (wrap outlook.shape f false) := by
  have hbody : f.body = if isFieldSpec spec then [] else spec := by simp [Field.body, h]
  rw [hbody]
  simp only [ofField, h, ofSpec, specType?, reference?]
  by_cases hkey : metadataKeys.contains key = true
  · simp only [hkey, if_true, Option.map_none]
  · simp only [hkey, Bool.false_eq_true, if_false]
    cases (spec.lookup "ref").filter Value.isTruthy with
    | some ref =>
      dsimp only
      cases referenceType outlook.shape ref <;> rfl
    | none =>
      dsimp only
      cases baseType outlook.shape key spec <;> rfl

theorem ofFields_singleton (outlook : Outlook) (key : String) (v : Value) :
    ofFields outlook [(key, v)] =
      (ofField outlook key (Field.read v) (ofFields outlook (Field.read v).body)).toList := by
  rw [ofFields_eq, List.filterMap_cons, List.filterMap_nil]
  dsimp only
  cases ofField outlook key (Field.read v) (ofFields outlook (Field.read v).body) <;> rfl

end Member

/-- A field that comes down to a specification or a nested object has the type of that with the
array and the map of the field around it. -/
theorem isTypedAs_iff {outlook : Outlook} {key : String} {v : Value} {depth : Nat} {t : String}
    {spec : Fields} (h : (Field.read v).target = some (.fields spec)) :
    IsTypedAs outlook key v depth t ↔ ∃ type, Member.specType? outlook key spec = some type ∧
      (Member.wrap outlook.shape (Field.read v) false type).render outlook.shape depth = t := by
  have htype := Member.type_ofField outlook key h
  rw [IsTypedAs, Member.ofFields_singleton]
  cases hmember : Member.ofField outlook key (Field.read v)
      (Member.ofFields outlook (Field.read v).body) with
  | none =>
    rw [hmember] at htype
    cases hspec : Member.specType? outlook key spec with
    | none => simp
    | some type => simp [hspec] at htype
  | some m =>
    rw [hmember] at htype
    cases hspec : Member.specType? outlook key spec with
    | none => simp [hspec] at htype
    | some type =>
      have hm : m.type = Member.wrap outlook.shape (Field.read v) false type := by
        simpa [hspec] using htype
      simp [hm]

/-! ## Containers -/

/-- A list of one specification or nested object is read as an array of it. -/
theorem isTypedAs_list_iff {outlook : Outlook} {key : String} {v : Value} {depth : Nat} {t : String}
    {spec : Fields} (h : (Field.ofValue true false v).target = some (.fields spec)) :
    IsTypedAs outlook key (.list [v]) depth t ↔
      ∃ type, Member.specType? outlook key spec = some type ∧
        arrayType outlook.shape false ((Member.elementType outlook.shape
          (Field.ofValue true false v).isMap type).render outlook.shape depth) = t := by
  have hitem : Field.read (.list [v]) = Field.ofValue true false v := by
    cases v with
    | subDocument d => simp [Field.ofValue, Field.targetOf] at h
    | _ => rfl
  rw [isTypedAs_iff (hitem ▸ h), hitem]
  simp only [Member.wrap_eq, Field.isArray_ofValue, if_true]
  rfl

/-- A map of a specification or nested object is read as a map of it, without what is around it. -/
theorem isTypedAs_mapOf_iff {outlook : Outlook} {key : String} {v : Value} {depth : Nat}
    {t : String} {spec : Fields} (h : Field.targetOf v = some (.fields spec)) :
    IsTypedAs outlook key (mapOf v) depth t ↔
      ∃ type, Member.specType? outlook key spec = some type ∧
        mapType outlook.shape (type.render outlook.shape depth) = t := by
  have htarget : (Field.read (mapOf v)).target = some (.fields spec) := by
    rw [Field.read_mapOf_eq]
    exact h
  rw [isTypedAs_iff htarget, Field.read_mapOf_eq]
  simp only [Member.wrap_eq, Bool.false_eq_true, if_false, Member.elementType_map]
  rfl

/-- An element that is no map has the type that it has on its own. -/
theorem isTypedAs_of_not_isArray {outlook : Outlook} {key : String} {v : Value} {depth : Nat}
    {t : String} {spec : Fields} (harray : (Field.read v).isArray = false)
    (h : (Field.read v).target = some (.fields spec)) :
    IsTypedAs outlook key v depth t ↔
      ∃ type, Member.specType? outlook key spec = some type ∧
        (Member.elementType outlook.shape (Field.read v).isMap type).render outlook.shape depth =
          t := by
  simp only [isTypedAs_iff h, Member.wrap_eq, harray, Bool.false_eq_true, if_false]

/-! ## How types end -/

theorem getLast?_append {t : String} {c : Char} (s : String) (h : t.toList.getLast? = some c) :
    (s ++ t).toList.getLast? = some c := by
  rw [String.toList_append, List.getLast?_append, h, Option.some_or]

theorem getLast?_object (shape : Shape) (depth : Nat) (members : List Member) :
    ((TypeExpr.object members).render shape depth).toList.getLast? = some '\x7d' :=
  getLast?_append _ (by decide)

/-- What ends an array type. -/
def arrayEnd : Shape → Char
  | .lean => ']'
  | .document => '>'

theorem getLast?_arrayType (shape : Shape) (ofSubDocuments : Bool) (t : String) :
    (arrayType shape ofSubDocuments t).toList.getLast? = some (arrayEnd shape) := by
  cases shape with
  | lean => exact getLast?_append _ (by decide)
  | document => exact getLast?_append _ (by decide)

theorem getLast?_mapType (shape : Shape) (t : String) :
    (mapType shape t).toList.getLast? = some '>' := by
  cases shape with
  | lean => exact getLast?_append _ (by decide)
  | document => exact getLast?_append _ (by decide)

theorem getLast?_referenceType {ref : Value} {text : String}
    (h : referenceType .document ref = some text) : text.toList.getLast? = some 't' := by
  obtain ⟨name, -, rfl⟩ := Option.map_eq_some_iff.mp h
  exact getLast?_append _ (getLast?_append _ (by decide))

theorem mapType_injective {shape : Shape} {a b : String} (h : mapType shape a = mapType shape b) :
    a = b := by
  cases shape with
  | lean => exact String.append_right_inj _ |>.mp (String.append_left_inj _ |>.mp h)
  | document => exact String.append_right_inj _ |>.mp (String.append_left_inj _ |>.mp h)

theorem arrayType_injective {shape : Shape} {ofSubDocuments : Bool} {a b : String}
    (h : arrayType shape ofSubDocuments a = arrayType shape ofSubDocuments b) : a = b := by
  cases shape with
  | document => exact String.append_right_inj _ |>.mp (String.append_left_inj _ |>.mp h)
  | lean =>
    have hpart := String.append_left_inj _ |>.mp h
    -- an element with a blank is put in brackets, and then still has a blank
    have hblank : ∀ c : String, c.contains ' ' = true → ("(" ++ c ++ ")").contains ' ' = true := by
      simp
    by_cases ha : a.contains ' ' = true <;> by_cases hb : b.contains ' ' = true
    · rw [if_pos ha, if_pos hb] at hpart
      exact String.append_right_inj _ |>.mp (String.append_left_inj _ |>.mp hpart)
    · rw [if_pos ha, if_neg hb] at hpart
      exact absurd (hpart ▸ hblank a ha) hb
    · rw [if_neg ha, if_pos hb] at hpart
      exact absurd (hpart ▸ hblank b hb) ha
    · rwa [if_neg ha, if_neg hb] at hpart

/-- A specification that refers to something has the type of the reference. -/
theorem Member.specType?_of_reference {outlook : Outlook} {key : String} {spec : Fields}
    {type : TypeExpr} {ref : Value} (h : specType? outlook key spec = some type)
    (href : reference? spec = some ref) :
    ∃ text, referenceType outlook.shape ref = some text ∧ type = .named text := by
  unfold specType? at h
  split at h
  · contradiction
  · simp only [href] at h
    obtain ⟨text, htext, rfl⟩ := Option.map_eq_some_iff.mp h
    exact ⟨text, htext, rfl⟩

/-- An array that is not read as one is an object type without members, or a reference. -/
theorem getLast?_specType?_list {outlook : Outlook} {key : String} (depth : Nat) {spec : Fields}
    {elements : List Value} {type : TypeExpr} (hlist : spec.lookup "type" = some (.list elements))
    (h : Member.specType? outlook key spec = some type)
    (hexact : outlook.shape = .document ∨ Member.reference? spec = none) :
    (type.render outlook.shape depth).toList.getLast? ≠ some (arrayEnd outlook.shape) ∧
      Member.elementType outlook.shape false type = type := by
  have hbase : baseType outlook.shape key spec = .nested := by simp [baseType, hlist]
  cases href : Member.reference? spec with
  | none =>
    unfold Member.specType? at h
    split at h
    · contradiction
    · simp only [href, hbase, Option.some.injEq] at h
      rw [← h, getLast?_object]
      refine ⟨?_, rfl⟩
      cases outlook.shape <;> decide
  | some ref =>
    obtain ⟨text, htext, rfl⟩ := Member.specType?_of_reference h href
    have hshape : outlook.shape = .document := by simpa [href] using hexact
    rw [hshape] at htext ⊢
    have hlast := getLast?_referenceType htext
    rw [TypeExpr.render, hlast]
    refine ⟨by decide, ?_⟩
    obtain heq | ⟨hbuffer, -⟩ := Member.elementType_document (.named text)
    · exact heq
    · rw [TypeExpr.named.inj hbuffer] at hlast
      exact absurd hlast (by decide)

/-- No tag has the type of a buffer of a live document. -/
theorem tagType_ne_liveBuffer {key : String} {spec : Fields} {t : Tag} :
    tagType .document key spec t ≠ .named "mongoose.Types.Buffer" := by
  cases t with
  | string =>
    cases hvalues : enumValues spec with
    | nil => simp [tagType, hvalues]
    | cons value values =>
      simp only [tagType, hvalues, ne_eq, BaseType.named.injEq]
      intro heq
      have hquote : (enumType (value :: values)).toList.getLast? = some '"' :=
        getLast?_append _ (by decide)
      rw [heq] at hquote
      exact absurd hquote (by decide)
  | number => by_cases hkey : key = "__v" <;> simp [tagType, hkey]
  | _ => simp [tagType, objectIdType]

/-- Nor has any specification. -/
theorem render_specType?_ne_buffer {outlook : Outlook} {key : String} {depth : Nat} {spec : Fields}
    {type : TypeExpr} (h : Member.specType? outlook key spec = some type)
    (hshape : outlook.shape = .document) :
    type.render outlook.shape depth ≠ "mongoose.Types.Buffer" := by
  have hends : ∀ {text : String} {c : Char}, text.toList.getLast? = some c → c ≠ 'r' →
      text ≠ "mongoose.Types.Buffer" := by
    rintro text c hlast hne rfl
    have hr : "mongoose.Types.Buffer".toList.getLast? = some 'r' := by decide
    exact hne (Option.some.inj (hlast.symm.trans hr))
  unfold Member.specType? at h
  split at h
  · contradiction
  · split at h
    · obtain ⟨text, htext, rfl⟩ := Option.map_eq_some_iff.mp h
      rw [hshape] at htext
      exact hends (getLast?_referenceType htext) (by decide)
    · split at h
      · contradiction
      · rw [← Option.some.inj h]
        exact hends (getLast?_object ..) (by decide)
      · next text hbase =>
        rw [← Option.some.inj h, TypeExpr.render]
        rintro rfl
        unfold baseType at hbase
        split at hbase
        · exact tagType_ne_liveBuffer (hshape ▸ hbase)
        · contradiction

/-- A map that refers to nothing is a map of anything, when it is not read as one. -/
theorem specType?_of_map {outlook : Outlook} {key : String} {spec other : Fields}
    {type : TypeExpr} (hother : Member.specType? outlook key other = some type)
    (href : Member.reference? spec = none) (hmap : spec.lookup "type" = some (.tag .map)) :
    Member.specType? outlook key spec = some (.named (mapType outlook.shape "any")) := by
  have hkey : metadataKeys.contains key = false := by
    unfold Member.specType? at hother
    split at hother
    · contradiction
    · next hkey => simpa using hkey
  have hbase : baseType outlook.shape key spec = .named (mapType outlook.shape "any") := by
    cases hshape : outlook.shape <;> simp only [baseType, hmap, tagType] <;> decide
  simp only [Member.specType?, hkey, href, hbase, Bool.false_eq_true, if_false]

/-! ## The types of containers -/

/-- Whether a map keeps the type of its values: they are no array, a map only when it is one of
anything that refers to nothing, and no buffer of a live document. -/
structure IsMapValue (outlook : Outlook) (v : Value) (t : String) : Prop where
  not_array : (Field.read v).isArray = false
  of_map : (Field.read v).isMap = true → t = mapType outlook.shape "any" ∧ v.reference? = none
  not_buffer : outlook.shape = .document → t ≠ "mongoose.Types.Buffer"

section Types

variable {outlook : Outlook} {key : String} {v : Value} {depth : Nat} {t : String} {spec : Fields}
  (hspec : (Field.read v).target = some (.fields spec)) (h : IsTypedAs outlook key v depth t)

include hspec h

/-- The type of an array ends an array. -/
theorem getLast?_of_isArray (harray : (Field.read v).isArray = true) :
    t.toList.getLast? = some (arrayEnd outlook.shape) := by
  obtain ⟨type, -, rfl⟩ := (isTypedAs_iff hspec).mp h
  rw [Member.wrap_eq, harray, if_pos rfl]
  exact getLast?_arrayType ..

theorem isTypedAs_list (harray : (Field.read v).isArray = false) :
    IsTypedAs outlook key (.list [v]) depth (arrayType outlook.shape false t) := by
  obtain ⟨type, htype, rfl⟩ := (isTypedAs_of_not_isArray harray hspec).mp h
  obtain ⟨hmap, htarget⟩ := Field.ofValue_congr false (!Field.isRequired v) true false v
  rw [← Field.read_eq_of_not_isArray harray] at hmap htarget
  exact (isTypedAs_list_iff (htarget ▸ hspec)).mpr ⟨type, htype, by rw [hmap]⟩

theorem isTypedAs_mapOf (hvalue : IsMapValue outlook v t) :
    IsTypedAs outlook key (mapOf v) depth (mapType outlook.shape t) := by
  obtain ⟨type, htype, htext⟩ := (isTypedAs_of_not_isArray hvalue.not_array hspec).mp h
  have hread := Field.read_eq_of_not_isArray hvalue.not_array
  cases hmap : (Field.read v).isMap with
  | false =>
    -- the type stands inside the map as it is written on its own, unless it is that of a buffer
    rw [hread, Field.ofValue_of_not_isMap (hread ▸ hmap)] at hspec
    refine (isTypedAs_mapOf_iff hspec).mpr ⟨type, htype, congrArg _ ?_⟩
    rw [← htext, hmap]
    cases hshape : outlook.shape with
    | lean => rw [Member.elementType_lean]
    | document =>
      obtain heq | ⟨-, heq⟩ := Member.elementType_document type
      · rw [heq]
      · rw [hmap, hshape, heq] at htext
        exact absurd htext.symm (hvalue.not_buffer hshape)
  | true =>
    obtain ⟨hany, href⟩ := hvalue.of_map hmap
    obtain ⟨inner, hinner, hlookup⟩ := Field.ofValue_of_isMap (hread ▸ hmap)
    rw [← Field.reference?_of_targetOf hinner] at href
    exact (isTypedAs_mapOf_iff hinner).mpr
      ⟨_, specType?_of_map htype href hlookup, congrArg _ hany.symm⟩

/-- An array in an array has another type than that of an array around it. -/
theorem not_isArray_of_isTypedAs_list (hexact : outlook.shape = .document ∨ v.reference? = none)
    (hlist : IsTypedAs outlook key (.list [v]) depth (arrayType outlook.shape false t)) :
    (Field.read v).isArray = false := by
  refine Bool.eq_false_iff.mpr fun harray => ?_
  have hend := getLast?_of_isArray hspec h harray
  obtain ⟨inner, elements, hinner, htype⟩ := Field.exists_list_of_isArray harray
  rw [← Field.reference?_of_targetOf hinner] at hexact
  -- the inner array is not taken off, so that its list is read as a type
  have hvalue : Field.ofValue true false v = ⟨true, false, false, some (.fields inner)⟩ := by
    simp [Field.ofValue, hinner, htype]
  obtain ⟨type, hspecType, htext⟩ := (isTypedAs_list_iff (by rw [hvalue])).mp hlist
  obtain ⟨hlast, helement⟩ := getLast?_specType?_list depth htype hspecType hexact
  rw [hvalue, helement] at htext
  rw [arrayType_injective htext] at hlast
  exact hlast hend

/-- A map keeps the type of its values only when these are as they have to be. -/
theorem isMapValue_of_isTypedAs_mapOf (hexact : outlook.shape = .document ∨ v.reference? = none)
    (hmapOf : IsTypedAs outlook key (mapOf v) depth (mapType outlook.shape t)) :
    IsMapValue outlook v t := by
  have hnotArray : (Field.read v).isArray = false := by
    -- inside the map the array is read as a type, which does not end as an array does
    refine Bool.eq_false_iff.mpr fun harray => ?_
    have hend := getLast?_of_isArray hspec h harray
    obtain ⟨inner, elements, hinner, htype⟩ := Field.exists_list_of_isArray harray
    rw [← Field.reference?_of_targetOf hinner] at hexact
    obtain ⟨type, hspecType, htext⟩ := (isTypedAs_mapOf_iff hinner).mp hmapOf
    obtain ⟨hlast, -⟩ := getLast?_specType?_list depth htype hspecType hexact
    rw [mapType_injective htext] at hlast
    exact hlast hend
  obtain ⟨type, htype, htext⟩ := (isTypedAs_of_not_isArray hnotArray hspec).mp h
  have hread := Field.read_eq_of_not_isArray hnotArray
  cases hmap : (Field.read v).isMap with
  | false =>
    refine ⟨hnotArray, by simp [hmap], fun hshape hbuffer => ?_⟩
    rw [hread, Field.ofValue_of_not_isMap (hread ▸ hmap)] at hspec
    obtain ⟨type', htype', htext'⟩ := (isTypedAs_mapOf_iff hspec).mp hmapOf
    exact render_specType?_ne_buffer htype' hshape ((mapType_injective htext').trans hbuffer)
  | true =>
    rw [hmap, Member.elementType_map] at htext
    have hend : t.toList.getLast? = some '>' := htext ▸ getLast?_mapType ..
    obtain ⟨inner, hinner, hlookup⟩ := Field.ofValue_of_isMap (hread ▸ hmap)
    obtain ⟨type', htype', htext'⟩ := (isTypedAs_mapOf_iff hinner).mp hmapOf
    have hrender := mapType_injective htext'
    -- inside a map the tag of maps is all that is left of the map
    refine ⟨hnotArray, fun _ => ?_, fun _ hbuffer => ?_⟩
    · have href : Member.reference? inner = none := by
        rw [← Field.reference?_of_targetOf hinner] at hexact
        obtain hshape | href := hexact
        · refine Option.eq_none_iff_forall_ne_some.mpr fun ref href => ?_
          -- a reference does not end as a map does
          obtain ⟨text, hreference, rfl⟩ := Member.specType?_of_reference htype' href
          rw [TypeExpr.render] at hrender
          rw [hshape] at hreference
          rw [← hrender, getLast?_referenceType hreference] at hend
          exact absurd hend (by decide)
        · exact href
      rw [specType?_of_map htype href hlookup, Option.some.injEq] at htype'
      rw [← htype', TypeExpr.render] at hrender
      exact ⟨hrender.symm, Field.reference?_of_targetOf hinner ▸ href⟩
    · rw [hbuffer] at hend
      exact absurd hend (by decide)

end Types

/-- The types of containers: an array has the type of its elements in an array, and a map the type
of its values in a map, when the elements are no array and the values as `IsMapValue` says. Any
other container has a type that is not the composed one, in plain data at least when what it holds
refers to nothing. -/
theorem container_types (outlook : Outlook) (key : String) (v : Value) (depth : Nat) (t : String)
    (hspec : ∃ spec, (Field.read v).target = some (.fields spec))
    (h : IsTypedAs outlook key v depth t) :
    ((Field.read v).isArray = false →
        IsTypedAs outlook key (.list [v]) depth (arrayType outlook.shape false t)) ∧
      (IsMapValue outlook v t →
        IsTypedAs outlook key (mapOf v) depth (mapType outlook.shape t)) ∧
      (outlook.shape = .document ∨ v.reference? = none →
        (IsTypedAs outlook key (.list [v]) depth (arrayType outlook.shape false t) →
            (Field.read v).isArray = false) ∧
          (IsTypedAs outlook key (mapOf v) depth (mapType outlook.shape t) →
            IsMapValue outlook v t)) := by
  obtain ⟨spec, hspec⟩ := hspec
  exact ⟨isTypedAs_list hspec h, isTypedAs_mapOf hspec h, fun hexact =>
    ⟨not_isArray_of_isTypedAs_list hspec h hexact, isMapValue_of_isTypedAs_mapOf hspec h hexact⟩⟩

/-- A state with two values, in an array and in a map of a live document. -/
theorem container_types_enum :
    IsTypedAs ⟨.document, false⟩ "state"
        (.list [.dict [("type", .tag .string), ("enum", .list [.text "a", .text "b"])]]) 0
        "mongoose.Types.Array<\"a\" | \"b\">" ∧
      IsTypedAs ⟨.document, false⟩ "state"
        (mapOf (.dict [("type", .tag .string), ("enum", .list [.text "a", .text "b"])])) 0
        "mongoose.Types.Map<\"a\" | \"b\">" := by
  have htyped : IsTypedAs ⟨.document, false⟩ "state"
      (.dict [("type", .tag .string), ("enum", .list [.text "a", .text "b"])]) 0
      "\"a\" | \"b\"" := ⟨_, rfl, by decide +kernel⟩
  have hstate := container_types ⟨.document, false⟩ "state" _ 0 _ ⟨_, rfl⟩ htyped
  have harray : arrayType .document false "\"a\" | \"b\"" =
      "mongoose.Types.Array<\"a\" | \"b\">" := by decide +kernel
  have hmap : mapType .document "\"a\" | \"b\"" = "mongoose.Types.Map<\"a\" | \"b\">" := by
    decide +kernel
  rw [← harray, ← hmap]
  exact ⟨hstate.1 rfl, hstate.2.1 ⟨rfl, fun h => (by cases h), fun _ => (by decide +kernel)⟩⟩

/-- Containers whose types are not composed: a map of maps loses what the inner values are, a map of
buffers loses the type that buffers have in a live document, and what is in an array of arrays has
no type at all. -/
theorem container_types_lost :
    (IsTypedAs ⟨.lean, false⟩ "scores" (mapOf (.tag .number)) 0 "Map<string, number>" ∧
      IsTypedAs ⟨.lean, false⟩ "scores" (mapOf (mapOf (.tag .number))) 0
        "Map<string, Map<string, any>>" ∧
      ¬IsTypedAs ⟨.lean, false⟩ "scores" (mapOf (mapOf (.tag .number))) 0
        (mapType .lean "Map<string, number>")) ∧
    (IsTypedAs ⟨.document, false⟩ "files" (.tag .buffer) 0 "mongoose.Types.Buffer" ∧
      IsTypedAs ⟨.document, false⟩ "files" (mapOf (.tag .buffer)) 0
        "mongoose.Types.Map<Buffer>") ∧
    IsTypedAs ⟨.document, false⟩ "grid" (.list [.tag .number]) 0 "mongoose.Types.Array<number>" ∧
      IsTypedAs ⟨.document, false⟩ "grid" (.list [.list [.tag .number]]) 0
        "mongoose.Types.Array<\x7b\n  \x7d>" := by
  have hscores : IsTypedAs ⟨.lean, false⟩ "scores" (mapOf (mapOf (.tag .number))) 0
      "Map<string, Map<string, any>>" := ⟨_, rfl, by decide +kernel⟩
  refine ⟨⟨⟨_, rfl, ?_⟩, hscores, fun h => absurd (hscores.unique h) (by decide +kernel)⟩,
    ⟨⟨_, rfl, ?_⟩, ⟨_, rfl, ?_⟩⟩, ⟨_, rfl, ?_⟩, ⟨_, rfl, ?_⟩⟩
  all_goals decide +kernel

end SchemaTypings
