import SchemaTypings.Field
import SchemaTypings.Proofs.Trees.Paths

/-!
# Flattening loses nothing

The leaves of a tree with the segments under which they stand are its flat form up to the dots
(`segmented_flatten`), as long as the keys of each dictionary on the way to them are distinct and
hold no dots. Setting the leaves one after the other builds the tree again (`unflatten_flatten`).
-/

namespace SchemaTypings

/-! ## Properties of all of a value -/

mutual
/-- Every dictionary in a value satisfies `D`, and every other value in it `P`, lists apart. -/
def Value.Every (D : Fields → Prop) (P : Value → Prop) : Value → Prop
  | .dict fields => D fields ∧ FieldsEvery D P fields
  | .list items => ItemsEvery D P items
  | v => P v
  termination_by structural v => v

/-- The same of the items of a list. -/
def ItemsEvery (D : Fields → Prop) (P : Value → Prop) : List Value → Prop
  | [] => True
  | v :: rest => v.Every D P ∧ ItemsEvery D P rest
  termination_by structural items => items

/-- The same of the values of fields. -/
def FieldsEvery (D : Fields → Prop) (P : Value → Prop) : List (String × Value) → Prop
  | [] => True
  | (_, v) :: rest => v.Every D P ∧ FieldsEvery D P rest
  termination_by structural fields => fields
end

/-- A tree whose dictionaries satisfy `D` and whose leaves satisfy `P`. -/
def Tree.Every (D : Fields → Prop) (P : Value → Prop) (tree : Fields) : Prop :=
  D tree ∧ FieldsEvery D P tree

/-- The keys of a dictionary are distinct and hold no dots. -/
def HasPlainKeys (fields : Fields) : Prop :=
  (Entries.keys fields).Nodup ∧ ∀ key ∈ Entries.keys fields, '.' ∉ key.toList

theorem HasPlainKeys.nil : HasPlainKeys [] :=
  ⟨List.nodup_nil, fun _ h => absurd h List.not_mem_nil⟩

theorem HasPlainKeys.put {fields : Fields} (h : HasPlainKeys fields) {key : String}
    (hdot : '.' ∉ key.toList) (v : Value) : HasPlainKeys (Entries.put fields key v) := by
  obtain ⟨hnodup, hdots⟩ := h
  refine ⟨Entries.nodup_keys_put hnodup key v, fun other hother => ?_⟩
  rcases Entries.eq_or_mem_of_mem_keys_put hother with rfl | hother
  · exact hdot
  · exact hdots other hother

theorem HasPlainKeys.congr {fields other : Fields} (h : HasPlainKeys fields)
    (heq : Entries.keys other = Entries.keys fields) : HasPlainKeys other := by
  unfold HasPlainKeys at h ⊢
  rw [heq]
  exact h

/-- A tree in which all dictionaries have distinct keys without dots. -/
abbrev Tree.IsPlain (tree : Fields) : Prop :=
  Tree.Every HasPlainKeys (fun _ => True) tree

mutual
/-- All dictionaries on the way to the leaves of a value have distinct keys without dots. A list is
a leaf, whatever it holds. -/
def Value.HasPlainPaths : Value → Prop
  | .dict fields => HasPlainKeys fields ∧ FieldsHavePlainPaths fields
  | _ => True
  termination_by structural v => v

/-- The same of the values of fields. -/
def FieldsHavePlainPaths : List (String × Value) → Prop
  | [] => True
  | (_, v) :: rest => v.HasPlainPaths ∧ FieldsHavePlainPaths rest
  termination_by structural fields => fields
end

/-- A tree in which all dictionaries on the way to the leaves have distinct keys without dots. -/
def Tree.HasPlainPaths (tree : Fields) : Prop :=
  HasPlainKeys tree ∧ FieldsHavePlainPaths tree

mutual
/-- Dictionaries that all have plain keys have them on the way to the leaves. -/
theorem Value.Every.hasPlainPaths :
    ∀ v : Value, v.Every HasPlainKeys (fun _ => True) → v.HasPlainPaths
  | .dict fields, h => ⟨h.1, FieldsEvery.hasPlainPaths fields h.2⟩
  | .list _, _ | .null, _ | .bool _, _ | .int _, _ | .real _, _ | .text _, _ | .tuple _, _
  | .type _, _ | .tag _, _ | .schema _, _ | .model _ _, _ | .virtual _, _ | .subDocument _, _ =>
    trivial
  termination_by structural v => v

theorem FieldsEvery.hasPlainPaths :
    ∀ fields : List (String × Value), FieldsEvery HasPlainKeys (fun _ => True) fields →
      FieldsHavePlainPaths fields
  | [], _ => trivial
  | (_, v) :: rest, h => ⟨Value.Every.hasPlainPaths v h.1, FieldsEvery.hasPlainPaths rest h.2⟩
  termination_by structural fields => fields
end

theorem Tree.IsPlain.hasPlainPaths {tree : Fields} (h : IsPlain tree) : HasPlainPaths tree :=
  ⟨h.1, FieldsEvery.hasPlainPaths tree h.2⟩

namespace Tree

/-! ## Leaves -/

mutual
/-- The leaves of a value with the segments that lead to them. -/
def valueLeaves : Value → List (List String × Value)
  | .dict (field :: fields) => leaves (field :: fields)
  | v => [([], v)]
  termination_by structural v => v

/-- The leaves of some fields with the segments that lead to them. -/
def leaves : Fields → List (List String × Value)
  | [] => []
  | (key, v) :: rest => (valueLeaves v).map (Prod.map (key :: ·) id) ++ leaves rest
  termination_by structural fields => fields
end

/-- The paths of flat fields by their segments. -/
def segmented (flat : Fields) : List (List String × Value) :=
  flat.map (Prod.map pathSegments id)

theorem segmented_append (flat other : Fields) :
    segmented (flat ++ other) = segmented flat ++ segmented other :=
  List.map_append

/-- A value put at a path that is not among the flat fields comes last. -/
theorem segmented_put {flat : Fields} {path : String}
    (h : ∀ e ∈ segmented flat, ¬ pathSegments path <+: e.1) (v : Value) :
    segmented (Entries.put flat path v) = segmented flat ++ [(pathSegments path, v)] := by
  have hnot : path ∉ Entries.keys flat := by
    intro hmem
    obtain ⟨e, he, rfl⟩ := List.mem_map.mp hmem
    exact h _ (List.mem_map_of_mem he) List.prefix_rfl
  rw [Entries.put_of_not_mem v hnot, segmented_append]
  rfl

/-- The segments of a key behind others. -/
theorem append_segments_of_plain {lead key : String} {before : List String}
    (hlead : ∀ key, pathSegments (lead ++ key) = before ++ pathSegments key)
    (hkey : '.' ∉ key.toList) : pathSegments (lead ++ key) = before ++ [key] := by
  rw [hlead, pathSegments_of_not_mem hkey]

mutual
/-- Flattening a value adds its leaves under its path. -/
theorem segmented_flattenValue (flat : Fields) (path : String) :
    ∀ v : Value, v.HasPlainPaths →
      (∀ e ∈ segmented flat, ¬ pathSegments path <+: e.1) →
      segmented (flattenValue flat path v) =
        segmented flat ++ (valueLeaves v).map (Prod.map (pathSegments path ++ ·) id)
  | .dict (field :: fields), hv, hfresh => by
    have hlead : ∀ key, pathSegments (path ++ "." ++ key) = pathSegments path ++ pathSegments key :=
      pathSegments_append path
    have hfresh' : ∀ e ∈ segmented flat, ∀ key ∈ Entries.keys (field :: fields),
        ¬ (pathSegments path ++ [key]) <+: e.1 := fun e he key _ hkey =>
      hfresh e he ((List.prefix_append ..).trans hkey)
    exact segmented_flattenFields flat _ _ hlead (field :: fields) hv hfresh'
  | .dict [], _, hfresh => by
    simpa [flattenValue, valueLeaves] using segmented_put hfresh _
  | .null, _, hfresh | .bool _, _, hfresh | .int _, _, hfresh | .real _, _, hfresh
  | .text _, _, hfresh | .list _, _, hfresh | .tuple _, _, hfresh | .type _, _, hfresh
  | .tag _, _, hfresh | .schema _, _, hfresh | .model _ _, _, hfresh | .virtual _, _, hfresh
  | .subDocument _, _, hfresh => by
    simpa [flattenValue, valueLeaves] using segmented_put hfresh _
  termination_by structural v => v

/-- Flattening fields adds their leaves, each behind the segments of what stands in front. -/
theorem segmented_flattenFields (flat : Fields) (lead : String) (before : List String)
    (hlead : ∀ key, pathSegments (lead ++ key) = before ++ pathSegments key) :
    ∀ fields : List (String × Value), Tree.HasPlainPaths fields →
      (∀ e ∈ segmented flat, ∀ key ∈ Entries.keys fields, ¬ (before ++ [key]) <+: e.1) →
      segmented (flattenFields flat lead fields) =
        segmented flat ++ (leaves fields).map (Prod.map (before ++ ·) id)
  | [], _, _ => by simp [flattenFields, leaves]
  | (key, v) :: rest, hplain, hfresh => by
    obtain ⟨⟨hnodup, hdots⟩, hv, hrest⟩ := hplain
    simp only [Entries.keys, List.map_cons, List.nodup_cons] at hnodup
    have hkey := append_segments_of_plain hlead (hdots key (List.mem_cons_self ..))
    have hvalue := segmented_flattenValue flat (lead ++ key) v hv fun e he => by
      rw [hkey]
      exact hfresh e he key (List.mem_cons_self ..)
    have hfresh' : ∀ e ∈ segmented (flattenValue flat (lead ++ key) v),
        ∀ other ∈ Entries.keys rest, ¬ (before ++ [other]) <+: e.1 := by
      intro e he other hother
      rw [hvalue, List.mem_append] at he
      rcases he with he | he
      · exact hfresh e he other (List.mem_cons_of_mem _ hother)
      · -- the leaves of the value stand under its own key
        obtain ⟨e, -, rfl⟩ := List.mem_map.mp he
        have hne : other ≠ key := fun heq => hnodup.1 (heq ▸ hother)
        simp [hkey, hne]
    have hplain' : Tree.HasPlainPaths rest :=
      ⟨⟨hnodup.2, fun k hk => hdots k (List.mem_cons_of_mem _ hk)⟩, hrest⟩
    rw [flattenFields, segmented_flattenFields _ lead before hlead rest hplain' hfresh', hvalue,
      leaves, hkey]
    simp [Function.comp_def]
  termination_by structural fields => fields
end

/-- The flat form of a tree is the list of its leaves. -/
theorem segmented_flatten {tree : Fields} (h : Tree.HasPlainPaths tree) :
    segmented (flatten tree "") = leaves tree := by
  have hflat := segmented_flattenFields [] "" [] (by simp) tree h (by simp [segmented])
  have hid : Prod.map ([] ++ ·) id = (id : List String × Value → _) := by
    funext e
    rfl
  rw [hid, List.map_id] at hflat
  exact hflat

/-! ## Setting leaves -/

/-- The tree with values set at segments, one after the other. -/
def setAll (tree : Fields) (values : List (List String × Value)) : Fields :=
  values.foldl (fun tree e => setSegments tree e.1 e.2) tree

@[simp] theorem setAll_nil (tree : Fields) : setAll tree [] = tree :=
  rfl

@[simp] theorem setAll_cons (tree : Fields) (e : List String × Value)
    (rest : List (List String × Value)) :
    setAll tree (e :: rest) = setAll (setSegments tree e.1 e.2) rest :=
  rfl

theorem setAll_append (tree : Fields) (values more : List (List String × Value)) :
    setAll tree (values ++ more) = setAll (setAll tree values) more :=
  List.foldl_append

/-- Flat fields make the tree in which they are all set. -/
theorem unflatten_eq (flat : Fields) : unflatten flat = setAll [] (segmented flat) := by
  simp [unflatten, setAll, segmented, setPath, List.foldl_map]

/-- Values set below one key are set in the dictionary that the key comes to hold. -/
theorem setAll_below (tree : Fields) (key : String) {values : List (List String × Value)}
    (hvalues : values ≠ []) (h : ∀ e ∈ values, e.1 ≠ []) :
    setAll tree (values.map (Prod.map (key :: ·) id)) =
      Entries.put tree key (.dict (setAll (below tree key) values)) := by
  induction values generalizing tree with
  | nil => exact absurd rfl hvalues
  | cons e rest ih =>
    have he := h e (List.mem_cons_self ..)
    have hset := setSegments_cons tree key he e.2
    rw [List.map_cons, setAll_cons, setAll_cons, Prod.map_fst, Prod.map_snd, id, hset]
    by_cases hrest : rest = []
    · subst hrest
      rfl
    · rw [ih _ hrest fun e' he' => h e' (List.mem_cons_of_mem _ he'), below_put_self,
        Entries.put_put]

/-- The leaves of fields stand under a key each. -/
theorem exists_key_of_mem_leaves {fields : Fields} {e : List String × Value}
    (h : e ∈ leaves fields) : ∃ key ∈ Entries.keys fields, ∃ rest, e.1 = key :: rest := by
  induction fields with
  | nil => simp [leaves] at h
  | cons field rest ih =>
    rcases List.mem_append.mp h with h | h
    · obtain ⟨e, -, rfl⟩ := List.mem_map.mp h
      exact ⟨field.1, List.mem_cons_self .., e.1, rfl⟩
    · obtain ⟨key, hkey, hhead⟩ := ih h
      exact ⟨key, List.mem_cons_of_mem _ hkey, hhead⟩

theorem ne_nil_of_mem_leaves {fields : Fields} {e : List String × Value} (h : e ∈ leaves fields) :
    e.1 ≠ [] := by
  obtain ⟨key, -, rest, he⟩ := exists_key_of_mem_leaves h
  rw [he]
  exact List.cons_ne_nil _ _

mutual
/-- A value has a leaf. -/
theorem valueLeaves_ne_nil : ∀ v : Value, valueLeaves v ≠ []
  | .dict (field :: fields) => leaves_ne_nil (field :: fields) (List.cons_ne_nil _ _)
  | .dict [] | .null | .bool _ | .int _ | .real _ | .text _ | .list _ | .tuple _ | .type _
  | .tag _ | .schema _ | .model _ _ | .virtual _ | .subDocument _ => List.cons_ne_nil _ _
  termination_by structural v => v

/-- So have fields, unless there are none. -/
theorem leaves_ne_nil : ∀ fields : List (String × Value), fields ≠ [] → leaves fields ≠ []
  | [], h => absurd rfl h
  | (key, v) :: rest, _ => by
    have hv := valueLeaves_ne_nil v
    simp [leaves, hv]
  termination_by structural fields => fields
end

mutual
/-- Setting the leaves of a value under a new key puts the value there. -/
theorem setAll_valueLeaves (tree : Fields) (key : String) (hkey : key ∉ Entries.keys tree) :
    ∀ v : Value, v.HasPlainPaths →
      setAll tree ((valueLeaves v).map (Prod.map (key :: ·) id)) = Entries.put tree key v
  | .dict (field :: fields), hv => by
    have hne := leaves_ne_nil (field :: fields) (List.cons_ne_nil _ _)
    have hinner := setAll_leaves [] (field :: fields) hv (by simp [Entries.keys])
    rw [valueLeaves, setAll_below tree key hne fun e he => ne_nil_of_mem_leaves he,
      below_of_not_mem hkey, hinner, List.nil_append]
  | .dict [], _ | .null, _ | .bool _, _ | .int _, _ | .real _, _ | .text _, _ | .list _, _
  | .tuple _, _ | .type _, _ | .tag _, _ | .schema _, _ | .model _ _, _ | .virtual _, _
  | .subDocument _, _ => rfl
  termination_by structural v => v

/-- Setting the leaves of fields adds the fields. -/
theorem setAll_leaves (tree : Fields) :
    ∀ fields : List (String × Value), HasPlainPaths fields →
      (∀ key ∈ Entries.keys fields, key ∉ Entries.keys tree) →
      setAll tree (leaves fields) = tree ++ fields
  | [], _, _ => by simp [leaves]
  | (key, v) :: rest, ⟨⟨hnodup, hdots⟩, hv, hrest⟩, hfresh => by
    simp only [Entries.keys, List.map_cons, List.nodup_cons] at hnodup
    have hkey := hfresh key (List.mem_cons_self ..)
    have hfresh' : ∀ other ∈ Entries.keys rest, other ∉ Entries.keys (tree ++ [(key, v)]) := by
      intro other hother hmem
      simp only [Entries.keys, List.map_append, List.map_cons, List.map_nil, List.mem_append,
        List.mem_singleton] at hmem
      rcases hmem with hmem | rfl
      · exact hfresh other (List.mem_cons_of_mem _ hother) hmem
      · exact hnodup.1 hother
    have hplain' : HasPlainPaths rest :=
      ⟨⟨hnodup.2, fun k hk => hdots k (List.mem_cons_of_mem _ hk)⟩, hrest⟩
    rw [leaves, setAll_append, setAll_valueLeaves tree key hkey v hv,
      Entries.put_of_not_mem v hkey, setAll_leaves _ rest hplain' hfresh', List.append_assoc,
      List.singleton_append]
  termination_by structural fields => fields
end

/-- The flat form of a tree makes the tree again. -/
theorem unflatten_flatten {tree : Fields} (h : HasPlainPaths tree) :
    unflatten (flatten tree "") = tree := by
  rw [unflatten_eq, segmented_flatten h, setAll_leaves [] tree h (by simp [Entries.keys]),
    List.nil_append]

end Tree

end SchemaTypings
