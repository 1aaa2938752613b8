import SchemaTypings.Proofs.Trees.Flattening

/-!
# When flattening loses nothing

A tree comes back from its flat form exactly when the keys on the way to its leaves are distinct and
hold no dots (`unflatten_flatten_eq_iff`). The tree that flat fields make has such keys whatever the
paths are (`hasPlainPaths_unflatten`): a path is cut at its dots, so that none is left in a segment.
-/

namespace SchemaTypings

/-! ## Keeping paths plain -/

theorem FieldsHavePlainPaths.put {fields : Fields} (h : FieldsHavePlainPaths fields) (key : String)
    {v : Value} (hv : v.HasPlainPaths) : FieldsHavePlainPaths (Entries.put fields key v) := by
  induction fields with
  | nil => exact ⟨hv, trivial⟩
  | cons field rest ih =>
    obtain ⟨k, old⟩ := field
    rw [Entries.put]
    split
    · exact ⟨hv, h.2⟩
    · exact ⟨h.1, ih h.2⟩

theorem FieldsHavePlainPaths.of_lookup {fields : Fields} (h : FieldsHavePlainPaths fields)
    {key : String} {v : Value} (hv : fields.lookup key = some v) : v.HasPlainPaths := by
  have hmem := mem_of_lookup hv
  clear hv
  induction fields with
  | nil => exact absurd hmem List.not_mem_nil
  | cons field rest ih =>
    obtain rfl | hmem := List.mem_cons.mp hmem
    · exact h.1
    · exact ih h.2 hmem

namespace Tree

variable {tree : Fields}

theorem hasPlainPaths_nil : HasPlainPaths [] :=
  ⟨HasPlainKeys.nil, trivial⟩

theorem HasPlainPaths.put (h : HasPlainPaths tree) {key : String} (hkey : '.' ∉ key.toList)
    {v : Value} (hv : v.HasPlainPaths) : HasPlainPaths (Entries.put tree key v) :=
  ⟨h.1.put hkey v, h.2.put key hv⟩

theorem HasPlainPaths.below (h : HasPlainPaths tree) (key : String) :
    HasPlainPaths (below tree key) := by
  unfold Tree.below
  split
  · next fields hfields => exact h.2.of_lookup hfields
  · exact hasPlainPaths_nil

/-- Setting a value at segments without dots keeps paths plain. -/
theorem HasPlainPaths.setSegments (h : HasPlainPaths tree) {path : List String}
    (hpath : ∀ segment ∈ path, '.' ∉ segment.toList) {v : Value} (hv : v.HasPlainPaths) :
    HasPlainPaths (setSegments tree path v) := by
  induction path generalizing tree with
  | nil => exact h
  | cons part rest ih =>
    obtain ⟨hpart, hrest⟩ := List.forall_mem_cons.mp hpath
    cases rest with
    | nil => exact h.put hpart hv
    | cons next rest => exact h.put hpart (ih (h.below part) hrest)

/-- The segments of a path hold no dots. -/
theorem HasPlainPaths.setPath (h : HasPlainPaths tree) (path : String) {v : Value}
    (hv : v.HasPlainPaths) : HasPlainPaths (setPath tree path v) :=
  h.setSegments (fun _ => not_mem_of_mem_pathSegments) hv

/-- Flat fields make a tree with plain paths when their values have such paths. -/
theorem hasPlainPaths_unflatten {flat : Fields} (h : FieldsHavePlainPaths flat) :
    HasPlainPaths (unflatten flat) := by
  unfold unflatten
  generalize hstart : ([] : Fields) = tree
  have htree : HasPlainPaths tree := hstart ▸ hasPlainPaths_nil
  clear hstart
  induction flat generalizing tree with
  | nil => exact htree
  | cons field rest ih => exact ih h.2 _ (htree.setPath field.1 h.1)

/-! ## Leaves of a flat form -/

mutual
/-- Flattening a value adds no dictionary but empty ones. -/
theorem fieldsHavePlainPaths_flattenValue {flat : Fields} (hflat : FieldsHavePlainPaths flat)
    (path : String) : ∀ v : Value, FieldsHavePlainPaths (flattenValue flat path v)
  | .dict (field :: fields) =>
    fieldsHavePlainPaths_flattenFields hflat (path ++ ".") (field :: fields)
  | .dict [] => hflat.put path ⟨HasPlainKeys.nil, trivial⟩
  | .null | .bool _ | .int _ | .real _ | .text _ | .list _ | .tuple _ | .type _ | .tag _
  | .schema _ | .model _ _ | .virtual _ | .subDocument _ => hflat.put path trivial
  termination_by structural v => v

theorem fieldsHavePlainPaths_flattenFields {flat : Fields} (hflat : FieldsHavePlainPaths flat)
    (lead : String) :
    ∀ fields : List (String × Value), FieldsHavePlainPaths (flattenFields flat lead fields)
  | [] => hflat
  | (key, v) :: rest =>
    fieldsHavePlainPaths_flattenFields (fieldsHavePlainPaths_flattenValue hflat (lead ++ key) v)
      lead rest
  termination_by structural fields => fields
end

/-- The tree that the flat form of any tree makes has plain paths. -/
theorem hasPlainPaths_unflatten_flatten (tree : Fields) :
    HasPlainPaths (unflatten (flatten tree "")) :=
  hasPlainPaths_unflatten (fieldsHavePlainPaths_flattenFields hasPlainPaths_nil.2 "" tree)

/-- The flat form of a tree makes the tree again, with the order of all its keys, exactly when the
keys on the way to its leaves are distinct and hold no dots. -/
theorem unflatten_flatten_eq_iff (tree : Fields) :
    unflatten (flatten tree "") = tree ↔ HasPlainPaths tree :=
  ⟨fun h => h ▸ hasPlainPaths_unflatten_flatten tree, unflatten_flatten⟩

/-- A key with a dot comes back as two. -/
theorem unflatten_flatten_dotted :
    unflatten (flatten [("a.b", .int 1)] "") = [("a", .dict [("b", .int 1)])] ∧
      unflatten (flatten [("a.b", .int 1)] "") ≠ [("a.b", .int 1)] := by
  have hcomes : unflatten (flatten [("a.b", .int 1)] "") = [("a", .dict [("b", .int 1)])] := by
    have hcut : pathSegments "a.b" = ["a", "b"] := by decide
    simp [flatten, flattenFields, flattenValue, unflatten, setPath, hcut, setSegments, below,
      Entries.put]
  refine ⟨hcomes, ?_⟩
  rw [hcomes]
  simp

end Tree

end SchemaTypings
