import Mathlib.Data.List.Pairwise
import SchemaTypings.Proofs.Schemas.Embedding

/-!
# Reading bound trees

When the embedded schemas of a schema are bound, each is replaced at its place, and what stands on
the way to one embedded schema is replaced for no other (`Schema.StandsApart.lookup_replacements`).
What embeds no schema stays as it is, and stays a specification or a nested object when it is one.
-/

namespace SchemaTypings

/-! ## Substituted fields -/

namespace Tree

variable {rs : List (List String × Value)} {path : List String}

theorem lookup_substituteFields (rs : List (List String × Value)) (path : List String)
    (fields : Fields) (key : String) :
    (substituteFields rs path fields).lookup key =
      (fields.lookup key).map (substituteValue rs (path ++ [key])) := by
  induction fields with
  | nil => rfl
  | cons field rest ih =>
    obtain ⟨k, v⟩ := field
    rw [substituteFields, List.lookup_cons, List.lookup_cons, ih]
    by_cases hk : key = k
    · subst hk
      simp
    · have hb : (key == k) = false := by simpa using hk
      rw [hb]

theorem keys_substituteFields (rs : List (List String × Value)) (path : List String)
    (fields : Fields) : Entries.keys (substituteFields rs path fields) = Entries.keys fields := by
  induction fields with
  | nil => rfl
  | cons field rest ih => exact congrArg (field.1 :: ·) ih

/-- What is not replaced itself stays true or false. -/
theorem isTruthy_substituteValue (h : rs.lookup path = none) (v : Value) :
    (substituteValue rs path v).isTruthy = v.isTruthy := by
  cases v with
  | dict fields =>
    rw [substituteValue_dict h]
    cases fields <;> rfl
  | _ => simp only [substituteValue, h, Option.getD_none]

/-- What is not replaced itself stays a dictionary with something in it, or none. -/
theorem isFilledDict_substituteValue (h : rs.lookup path = none) (v : Value) :
    (substituteValue rs path v).isFilledDict = v.isFilledDict := by
  cases v with
  | dict fields =>
    rw [substituteValue_dict h]
    cases fields <;> rfl
  | _ => simp only [substituteValue, h, Option.getD_none]

/-- Fields whose type is not replaced stay a specification, or a nested object. -/
theorem isFieldSpec_substituteFields {fields : Fields}
    (h : ∀ v, fields.lookup "type" = some v → rs.lookup (path ++ ["type"]) = none) :
    isFieldSpec (substituteFields rs path fields) = isFieldSpec fields := by
  unfold isFieldSpec
  rw [lookup_substituteFields]
  cases htype : fields.lookup "type" with
  | none => rfl
  | some v => exact congrArg (!·) (isFilledDict_substituteValue (h v htype) v)

theorem valueAt?_dict (tree : Fields) {segments : List String} (h : segments ≠ []) :
    valueAt? (.dict tree) segments = getSegments? tree segments := by
  cases segments with
  | nil => exact absurd rfl h
  | cons part more => rfl

/-- One more key leads from a dictionary to what it holds. -/
theorem valueAt?_append_singleton {v w : Value} {fields : Fields} {key : String}
    (h : valueAt? v path = some (.dict fields)) (hkey : fields.lookup key = some w) :
    valueAt? v (path ++ [key]) = some w := by
  cases path with
  | nil =>
    obtain rfl := Option.some.inj h
    exact hkey
  | cons part more =>
    cases v with
    | dict tree =>
      have hpath : getSegments? tree (part :: more) = some (.dict fields) := h
      have hmore := getSegments?_append tree (List.cons_ne_nil part more) [key]
      rw [hpath, Option.bind_some] at hmore
      exact hmore.trans hkey
    | _ => cases h

end Tree

/-! ## Replacements -/

/-- The values that stand for the embedded schemas, and where they are put. -/
def Schema.replacements (s : Schema) (owner : String) : List (List String × Value) :=
  s.children.map (ChildSchema.replacement owner s.tree)

theorem Schema.exists_of_lookup_replacements {s : Schema} {owner : String} {segments : List String}
    {w : Value} (h : (s.replacements owner).lookup segments = some w) :
    ∃ c ∈ s.children, pathSegments c.place = segments ∧ c.bound (c.binding owner s.tree) = w := by
  obtain ⟨before, after, heq, -⟩ := List.lookup_eq_some_iff.mp h
  have hmem : (segments, w) ∈ s.replacements owner := by simp [heq]
  obtain ⟨c, hc, hsame⟩ := List.mem_map.mp hmem
  exact ⟨c, hc, congrArg Prod.fst hsame, congrArg Prod.snd hsame⟩

/-- The embedded schemas of a schema stand at their paths in its tree, apart from each other. -/
structure Schema.StandsApart (s : Schema) : Prop where
  plain : Tree.IsPlain s.tree
  holds : s.HoldsChildren

namespace Schema.StandsApart

variable {s : Schema} (h : s.StandsApart) {c : ChildSchema} (hc : c ∈ s.children) (owner : String)

include h

theorem apart : s.children.Pairwise fun c c' =>
    Tree.Apart (pathSegments c.path) (pathSegments c'.path) :=
  (h.holds.of_isPlain h.plain).1

include hc in
theorem getPath? : ∃ v, Tree.getPath? s.tree c.path = some v ∧
    embedded? v = some (c.schema, c.isArray, c.isMap) :=
  (h.holds.of_isPlain h.plain).2 c hc

/-- The tree in which the embedded schemas are bound is the tree of the schema with their
replacements. -/
theorem boundTree_eq {owner : String} (howner : owner ≠ "") :
    s.boundTree owner = Tree.substitute (s.replacements owner) s.tree := by
  refine Schema.boundTree_eq_of_unflatten howner ?_
  refine unflatten_foldl_bind h.plain owner h.apart fun c hc => ?_
  obtain ⟨v, hv, hembedded⟩ := h.getPath? hc
  exact isSome_getPath?_place hv hembedded

include hc

/-- Nothing is put in the way to an embedded schema, or under it, but for that schema. -/
theorem eq_of_place {c' : ChildSchema} (hc' : c' ∈ s.children) {segments : List String}
    (hplace : pathSegments c'.place = segments)
    (hsegments : segments <+: pathSegments c.path ∨ pathSegments c.path <+: segments) : c' = c := by
  by_contra hne
  have hsymm : Std.Symm fun c c' : ChildSchema =>
    Tree.Apart (pathSegments c.path) (pathSegments c'.path) := ⟨fun _ _ => Tree.Apart.symm⟩
  have hapart := h.apart.forall hc' hc hne
  -- both paths would lead the same way, and one would begin the other
  obtain ⟨more, hmore⟩ := c'.segments_place
  have hbegins : pathSegments c'.path <+: segments := ⟨more, hmore.symm.trans hplace⟩
  rcases hsegments with hover | hunder
  · exact hapart.1 (hbegins.trans hover)
  · exact (List.prefix_or_prefix_of_prefix hbegins hunder).elim hapart.1 hapart.2

/-- On the way to an embedded schema, and under it, only its own place is replaced. -/
theorem lookup_replacements {segments : List String}
    (hsegments : segments <+: pathSegments c.path ∨ pathSegments c.path <+: segments) :
    (s.replacements owner).lookup segments =
      if segments = pathSegments c.place then some (c.bound (c.binding owner s.tree)) else none := by
  cases hlookup : (s.replacements owner).lookup segments with
  | some w =>
    obtain ⟨c', hc', hplace, rfl⟩ := exists_of_lookup_replacements hlookup
    obtain rfl := h.eq_of_place hc hc' hplace hsegments
    rw [if_pos hplace.symm]
  | none =>
    split
    · next hplace =>
      have hmem : c.replacement owner s.tree ∈ s.replacements owner := List.mem_map_of_mem hc
      have hnone := List.lookup_eq_none_iff.mp hlookup _ hmem
      exact absurd hplace (by simpa [ChildSchema.replacement] using hnone)
    · rfl

/-- What lies above an embedded schema is not replaced. -/
theorem lookup_replacements_above {segments keys : List String} (hkeys : keys ≠ [])
    (hpath : pathSegments c.path = segments ++ keys) :
    (s.replacements owner).lookup segments = none := by
  rw [h.lookup_replacements hc owner (.inl ⟨keys, hpath.symm⟩)]
  refine if_neg fun hplace => ?_
  obtain ⟨more, hbelow⟩ := c.segments_place
  rw [hpath, ← hplace] at hbelow
  have hlength := congrArg List.length hbelow
  have hpos := List.length_pos_of_ne_nil hkeys
  simp only [List.length_append] at hlength
  omega

omit hc

/-- What embeds no schema but in a map, and is not what a map holds, is not replaced. -/
theorem lookup_replacements_eq_none {segments : List String} {v : Value}
    (hv : Tree.valueAt? (.dict s.tree) segments = some v)
    (hnone : ∀ inner isArray, embedded? v ≠ some (inner, isArray, false))
    (hof : segments.getLast? ≠ some "of") : (s.replacements owner).lookup segments = none := by
  cases hlookup : (s.replacements owner).lookup segments with
  | none => rfl
  | some w =>
    obtain ⟨c, hc, hplace, -⟩ := exists_of_lookup_replacements hlookup
    obtain ⟨w, hw, hembedded⟩ := h.getPath? hc
    rw [c.pathSegments_place] at hplace
    -- either the values of a map would stand there, or a schema that is embedded in another way
    cases hmap : c.isMap with
    | true =>
      rw [hmap, if_pos rfl] at hplace
      exact absurd (by simp [← hplace]) hof
    | false =>
      rw [hmap] at hplace hembedded
      obtain rfl : pathSegments c.path = segments := hplace
      rw [Tree.valueAt?_dict _ (pathSegments_ne_nil _)] at hv
      obtain rfl : w = v := Option.some.inj (hw.symm.trans hv)
      exact absurd hembedded (hnone _ _)

end Schema.StandsApart

end SchemaTypings
