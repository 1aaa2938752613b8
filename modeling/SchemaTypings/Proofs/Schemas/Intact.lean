import SchemaTypings.Proofs.Schemas.Plain
import SchemaTypings.Proofs.Trees.Binding

/-!
# Trees that stay as they are

The tree of a schema that embeds others is laid out as its leaves, and what is declared is a new tree
in which the leaves are set again. An empty nested object is a leaf, and both trees hold the very same
one: a field that a dotted key leads to behind it is set in both, and the schema is another one when
it is declared the next time. The trees here are values, which nothing is written into, and so they
are those of a schema that is declared for the first time. `Schema.StaysIntact` says of a schema that
it is always declared as if it were the first time.

Without dotted keys the leaves of a tree stand apart, and nothing is set behind one of them
(`Schema.hasSeparateLeaves_of_hasPlainPaths`).
-/

namespace SchemaTypings

/-! ## Leaves that nothing is set behind -/

namespace Tree

/-- None of the paths leads on behind an empty nested object. -/
def EndsAtEmpty (flat : Fields) (paths : List String) : Prop :=
  ∀ path, (path, .dict []) ∈ flat → ∀ other ∈ paths, pathSegments path <+: pathSegments other →
    other = path

mutual
/-- No leaf of a value stands behind another. -/
theorem eq_of_isPrefix_valueLeaves :
    ∀ v : Value, v.HasPlainPaths → ∀ e ∈ valueLeaves v, ∀ f ∈ valueLeaves v, e.1 <+: f.1 → e.1 = f.1
  | .dict (field :: fields), hv => eq_of_isPrefix_leaves (field :: fields) hv
  | .dict [], _ | .null, _ | .bool _, _ | .int _, _ | .real _, _ | .text _, _ | .list _, _
  | .tuple _, _ | .type _, _ | .tag _, _ | .schema _, _ | .model _ _, _ | .virtual _, _
  | .subDocument _, _ => fun e he f hf _ => by
    rw [List.mem_singleton.mp he, List.mem_singleton.mp hf]
  termination_by structural v => v

theorem eq_of_isPrefix_leaves :
    ∀ fields : List (String × Value), HasPlainPaths fields →
      ∀ e ∈ leaves fields, ∀ f ∈ leaves fields, e.1 <+: f.1 → e.1 = f.1
  | [], _ => fun _ h => nomatch h
  | (key, v) :: rest, ⟨⟨hnodup, hdots⟩, hv, hrest⟩ => by
    simp only [Entries.keys, List.map_cons, List.nodup_cons] at hnodup
    have hplain : HasPlainPaths rest :=
      ⟨⟨hnodup.2, fun k hk => hdots k (List.mem_cons_of_mem _ hk)⟩, hrest⟩
    -- a leaf of the value stands under its key, and the others do not
    have hbelow : ∀ e ∈ (valueLeaves v).map (Prod.map (key :: ·) id), ∀ f ∈ leaves rest,
        ¬ e.1 <+: f.1 ∧ ¬ f.1 <+: e.1 := by
      intro e he f hf
      obtain ⟨e, -, rfl⟩ := List.mem_map.mp he
      obtain ⟨k, hk, more, hmore⟩ := exists_key_of_mem_leaves hf
      have hne : k ≠ key := fun heq => hnodup.1 (heq ▸ hk)
      simp [hmore, hne, hne.symm]
    intro e he f hf hbegins
    rcases List.mem_append.mp he with he | he <;> rcases List.mem_append.mp hf with hf | hf
    · obtain ⟨inner, hinner, rfl⟩ := List.mem_map.mp he
      obtain ⟨inner', hinner', rfl⟩ := List.mem_map.mp hf
      exact congrArg (key :: ·) (eq_of_isPrefix_valueLeaves v hv inner hinner inner' hinner'
        (List.cons_prefix_cons.mp hbegins).2)
    · exact absurd hbegins (hbelow e he f hf).1
    · exact absurd hbegins (hbelow f hf e he).2
    · exact eq_of_isPrefix_leaves rest hplain e he f hf hbegins
  termination_by structural fields => fields
end

/-- In the flat form of a tree without dotted keys no path leads on behind another. -/
theorem eq_of_isPrefix_flatten {tree : Fields} (h : HasPlainPaths tree) {path other : String}
    (hpath : path ∈ Entries.keys (flatten tree "")) (hother : other ∈ Entries.keys (flatten tree ""))
    (hbegins : pathSegments path <+: pathSegments other) : path = other := by
  have hleaf : ∀ key ∈ Entries.keys (flatten tree ""), ∃ e ∈ leaves tree, e.1 = pathSegments key := by
    intro key hkey
    obtain ⟨field, hfield, rfl⟩ := List.mem_map.mp hkey
    rw [← segmented_flatten h]
    exact ⟨_, List.mem_map_of_mem hfield, rfl⟩
  obtain ⟨e, he, hsegments⟩ := hleaf path hpath
  obtain ⟨f, hf, hsegments'⟩ := hleaf other hother
  refine pathSegments_injective ?_
  rw [← hsegments, ← hsegments'] at hbegins ⊢
  exact eq_of_isPrefix_leaves tree h e he f hf hbegins

end Tree

/-! ## Schemas -/

variable {s : Schema}

/-- The leaves of a schema's tree under their dotted paths. -/
def Schema.leaves (s : Schema) : Fields :=
  Tree.flatten s.tree ""

/-- When the tree of a schema is laid out, neither a leaf nor the place of an embedded schema lies
behind an empty nested object. A schema that embeds nothing is declared as it is. -/
def Schema.HasSeparateLeaves (s : Schema) : Prop :=
  s.children ≠ [] →
    Tree.EndsAtEmpty s.leaves (Entries.keys s.leaves ++ s.children.map ChildSchema.place)

/-- The tree of a schema and those of all schemas embedded in it stay as they are while the schema is
declared. -/
def Schema.StaysIntact (s : Schema) : Prop :=
  s.Every Schema.HasSeparateLeaves fun _ => True

theorem Schema.staysIntact_of_children (hchildren : s.children = []) : s.StaysIntact :=
  Schema.every_iff.mpr ⟨fun h => absurd hchildren h, hchildren ▸ trivial⟩

/-- The leaves of the tree that is declared: those of the schema, with sub-documents in the places of
the embedded schemas. -/
def Schema.boundLeaves (s : Schema) (owner : String) : Fields :=
  s.children.foldl (ChildSchema.bind owner) s.leaves

/-- The tree that is declared is made of them. -/
theorem Schema.boundTree_eq (hchildren : s.children ≠ []) {owner : String} (howner : owner ≠ "") :
    s.boundTree owner = Tree.unflatten (s.boundLeaves owner) := by
  simp [Schema.boundTree, Schema.boundLeaves, Schema.leaves, hchildren, howner]

/-- What is bound stands in the place of an embedded schema, and is no nested object. -/
theorem Schema.mem_boundLeaves {owner : String} {e : String × Value} (he : e ∈ s.boundLeaves owner) :
    e ∈ s.leaves ∨ (∃ c ∈ s.children, e.1 = c.place) ∧ e.2 ≠ .dict [] := by
  unfold Schema.boundLeaves at he
  -- every child is bound once, and leaves the other leaves where they are
  refine List.foldlRecOn (motive := fun flat => ∀ e ∈ flat, e ∈ s.leaves ∨
    (∃ c ∈ s.children, e.1 = c.place) ∧ e.2 ≠ .dict []) s.children (ChildSchema.bind owner)
    (fun e he => .inl he) (fun flat ih c hc e he => ?_) e he
  rw [c.bind_eq] at he
  rcases Tree.eq_or_mem_of_mem_replacePath he with rfl | he
  · refine .inr ⟨⟨c, hc, rfl⟩, ?_⟩
    unfold ChildSchema.bound
    dsimp only
    split <;> exact nofun
  · exact ih e he

/-- So nothing is set behind an empty nested object of the schema when the new tree is made. -/
theorem Schema.HasSeparateLeaves.endsAtEmpty (h : s.HasSeparateLeaves) (hchildren : s.children ≠ [])
    (owner : String) :
    Tree.EndsAtEmpty (s.boundLeaves owner) (Entries.keys (s.boundLeaves owner)) := by
  intro path hpath other hother
  obtain ⟨e, he, rfl⟩ := List.mem_map.mp hother
  -- an empty nested object is no sub-document, so that it comes from the schema
  have hleaf : (path, .dict []) ∈ s.leaves :=
    (Schema.mem_boundLeaves hpath).resolve_right fun hbound => hbound.2 rfl
  refine h hchildren path hleaf e.1 (List.mem_append.mpr ?_)
  rcases Schema.mem_boundLeaves he with he | ⟨⟨c, hc, heq⟩, -⟩
  · exact .inl (List.mem_map_of_mem he)
  · exact .inr (heq ▸ List.mem_map_of_mem hc)

/-- A schema without dotted keys, in which every embedded schema stands in the place of a leaf or
above one, has separate leaves. -/
theorem Schema.hasSeparateLeaves_of_hasPlainPaths (h : Tree.HasPlainPaths s.tree)
    (hplaces : ∀ c ∈ s.children, ∃ key ∈ Entries.keys s.leaves,
      pathSegments c.place <+: pathSegments key) : s.HasSeparateLeaves := by
  intro _ path hpath other hother hbegins
  have hmem : path ∈ Entries.keys s.leaves := List.mem_map_of_mem hpath
  rcases List.mem_append.mp hother with hother | hother
  · exact (Tree.eq_of_isPrefix_flatten h hmem hother hbegins).symm
  · obtain ⟨c, hc, rfl⟩ := List.mem_map.mp hother
    obtain ⟨key, hkey, hplace⟩ := hplaces c hc
    -- the place is between two paths of leaves, which are the same
    obtain rfl := Tree.eq_of_isPrefix_flatten h hmem hkey (hbegins.trans hplace)
    exact pathSegments_injective (hplace.eq_of_length_le hbegins.length_le)

end SchemaTypings
