import SchemaTypings.Proofs.Shapes.Declarations

/-!
# Every embedded schema is hoisted

What is hoisted out of a schema holds each schema embedded in it and all that is hoisted out of that
one (`mem_hoisted_of_mem_children`). So it holds whatever a row of embedded schemas leads to, under a
name that is made along the row, one level after the other (`Schema.EmbedsAlong.mem_hoisted`).
-/

namespace SchemaTypings

theorem Schema.hoisted_eq (s : Schema) {owner : String} (howner : owner ≠ "") :
    s.hoisted owner = hoistedAll owner s.children := by
  obtain ⟨tree, options, methods, statics, query, virtuals, children⟩ := s
  rw [Schema.hoisted, if_neg (by simpa using howner)]

theorem hoist_eq_ok {shape : Shape} {owner : String} {s : Schema} {interfaces : List Interface} :
    hoist shape owner s = .ok interfaces ↔
      ∃ all, s.hoisted owner = .ok all ∧ all.map (Hoisted.interface · shape) = interfaces := by
  rw [hoist_eq]
  cases s.hoisted owner with
  | error e => simp [Except.map]
  | ok all => simp [Except.map]

mutual
/-- What is hoisted out of a schema is known whatever the name is, when all options are readable. -/
theorem Schema.exists_hoisted :
    ∀ (s : Schema) (owner : String), s.IsReadable → ∃ all, s.hoisted owner = .ok all
  | ⟨_, _, _, _, _, _, children⟩, owner, hs => by
    unfold Schema.hoisted
    split
    · exact ⟨[], rfl⟩
    · exact exists_hoistedAll children owner hs.2
  termination_by structural s => s

theorem exists_hoistedAll :
    ∀ (children : List ChildSchema) (owner : String),
      ChildrenEvery (fun s => ∃ included, includesVirtuals s.options = .ok included)
        (fun _ => True) children →
      ∃ all, hoistedAll owner children = .ok all
  | [], _, _ => ⟨[], rfl⟩
  | ⟨path, schema, isArray, isMap⟩ :: rest, owner, ⟨_, hschema, hrest⟩ => by
    obtain ⟨included, hincluded⟩ := (Schema.every_iff.mp hschema).1
    obtain ⟨inner, hinner⟩ := Schema.exists_hoisted schema (subDocumentName path owner) hschema
    obtain ⟨others, hothers⟩ := exists_hoistedAll rest owner hrest
    exact ⟨_, hoistedAll_cons_eq_ok.mpr ⟨included, inner, others, hincluded, hinner, hothers, rfl⟩⟩
  termination_by structural children => children
end

theorem mem_hoistedAll {owner : String} {children : List ChildSchema} {all : List Hoisted}
    (h : hoistedAll owner children = .ok all) {c : ChildSchema} (hc : c ∈ children) :
    ∃ included inner, c.schema.hoisted (subDocumentName c.path owner) = .ok inner ∧
      ⟨owner, c, included⟩ ∈ all ∧ inner ⊆ all := by
  induction children generalizing all with
  | nil => exact absurd hc List.not_mem_nil
  | cons d rest ih =>
    obtain ⟨included, inner, others, -, hinner, hothers, rfl⟩ := hoistedAll_cons_eq_ok.mp h
    rcases List.mem_cons.mp hc with rfl | hc
    · exact ⟨included, inner, hinner, by simp, List.subset_append_left _ _⟩
    · obtain ⟨included', inner', hinner', hmem, hsub⟩ := ih hothers hc
      have htail : others ⊆ inner ++ ⟨owner, d, included⟩ :: others := fun _ hx =>
        List.mem_append_right _ (List.mem_cons_of_mem _ hx)
      exact ⟨included', inner', hinner', htail hmem,
        List.Subset.trans hsub htail⟩

/-- What is hoisted out of a schema holds each schema embedded in it, with all that is hoisted out of
that one. -/
theorem mem_hoisted_of_mem_children {s : Schema} {owner : String} (howner : owner ≠ "")
    {all : List Hoisted} (h : s.hoisted owner = .ok all) {c : ChildSchema} (hc : c ∈ s.children) :
    ∃ included inner, c.schema.hoisted (subDocumentName c.path owner) = .ok inner ∧
      ⟨owner, c, included⟩ ∈ all ∧ inner ⊆ all := by
  rw [s.hoisted_eq howner] at h
  exact mem_hoistedAll h hc

/-- An embedded schema that is reached from a schema through the schemas embedded at these paths, one
in the other. -/
inductive Schema.EmbedsAlong : Schema → List String → ChildSchema → Prop
  | here {s : Schema} {c : ChildSchema} : c ∈ s.children → s.EmbedsAlong [] c
  | inside {s : Schema} {c d : ChildSchema} {owners : List String} :
    d ∈ s.children → d.schema.EmbedsAlong owners c → s.EmbedsAlong (d.path :: owners) c

/-- The name that is made along paths, level by level. -/
def nameAlong (model : String) (paths : List String) : String :=
  paths.foldl (fun owner path => subDocumentName path owner) model

/-- What a row of embedded schemas leads to is hoisted, out of the owner that is named along the
row. -/
theorem Schema.EmbedsAlong.mem_hoisted {s : Schema} {owners : List String} {c : ChildSchema}
    (hc : s.EmbedsAlong owners c)
    (hnamed : ∀ path ∈ owners, ∀ owner, owner ≠ "" → subDocumentName path owner ≠ "")
    {model : String} (hmodel : model ≠ "") {all : List Hoisted} (h : s.hoisted model = .ok all) :
    ∃ included, ⟨nameAlong model owners, c, included⟩ ∈ all := by
  induction hc generalizing model all with
  | here hc =>
    obtain ⟨included, -, -, hmem, -⟩ := mem_hoisted_of_mem_children hmodel h hc
    exact ⟨included, hmem⟩
  | inside hd _ ih =>
    obtain ⟨-, inner, hinner, -, hsub⟩ := mem_hoisted_of_mem_children hmodel h hd
    have hname := hnamed _ List.mem_cons_self model hmodel
    obtain ⟨included, hmem⟩ :=
      ih (fun path hpath => hnamed path (List.mem_cons_of_mem _ hpath)) hname hinner
    exact ⟨included, hsub hmem⟩

end SchemaTypings
