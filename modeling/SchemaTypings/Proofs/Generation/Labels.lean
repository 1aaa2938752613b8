import SchemaTypings.Proofs.Generation.Writable

/-!
# Keys that can be labels

A member is written under any key but the empty one, and a key that is no name is quoted. The tree
of a schema that embeds others is laid out under dotted paths and built again, so that a key with
dots in it becomes one key for each text between them (`Schema.keySteps`). `HasSteps` says of a
dictionary that none of these is empty, and `Schema.hasSteps_boundTree` that no key in the bound
tree is empty then. The names of the interfaces that are hoisted are made of the paths above
embedded schemas and are quoted nowhere: these paths have to consist of names (`Schema.IsLabelled`).
-/

namespace SchemaTypings

open Declaration

/-! ## Keys on the way to a value -/

/-- A value may stand behind some keys: none of them is empty, and a value behind the key of
references refers to nothing or can be referred to. -/
structure MayStand (keys : List String) (v : Value) : Prop where
  full : "" ∉ keys
  isReferable : keys.getLast? = some "ref" → ∀ text ∈ refText? v, IsReferable text

/-- The values of a dictionary may stand behind the keys that their own keys come to. -/
def HasSteps (steps : String → List String) (fields : Fields) : Prop :=
  ∀ e ∈ fields, MayStand (steps e.1) e.2

namespace MayStand

variable {keys : List String} {v : Value}

/-- A value that refers to nothing may stand behind any keys with something in them. -/
theorem of_refText? (hfull : "" ∉ keys) (h : refText? v = none) : MayStand keys v :=
  ⟨hfull, fun _ text htext => by simp [h] at htext⟩

/-- A native type may stand behind any keys with something in them: its name can be referred to. -/
theorem of_tag (hfull : "" ∉ keys) (t : Tag) : MayStand keys (.tag t) := by
  have hname : ∀ t : Tag, IsReferable t.name := by
    intro t
    cases t <;> exact .inl (by decide)
  refine ⟨hfull, fun _ text htext => ?_⟩
  obtain rfl := Option.some.inj htext
  exact hname t

/-- Further keys in front of its own do not matter. -/
theorem behind {before : List String} (h : MayStand keys v) (hne : keys ≠ [])
    (hbefore : "" ∉ before) : MayStand (before ++ keys) v where
  full hmem := (List.mem_append.mp hmem).elim hbefore h.full
  isReferable hlast := by
    have hlast' : keys.getLast?.isSome := by simpa using hne
    rw [List.getLast?_append, Option.or_of_isSome hlast'] at hlast
    exact h.isReferable hlast

/-- Only the last key matters, as long as it holds something. -/
theorem of_last {path : List String} {key : String} (h : MayStand path v) (hkey : key ∈ path)
    (hlast : path.getLast? = some key) : MayStand [key] v where
  full hmem := h.full (List.mem_singleton.mp hmem ▸ hkey)
  isReferable heq := h.isReferable (hlast.trans heq)

/-- What may stand behind the segments of a key may stand behind the key. -/
theorem of_segments {key : String} (h : MayStand (pathSegments key) v) : MayStand [key] v where
  full hmem := by
    have hsegments : pathSegments "" = [""] := by decide
    obtain rfl := List.mem_singleton.mp hmem
    exact h.full (by simp [hsegments])
  isReferable heq := by
    have hsegments : pathSegments "ref" = ["ref"] := by decide
    obtain rfl : key = "ref" := Option.some.inj heq
    exact h.isReferable (by rw [hsegments]; rfl)

end MayStand

namespace HasSteps

variable {steps : String → List String} {fields : Fields}

theorem nil : HasSteps steps [] :=
  fun _ h => nomatch h

theorem put (h : HasSteps steps fields) {key : String} {v : Value} (hv : MayStand (steps key) v) :
    HasSteps steps (Entries.put fields key v) := by
  intro e he
  rcases Entries.eq_or_mem_of_mem_put he with rfl | he
  · exact hv
  · exact h e he

theorem of_lookup (h : HasSteps steps fields) {key : String} {v : Value}
    (hv : fields.lookup key = some v) : MayStand (steps key) v :=
  h _ (mem_of_lookup hv)

/-- Keys whose segments hold something hold something. -/
theorem of_segments (h : HasSteps pathSegments fields) : HasSteps ([·]) fields :=
  fun e he => (h e he).of_segments

end HasSteps

/-- What a field is read as keeps keys that hold something. -/
theorem keptByReading_hasSteps : Field.KeptByReading (HasSteps ([·])) where
  ofType v := HasSteps.nil.put ⟨by decide, by simp⟩
  putType h v := h.put ⟨by decide, by simp⟩
  inherit := by
    intro inner fields hinner h key _
    unfold Field.inherit
    split
    · next v hv => exact h.put (hinner.of_lookup hv)
    · exact h

theorem namesFields_hasSteps : NamesFields (HasSteps ([·])) (· ≠ "") where
  kept := keptByReading_hasSteps
  key h key hkey := by
    obtain ⟨e, he, rfl⟩ := List.mem_map.mp hkey
    exact fun hempty => (h e he).full (by simp [hempty])
  isReferable h := by
    intro text htext
    obtain ⟨v, hv, htext⟩ := Option.bind_eq_some_iff.mp htext
    exact (h.of_lookup hv).isReferable rfl text htext

/-! ## Dotted paths -/

/-- Flat fields whose values may stand behind the segments of their paths, with keys that hold
something in them. -/
def IsSteppedFlat (flat : Fields) : Prop :=
  ∀ e ∈ flat, MayStand (pathSegments e.1) e.2 ∧ e.2.Every (HasSteps ([·])) Value.IsDeclared

theorem IsSteppedFlat.put {flat : Fields} (h : IsSteppedFlat flat) {path : String} {v : Value}
    (hpath : MayStand (pathSegments path) v) (hv : v.Every (HasSteps ([·])) Value.IsDeclared) :
    IsSteppedFlat (Entries.put flat path v) := by
  intro e he
  rcases Entries.eq_or_mem_of_mem_put he with rfl | he
  · exact ⟨hpath, hv⟩
  · exact h e he

namespace Tree

mutual
/-- Laying out a value keeps flat fields so. -/
theorem isSteppedFlat_flattenValue {flat : Fields} (hflat : IsSteppedFlat flat) (path : String) :
    ∀ v : Value, MayStand (pathSegments path) v → v.Every (HasSteps pathSegments) Value.IsDeclared →
      IsSteppedFlat (flattenValue flat path v)
  | .dict (field :: fields), hpath, hv =>
    isSteppedFlat_flattenFields hflat (pathSegments_append path) hpath.full (field :: fields) hv
  | .dict [], hpath, hv | .null, hpath, hv | .bool _, hpath, hv | .int _, hpath, hv
  | .real _, hpath, hv | .text _, hpath, hv | .list _, hpath, hv | .tuple _, hpath, hv
  | .type _, hpath, hv | .tag _, hpath, hv | .schema _, hpath, hv | .model _ _, hpath, hv
  | .virtual _, hpath, hv | .subDocument _, hpath, hv =>
    hflat.put hpath (Value.Every.mono (fun _ h => h.of_segments) (fun _ h => h) _ hv)
  termination_by structural v => v

theorem isSteppedFlat_flattenFields {flat : Fields} (hflat : IsSteppedFlat flat) {lead : String}
    {before : List String} (hlead : ∀ key, pathSegments (lead ++ key) = before ++ pathSegments key)
    (hbefore : "" ∉ before) :
    ∀ fields : List (String × Value), Tree.Every (HasSteps pathSegments) Value.IsDeclared fields →
      IsSteppedFlat (flattenFields flat lead fields)
  | [], _ => hflat
  | (key, v) :: rest, ⟨hkeys, hv, hrest⟩ => by
    have hpath : MayStand (pathSegments (lead ++ key)) v := by
      rw [hlead]
      exact (hkeys _ List.mem_cons_self).behind (pathSegments_ne_nil key) hbefore
    have hfirst := isSteppedFlat_flattenValue hflat (lead ++ key) v hpath hv
    have hkeys' : HasSteps pathSegments rest := fun e he => hkeys e (List.mem_cons_of_mem _ he)
    exact isSteppedFlat_flattenFields hfirst hlead hbefore rest ⟨hkeys', hrest⟩
  termination_by structural fields => fields
end

/-- Setting a value at a path behind whose segments it may stand keeps the keys of a tree. -/
theorem Every.setPath_hasSteps {tree : Fields} (h : Every (HasSteps ([·])) Value.IsDeclared tree)
    {path : String} {v : Value} (hpath : MayStand (pathSegments path) v)
    (hv : v.Every (HasSteps ([·])) Value.IsDeclared) :
    Every (HasSteps ([·])) Value.IsDeclared (setPath tree path v) := by
  refine h.setSegments HasSteps.nil (fun key hkey fields w hw hfields => hfields.put ?_) hv
  rcases hw with ⟨rfl, hlast⟩ | ⟨inner, rfl⟩
  · exact hpath.of_last hkey hlast
  · exact .of_refText? (fun hmem => hpath.full (List.mem_singleton.mp hmem ▸ hkey)) rfl

/-- A tree that is built of flat fields has keys that hold something. -/
theorem hasSteps_unflatten {flat : Fields} (h : IsSteppedFlat flat) :
    Every (HasSteps ([·])) Value.IsDeclared (unflatten flat) := by
  unfold unflatten
  refine List.foldlRecOn flat _ ⟨HasSteps.nil, trivial⟩ fun tree htree field hfield => ?_
  obtain ⟨hpath, hv⟩ := h field hfield
  exact htree.setPath_hasSteps hpath hv

end Tree

/-! ## Labelled schemas -/

variable {s : Schema} {owner : String}

/-- The keys that a key of a schema comes to. -/
def Schema.keySteps (s : Schema) (key : String) : List String :=
  if s.children.isEmpty then [key] else pathSegments key

/-- Binding a schema that is embedded at a path of names keeps flat fields so. -/
theorem ChildSchema.isSteppedFlat_bind {c : ChildSchema} {flat : Fields}
    (hflat : IsSteppedFlat flat) (howner : IsWord owner.toList)
    (hpath : ∀ segment ∈ pathSegments c.path, IsKey segment) :
    IsSteppedFlat (c.bind owner flat) := by
  have hfull : "" ∉ pathSegments c.place := fun hmem =>
    (ChildSchema.isKey_of_mem_place hpath "" hmem).1 rfl
  have hname : IsIdentifier (c.subDocument owner flat).name.toList :=
    isIdentifier_subDocumentName howner hpath
  rw [c.bind_eq]
  intro e he
  rcases Tree.eq_or_mem_of_mem_replacePath he with rfl | he
  · exact ⟨.of_refText? hfull (c.refText?_bound _), c.every_bound hname⟩
  · exact hflat e he

/-- The keys of a bound tree hold something when the keys of the schema do and embedded schemas are
at paths of names. -/
theorem Schema.hasSteps_boundTree (htree : Tree.Every (HasSteps s.keySteps) Value.IsUnbound s.tree)
    (hpaths : ∀ c ∈ s.children, ∀ segment ∈ pathSegments c.path, IsKey segment)
    (howner : IsWord owner.toList) :
    Tree.Every (HasSteps ([·])) Value.IsDeclared (s.boundTree owner) := by
  have hne : owner ≠ "" := howner.isKey.1
  by_cases hchildren : s.children = []
  · have hsteps : s.keySteps = ([·]) := by
      funext key
      simp [Schema.keySteps, hchildren]
    have hbound : s.boundTree owner = s.tree := by simp [Schema.boundTree, hchildren]
    rw [hbound, ← hsteps]
    exact htree.mono (fun _ h => h) fun _ h => h.isDeclared
  -- the tree is laid out, sub-documents take their places, and it is built again
  · have hsteps : s.keySteps = pathSegments := by
      funext key
      simp [Schema.keySteps, hchildren]
    have hbound : s.boundTree owner =
        Tree.unflatten (s.children.foldl (ChildSchema.bind owner) (Tree.flatten s.tree "")) := by
      simp [Schema.boundTree, hchildren, hne]
    rw [hsteps] at htree
    have hnil : IsSteppedFlat [] := fun _ h => absurd h List.not_mem_nil
    have hlead : ∀ key, pathSegments ("" ++ key) = [] ++ pathSegments key := by simp
    have hflat : IsSteppedFlat (Tree.flatten s.tree "") :=
      Tree.isSteppedFlat_flattenFields hnil hlead List.not_mem_nil s.tree
        (htree.mono (fun _ h => h) fun _ h => h.isDeclared)
    have hbinds : IsSteppedFlat (s.children.foldl (ChildSchema.bind owner)
        (Tree.flatten s.tree "")) :=
      List.foldlRecOn s.children _ hflat fun flat hflat c hc =>
        ChildSchema.isSteppedFlat_bind hflat howner (hpaths c hc)
    rw [hbound]
    exact Tree.hasSteps_unflatten hbinds

/-- The keys of a schema and of all schemas embedded in it come to keys that hold something, and
embedded schemas are at paths of names. -/
abbrev Schema.IsLabelled (s : Schema) : Prop :=
  s.IsAtKeys fun s => Tree.Every (HasSteps s.keySteps) Value.IsUnbound s.tree

theorem namesSchemas_isLabelled : NamesSchemas Schema.IsLabelled (HasSteps ([·])) (· ≠ "") where
  fields := namesFields_hasSteps
  path hs hc := ((Schema.every_iff.mp hs).2.of_mem hc).1
  child hs hc := ((Schema.every_iff.mp hs).2.of_mem hc).2
  bound hs howner := by
    obtain ⟨htree, hchildren⟩ := Schema.every_iff.mp hs
    exact Schema.hasSteps_boundTree htree (fun c hc => (hchildren.of_mem hc).1) howner

end SchemaTypings
