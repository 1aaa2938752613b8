import SchemaTypings.Proofs.Schemas.Construction

/-!
# Schemas with plain keys

The keys of a schema are those of its definition, the implicit ones and the names of its virtuals.
When these are not empty and hold no dots, at any depth, the schema is plain, the schemas embedded
in it are, and so are their paths (`Schema.isPlain_ofTree`). Registering functions and declaring
virtuals keeps a schema plain.
-/

namespace SchemaTypings

/-! ## A schema and all embedded in it -/

mutual
/-- A schema and all schemas embedded in it satisfy `S`, and their paths `C`. -/
def Schema.Every (S : Schema → Prop) (C : String → Prop) : Schema → Prop
  | ⟨tree, options, methods, statics, query, virtuals, children⟩ =>
    S ⟨tree, options, methods, statics, query, virtuals, children⟩ ∧ ChildrenEvery S C children
  termination_by structural s => s

/-- The same of embedded schemas. -/
def ChildrenEvery (S : Schema → Prop) (C : String → Prop) : List ChildSchema → Prop
  | [] => True
  | ⟨path, schema, _, _⟩ :: rest => C path ∧ schema.Every S C ∧ ChildrenEvery S C rest
  termination_by structural children => children
end

variable {S : Schema → Prop} {C : String → Prop}

theorem Schema.every_iff {s : Schema} :
    s.Every S C ↔ S s ∧ ChildrenEvery S C s.children := by
  cases s
  exact Iff.rfl

theorem ChildrenEvery.of_mem {children : List ChildSchema} (h : ChildrenEvery S C children)
    {c : ChildSchema} (hc : c ∈ children) : C c.path ∧ c.schema.Every S C := by
  induction children with
  | nil => simp at hc
  | cons first rest ih =>
    obtain ⟨path, schema, isArray, isMap⟩ := first
    obtain ⟨hpath, hschema, hrest⟩ := h
    rcases List.mem_cons.mp hc with rfl | hc
    · exact ⟨hpath, hschema⟩
    · exact ih hrest hc

theorem ChildrenEvery.of_forall {children : List ChildSchema}
    (h : ∀ c ∈ children, C c.path ∧ c.schema.Every S C) : ChildrenEvery S C children := by
  induction children with
  | nil => trivial
  | cons first rest ih =>
    obtain ⟨path, schema, isArray, isMap⟩ := first
    obtain ⟨hpath, hschema⟩ := h _ (List.mem_cons_self ..)
    exact ⟨hpath, hschema, ih fun c hc => h c (List.mem_cons_of_mem _ hc)⟩

/-- A leaf of a tree before anything is bound in it: no sub-document. -/
def Value.IsUnbound : Value → Prop
  | .subDocument _ => False
  | _ => True

/-- The keys of a dictionary are distinct, not empty and without dots. -/
def HasFullKeys (fields : Fields) : Prop :=
  HasPlainKeys fields ∧ "" ∉ Entries.keys fields

/-- The keys of a schema are distinct in each dictionary, not empty and without dots, at every depth
and in every embedded schema. -/
abbrev Schema.IsPlain (s : Schema) : Prop :=
  s.Every (fun s => Tree.Every HasFullKeys Value.IsUnbound s.tree)
    (fun path => "" ∉ pathSegments path)

/-- A leaf of a definition: a schema that is plain, or anything else but a sub-document. -/
def Value.IsDefined : Value → Prop
  | .schema s => s.IsPlain
  | .subDocument _ => False
  | _ => True

theorem Value.IsDefined.isUnbound {v : Value} (h : v.IsDefined) : v.IsUnbound := by
  cases v <;> trivial

/-! ## Fields -/

theorem HasFullKeys.nil : HasFullKeys [] :=
  ⟨⟨List.nodup_nil, fun _ h => nomatch h⟩, nofun⟩

theorem HasFullKeys.put {fields : Fields} (h : HasFullKeys fields) {key : String}
    (hkey : key ≠ "") (hdot : '.' ∉ key.toList) (v : Value) :
    HasFullKeys (Entries.put fields key v) := by
  obtain ⟨⟨hnodup, hdots⟩, hfull⟩ := h
  refine ⟨⟨Entries.nodup_keys_put hnodup key v, fun other hother => ?_⟩, fun hempty => ?_⟩
  · rcases Entries.eq_or_mem_of_mem_keys_put hother with rfl | hother
    · exact hdot
    · exact hdots other hother
  · rcases Entries.eq_or_mem_of_mem_keys_put hempty with heq | hempty
    · exact hkey heq.symm
    · exact hfull hempty

/-- A tree of a definition. -/
abbrev Tree.IsDefined (tree : Fields) : Prop :=
  Tree.Every HasFullKeys Value.IsDefined tree

theorem HasFullKeys.congr {fields other : Fields} (h : HasFullKeys fields)
    (heq : Entries.keys other = Entries.keys fields) : HasFullKeys other := by
  unfold HasFullKeys HasPlainKeys at h ⊢
  rw [heq]
  exact h

/-- The segments of full keys are the keys. -/
theorem HasFullKeys.keysEvery (fields : Fields) (h : HasFullKeys fields) :
    KeysEvery (· ≠ "") fields := by
  intro key hkey segment hsegment heq
  rw [pathSegments_of_not_mem (h.1.2 key hkey), List.mem_singleton] at hsegment
  exact h.2 (heq ▸ hsegment ▸ hkey)

/-- The implicit fields have full keys. -/
theorem admitsImplicit_isDefined : AdmitsImplicit HasFullKeys Value.IsDefined where
  put h key hkey v := by
    have hplain : ∀ key ∈ implicitKeys, key ≠ "" ∧ '.' ∉ key.toList := by decide
    exact h.put (hplain key hkey).1 (hplain key hkey).2 v
  nil := HasFullKeys.nil
  objectId := by simp [HasFullKeys, HasPlainKeys, Entries.keys]
  date := by simp [HasFullKeys, HasPlainKeys, Entries.keys]
  tag _ := trivial
  isAutomatic := trivial
  virtual := trivial

/-! ## Building -/

/-- The schema of a tree with full keys is plain. -/
theorem Schema.isPlain_ofTree {tree : Fields} (h : Tree.IsDefined tree) (options : Fields) :
    (Schema.ofTree tree options).IsPlain := by
  have htree := admitsImplicit_isDefined.every_tree_ofTree h options
  refine Schema.every_iff.mpr ⟨htree.mono (fun _ h => h) fun _ h => h.isUnbound, ?_⟩
  refine ChildrenEvery.of_forall fun c hc => ?_
  obtain ⟨hschema, hpath⟩ := every_of_mem_children HasFullKeys.keysEvery htree c hc
  exact ⟨fun hempty => hpath "" hempty rfl, hschema⟩

/-- Normal forms keep full keys. -/
theorem keptByNormalizing_isDefined : KeptByNormalizing HasFullKeys Value.IsDefined where
  fields h := h.congr (keys_normalizeFields _)
  spec h _ := h.congr (keys_normalizeSpec _)
  tag _ := trivial
  schema h := Schema.isPlain_ofTree h implicitOptions

/-- The schema of a definition with plain keys is plain. -/
theorem Schema.isPlain_build {definition options : Value} {named : Fields} {s : Schema}
    (hdefinition : definition.Every HasFullKeys Value.IsDefined)
    (h : Schema.build definition options named = .ok s) : s.IsPlain := by
  obtain ⟨tree, options, htree, rfl⟩ := Schema.every_of_build keptByNormalizing_isDefined
    admitsImplicit_isDefined hdefinition h
  exact Schema.isPlain_ofTree htree options

/-! ## Registering -/

/-- Registering a function keeps a schema plain. -/
theorem Schema.isPlain_register {s registered : Schema} {role : Role} {fn : Callable}
    {name : Option String} (hs : s.IsPlain) (h : s.register role fn name = .ok registered) :
    registered.IsPlain := by
  obtain ⟨htree, hchildren, -⟩ := Schema.register_eq h
  obtain ⟨hplain, hembedded⟩ := Schema.every_iff.mp hs
  exact Schema.every_iff.mpr ⟨htree ▸ hplain, hchildren ▸ hembedded⟩

/-- Declaring a virtual whose name has no empty segment keeps a schema plain. -/
theorem Schema.isPlain_declareVirtual {s : Schema} {name : String} (hs : s.IsPlain)
    (hname : "" ∉ pathSegments name) (getters setters : List Callable) (declared : Option String) :
    (s.declareVirtual name getters setters declared).IsPlain := by
  obtain ⟨hplain, hembedded⟩ := Schema.every_iff.mp hs
  obtain ⟨hchildren, -, -, htree⟩ := s.declareVirtual_eq name getters setters declared
  refine Schema.every_iff.mpr ⟨?_, hchildren ▸ hembedded⟩
  obtain htree | ⟨v, htree⟩ := htree
  · exact htree ▸ hplain
  · rw [htree]
    exact hplain.setSegments HasFullKeys.nil
      (fun key hkey _ _ _ hfields => hfields.put (fun heq => hname (heq ▸ hkey))
        (not_mem_of_mem_pathSegments hkey) _) (v := .virtual v) trivial

end SchemaTypings
