import SchemaTypings.Model.Patch
import SchemaTypings.Proofs.Editing.Splices

/-!
# Putting known types into a file

`Receives` says which property of a file gets which known type. The patch makes exactly these edits
when the options that it looks at can be read (`patchEdits_eq_none_iff`, `mem_patchEdits`). No two of
them meet: a property stands in one statement (`eq_of_mem_properties`), the names of the statements
tell the models and the roles apart (`Receives.type_unique`), and what is known of a model gives a
name one type. So the text of the patched file is the old one with the types of these properties
replaced (`patch_spliced`).
-/

namespace SchemaTypings

open Declaration

/-! ## Statements of a file -/

namespace Declaration

/-- The first of some statements of which something holds. -/
def IsFirst (P : Statement → Prop) (ss : List Statement) (s : Statement) : Prop :=
  ∃ before after, ss = before ++ s :: after ∧ P s ∧ ∀ t ∈ before, ¬P t

/-- An interface of this name. -/
def Statement.IsInterface (name : String) (s : Statement) : Prop :=
  ∃ isExported properties, s = .interface name isExported properties

/-- An alias of this name. -/
def Statement.IsAlias (name : String) (s : Statement) : Prop :=
  ∃ isExported properties, s = .alias name isExported properties

/-- A module block. -/
def Statement.IsModule (s : Statement) : Prop :=
  ∃ name body, s = .module name body

/-- The statements among which the declarations of the models stand: those of the file, or in an
augmentation those of its first module block, if there is one. -/
inductive IsRoot : Bool → List Statement → List Statement → Prop
  | file (ss : List Statement) : IsRoot false ss ss
  | block {ss body : List Statement} {name : String} :
      IsFirst Statement.IsModule ss (.module name body) → IsRoot true ss body
  | noBlock {ss : List Statement} : (∀ s ∈ ss, ¬s.IsModule) → IsRoot true ss ss

theorem IsFirst.mem {P : Statement → Prop} {ss : List Statement} {s : Statement}
    (h : IsFirst P ss s) : s ∈ ss := by
  obtain ⟨before, after, rfl, -⟩ := h
  simp

/-- What a search that only some statements answer finds first. -/
theorem findSome?_eq_some_iff_isFirst {α : Type} {P : Statement → Prop} {f : Statement → Option α}
    (hf : ∀ s, f s = none ↔ ¬P s) {ss : List Statement} {a : α} :
    ss.findSome? f = some a ↔ ∃ s, IsFirst P ss s ∧ f s = some a := by
  rw [List.findSome?_eq_some_iff]
  constructor
  · rintro ⟨before, s, after, rfl, hs, hbefore⟩
    have hP : P s := by
      by_contra hP
      rw [(hf s).mpr hP] at hs
      exact absurd hs (by simp)
    exact ⟨s, ⟨before, after, rfl, hP, fun t ht => (hf t).mp (hbefore t ht)⟩, hs⟩
  · rintro ⟨s, ⟨before, after, rfl, -, hbefore⟩, hs⟩
    exact ⟨before, s, after, rfl, hs, fun t ht => (hf t).mpr (hbefore t ht)⟩

theorem interface?_eq_some_iff {ss : List Statement} {name : String} {ps : List Property} :
    interface? ss name = some ps ↔
      ∃ isExported, IsFirst (·.IsInterface name) ss (.interface name isExported ps) := by
  rw [interface?, findSome?_eq_some_iff_isFirst (P := (·.IsInterface name))]
  · constructor
    · rintro ⟨s, hs, hps⟩
      obtain ⟨isExported, qs, rfl⟩ : s.IsInterface name := hs.choose_spec.choose_spec.2.1
      obtain rfl : qs = ps := by simpa using hps
      exact ⟨isExported, hs⟩
    · rintro ⟨isExported, hs⟩
      exact ⟨_, hs, by simp⟩
  · intro s
    cases s <;> simp [Statement.IsInterface]

theorem alias?_eq_some_iff {ss : List Statement} {name : String} {ps : Option (List Property)} :
    alias? ss name = some ps ↔
      ∃ isExported, IsFirst (·.IsAlias name) ss (.alias name isExported ps) := by
  rw [alias?, findSome?_eq_some_iff_isFirst (P := (·.IsAlias name))]
  · constructor
    · rintro ⟨s, hs, hps⟩
      obtain ⟨isExported, qs, rfl⟩ : s.IsAlias name := hs.choose_spec.choose_spec.2.1
      obtain rfl : qs = ps := by simpa using hps
      exact ⟨isExported, hs⟩
    · rintro ⟨isExported, hs⟩
      exact ⟨_, hs, by simp⟩
  · intro s
    cases s <;> simp [Statement.IsAlias]

theorem firstModule?_eq_some_iff {ss body : List Statement} {name : String} :
    firstModule? ss = some (name, body) ↔ IsFirst Statement.IsModule ss (.module name body) := by
  rw [firstModule?, findSome?_eq_some_iff_isFirst (P := Statement.IsModule)]
  · constructor
    · rintro ⟨s, hs, hfound⟩
      obtain ⟨name', body', rfl⟩ : s.IsModule := hs.choose_spec.choose_spec.2.1
      obtain ⟨rfl, rfl⟩ : name' = name ∧ body' = body := by simpa using hfound
      exact hs
    · intro hs
      exact ⟨_, hs, by simp⟩
  · intro s
    cases s <;> simp [Statement.IsModule]

theorem firstModule?_eq_none_iff {ss : List Statement} :
    firstModule? ss = none ↔ ∀ s ∈ ss, ¬s.IsModule := by
  rw [firstModule?, List.findSome?_eq_none_iff]
  refine forall₂_congr fun s _ => ?_
  cases s <;> simp [Statement.IsModule]

/-- The root is found where it is said to be. -/
theorem isRoot_root (f : SourceFile) (isAugmented : Bool) :
    IsRoot isAugmented f.statements (f.root isAugmented) := by
  cases isAugmented with
  | false => exact .file f.statements
  | true =>
    rw [SourceFile.root, if_pos rfl]
    cases hmodule : firstModule? f.statements with
    | none => exact .noBlock (firstModule?_eq_none_iff.mp hmodule)
    | some found => exact .block (firstModule?_eq_some_iff.mp hmodule)

/-- The properties of a module block are among those of the file. -/
theorem sublist_allProperties {s : Statement} {ss : List Statement} (h : s ∈ ss) :
    s.properties.Sublist (allProperties ss) := by
  obtain ⟨before, after, rfl⟩ := List.append_of_mem h
  rw [allProperties_append, allProperties]
  exact (List.sublist_append_left _ _).trans (List.sublist_append_right _ _)

/-- The properties of the root are properties of the file. -/
theorem IsRoot.sublist {isAugmented : Bool} {ss root : List Statement}
    (h : IsRoot isAugmented ss root) : (allProperties root).Sublist (allProperties ss) := by
  cases h with
  | file => exact .refl _
  | block hfirst => exact sublist_allProperties hfirst.mem
  | noBlock => exact .refl _

/-- A property stands in one statement. -/
theorem eq_of_mem_properties {ss : List Statement} (h : (allProperties ss).Nodup) {s t : Statement}
    (hs : s ∈ ss) (ht : t ∈ ss) {p : Property} (hps : p ∈ s.properties) (hpt : p ∈ t.properties) :
    s = t := by
  induction ss with
  | nil => exact absurd hs List.not_mem_nil
  | cons u ss ih =>
    obtain ⟨-, hrest, hdisjoint⟩ := List.nodup_append.mp h
    have happart : ∀ v ∈ ss, p ∈ v.properties → p ∉ u.properties := fun v hv hpv hpu =>
      hdisjoint p hpu p ((sublist_allProperties hv).subset hpv) rfl
    obtain hsu | hs := List.mem_cons.mp hs
    · obtain htu | ht := List.mem_cons.mp ht
      · rw [hsu, htu]
      · exact absurd (hsu ▸ hps) (happart t ht hpt)
    · obtain htu | ht := List.mem_cons.mp ht
      · exact absurd (htu ▸ hpt) (happart s hs hps)
      · exact ih hrest hs ht

end Declaration

/-! ## The edits of a patch -/

/-- What is known of a name, when it says something. -/
theorem knownFor?_eq_some_iff {known : List (String × String)} {name s : String} :
    knownFor? known name = some s ↔ known.lookup name = some s ∧ s ≠ "" := by
  rw [knownFor?, Option.filter_eq_some_iff]
  simp

theorem mem_propertyEdits {ps : List Property} {known : List (String × String)}
    {type : String → String} {e : Edit} :
    e ∈ propertyEdits ps known type ↔ ∃ p ∈ ps, ∃ s, known.lookup p.name = some s ∧ s ≠ "" ∧
      e = ⟨p.typeStart, p.typeEnd, type s⟩ := by
  simp only [propertyEdits, List.mem_filterMap, Option.map_eq_some_iff, knownFor?_eq_some_iff,
    and_assoc, eq_comm (b := e)]

/-- The options that a patch looks at, those of the models with known virtuals, can be read. -/
def OptionsReadable (schemas : List (String × Schema)) (known : List (String × KnownTypes)) : Prop :=
  ∀ model types, (model, types) ∈ known → types.virtuals ≠ [] →
    ∀ schema, schemas.lookup model = some schema →
      ∃ included, includesVirtuals schema.options = .ok included

/-- A property among the root statements gets a type, as something is known of it. -/
inductive Receives (root : List Statement) (schemas : List (String × Schema))
    (known : List (String × KnownTypes)) (p : Property) : String → Prop
  /-- The member of the alias of a role that has a known signature. -/
  | function {model s : String} {types : KnownTypes} {isExported : Bool} {ps : List Property}
      (role : Role) : (model, types) ∈ known →
      IsFirst (·.IsAlias (model ++ role.suffix)) root
        (.alias (model ++ role.suffix) isExported (some ps)) → p ∈ ps →
      (types.signatures role).lookup p.name = some s → s ≠ "" →
      Receives root schemas known p (boundSignature s role model)
  /-- The virtual on the document interface. -/
  | document {model s : String} {types : KnownTypes} {isExported : Bool} {ps : List Property} :
      (model, types) ∈ known →
      IsFirst (·.IsInterface (model ++ "Document")) root
        (.interface (model ++ "Document") isExported ps) → p ∈ ps →
      types.virtuals.lookup p.name = some s → s ≠ "" → Receives root schemas known p s
  /-- The virtual on the lean interface, when the plain data holds virtuals. -/
  | lean {model s : String} {types : KnownTypes} {isExported : Bool} {ps : List Property}
      {schema : Schema} : (model, types) ∈ known → schemas.lookup model = some schema →
      includesVirtuals schema.options = .ok true →
      IsFirst (·.IsInterface model) root (.interface model isExported ps) → p ∈ ps →
      types.virtuals.lookup p.name = some s → s ≠ "" → Receives root schemas known p s

section Edits

variable {root : List Statement} {schemas : List (String × Schema)}
  {known : List (String × KnownTypes)}

theorem mem_functionEdits {model : String} {types : KnownTypes} {role : Role} {e : Edit} :
    e ∈ functionEdits root model types role ↔ ∃ isExported ps,
      IsFirst (·.IsAlias (model ++ role.suffix)) root
        (.alias (model ++ role.suffix) isExported (some ps)) ∧
      ∃ p ∈ ps, ∃ s, (types.signatures role).lookup p.name = some s ∧ s ≠ "" ∧
        e = ⟨p.typeStart, p.typeEnd, boundSignature s role model⟩ := by
  unfold functionEdits
  split
  · rename_i ps halias
    rw [mem_propertyEdits]
    constructor
    · intro he
      obtain ⟨isExported, hfirst⟩ := alias?_eq_some_iff.mp halias
      exact ⟨isExported, ps, hfirst, he⟩
    · rintro ⟨isExported, qs, hfirst, he⟩
      rw [alias?_eq_some_iff.mpr ⟨isExported, hfirst⟩] at halias
      exact Option.some.inj (Option.some.inj halias) ▸ he
  · rename_i hnone
    refine iff_of_false List.not_mem_nil ?_
    rintro ⟨isExported, ps, hfirst, -⟩
    exact hnone ps (alias?_eq_some_iff.mpr ⟨isExported, hfirst⟩)

theorem mem_virtualEdits {interface : String} {types : KnownTypes} {e : Edit} :
    e ∈ virtualEdits root interface types ↔ ∃ isExported ps,
      IsFirst (·.IsInterface interface) root (.interface interface isExported ps) ∧
      ∃ p ∈ ps, ∃ s, types.virtuals.lookup p.name = some s ∧ s ≠ "" ∧
        e = ⟨p.typeStart, p.typeEnd, s⟩ := by
  have hedits : e ∈ virtualEdits root interface types ↔
      ∃ ps, interface? root interface = some ps ∧ e ∈ propertyEdits ps types.virtuals id := by
    unfold virtualEdits
    cases interface? root interface with
    | none => simp [propertyEdits]
    | some ps => simp
  simp only [hedits, interface?_eq_some_iff, mem_propertyEdits, id]
  constructor
  · rintro ⟨ps, ⟨isExported, hfirst⟩, he⟩
    exact ⟨isExported, ps, hfirst, he⟩
  · rintro ⟨isExported, ps, hfirst, he⟩
    exact ⟨ps, ⟨isExported, hfirst⟩, he⟩

/-- Where no signature of a role is known, no member of the role gets a type. -/
theorem functionEdits_eq_nil {model : String} {types : KnownTypes} {role : Role}
    (h : types.signatures role = []) : functionEdits root model types role = [] := by
  refine List.eq_nil_iff_forall_not_mem.mpr fun e he => ?_
  obtain ⟨_, _, -, _, -, _, hs, -⟩ := mem_functionEdits.mp he
  simp [h] at hs

/-- Where no virtual is known, none gets a type. -/
theorem virtualEdits_eq_nil {interface : String} {types : KnownTypes} (h : types.virtuals = []) :
    virtualEdits root interface types = [] := by
  refine List.eq_nil_iff_forall_not_mem.mpr fun e he => ?_
  obtain ⟨_, _, -, _, -, _, hs, -⟩ := mem_virtualEdits.mp he
  simp [h] at hs

/-- The edits for a model fail when the options of its schema are looked at and cannot be read. -/
theorem modelEdits_eq_none_iff {model : String} {types : KnownTypes} :
    (modelEdits root schemas model types).2 = none ↔
      (types.virtuals ≠ [] → ∀ schema, schemas.lookup model = some schema →
        ∃ included, includesVirtuals schema.options = .ok included) := by
  unfold modelEdits
  split_ifs with hempty
  · simp [List.isEmpty_iff.mp hempty]
  · rw [List.isEmpty_iff] at hempty
    cases schemas.lookup model with
    | none => simp
    | some schema =>
      cases hincludes : includesVirtuals schema.options with
      | ok included => cases included <;> simp [hincludes]
      | error e => simp [hempty, hincludes]

/-- The edits for a model whose options can be read. -/
theorem mem_modelEdits {model : String} {types : KnownTypes}
    (h : (modelEdits root schemas model types).2 = none) {e : Edit} :
    e ∈ (modelEdits root schemas model types).1 ↔
      (∃ role, e ∈ functionEdits root model types role) ∨
      e ∈ virtualEdits root (model ++ "Document") types ∨
      ∃ schema, schemas.lookup model = some schema ∧ includesVirtuals schema.options = .ok true ∧
        e ∈ virtualEdits root model types := by
  have hroles : (∃ role, e ∈ functionEdits root model types role) ↔
      e ∈ [Role.methods, .statics, .query].flatMap (functionEdits root model types) := by
    constructor
    · rintro ⟨role, he⟩
      exact List.mem_flatMap.mpr ⟨role, by cases role <;> simp, he⟩
    · intro he
      obtain ⟨role, -, he⟩ := List.mem_flatMap.mp he
      exact ⟨role, he⟩
  rw [hroles]
  unfold modelEdits at h ⊢
  by_cases hempty : types.virtuals = []
  · simp [hempty, virtualEdits_eq_nil]
  · rw [if_neg (by simpa using hempty)] at h ⊢
    cases hschema : schemas.lookup model with
    | none => simp [or_assoc]
    | some schema =>
      cases hincludes : includesVirtuals schema.options with
      | error _ => simp [hschema, hincludes] at h
      | ok included => cases included <;> simp [hincludes, or_assoc]

/-- A patch is made to the end when the options that it looks at can be read. -/
theorem patchEdits_eq_none_iff :
    (patchEdits root schemas known).2 = none ↔ OptionsReadable schemas known := by
  induction known with
  | nil => simp [patchEdits, OptionsReadable]
  | cons entry rest ih =>
    obtain ⟨model, types⟩ := entry
    have hcons : OptionsReadable schemas ((model, types) :: rest) ↔
        (modelEdits root schemas model types).2 = none ∧ OptionsReadable schemas rest := by
      rw [modelEdits_eq_none_iff]
      unfold OptionsReadable
      constructor
      · exact fun h => ⟨h model types List.mem_cons_self,
          fun m t hmem => h m t (List.mem_cons_of_mem _ hmem)⟩
      · rintro ⟨hfirst, hrest⟩ m t hmem
        obtain heq | hmem := List.mem_cons.mp hmem
        · obtain ⟨rfl, rfl⟩ := Prod.mk.inj heq
          exact hfirst
        · exact hrest m t hmem
    rw [hcons, ← ih, patchEdits]
    generalize modelEdits root schemas model types = edits
    obtain ⟨edits, _ | e⟩ := edits <;> simp

/-- The edits of a patch that is made to the end are those of its models. -/
theorem mem_patchEdits_iff_mem_modelEdits (h : (patchEdits root schemas known).2 = none) {e : Edit} :
    e ∈ (patchEdits root schemas known).1 ↔
      ∃ model types, (model, types) ∈ known ∧ e ∈ (modelEdits root schemas model types).1 := by
  induction known with
  | nil => simp [patchEdits]
  | cons entry rest ih =>
    obtain ⟨model, types⟩ := entry
    rw [patchEdits] at h ⊢
    cases hedits : modelEdits root schemas model types with
    | mk edits failure =>
      rw [hedits] at h
      obtain _ | failure := failure
      · simp only [List.mem_append, ih h, List.mem_cons, Prod.mk.injEq, or_and_right, exists_or]
        simp [hedits]
      · simp at h

/-- The edits of a patch are those that give each property what it receives. -/
theorem mem_patchEdits (h : OptionsReadable schemas known) {e : Edit} :
    e ∈ (patchEdits root schemas known).1 ↔
      ∃ p type, Receives root schemas known p type ∧ e = ⟨p.typeStart, p.typeEnd, type⟩ := by
  rw [mem_patchEdits_iff_mem_modelEdits (patchEdits_eq_none_iff.mpr h)]
  constructor
  · rintro ⟨model, types, hknown, he⟩
    obtain ⟨role, he⟩ | he | ⟨schema, hschema, hincludes, he⟩ :=
      (mem_modelEdits (modelEdits_eq_none_iff.mpr (h model types hknown))).mp he
    · obtain ⟨isExported, ps, hfirst, p, hp, s, hs, hne, rfl⟩ := mem_functionEdits.mp he
      exact ⟨p, _, .function role hknown hfirst hp hs hne, rfl⟩
    · obtain ⟨isExported, ps, hfirst, p, hp, s, hs, hne, rfl⟩ := mem_virtualEdits.mp he
      exact ⟨p, _, .document hknown hfirst hp hs hne, rfl⟩
    · obtain ⟨isExported, ps, hfirst, p, hp, s, hs, hne, rfl⟩ := mem_virtualEdits.mp he
      exact ⟨p, _, .lean hknown hschema hincludes hfirst hp hs hne, rfl⟩
  · rintro ⟨p, type, hreceives, rfl⟩
    have hmem {model : String} {types : KnownTypes} (hknown : (model, types) ∈ known) :=
      have hnone : (modelEdits root schemas model types).2 = none :=
        modelEdits_eq_none_iff.mpr (h model types hknown)
      mem_modelEdits (e := ⟨p.typeStart, p.typeEnd, type⟩) hnone
    cases hreceives with
    | function role hknown hfirst hp hs hne =>
      have he := mem_functionEdits.mpr ⟨_, _, hfirst, p, hp, _, hs, hne, rfl⟩
      exact ⟨_, _, hknown, (hmem hknown).mpr (.inl ⟨role, he⟩)⟩
    | document hknown hfirst hp hs hne =>
      have he := mem_virtualEdits.mpr ⟨_, _, hfirst, p, hp, _, hs, hne, rfl⟩
      exact ⟨_, _, hknown, (hmem hknown).mpr (.inr (.inl he))⟩
    | lean hknown hschema hincludes hfirst hp hs hne =>
      have he := mem_virtualEdits.mpr ⟨_, _, hfirst, p, hp, _, hs, hne, rfl⟩
      exact ⟨_, _, hknown, (hmem hknown).mpr (.inr (.inr ⟨_, hschema, hincludes, he⟩))⟩

end Edits

/-! ## The patched text -/

/-- The endings of the aliases are as long as each other. -/
theorem Role.suffix_length (role : Role) : role.suffix.length = 7 := by
  cases role <;> rfl

/-- The ending tells the role. -/
theorem Role.suffix_injective {role role' : Role} (h : role.suffix = role'.suffix) :
    role = role' := by
  cases role <;> cases role' <;> first | rfl | exact absurd h (by decide)

/-- The name of an alias tells the model and the role. -/
theorem alias_name_injective {model model' : String} {role role' : Role}
    (h : model ++ role.suffix = model' ++ role'.suffix) : model = model' ∧ role = role' := by
  have hlist := congrArg String.toList h
  rw [String.toList_append, String.toList_append] at hlist
  have hlength : role.suffix.toList.length = role'.suffix.toList.length := by
    rw [String.length_toList, String.length_toList, role.suffix_length, role'.suffix_length]
  obtain ⟨hmodel, hrole⟩ := List.append_inj' hlist hlength
  exact ⟨String.toList_injective hmodel, Role.suffix_injective (String.toList_injective hrole)⟩

section Patched

variable {root : List Statement} {schemas : List (String × Schema)}
  {known : List (String × KnownTypes)}

/-- What receives a type is a property of the root. -/
theorem Receives.mem {p : Property} {type : String} (h : Receives root schemas known p type) :
    p ∈ allProperties root := by
  cases h with
  | function role hknown hfirst hp hs hne =>
    exact (sublist_allProperties hfirst.mem).subset hp
  | document hknown hfirst hp hs hne =>
    exact (sublist_allProperties hfirst.mem).subset hp
  | lean hknown hschema hincludes hfirst hp hs hne =>
    exact (sublist_allProperties hfirst.mem).subset hp

/-- A member of an alias gets the signature that is known of the model and the role in the name of
the alias. -/
theorem Receives.of_alias (hproperties : (allProperties root).Nodup) {p : Property} {type : String}
    (h : Receives root schemas known p type) {name : String} {isExported : Bool}
    {ps : List Property} (hmem : .alias name isExported (some ps) ∈ root) (hp : p ∈ ps) :
    ∃ model types role s, name = model ++ role.suffix ∧ (model, types) ∈ known ∧
      (types.signatures role).lookup p.name = some s ∧ type = boundSignature s role model := by
  have hsame : ∀ {t : Statement}, t ∈ root → p ∈ t.properties →
      .alias name isExported (some ps) = t := fun ht hpt =>
    eq_of_mem_properties hproperties hmem ht hp hpt
  cases h with
  | function role hknown hfirst hp' hs =>
    exact ⟨_, _, role, _, (Statement.alias.inj (hsame hfirst.mem hp')).1, hknown, hs, rfl⟩
  | document hknown hfirst hp' => exact absurd (hsame hfirst.mem hp') (by simp)
  | lean hknown hschema hincludes hfirst hp' => exact absurd (hsame hfirst.mem hp') (by simp)

/-- A member of an interface gets what is known of the virtuals of the model that the interface is
named after. -/
theorem Receives.of_interface (hproperties : (allProperties root).Nodup) {p : Property}
    {type : String} (h : Receives root schemas known p type) {name : String} {isExported : Bool}
    {ps : List Property} (hmem : .interface name isExported ps ∈ root) (hp : p ∈ ps) :
    ∃ model types, (name = model ++ "Document" ∨ name = model) ∧ (model, types) ∈ known ∧
      types.virtuals.lookup p.name = some type ∧ type ≠ "" := by
  have hsame : ∀ {t : Statement}, t ∈ root → p ∈ t.properties →
      .interface name isExported ps = t := fun ht hpt =>
    eq_of_mem_properties hproperties hmem ht hp hpt
  cases h with
  | function role hknown hfirst hp' => exact absurd (hsame hfirst.mem hp') (by simp)
  | document hknown hfirst hp' hs hne =>
    exact ⟨_, _, .inl (Statement.interface.inj (hsame hfirst.mem hp')).1, hknown, hs, hne⟩
  | lean hknown hschema hincludes hfirst hp' hs hne =>
    exact ⟨_, _, .inr (Statement.interface.inj (hsame hfirst.mem hp')).1, hknown, hs, hne⟩

/-- The statement that a property of a model's declarations stands in tells the model. -/
theorem Receives.type_unique (hnodup : (known.map Prod.fst).Nodup)
    (hnames : ∀ model ∈ known.map Prod.fst, model ++ "Document" ∉ known.map Prod.fst)
    (hproperties : (allProperties root).Nodup) {p : Property} {type type' : String}
    (h : Receives root schemas known p type) (h' : Receives root schemas known p type') :
    type = type' := by
  have htypes : ∀ {model types types'}, (model, types) ∈ known → (model, types') ∈ known →
      types = types' := fun hm hm' => (Prod.mk.inj (List.inj_on_of_nodup_map hnodup hm hm' rfl)).2
  have hkey : ∀ {model types}, (model, types) ∈ known → model ∈ known.map Prod.fst := fun hm =>
    List.mem_map_of_mem (f := Prod.fst) hm
  cases h with
  -- the name of an alias tells the model and the role
  | function role hknown hfirst hp hs hne =>
    obtain ⟨_, _, _, _, hname, hknown', hs', rfl⟩ := h'.of_alias hproperties hfirst.mem hp
    obtain ⟨rfl, rfl⟩ := alias_name_injective hname
    rw [htypes hknown hknown', hs'] at hs
    rw [Option.some.inj hs]
  -- the interface of a document could only be the lean one of a model that is named like it
  | document hknown hfirst hp hs hne =>
    obtain ⟨_, _, hname | hname, hknown', hs', -⟩ := h'.of_interface hproperties hfirst.mem hp
    · obtain rfl := (String.append_left_inj "Document").mp hname
      rw [htypes hknown hknown', hs'] at hs
      exact (Option.some.inj hs).symm
    · exact absurd (hname ▸ hkey hknown') (hnames _ (hkey hknown))
  | lean hknown hschema hincludes hfirst hp hs hne =>
    obtain ⟨_, _, hname | hname, hknown', hs', -⟩ := h'.of_interface hproperties hfirst.mem hp
    · exact absurd (hname ▸ hkey hknown) (hnames _ (hkey hknown'))
    · obtain rfl := hname
      rw [htypes hknown hknown', hs'] at hs
      exact (Option.some.inj hs).symm

end Patched

/-- Patching a file succeeds when the options of the models with known virtuals can be read. Its
text is then the old one in which exactly the types of the properties that receive one are
replaced. -/
theorem patch_spliced (text : String) (file : SourceFile) (hfile : SourceFile.ofText text = .ok file)
    (schemas : List (String × Schema)) (known : List (String × KnownTypes)) (isAugmented : Bool)
    (hnodup : (known.map Prod.fst).Nodup)
    (hnames : ∀ model ∈ known.map Prod.fst, model ++ "Document" ∉ known.map Prod.fst) :
    ((patch file known schemas isAugmented).2 = none ↔ OptionsReadable schemas known) ∧
    (OptionsReadable schemas known → ∃ root es, IsRoot isAugmented file.statements root ∧
      (∀ e, e ∈ es ↔
        ∃ p type, Receives root schemas known p type ∧ e = ⟨p.typeStart, p.typeEnd, type⟩) ∧
      Spliced 0 text.toList es (patch file known schemas isAugmented).1.fullText.toList) := by
  refine ⟨patchEdits_eq_none_iff, fun hreadable => ?_⟩
  obtain ⟨d, hd, rfl⟩ := (ofText_eq_ok_iff text file).mp hfile
  have hyield : d.yield = place 0 1 (pieces text.toList) :=
    ((derive_eq_ok_iff text d).mp hd).1.trans (tokens_eq_place text)
  have hroot := isRoot_root ⟨text, [], d.statements⟩ isAugmented
  generalize hrootEq : SourceFile.root ⟨text, [], d.statements⟩ isAugmented = root at hroot
  have hproperties : (allProperties root).Nodup :=
    (Statements.nodup_allProperties hyield).sublist hroot.sublist
  have hmem : ∀ {p type}, Receives root schemas known p type → p ∈ allProperties d.statements :=
    fun h => hroot.sublist.subset h.mem
  have hedits : ∀ e, e ∈ (patchEdits root schemas known).1 ↔
      ∃ p type, Receives root schemas known p type ∧ e = ⟨p.typeStart, p.typeEnd, type⟩ :=
    fun e => mem_patchEdits hreadable
  -- two edits that begin at one place give one property its one type
  obtain ⟨es, hfold, hes, hsorted⟩ := foldl_replaceSpan (patchEdits root schemas known).1
    (f := ⟨text, [], d.statements⟩) .nil (by
      intro e g he hg heq
      simp only [List.not_mem_nil, or_false, hedits] at he hg
      obtain ⟨p, type, hp, rfl⟩ := he
      obtain ⟨q, type', hq, rfl⟩ := hg
      obtain rfl := Statements.eq_of_typeStart_eq hyield (hmem hp) (hmem hq) heq
      rw [hp.type_unique hnodup hnames hproperties hq])
  simp only [List.not_mem_nil, or_false, hedits] at hes
  refine ⟨root, es, hroot, hes, ?_⟩
  have hpatched : (patch ⟨text, [], d.statements⟩ known schemas isAugmented).1 =
      ⟨text, es, d.statements⟩ := by
    rw [patch, hrootEq]
    exact hfold
  rw [hpatched, SourceFile.fullText, String.toList_ofList]
  refine Statements.spliced hyield hsorted fun e he => ?_
  obtain ⟨p, type, hp, rfl⟩ := (hes e).mp he
  exact ⟨p, hmem hp, rfl, rfl⟩

theorem tokens_patched :
    tokens "declare module 'm' \x7btype UMethods = \x7bf: a\x7d interface U \x7bv?: b\x7d\x7d" =
      [⟨.declareWord, "declare", 1, 0⟩, ⟨.moduleWord, "module", 1, 8⟩, ⟨.string, "'m'", 1, 15⟩,
        ⟨.leftBrace, "\x7b", 1, 19⟩, ⟨.typeWord, "type", 1, 20⟩, ⟨.identifier, "UMethods", 1, 25⟩,
        ⟨.equals, "=", 1, 34⟩, ⟨.leftBrace, "\x7b", 1, 36⟩, ⟨.identifier, "f", 1, 37⟩,
        ⟨.colon, ":", 1, 38⟩, ⟨.identifier, "a", 1, 40⟩, ⟨.rightBrace, "\x7d", 1, 41⟩,
        ⟨.interfaceWord, "interface", 1, 43⟩, ⟨.identifier, "U", 1, 53⟩,
        ⟨.leftBrace, "\x7b", 1, 55⟩, ⟨.identifier, "v", 1, 56⟩, ⟨.question, "?", 1, 57⟩,
        ⟨.colon, ":", 1, 58⟩, ⟨.identifier, "b", 1, 60⟩, ⟨.rightBrace, "\x7d", 1, 61⟩,
        ⟨.rightBrace, "\x7d", 1, 62⟩] := by
  decide

/-- An augmentation in which a method and a virtual of the plain data get their known types. -/
theorem patch_spliced_augmentation :
    ∃ file, SourceFile.ofText
        "declare module 'm' \x7btype UMethods = \x7bf: a\x7d interface U \x7bv?: b\x7d\x7d" = .ok file ∧
      ∃ schema : Schema, ∃ types : KnownTypes, OptionsReadable [("U", schema)] [("U", types)] ∧
        (patch file [("U", types)] [("U", schema)] true).1.fullText =
          "declare module 'm' \x7btype UMethods = \x7bf: (this: UDocument, x) => y\x7d " ++
            "interface U \x7bv?: string\x7d\x7d" ∧
        ∃ root es, IsRoot true file.statements root ∧
          (∀ e, e ∈ es ↔ ∃ p type, Receives root [("U", schema)] [("U", types)] p type ∧
            e = ⟨p.typeStart, p.typeEnd, type⟩) ∧
          Spliced 0 file.text.toList es
            (patch file [("U", types)] [("U", schema)] true).1.fullText.toList := by
  let text := "declare module 'm' \x7btype UMethods = \x7bf: a\x7d interface U \x7bv?: b\x7d\x7d"
  let file : SourceFile := ⟨text, [], [.module "m" [.alias "UMethods" false (some [⟨"f", false, 40, 41⟩]),
    .interface "U" false [⟨"v", true, 60, 61⟩]]]⟩
  let schema : Schema :=
    { (default : Schema) with options := [("to_object", .dict [("virtuals", .bool true)])] }
  let types : KnownTypes := ⟨[("f", "(x) => y")], [], [], [("v", "string")]⟩
  have hfile : SourceFile.ofText text = .ok file := by
    unfold SourceFile.ofText parse
    rw [tokens_patched]
    rfl
  have hreadable : OptionsReadable [("U", schema)] [("U", types)] := by
    intro model known hknown hvirtuals s hs
    obtain ⟨rfl, rfl⟩ : model = "U" ∧ known = types := by simpa using hknown
    obtain rfl : schema = s := by simpa using hs
    exact ⟨true, rfl⟩
  refine ⟨file, hfile, schema, types, hreadable, by decide +kernel, ?_⟩
  exact (patch_spliced text file hfile [("U", schema)] [("U", types)] true (by simp)
    (by simp)).2 hreadable

end SchemaTypings
