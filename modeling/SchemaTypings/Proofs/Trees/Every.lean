import SchemaTypings.Proofs.Trees.Flattening

/-!
# What holds all over a tree

A property of all dictionaries and leaves of a tree passes to what is looked up in it, and stays
when a value with the property is put or set in it.
-/

namespace SchemaTypings

variable {D : Fields → Prop} {P : Value → Prop}

variable {E : Fields → Prop} {Q : Value → Prop}

mutual
/-- Weaker properties hold all over a value as well. -/
theorem Value.Every.mono (hD : ∀ fields, D fields → E fields) (hP : ∀ v, P v → Q v) :
    ∀ v : Value, v.Every D P → v.Every E Q
  | .dict fields, h => ⟨hD fields h.1, FieldsEvery.mono hD hP fields h.2⟩
  | .list items, h => ItemsEvery.mono hD hP items h
  | .null, h | .bool _, h | .int _, h | .real _, h | .text _, h | .tuple _, h | .type _, h
  | .tag _, h | .schema _, h | .model _ _, h | .virtual _, h | .subDocument _, h => hP _ h
  termination_by structural v => v

theorem ItemsEvery.mono (hD : ∀ fields, D fields → E fields) (hP : ∀ v, P v → Q v) :
    ∀ items : List Value, ItemsEvery D P items → ItemsEvery E Q items
  | [], _ => trivial
  | v :: rest, h => ⟨Value.Every.mono hD hP v h.1, ItemsEvery.mono hD hP rest h.2⟩
  termination_by structural items => items

theorem FieldsEvery.mono (hD : ∀ fields, D fields → E fields) (hP : ∀ v, P v → Q v) :
    ∀ fields : List (String × Value), FieldsEvery D P fields → FieldsEvery E Q fields
  | [], _ => trivial
  | (_, v) :: rest, h => ⟨Value.Every.mono hD hP v h.1, FieldsEvery.mono hD hP rest h.2⟩
  termination_by structural fields => fields
end

theorem FieldsEvery.of_mem {fields : Fields} (h : FieldsEvery D P fields) {key : String} {v : Value}
    (hv : (key, v) ∈ fields) : v.Every D P := by
  induction fields with
  | nil => simp at hv
  | cons field rest ih =>
    rcases List.mem_cons.mp hv with heq | hv
    · subst heq
      exact h.1
    · exact ih h.2 hv

theorem FieldsEvery.of_lookup {fields : Fields} (h : FieldsEvery D P fields) {key : String}
    {v : Value} (hv : fields.lookup key = some v) : v.Every D P :=
  h.of_mem (mem_of_lookup hv)

theorem FieldsEvery.put {fields : Fields} (h : FieldsEvery D P fields) (key : String) {v : Value}
    (hv : v.Every D P) : FieldsEvery D P (Entries.put fields key v) := by
  induction fields with
  | nil => exact ⟨hv, trivial⟩
  | cons field rest ih =>
    obtain ⟨k, old⟩ := field
    rw [Entries.put]
    split
    · exact ⟨hv, h.2⟩
    · exact ⟨h.1, ih h.2⟩

theorem ItemsEvery.headD {items : List Value} (h : ItemsEvery D P items) {v : Value}
    (hv : v.Every D P) : (items.headD v).Every D P := by
  cases items with
  | nil => exact hv
  | cons first rest => exact h.1

namespace Tree

theorem Every.mono {tree : Fields} (hD : ∀ fields, D fields → E fields) (hP : ∀ v, P v → Q v)
    (h : Every D P tree) : Every E Q tree :=
  ⟨hD tree h.1, FieldsEvery.mono hD hP tree h.2⟩

theorem Every.below {tree : Fields} (hnil : D []) (h : Every D P tree) (key : String) :
    Every D P (below tree key) := by
  unfold Tree.below
  split
  · next fields hfields => exact h.2.of_lookup hfields
  · exact ⟨hnil, trivial⟩

/-- Setting a value at segments keeps a property of all of the tree that putting the value under the
last of them, or a dictionary under any, keeps. -/
theorem Every.setSegments {tree : Fields} (h : Every D P tree) (hnil : D []) {path : List String}
    {v : Value} (hput : ∀ key ∈ path, ∀ fields w,
      (w = v ∧ path.getLast? = some key ∨ ∃ inner, w = .dict inner) → D fields →
        D (Entries.put fields key w))
    (hv : v.Every D P) : Every D P (setSegments tree path v) := by
  induction path generalizing tree with
  | nil => exact h
  | cons part rest ih =>
    have hpart := hput part (List.mem_cons_self ..)
    cases rest with
    | nil => exact ⟨hpart _ _ (.inl ⟨rfl, rfl⟩) h.1, h.2.put part hv⟩
    | cons next rest =>
      have hinner := ih (h.below hnil part) fun key hkey fields w hw =>
        hput key (List.mem_cons_of_mem _ hkey) fields w
          (hw.imp_left fun ⟨hw, hlast⟩ => ⟨hw, List.getLast?_cons_cons.trans hlast⟩)
      exact ⟨hpart _ _ (.inr ⟨_, rfl⟩) h.1, h.2.put part hinner⟩

end Tree

/-! ## Reading fields -/

namespace Field

/-- Properties of dictionaries that hold of what a field is read as: a type makes a specification of
its own, and the specification of an array takes its type, and more, from that of its elements. -/
structure KeptByReading (D : Fields → Prop) : Prop where
  ofType : ∀ v, D [("type", v)]
  putType : ∀ {fields}, D fields → ∀ v, D (Entries.put fields "type" v)
  inherit : ∀ {inner fields}, D inner → D fields → ∀ key ∈ ["type", "ref", "enum", "of"],
    D (inherit inner fields key)

theorem keptByReading_true : KeptByReading fun _ => True :=
  ⟨fun _ => trivial, fun _ _ => trivial, fun _ _ _ _ => trivial⟩

/-- What a field comes down to has the properties that all of its value has. -/
def TargetEvery (D : Fields → Prop) (P : Value → Prop) : Target → Prop
  | .subDocument d => P (.subDocument d)
  | .virtual => True
  | .fields fields => Tree.Every D P fields

variable (hD : KeptByReading D)

include hD

theorem targetEvery_of_targetOf {v : Value} (hv : v.Every D P) {target : Target}
    (h : targetOf v = some target) : TargetEvery D P target := by
  have hbare : ∀ w : Value, w.Every D P → TargetEvery D P (.fields [("type", w)]) :=
    fun w hw => ⟨hD.ofType w, hw, trivial⟩
  cases v with
  | dict fields =>
    obtain rfl : Target.fields fields = target := by simpa [targetOf] using h
    exact hv
  | subDocument d =>
    obtain rfl : Target.subDocument d = target := by simpa [targetOf] using h
    exact hv
  | virtual w =>
    obtain rfl : Target.virtual = target := by simpa [targetOf] using h
    trivial
  | null => simp [targetOf] at h
  | schema s => simp [targetOf] at h
  | _ =>
    simp only [targetOf, Option.some.injEq] at h
    subst h
    exact hbare _ hv

theorem targetEvery_of_ofValue (hmixed : P (.tag .mixed)) {isArray isOptional : Bool} {v : Value}
    (hv : v.Every D P) {target : Target}
    (h : (ofValue isArray isOptional v).target = some target) : TargetEvery D P target := by
  unfold ofValue at h
  split at h
  · next fields hfields =>
    have hall := targetEvery_of_targetOf hD hv hfields
    split at h
    · -- a map comes down to its values
      refine targetEvery_of_targetOf hD ?_ h
      cases hof : fields.lookup "of" with
      | none => exact hmixed
      | some w => exact hall.2.of_lookup hof
    · obtain rfl : Target.fields fields = target := by simpa using h
      exact hall
  · exact targetEvery_of_targetOf hD hv h

theorem every_inherit {inner fields : Fields} (hinner : Tree.Every D P inner)
    (h : Tree.Every D P fields) (key : String) (hkey : key ∈ ["type", "ref", "enum", "of"]) :
    Tree.Every D P (inherit inner fields key) := by
  refine ⟨hD.inherit hinner.1 h.1 key hkey, ?_⟩
  unfold inherit
  split
  · next v hv => exact h.2.put key (hinner.2.of_lookup hv)
  · exact h.2

theorem every_mergeElement {inner fields : Fields} (hinner : Tree.Every D P inner)
    (h : Tree.Every D P fields) : Tree.Every D P (mergeElement fields inner) := by
  have htype := every_inherit hD hinner h "type" (by simp)
  have href := every_inherit hD hinner htype "ref" (by simp)
  have henum := every_inherit hD hinner href "enum" (by simp)
  exact every_inherit hD hinner henum "of" (by simp)

/-- What a field comes down to has the properties that all of its value has. -/
theorem targetEvery_of_read (hmixed : P (.tag .mixed)) {v : Value} (hv : v.Every D P)
    {target : Target} (h : (read v).target = some target) : TargetEvery D P target := by
  cases v with
  | list items =>
    exact targetEvery_of_ofValue hD hmixed (ItemsEvery.headD hv (v := .tag .mixed) hmixed) h
  | dict fields =>
    simp only [read] at h
    split at h
    · next elements helements =>
      -- an array with a specification is read with the specification of its elements
      have helement := ItemsEvery.headD (hv.2.of_lookup helements) (v := .tag .mixed) hmixed
      unfold ofElements at h
      generalize elements.headD (.tag .mixed) = element at h helement
      have hput : Tree.Every D P (Entries.put fields "type" element) :=
        ⟨hD.putType hv.1 element, hv.2.put "type" helement⟩
      cases element with
      | dict inner =>
        simp only at h
        split at h
        · exact targetEvery_of_ofValue hD hmixed (v := .dict _)
            (every_mergeElement hD helement hput) h
        · exact targetEvery_of_ofValue hD hmixed (v := .dict _) hput h
      | _ => exact targetEvery_of_ofValue hD hmixed (v := .dict _) hput h
    · exact targetEvery_of_ofValue hD hmixed hv h
  | _ => exact targetEvery_of_ofValue hD hmixed hv h

/-- So have the fields of the nested object that it comes down to, if there are any. -/
theorem every_body (hmixed : P (.tag .mixed)) {v : Value} (hv : v.Every D P)
    (hne : (read v).body ≠ []) : Tree.Every D P (read v).body := by
  unfold body at hne ⊢
  split at hne
  · next fields hfields =>
    split at hne
    · contradiction
    · next hspec =>
      rw [if_neg hspec]
      exact targetEvery_of_read hD hmixed hv hfields
  · contradiction

end Field

end SchemaTypings
