import SchemaTypings.Interface
import SchemaTypings.Proofs.Trees.Flattening

/-!
# Binding is setting at paths

The embedded schemas of a schema are bound in the flat form of its tree, one after the other, and
the flat form is made a tree again at the end. The result is what setting each sub-document at its
path in the tree itself gives: `boundTree_induction` carries whatever such a step preserves from
the tree of a schema to its bound tree.

A flat form may hold a path together with one above it, when a virtual was declared in the way of an
embedded schema. The one above then comes first, and that is all that replacing a path needs: no
path is at or above an earlier one.
-/

namespace SchemaTypings

namespace Tree

/-- No list of segments begins an earlier one. -/
def IsOrdered (values : List (List String × Value)) : Prop :=
  values.Pairwise fun e later => ¬ later.1 <+: e.1

mutual
/-- The leaves of a value are in no one's way. -/
theorem isOrdered_valueLeaves :
    ∀ v : Value, v.Every HasPlainKeys (fun _ => True) → IsOrdered (valueLeaves v)
  | .dict (field :: fields), hv => isOrdered_leaves (field :: fields) hv
  | .dict [], _ | .null, _ | .bool _, _ | .int _, _ | .real _, _ | .text _, _ | .list _, _
  | .tuple _, _ | .type _, _ | .tag _, _ | .schema _, _ | .model _ _, _ | .virtual _, _
  | .subDocument _, _ => List.pairwise_singleton ..
  termination_by structural v => v

theorem isOrdered_leaves :
    ∀ fields : List (String × Value), IsPlain fields → IsOrdered (leaves fields)
  | [], _ => List.Pairwise.nil
  | (key, v) :: rest, ⟨⟨hnodup, hdots⟩, hv, hrest⟩ => by
    simp only [Entries.keys, List.map_cons, List.nodup_cons] at hnodup
    have hplain' : IsPlain rest :=
      ⟨⟨hnodup.2, fun k hk => hdots k (List.mem_cons_of_mem _ hk)⟩, hrest⟩
    refine List.pairwise_append.mpr ⟨?_, isOrdered_leaves rest hplain', ?_⟩
    · refine List.pairwise_map.mpr ((isOrdered_valueLeaves v hv).imp fun h => ?_)
      simpa using h
    · -- the leaves of the rest stand under other keys
      rintro _ he later hlater
      obtain ⟨e, -, rfl⟩ := List.mem_map.mp he
      obtain ⟨k, hk, hhead⟩ := exists_key_of_mem_leaves hlater
      intro hbegins
      have hkey : k = key := by
        obtain ⟨segments, hsegments⟩ := hhead
        rw [hsegments] at hbegins
        exact (List.cons_prefix_cons.mp hbegins).1
      exact hnodup.1 (hkey ▸ hk)
  termination_by structural fields => fields
end

/-! ## Replacing -/

/-- The values with all at or under some segments replaced by one, at the place of the first of them
or behind all. -/
def replaced (path : List String) (v : Value) :
    List (List String × Value) → List (List String × Value)
  | [] => [(path, v)]
  | e :: rest =>
    if path <+: e.1 then (path, v) :: rest.filter (¬ path <+: ·.1)
    else e :: replaced path v rest

/-- What is among the values after replacing was there, and is not replaced, or is new. -/
theorem mem_replaced {path : List String} {v : Value} {values : List (List String × Value)}
    {e : List String × Value} (h : e ∈ replaced path v values) :
    e = (path, v) ∨ e ∈ values ∧ ¬ path <+: e.1 := by
  induction values with
  | nil => exact .inl (List.mem_singleton.mp h)
  | cons first rest ih =>
    rw [replaced] at h
    split at h
    · rcases List.mem_cons.mp h with rfl | h
      · exact .inl rfl
      · rw [List.mem_filter, decide_eq_true_iff] at h
        exact .inr ⟨List.mem_cons_of_mem _ h.1, h.2⟩
    · next hfirst =>
      rcases List.mem_cons.mp h with rfl | h
      · exact .inr ⟨List.mem_cons_self .., hfirst⟩
      · exact (ih h).imp_right fun h => ⟨List.mem_cons_of_mem _ h.1, h.2⟩

/-- Replacing keeps the order. -/
theorem IsOrdered.replaced {values : List (List String × Value)} (h : IsOrdered values)
    (path : List String) (v : Value) : IsOrdered (replaced path v values) := by
  induction values with
  | nil => exact List.pairwise_singleton ..
  | cons e rest ih =>
    obtain ⟨he, hrest⟩ := List.pairwise_cons.mp h
    rw [Tree.replaced]
    split
    · next hpath =>
      refine List.pairwise_cons.mpr ⟨fun later hlater hbegins => ?_, hrest.filter _⟩
      exact he later (List.mem_filter.mp hlater).1 (hbegins.trans hpath)
    · next hpath =>
      refine List.pairwise_cons.mpr ⟨fun later hlater => ?_, ih hrest⟩
      rcases mem_replaced hlater with rfl | ⟨hlater, -⟩
      · exact hpath
      · exact he later hlater

/-- Behind a value that is set at or under a path, the values that go do not matter to what is set
at the path, and the others do not mind when it is set. -/
theorem setAll_filter {tree : Fields} {path : List String} (hpath : path ≠ [])
    (hthere : (getSegments? tree path).isSome = true) (v : Value)
    {values : List (List String × Value)} (h : ∀ e ∈ values, ¬ e.1 <+: path) :
    setAll (setSegments tree path v) (values.filter (¬ path <+: ·.1)) =
      setSegments (setAll tree values) path v := by
  induction values generalizing tree with
  | nil => rfl
  | cons e rest ih =>
    have hrest : ∀ e ∈ rest, ¬ e.1 <+: path := fun e he => h e (List.mem_cons_of_mem _ he)
    by_cases hunder : path <+: e.1
    · -- the value is lost again when the path is set
      obtain ⟨more, hmore⟩ := hunder
      have hfilter : (e :: rest).filter (¬ path <+: ·.1) = rest.filter (¬ path <+: ·.1) :=
        List.filter_cons_of_neg (by simp [← hmore])
      have hthere' := isSome_getSegments?_setSegments tree hpath more e.2
      have hlost := setSegments_append tree hpath more v e.2
      rw [hmore] at hthere' hlost
      rw [hfilter, setAll_cons, ← ih hthere' hrest, hlost]
    · -- the value and the path may be set in either order
      have hapart : Apart path e.1 := ⟨hunder, h e (List.mem_cons_self ..)⟩
      have hfilter : (e :: rest).filter (¬ path <+: ·.1) = e :: rest.filter (¬ path <+: ·.1) :=
        List.filter_cons_of_pos (by simpa using hunder)
      have hthere' : (getSegments? (setSegments tree e.1 e.2) path).isSome = true := by
        rwa [getSegments?_setSegments tree hapart]
      rw [hfilter, setAll_cons, setAll_cons, ← setSegments_comm hapart hthere, ih hthere' hrest]

/-- Replacing among values that are in order sets the path in the tree that they make. -/
theorem setAll_replaced (tree : Fields) {path : List String} (hpath : path ≠ []) (v : Value)
    {values : List (List String × Value)} (h : IsOrdered values) :
    setAll tree (replaced path v values) = setSegments (setAll tree values) path v := by
  induction values generalizing tree with
  | nil => rfl
  | cons e rest ih =>
    obtain ⟨he, hrest⟩ := List.pairwise_cons.mp h
    rw [replaced]
    split
    · next hunder =>
      have hnot : ∀ later ∈ rest, ¬ later.1 <+: path := fun later hlater hbegins =>
        he later hlater (hbegins.trans hunder)
      obtain ⟨more, hmore⟩ := hunder
      have hthere := isSome_getSegments?_setSegments tree hpath more e.2
      have hlost := setSegments_append tree hpath more v e.2
      rw [hmore] at hthere hlost
      rw [setAll_cons, setAll_cons, ← setAll_filter hpath hthere v hnot, hlost]
    · rw [setAll_cons, setAll_cons, ih _ hrest]

/-! ## Replacing among flat fields -/

/-- How `replacePath` goes on with one of the flat fields. -/
def replaceStep (path : String) (v : Value) (placed : Fields × Bool) (field : String × Value) :
    Fields × Bool :=
  if isAtOrUnder path field.1 then
    if placed.2 then (placed.1, true) else (Entries.put placed.1 path v, true)
  else (Entries.put placed.1 field.1 field.2, placed.2)

theorem replacePath_eq (flat : Fields) (path : String) (v : Value) :
    replacePath flat path v =
      let placed := flat.foldl (replaceStep path v) ([], false)
      if placed.2 then placed.1 else Entries.put placed.1 path v :=
  rfl

/-- Going on with flat fields adds no other field than the replacing one. -/
theorem eq_or_mem_of_mem_foldl_replaceStep {path : String} {v : Value} {flat : Fields}
    {placed : Fields × Bool} {e : String × Value} (h : e ∈ (flat.foldl (replaceStep path v) placed).1) :
    e = (path, v) ∨ e ∈ placed.1 ∨ e ∈ flat := by
  induction flat generalizing placed with
  | nil => exact .inr (.inl h)
  | cons field rest ih =>
    rcases ih h with rfl | h | h
    · exact .inl rfl
    · unfold replaceStep at h
      split at h
      · split at h
        · exact .inr (.inl h)
        · exact (Entries.eq_or_mem_of_mem_put h).imp_right .inl
      · rcases Entries.eq_or_mem_of_mem_put h with rfl | h
        · exact .inr (.inr List.mem_cons_self)
        · exact .inr (.inl h)
    · exact .inr (.inr (List.mem_cons_of_mem _ h))

/-- Replacing a path among flat fields adds no other field than the replacing one. -/
theorem eq_or_mem_of_mem_replacePath {flat : Fields} {path : String} {v : Value}
    {e : String × Value} (h : e ∈ replacePath flat path v) : e = (path, v) ∨ e ∈ flat := by
  have hplaced : ∀ e ∈ (flat.foldl (replaceStep path v) ([], false)).1, e = (path, v) ∨ e ∈ flat :=
    fun e he => (eq_or_mem_of_mem_foldl_replaceStep he).imp_right fun h =>
      h.resolve_left List.not_mem_nil
  rw [replacePath_eq] at h
  dsimp only at h
  split at h
  · exact hplaced e h
  · rcases Entries.eq_or_mem_of_mem_put h with rfl | h
    · exact .inl rfl
    · exact hplaced e h

/-- A field whose path does not begin an earlier one is put behind the others. -/
theorem segmented_put_of_isOrdered {result rest : Fields} {field : String × Value}
    (h : IsOrdered (segmented result ++ segmented (field :: rest))) :
    segmented (Entries.put result field.1 field.2) =
      segmented result ++ [(pathSegments field.1, field.2)] := by
  refine segmented_put (fun e he => ?_) field.2
  exact (List.pairwise_append.mp h).2.2 e he _ (List.mem_cons_self ..)

/-- The fields are in order then, too. -/
theorem isOrdered_put {result rest : Fields} {field : String × Value}
    (h : IsOrdered (segmented result ++ segmented (field :: rest))) :
    IsOrdered (segmented (Entries.put result field.1 field.2) ++ segmented rest) := by
  rw [segmented_put_of_isOrdered h, List.append_assoc]
  exact h

/-- Once the value has its place, only the fields at and under the path go. -/
theorem segmented_foldl_replaceStep_of_placed (path : String) (v : Value) (flat result : Fields)
    (h : IsOrdered (segmented result ++ segmented flat)) :
    (flat.foldl (replaceStep path v) (result, true)).2 = true ∧
      segmented (flat.foldl (replaceStep path v) (result, true)).1 =
        segmented result ++ (segmented flat).filter (¬ pathSegments path <+: ·.1) := by
  induction flat generalizing result with
  | nil => simp [segmented]
  | cons field rest ih =>
    by_cases hunder : isAtOrUnder path field.1 = true
    · have hstep : replaceStep path v (result, true) field = (result, true) := by
        simp [replaceStep, hunder]
      have hfilter : (segmented (field :: rest)).filter (¬ pathSegments path <+: ·.1) =
          (segmented rest).filter (¬ pathSegments path <+: ·.1) :=
        List.filter_cons_of_neg (by simpa using isAtOrUnder_iff.mp hunder)
      have hrest : IsOrdered (segmented result ++ segmented rest) :=
        h.sublist ((List.sublist_cons_self ..).append_left _)
      rw [List.foldl_cons, hstep, hfilter]
      exact ih result hrest
    · have hstep : replaceStep path v (result, true) field =
          (Entries.put result field.1 field.2, true) := by
        simp [replaceStep, hunder]
      have hfilter : (segmented (field :: rest)).filter (¬ pathSegments path <+: ·.1) =
          (pathSegments field.1, field.2) ::
            (segmented rest).filter (¬ pathSegments path <+: ·.1) :=
        List.filter_cons_of_pos (by simpa [isAtOrUnder_iff] using hunder)
      have hall := ih _ (isOrdered_put h)
      rw [segmented_put_of_isOrdered h, List.append_assoc] at hall
      rw [List.foldl_cons, hstep, hfilter]
      exact hall

/-- The value takes the place of the first field at or under its path. -/
theorem isOrdered_put_of_begins {path : String} {v : Value} {result rest : Fields}
    {field : String × Value} (hresult : ∀ e ∈ segmented result, ¬ pathSegments path <+: e.1)
    (hbegins : pathSegments path <+: pathSegments field.1)
    (h : IsOrdered (segmented result ++ segmented (field :: rest))) :
    IsOrdered (segmented (Entries.put result path v) ++ segmented rest) := by
  obtain ⟨hbefore, hflat, hbetween⟩ := List.pairwise_append.mp h
  obtain ⟨hfield, hrest⟩ := List.pairwise_cons.mp hflat
  rw [segmented_put hresult v, List.append_assoc]
  refine List.pairwise_append.mpr ⟨hbefore, List.pairwise_cons.mpr ⟨?_, hrest⟩, ?_⟩
  · exact fun later hlater hunder => hfield later hlater (hunder.trans hbegins)
  · intro e he later hlater
    rcases List.mem_cons.mp hlater with rfl | hlater
    · exact hresult e he
    · exact hbetween e he later (List.mem_cons_of_mem _ hlater)

/-- As long as nothing at or under the path has come, the value waits for its place. -/
theorem segmented_foldl_replaceStep (path : String) (v : Value) (flat result : Fields)
    (hresult : ∀ e ∈ segmented result, ¬ pathSegments path <+: e.1)
    (h : IsOrdered (segmented result ++ segmented flat)) :
    let placed := flat.foldl (replaceStep path v) (result, false)
    segmented (if placed.2 then placed.1 else Entries.put placed.1 path v) =
      segmented result ++ replaced (pathSegments path) v (segmented flat) := by
  induction flat generalizing result with
  | nil => exact segmented_put hresult v
  | cons field rest ih =>
    rw [List.foldl_cons]
    by_cases hunder : isAtOrUnder path field.1 = true
    · -- the field gives the value its place
      have hstep : replaceStep path v (result, false) field = (Entries.put result path v, true) := by
        simp [replaceStep, hunder]
      have hbegins := isAtOrUnder_iff.mp hunder
      have hreplaced : replaced (pathSegments path) v (segmented (field :: rest)) =
          (pathSegments path, v) :: (segmented rest).filter (¬ pathSegments path <+: ·.1) :=
        if_pos hbegins
      obtain ⟨hplaced, hall⟩ := segmented_foldl_replaceStep_of_placed path v rest _
        (isOrdered_put_of_begins (v := v) hresult hbegins h)
      rw [hstep, hreplaced]
      simp only [hplaced, if_true, hall, segmented_put hresult v, List.append_assoc,
        List.singleton_append]
    · -- the field stays, and the value goes on waiting
      have hstep : replaceStep path v (result, false) field =
          (Entries.put result field.1 field.2, false) := by
        simp [replaceStep, hunder]
      have hnot : ¬ pathSegments path <+: pathSegments field.1 := fun hbegins =>
        hunder (isAtOrUnder_iff.mpr hbegins)
      have hreplaced : replaced (pathSegments path) v (segmented (field :: rest)) =
          (pathSegments field.1, field.2) :: replaced (pathSegments path) v (segmented rest) :=
        if_neg hnot
      have hput := segmented_put_of_isOrdered h
      have hresult' : ∀ e ∈ segmented (Entries.put result field.1 field.2),
          ¬ pathSegments path <+: e.1 := by
        intro e he
        rw [hput] at he
        rcases List.mem_append.mp he with he | he
        · exact hresult e he
        · rw [List.mem_singleton.mp he]
          exact hnot
      have hall := ih _ hresult' (isOrdered_put h)
      rw [hput, List.append_assoc] at hall
      rw [hstep, hreplaced]
      exact hall

/-- Among flat fields a path is replaced as it is among their segments. -/
theorem segmented_replacePath (path : String) (v : Value) {flat : Fields}
    (h : IsOrdered (segmented flat)) :
    segmented (replacePath flat path v) = replaced (pathSegments path) v (segmented flat) := by
  have hall := segmented_foldl_replaceStep path v flat [] (by simp [segmented]) h
  simpa [segmented, replacePath_eq] using hall

/-- Replacing a path among flat fields sets it in the tree that they make. -/
theorem unflatten_replacePath (path : String) (v : Value) {flat : Fields}
    (h : IsOrdered (segmented flat)) :
    unflatten (replacePath flat path v) = setPath (unflatten flat) path v := by
  rw [unflatten_eq, unflatten_eq, segmented_replacePath path v h,
    setAll_replaced [] (pathSegments_ne_nil path) v h, setPath]

end Tree

/-! ## Bound trees -/

/-- Where the sub-document of an embedded schema is put: at its path, or among the values of a map. -/
def ChildSchema.place (c : ChildSchema) : String :=
  if c.isMap then c.path ++ ".of" else c.path

theorem ChildSchema.pathSegments_place (c : ChildSchema) :
    pathSegments c.place =
      if c.isMap then pathSegments c.path ++ ["of"] else pathSegments c.path := by
  unfold ChildSchema.place
  split
  · have hsegments := pathSegments_append c.path "of"
    rw [String.append_assoc] at hsegments
    exact hsegments
  · rfl

/-- The value that is put there. -/
def ChildSchema.bound (c : ChildSchema) (d : SubDocument) : Value :=
  if c.isArray && !c.isMap then .list [.subDocument d] else .subDocument d

theorem ChildSchema.bind_eq (owner : String) (flat : Fields) (c : ChildSchema) :
    c.bind owner flat = Tree.replacePath flat c.place (c.bound (c.subDocument owner flat)) := by
  unfold ChildSchema.bind ChildSchema.place ChildSchema.bound
  cases c.isMap <;> cases c.isArray <;> rfl

/-- Whatever the tree of a schema satisfies, and keeps when a sub-document is set at the place of an
embedded schema, the bound tree satisfies too. -/
theorem Schema.boundTree_induction {M : Fields → Prop} {s : Schema} (owner : String)
    (hplain : Tree.IsPlain s.tree) (htree : M s.tree)
    (hset : ∀ tree c d, c ∈ s.children → d.name = subDocumentName c.path owner → M tree →
      M (Tree.setPath tree c.place (c.bound d))) :
    M (s.boundTree owner) := by
  -- in flat fields that are in order, binding sets the place in the tree that they make
  have hbind : ∀ flat, Tree.IsOrdered (Tree.segmented flat) ∧ M (Tree.unflatten flat) →
      ∀ c ∈ s.children, Tree.IsOrdered (Tree.segmented (c.bind owner flat)) ∧
        M (Tree.unflatten (c.bind owner flat)) := by
    rintro flat ⟨horder, h⟩ c hc
    rw [c.bind_eq owner flat, Tree.segmented_replacePath _ _ horder,
      Tree.unflatten_replacePath _ _ horder]
    exact ⟨horder.replaced _ _, hset _ c _ hc rfl h⟩
  unfold Schema.boundTree
  split
  · exact htree
  · refine (List.foldlRecOn s.children _ ⟨?_, ?_⟩ hbind).2
    · rw [Tree.segmented_flatten hplain.hasPlainPaths]
      exact Tree.isOrdered_leaves _ hplain
    · rw [Tree.unflatten_flatten hplain.hasPlainPaths]
      exact htree

end SchemaTypings
