import SchemaTypings.Proofs.Editing.FailedAppend

/-!
# The types that were set last

The pending edits of a file that was read are a map from its properties to texts: `editsOf` lists
the edits of such a map in the order of their places, and setting a type updates the map
(`insertEdit_editsOf`). After any calls each property has the text that was set on it last
(`setTypes_eq`), so that nothing depends on the order of calls that concern different properties
(`typeText_setTypes`).
-/

namespace SchemaTypings.Declaration

/-- The text that was set last on a property. -/
def lastType? (calls : List (Property × String)) (p : Property) : Option String :=
  (calls.filter (·.1 = p)).getLast?.map Prod.snd

/-- The edits that give properties other types, in the order of the properties. -/
def editsOf (ps : List Property) (types : Property → Option String) : List Edit :=
  ps.filterMap fun p => (types p).map fun s => setTypeEdit (p, s)

theorem lastType?_concat (calls : List (Property × String)) (p : Property) (s : String) :
    lastType? (calls ++ [(p, s)]) = Function.update (lastType? calls) p (some s) := by
  funext q
  by_cases h : p = q
  · subst h
    simp [lastType?]
  · rw [Function.update_of_ne (Ne.symm h)]
    simp [lastType?, h]

/-! ## Edits as a map -/

section Map

variable {p : Property} {ps : List Property} {types types' : Property → Option String}

theorem editsOf_cons (p : Property) (ps : List Property) (types : Property → Option String) :
    editsOf (p :: ps) types =
      ((types p).map fun s => setTypeEdit (p, s)).toList ++ editsOf ps types := by
  cases h : types p <;> simp [editsOf, h]

/-- The edits are told by the types of these properties. -/
theorem editsOf_congr (h : ∀ p ∈ ps, types p = types' p) : editsOf ps types = editsOf ps types' :=
  List.filterMap_congr fun p hp => by rw [h p hp]

/-- Every edit is made to the place of one of the properties. -/
theorem exists_of_mem_editsOf {e : Edit} (h : e ∈ editsOf ps types) :
    ∃ p ∈ ps, ∃ s ∈ types p, e = setTypeEdit (p, s) := by
  obtain ⟨p, hp, hedit⟩ := List.mem_filterMap.mp h
  obtain ⟨s, hs, rfl⟩ := Option.map_eq_some_iff.mp hedit
  exact ⟨p, hp, s, hs, rfl⟩

theorem ne_of_typeStart_lt {p q : Property} (h : p.typeStart < q.typeStart) : p ≠ q := by
  rintro rfl
  exact Nat.lt_irrefl _ h

/-- An edit in front of all others is the first. -/
theorem insertEdit_of_lt {e : Edit} {es : List Edit} (h : ∀ f ∈ es, e.start < f.start) :
    insertEdit e es = e :: es := by
  cases es with
  | nil => rfl
  | cons f es => rw [insertEdit, if_pos (h f List.mem_cons_self)]

/-- Setting the type of a property updates the map. -/
theorem insertEdit_editsOf (hps : ps.Pairwise fun p q => p.typeStart < q.typeStart) (hp : p ∈ ps)
    (s : String) :
    insertEdit (setTypeEdit (p, s)) (editsOf ps types) =
      editsOf ps (Function.update types p (some s)) := by
  induction ps with
  | nil => exact absurd hp List.not_mem_nil
  | cons q ps ih =>
    obtain ⟨hbehind, hps⟩ := List.pairwise_cons.mp hps
    rw [editsOf_cons, editsOf_cons]
    obtain rfl | hp := List.mem_cons.mp hp
    -- the edit is the first one, in the place of an earlier one of the same property
    · have hlater : ∀ e ∈ editsOf ps types, p.typeStart < e.start := fun e he => by
        obtain ⟨q, hq, t, -, rfl⟩ := exists_of_mem_editsOf he
        exact hbehind q hq
      have hrest : editsOf ps (Function.update types p (some s)) = editsOf ps types :=
        editsOf_congr fun q hq => Function.update_of_ne (ne_of_typeStart_lt (hbehind q hq)).symm _ _
      rw [hrest, Function.update_self]
      cases htype : types p with
      | none => exact insertEdit_of_lt hlater
      | some t => simp [insertEdit, setTypeEdit]
    -- the first property keeps its type, and the edit goes behind its place
    · have hlt := hbehind p hp
      rw [Function.update_of_ne (ne_of_typeStart_lt hlt)]
      cases htype : types q with
      | none => exact ih hps hp
      | some t =>
        have hskip : ¬ p.typeStart < q.typeStart := by omega
        have hplace : p.typeStart ≠ q.typeStart := by omega
        simp only [Option.map_some, Option.toList_some, List.singleton_append, insertEdit]
        rw [ih hps hp]
        simp [setTypeEdit, hskip, hplace]

/-- The edit at the place of a property is the one that the map gives. -/
theorem find?_editsOf (hps : ps.Pairwise fun p q => p.typeStart < q.typeStart) (hp : p ∈ ps) :
    (editsOf ps types).find? (·.start = p.typeStart) =
      (types p).map fun s => setTypeEdit (p, s) := by
  induction ps with
  | nil => exact absurd hp List.not_mem_nil
  | cons q ps ih =>
    obtain ⟨hbehind, hps⟩ := List.pairwise_cons.mp hps
    rw [editsOf_cons, List.find?_append]
    obtain rfl | hp := List.mem_cons.mp hp
    · have hnone : (editsOf ps types).find? (·.start = p.typeStart) = none := by
        refine List.find?_eq_none.mpr fun e he => ?_
        obtain ⟨q, hq, t, -, rfl⟩ := exists_of_mem_editsOf he
        exact fun hplace => (hbehind q hq).ne' (of_decide_eq_true hplace)
      rw [hnone, Option.or_none]
      cases types p <;> simp [setTypeEdit]
    · have hplace : q.typeStart ≠ p.typeStart := (hbehind p hp).ne
      rw [ih hps hp]
      cases types q <;> simp [setTypeEdit, hplace]

end Map

/-! ## The map of a file -/

namespace SourceFile

variable {f : SourceFile} {calls : List (Property × String)}

theorem setTypes_concat (f : SourceFile) (calls : List (Property × String))
    (c : Property × String) : f.setTypes (calls ++ [c]) = (f.setTypes calls).setType c.1 c.2 := by
  rw [setTypes, List.foldl_append]
  rfl

theorem IsOrderly.setTypes (h : f.IsOrderly)
    (hcalls : ∀ c ∈ calls, c.1 ∈ allProperties f.statements) : (f.setTypes calls).IsOrderly := by
  induction calls using List.reverseRecOn with
  | nil => exact h
  | append_singleton calls c ih =>
    rw [setTypes_concat]
    refine (ih fun c hc => hcalls c (by simp [hc])).setType ?_ c.2
    rw [statements_setTypes]
    exact hcalls c (by simp)

/-- After some calls the edits of a file without edits are those of the types that were set
last. -/
theorem IsOrderly.setTypes_eq (h : f.IsOrderly) (hedits : f.edits = [])
    (hcalls : ∀ c ∈ calls, c.1 ∈ allProperties f.statements) :
    f.setTypes calls = { f with edits := editsOf (allProperties f.statements) (lastType? calls) } := by
  induction calls using List.reverseRecOn with
  | nil =>
    have hnone : editsOf (allProperties f.statements) (lastType? []) = [] := by
      simp [editsOf, lastType?]
    rw [hnone, ← hedits]
    rfl
  | append_singleton calls c ih =>
    rw [setTypes_concat, ih fun c hc => hcalls c (by simp [hc]), lastType?_concat,
      ← insertEdit_editsOf h.typeStart_lt (hcalls c (by simp))]
    rfl

end SourceFile

/-- After any calls on the properties of a file that was read, each property has the text that was
set on it last, or the one that it was read with; the text of the file has these texts in the places
of the properties that calls were made on, and is otherwise as it was; and the file depends on the
calls of each property only, in their order. -/
theorem typeText_setTypes {text : String} {f : SourceFile} (hf : SourceFile.ofText text = .ok f)
    (calls : List (Property × String))
    (hcalls : ∀ c ∈ calls, c.1 ∈ allProperties f.statements) :
    (allProperties f.statements).Nodup ∧
    (∀ p ∈ allProperties f.statements, (f.setTypes calls).typeText p =
      (lastType? calls p).getD (String.ofList (slice text.toList p.typeStart p.typeEnd))) ∧
    Spliced 0 text.toList (editsOf (allProperties f.statements) (lastType? calls))
      (f.setTypes calls).fullText.toList ∧
    ∀ calls' : List (Property × String),
      (∀ p, calls'.filter (·.1 = p) = calls.filter (·.1 = p)) →
        f.setTypes calls' = f.setTypes calls := by
  have horderly := SourceFile.isOrderly_of_ofText hf
  obtain ⟨d, hd, rfl⟩ := (ofText_eq_ok_iff text f).mp hf
  have hyield := ((derive_eq_ok_iff text d).mp hd).1.trans (tokens_eq_place text)
  have heq := horderly.setTypes_eq rfl hcalls
  refine ⟨horderly.nodup_allProperties, fun p hp => ?_, ?_, fun calls' hsame => ?_⟩
  · rw [(horderly.setTypes hcalls).typeText_eq (by simpa using hp), heq, editedType,
      find?_editsOf horderly.typeStart_lt hp]
    cases lastType? calls p <;> rfl
  · have hafter := horderly.setTypes hcalls
    rw [heq] at hafter ⊢
    rw [SourceFile.fullText, String.toList_ofList]
    exact Statements.spliced hyield hafter.sorted hafter.spans
  · have hcalls' : ∀ c ∈ calls', c.1 ∈ allProperties d.statements := fun c hc => by
      have hmem : c ∈ calls'.filter (·.1 = c.1) := by simp [hc]
      rw [hsame] at hmem
      exact hcalls c (List.mem_filter.mp hmem).1
    have hlast : lastType? calls' = lastType? calls := funext fun p => by
      rw [lastType?, hsame, lastType?]
    rw [heq, horderly.setTypes_eq rfl hcalls', hlast]

/-- Of a file with two properties the second is set, then the first, then the second once more;
setting the first one before both gives the same file. -/
theorem typeText_setTypes_two :
    let f : SourceFile := ⟨"interface A \x7ba: b; c?: d\x7d", [],
      [.interface "A" false [⟨"a", false, 16, 17⟩, ⟨"c", true, 23, 24⟩]]⟩
    let g := f.setTypes [(⟨"c", true, 23, 24⟩, "e"), (⟨"a", false, 16, 17⟩, "x"),
      (⟨"c", true, 23, 24⟩, "f[]")]
    SourceFile.ofText "interface A \x7ba: b; c?: d\x7d" = .ok f ∧
      (g.typeText ⟨"a", false, 16, 17⟩ = "x" ∧ g.typeText ⟨"c", true, 23, 24⟩ = "f[]") ∧
      Spliced 0 "interface A \x7ba: b; c?: d\x7d".toList [⟨16, 17, "x"⟩, ⟨23, 24, "f[]"⟩]
        g.fullText.toList ∧
      f.setTypes [(⟨"a", false, 16, 17⟩, "x"), (⟨"c", true, 23, 24⟩, "e"),
        (⟨"c", true, 23, 24⟩, "f[]")] = g := by
  have hfile : SourceFile.ofText "interface A \x7ba: b; c?: d\x7d" =
      .ok ⟨"interface A \x7ba: b; c?: d\x7d", [],
        [.interface "A" false [⟨"a", false, 16, 17⟩, ⟨"c", true, 23, 24⟩]]⟩ := by
    unfold SourceFile.ofText parse
    rw [tokens_twoProperties]
    rfl
  obtain ⟨-, htypes, hspliced, hsame⟩ := typeText_setTypes hfile
    [(⟨"c", true, 23, 24⟩, "e"), (⟨"a", false, 16, 17⟩, "x"), (⟨"c", true, 23, 24⟩, "f[]")]
    (by simp [allProperties, Statement.properties])
  refine ⟨hfile, ⟨htypes _ ?_, htypes _ ?_⟩, hspliced, hsame _ fun p => ?_⟩
  · simp [allProperties, Statement.properties]
  · simp [allProperties, Statement.properties]
  · by_cases hp : (⟨"a", false, 16, 17⟩ : Property) = p
    · subst hp
      rfl
    · simp [List.filter_cons, hp]

end SchemaTypings.Declaration
