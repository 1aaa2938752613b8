import SchemaTypings.Proofs.Derivation.Concatenation
import SchemaTypings.Proofs.Editing.Patching
import SchemaTypings.Proofs.Editing.Repetition

/-!
# Edits of files in a row

Edits of two texts, those of the second at their places behind the first, edit the text that is made
of both as each text by itself (`applyEdits_append`). A patch that looks up no name of the other
file's (`patchedNames`) makes the edits in the statements of both files that it makes in its own
(`patchEdits_append`), and those of a body that is moved are the ones of the body, moved
(`Move.exists_shift`).
-/

namespace SchemaTypings

open List (Forall₂)

namespace Declaration

/-! ## Edits behind a text -/

/-- The edit at its place behind `n` more characters. -/
def Edit.shift (n : Nat) (e : Edit) : Edit :=
  ⟨e.start + n, e.stop + n, e.text⟩

theorem applyEdits_shift (x y : List Char) (pos : Nat) (es : List Edit) :
    applyEdits (x ++ y) (pos + x.length) (es.map (Edit.shift x.length)) = applyEdits y pos es := by
  have hdrop : ∀ i, (x ++ y).drop (i + x.length) = y.drop i := fun i => by
    rw [Nat.add_comm, List.drop_append, List.drop_of_length_le (Nat.le_add_right _ _),
      List.nil_append, Nat.add_sub_cancel_left]
  induction es generalizing pos with
  | nil => exact hdrop pos
  | cons e es ih =>
    rw [List.map_cons, applyEdits, applyEdits, ← ih]
    simp [slice, hdrop, Edit.shift, Nat.add_sub_add_right]

/-- The edits of two texts in a row are made to each of them. -/
theorem applyEdits_append {x : List Char} (y : List Char) {es : List Edit} (gs : List Edit)
    (hes : ∀ e ∈ es, e.start ≤ x.length ∧ e.stop ≤ x.length) :
    applyEdits (x ++ y) 0 (es ++ gs.map (Edit.shift x.length)) =
      applyEdits x 0 es ++ applyEdits y 0 gs := by
  suffices h : ∀ pos ≤ x.length, applyEdits (x ++ y) pos (es ++ gs.map (Edit.shift x.length)) =
      applyEdits x pos es ++ applyEdits y 0 gs from h 0 (Nat.zero_le _)
  have hslice : ∀ pos stop, pos ≤ x.length → stop ≤ x.length →
      slice (x ++ y) pos stop = slice x pos stop := by
    intro pos stop hpos hstop
    have hlength : stop - pos ≤ (x.drop pos).length := by
      rw [List.length_drop]
      omega
    rw [slice, slice, List.drop_append_of_le_length hpos, List.take_append_of_le_length hlength]
  induction es with
  | nil =>
    intro pos hpos
    cases gs with
    | nil => simp [applyEdits, List.drop_append_of_le_length hpos]
    -- the first edit of the second text is reached over the end of the first
    | cons g gs =>
      have hfirst : slice (x ++ y) pos (g.start + x.length) = x.drop pos ++ slice y 0 g.start := by
        have hlength : g.start + x.length - pos = (x.drop pos).length + g.start := by
          rw [List.length_drop]
          omega
        rw [slice, slice, List.drop_append_of_le_length hpos, hlength,
          List.take_length_add_append]
        rfl
      have hrest := applyEdits_shift x y g.stop gs
      simp [applyEdits, Edit.shift, hfirst, hrest]
  | cons e es ih =>
    intro pos hpos
    obtain ⟨hstart, hstop⟩ := hes e List.mem_cons_self
    rw [List.cons_append, applyEdits, applyEdits, hslice pos e.start hpos hstart,
      ih (fun f hf => hes f (List.mem_cons_of_mem e hf)) e.stop hstop]
    simp only [List.append_assoc]

/-- An edit passes all that are kept in front of it. -/
theorem insertEdit_append {e : Edit} {es : List Edit} (fs : List Edit)
    (h : ∀ f ∈ es, f.start < e.start) : insertEdit e (es ++ fs) = es ++ insertEdit e fs := by
  induction es with
  | nil => rfl
  | cons f es ih =>
    have hlt := h f List.mem_cons_self
    rw [List.cons_append, insertEdit, if_neg (by omega), if_neg (by omega),
      ih fun g hg => h g (List.mem_cons_of_mem f hg)]
    rfl

/-- Edits behind all that are kept are kept behind them. -/
theorem foldl_insertEdit_append {edits es : List Edit} (fs : List Edit)
    (h : ∀ e ∈ edits, ∀ f ∈ es, f.start < e.start) :
    edits.foldl (fun es e => insertEdit e es) (es ++ fs) =
      es ++ edits.foldl (fun es e => insertEdit e es) fs := by
  induction edits generalizing fs with
  | nil => rfl
  | cons e edits ih =>
    rw [List.foldl_cons, List.foldl_cons, insertEdit_append fs (h e List.mem_cons_self),
      ih _ fun g hg => h g (List.mem_cons_of_mem e hg)]

/-! ## The edits of a body -/

/-- A property behind the start of a move, before it and after it. -/
def Move.Takes (m : Move) (p q : Property) : Prop :=
  q = m.property p ∧ m.fromOffset ≤ p.typeStart ∧ m.fromOffset ≤ p.typeEnd

/-- A move keeps the order. -/
theorem Move.ordered_takes (m : Move) : Ordered m.Takes := by
  rintro p _ p' _ ⟨rfl, hp, -⟩ ⟨rfl, hp', -⟩
  simp only [Move.property, Move.offset]
  omega

/-- Edits of properties that are moved are the same edits at two places. -/
theorem Move.exists_shift {m : Move} {es es' : List Edit}
    (h : Forall₂ (Edit.Like m.Takes) es es') :
    ∃ gs : List Edit, es = gs.map (Edit.shift m.fromOffset) ∧ es' = gs.map (Edit.shift m.toOffset) := by
  induction h with
  | nil => exact ⟨[], rfl, rfl⟩
  | @cons e e' es es' he _ ih =>
    obtain ⟨gs, rfl, rfl⟩ := ih
    obtain ⟨s, hpq⟩ := he
    obtain ⟨rfl, hstart, hend⟩ := hpq
    rename_i p
    refine ⟨⟨p.typeStart - m.fromOffset, p.typeEnd - m.fromOffset, s⟩ :: gs, ?_, ?_⟩
    · simp [Edit.shift, Nat.sub_add_cancel hstart, Nat.sub_add_cancel hend]
    · rfl

/-- The statements of a body are alike behind any text. -/
theorem IsBody.like_move {head body : List Char} {d : Statements} (h : IsBody head body d)
    (x : List Char) :
    Forall₂ (Statement.Like (Move.between (pieces head) (pieces x)).Takes) d.statements
      (d.move (Move.between (pieces head) (pieces x)).relocation).statements := by
  let m := Move.between (pieces head) (pieces x)
  have hfrom : m.fromOffset = head.length := by simp [m, Move.between]
  have hfits : m.Fits d.yield := by
    intro t ht
    rw [h.yield_eq, placeBehind] at ht
    exact (bounds_of_mem_place ht fun _ => chars_ne_nil).1
  obtain ⟨houtlines, hproperties⟩ := d.outlines_move (m := m) (fun _ => "") hfits
  refine like_of_outlines _ _ houtlines.symm fun p q hpq _ => ?_
  have hzip : (allProperties d.statements).zip ((allProperties d.statements).map m.property) =
      (allProperties d.statements).map fun p => (p, m.property p) := by
    simpa using List.zip_map' (f := id) (g := m.property) (l := allProperties d.statements)
  rw [hproperties, hzip, List.mem_map] at hpq
  obtain ⟨p, hp, heq⟩ := hpq
  obtain ⟨rfl, rfl⟩ := Prod.mk.inj heq
  obtain ⟨⟨hstart, -⟩, hend, -⟩ := h.span_le hp
  exact ⟨rfl, hfrom ▸ hstart, hfrom ▸ hend⟩

end Declaration

open Declaration

/-! ## Patches of files in a row -/

/-- The names that the patch looks up for a model. -/
def patchedNames (model : String) (known : KnownTypes) : List String :=
  ([Role.methods, .statics, .query].filter fun role => !(known.signatures role).isEmpty).map
      (model ++ ·.suffix) ++
    if known.virtuals.isEmpty then [] else [model ++ "Document", model]

section Patch

variable {root root' : List Statement} {schemas schemas' : List (String × Schema)}

/-- What is looked up, and found alike, gives the same edits. -/
theorem modelEdits_congr {model : String} {types : KnownTypes}
    (h : ∀ name ∈ patchedNames model types,
      interface? root name = interface? root' name ∧ alias? root name = alias? root' name)
    (hschemas : schemas.lookup model = schemas'.lookup model) :
    modelEdits root schemas model types = modelEdits root' schemas' model types := by
  have hfunctions : ∀ role, functionEdits root model types role =
      functionEdits root' model types role := by
    intro role
    by_cases hempty : types.signatures role = []
    · -- without known signatures nothing is looked up for a role
      rw [functionEdits_eq_nil hempty, functionEdits_eq_nil hempty]
    · have hname : model ++ role.suffix ∈ patchedNames model types := by
        refine List.mem_append_left _ (List.mem_map_of_mem (List.mem_filter.mpr ⟨?_, ?_⟩))
        · cases role <;> decide
        · simpa using hempty
      rw [functionEdits, functionEdits, (h _ hname).2]
  unfold modelEdits
  rw [hschemas, funext hfunctions]
  by_cases hempty : types.virtuals.isEmpty
  · rw [if_pos hempty, if_pos hempty]
  · have hvirtuals : ∀ name ∈ [model ++ "Document", model],
        virtualEdits root name types = virtualEdits root' name types := by
      intro name hname
      have hlookup : name ∈ patchedNames model types := by
        rw [patchedNames, if_neg hempty]
        exact List.mem_append_right _ hname
      rw [virtualEdits, virtualEdits, (h name hlookup).1]
    rw [hvirtuals model (by simp), hvirtuals (model ++ "Document") (by simp)]

theorem patchEdits_congr {known : List (String × KnownTypes)}
    (h : ∀ entry ∈ known, modelEdits root schemas entry.1 entry.2 =
      modelEdits root' schemas' entry.1 entry.2) :
    patchEdits root schemas known = patchEdits root' schemas' known := by
  induction known with
  | nil => rfl
  | cons entry rest ih =>
    rw [patchEdits, patchEdits, h entry List.mem_cons_self,
      ih fun e he => h e (List.mem_cons_of_mem entry he)]

/-- Models are patched one after the other, as long as none of them stops the patch. -/
theorem patchEdits_append {known : List (String × KnownTypes)}
    (h : (patchEdits root schemas known).2 = none) (more : List (String × KnownTypes)) :
    patchEdits root schemas (known ++ more) =
      ((patchEdits root schemas known).1 ++ (patchEdits root schemas more).1,
        (patchEdits root schemas more).2) := by
  induction known with
  | nil => rfl
  | cons entry rest ih =>
    obtain ⟨model, types⟩ := entry
    rw [List.cons_append, patchEdits, patchEdits]
    rw [patchEdits] at h
    generalize modelEdits root schemas model types = edits at h ⊢
    obtain ⟨edits, _ | e⟩ := edits
    · simp [ih h]
    · simp at h

/-- A name that is not declared is not found. -/
theorem lookups_eq_none {file : SourceFile} {name : String} (h : name ∉ file.declaredNames false) :
    interface? file.statements name = none ∧ alias? file.statements name = none := by
  constructor
  · refine List.findSome?_eq_none_iff.mpr fun s hs => ?_
    cases s with
    | interface n isExported ps =>
      exact if_neg fun heq => h (List.mem_filterMap.mpr ⟨_, hs, congrArg some heq⟩)
    | «alias» | module => rfl
  · refine List.findSome?_eq_none_iff.mpr fun s hs => ?_
    cases s with
    | «alias» n isExported ps =>
      exact if_neg fun heq => h (List.mem_filterMap.mpr ⟨_, hs, congrArg some heq⟩)
    | interface | module => rfl

/-- The first interface that is said under a name is found. -/
theorem exists_interface?_of_outlines {type : Property → String} {ss : List Statement}
    {before after : List Outline} {name : String} {isExported : Bool} {outs : List PropertyOutline}
    (h : outlines type ss = before ++ .interface name isExported outs :: after)
    (hbefore : ∀ o ∈ before, o.heading.declared? ≠ some name) :
    ∃ ps, interface? ss name = some ps ∧ ps.map (Property.outline type) = outs := by
  induction before generalizing ss with
  | nil =>
    cases ss with
    | nil => cases h
    | cons s ss =>
      obtain ⟨hs, -⟩ := List.cons.inj h
      cases s with
      | interface n isExported' ps =>
        obtain ⟨rfl, -, houts⟩ := Outline.interface.inj hs
        exact ⟨ps, by simp [interface?], houts⟩
      | «alias» | module => cases hs
  | cons o before ih =>
    cases ss with
    | nil => cases h
    | cons s ss =>
      obtain ⟨rfl, hrest⟩ := List.cons.inj h
      obtain ⟨ps, hps, houts⟩ := ih hrest fun o ho => hbefore o (List.mem_cons_of_mem _ ho)
      have hname := hbefore _ List.mem_cons_self
      refine ⟨ps, ?_, houts⟩
      cases s with
      | interface n isExported' qs =>
        have hne : n ≠ name := fun heq => hname (congrArg some heq)
        simpa [interface?, hne] using hps
      | «alias» | module => exact hps

end Patch

end SchemaTypings
