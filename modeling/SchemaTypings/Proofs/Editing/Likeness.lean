import Mathlib.Data.List.Forall2
import SchemaTypings.Model.Patch
import SchemaTypings.Proofs.Outline

/-!
# Files that are patched alike

Two files may declare the same members at different places. `Statement.Like` relates their
statements by a relation of the properties, such as files with the same outline have
(`like_of_outlines`). A patch finds the members by name, so it makes the same edits to both, each at
the place that the member has there (`patchEdits_like`).
-/

namespace SchemaTypings

open List (Forall₂)

namespace Declaration

/-! ## Statements with related properties -/

/-- Two statements declare the same, with related properties. -/
inductive Statement.Like (R : Property → Property → Prop) : Statement → Statement → Prop
  | interface {name : String} {isExported : Bool} {ps qs : List Property} : Forall₂ R ps qs →
    Like R (.interface name isExported ps) (.interface name isExported qs)
  | alias {name : String} {isExported : Bool} {ps qs : Option (List Property)} :
    Option.Rel (Forall₂ R) ps qs → Like R (.alias name isExported ps) (.alias name isExported qs)
  | module {name : String} {ss ts : List Statement} : Forall₂ (Like R) ss ts →
    Like R (.module name ss) (.module name ts)

mutual
/-- The properties of a statement with the texts of its types. -/
def Outline.properties : Outline → List PropertyOutline
  | .interface _ _ properties => properties
  | .alias _ _ properties => properties.getD []
  | .module _ statements => outlineProperties statements

/-- The properties of some statements with the texts of their types. -/
def outlineProperties : List Outline → List PropertyOutline
  | [] => []
  | o :: rest => o.properties ++ outlineProperties rest
end

mutual
theorem Statement.properties_outline (s : Statement) (type : Property → String) :
    (s.outline type).properties = s.properties.map (Property.outline type) := by
  cases s with
  | interface name isExported properties => rfl
  | «alias» name isExported properties => cases properties <;> rfl
  | module name statements =>
    simp [Statement.outline, Outline.properties, Statement.properties,
      outlineProperties_outlines statements]

/-- An outline tells the properties, except where their types are. -/
theorem outlineProperties_outlines (ss : List Statement) (type : Property → String) :
    outlineProperties (outlines type ss) = (allProperties ss).map (Property.outline type) := by
  cases ss with
  | nil => rfl
  | cons s ss =>
    simp [outlines, outlineProperties, allProperties, s.properties_outline,
      outlineProperties_outlines ss]
end

/-- Properties that say the same in the same places of two lists. -/
theorem forall₂_of_outlines {R : Property → Property → Prop} {f g : Property → String}
    {ps qs : List Property} (h : ps.map (Property.outline f) = qs.map (Property.outline g))
    (hR : ∀ p q, (p, q) ∈ ps.zip qs → p.outline f = q.outline g → R p q) : Forall₂ R ps qs := by
  have hsame : Forall₂ (fun p q => p.outline f = q.outline g) ps qs := by
    rw [← List.forall₂_eq_eq_eq] at h
    exact List.forall₂_map_right_iff.mp (List.forall₂_map_left_iff.mp h)
  exact List.forall₂_iff_zip.mpr
    ⟨hsame.length_eq, fun hpq => hR _ _ hpq (List.forall₂_zip hsame hpq)⟩

mutual
theorem Statement.like_of_outline (s t : Statement) {R : Property → Property → Prop}
    {f g : Property → String} (h : s.outline f = t.outline g)
    (hR : ∀ p q, (p, q) ∈ s.properties.zip t.properties → p.outline f = q.outline g → R p q) :
    s.Like R t := by
  cases s with
  | interface name isExported ps =>
    cases t with
    | interface name' isExported' qs =>
      obtain ⟨rfl, rfl, hps⟩ := Outline.interface.inj h
      exact .interface (forall₂_of_outlines hps hR)
    | «alias» | module => exact absurd h (by simp [Statement.outline])
  | «alias» name isExported ps =>
    cases t with
    | «alias» name' isExported' qs =>
      obtain ⟨rfl, rfl, hps⟩ := Outline.alias.inj h
      cases ps with
      | none =>
        cases qs with
        | none => exact .alias .none
        | some qs => exact absurd hps (by simp)
      | some ps =>
        cases qs with
        | none => exact absurd hps (by simp)
        | some qs => exact .alias (.some (forall₂_of_outlines (Option.some.inj hps) hR))
    | interface | module => exact absurd h (by simp [Statement.outline])
  | module name ss =>
    cases t with
    | module name' ts =>
      obtain ⟨rfl, hss⟩ := Outline.module.inj h
      exact .module (like_of_outlines ss ts hss hR)
    | interface | «alias» => exact absurd h (by simp [Statement.outline])

/-- Statements with the same outline are alike when the properties that say the same in the same
places are related. -/
theorem like_of_outlines (ss ts : List Statement) {R : Property → Property → Prop}
    {f g : Property → String} (h : outlines f ss = outlines g ts)
    (hR : ∀ p q, (p, q) ∈ (allProperties ss).zip (allProperties ts) →
      p.outline f = q.outline g → R p q) :
    Forall₂ (Statement.Like R) ss ts := by
  cases ss with
  | nil =>
    cases ts with
    | nil => exact .nil
    | cons t ts => exact absurd h (by simp [outlines])
  | cons s ss =>
    cases ts with
    | nil => exact absurd h (by simp [outlines])
    | cons t ts =>
      obtain ⟨hs, hss⟩ := List.cons.inj h
      -- the properties of the first statements are paired with each other
      have hlength : s.properties.length = t.properties.length := by
        simpa [Statement.properties_outline] using congrArg (·.properties.length) hs
      simp only [allProperties, List.zip_append hlength, List.mem_append] at hR
      exact .cons (s.like_of_outline t hs fun p q hpq => hR p q (.inl hpq))
        (like_of_outlines ss ts hss fun p q hpq => hR p q (.inr hpq))
end

/-! ## Looking statements up -/

section Lookup

variable {R : Property → Property → Prop} {ss ts : List Statement}

/-- A search finds related things when it does in each place. -/
theorem rel_findSome? {α β : Type} {P : α → β → Prop} {f : Statement → Option α}
    {g : Statement → Option β} (h : Forall₂ (Statement.Like R) ss ts)
    (hfg : ∀ s t, Statement.Like R s t → Option.Rel P (f s) (g t)) :
    Option.Rel P (ss.findSome? f) (ts.findSome? g) := by
  induction h with
  | nil => exact .none
  | @cons s t ss ts hst _ ih =>
    have hfirst := hfg s t hst
    rw [List.findSome?_cons, List.findSome?_cons]
    generalize f s = a at hfirst ⊢
    generalize g t = b at hfirst ⊢
    cases hfirst with
    | none => exact ih
    | some hab => exact .some hab

theorem interface?_like (h : Forall₂ (Statement.Like R) ss ts) (name : String) :
    Option.Rel (Forall₂ R) (interface? ss name) (interface? ts name) := by
  refine rel_findSome? h fun s t hst => ?_
  cases hst with
  | interface hps =>
    dsimp only
    split
    · exact .some hps
    · exact .none
  | «alias» | module => exact .none

theorem alias?_like (h : Forall₂ (Statement.Like R) ss ts) (name : String) :
    Option.Rel (Option.Rel (Forall₂ R)) (alias? ss name) (alias? ts name) := by
  refine rel_findSome? h fun s t hst => ?_
  cases hst with
  | «alias» hps =>
    dsimp only
    split
    · exact .some hps
    · exact .none
  | interface | module => exact .none

/-- The statements of the models are alike in files that are. -/
theorem root_like {f g : SourceFile} (h : Forall₂ (Statement.Like R) f.statements g.statements)
    (isAugmented : Bool) :
    Forall₂ (Statement.Like R) (f.root isAugmented) (g.root isAugmented) := by
  unfold SourceFile.root
  split
  · have hmodule : Option.Rel (fun a b => Forall₂ (Statement.Like R) a.2 b.2)
        (firstModule? f.statements) (firstModule? g.statements) := by
      refine rel_findSome? h fun s t hst => ?_
      cases hst with
      | module hbody => exact .some hbody
      | interface | «alias» => exact .none
    generalize firstModule? f.statements = a at hmodule ⊢
    generalize firstModule? g.statements = b at hmodule ⊢
    cases hmodule with
    | none => exact h
    | some hbody => exact hbody
  · exact h

end Lookup

/-- Two edits give the same type to related properties. -/
inductive Edit.Like (R : Property → Property → Prop) : Edit → Edit → Prop
  | mk {p q : Property} (s : String) : R p q →
    Like R ⟨p.typeStart, p.typeEnd, s⟩ ⟨q.typeStart, q.typeEnd, s⟩

/-- What such edits have in common. -/
theorem Edit.Like.spans {R : Property → Property → Prop} {e e' : Edit} (h : Edit.Like R e e') :
    ∃ p q, R p q ∧ (e.start = p.typeStart ∧ e.stop = p.typeEnd) ∧
      (e'.start = q.typeStart ∧ e'.stop = q.typeEnd) ∧ e'.text = e.text := by
  obtain ⟨s, hpq⟩ := h
  exact ⟨_, _, hpq, ⟨rfl, rfl⟩, ⟨rfl, rfl⟩, rfl⟩

end Declaration

open Declaration

/-! ## Patching -/

section Patch

variable {R : Property → Property → Prop} {root root' : List Statement}

theorem propertyEdits_like (hname : ∀ p q, R p q → p.name = q.name) {ps qs : List Property}
    (h : Forall₂ R ps qs) (known : List (String × String)) (type : String → String) :
    Forall₂ (Edit.Like R) (propertyEdits ps known type) (propertyEdits qs known type) := by
  refine List.rel_filterMap (fun p q hpq => ?_) h
  rw [hname p q hpq]
  cases knownFor? known q.name with
  | none => exact .none
  | some s => exact .some (.mk (type s) hpq)

theorem functionEdits_like (hname : ∀ p q, R p q → p.name = q.name)
    (h : Forall₂ (Statement.Like R) root root') (model : String) (known : KnownTypes)
    (role : Role) :
    Forall₂ (Edit.Like R) (functionEdits root model known role)
      (functionEdits root' model known role) := by
  have halias := alias?_like h (model ++ role.suffix)
  unfold functionEdits
  generalize alias? root (model ++ role.suffix) = a at halias ⊢
  generalize alias? root' (model ++ role.suffix) = b at halias ⊢
  cases halias with
  | none => exact .nil
  | some hps =>
    cases hps with
    | none => exact .nil
    | some hps => exact propertyEdits_like hname hps _ _

theorem virtualEdits_like (hname : ∀ p q, R p q → p.name = q.name)
    (h : Forall₂ (Statement.Like R) root root') (interface : String) (known : KnownTypes) :
    Forall₂ (Edit.Like R) (virtualEdits root interface known)
      (virtualEdits root' interface known) := by
  have hinterface := interface?_like h interface
  unfold virtualEdits
  generalize interface? root interface = a at hinterface ⊢
  generalize interface? root' interface = b at hinterface ⊢
  cases hinterface with
  | none => exact propertyEdits_like hname .nil _ _
  | some hps => exact propertyEdits_like hname hps _ _

theorem modelEdits_like (hname : ∀ p q, R p q → p.name = q.name)
    (h : Forall₂ (Statement.Like R) root root') (schemas : List (String × Schema))
    (model : String) (known : KnownTypes) :
    Forall₂ (Edit.Like R) (modelEdits root schemas model known).1
        (modelEdits root' schemas model known).1 ∧
      (modelEdits root schemas model known).2 = (modelEdits root' schemas model known).2 := by
  have hfunctions : Forall₂ (Edit.Like R)
      ([Role.methods, .statics, .query].flatMap (functionEdits root model known))
      ([Role.methods, .statics, .query].flatMap (functionEdits root' model known)) := by
    refine List.rel_flatMap (List.forall₂_same.mpr fun _ _ => rfl) ?_
    rintro role _ rfl
    exact functionEdits_like hname h model known role
  have hdocument := List.rel_append hfunctions
    (virtualEdits_like hname h (model ++ "Document") known)
  unfold modelEdits
  split
  · exact ⟨hfunctions, rfl⟩
  · cases schemas.lookup model with
    | none => exact ⟨hdocument, rfl⟩
    | some schema =>
      dsimp only
      cases includesVirtuals schema.options with
      | error e => exact ⟨hdocument, rfl⟩
      | ok included =>
        cases included with
        | false => exact ⟨hdocument, rfl⟩
        | true => exact ⟨List.rel_append hdocument (virtualEdits_like hname h model known), rfl⟩

/-- Files that are alike are patched alike. -/
theorem patchEdits_like (hname : ∀ p q, R p q → p.name = q.name)
    (h : Forall₂ (Statement.Like R) root root') (schemas : List (String × Schema))
    (known : List (String × KnownTypes)) :
    Forall₂ (Edit.Like R) (patchEdits root schemas known).1 (patchEdits root' schemas known).1 ∧
      (patchEdits root schemas known).2 = (patchEdits root' schemas known).2 := by
  induction known with
  | nil => exact ⟨.nil, rfl⟩
  | cons entry rest ih =>
    obtain ⟨model, types⟩ := entry
    obtain ⟨hedits, hfailure⟩ := modelEdits_like hname h schemas model types
    unfold patchEdits
    generalize modelEdits root schemas model types = a at hedits hfailure ⊢
    generalize modelEdits root' schemas model types = b at hedits hfailure ⊢
    obtain ⟨edits, failure⟩ := a
    obtain ⟨edits', failure'⟩ := b
    obtain rfl : failure = failure' := hfailure
    cases failure with
    | some e => exact ⟨hedits, rfl⟩
    | none => exact ⟨List.rel_append hedits ih.1, ih.2⟩

end Patch

end SchemaTypings
