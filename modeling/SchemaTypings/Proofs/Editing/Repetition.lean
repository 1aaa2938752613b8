import Mathlib.Data.List.Sort
import SchemaTypings.Proofs.Editing.Likeness
import SchemaTypings.Proofs.Editing.Splices

/-!
# Patching twice

A patch that is made once more changes nothing. On the same file the edits are collected again, and
of the edits of one place the last one is kept (`edit_edit`). On the file that is read from the
patched text they are made to the same members at their new places, in the same order
(`patchEdits_like`), and there the types stand that they write (`applyEdits_eq_drop`).
-/

namespace SchemaTypings

open List (Forall₂)

namespace Declaration

/-! ## The edits that are kept -/

/-- The edit of a place is the one that was made to it last. -/
theorem find?_insertEdit (e : Edit) (es : List Edit) (place : Nat) :
    (insertEdit e es).find? (·.start = place) =
      if e.start = place then some e else es.find? (·.start = place) := by
  induction es with
  | nil => by_cases h : e.start = place <;> simp [insertEdit, h]
  | cons f es ih =>
    unfold insertEdit
    by_cases hplace : e.start = place
    · rw [if_pos hplace] at ih ⊢
      split_ifs with hlt heq
      · simp [hplace]
      · simp [hplace]
      · have hf : f.start ≠ place := by omega
        simp [hf, ih]
    · rw [if_neg hplace] at ih ⊢
      split_ifs with hlt heq
      · simp [hplace]
      · simp [hplace, ← heq]
      · simp only [List.find?_cons, ih]

theorem find?_foldl_insertEdit (edits es : List Edit) (place : Nat) :
    (edits.foldl (fun es e => insertEdit e es) es).find? (·.start = place) =
      (edits.reverse.find? (·.start = place)).or (es.find? (·.start = place)) := by
  induction edits generalizing es with
  | nil => rfl
  | cons e edits ih =>
    rw [List.foldl_cons, ih, find?_insertEdit, List.reverse_cons, List.find?_append,
      Option.or_assoc]
    congr 1
    by_cases h : e.start = place <;> simp [h]

/-- Of edits in order there is one at a place. -/
theorem mem_iff_find?_eq_some {es : List Edit} (hes : es.Pairwise fun e f => e.start < f.start)
    (e : Edit) : e ∈ es ↔ es.find? (·.start = e.start) = some e := by
  refine ⟨fun he => ?_, List.mem_of_find?_eq_some⟩
  obtain ⟨before, after, rfl⟩ := List.append_of_mem he
  refine List.find?_eq_some_iff_append.mpr ⟨by simp, before, after, rfl, fun f hf => ?_⟩
  have hlt := (List.pairwise_append.mp hes).2.2 f hf e List.mem_cons_self
  simpa using hlt.ne

/-- Edits in order are told by their places. -/
theorem eq_of_find?_eq {es fs : List Edit} (hes : es.Pairwise fun e f => e.start < f.start)
    (hfs : fs.Pairwise fun e f => e.start < f.start)
    (h : ∀ place, es.find? (·.start = place) = fs.find? (·.start = place)) : es = fs := by
  have hirrefl : Std.Irrefl fun e f : Edit => e.start < f.start := ⟨fun e => Nat.lt_irrefl _⟩
  have hantisymm : Std.Antisymm fun e f : Edit => e.start < f.start :=
    ⟨fun e f hlt hgt => absurd hlt (Nat.lt_asymm hgt)⟩
  exact hes.eq_of_mem_iff hfs fun e => by
    rw [mem_iff_find?_eq_some hes, mem_iff_find?_eq_some hfs, h]

end Declaration

open Declaration

theorem Declaration.SourceFile.edit_eq (f : SourceFile) (edits : List Edit) :
    f.edit edits = { f with edits := edits.foldl (fun es e => insertEdit e es) f.edits } := by
  unfold SourceFile.edit
  induction edits generalizing f with
  | nil => rfl
  | cons e edits ih => exact ih (f.replaceSpan e.start e.stop e.text)

/-- The edits that are kept were made. -/
theorem Declaration.mem_or_mem_of_mem_foldl {edits es : List Edit} {e : Edit}
    (h : e ∈ edits.foldl (fun es e => insertEdit e es) es) : e ∈ edits ∨ e ∈ es := by
  induction edits generalizing es with
  | nil => exact .inr h
  | cons f edits ih =>
    obtain h | h := ih h
    · exact .inl (List.mem_cons_of_mem f h)
    · obtain rfl | h := eq_or_mem_of_mem_insertEdit h
      · exact .inl List.mem_cons_self
      · exact .inr h

theorem Declaration.foldl_insertEdit_sorted (edits : List Edit) {es : List Edit}
    (h : es.Pairwise fun e f => e.start < f.start) :
    (edits.foldl (fun es e => insertEdit e es) es).Pairwise fun e f => e.start < f.start := by
  induction edits generalizing es with
  | nil => exact h
  | cons e edits ih => exact ih (insertEdit_sorted h)

/-- Edits that are made once more change nothing. -/
theorem Declaration.SourceFile.edit_edit (f : SourceFile) (edits : List Edit)
    (h : f.edits.Pairwise fun e f => e.start < f.start) :
    (f.edit edits).edit edits = f.edit edits := by
  rw [SourceFile.edit_eq, SourceFile.edit_eq]
  congr 1
  have hsorted := foldl_insertEdit_sorted edits h
  refine eq_of_find?_eq (foldl_insertEdit_sorted edits hsorted) hsorted fun place => ?_
  rw [find?_foldl_insertEdit, find?_foldl_insertEdit, ← Option.or_assoc, Option.or_self]

/-- A patch makes its edits, up to where it stops. -/
theorem patch_eq (f : SourceFile) (known : List (String × KnownTypes))
    (schemas : List (String × Schema)) (isAugmented : Bool) :
    patch f known schemas isAugmented =
      (f.edit (patchEdits (f.root isAugmented) schemas known).1,
        (patchEdits (f.root isAugmented) schemas known).2) := rfl

/-- A patch looks at the statements of a file only, which it leaves as they are. -/
theorem patch_patch (f : SourceFile) (known : List (String × KnownTypes))
    (schemas : List (String × Schema)) (isAugmented : Bool)
    (h : f.edits.Pairwise fun e f => e.start < f.start) :
    patch (patch f known schemas isAugmented).1 known schemas isAugmented =
      patch f known schemas isAugmented := by
  have hroot : ∀ edits, (f.edit edits).root isAugmented = f.root isAugmented := by
    intro edits
    rw [SourceFile.edit_eq]
    rfl
  rw [patch_eq f, patch_eq, hroot, SourceFile.edit_edit f _ h]

/-! ## The edits of a text that was edited -/

namespace Declaration

/-- Edits that write what stands in their places give the text itself. -/
theorem applyEdits_eq_drop {cs : List Char} {es : List Edit} {offset : Nat}
    (horder : es.Pairwise fun e f => e.stop ≤ f.start)
    (hspans : ∀ e ∈ es, offset ≤ e.start ∧ e.start ≤ e.stop)
    (htext : ∀ e ∈ es, e.text.toList = slice cs e.start e.stop) :
    applyEdits cs offset es = cs.drop offset := by
  induction es generalizing offset with
  | nil => rfl
  | cons e es ih =>
    obtain ⟨hbehind, horder⟩ := List.pairwise_cons.mp horder
    obtain ⟨hstart, hstop⟩ := hspans e List.mem_cons_self
    have hrest : applyEdits cs e.stop es = cs.drop e.stop :=
      ih horder (fun f hf => ⟨hbehind f hf, (hspans f (List.mem_cons_of_mem e hf)).2⟩)
        fun f hf => htext f (List.mem_cons_of_mem e hf)
    rw [applyEdits, hrest, htext e List.mem_cons_self,
      slice_append_slice_append_drop cs hstart hstop]

/-- Related properties come in the same order. -/
def Ordered (R : Property → Property → Prop) : Prop :=
  ∀ p q p' q', R p q → R p' q' → (p.typeStart < p'.typeStart ↔ q.typeStart < q'.typeStart)

theorem insertEdit_like {R : Property → Property → Prop} (hR : Ordered R) {e e' : Edit}
    {es es' : List Edit} (he : Edit.Like R e e') (hes : Forall₂ (Edit.Like R) es es') :
    Forall₂ (Edit.Like R) (insertEdit e es) (insertEdit e' es') := by
  induction hes with
  | nil => exact .cons he .nil
  | @cons f f' es es' hf hes ih =>
    have hlt : e.start < f.start ↔ e'.start < f'.start := by
      obtain ⟨s, hpq⟩ := he
      obtain ⟨t, hpq'⟩ := hf
      exact hR _ _ _ _ hpq hpq'
    have hgt : f.start < e.start ↔ f'.start < e'.start := by
      obtain ⟨s, hpq⟩ := he
      obtain ⟨t, hpq'⟩ := hf
      exact hR _ _ _ _ hpq' hpq
    have heq : e.start = f.start ↔ e'.start = f'.start := by omega
    unfold insertEdit
    simp only [hlt, heq]
    split_ifs
    · exact .cons he (.cons hf hes)
    · exact .cons he hes
    · exact .cons hf ih

/-- Of edits that are alike, those that are kept are alike. -/
theorem foldl_insertEdit_like {R : Property → Property → Prop} (hR : Ordered R)
    {edits edits' es es' : List Edit} (hedits : Forall₂ (Edit.Like R) edits edits')
    (hes : Forall₂ (Edit.Like R) es es') :
    Forall₂ (Edit.Like R) (edits.foldl (fun es e => insertEdit e es) es)
      (edits'.foldl (fun es e => insertEdit e es) es') := by
  induction hedits generalizing es es' with
  | nil => exact hes
  | cons he _ ih => exact ih (insertEdit_like hR he hes)

/-- Properties in the same places of two files, with the same type in both. -/
def SamePlace (d d' : Statements) (type type' : Property → String) (p q : Property) : Prop :=
  (p, q) ∈ (allProperties d.statements).zip (allProperties d'.statements) ∧
    p.outline type = q.outline type'

/-- Properties in the same places of two texts come in the same order. -/
theorem ordered_samePlace {cs cs' : List Char} {d d' : Statements}
    (h : d.yield = place 0 1 (pieces cs)) (h' : d'.yield = place 0 1 (pieces cs'))
    (type type' : Property → String) : Ordered (SamePlace d d' type type') := by
  rintro p q p' q' ⟨hpq, -⟩ ⟨hpq', -⟩
  have hsorted := List.pairwise_iff_getElem.mp (Statements.sorted_allProperties h)
  have hsorted' := List.pairwise_iff_getElem.mp (Statements.sorted_allProperties h')
  obtain ⟨i, hi, hpair⟩ := List.mem_iff_getElem.mp hpq
  obtain ⟨j, hj, hpair'⟩ := List.mem_iff_getElem.mp hpq'
  rw [List.length_zip] at hi hj
  rw [List.getElem_zip] at hpair hpair'
  obtain ⟨rfl, rfl⟩ := Prod.mk.inj hpair
  obtain ⟨rfl, rfl⟩ := Prod.mk.inj hpair'
  obtain hlt | rfl | hgt := Nat.lt_trichotomy i j
  · exact iff_of_true (hsorted i j _ _ hlt) (hsorted' i j _ _ hlt)
  · simp
  · exact iff_of_false (Nat.lt_asymm (hsorted j i _ _ hgt)) (Nat.lt_asymm (hsorted' j i _ _ hgt))

/-- The type that one of some edits in order gives. -/
theorem editedType_of_mem {cs : List Char} {es : List Edit} {p : Property} {e : Edit}
    (hes : es.Pairwise fun e f => e.start < f.start) (he : e ∈ es) (hstart : e.start = p.typeStart) :
    editedType cs es p = e.text := by
  have hfind := (mem_iff_find?_eq_some hes e).mp he
  rw [hstart] at hfind
  rw [editedType, hfind]

end Declaration

/-- A patch makes edits to properties of the file. -/
theorem exists_property_of_mem_patchEdits {f : SourceFile} {isAugmented : Bool}
    {schemas : List (String × Schema)} {known : List (String × KnownTypes)} {e : Edit}
    (h : e ∈ (patchEdits (f.root isAugmented) schemas known).1) :
    ∃ p ∈ allProperties f.statements, e.start = p.typeStart ∧ e.stop = p.typeEnd := by
  have hlike : Forall₂ (Statement.Like fun p q => p = q ∧ p ∈ allProperties f.statements)
      f.statements f.statements := by
    refine like_of_outlines (f := fun _ => "") (g := fun _ => "") _ _ rfl fun p q hpq _ => ?_
    obtain ⟨i, hi, heq⟩ := List.mem_iff_getElem.mp hpq
    rw [List.getElem_zip] at heq
    obtain ⟨rfl, rfl⟩ := Prod.mk.inj heq
    exact ⟨rfl, List.getElem_mem _⟩
  have hedits := (patchEdits_like (by rintro p _ ⟨rfl, -⟩; rfl) (root_like hlike isAugmented)
    schemas known).1
  obtain ⟨p, q, ⟨-, hp⟩, hspan, -⟩ := (List.forall₂_same.mp hedits e h).spans
  exact ⟨p, hp, hspan⟩

/-- Edits that give the members of an edited text the types that they have there leave it as it
is. -/
theorem applyEdits_again {cs cs' : List Char} {d d' : Statements} {es es' : List Edit}
    (h' : d'.yield = place 0 1 (pieces cs')) (hsorted : es.Pairwise fun e f => e.start < f.start)
    (hsorted' : es'.Pairwise fun e f => e.start < f.start)
    (hlike : Forall₂ (Edit.Like (SamePlace d d' (editedType cs es) (editedType cs' []))) es es') :
    applyEdits cs' 0 es' = cs' := by
  -- what an edit writes is the type that stands in its place
  have hmem : ∀ e' ∈ es', ∃ q ∈ allProperties d'.statements,
      (e'.start = q.typeStart ∧ e'.stop = q.typeEnd) ∧
        e'.text.toList = slice cs' e'.start e'.stop := by
    intro e' he'
    obtain ⟨i, hi, rfl⟩ := List.mem_iff_getElem.mp he'
    have hi' : i < es.length := hlike.length_eq ▸ hi
    obtain ⟨p, q, ⟨hpq, htypes⟩, ⟨hstart, -⟩, hspan, htext⟩ := (hlike.get hi' hi).spans
    have hedit : editedType cs es p = es[i].text :=
      editedType_of_mem hsorted (List.getElem_mem hi') hstart
    refine ⟨q, (List.of_mem_zip hpq).2, hspan, ?_⟩
    calc es'[i].text.toList = (editedType cs es p).toList := by rw [hedit]; exact congrArg _ htext
      _ = (editedType cs' [] q).toList := by rw [(PropertyOutline.mk.inj htypes).2.2]
      _ = slice cs' es'[i].start es'[i].stop := by
        rw [editedType_of_ne (by simp), String.toList_ofList, ← hspan.1, ← hspan.2]
        rfl
  obtain ⟨horder, hspans⟩ := Statements.apart h' hsorted' fun e' he' => by
    obtain ⟨q, hq, hspan, -⟩ := hmem e' he'
    exact ⟨q, hq, hspan⟩
  have hdrop : applyEdits cs' 0 es' = cs'.drop 0 := by
    refine applyEdits_eq_drop horder (fun e' he' => ⟨(hspans e' he').1, (hspans e' he').2.1⟩) ?_
    intro e' he'
    obtain ⟨q, -, -, htext⟩ := hmem e' he'
    exact htext
  exact hdrop

/-- Patching a file again changes nothing, neither on the file as it was patched nor, when it and
the types that are put in are complete, on the file that is read from the patched text. -/
theorem patch_idempotent (text : String) (file : SourceFile)
    (hfile : SourceFile.ofText text = .ok file) (known : List (String × KnownTypes))
    (schemas : List (String × Schema)) (isAugmented : Bool) :
    patch (patch file known schemas isAugmented).1 known schemas isAugmented =
        patch file known schemas isAugmented ∧
    (NoOther text →
      (∀ e ∈ (patchEdits (file.root isAugmented) schemas known).1, IsTypeText e.text) →
      ∃ file', SourceFile.ofText (patch file known schemas isAugmented).1.fullText = .ok file' ∧
        (patch file' known schemas isAugmented).1.fullText =
          (patch file known schemas isAugmented).1.fullText ∧
        (patch file' known schemas isAugmented).2 = (patch file known schemas isAugmented).2) := by
  refine ⟨?_, fun hother htypes => ?_⟩
  · obtain ⟨d, -, rfl⟩ := (ofText_eq_ok_iff text file).mp hfile
    exact patch_patch _ known schemas isAugmented .nil
  obtain ⟨d, h, rfl⟩ := isFile_of_ofText hfile hother
  -- the edits that are collected, and the file that they give
  generalize hedits : patchEdits (SourceFile.root ⟨text, [], d.statements⟩ isAugmented) schemas
    known = edits at htypes
  let es := edits.1.foldl (fun es e => insertEdit e es) []
  have hsorted : es.Pairwise fun e f => e.start < f.start := foldl_insertEdit_sorted edits.1 .nil
  have hpatch : patch ⟨text, [], d.statements⟩ known schemas isAugmented =
      (⟨text, es, d.statements⟩, edits.2) := by
    rw [patch_eq, hedits, SourceFile.edit_eq]
  have hes : AreEdits d es := by
    refine ⟨hsorted, fun e he => ?_⟩
    have he : e ∈ edits.1 := (mem_or_mem_of_mem_foldl he).resolve_right List.not_mem_nil
    obtain ⟨p, hp, hstart, hstop⟩ := exists_property_of_mem_patchEdits
      (f := ⟨text, [], d.statements⟩) (hedits ▸ he)
    exact ⟨p, hp, hstart, hstop, htypes e he⟩
  obtain ⟨d', h', houtlines⟩ := h.applyEdits hes
  let file' : SourceFile := ⟨String.ofList (applyEdits text.toList 0 es), [], d'.statements⟩
  -- the same edits are made to the file that is read again
  have hroot := root_like (f := ⟨text, [], d.statements⟩) (g := file')
    (like_of_outlines _ _ houtlines.symm fun p q hpq hsame => And.intro hpq hsame) isAugmented
  have hname : ∀ p q, SamePlace d d' (editedType text.toList es)
      (editedType (applyEdits text.toList 0 es) []) p q → p.name = q.name :=
    fun p q hpq => (PropertyOutline.mk.inj hpq.2).1
  obtain ⟨hlike, hfailure⟩ := patchEdits_like hname hroot schemas known
  rw [hedits] at hlike hfailure
  generalize hedits' : patchEdits (file'.root isAugmented) schemas known = edits' at hlike hfailure
  have hpatch' : patch file' known schemas isAugmented =
      ({ file' with edits := edits'.1.foldl (fun es e => insertEdit e es) [] }, edits'.2) := by
    rw [patch_eq, hedits', SourceFile.edit_eq]
  have hkept := foldl_insertEdit_like (ordered_samePlace h.yield_eq h'.yield_eq _ _) hlike .nil
  have hagain := applyEdits_again h'.yield_eq hsorted (foldl_insertEdit_sorted edits'.1 .nil) hkept
  rw [hpatch]
  refine ⟨file', h'.ofText_eq, ?_, ?_⟩
  · rw [hpatch']
    simp only [SourceFile.fullText, file', String.toList_ofList, hagain]
  · rw [hpatch']
    exact hfailure.symm

theorem tokens_document : tokens "interface UDocument \x7bv: b\x7d" =
    [⟨.interfaceWord, "interface", 1, 0⟩, ⟨.identifier, "UDocument", 1, 10⟩,
      ⟨.leftBrace, "\x7b", 1, 20⟩, ⟨.identifier, "v", 1, 21⟩, ⟨.colon, ":", 1, 22⟩,
      ⟨.identifier, "b", 1, 24⟩, ⟨.rightBrace, "\x7d", 1, 25⟩] := by
  decide

/-- A virtual that is given an array type, twice on the same file and again on the patched text. -/
theorem patch_idempotent_document :
    ∃ file file', SourceFile.ofText "interface UDocument \x7bv: b\x7d" = .ok file ∧
      ∃ types : KnownTypes,
        (patch file [("U", types)] [] false).1.fullText = "interface UDocument \x7bv: e[]\x7d" ∧
        patch (patch file [("U", types)] [] false).1 [("U", types)] [] false =
          patch file [("U", types)] [] false ∧
        SourceFile.ofText "interface UDocument \x7bv: e[]\x7d" = .ok file' ∧
        (patch file' [("U", types)] [] false).1.fullText = "interface UDocument \x7bv: e[]\x7d" := by
  let text := "interface UDocument \x7bv: b\x7d"
  let file : SourceFile := ⟨text, [], [.interface "UDocument" false [⟨"v", false, 24, 25⟩]]⟩
  let types : KnownTypes := ⟨[], [], [], [("v", "e[]")]⟩
  have hfile : SourceFile.ofText text = .ok file := by
    unfold SourceFile.ofText parse
    rw [tokens_document]
    rfl
  have hother : NoOther text := by
    unfold NoOther
    decide +kernel
  have hpatched : (patch file [("U", types)] [] false).1.fullText =
      "interface UDocument \x7bv: e[]\x7d" := by
    decide +kernel
  have hedits : (patchEdits (file.root false) [] [("U", types)]).1 = [⟨24, 25, "e[]"⟩] := by
    decide +kernel
  obtain ⟨hsame, hagain⟩ := patch_idempotent text file hfile [("U", types)] [] false
  obtain ⟨file', hfile', hfull, -⟩ := hagain hother (by simpa [hedits] using isTypeText_array)
  rw [hpatched] at hfile' hfull
  exact ⟨file, file', hfile, types, hpatched, hsame, hfile', hfull⟩

end SchemaTypings
