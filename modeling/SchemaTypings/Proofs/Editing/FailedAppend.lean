import Mathlib.Data.List.Find
import Mathlib.Data.List.Pairwise
import SchemaTypings.Proofs.Editing.Repetition

/-!
# Failed appends

An append makes the pending edits part of the text before it reads the whole. One that fails
therefore leaves a file with another text, without edits, and with the statements from before.
`append_failed_iff` says when nothing shows of it, now or after other types have been set: when
nothing was appended and each pending edit writes what then stands in the place of its type.

A file is seen as the texts of its types with what stands between them (`IsOrderly.fullText_eq`).
Setting a type changes the text of that type only, and folding the edits into the text changes
nothing between the types as long as they fit their places (`getElem?_applyEdits`).
-/

namespace SchemaTypings.Declaration

/-! ## Files that come about -/

/-- The files that come about by reading a text, setting types of their properties, and appending
texts, also when that fails. -/
inductive SourceFile.Reachable : SourceFile → Prop
  | ofText {text : String} {f : SourceFile} : SourceFile.ofText text = .ok f → Reachable f
  | setType {f : SourceFile} {p : Property} (type : String) : Reachable f →
      p ∈ allProperties f.statements → Reachable (f.setType p type)
  | append {f : SourceFile} (text : String) : Reachable f → Reachable (f.append text).1

/-- The types of a file come one after the other, and each pending edit is made to one of them. The
text need not be the one that the types were read from. -/
structure SourceFile.IsOrderly (f : SourceFile) : Prop where
  span_lt : ∀ p ∈ allProperties f.statements, p.typeStart < p.typeEnd
  apart : (allProperties f.statements).Pairwise fun p q => p.typeEnd ≤ q.typeStart
  sorted : f.edits.Pairwise fun e g => e.start < g.start
  spans : ∀ e ∈ f.edits, ∃ p ∈ allProperties f.statements,
    e.start = p.typeStart ∧ e.stop = p.typeEnd

/-- A file that was just read is orderly. -/
theorem SourceFile.isOrderly_of_ofText {text : String} {f : SourceFile}
    (h : SourceFile.ofText text = .ok f) : f.IsOrderly := by
  obtain ⟨d, hd, rfl⟩ := (ofText_eq_ok_iff text f).mp h
  have hyield := ((derive_eq_ok_iff text d).mp hd).1.trans (tokens_eq_place text)
  refine ⟨fun p hp => (Statements.typeStart_lt hyield hp).1, ?_, .nil, by simp⟩
  exact (Statements.sorted_allProperties hyield).imp_of_mem fun hp hq =>
    Statements.typeEnd_le hyield hp hq

theorem SourceFile.append_eq_of_ok {f : SourceFile} {text : String}
    (h : (f.append text).2 = none) :
    SourceFile.ofText (f.fullText ++ text) = .ok (f.append text).1 := by
  cases hparse : parse (f.fullText ++ text) with
  | ok statements => simp only [ofText, append, hparse, Except.map]
  | error e => simp [append, hparse] at h

/-- A failed append keeps the statements and drops the edits, and the text is the whole that could
not be read. -/
theorem SourceFile.append_eq_of_error {f : SourceFile} {text : String} {e : ParseError}
    (h : (f.append text).2 = some e) :
    (f.append text).1 = ⟨f.fullText ++ text, [], f.statements⟩ := by
  cases hparse : parse (f.fullText ++ text) with
  | ok statements => simp [append, hparse] at h
  | error e => simp only [append, hparse]

theorem SourceFile.IsOrderly.setType {f : SourceFile} (h : f.IsOrderly) {p : Property}
    (hp : p ∈ allProperties f.statements) (type : String) : (f.setType p type).IsOrderly := by
  refine ⟨h.span_lt, h.apart, insertEdit_sorted h.sorted, fun e he => ?_⟩
  obtain rfl | he := eq_or_mem_of_mem_insertEdit he
  · exact ⟨p, hp, rfl, rfl⟩
  · exact h.spans e he

theorem SourceFile.IsOrderly.append {f : SourceFile} (h : f.IsOrderly) (text : String) :
    (f.append text).1.IsOrderly := by
  cases hresult : (f.append text).2 with
  | none => exact isOrderly_of_ofText (append_eq_of_ok hresult)
  | some e =>
    rw [append_eq_of_error hresult]
    exact ⟨h.span_lt, h.apart, .nil, by simp⟩

/-- Every file that comes about is orderly. -/
theorem SourceFile.Reachable.isOrderly {f : SourceFile} (h : f.Reachable) : f.IsOrderly := by
  induction h with
  | ofText hfile => exact isOrderly_of_ofText hfile
  | setType type _ hp ih => exact ih.setType hp type
  | append text _ ih => exact ih.append text

/-! ## The texts of the types -/

section Types

variable {f : SourceFile} (h : f.IsOrderly) {p q : Property}

include h

/-- The types of a file start one after the other. -/
theorem SourceFile.IsOrderly.typeStart_lt :
    (allProperties f.statements).Pairwise fun p q => p.typeStart < q.typeStart :=
  h.apart.imp_of_mem fun hp _ hle => (h.span_lt _ hp).trans_le hle

/-- The properties of an orderly file are distinct. -/
theorem SourceFile.IsOrderly.nodup_allProperties : (allProperties f.statements).Nodup :=
  h.typeStart_lt.imp fun hlt heq => by simp [heq] at hlt

theorem SourceFile.IsOrderly.eq_of_typeStart_eq (hp : p ∈ allProperties f.statements)
    (hq : q ∈ allProperties f.statements) (heq : p.typeStart = q.typeStart) : p = q := by
  have hnodup : ((allProperties f.statements).map Property.typeStart).Nodup :=
    List.pairwise_map.mpr (h.typeStart_lt.imp Nat.ne_of_lt)
  exact List.inj_on_of_nodup_map hnodup hp hq heq

/-- A type ends before the next one starts. -/
theorem SourceFile.IsOrderly.typeEnd_le (hp : p ∈ allProperties f.statements)
    (hq : q ∈ allProperties f.statements) (hlt : p.typeStart < q.typeStart) :
    p.typeEnd ≤ q.typeStart := by
  have hsymm : Std.Symm fun p q : Property =>
      p.typeEnd ≤ q.typeStart ∨ q.typeEnd ≤ p.typeStart := ⟨fun _ _ => Or.symm⟩
  have hne : p ≠ q := fun heq => by simp [heq] at hlt
  have hspan := h.span_lt q hq
  have heither : (allProperties f.statements).Pairwise fun p q =>
      p.typeEnd ≤ q.typeStart ∨ q.typeEnd ≤ p.typeStart := h.apart.imp Or.inl
  -- of two types one ends before the other starts, and it is the one that starts first
  obtain hle | hle := heither.forall hp hq hne
  · exact hle
  · omega

/-- The pending edits are made to places that lie one after the other. -/
theorem SourceFile.IsOrderly.edits_apart : f.edits.Pairwise fun e g => e.stop ≤ g.start := by
  refine h.sorted.imp_of_mem fun he hg hlt => ?_
  obtain ⟨p, hp, hstart, hstop⟩ := h.spans _ he
  obtain ⟨q, hq, hstart', -⟩ := h.spans _ hg
  rw [hstop, hstart']
  exact h.typeEnd_le hp hq (by omega)

/-- The type of a property is the one that its edit gives, or the text of its place. -/
theorem SourceFile.IsOrderly.typeText_eq (hp : p ∈ allProperties f.statements) :
    f.typeText p = editedType f.text.toList f.edits p := by
  -- an edit that starts where the type does ends where it does
  have hfind : (f.edits.find? fun e =>
      (e.start : Int) == p.typeStart && (e.stop : Int) == p.typeEnd) =
      f.edits.find? fun e => e.start = p.typeStart := by
    refine List.find?_congr fun e he => ?_
    obtain ⟨q, hq, hstart, hstop⟩ := h.spans e he
    by_cases heq : e.start = p.typeStart
    · obtain rfl := h.eq_of_typeStart_eq hq hp (hstart ▸ heq)
      simp [hstart, hstop]
    · have hne : (e.start : Int) ≠ p.typeStart := by omega
      simp [heq, hne]
  have hplain := typeText_eq_slice f.text f.statements p
  unfold SourceFile.typeText SourceFile.spanText at hplain ⊢
  rw [hfind, editedType]
  cases f.edits.find? fun e => e.start = p.typeStart with
  | some e => rfl
  | none => exact hplain

/-- Setting a type changes no other type. -/
theorem SourceFile.IsOrderly.typeText_setType (hp : p ∈ allProperties f.statements)
    (hq : q ∈ allProperties f.statements) (type : String) :
    (f.setType p type).typeText q = if p = q then type else f.typeText q := by
  have hplace : p.typeStart = q.typeStart ↔ p = q :=
    ⟨h.eq_of_typeStart_eq hp hq, fun heq => heq ▸ rfl⟩
  rw [(h.setType hp type).typeText_eq hq, h.typeText_eq hq, editedType, editedType,
    SourceFile.setType, SourceFile.replaceSpan, find?_insertEdit]
  simp only [hplace]
  split_ifs <;> rfl

end Types

/-! ## What stands between the types -/

/-- A span is cut at an offset into two parts. -/
theorem slice_append_slice (cs : List Char) {start middle stop : Nat} (hstart : start ≤ middle)
    (hstop : middle ≤ stop) :
    slice cs start middle ++ slice cs middle stop = slice cs start stop := by
  have hlength : stop - start = (middle - start) + (stop - middle) := by omega
  rw [slice, slice, slice, hlength, List.take_add, List.drop_drop, Nat.add_sub_cancel' hstart]

theorem getElem?_slice (cs : List Char) (start stop i : Nat) :
    (slice cs start stop)[i]? = if start + i < stop then cs[start + i]? else none := by
  rw [slice, List.getElem?_take, List.getElem?_drop]
  congr 1
  simp only [eq_iff_iff]
  omega

/-- In front of all edits the text is as it was. -/
theorem applyEdits_split {cs : List Char} {es : List Edit} {offset start stop : Nat}
    (hstart : offset ≤ start) (hstop : start ≤ stop) (hes : ∀ e ∈ es, stop ≤ e.start) :
    applyEdits cs offset es = slice cs offset start ++ slice cs start stop ++
      applyEdits cs stop es := by
  cases es with
  | nil => exact (slice_append_slice_append_drop cs hstart hstop).symm
  | cons e es =>
    have hle := hes e List.mem_cons_self
    rw [applyEdits, applyEdits, ← slice_append_slice cs (hstart.trans hstop) hle,
      ← slice_append_slice cs hstart hstop]
    simp only [List.append_assoc]

/-- The type of a property does not depend on an edit of another one. -/
theorem editedType_cons_of_ne {cs : List Char} {es : List Edit} {e : Edit} {p : Property}
    (hne : e.start ≠ p.typeStart) : editedType cs (e :: es) p = editedType cs es p := by
  rw [editedType, editedType, List.find?_cons_of_neg (by simpa using hne)]

/-- Of edits in the order of their places the first one is made to the first place, or all of them
behind it. -/
theorem cases_of_first_place {p : Property} {ps : List Property} {es : List Edit}
    (hlt : p.typeStart < p.typeEnd) (hbehind : ∀ q ∈ ps, p.typeEnd ≤ q.typeStart)
    (hsorted : es.Pairwise fun e f => e.start < f.start)
    (hes : ∀ e ∈ es, ∃ q ∈ p :: ps, e.start = q.typeStart ∧ e.stop = q.typeEnd) :
    (∃ type after, es = setTypeEdit (p, type) :: after ∧
      ∀ e ∈ after, ∃ q ∈ ps, e.start = q.typeStart ∧ e.stop = q.typeEnd) ∨
    ∀ e ∈ es, ∃ q ∈ ps, e.start = q.typeStart ∧ e.stop = q.typeEnd := by
  have hlater : ∀ e ∈ es, p.typeStart < e.start →
      ∃ q ∈ ps, e.start = q.typeStart ∧ e.stop = q.typeEnd := by
    intro e he hgt
    obtain ⟨q, hq, hspan⟩ := hes e he
    obtain rfl | hq := List.mem_cons.mp hq
    · omega
    · exact ⟨q, hq, hspan⟩
  cases es with
  | nil => exact .inr (by simp)
  | cons e after =>
    have hafter := (List.pairwise_cons.mp hsorted).1
    obtain ⟨q, hq, hstart, hstop⟩ := hes e List.mem_cons_self
    obtain rfl | hq := List.mem_cons.mp hq
    · obtain ⟨start, stop, type⟩ := e
      obtain rfl : start = q.typeStart := hstart
      obtain rfl : stop = q.typeEnd := hstop
      exact .inl ⟨type, after, rfl, fun g hg =>
        hlater g (List.mem_cons_of_mem _ hg) (hafter g hg)⟩
    · have hfirst : p.typeStart < e.start := by
        have := hbehind q hq
        omega
      refine .inr fun g hg => hlater g hg ?_
      obtain rfl | hg := List.mem_cons.mp hg
      · exact hfirst
      · exact hfirst.trans (hafter g hg)

/-- Making some edits is making one at each of the places: where none was to be made, it writes the
text that stands there. -/
theorem applyEdits_everywhere {cs : List Char} {ps : List Property} {es : List Edit} {offset : Nat}
    (hapart : ps.Pairwise fun p q => p.typeEnd ≤ q.typeStart)
    (hspans : ∀ p ∈ ps, offset ≤ p.typeStart ∧ p.typeStart < p.typeEnd)
    (hsorted : es.Pairwise fun e f => e.start < f.start)
    (hes : ∀ e ∈ es, ∃ p ∈ ps, e.start = p.typeStart ∧ e.stop = p.typeEnd) :
    applyEdits cs offset es =
      applyEdits cs offset (ps.map fun p => setTypeEdit (p, editedType cs es p)) := by
  induction ps generalizing es offset with
  | nil =>
    have hnil : es = [] := List.eq_nil_iff_forall_not_mem.mpr fun e he => by simpa using hes e he
    rw [hnil]
    rfl
  | cons p ps ih =>
    obtain ⟨hbehind, hapart⟩ := List.pairwise_cons.mp hapart
    obtain ⟨hstart, hlt⟩ := hspans p List.mem_cons_self
    have hrest : ∀ q ∈ ps, p.typeEnd ≤ q.typeStart ∧ q.typeStart < q.typeEnd := fun q hq =>
      ⟨hbehind q hq, (hspans q (List.mem_cons_of_mem p hq)).2⟩
    rw [List.map_cons, applyEdits]
    obtain ⟨type, after, rfl, hlater⟩ | hlater := cases_of_first_place hlt hbehind hsorted hes
    · -- the types behind the first place are those of the other edits
      have htypes : (ps.map fun q =>
            setTypeEdit (q, editedType cs (setTypeEdit (p, type) :: after) q)) =
          ps.map fun q => setTypeEdit (q, editedType cs after q) :=
        List.map_congr_left fun q hq => by
          have hne : (setTypeEdit (p, type)).start ≠ q.typeStart :=
            (hlt.trans_le (hbehind q hq)).ne
          rw [editedType_cons_of_ne hne]
      have hself : editedType cs (setTypeEdit (p, type) :: after) p = type := by
        simp [editedType, setTypeEdit]
      rw [applyEdits, htypes, hself, setTypeEdit, ih hapart hrest (List.pairwise_cons.mp hsorted).2
        hlater]
    · -- the first place keeps its text
      have hbound : ∀ e ∈ es, p.typeEnd ≤ e.start := fun e he => by
        obtain ⟨q, hq, hspan, -⟩ := hlater e he
        exact hspan ▸ hbehind q hq
      have hnone : ∀ e ∈ es, e.start ≠ p.typeStart := fun e he =>
        (hlt.trans_le (hbound e he)).ne'
      rw [applyEdits_split hstart hlt.le hbound, ih hapart hrest hsorted hlater,
        setTypeEdit, editedType_of_ne hnone, String.toList_ofList]

/-- The text of a file is made of the texts of its types and of what stands between them. -/
theorem SourceFile.IsOrderly.fullText_eq {f : SourceFile} (h : f.IsOrderly) :
    f.fullText = String.ofList (applyEdits f.text.toList 0
      ((allProperties f.statements).map fun p => setTypeEdit (p, f.typeText p))) := by
  rw [SourceFile.fullText, applyEdits_everywhere h.apart
    (fun p hp => ⟨Nat.zero_le _, h.span_lt p hp⟩) h.sorted h.spans,
    List.map_congr_left fun p hp => by rw [← h.typeText_eq hp]]

/-- Edits only look at the text outside of their places. -/
theorem applyEdits_congr {cs cs' : List Char} {es : List Edit} {offset : Nat}
    (hapart : es.Pairwise fun e f => e.stop ≤ f.start)
    (hspans : ∀ e ∈ es, offset ≤ e.start ∧ e.start ≤ e.stop)
    (h : ∀ i, offset ≤ i → (∀ e ∈ es, ¬(e.start ≤ i ∧ i < e.stop)) → cs[i]? = cs'[i]?) :
    applyEdits cs offset es = applyEdits cs' offset es := by
  induction es generalizing offset with
  | nil =>
    refine List.ext_getElem? fun i => ?_
    rw [applyEdits, applyEdits, List.getElem?_drop, List.getElem?_drop]
    exact h _ (Nat.le_add_right offset i) (by simp)
  | cons e es ih =>
    obtain ⟨hbehind, hapart⟩ := List.pairwise_cons.mp hapart
    obtain ⟨hstart, hstop⟩ := hspans e List.mem_cons_self
    -- behind the first edit the texts are compared from where it stops
    have hrest : applyEdits cs e.stop es = applyEdits cs' e.stop es := by
      refine ih hapart (fun g hg => ⟨hbehind g hg, (hspans g (List.mem_cons_of_mem e hg)).2⟩) ?_
      intro i hi houtside
      refine h i (by omega) fun g hg => ?_
      obtain rfl | hg := List.mem_cons.mp hg
      · omega
      · exact houtside g hg
    have hfront : slice cs offset e.start = slice cs' offset e.start := by
      refine List.ext_getElem? fun i => ?_
      rw [getElem?_slice, getElem?_slice]
      split_ifs with hi
      · refine h _ (Nat.le_add_right offset i) fun g hg => ?_
        obtain rfl | hg := List.mem_cons.mp hg
        · omega
        · have := hbehind g hg
          omega
      · rfl
    rw [applyEdits, applyEdits, hfront, hrest]

/-! ## Edits that fit their places -/

/-- What stands in places that lie one after the other behind an offset is no longer than what
stands behind the offset. -/
theorem length_flatten_slice_le (out : List Char) {es : List Edit} {offset : Nat}
    (hapart : es.Pairwise fun e f => e.stop ≤ f.start)
    (hspans : ∀ e ∈ es, offset ≤ e.start ∧ e.start ≤ e.stop) :
    (es.map fun e => slice out e.start e.stop).flatten.length ≤ out.length - offset := by
  induction es generalizing offset with
  | nil => exact Nat.zero_le _
  | cons e es ih =>
    obtain ⟨hbehind, hapart⟩ := List.pairwise_cons.mp hapart
    obtain ⟨hstart, hstop⟩ := hspans e List.mem_cons_self
    have hrest := ih hapart fun g hg => ⟨hbehind g hg, (hspans g (List.mem_cons_of_mem e hg)).2⟩
    rw [List.map_cons, List.flatten_cons, List.length_append, length_slice]
    omega

/-- Behind the end of the text there are only the texts of the edits. -/
theorem applyEdits_beyond {cs : List Char} {es : List Edit} {offset : Nat}
    (hoffset : cs.length ≤ offset) (hes : ∀ e ∈ es, cs.length ≤ e.stop) :
    applyEdits cs offset es = (es.map (·.text.toList)).flatten := by
  induction es generalizing offset with
  | nil => exact List.drop_of_length_le hoffset
  | cons e es ih =>
    have hempty : slice cs offset e.start = [] := by
      rw [slice, List.drop_of_length_le hoffset, List.take_nil]
    rw [applyEdits, hempty, ih (hes e List.mem_cons_self) fun g hg =>
      hes g (List.mem_cons_of_mem e hg)]
    rfl

/-- When edits write nothing behind an offset, the text has nothing there outside of their
places. -/
theorem getElem?_eq_none_of_applyEdits {cs : List Char} {es : List Edit} {offset : Nat}
    (h : applyEdits cs offset es = []) {i : Nat} (hi : offset ≤ i)
    (houtside : ∀ e ∈ es, ¬(e.start ≤ i ∧ i < e.stop)) : cs[i]? = none := by
  induction es generalizing offset with
  | nil =>
    have hle : cs.length ≤ offset := by simpa [applyEdits] using h
    exact List.getElem?_eq_none (hle.trans hi)
  | cons e es ih =>
    simp only [applyEdits, List.append_eq_nil_iff] at h
    obtain ⟨⟨hfront, -⟩, hrest⟩ := h
    by_cases hbefore : i < e.start
    · have hnone : (slice cs offset e.start)[i - offset]? = none := by rw [hfront]; rfl
      rw [getElem?_slice, if_pos (by omega), Nat.add_sub_cancel' hi] at hnone
      exact hnone
    · have hbehind := houtside e List.mem_cons_self
      exact ih hrest (by omega) fun g hg => houtside g (List.mem_cons_of_mem e hg)

/-- A text that a span was to take up fills it, or the text ends with it. -/
theorem length_eq_of_slice_eq {front text rest : List Char} {start stop : Nat}
    (hfront : front.length = start) (h : slice (front ++ text ++ rest) start stop = text) :
    text.length = stop - start ∨ rest = [] ∧ text.length < stop - start := by
  have hlength := congrArg List.length h
  simp only [length_slice, List.length_append] at hlength
  rw [← List.length_eq_zero_iff]
  omega

/-- Nothing is written behind a gap at the end of the text. -/
theorem flatten_eq_nil_of_fit {out front : List Char} {es : List Edit} (offset : Nat)
    (hfront : front.length < offset) (hout : out = front ++ (es.map (·.text.toList)).flatten)
    (hapart : es.Pairwise fun e f => e.stop ≤ f.start)
    (hspans : ∀ e ∈ es, offset ≤ e.start ∧ e.start ≤ e.stop)
    (hfit : ∀ e ∈ es, slice out e.start e.stop = e.text.toList) :
    (es.map (·.text.toList)).flatten = [] := by
  have hlength := length_flatten_slice_le out hapart hspans
  rw [List.map_congr_left hfit, hout, List.length_append] at hlength
  exact List.length_eq_zero_iff.mp (by omega)

/-- Edits that write what then stands in their places leave the rest of the text where it is. -/
theorem getElem?_applyEdits {cs out front : List Char} {es : List Edit} {offset : Nat}
    (hfront : front.length = offset) (hout : out = front ++ applyEdits cs offset es)
    (hapart : es.Pairwise fun e f => e.stop ≤ f.start)
    (hspans : ∀ e ∈ es, offset ≤ e.start ∧ e.start ≤ e.stop)
    (hfit : ∀ e ∈ es, slice out e.start e.stop = e.text.toList) {i : Nat} (hi : offset ≤ i)
    (houtside : ∀ e ∈ es, ¬(e.start ≤ i ∧ i < e.stop)) : out[i]? = cs[i]? := by
  induction es generalizing front offset with
  | nil =>
    rw [hout, applyEdits, List.getElem?_append_right (by omega), List.getElem?_drop, hfront,
      Nat.add_sub_cancel' hi]
  | cons e es ih =>
    obtain ⟨hbehind, hapart'⟩ := List.pairwise_cons.mp hapart
    obtain ⟨hstart, hstop⟩ := hspans e List.mem_cons_self
    rw [applyEdits, ← List.append_assoc, ← List.append_assoc] at hout
    have hlength := length_slice cs offset e.start
    -- in front of the first edit the text is as it was
    have hbefore : i - offset < (slice cs offset e.start).length → out[i]? = cs[i]? := fun hlt => by
      have hi' : i < e.start := by omega
      rw [hout, List.append_assoc, List.append_assoc, List.getElem?_append_right (by omega),
        List.getElem?_append_left (by omega), getElem?_slice, hfront, Nat.add_sub_cancel' hi,
        if_pos hi']
    by_cases hfull : offset + (slice cs offset e.start).length = e.start
    · by_cases hi' : i < e.start
      · exact hbefore (by omega)
      have hstop' : e.stop ≤ i := by
        have := houtside e List.mem_cons_self
        omega
      have hfront' : (front ++ slice cs offset e.start).length = e.start := by simp [hfront, hfull]
      -- the first edit fills its place, or the text ends with it
      obtain hfills | ⟨hrest, hshort⟩ :=
        length_eq_of_slice_eq hfront' (hout ▸ hfit e List.mem_cons_self)
      · refine ih (by rw [List.length_append, hfront']; omega) hout hapart'
          (fun g hg => ⟨hbehind g hg, (hspans g (List.mem_cons_of_mem e hg)).2⟩)
          (fun g hg => hfit g (List.mem_cons_of_mem e hg)) hstop'
          fun g hg => houtside g (List.mem_cons_of_mem e hg)
      · rw [getElem?_eq_none_of_applyEdits hrest hstop' fun g hg =>
          houtside g (List.mem_cons_of_mem e hg)]
        refine List.getElem?_eq_none ?_
        rw [hout, hrest, List.append_nil, List.length_append, hfront']
        omega
    · -- the text ends in front of the first edit
      have htexts : out = front ++ slice cs offset e.start ++
          ((e :: es).map (·.text.toList)).flatten := by
        rw [hout, applyEdits_beyond (by omega), List.append_assoc]
        · rfl
        · intro g hg
          have := (hspans g (List.mem_cons_of_mem e hg)).2
          have := hbehind g hg
          omega
      have hnil : ((e :: es).map (·.text.toList)).flatten = [] := by
        refine flatten_eq_nil_of_fit e.start ?_ htexts hapart (fun g hg => ?_) hfit
        · rw [List.length_append]
          omega
        · obtain rfl | hg := List.mem_cons.mp hg
          · exact ⟨le_rfl, hstop⟩
          · exact ⟨hstop.trans (hbehind g hg), (hspans g (List.mem_cons_of_mem e hg)).2⟩
      by_cases hi' : i - offset < (slice cs offset e.start).length
      · exact hbefore hi'
      · have hend : out.length ≤ i := by
          rw [htexts, hnil, List.append_nil, List.length_append]
          omega
        rw [List.getElem?_eq_none hend, List.getElem?_eq_none (by omega)]

/-! ## What shows of a file -/

/-- The file with types set, one after the other. -/
def SourceFile.setTypes (f : SourceFile) (types : List (Property × String)) : SourceFile :=
  types.foldl (fun f e => f.setType e.1 e.2) f

@[simp] theorem SourceFile.statements_setTypes (f : SourceFile) (types : List (Property × String)) :
    (f.setTypes types).statements = f.statements := by
  induction types generalizing f with
  | nil => rfl
  | cons e types ih => exact ih (f.setType e.1 e.2)

/-- The two files cannot be told apart: they have the same statements, and, whatever types of their
properties are set, the same text and the same types. -/
structure SourceFile.Alike (f g : SourceFile) : Prop where
  statements_eq : f.statements = g.statements
  fullText_eq : ∀ types : List (Property × String),
    (∀ e ∈ types, e.1 ∈ allProperties f.statements) →
      (f.setTypes types).fullText = (g.setTypes types).fullText
  typeText_eq : ∀ types : List (Property × String),
    (∀ e ∈ types, e.1 ∈ allProperties f.statements) →
      ∀ p ∈ allProperties f.statements, (f.setTypes types).typeText p = (g.setTypes types).typeText p

/-- Two orderly files with the same statements and types, and the same text between the types. -/
structure SourceFile.Agree (f g : SourceFile) : Prop where
  orderly : f.IsOrderly
  orderly' : g.IsOrderly
  statements_eq : f.statements = g.statements
  outside_eq : ∀ i : Nat, (∀ p ∈ allProperties f.statements, ¬(p.typeStart ≤ i ∧ i < p.typeEnd)) →
    f.text.toList[i]? = g.text.toList[i]?
  typeText_eq : ∀ p ∈ allProperties f.statements, f.typeText p = g.typeText p

theorem SourceFile.Agree.fullText_eq {f g : SourceFile} (h : f.Agree g) :
    f.fullText = g.fullText := by
  have htypes : ((allProperties f.statements).map fun p => setTypeEdit (p, f.typeText p)) =
      (allProperties g.statements).map fun p => setTypeEdit (p, g.typeText p) := by
    rw [← h.statements_eq]
    exact List.map_congr_left fun p hp => by rw [h.typeText_eq p hp]
  rw [h.orderly.fullText_eq, h.orderly'.fullText_eq, ← htypes]
  congr 1
  refine applyEdits_congr ?_ ?_ fun i _ houtside => h.outside_eq i fun p hp =>
    houtside _ (List.mem_map_of_mem hp)
  · exact List.pairwise_map.mpr h.orderly.apart
  · simpa [setTypeEdit] using fun p hp => (h.orderly.span_lt p hp).le

theorem SourceFile.Agree.setType {f g : SourceFile} (h : f.Agree g) {p : Property}
    (hp : p ∈ allProperties f.statements) (type : String) :
    (f.setType p type).Agree (g.setType p type) := by
  have hp' : p ∈ allProperties g.statements := h.statements_eq ▸ hp
  refine ⟨h.orderly.setType hp type, h.orderly'.setType hp' type, h.statements_eq, h.outside_eq, ?_⟩
  intro q hq
  rw [h.orderly.typeText_setType hp hq, h.orderly'.typeText_setType hp' (h.statements_eq ▸ hq),
    h.typeText_eq q hq]

theorem SourceFile.Agree.setTypes {f g : SourceFile} (h : f.Agree g)
    {types : List (Property × String)} (htypes : ∀ e ∈ types, e.1 ∈ allProperties f.statements) :
    (f.setTypes types).Agree (g.setTypes types) := by
  induction types generalizing f g with
  | nil => exact h
  | cons e types ih =>
    exact ih (h.setType (htypes e List.mem_cons_self) e.2) fun e' he' =>
      htypes e' (List.mem_cons_of_mem e he')

/-- When the pending edits write what then stands in their places, folding them into the text
changes nothing that shows. -/
theorem SourceFile.IsOrderly.agree_fold {f : SourceFile} (h : f.IsOrderly)
    (hfit : ∀ e ∈ f.edits, slice f.fullText.toList e.start e.stop = e.text.toList) :
    f.Agree ⟨f.fullText, [], f.statements⟩ := by
  have hedit : ∀ e ∈ f.edits, 0 ≤ e.start ∧ e.start ≤ e.stop := fun e he => by
    obtain ⟨p, hp, hstart, hstop⟩ := h.spans e he
    have := h.span_lt p hp
    omega
  have houtside : ∀ i, (∀ e ∈ f.edits, ¬(e.start ≤ i ∧ i < e.stop)) →
      f.text.toList[i]? = f.fullText.toList[i]? := fun i hi =>
    (getElem?_applyEdits List.length_nil String.toList_ofList h.edits_apart hedit hfit
      (Nat.zero_le i) hi).symm
  have horderly : SourceFile.IsOrderly ⟨f.fullText, [], f.statements⟩ :=
    ⟨h.span_lt, h.apart, .nil, by simp⟩
  refine ⟨h, horderly, rfl, fun i hi => houtside i fun e he => ?_, fun p hp => ?_⟩
  · obtain ⟨p, hp, hstart, hstop⟩ := h.spans e he
    exact hstart ▸ hstop ▸ hi p hp
  · rw [h.typeText_eq hp, horderly.typeText_eq hp]
    by_cases hedited : ∃ e ∈ f.edits, e.start = p.typeStart
    · obtain ⟨e, he, hstart⟩ := hedited
      obtain ⟨q, hq, hstart', hstop⟩ := h.spans e he
      obtain rfl := h.eq_of_typeStart_eq hq hp (hstart' ▸ hstart)
      rw [editedType_of_mem h.sorted he hstart, editedType_of_ne (by simp), ← hstart, ← hstop,
        hfit e he, String.ofList_toList]
    · have hnone : ∀ e ∈ f.edits, e.start ≠ p.typeStart := fun e he heq => hedited ⟨e, he, heq⟩
      rw [editedType_of_ne hnone, editedType_of_ne (by simp)]
      congr 1
      -- a type that is not edited lies outside of the places of all edits
      refine List.ext_getElem? fun i => ?_
      rw [getElem?_slice, getElem?_slice]
      split_ifs with hi
      · refine houtside _ fun e he => ?_
        obtain ⟨q, hq, hstart, hstop⟩ := h.spans e he
        have hne := hnone e he
        obtain hlt | hgt := Nat.lt_or_gt_of_ne hne
        · have := h.typeEnd_le hq hp (hstart ▸ hlt)
          omega
        · have := h.typeEnd_le hp hq (hstart ▸ hgt)
          omega
      · rfl

/-- A failed append keeps the statements, and the text is the whole that could not be read. Nothing
shows of it, now or after types have been set, when nothing was appended and each pending edit
writes what then stands in its place. -/
theorem append_failed_iff (f : SourceFile) (hf : f.Reachable) (text : String) (e : ParseError)
    (h : (f.append text).2 = some e) :
    (f.append text).1.statements = f.statements ∧
      (f.append text).1.fullText = f.fullText ++ text ∧
      (f.Alike (f.append text).1 ↔
        text = "" ∧
          ∀ g ∈ f.edits, slice f.fullText.toList g.start g.stop = g.text.toList) := by
  have horderly := hf.isOrderly
  have hwhole : SourceFile.fullText ⟨f.fullText ++ text, [], f.statements⟩ =
      f.fullText ++ text := by
    rw [SourceFile.fullText, applyEdits, List.drop_zero, String.ofList_toList]
  rw [SourceFile.append_eq_of_error h]
  refine ⟨rfl, hwhole, fun halike => ?_, ?_⟩
  · -- without any type set the files show their texts and their types
    have htext : f.fullText = f.fullText ++ text :=
      (halike.fullText_eq [] (by simp)).trans hwhole
    obtain rfl : text = "" := by
      have hnil := congrArg String.toList htext
      rw [String.toList_append, List.self_eq_append_right] at hnil
      exact String.toList_eq_nil_iff.mp hnil
    refine ⟨rfl, fun g hg => ?_⟩
    obtain ⟨p, hp, hstart, hstop⟩ := horderly.spans g hg
    have htype : f.typeText p = SourceFile.typeText ⟨f.fullText ++ "", [], f.statements⟩ p :=
      halike.typeText_eq [] (by simp) p hp
    rw [horderly.typeText_eq hp, editedType_of_mem horderly.sorted hg hstart, typeText_eq_slice,
      String.append_empty] at htype
    rw [htype, String.toList_ofList, hstart, hstop]
  · -- the text agrees with the old one outside of the edits, and types are set nowhere else
    rintro ⟨rfl, hfit⟩
    rw [String.append_empty]
    have hagree := horderly.agree_fold hfit
    exact ⟨rfl, fun types htypes => (hagree.setTypes htypes).fullText_eq, fun types htypes p hp =>
      (hagree.setTypes htypes).typeText_eq p (by simpa using hp)⟩

theorem tokens_oneProperty : tokens "interface A \x7bp: B\x7d" =
    [⟨.interfaceWord, "interface", 1, 0⟩, ⟨.identifier, "A", 1, 10⟩, ⟨.leftBrace, "\x7b", 1, 12⟩,
      ⟨.identifier, "p", 1, 13⟩, ⟨.colon, ":", 1, 14⟩, ⟨.identifier, "B", 1, 16⟩,
      ⟨.rightBrace, "\x7d", 1, 17⟩] := by
  decide

theorem tokens_braceType : tokens "interface A \x7bp: \x7d\x7d" =
    [⟨.interfaceWord, "interface", 1, 0⟩, ⟨.identifier, "A", 1, 10⟩, ⟨.leftBrace, "\x7b", 1, 12⟩,
      ⟨.identifier, "p", 1, 13⟩, ⟨.colon, ":", 1, 14⟩, ⟨.rightBrace, "\x7d", 1, 16⟩,
      ⟨.rightBrace, "\x7d", 1, 17⟩] := by
  decide

theorem tokens_braceBehind : tokens "interface A \x7bp: Array<B>\x7d\x7d" =
    [⟨.interfaceWord, "interface", 1, 0⟩, ⟨.identifier, "A", 1, 10⟩, ⟨.leftBrace, "\x7b", 1, 12⟩,
      ⟨.identifier, "p", 1, 13⟩, ⟨.colon, ":", 1, 14⟩, ⟨.identifier, "Array", 1, 16⟩,
      ⟨.less, "<", 1, 21⟩, ⟨.identifier, "B", 1, 22⟩, ⟨.greater, ">", 1, 23⟩,
      ⟨.rightBrace, "\x7d", 1, 24⟩, ⟨.rightBrace, "\x7d", 1, 25⟩] := by
  decide

/-- The text of an interface with one property, read as a file. -/
def oneProperty : SourceFile :=
  ⟨"interface A \x7bp: B\x7d", [], [.interface "A" false [⟨"p", false, 16, 17⟩]]⟩

theorem reachable_oneProperty (type : String) :
    (oneProperty.setType ⟨"p", false, 16, 17⟩ type).Reachable := by
  have hfile : SourceFile.ofText "interface A \x7bp: B\x7d" = .ok oneProperty := by
    unfold SourceFile.ofText parse
    rw [tokens_oneProperty]
    rfl
  exact .setType type (.ofText hfile)
    (by simp [oneProperty, allProperties, Statement.properties])

/-- A brace in the place of the type makes the text unreadable, and appending nothing to it fails
without a trace. -/
theorem append_failed_brace :
    ((oneProperty.setType ⟨"p", false, 16, 17⟩ "\x7d").append "").2 =
        some (.unexpected ⟨.rightBrace, "\x7d", 1, 16⟩) ∧
      (oneProperty.setType ⟨"p", false, 16, 17⟩ "\x7d").Alike
        ((oneProperty.setType ⟨"p", false, 16, 17⟩ "\x7d").append "").1 := by
  have hfails : ((oneProperty.setType ⟨"p", false, 16, 17⟩ "\x7d").append "").2 =
      some (.unexpected ⟨.rightBrace, "\x7d", 1, 16⟩) := by
    unfold SourceFile.append
    have htext : (oneProperty.setType ⟨"p", false, 16, 17⟩ "\x7d").fullText ++ "" =
        "interface A \x7bp: \x7d\x7d" := by decide
    have hparse : parse "interface A \x7bp: \x7d\x7d" =
        .error (.unexpected ⟨.rightBrace, "\x7d", 1, 16⟩) := by
      unfold parse
      rw [tokens_braceType]
      rfl
    simp only [htext, hparse]
  refine ⟨hfails, (append_failed_iff _ (reachable_oneProperty "\x7d") "" _ hfails).2.2.mpr
    ⟨rfl, ?_⟩⟩
  decide

/-- A closing brace too many is not appended, but the text and the type are no longer those from
before, and a type that is set later is put in the place of a part of the old one. -/
theorem failed_append_shows :
    let f := oneProperty.setType ⟨"p", false, 16, 17⟩ "Array<B>"
    let g := (f.append "\x7d").1
    f.Reachable ∧ (f.append "\x7d").2 = some (.unexpected ⟨.rightBrace, "\x7d", 1, 25⟩) ∧
      (f.fullText = "interface A \x7bp: Array<B>\x7d" ∧
        g.fullText = "interface A \x7bp: Array<B>\x7d\x7d") ∧
      (f.typeText ⟨"p", false, 16, 17⟩ = "Array<B>" ∧ g.typeText ⟨"p", false, 16, 17⟩ = "A") ∧
      (f.setType ⟨"p", false, 16, 17⟩ "C").fullText = "interface A \x7bp: C\x7d" ∧
      (g.setType ⟨"p", false, 16, 17⟩ "C").fullText = "interface A \x7bp: Crray<B>\x7d\x7d" := by
  have htext : (oneProperty.setType ⟨"p", false, 16, 17⟩ "Array<B>").fullText ++ "\x7d" =
      "interface A \x7bp: Array<B>\x7d\x7d" := by decide
  have hparse : parse "interface A \x7bp: Array<B>\x7d\x7d" =
      .error (.unexpected ⟨.rightBrace, "\x7d", 1, 25⟩) := by
    unfold parse
    rw [tokens_braceBehind]
    rfl
  have hfails : (oneProperty.setType ⟨"p", false, 16, 17⟩ "Array<B>").append "\x7d" =
      (⟨"interface A \x7bp: Array<B>\x7d\x7d", [], oneProperty.statements⟩,
        some (.unexpected ⟨.rightBrace, "\x7d", 1, 25⟩)) := by
    simp only [SourceFile.append, htext, hparse]
    rfl
  intro f g
  have hg : g = ⟨"interface A \x7bp: Array<B>\x7d\x7d", [], oneProperty.statements⟩ :=
    congrArg Prod.fst hfails
  refine ⟨reachable_oneProperty "Array<B>", congrArg Prod.snd hfails, ⟨by decide, ?_⟩,
    ⟨by decide, ?_⟩, by decide, ?_⟩
  all_goals
    rw [hg]
    decide

end SchemaTypings.Declaration
