import Mathlib.Data.List.Induction
import SchemaTypings.Proofs.Annotations.Parts

/-!
# Annotations in another spelling

A container name of the vocabulary stands for a class, and a union may be written with bars or as the
vocabulary's union. `Respells` relates annotations that are written with other such spellings, at any
depth, and `typing_respelled` says that they have the same type. The two container names that read
otherwise than their classes when they have no arguments are left out of it.

Members of a union may become equal when they are respelled, and all but the first of them are
dropped. This changes nothing as long as they read alike (`ReadAlike`). What is nothing has two texts,
so that it matters too whether a union comes down to one member that is nothing: such members have
one spelling only (`IsRigid`).
-/

namespace SchemaTypings

/-! ## Texts without repetitions -/

/-- One more text is kept unless it is there already. -/
theorem distinctTexts_concat (texts : List String) (s : String) :
    distinctTexts (texts ++ [s]) =
      if s ∈ texts then distinctTexts texts else distinctTexts texts ++ [s] := by
  rw [distinctTexts_eq, distinctTexts_eq, List.eraseDups_append]
  by_cases hs : s ∈ texts <;> simp [List.removeAll, hs, List.eraseDups_cons]

/-- The texts without repetitions of two parts are given by those of each part. -/
theorem distinctTexts_append_congr {xs xs' ys ys' : List String}
    (hx : distinctTexts xs = distinctTexts xs') (hy : distinctTexts ys = distinctTexts ys') :
    distinctTexts (xs ++ ys) = distinctTexts (xs' ++ ys') := by
  simp only [distinctTexts_eq] at hx hy ⊢
  have hmem : ∀ s, s ∈ xs ↔ s ∈ xs' := fun s => by
    rw [← List.mem_eraseDups, hx, List.mem_eraseDups]
  have hremove : ∀ zs : List String, zs.removeAll xs = zs.removeAll xs' := fun zs => by
    simp [List.removeAll, hmem]
  rw [List.eraseDups_append, List.eraseDups_append, hx, hremove, List.removeAll, eraseDups_filter,
    hy, ← eraseDups_filter, ← List.removeAll]

/-- The texts without repetitions of some parts are given by those of each part. -/
theorem distinctTexts_flatMap_congr {α : Type} {f g : α → List String} {l : List α}
    (h : ∀ x ∈ l, distinctTexts (f x) = distinctTexts (g x)) :
    distinctTexts (l.flatMap f) = distinctTexts (l.flatMap g) := by
  induction l with
  | nil => rfl
  | cons x l ih =>
    rw [List.flatMap_cons, List.flatMap_cons]
    exact distinctTexts_append_congr (h x (by simp)) (ih fun y hy => h y (by simp [hy]))

namespace TypeHint

/-! ## Rigid annotations -/

/-- The annotation is nothing, with metadata or under aliases, or an ellipsis. It has no other
spelling. -/
inductive IsRigid : TypeHint → Prop
  | nothing : IsRigid .nothing
  | noneType : IsRigid (.type .noneType)
  | ellipsis : IsRigid (.type .ellipsis)
  | annotated {a : TypeHint} (h : a.IsRigid) : IsRigid (.annotated a)
  | alias {a : TypeHint} (h : a.IsRigid) : IsRigid (.alias a)

/-- Only a rigid annotation reads otherwise in a result. -/
theorem typing_eq_of_not_isRigid {a : TypeHint} (h : ¬a.IsRigid) (isResult : Bool) :
    a.typing isResult = a.typing false := by
  cases a with
  | nothing => exact absurd .nothing h
  | type t =>
    have ht : t ≠ .noneType := fun ht => h (ht ▸ .noneType)
    simp only [typing, ht, if_false]
  | annotated inner =>
    exact typing_eq_of_not_isRigid (a := inner) (fun hinner => h (.annotated hinner)) isResult
  | «alias» target =>
    exact typing_eq_of_not_isRigid (a := target) (fun htarget => h (.alias htarget)) isResult
  | _ => rfl

/-- An annotation is equal to a rigid one only if it is that one. -/
theorem IsRigid.same_iff {x : TypeHint} (hx : x.IsRigid) {a : TypeHint} : same a x ↔ a = x := by
  induction hx generalizing a with
  | nothing | noneType | ellipsis => cases a <;> simp [same]
  | annotated _ ih | «alias» _ ih => cases a <;> simp [same, ih]

/-! ## Members of unions -/

/-- Of equal annotations, the later ones read like the first. -/
def ReadAlike (as : List TypeHint) : Prop :=
  as.Pairwise fun a b => same b a → b.typing false = a.typing false

/-- One more annotation is kept unless it is equal to one that is kept. -/
theorem dropRepeated_concat (as : List TypeHint) (a : TypeHint) :
    dropRepeated (as ++ [a]) =
      if (dropRepeated as).any (same a) then dropRepeated as else dropRepeated as ++ [a] := by
  simp only [dropRepeated_eq, List.foldl_append, List.foldl_cons, List.foldl_nil, List.any_reverse]
  rw [keepNew]
  split <;> simp

/-- An annotation that is dropped is equal to one that is kept. -/
theorem mem_dropRepeated_or_same {as : List TypeHint} {a : TypeHint} (h : a ∈ as) :
    a ∈ dropRepeated as ∨ ∃ b ∈ dropRepeated as, same a b := by
  induction as using List.reverseRecOn with
  | nil => simp at h
  | append_singleton as c ih =>
    rw [dropRepeated_concat]
    split
    · rename_i hrepeated
      rcases List.mem_append.mp h with h | h
      · exact ih h
      · obtain rfl := List.mem_singleton.mp h
        exact .inr (List.any_eq_true.mp hrepeated)
    · rcases List.mem_append.mp h with h | h
      · exact (ih h).imp (List.mem_append_left _) fun ⟨b, hb, hsame⟩ =>
          ⟨b, List.mem_append_left _ hb, hsame⟩
      · exact .inl (List.mem_append_right _ h)

/-- All annotations that are kept are a rigid one exactly when all are. -/
theorem forall_dropRepeated_eq_iff {x : TypeHint} (hx : x.IsRigid) {as : List TypeHint} :
    (∀ a ∈ dropRepeated as, a = x) ↔ ∀ a ∈ as, a = x := by
  refine ⟨fun h a ha => ?_, fun h a ha => h a (mem_of_mem_dropRepeated ha)⟩
  rcases mem_dropRepeated_or_same ha with hkept | ⟨b, hb, hsame⟩
  · exact h a hkept
  · exact hx.same_iff.mp (h b hb ▸ hsame)

/-- Of one rigid annotation in repetition, one is kept. -/
theorem dropRepeated_eq_singleton {x : TypeHint} (hx : x.IsRigid) {as : List TypeHint}
    (hne : as ≠ []) (h : ∀ a ∈ as, a = x) : dropRepeated as = [x] := by
  obtain ⟨n, rfl⟩ : ∃ n, as = List.replicate (n + 1) x := by
    obtain ⟨a, rest, rfl⟩ := List.exists_cons_of_ne_nil hne
    exact ⟨rest.length, List.eq_replicate_iff.mpr ⟨by simp, h⟩⟩
  clear hne h
  induction n with
  | zero => rfl
  | succ n ih =>
    rw [List.replicate_succ', dropRepeated_concat, ih]
    simp [hx.same_iff]

/-- What is dropped from annotations that read alike adds no text. -/
theorem distinctTexts_dropRepeated {as : List TypeHint} (h : ReadAlike as) :
    distinctTexts (typings (dropRepeated as)) = distinctTexts (typings as) := by
  simp only [typings_eq_map]
  induction as using List.reverseRecOn with
  | nil => rfl
  | append_singleton as a ih =>
    obtain ⟨has, -, hlast⟩ := List.pairwise_append.mp h
    have hkept := ih has
    -- the last annotation repeats one that is kept, or its text is added on both sides
    rw [dropRepeated_concat]
    split
    · rename_i hrepeated
      obtain ⟨b, hb, hsame⟩ := List.any_eq_true.mp hrepeated
      have hb' := mem_of_mem_dropRepeated hb
      have hread : a.typing false = b.typing false := hlast b hb' a (by simp) hsame
      have hmem : a.typing false ∈ as.map (typing · false) :=
        hread ▸ List.mem_map_of_mem (f := (typing · false)) hb'
      rw [hkept, List.map_append, List.map_singleton, distinctTexts_concat, if_pos hmem]
    · rw [List.map_append, List.map_append]
      exact distinctTexts_append_congr hkept rfl

/-- The annotation contributes something to a union, and nothing that is a union itself. -/
def IsFlat (a : TypeHint) : Prop :=
  a.unionMembers ≠ [] ∧ ∀ b ∈ a.unionMembers, b.unionMembers = [b]

theorem unionMembers_type {t : TypeObject} (h : t ≠ .noneType) :
    unionMembers (.type t) = [.type t] := by
  cases t <;> first | rfl | exact absurd rfl h

/-- An annotation that is no union is flat. -/
theorem isFlat_of_not_isUnion {a : TypeHint} (h : a.isUnion = false) : a.IsFlat := by
  have hsingle : ∀ {b : TypeHint}, a.unionMembers = [b] → b.unionMembers = [b] → a.IsFlat := by
    intro b hab hb
    simp [IsFlat, hab, hb]
  cases a with
  | union => contradiction
  | text s => exact hsingle (b := .forward s) rfl rfl
  | type t =>
    by_cases ht : t = .noneType
    · subst ht
      exact hsingle (b := .nothing) rfl rfl
    · exact hsingle (unionMembers_type ht) (unionMembers_type ht)
  | _ => exact hsingle rfl rfl

section UnionOf

variable {spelling : UnionSpelling} {as : List TypeHint}

/-- There is something in the union of flat annotations. -/
theorem flatMap_unionMembers_ne_nil (hne : as ≠ []) (h : ∀ a ∈ as, a.IsFlat) :
    as.flatMap unionMembers ≠ [] := by
  obtain ⟨a, rest, rfl⟩ := List.exists_cons_of_ne_nil hne
  simpa using fun hnil => absurd hnil (h a (by simp)).1

/-- What the union of flat annotations contributes to a union is what they contribute. -/
theorem unionMembers_unionOf (h : ∀ a ∈ as, a.IsFlat) :
    (unionOf spelling as).unionMembers = dropRepeated (as.flatMap unionMembers) := by
  have hmembers : ∀ b ∈ dropRepeated (as.flatMap unionMembers), b.unionMembers = [b] := by
    intro b hb
    obtain ⟨a, ha, hb⟩ := List.mem_flatMap.mp (mem_of_mem_dropRepeated hb)
    exact (h a ha).2 b hb
  unfold unionOf
  split
  · rename_i b heq
    rw [heq, hmembers b (by simp [heq])]
  · rfl

theorem isFlat_unionOf (hne : as ≠ []) (h : ∀ a ∈ as, a.IsFlat) :
    (unionOf spelling as).IsFlat := by
  rw [IsFlat, unionMembers_unionOf h]
  refine ⟨dropRepeated_ne_nil (flatMap_unionMembers_ne_nil hne h), fun b hb => ?_⟩
  obtain ⟨a, ha, hb⟩ := List.mem_flatMap.mp (mem_of_mem_dropRepeated hb)
  exact (h a ha).2 b hb

/-- A union is rigid when all that is in it is one rigid annotation. -/
theorem unionOf_eq_iff (hne : as ≠ []) (h : ∀ a ∈ as, a.IsFlat) {x : TypeHint} (hx : x.IsRigid) :
    unionOf spelling as = x ↔
      x.unionMembers = [x] ∧ ∀ a ∈ as.flatMap unionMembers, a = x := by
  rw [← forall_dropRepeated_eq_iff hx]
  constructor
  · intro heq
    have hmembers : x.unionMembers = dropRepeated (as.flatMap unionMembers) :=
      heq ▸ unionMembers_unionOf h
    unfold unionOf at heq
    split at heq
    · rename_i b hb
      subst heq
      exact ⟨hmembers.trans hb, by simp [hb]⟩
    · subst heq
      nomatch hx
  · rintro ⟨-, hall⟩
    have hkept := dropRepeated_eq_singleton hx (flatMap_unionMembers_ne_nil hne h)
      ((forall_dropRepeated_eq_iff hx).mp hall)
    rw [unionOf, hkept]

/-- The type of a union is made of all that is in it, when it reads alike. -/
theorem typing_unionOf (h : ReadAlike (as.flatMap unionMembers)) :
    (unionOf spelling as).typing false = unionText (typings (as.flatMap unionMembers)) := by
  rw [unionText, ← distinctTexts_dropRepeated h]
  unfold unionOf
  split
  · rename_i b heq
    simp [heq, typings, distinctTexts]
  · rfl

end UnionOf

/-! ## Spellings -/

/-- The second annotation is the first in another spelling. Each place of the first stays as it is or
is written with the class that a container name stands for, and each union is written in either way.
The parts are those of the first, each with what stands in its place. -/
inductive Respells : TypeHint → TypeHint → Prop
  | self {a : TypeHint} (h : a.IsFlat) : Respells a a
  | bare {t c : TypeObject} (h : t.origin? = some c) (hplain : t ∉ [.typingTuple, .typingAwaitable]) :
    Respells (.type t) (.type c)
  | generic {head head' : TypeObject} (hhead : head' = head ∨ head.origin? = some head')
    {parts : List (TypeHint × TypeHint)} (h : ∀ p ∈ parts, Respells p.1 p.2) :
    Respells (.generic head (parts.map Prod.fst)) (.generic head' (parts.map Prod.snd))
  | function {parts : List (TypeHint × TypeHint)} (h : ∀ p ∈ parts, Respells p.1 p.2)
    {result result' : TypeHint} (hresult : Respells result result') :
    Respells (.function (parts.map Prod.fst) result) (.function (parts.map Prod.snd) result')
  | union (spelling spelling' : UnionSpelling) {parts : List (TypeHint × TypeHint)}
    (hne : parts ≠ []) (h : ∀ p ∈ parts, Respells p.1 p.2)
    (hread : ReadAlike ((parts.map Prod.fst).flatMap unionMembers))
    (hread' : ReadAlike ((parts.map Prod.snd).flatMap unionMembers)) :
    Respells (unionOf spelling (parts.map Prod.fst)) (unionOf spelling' (parts.map Prod.snd))
  | annotated {inner inner' : TypeHint} (h : Respells inner inner') :
    Respells (.annotated inner) (.annotated inner')
  | alias {target target' : TypeHint} (h : Respells target target') :
    Respells (.alias target) (.alias target')

/-- A container name stands for a class that is neither nothing nor an ellipsis, and is neither
itself. -/
theorem ne_of_origin? {t c : TypeObject} (h : t.origin? = some c) :
    (t ≠ .noneType ∧ t ≠ .ellipsis) ∧ c ≠ .noneType ∧ c ≠ .ellipsis := by
  cases t <;> cases h <;> decide

theorem origin_eq_of_origin? {t c : TypeObject} (h : t.origin? = some c) : c.origin = t.origin := by
  cases t <;> cases h <;> rfl

/-- A container name without arguments reads like the class that it stands for, unless it is a tuple
or an awaitable. -/
theorem typeTyping_eq_iff {t c : TypeObject} (h : t.origin? = some c) :
    typeTyping c = typeTyping t ↔ t ∉ [.typingTuple, .typingAwaitable] := by
  have harray : typeTyping .typingList = "any[]" := Composes.any_array
  cases t <;> cases h
  case typingList | typingSet | typingSequence => exact iff_of_true harray.symm (by decide)
  all_goals decide

/-- The type of the last annotation is given by the types of all in a result. -/
theorem lastTyping_congr {parts : List (TypeHint × TypeHint)}
    (h : ∀ p ∈ parts, p.2.typing true = p.1.typing true) :
    lastTyping (parts.map Prod.snd) = lastTyping (parts.map Prod.fst) := by
  induction parts with
  | nil => rfl
  | cons p parts ih =>
    cases parts with
    | nil => simpa [lastTyping] using h p (by simp)
    | cons q parts => exact ih fun p' hp' => h p' (List.mem_cons_of_mem p hp')

theorem isVariadicTuple_congr {parts : List (TypeHint × TypeHint)}
    (h : ∀ p ∈ parts, p.1 = .type .ellipsis ↔ p.2 = .type .ellipsis) :
    isVariadicTuple (parts.map Prod.snd) = isVariadicTuple (parts.map Prod.fst) := by
  have hpair : ∀ a b : TypeHint, isVariadicTuple [a, b] = true ↔ b = .type .ellipsis := by
    intro a b
    cases b <;> simp [isVariadicTuple]
  rcases parts with _ | ⟨p, _ | ⟨q, _ | ⟨r, parts⟩⟩⟩
  · rfl
  · rfl
  · rw [Bool.eq_iff_iff]
    simp only [List.map_cons, List.map_nil, hpair]
    exact (h q (by simp)).symm
  · simp [isVariadicTuple]

/-- The type of a container is given by the types of its arguments and the place of an ellipsis. -/
theorem typing_generic_congr {head head' : TypeObject} (horigin : head'.origin = head.origin)
    {parts : List (TypeHint × TypeHint)}
    (h : ∀ p ∈ parts, ∀ isResult, p.2.typing isResult = p.1.typing isResult)
    (hellipsis : ∀ p ∈ parts, p.1 = .type .ellipsis ↔ p.2 = .type .ellipsis) (isResult : Bool) :
    (generic head' (parts.map Prod.snd)).typing isResult =
      (generic head (parts.map Prod.fst)).typing isResult := by
  have htypings : typings (parts.map Prod.snd) = typings (parts.map Prod.fst) := by
    rw [typings_eq_map, typings_eq_map, List.map_map, List.map_map]
    exact List.map_congr_left fun p hp => h p hp false
  have hlast := lastTyping_congr fun p hp => h p hp true
  rw [typing, typing, horigin, htypings, hlast, isVariadicTuple_congr hellipsis]

/-- The texts in a union are given by those that each part of it contributes. -/
theorem distinctTexts_typings_congr {parts : List (TypeHint × TypeHint)}
    (h : ∀ p ∈ parts, distinctTexts (typings p.2.unionMembers) =
      distinctTexts (typings p.1.unionMembers)) :
    distinctTexts (typings ((parts.map Prod.snd).flatMap unionMembers)) =
      distinctTexts (typings ((parts.map Prod.fst).flatMap unionMembers)) := by
  simp only [typings_eq_map, List.flatMap_map, List.map_flatMap] at h ⊢
  exact distinctTexts_flatMap_congr h

namespace Respells

variable {a b : TypeHint}

/-- Both spellings of an annotation are flat. -/
theorem isFlat (h : a.Respells b) : a.IsFlat ∧ b.IsFlat := by
  induction h with
  | self h => exact ⟨h, h⟩
  | bare | generic | function | annotated | «alias» =>
    exact ⟨isFlat_of_not_isUnion rfl, isFlat_of_not_isUnion rfl⟩
  | union spelling spelling' hne h hread hread' ih =>
    exact ⟨isFlat_unionOf (by simpa using hne) (List.forall_mem_map.mpr fun p hp => (ih p hp).1),
      isFlat_unionOf (by simpa using hne) (List.forall_mem_map.mpr fun p hp => (ih p hp).2)⟩

/-- A rigid annotation has one spelling, and so has a union that comes down to it. -/
theorem eq_iff (h : a.Respells b) {x : TypeHint} (hx : x.IsRigid) :
    (a = x ↔ b = x) ∧ ((∀ c ∈ a.unionMembers, c = x) ↔ ∀ c ∈ b.unionMembers, c = x) := by
  -- what is no union contributes itself
  have hsingle : ∀ {a b x : TypeHint}, a.unionMembers = [a] → b.unionMembers = [b] →
      (a = x ↔ b = x) →
      (a = x ↔ b = x) ∧ ((∀ c ∈ a.unionMembers, c = x) ↔ ∀ c ∈ b.unionMembers, c = x) := by
    intro a b x ha hb hab
    simpa [ha, hb] using hab
  induction h generalizing x with
  | self => exact ⟨.rfl, .rfl⟩
  | @bare t c h =>
    obtain ⟨ht, hc⟩ := ne_of_origin? h
    refine hsingle (unionMembers_type ht.1) (unionMembers_type hc.1) ?_
    cases hx <;> simp [ht, hc]
  | generic | function =>
    exact hsingle rfl rfl (by cases hx <;> simp)
  | annotated _ ih =>
    refine hsingle rfl rfl ?_
    cases hx with
    | annotated hinner => simpa using (ih hinner).1
    | _ => simp
  | «alias» _ ih =>
    refine hsingle rfl rfl ?_
    cases hx with
    | «alias» htarget => simpa using (ih htarget).1
    | _ => simp
  | @union spelling spelling' parts hne h hread hread' ih =>
    -- a union comes down to `x` when every part contributes nothing else
    have hall : (∀ c ∈ (parts.map Prod.fst).flatMap unionMembers, c = x) ↔
        ∀ c ∈ (parts.map Prod.snd).flatMap unionMembers, c = x := by
      simp only [List.flatMap_map, List.mem_flatMap, forall_exists_index, and_imp]
      exact ⟨fun hx c p hp => ((ih p hp ‹_›).2.mp fun d hd => hx d p hp hd) c,
        fun hx c p hp => ((ih p hp ‹_›).2.mpr fun d hd => hx d p hp hd) c⟩
    have hflat : ∀ a ∈ parts.map Prod.fst, a.IsFlat :=
      List.forall_mem_map.mpr fun p hp => (h p hp).isFlat.1
    have hflat' : ∀ b ∈ parts.map Prod.snd, b.IsFlat :=
      List.forall_mem_map.mpr fun p hp => (h p hp).isFlat.2
    rw [unionOf_eq_iff (by simpa using hne) hflat hx, unionOf_eq_iff (by simpa using hne) hflat' hx,
      unionMembers_unionOf hflat, unionMembers_unionOf hflat', forall_dropRepeated_eq_iff hx,
      forall_dropRepeated_eq_iff hx, hall]
    exact ⟨.rfl, .rfl⟩

/-- What reads alike in another spelling does so in a result. -/
theorem typing_eq_of_false (h : a.Respells b) (hfalse : b.typing false = a.typing false)
    (isResult : Bool) : b.typing isResult = a.typing isResult := by
  by_cases hrigid : a.IsRigid
  · rw [(h.eq_iff hrigid).1.mp rfl]
  · have hrigid' : ¬b.IsRigid := fun hr => hrigid ((h.eq_iff hr).1.mpr rfl ▸ hr)
    rw [typing_eq_of_not_isRigid hrigid, typing_eq_of_not_isRigid hrigid', hfalse]

/-- An annotation and what it contributes to a union read alike in another spelling. -/
theorem typing_eq_and (h : a.Respells b) :
    (∀ isResult, b.typing isResult = a.typing isResult) ∧
      distinctTexts (typings b.unionMembers) = distinctTexts (typings a.unionMembers) := by
  -- what is no union contributes itself
  have hsingle : ∀ {a b : TypeHint}, a.unionMembers = [a] → b.unionMembers = [b] →
      (∀ isResult, b.typing isResult = a.typing isResult) →
      (∀ isResult, b.typing isResult = a.typing isResult) ∧
        distinctTexts (typings b.unionMembers) = distinctTexts (typings a.unionMembers) := by
    intro a b ha hb hab
    exact ⟨hab, by simp only [ha, hb, typings, hab]⟩
  induction h with
  | self => exact ⟨fun _ => rfl, rfl⟩
  | @bare t c h hplain =>
    obtain ⟨ht, hc⟩ := ne_of_origin? h
    refine hsingle (unionMembers_type ht.1) (unionMembers_type hc.1) fun isResult => ?_
    rw [typing, typing, if_neg ht.1, if_neg hc.1]
    exact (typeTyping_eq_iff h).mpr hplain
  | @generic head head' hhead parts h ih =>
    have horigin : head'.origin = head.origin := hhead.elim (congrArg _) origin_eq_of_origin?
    exact hsingle rfl rfl (typing_generic_congr horigin (fun p hp => (ih p hp).1)
      fun p hp => ((h p hp).eq_iff .ellipsis).1)
  | function => exact hsingle rfl rfl fun _ => rfl
  | annotated _ ih | «alias» _ ih => exact hsingle rfl rfl ih.1
  | @union spelling spelling' parts hne h hread hread' ih =>
    have htexts := distinctTexts_typings_congr fun p hp => (ih p hp).2
    have hfalse : (unionOf spelling' (parts.map Prod.snd)).typing false =
        (unionOf spelling (parts.map Prod.fst)).typing false := by
      rw [typing_unionOf hread, typing_unionOf hread', unionText, unionText, htexts]
    refine ⟨(Respells.union spelling spelling' hne h hread hread').typing_eq_of_false hfalse, ?_⟩
    -- members that are dropped have added no text
    rw [unionMembers_unionOf (List.forall_mem_map.mpr fun p hp => (h p hp).isFlat.1),
      unionMembers_unionOf (List.forall_mem_map.mpr fun p hp => (h p hp).isFlat.2),
      distinctTexts_dropRepeated hread, distinctTexts_dropRepeated hread', htexts]

/-- What may be nothing is written in two ways. -/
theorem optional (h : a.Respells b) (ha : ReadAlike a.unionMembers)
    (hb : ReadAlike b.unionMembers) : (ofOptional a).Respells (ofBars [b, .nothing]) := by
  have hnothing : ∀ {as : List TypeHint}, ReadAlike as → ReadAlike (as ++ [.nothing]) := by
    intro as has
    refine List.pairwise_append.mpr ⟨has, List.pairwise_singleton _ _, fun c _ d hd hsame => ?_⟩
    obtain rfl := List.mem_singleton.mp hd
    cases c <;> first | rfl | contradiction
  have hself : Respells .nothing .nothing := .self (isFlat_of_not_isUnion rfl)
  exact @Respells.union .named _ [(a, b), (.nothing, .nothing)] (by simp) (by simpa using ⟨h, hself⟩)
    (by simpa [unionMembers] using hnothing ha) (by simpa [unionMembers] using hnothing hb)

end Respells

/-- An annotation has the same type in another spelling. Of the container names without arguments,
exactly the tuple and the awaitable read otherwise than their classes. -/
theorem typing_respelled {a b : TypeHint} (h : a.Respells b) (isResult : Bool) :
    b.typing isResult = a.typing isResult ∧
      ∀ {t c : TypeObject}, t.origin? = some c →
        ((TypeHint.type c).typing isResult = (TypeHint.type t).typing isResult ↔
          t ∉ [.typingTuple, .typingAwaitable]) := by
  refine ⟨h.typing_eq_and.1 isResult, fun {t c} horigin => ?_⟩
  obtain ⟨ht, hc⟩ := ne_of_origin? horigin
  rw [typing, typing, if_neg ht.1, if_neg hc.1, typeTyping_eq_iff horigin]

/-- An optional dictionary of lists, with container names and as the vocabulary's union. -/
def namedDictionary : TypeHint :=
  ofOptional (.generic .typingDict [.type .str, .generic .typingList [.type .int]])

/-- An optional dictionary of lists, with classes and a bar. -/
def plainDictionary : TypeHint :=
  ofBars [.generic .dict [.type .str, .generic .list [.type .int]], .nothing]

/-- Both dictionaries have one type. -/
theorem typing_plainDictionary :
    namedDictionary.Respells plainDictionary ∧
      plainDictionary.typing true = namedDictionary.typing true ∧
      TypeObject.typingList.origin? = some .list ∧
      (TypeHint.type .list).typing true = (TypeHint.type .typingList).typing true := by
  have hself : ∀ {a : TypeHint}, a.isUnion = false → a.Respells a := fun h =>
    .self (isFlat_of_not_isUnion h)
  have hlist : (TypeHint.generic .typingList [.type .int]).Respells
      (.generic .list [.type .int]) :=
    @Respells.generic .typingList .list (.inr rfl) [(.type .int, .type .int)]
      (by simpa using hself rfl)
  have hdictionary := @Respells.generic .typingDict .dict (.inr rfl)
    [(.type .str, .type .str), (_, _)] (by simpa using ⟨hself rfl, hlist⟩)
  have hrespells : namedDictionary.Respells plainDictionary :=
    hdictionary.optional (List.pairwise_singleton _ _) (List.pairwise_singleton _ _)
  obtain ⟨htyping, hbare⟩ := typing_respelled hrespells true
  exact ⟨hrespells, htyping, rfl, (hbare rfl).mpr (by decide)⟩

/-- A tuple and an awaitable without arguments read otherwise than their classes, and so do two
lists of one type when they become equal. -/
theorem typing_ne_respelled :
    (TypeHint.type .typingTuple).typing false = "[]" ∧
      (TypeHint.type .tuple).typing false = "any[]" ∧
      (TypeHint.type .typingAwaitable).typing false = "Promise<any>" ∧
      (TypeHint.type .awaitable).typing false = "any" ∧
      (ofUnion [.generic .typingList [ofUnion [.type .int, .type .str]],
        .generic .list [ofUnion [.type .str, .type .int]]]).typing false =
          "(number | string)[] | (string | number)[]" ∧
      (ofUnion [.generic .list [ofUnion [.type .int, .type .str]],
        .generic .list [ofUnion [.type .str, .type .int]]]).typing false =
          "(number | string)[]" := by
  have hint : arrayText "number | string" = "(number | string)[]" := by
    simp [arrayText]
  have hstr : arrayText "string | number" = "(string | number)[]" := by
    simp [arrayText]
  refine ⟨by decide, by decide, by decide, by decide, ?_, ?_⟩
  · change unionText [arrayText "number | string", arrayText "string | number"] = _
    rw [hint, hstr]
    decide
  · exact hint

end TypeHint

end SchemaTypings
