import SchemaTypings.Proofs.Annotations.Types
import SchemaTypings.Proofs.Signatures.Functions

/-!
# The results of coroutines

Whether the result of a coroutine is made a promise is decided by the beginning of its text. A type
that only begins with a promise is taken for one: `isPromise_resultText_iff` says that the result is
a promise as a whole unless this happens, which it does for an array, a tuple or a union that has a
promise as its first part. Which annotations are promises themselves is said by
`TypeHint.IsAwaited`.
-/

namespace SchemaTypings

open Declaration TypeObject

/-! ## Texts that are promises -/

/-- What a promise begins with. -/
def promiseOpening : List Char := "Promise<".toList

/-- A text that is one promise as a whole: it begins with `Promise<`, and the bracket that is opened
there is closed by its last character. -/
def IsPromise (s : String) : Prop :=
  promiseOpening <+: s.toList ∧ ∃ (word : Token) (g : Group .angle),
    tokens s = word :: g.yield ∧ g.closing.token.stop = s.length

/-- The promise of what may stand in brackets is a promise. -/
theorem isPromise_promiseText {s : String} (h : IsEnclosable s.toList) :
    IsPromise (promiseText s) := by
  have hpromise : IsIdentifier "Promise".toList := by decide
  have hlist : (promiseText s).toList = "Promise".toList ++ '<' :: (s.toList ++ ['>']) := by
    simp [promiseText]
  have htokens := Tokenizes.append hpromise.spells.tokenizes (h.isEnclosed .angle)
    (stops_cons (by decide) _)
  rw [Bracket.chars, ← hlist] at htokens
  have hopening : promiseOpening = "Promise".toList ++ ['<'] := by decide
  refine ⟨⟨s.toList ++ ['>'], by rw [hlist, hopening, List.append_assoc]; rfl⟩, ?_⟩
  obtain ⟨_, _, heq, ⟨word, rfl, -⟩, g, rfl, -, hstop⟩ := Tokenizes.tokens htokens
  refine ⟨word.token, g, heq, hstop.trans ?_⟩
  rw [← String.length_toList, hlist]
  simp
  omega

/-- The first two pieces of a text that begins with a promise. -/
theorem exists_pieces_of_promise {cs : List Char} (h : promiseOpening <+: cs) :
    ∃ rest, pieces cs = ⟨some .identifier, "Promise".toList⟩ :: ⟨some .less, ['<']⟩ :: rest := by
  obtain ⟨more, rfl⟩ := h
  have hcut : Cut [⟨some .identifier, "Promise".toList⟩, ⟨some .less, ['<']⟩] more := by
    refine ⟨?_, lexes_sign (by decide) _, trivial⟩
    exact .word (c := 'P') (by decide) (List.all_eq_true.mp (by decide)) (by simp [textOf]; decide)
  exact ⟨pieces more, hcut.pieces_eq⟩

/-- What only begins with a promise is none: the bracket is closed in front of its end. -/
theorem not_isPromise_append {s t : String} (hs : IsEnclosable s.toList)
    (ht : IsEnclosable t.toList) (hstop : Stops t.toList) (hne : t ≠ "")
    (hopening : promiseOpening <+: s.toList) : ¬IsPromise (s ++ t) := by
  rintro ⟨-, word, g, hyield, hend⟩
  have hboth := Tokenizes.append (Tokenizes.placed hs) ht hstop
  rw [← String.toList_append] at hboth
  obtain ⟨us, vs, heq, ⟨hus, line, hplace⟩, -⟩ := Tokenizes.tokens hboth
  obtain ⟨rest, hpieces⟩ := exists_pieces_of_promise hopening
  obtain ⟨w, o, more, husCons, hweight⟩ : ∃ w o more, us = w :: o :: more ∧ w.kind.weight = 0 := by
    rw [hplace, hpieces]
    exact ⟨_, _, _, rfl, rfl⟩
  subst husCons
  obtain ⟨rfl, hinner⟩ : word = w ∧ g.yield = o :: more ++ vs := by
    simpa using hyield.symm.trans heq
  -- the closing bracket is the last character, so that it belongs to the second text
  have hvs : vs ≠ [] := by
    rintro rfl
    have hmem : g.closing.token ∈ word :: o :: more := by
      rw [List.append_nil] at hinner
      rw [← hinner]
      simp [Group.yield]
    have hbounds := (bounds_of_mem_place (hplace ▸ hmem) fun p => chars_ne_nil).2.2
    have hlength := List.length_pos_iff.mpr (mt String.toList_eq_nil_iff.mp hne)
    rw [textOf_pieces, hend, String.length_append, ← String.length_toList,
      ← String.length_toList] at hbounds
    omega
  -- behind the first text its brackets are closed, but that of the promise is still open
  have hpos := g.inside.nested.depth_pos g.opening g.closing hinner (by simp) hvs
  have hsettled := hus.nested.settled
  rw [depth_cons, hweight] at hsettled
  omega

/-- A text that begins with another character than a promise is none. -/
theorem not_isPromise_of_head {s : String} {c : Char} (h : s.toList.head? = some c) (hc : c ≠ 'P') :
    ¬IsPromise s := by
  rintro ⟨⟨more, hmore⟩, -⟩
  rw [← hmore] at h
  exact hc (Option.some.inj h).symm

/-- An array of an enclosable element is no promise. -/
theorem not_isPromise_arrayText {element : String} (h : IsEnclosable element.toList) :
    ¬IsPromise (arrayText element) := by
  by_cases hblank : ' ' ∈ element.toList
  · exact not_isPromise_of_head (c := '(') (by simp [toList_arrayText, hblank]) (by decide)
  · have harray : arrayText element = element ++ "[]" := by
      rw [← String.toList_inj, toList_arrayText, if_neg hblank]
      simp
    rw [harray]
    intro hpromise
    have hopening : promiseOpening <+: element.toList ++ ['[', ']'] := by
      simpa using hpromise.1
    have hbrackets : IsEnclosable "[]".toList := (isEnclosable_nil.isEnclosed .square).isEnclosable
    exact not_isPromise_append h hbrackets (stops_cons (c := '[') (by decide) [']']) (by decide)
      (isPrefix_of_append '[' [']'] (by decide) hopening) hpromise

/-- A union is a promise when its first member is one and all others have the same text. -/
theorem isPromise_unionText_cons {s : String} {texts : List String} (hs : IsEnclosable s.toList)
    (htexts : ∀ t ∈ texts, IsEnclosable t.toList) :
    IsPromise (unionText (s :: texts)) ↔ IsPromise s ∧ ∀ t ∈ texts, t = s := by
  have hdistinct : distinctTexts (s :: texts) = s :: texts.eraseDups.filter (· != s) := by
    rw [distinctTexts, distinctTexts_eq]
  -- either one text is left, or there is a bar behind the first
  by_cases hall : ∀ t ∈ texts, t = s
  · have hnone : texts.eraseDups.filter (· != s) = [] := by
      simpa using hall
    have hunion : unionText (s :: texts) = s := by simp [unionText, hdistinct, hnone]
    rw [hunion]
    exact ⟨fun h => ⟨h, hall⟩, And.left⟩
  · have hsome : texts.eraseDups.filter (· != s) ≠ [] := by
      simpa using hall
    obtain ⟨t, rest, hrest⟩ := List.exists_cons_of_ne_nil hsome
    have hmembers : ∀ u ∈ t :: rest, IsEnclosable u.toList := fun u hu => by
      rw [← hrest] at hu
      exact htexts u (List.mem_eraseDups.mp (List.mem_filter.mp hu).1)
    have hunion : unionText (s :: texts) = s ++ (" | " ++ " | ".intercalate (t :: rest)) := by
      rw [unionText, hdistinct, hrest, String.intercalate_cons_cons, String.append_assoc]
    simp only [hall, and_false, iff_false, hunion]
    intro hpromise
    have hopening : promiseOpening <+: s.toList ++
        ' ' :: ('|' :: ' ' :: (" | ".intercalate (t :: rest)).toList) := by
      simpa [-String.toList_intercalate] using hpromise.1
    exact not_isPromise_append hs
      (isEnclosable_bar (composes_isEnclosable.union _ (by simp) hmembers)) (stops_bar _) (by simp)
      (isPrefix_of_append ' ' _ (by decide) hopening) hpromise

/-- Of the containers only an awaitable is a promise. -/
theorem isPromise_containerTyping_iff (c : Container) (isVariadic : Bool) {texts : List String}
    (h : ∀ s ∈ texts, IsEnclosable s.toList) :
    IsPromise (TypeHint.containerTyping c isVariadic texts) ↔ c = .awaitable := by
  have hany : IsEnclosable "any".toList := composes_isEnclosable.any
  have hhead : IsEnclosable (texts.headD "any").toList := by
    cases texts with
    | nil => exact hany
    | cons s texts => exact h s (by simp)
  have hlast : IsEnclosable (texts.getLastD "any").toList := by
    rw [List.getLastD_eq_getLast?]
    cases hlast : texts.getLast? with
    | none => exact hany
    | some s => exact h s (List.mem_of_getLast? hlast)
  have hdictionary : ∀ value, ¬IsPromise (dictionaryText value) := fun value =>
    not_isPromise_of_head (c := '\x7b') (by rw [toList_dictionaryText]; rfl) (by decide)
  cases c with
  | sequence => exact iff_of_false (not_isPromise_arrayText hhead) (by decide)
  | tuple =>
    refine iff_of_false ?_ (by decide)
    cases isVariadic with
    | true => exact not_isPromise_arrayText hhead
    | false =>
      have hbracket : ("[" ++ ", ".intercalate texts ++ "]").toList.head? = some '[' := by simp
      exact not_isPromise_of_head hbracket (by decide)
  | mapping =>
    refine iff_of_false ?_ (by decide)
    unfold TypeHint.containerTyping
    dsimp only
    split <;> exact hdictionary _
  | awaitable => exact iff_of_true (isPromise_promiseText hlast) rfl

/-! ## Annotations that are promises -/

/-- Whether a literal value is written as a promise, which only one of another kind can be. -/
def LiteralValue.IsAwaited : LiteralValue → Prop
  | .other s => IsPromise s
  | _ => False

/-- No number has a capital in it, and a text begins with its quote. -/
theorem LiteralValue.IsReadable.isPromise_iff {v : LiteralValue} (h : v.IsReadable) :
    IsPromise (TypeHint.literalTyping v) ↔ v.IsAwaited := by
  have hcapital {x : List Char} (hx : IsNumeral x) : 'P' ∉ x := hx.not_mem (by decide) (by decide)
  have hword {s : String} (hs : 'P' ∉ s.toList) : ¬IsPromise s := fun hpromise =>
    hs (hpromise.1.subset (by decide))
  cases v with
  | null => exact iff_of_false (hword (by decide)) id
  | bool b => exact iff_of_false (hword (by cases b <;> decide)) id
  | int i => exact iff_of_false (hword (hcapital (isNumeral_int i))) id
  | real s => exact iff_of_false (hword (hcapital h)) id
  | text s =>
    have hquote : (TypeHint.literalTyping (.text s)).toList.head? = some '"' := by
      simp [TypeHint.literalTyping]
    exact iff_of_false (not_isPromise_of_head hquote (by decide)) id
  | other s => exact .rfl

/-- Whether the first of some literal values is written as a promise, and all others are written
alike. -/
def AreAwaitedValues : List LiteralValue → Prop
  | [] => False
  | v :: rest => v.IsAwaited ∧ ∀ w ∈ rest, TypeHint.literalTyping w = TypeHint.literalTyping v

/-- A union of literal values is a promise when all of them are written as the same one. -/
theorem isPromise_literal_iff {values : List LiteralValue} (h : ∀ v ∈ values, v.IsReadable) :
    IsPromise (unionText (values.map TypeHint.literalTyping)) ↔ AreAwaitedValues values := by
  cases values with
  | nil => exact iff_of_false (fun hpromise => absurd hpromise.1 (by decide)) id
  | cons v values =>
    have hmembers : ∀ t ∈ values.map TypeHint.literalTyping, IsEnclosable t.toList := fun t ht => by
      obtain ⟨w, hw, rfl⟩ := List.mem_map.mp ht
      exact (h w (by simp [hw])).isExpression.isEnclosable
    have hv : v.IsReadable := h v (by simp)
    rw [List.map_cons, isPromise_unionText_cons hv.isExpression.isEnclosable hmembers,
      hv.isPromise_iff]
    simp [AreAwaitedValues]

namespace TypeHint

mutual
/-- Whether an annotation is one awaitable as a whole: an awaitable or its container name, a text
that is a promise, an alias of what is one awaitable, or a union of which all members have the type
of the first, which is one awaitable. A literal is one when all its values are written as the same
promise. -/
def IsAwaited : TypeHint → Prop
  | .text s => IsPromise (textTyping s)
  | .forward s => IsPromise (textTyping s)
  | .type t => t.origin? = some .awaitable
  | .generic head _ => head.origin.container? = some .awaitable
  | .union _ members => AreAwaited members
  | .annotated inner => inner.IsAwaited
  | .alias target => target.IsAwaited
  | .nothing => False
  | .constant => False
  | .function _ _ => False
  | .literal values => AreAwaitedValues values
  termination_by structural a => a

/-- Whether the first of some annotations is one awaitable, and all others have the same type. -/
def AreAwaited : List TypeHint → Prop
  | [] => False
  | a :: rest => a.IsAwaited ∧ ∀ b ∈ rest, b.typing false = a.typing false
  termination_by structural as => as
end

/-- An annotation whose texts and names close the brackets that they open, and whose literal values
can be read. -/
def ClosesBrackets (a : TypeHint) : Prop :=
  a.Every (fun s => IsEnclosable (textTyping s).toList) fun values => ∀ v ∈ values, v.IsReadable

theorem ClosesBrackets.isEnclosable {a : TypeHint} (h : a.ClosesBrackets) (isResult : Bool) :
    IsEnclosable (a.typing isResult).toList :=
  composes_isEnclosable.typing (fun _ hs => hs) (fun _ => isEnclosable_literal) h isResult

theorem typings_isEnclosable {as : List TypeHint} (h : ∀ a ∈ as, a.ClosesBrackets) :
    ∀ s ∈ typings as, IsEnclosable s.toList := by
  rw [typings_eq_map]
  simpa using fun a ha => (h a ha).isEnclosable false

theorem lastTyping_isEnclosable {as : List TypeHint} (h : ∀ a ∈ as, a.ClosesBrackets) :
    IsEnclosable (lastTyping as).toList :=
  composes_isEnclosable.lastTyping (fun _ hs => hs) (fun _ => isEnclosable_literal)
    (everyAll_iff.mpr h)

/-- A container name stands for a container, and that of the awaitables for the awaitable class. -/
theorem exists_container {t origin : TypeObject} (h : t.origin? = some origin) :
    ∃ c, origin.container? = some c ∧ (c = .awaitable ↔ origin = .awaitable) := by
  cases t <;> cases h <;> exact ⟨_, rfl, by decide⟩

/-- A name without arguments is a promise when it stands for an awaitable. -/
theorem isPromise_typeTyping_iff (t : TypeObject) :
    IsPromise (typeTyping t) ↔ t.origin? = some .awaitable := by
  cases horigin : t.origin? with
  | none =>
    have hplain : ∀ t : TypeObject, t.origin? = none →
        ¬promiseOpening <+: (typeTyping t).toList := fun t => by
      cases t <;> decide
    exact iff_of_false (fun h => hplain t horigin h.1) (by simp)
  | some origin =>
    obtain ⟨c, hc, hawaitable⟩ := exists_container horigin
    have htyping : typeTyping t = containerTyping c false [] := by
      rw [typeTyping, horigin]
      dsimp only
      rw [hc]
    rw [htyping, isPromise_containerTyping_iff c false (by simp), hawaitable, Option.some.injEq]

mutual
/-- The type of an annotation is a promise when the annotation is one awaitable. -/
theorem isPromise_typing_iff {a : TypeHint} (h : a.ClosesBrackets) (isResult : Bool) :
    IsPromise (a.typing isResult) ↔ a.IsAwaited := by
  have hword : ∀ s ∈ ["void", "null", "any"], ¬IsPromise s := fun s hs hpromise => by
    have hnone : ∀ s ∈ ["void", "null", "any"], ¬promiseOpening <+: s.toList := by decide
    exact hnone s hs hpromise.1
  have hnothing : ¬IsPromise (if isResult then "void" else "null") := by
    cases isResult <;> exact hword _ (by decide)
  cases a with
  | nothing => exact iff_of_false hnothing id
  | text s => exact .rfl
  | forward s => exact .rfl
  | constant => exact iff_of_false (hword "any" (by decide)) id
  | function => exact iff_of_false (hword "any" (by decide)) id
  | literal values => exact isPromise_literal_iff h
  | type t =>
    rw [typing]
    split
    · next ht =>
      subst ht
      exact iff_of_false hnothing (by simp [IsAwaited, origin?])
    · exact isPromise_typeTyping_iff t
  | generic head arguments =>
    have harguments : ∀ a ∈ arguments, a.ClosesBrackets := everyAll_iff.mp h
    rw [typing]
    split
    · next hc =>
      exact iff_of_true (isPromise_promiseText (lastTyping_isEnclosable harguments)) hc
    · next c hne hc =>
      rw [isPromise_containerTyping_iff c _ (typings_isEnclosable harguments)]
      exact iff_of_false hne (by simpa [IsAwaited, hc] using hne)
    · next hc => exact iff_of_false (hword _ (by decide)) (by simp [IsAwaited, hc])
  | union spelling members =>
    obtain _ | ⟨a, rest⟩ := members
    · exact absurd rfl h.1
    have ha : a.ClosesBrackets := h.2.1
    have hrest := typings_isEnclosable (everyAll_iff.mp h.2.2)
    change IsPromise (unionText (a.typing false :: typings rest)) ↔ _
    rw [isPromise_unionText_cons (ha.isEnclosable false) hrest, isPromise_typing_iff ha false]
    simp [IsAwaited, AreAwaited, typings_eq_map]
  | annotated inner => exact isPromise_typing_iff (a := inner) h isResult
  | «alias» target => exact isPromise_typing_iff (a := target) h isResult
end

end TypeHint

/-! ## Coroutines -/

/-- The result of a coroutine is made a promise unless it begins with one. -/
theorem awaitedText_true (result : String) : awaitedText true result =
    if promiseOpening <+: result.toList then result else promiseText result := by
  have htest : "Promise<".toList.isPrefixOf result.toList =
      decide (promiseOpening <+: result.toList) := by
    rw [Bool.eq_iff_iff, decide_eq_true_iff]
    exact List.isPrefixOf_iff_prefix
  unfold awaitedText
  rw [htest]
  by_cases h : promiseOpening <+: result.toList <;> simp [h]

/-- So it is a promise unless it only begins with one. -/
theorem isPromise_awaitedText_iff {result : String} (h : IsEnclosable result.toList) :
    IsPromise (awaitedText true result) ↔ (promiseOpening <+: result.toList → IsPromise result) := by
  rw [awaitedText_true]
  split
  · next hopening => exact ⟨fun hpromise _ => hpromise, fun hpromise => hpromise hopening⟩
  · next hopening => exact iff_of_true (isPromise_promiseText h) fun h => absurd h hopening

/-- In the signature of a coroutine the result is a promise as a whole, unless the type of its
annotation begins with a promise and the annotation is not one awaitable. -/
theorem isPromise_resultText_iff {f : Function} (hdeclared : f.signature = none)
    (hcoroutine : f.isCoroutine = true) {signature : String}
    (hsignature : f.signatureText? = some signature)
    (hresult : ∀ a ∈ f.furtherHints.lookup "return", a.ClosesBrackets) :
    signature = "(" ++ f.parametersText ++ ") => " ++ f.resultText ∧
      (IsPromise f.resultText ↔ ∀ a ∈ f.furtherHints.lookup "return",
        promiseOpening <+: (a.typing true).toList → a.IsAwaited) := by
  refine ⟨((f.signatureText?_eq_some_iff hdeclared signature).mp hsignature).2, ?_⟩
  rw [Function.resultText, hcoroutine]
  cases hreturn : f.furtherHints.lookup "return" with
  | none =>
    have hany : ¬promiseOpening <+: "any".toList := by decide
    exact iff_of_true
      ((isPromise_awaitedText_iff composes_isEnclosable.any).mpr fun h => absurd h hany) (by simp)
  | some a =>
    have ha : a.ClosesBrackets := hresult a hreturn
    have hiff := isPromise_awaitedText_iff (ha.isEnclosable true)
    rw [TypeHint.isPromise_typing_iff ha] at hiff
    simpa using hiff

/-- A coroutine that is annotated by the name of an alias, which stands for one of two awaitables of
the same type. -/
def loadCoroutine : Function where
  name := "load"
  parameters := [⟨"self", none, .positional, false⟩]
  result := some (.text "Loading")
  isCoroutine := true
  signature := none
  denotations := [("Loading", .alias (.union .named
    [.generic .awaitable [.type .int], .generic .coroutine [.type .any, .type .any, .type .int]]))]

/-- The result of such a coroutine is the promise that it is annotated as. -/
theorem isPromise_load :
    loadCoroutine.signature = none ∧ loadCoroutine.isCoroutine = true ∧
      loadCoroutine.signatureText? = some "() => Promise<number>" ∧
      (∀ a ∈ loadCoroutine.furtherHints.lookup "return",
        a.ClosesBrackets ∧ promiseOpening <+: (a.typing true).toList ∧ a.IsAwaited) ∧
      loadCoroutine.resultText = "Promise<number>" ∧ IsPromise loadCoroutine.resultText := by
  have hlookup : loadCoroutine.furtherHints.lookup "return" = some (.alias (.union .named
      [.generic .awaitable [.type .int],
        .generic .coroutine [.type .any, .type .any, .type .int]])) := rfl
  have hsignature : loadCoroutine.signatureText? = some "() => Promise<number>" := by
    decide +kernel
  have hcloses : ∀ a ∈ loadCoroutine.furtherHints.lookup "return", a.ClosesBrackets := by
    simp [hlookup, TypeHint.ClosesBrackets, TypeHint.Every, TypeHint.EveryAll]
  have hawaited : ∀ a ∈ loadCoroutine.furtherHints.lookup "return", a.IsAwaited := by
    simp only [hlookup, Option.mem_def, Option.some.injEq, forall_eq']
    exact ⟨rfl, by simp; decide +kernel⟩
  have hopening : ∀ a ∈ loadCoroutine.furtherHints.lookup "return",
      promiseOpening <+: (a.typing true).toList := by
    simp only [hlookup, Option.mem_def, Option.some.injEq, forall_eq']
    decide +kernel
  refine ⟨rfl, rfl, hsignature, fun a ha => ⟨hcloses a ha, hopening a ha, hawaited a ha⟩,
    by decide +kernel, ?_⟩
  exact (isPromise_resultText_iff rfl rfl hsignature hcloses).2.mpr fun a ha _ => hawaited a ha

/-- A coroutine that is annotated as an array of awaitables. -/
def loadAllCoroutine : Function where
  name := "load_all"
  parameters := [⟨"self", none, .positional, false⟩]
  result := some (.generic .list [.generic .awaitable [.type .int]])
  isCoroutine := true
  signature := none

/-- The result of such a coroutine is an array and no promise. -/
theorem not_isPromise_loadAll :
    loadAllCoroutine.signature = none ∧ loadAllCoroutine.isCoroutine = true ∧
      loadAllCoroutine.signatureText? = some "() => Promise<number>[]" ∧
      loadAllCoroutine.resultText = "Promise<number>[]" ∧
      ¬IsPromise loadAllCoroutine.resultText := by
  have helement : (TypeHint.generic .awaitable [.type .int]).typing false = "Promise<number>" := by
    decide +kernel
  have htext : arrayText "Promise<number>" = "Promise<number>[]" := by
    simp [arrayText]
  have hlookup : loadAllCoroutine.furtherHints.lookup "return" =
      some (.generic .list [.generic .awaitable [.type .int]]) := rfl
  have harray : (TypeHint.generic .list [.generic .awaitable [.type .int]]).typing true =
      "Promise<number>[]" := by
    rw [← htext, ← helement]
    rfl
  have hresult : loadAllCoroutine.resultText = "Promise<number>[]" := by
    rw [Function.resultText, hlookup, Option.map_some, harray]
    decide +kernel
  refine ⟨rfl, rfl, ?_, hresult, ?_⟩
  · rw [Function.signatureText?_eq_some_iff rfl, hresult]
    exact ⟨by decide, by decide +kernel⟩
  · have hcloses : (TypeHint.generic .awaitable [.type .int]).ClosesBrackets := ⟨trivial, trivial⟩
    rw [hresult, ← htext]
    exact not_isPromise_arrayText (helement ▸ hcloses.isEnclosable false)

end SchemaTypings
