import SchemaTypings.Proofs.Annotations.Parts
import SchemaTypings.Proofs.Signatures.Splitting
import SchemaTypings.Proofs.Writing.Numbers

/-!
# The signatures of annotated functions

The signature of an annotated function is rendered as a text, and that text is split again where it
is bound to a receiver. `boundSignature_signatureText` says that nothing is lost on the way: the
member has every parameter but the receiver, in order, with its own type, and the result. A result
has no arrow in it (`Function.splitArrow_writtenResult`), so that the text is split where it was put
together; only bytes and members of enumerations in a literal could bring one.

The types are those of the annotations as they are evaluated (`TypeHint.resolved`): what carries
metadata loses it before it is rendered, and what is left of a union is joined again.
-/

namespace SchemaTypings

open Declaration TypeHint

/-! ## The parts of a signature -/

namespace Function

variable (f : Function)

/-- The annotations of the parameters and of the result, under their names. -/
def annotations : List (String × TypeHint) :=
  (f.parameters.filterMap fun p => p.hint.map (p.name, ·)) ++ f.result.toList.map ("return", ·)

/-- What the annotations denote, apart from that of the receiver. -/
def furtherHints : List (String × TypeHint) :=
  f.hints.filter fun hint => some hint.1 != f.withoutReceiver.1

/-- The parameters as the signature writes them. -/
def parametersText : String :=
  ", ".intercalate (f.withoutReceiver.2.map fun p => p.declaration (f.furtherHints.lookup p.name))

end Function

/-- The result of a function: a coroutine gives a promise, unless its result begins with one. -/
def awaitedText (isCoroutine : Bool) (result : String) : String :=
  if isCoroutine && !"Promise<".toList.isPrefixOf result.toList then promiseText result else result

/-- The result as the signature writes it. -/
def Function.resultText (f : Function) : String :=
  awaitedText f.isCoroutine (((f.furtherHints.lookup "return").map (·.typing true)).getD "any")

/-- An annotated function without a declared signature has the signature of its parts. -/
theorem Function.signatureText?_eq_some_iff {f : Function} (h : f.signature = none) (s : String) :
    f.signatureText? = some s ↔
      f.furtherHints ≠ [] ∧ s = "(" ++ f.parametersText ++ ") => " ++ f.resultText := by
  have hparts : f.signatureText? =
      if f.furtherHints.isEmpty then none
      else some ("(" ++ f.parametersText ++ ") => " ++ f.resultText) := by
    unfold Function.signatureText?
    rw [h]
    rfl
  rw [hparts]
  split
  · next hempty => simp [List.isEmpty_iff.mp hempty]
  · next hempty => simp [mt List.isEmpty_iff.mpr hempty, eq_comm]

/-- Annotations that are texts read as what they denote. -/
example : Function.signatureText?
    { name := "fetch"
      parameters := [⟨"self", none, .positional, false⟩, ⟨"n", some (.text "int"), .positional, false⟩]
      result := some (.text "list[str]")
      isCoroutine := true
      signature := none
      denotations := [("int", .type .int), ("list[str]", .generic .list [.type .str])] } =
    some "(n: number) => Promise<string[]>" := by
  cbv

/-! ## Evaluated annotations -/

namespace TypeHint

/-- An annotation as far as it denotes something by itself, without metadata. -/
def resolved (a : TypeHint) : TypeHint :=
  ((a.evaluate? fun _ => none).getD a).dropMetadata

variable {L : List LiteralValue → Prop}

mutual
/-- An annotation without texts and names can be evaluated, and denotes the same everywhere. -/
theorem exists_evaluate? {a : TypeHint} (h : a.Every (fun _ => False) L) :
    ∃ b, ∀ denotes, a.evaluate? denotes = some b := by
  cases a with
  | text s => exact h.elim
  | forward s => exact h.elim
  | generic head arguments =>
    obtain ⟨bs, hbs⟩ := exists_evaluateAll? h
    exact ⟨.generic head bs, fun denotes => by rw [evaluate?, hbs]; rfl⟩
  | function parameters result =>
    obtain ⟨ps, hps⟩ := exists_evaluateAll? h.1
    obtain ⟨r, hr⟩ := exists_evaluate? h.2
    exact ⟨.function ps r, fun denotes => by rw [evaluate?, hps, hr]; rfl⟩
  | union spelling members =>
    obtain ⟨bs, hbs⟩ := exists_evaluateAll? h.2
    exact ⟨unionOf spelling bs, fun denotes => by rw [evaluate?, hbs]; rfl⟩
  | annotated inner =>
    have hinner : inner.Every (fun _ => False) L := h
    obtain ⟨b, hb⟩ := exists_evaluate? hinner
    exact ⟨.annotated b, fun denotes => by rw [evaluate?, hb]; rfl⟩
  | nothing | constant | type | literal | «alias» => exact ⟨_, fun _ => rfl⟩

theorem exists_evaluateAll? {as : List TypeHint} (h : EveryAll (fun _ => False) L as) :
    ∃ bs, ∀ denotes, evaluateAll? denotes as = some bs := by
  cases as with
  | nil => exact ⟨[], fun _ => rfl⟩
  | cons a as =>
    obtain ⟨b, hb⟩ := exists_evaluate? h.1
    obtain ⟨bs, hbs⟩ := exists_evaluateAll? h.2
    exact ⟨b :: bs, fun denotes => by rw [evaluateAll?, hb, hbs]; rfl⟩
end

/-- What an annotation denotes is made of what the annotation is made of. -/
theorem resolved_every {a : TypeHint} (h : a.Every (fun _ => False) L) :
    a.resolved.Every (fun _ => False) L := by
  obtain ⟨b, hb⟩ := exists_evaluate? h
  rw [resolved, hb]
  exact dropMetadata_every (evaluate?_every (fun _ hs => hs.elim) h (hb fun _ => none))

theorem dropMetadataAll_eq_map (as : List TypeHint) :
    dropMetadataAll as = as.map dropMetadata := by
  induction as with
  | nil => rfl
  | cons a as ih => rw [dropMetadataAll, ih, List.map_cons]

/-- None of the annotations fails, so that none is left unevaluated because of another. -/
theorem evaluateAll?_eq_map (denotes : String → Option TypeHint) {as : List TypeHint}
    (h : ∀ a ∈ as, a.Every (fun _ => False) L) :
    evaluateAll? denotes as = some (as.map fun a => (a.evaluate? fun _ => none).getD a) := by
  induction as with
  | nil => rfl
  | cons a as ih =>
    obtain ⟨b, hb⟩ := exists_evaluate? (h a (by simp))
    rw [evaluateAll?, hb, ih fun c hc => h c (by simp [hc])]
    simp [hb]

/-- Annotations that can be evaluated are evaluated one by one, whatever texts denote. -/
theorem hints_eq_map (denotes : String → Option TypeHint) {named : List (String × TypeHint)}
    (h : ∀ n ∈ named, n.2.Every (fun _ => False) L) :
    hints denotes named = named.map fun n => (n.1, n.2.resolved) := by
  have hall : ∀ a ∈ named.map Prod.snd, a.Every (fun _ => False) L :=
    List.forall_mem_map.mpr h
  rw [hints, evaluateAll?_eq_map denotes hall]
  simp only [dropMetadataAll_eq_map, List.map_map, List.zip_map', Function.comp_def, resolved]

end TypeHint

/-! ## Looking annotations up -/

/-- The value under a key is mapped along with the others. -/
theorem lookup_map_value {α β : Type} (g : α → β) (l : List (String × α)) (key : String) :
    (l.map fun e => (e.1, g e.2)).lookup key = (l.lookup key).map g := by
  induction l with
  | nil => rfl
  | cons e l ih =>
    obtain ⟨name, a⟩ := e
    simp only [List.map_cons, List.lookup_cons]
    cases key == name <;> simp [ih]

/-- Under a name that no parameter has there is no annotation of one. -/
theorem lookup_filterMap_hint_of_ne {parameters : List Parameter} {key : String}
    (h : ∀ p ∈ parameters, p.name ≠ key) :
    (parameters.filterMap fun p => p.hint.map (p.name, ·)).lookup key = none := by
  refine List.lookup_eq_none_iff.mpr fun e he => ?_
  obtain ⟨p, hp, hpe⟩ := List.mem_filterMap.mp he
  obtain ⟨a, -, rfl⟩ := Option.map_eq_some_iff.mp hpe
  exact bne_iff_ne.mpr (h p hp).symm

/-- The annotation of a parameter is found under its name. -/
theorem lookup_filterMap_hint {parameters : List Parameter}
    (hnodup : (parameters.map Parameter.name).Nodup) {p : Parameter} (hp : p ∈ parameters) :
    (parameters.filterMap fun p => p.hint.map (p.name, ·)).lookup p.name = p.hint := by
  induction parameters with
  | nil => exact absurd hp List.not_mem_nil
  | cons q rest ih =>
    obtain ⟨hq, hrest⟩ := List.nodup_cons.mp hnodup
    have hne : ∀ r ∈ rest, r.name ≠ q.name := fun r hr heq => hq (heq ▸ List.mem_map_of_mem hr)
    -- without an annotation there is no entry, and no later entry has the name of an earlier one
    rcases List.mem_cons.mp hp with rfl | hp
    · cases hhint : p.hint with
      | none => simpa [hhint] using lookup_filterMap_hint_of_ne hne
      | some a => simp [hhint]
    · have hother : (p.name == q.name) = false := beq_eq_false_iff_ne.mpr (hne p hp)
      cases hhint : q.hint with
      | none => simpa [hhint] using ih hrest hp
      | some a => simpa [hhint, List.lookup_cons, hother] using ih hrest hp

/-- The names of a function's parameters: each once, and no word that stands for the result. -/
structure Function.IsWellNamed (f : Function) : Prop where
  distinct : (f.parameters.map Parameter.name).Nodup
  ne_return : ∀ p ∈ f.parameters, p.name ≠ "return"
  colon_notMem : ∀ p ∈ f.parameters, ':' ∉ p.name.toList

namespace Function

variable {f : Function}

theorem IsWellNamed.lookup_parameter (h : f.IsWellNamed) {p : Parameter} (hp : p ∈ f.parameters) :
    f.annotations.lookup p.name = p.hint := by
  rw [annotations, List.lookup_append, lookup_filterMap_hint h.distinct hp]
  have hresult : (p.name == "return") = false := beq_eq_false_iff_ne.mpr (h.ne_return p hp)
  cases f.result <;> simp [List.lookup_cons, hresult]

theorem IsWellNamed.lookup_result (h : f.IsWellNamed) : f.annotations.lookup "return" = f.result := by
  rw [annotations, List.lookup_append, lookup_filterMap_hint_of_ne h.ne_return]
  cases f.result <;> simp

/-- The receiver is a parameter, and the others are parameters with other names. -/
theorem IsWellNamed.withoutReceiver (h : f.IsWellNamed) :
    (∀ receiver ∈ f.withoutReceiver.1, receiver ≠ "return") ∧
      ∀ p ∈ f.withoutReceiver.2, p ∈ f.parameters ∧ some p.name ≠ f.withoutReceiver.1 := by
  unfold Function.withoutReceiver
  cases hparameters : f.parameters with
  | nil => simp
  | cons q rest =>
    have hdistinct := h.distinct
    rw [hparameters, List.map_cons] at hdistinct
    have hreturn := h.ne_return q (by simp [hparameters])
    dsimp only
    split
    · refine ⟨by simpa using hreturn, fun p hp => ⟨by simp [hp], fun heq => ?_⟩⟩
      have hname : p.name = q.name := Option.some.inj heq
      exact (List.nodup_cons.mp hdistinct).1 (hname ▸ List.mem_map_of_mem hp)
    · simp

variable {L : List LiteralValue → Prop}

/-- The annotations of a function without texts and names are evaluated one by one. -/
theorem lookup_furtherHints (hplain : ∀ a ∈ f.annotations, a.2.Every (fun _ => False) L)
    {key : String} (h : some key ≠ f.withoutReceiver.1) :
    f.furtherHints.lookup key = (f.annotations.lookup key).map TypeHint.resolved := by
  have hkeep : (fun name => some name != f.withoutReceiver.1) key := bne_iff_ne.mpr h
  rw [furtherHints, Entries.lookup_filter_of_key (fun name => some name != f.withoutReceiver.1) hkeep]
  have hhints : f.hints = TypeHint.hints (f.denotations.lookup ·) f.annotations := rfl
  rw [hhints, hints_eq_map _ hplain, lookup_map_value]

end Function

/-! ## The parameters -/

namespace Parameter

variable (p : Parameter)

/-- The type of what a parameter is annotated with; without an annotation it may be anything. -/
def type : String :=
  (p.hint.map (·.resolved.typing false)).getD "any"

/-- A parameter with its type. An optional one has a question mark, one that takes all further
arguments is an array, and one that takes all further names is an object. -/
def written : String :=
  match p.kind with
  | .variadic =>
    "..." ++ p.name ++ ": " ++
      (if ' ' ∈ p.type.toList then "(" ++ p.type ++ ")[]" else p.type ++ "[]")
  | .variadicKeyword => p.name ++ "?: \x7b [key: string]: " ++ p.type ++ " \x7d"
  | _ => if p.hasDefault then p.name ++ "?: " ++ p.type else p.name ++ ": " ++ p.type

variable {p}

/-- A signature writes a parameter with its type. -/
theorem declaration_eq_written : p.declaration (p.hint.map resolved) = p.written := by
  have htype : ((p.hint.map resolved).map (·.typing false)).getD "any" = p.type := by
    rw [Option.map_map]
    rfl
  unfold declaration written
  rw [htype]
  cases p.kind with
  | variadic =>
    by_cases hblank : ' ' ∈ p.type.toList <;> simp [arrayText, hblank, String.append_assoc]
  | variadicKeyword =>
    have hmark : "?: \x7b [key: string]: " = "?: " ++ "\x7b [key: string]: " := by decide
    dsimp only
    unfold dictionaryText
    rw [hmark]
    simp only [String.append_assoc]
  | positionalOnly | positional | keywordOnly =>
    cases p.hasDefault <;> simp [String.append_assoc]

/-- A parameter is written with its name in front of the first colon, which has dots in front of it
or a question mark behind it. -/
theorem exists_written (p : Parameter) : ∃ front behind, p.written.toList = front ++ ':' :: behind ∧
    (front = p.name.toList ∨ front = p.name.toList ++ ['?'] ∨
      front = ['.', '.', '.'] ++ p.name.toList) := by
  unfold written
  cases p.kind with
  | variadic => exact ⟨_, _, by simp; rfl, .inr (.inr rfl)⟩
  | variadicKeyword => exact ⟨_, _, by simp; rfl, .inr (.inl rfl)⟩
  | positionalOnly | positional | keywordOnly =>
    cases p.hasDefault with
    | true => exact ⟨_, _, by simp; rfl, .inr (.inl rfl)⟩
    | false => exact ⟨_, _, by simp; rfl, .inl rfl⟩

end Parameter

/-! ## The whole signature -/

namespace Function

variable {f : Function} {L : List LiteralValue → Prop}

/-- The result of a function with its type. -/
def writtenResult (f : Function) : String :=
  awaitedText f.isCoroutine ((f.result.map (·.resolved.typing true)).getD "any")

/-- The signature has every parameter but the receiver, in order. -/
theorem IsWellNamed.parametersText_eq (h : f.IsWellNamed)
    (hplain : ∀ a ∈ f.annotations, a.2.Every (fun _ => False) L) :
    f.parametersText = ", ".intercalate (f.withoutReceiver.2.map Parameter.written) := by
  have hdeclaration : ∀ p ∈ f.withoutReceiver.2,
      p.declaration (f.furtherHints.lookup p.name) = p.written := fun p hp => by
    obtain ⟨hmem, hne⟩ := h.withoutReceiver.2 p hp
    rw [lookup_furtherHints hplain hne, h.lookup_parameter hmem, Parameter.declaration_eq_written]
  rw [parametersText, List.map_congr_left hdeclaration]

theorem IsWellNamed.resultText_eq (h : f.IsWellNamed)
    (hplain : ∀ a ∈ f.annotations, a.2.Every (fun _ => False) L) :
    f.resultText = f.writtenResult := by
  have hne : some "return" ≠ f.withoutReceiver.1 := fun heq =>
    h.withoutReceiver.1 "return" heq.symm rfl
  rw [resultText, lookup_furtherHints hplain hne, h.lookup_result, Option.map_map]
  rfl

/-- The parameters do not begin with a receiver. -/
theorem IsWellNamed.not_isPrefix_this (h : f.IsWellNamed)
    (hthis : ∀ p ∈ f.parameters, p.name ≠ "this") :
    ¬"this:".toList <+: (", ".intercalate (f.withoutReceiver.2.map Parameter.written)).toList := by
  intro hprefix
  cases hrest : f.withoutReceiver.2 with
  | nil =>
    rw [hrest] at hprefix
    exact absurd hprefix (by decide)
  | cons p rest =>
    have hmem : p ∈ f.parameters := (h.withoutReceiver.2 p (by simp [hrest])).1
    obtain ⟨front, behind, hwritten, hfront⟩ := p.exists_written
    have hcolon : ':' ∉ front := by
      have hname := h.colon_notMem p hmem
      rcases hfront with rfl | rfl | rfl <;> simpa using hname
    have hstart : ∃ more, (", ".intercalate (f.withoutReceiver.2.map Parameter.written)).toList =
        front ++ ':' :: more := by
      rw [hrest, List.map_cons]
      cases rest.map Parameter.written with
      | nil => exact ⟨behind, by simpa using hwritten⟩
      | cons next texts =>
        rw [String.intercalate_cons_cons, String.toList_append, String.toList_append, hwritten]
        exact ⟨_, by simp; rfl⟩
    obtain ⟨more, hmore⟩ := hstart
    obtain ⟨tail, htail⟩ := hprefix
    -- both are cut off in front of the first colon
    have hsame : front = "this".toList := by
      have hstop : ∀ rest : List Char, ∀ c ∈ (':' :: rest).head?, (c != ':') = false := by simp
      have hleft := takeWhile_append_of_stop (p := (· != ':')) (y := front)
        (by simpa using fun c hc => ne_of_mem_of_not_mem hc hcolon) (hstop more)
      have hright := takeWhile_append_of_stop (p := (· != ':')) (y := "this".toList)
        (by decide) (hstop tail)
      rw [← hleft, ← hmore, ← htail, ← hright]
      rfl
    rcases hfront with rfl | rfl | rfl
    · exact hthis p hmem (String.toList_inj.mp hsame)
    · have hlast : '?' ∈ "this".toList := hsame ▸ by simp
      exact absurd hlast (by decide)
    · have hdot : '.' ∈ "this".toList := hsame ▸ by simp
      exact absurd hdot (by decide)

end Function

/-! ## No arrow in a result -/

/-- A value that is no text, and a number where it is a float. -/
def LiteralValue.IsPlain : LiteralValue → Prop
  | .real s => IsNumeral s.toList
  | .text _ => False
  | .null => True
  | .bool _ => True
  | .int _ => True
  | .other _ => True

/-- An annotation without texts and names, also among the values of its literals. -/
def TypeHint.IsPlain (a : TypeHint) : Prop :=
  a.Every (fun _ => False) fun values => ∀ v ∈ values, v.IsPlain

/-- A plain value that, when it is of another kind, has no equals sign in its text. -/
def LiteralValue.IsPlainResult (v : LiteralValue) : Prop :=
  v.IsPlain ∧ ∀ s, v = .other s → '=' ∉ s.toList

/-- A plain annotation that has no other values in its literals. -/
def TypeHint.IsPlainResult (a : TypeHint) : Prop :=
  a.Every (fun _ => False) fun values => ∀ v ∈ values, v.IsPlainResult

/-- No equals sign comes with the parts of a type. -/
theorem composes_notMem_equals : Composes fun s => '=' ∉ s.toList where
  plain := by decide
  union texts hne h := intercalate_induction (fun s t hs ht => by simp [hs, ht]) hne h
  array element h := by
    rw [toList_arrayText]
    split <;> simp [h]
  tuple texts h := by
    by_cases hne : texts = []
    · subst hne
      decide
    · have harguments : '=' ∉ (", ".intercalate texts).toList :=
        intercalate_induction (P := fun s => '=' ∉ s.toList)
          (fun s t hs ht => by simp [hs, ht]) hne h
      simp only [String.toList_append, List.mem_append, not_or]
      exact ⟨⟨by decide, harguments⟩, by decide⟩
  dictionary value h := by
    unfold dictionaryText
    simp [h]
  promise result h := by simp [promiseText, h]

/-- Such a value has no equals sign in it. -/
theorem LiteralValue.IsPlainResult.notMem_equals {v : LiteralValue} (h : v.IsPlainResult) :
    '=' ∉ (literalTyping v).toList := by
  cases v with
  | null => decide
  | bool b => cases b <;> decide
  | int i => exact (isNumeral_int i).not_mem (by decide) (by decide)
  | real s => exact IsNumeral.not_mem h.1 (by decide) (by decide)
  | text s => exact h.1.elim
  | other s => exact h.2 s rfl

/-- No type of such an annotation has an arrow in it. -/
theorem TypeHint.IsPlainResult.notMem_equals {a : TypeHint} (h : a.IsPlainResult)
    (isResult : Bool) : '=' ∉ (a.typing isResult).toList := by
  refine composes_notMem_equals.typing (fun _ hs => hs.elim) (fun values hvalues => ?_) h isResult
  by_cases hne : values = []
  · subst hne
    decide
  · refine composes_notMem_equals.unionText (by simpa using hne) fun s hs => ?_
    obtain ⟨v, hv, rfl⟩ := List.mem_map.mp hs
    exact (hvalues v hv).notMem_equals

/-- A text without equals signs is not split. -/
theorem splitArrow_eq_none {cs : List Char} (h : '=' ∉ cs) : splitArrow cs = none :=
  (splitArrow_eq_none_iff cs).mpr fun harrow => h (harrow.subset (by decide))

/-- No such result of a function is split. -/
theorem Function.splitArrow_writtenResult {f : Function}
    (hresult : ∀ a ∈ f.result, a.IsPlainResult) : splitArrow f.writtenResult.toList = none := by
  have hresult : '=' ∉ ((f.result.map (·.resolved.typing true)).getD "any").toList := by
    cases hreturn : f.result with
    | none => decide
    | some a =>
      have hresolved : a.resolved.IsPlainResult := resolved_every (hresult a hreturn)
      exact hresolved.notMem_equals true
  refine splitArrow_eq_none ?_
  unfold writtenResult awaitedText
  split
  · exact composes_notMem_equals.promise _ hresult
  · exact hresult

/-! ## Binding -/

/-- Further parameters follow the receiver one by one. -/
theorem furtherParameters_intercalate {texts : List String} (h : ∀ s ∈ texts, s ≠ "") :
    furtherParameters (", ".intercalate texts) = String.join (texts.map (", " ++ ·)) := by
  cases texts with
  | nil => rfl
  | cons s rest =>
    -- only behind some text a comma follows the receiver
    have hne : ", ".intercalate (s :: rest) ≠ "" := by
      simp [Text.intercalate_eq_join, h s (by simp)]
    rw [furtherParameters, if_neg hne, Text.intercalate_eq_join, List.map_cons, String.join_cons,
      String.append_assoc]

/-- The member that an annotated function becomes in a role of a model: behind the receiver every
other parameter with its type, in order, and then the result. A result without a text is anything. -/
theorem boundSignature_signatureText {f : Function} (hdeclared : f.signature = none)
    (hnames : f.IsWellNamed) (hthis : ∀ p ∈ f.parameters, p.name ≠ "this")
    (hplain : ∀ a ∈ f.annotations, a.2.IsPlain) (hresult : ∀ a ∈ f.result, a.IsPlainResult)
    {signature : String} (hsignature : f.signatureText? = some signature) (role : Role)
    (model : String) :
    boundSignature signature role model =
      memberOpening role model ++
        String.join (f.withoutReceiver.2.map fun p => ", " ++ p.written) ++ ") => " ++
        memberResult role (if f.writtenResult = "" then "any" else f.writtenResult) := by
  obtain ⟨-, rfl⟩ := (f.signatureText?_eq_some_iff hdeclared _).mp hsignature
  rw [hnames.parametersText_eq hplain, hnames.resultText_eq hplain]
  have hwritten : ∀ s ∈ f.withoutReceiver.2.map Parameter.written, s ≠ "" := by
    intro s hs heq
    obtain ⟨p, -, rfl⟩ := List.mem_map.mp hs
    obtain ⟨front, behind, hp, -⟩ := p.exists_written
    simp [heq] at hp
  -- the result has no arrow, so that the text is split where it was put together
  have hsplit := splitSignature_eq (hnames.not_isPrefix_this hthis) f.writtenResult.toList
  rw [splitArrow_append, f.splitArrow_writtenResult hresult] at hsplit
  have hlist : ∀ P R : String, ("(" ++ P ++ ") => " ++ R).toList =
      '(' :: (P.toList ++ arrowChars ++ R.toList) := by
    intro P R
    simp [arrowChars]
  rw [boundSignature_of_split (by rw [hlist]; exact hsplit), String.ofList_toList,
    String.ofList_toList, memberSignature, furtherParameters_intercalate hwritten, List.map_map]
  simp only [Function.comp_def, String.toList_eq_nil_iff]

/-- A method with parameters of every kind. -/
def searchMethod : Function where
  name := "search"
  parameters :=
    [⟨"self", none, .positional, false⟩,
      ⟨"counts", some (.generic .dict [.type .str, .union .bars [.type .int, .nothing]]),
        .positional, true⟩,
      ⟨"keys", some (.union .bars [.type .int, .type .str]), .variadic, false⟩,
      ⟨"limit", none, .keywordOnly, false⟩,
      ⟨"rest", some (.annotated (.literal [.int (-1), .bool true])), .variadicKeyword, false⟩]
  result := some (.generic .tuple [.type .str, .nothing])
  isCoroutine := true
  signature := none

/-- What such a method becomes as a member. -/
theorem boundSignature_search :
    searchMethod.signature = none ∧ searchMethod.IsWellNamed ∧
      (∀ p ∈ searchMethod.parameters, p.name ≠ "this") ∧
      (∀ a ∈ searchMethod.annotations, a.2.IsPlain) ∧
      (∀ a ∈ searchMethod.result, a.IsPlainResult) ∧
      ∃ signature, searchMethod.signatureText? = some signature ∧
        boundSignature signature .methods "User" =
          "(this: UserDocument, counts?: \x7b [key: string]: number | null \x7d, " ++
            "...keys: (number | string)[], limit: any, rest?: \x7b [key: string]: -1 | true \x7d" ++
            ") => Promise<[string, null]>" := by
  have hnames : searchMethod.IsWellNamed := ⟨by decide, by decide, by decide⟩
  have hthis : ∀ p ∈ searchMethod.parameters, p.name ≠ "this" := by decide
  have hplain : ∀ a ∈ searchMethod.annotations, a.2.IsPlain := by
    simp [searchMethod, Function.annotations, TypeHint.IsPlain, Every, EveryAll,
      LiteralValue.IsPlain]
  have hresult : ∀ a ∈ searchMethod.result, a.IsPlainResult := by
    simp [searchMethod, TypeHint.IsPlainResult, Every, EveryAll]
  refine ⟨rfl, hnames, hthis, hplain, hresult, _, (Function.signatureText?_eq_some_iff rfl _).mpr
    ⟨by decide, rfl⟩, ?_⟩
  rw [boundSignature_signatureText rfl hnames hthis hplain hresult
    ((Function.signatureText?_eq_some_iff rfl _).mpr ⟨by decide, rfl⟩)]
  decide +kernel

/-- A union inside metadata inside a union. -/
def scaleHint : TypeHint :=
  .union .named [.annotated (.union .named [.type .int, .type .str]), .type .float]

/-- A method with such a parameter, and a result that is a literal without values. -/
def scaleMethod : Function where
  name := "scale"
  parameters := [⟨"self", none, .positional, false⟩, ⟨"x", some scaleHint, .positional, false⟩]
  result := some (.literal [])
  isCoroutine := false
  signature := none

/-- The member has neither the type of the annotation with its metadata nor the empty text of the
result: the union is joined again without the metadata, and what has no text is anything. -/
theorem boundSignature_scale :
    (∀ a ∈ scaleMethod.annotations, a.2.IsPlain) ∧
      (∀ a ∈ scaleMethod.result, a.IsPlainResult) ∧
      (∀ p ∈ scaleMethod.parameters, p.name ≠ "this") ∧
      scaleMethod.signatureText? = some "(x: number | string) => " ∧
      boundSignature "(x: number | string) => " .methods "User" =
        "(this: UserDocument, x: number | string) => any" ∧
      scaleHint.typing false = "number | string | number" ∧
      (TypeHint.literal []).typing true = "" ∧
      boundSignature "(x: number | string) => " .methods "User" ≠
        "(this: UserDocument, x: " ++ scaleHint.typing false ++ ") => any" ∧
      boundSignature "(x: number | string) => " .methods "User" ≠
        "(this: UserDocument, x: number | string) => " ++ (TypeHint.literal []).typing true := by
  refine ⟨?_, ?_, by decide, by decide +kernel, by decide +kernel, by decide +kernel,
    by decide +kernel, by decide +kernel, by decide +kernel⟩
  · simp [scaleMethod, scaleHint, Function.annotations, TypeHint.IsPlain, Every, EveryAll]
  · simp [scaleMethod, TypeHint.IsPlainResult, Every]

end SchemaTypings
