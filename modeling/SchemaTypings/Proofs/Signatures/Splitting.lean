import SchemaTypings.Signature
import SchemaTypings.Proofs.Editing.TypeText

/-!
# Where a signature is split

A signature is split at the last `) => ` in it (`splitArrow_append`), which is the one that closes
the parameters as long as there is none in the result. `boundSignature_eq_memberSignature_iff`
compares what is bound with `memberSignature`, in which the parameters and the result stand as they
were given. With an arrow in the result the two are the same only where the parts are put together
again around the wrong arrow: for a method or static that has parameters. A query helper, and
whatever has no parameters, is left with a piece of the result.
-/

namespace SchemaTypings

open Declaration

/-! ## The last arrow -/

/-- The arrow behind the parameters of a signature. -/
def arrowChars : List Char := ") => ".toList

/-- A text that has an arrow is split at one. -/
theorem eq_of_splitArrow {cs before after : List Char}
    (h : splitArrow cs = some (before, after)) : cs = before ++ arrowChars ++ after := by
  induction cs generalizing before with
  | nil => simp [splitArrow] at h
  | cons c cs ih =>
    rw [splitArrow] at h
    split at h
    · next front back hrest =>
      simp only [Option.some.injEq, Prod.mk.injEq] at h
      obtain ⟨rfl, rfl⟩ := h
      rw [ih hrest]
      rfl
    · split at h
      · next back heq =>
        simp only [Option.some.injEq, Prod.mk.injEq] at h
        obtain ⟨rfl, rfl⟩ := h
        exact heq
      · contradiction

/-- What stands in front of a text with an arrow goes to the front part. -/
theorem splitArrow_append_of_some {y before after : List Char}
    (h : splitArrow y = some (before, after)) (x : List Char) :
    splitArrow (x ++ y) = some (x ++ before, after) := by
  induction x with
  | nil => exact h
  | cons c x ih => rw [List.cons_append, splitArrow, ih, List.cons_append]

/-- Without another arrow behind it, an arrow is the last one. -/
theorem splitArrow_arrow_append {y : List Char} (h : splitArrow y = none) :
    splitArrow (arrowChars ++ y) = some ([], y) := by
  simp [arrowChars, splitArrow, h]

/-- A text is split at its last arrow. -/
theorem splitArrow_append (x y : List Char) :
    splitArrow (x ++ arrowChars ++ y) =
      match splitArrow y with
      | none => some (x, y)
      | some (before, after) => some (x ++ arrowChars ++ before, after) := by
  cases hy : splitArrow y with
  | none =>
    rw [List.append_assoc, splitArrow_append_of_some (splitArrow_arrow_append hy),
      List.append_nil]
  | some parts => exact splitArrow_append_of_some hy _

/-- A text with an arrow is split. -/
theorem exists_splitArrow (x y : List Char) :
    ∃ parts, splitArrow (x ++ arrowChars ++ y) = some parts := by
  rw [splitArrow_append]
  split <;> exact ⟨_, rfl⟩

/-- Only a text with an arrow is split. -/
theorem splitArrow_eq_none_iff (cs : List Char) :
    splitArrow cs = none ↔ ¬arrowChars <:+: cs := by
  constructor
  · rintro h ⟨x, y, rfl⟩
    obtain ⟨parts, hparts⟩ := exists_splitArrow x y
    rw [hparts] at h
    contradiction
  · intro h
    cases hsplit : splitArrow cs with
    | none => rfl
    | some parts => exact absurd ⟨_, _, (eq_of_splitArrow hsplit).symm⟩ h

/-! ## The parts of a signature -/

/-- A text that begins with no `this: ` has no receiver. -/
theorem dropReceiver_eq_self {cs : List Char} (h : ¬"this: ".toList <+: cs) :
    dropReceiver cs = cs := by
  unfold dropReceiver
  split
  · next rest => exact absurd ⟨rest, rfl⟩ h
  · rfl

/-- What does not have the next character is in front of it. -/
theorem isPrefix_of_append {x y : List Char} (c : Char) (rest : List Char) (hc : c ∉ x)
    (h : x <+: y ++ c :: rest) : x <+: y := by
  have hnext : y ++ [c] <+: y ++ c :: rest := ⟨rest, by simp⟩
  rcases List.prefix_or_prefix_of_prefix h hnext with hshort | hlong
  · rcases List.prefix_concat_iff.mp hshort with rfl | hfront
    · exact absurd (by simp) hc
    · exact hfront
  · exact absurd (hlong.subset (by simp)) hc

/-- Parameters without a receiver are split off as they are. -/
theorem splitSignature_eq {parameters : List Char} (h : ¬"this:".toList <+: parameters)
    (result : List Char) :
    splitSignature ('(' :: (parameters ++ arrowChars ++ result)) =
      splitArrow (parameters ++ arrowChars ++ result) := by
  have hreceiver : ¬"this: ".toList <+: parameters ++ arrowChars ++ result := by
    intro hprefix
    have hparameters : "this: ".toList <+: parameters := by
      refine isPrefix_of_append ')' (" => ".toList ++ result) (by decide) ?_
      simpa [arrowChars] using hprefix
    exact h ((by decide : "this:".toList <+: "this: ".toList).trans hparameters)
  rw [splitSignature, dropReceiver_eq_self hreceiver]

/-! ## Members -/

/-- The parameters that follow a receiver. -/
def furtherParameters (parameters : String) : String :=
  if parameters = "" then "" else ", " ++ parameters

/-- What a member begins with in a role of a model, up to its receiver. -/
def memberOpening (role : Role) (model : String) : String :=
  match role with
  | .query => "<Q extends mongoose.Query<any, " ++ model ++ "Document>>(this: Q"
  | .methods => "(this: " ++ model ++ "Document"
  | .statics => "(this: " ++ model ++ "Model"

/-- What a member gives back; a query helper gives its query. -/
def memberResult (role : Role) (result : String) : String :=
  if role = .query then "Q" else result

/-- The type of a member with these parameters and this result in a role of a model. -/
def memberSignature (role : Role) (model parameters result : String) : String :=
  memberOpening role model ++ furtherParameters parameters ++ ") => " ++ memberResult role result

/-- What is bound is made of the parts of the signature. -/
theorem boundSignature_of_split {signature : String} {parameters result : List Char}
    (h : splitSignature signature.toList = some (parameters, result)) (role : Role)
    (model : String) :
    boundSignature signature role model =
      memberSignature role model (String.ofList parameters)
        (if result = [] then "any" else String.ofList result) := by
  have hmore : (if parameters.isEmpty then "" else ", " ++ String.ofList parameters) =
      furtherParameters (String.ofList parameters) := by
    cases parameters <;> simp [furtherParameters]
  have hany : (if result.isEmpty then "any" else String.ofList result) =
      if result = [] then "any" else String.ofList result := by
    cases result <;> simp
  have hquery : ") => Q" = ") => " ++ "Q" := by decide
  unfold boundSignature
  rw [h, Option.getD_some]
  dsimp only
  rw [hmore, hany]
  cases role with
  | query =>
    change _ ++ ") => Q" = _
    rw [hquery, ← String.append_assoc]
    rfl
  | methods => rfl
  | statics => rfl

/-- What follows a receiver tells the parameters. -/
theorem furtherParameters_inj {parameters parameters' : String} :
    furtherParameters parameters = furtherParameters parameters' ↔ parameters = parameters' := by
  have hcomma : ∀ s : String, ", " ++ s ≠ "" := fun s h =>
    absurd (String.append_eq_empty_iff.mp h).1 (by decide)
  refine ⟨fun h => ?_, congrArg furtherParameters⟩
  unfold furtherParameters at h
  split at h <;> split at h
  · next hempty hempty' => rw [hempty, hempty']
  · exact absurd h.symm (hcomma _)
  · exact absurd h (hcomma _)
  · exact (String.append_right_inj _).mp h

/-- Two members with the same result are the same when their parameters are. -/
theorem memberSignature_eq_iff_of_result {role : Role} {model parameters parameters' : String}
    {result result' : String} (h : memberResult role result = memberResult role result') :
    memberSignature role model parameters result = memberSignature role model parameters' result' ↔
      parameters = parameters' := by
  unfold memberSignature
  rw [h, String.append_left_inj, String.append_left_inj, String.append_right_inj,
    furtherParameters_inj]

/-! ## Results -/

/-- A type has a last character, which is no blank. -/
theorem exists_last_of_readsAsType {s : String} (h : ReadsAsType s) :
    ∃ c ∈ s.toList.getLast?, c ≠ ' ' := by
  obtain ⟨x, hyield, -, -, -, -, hlast⟩ := h.exists_tree
  obtain ⟨t, ts, hfirst, -⟩ := x.yield_eq_cons
  cases hpieces : (pieces s.toList).getLast? with
  | none =>
    rw [List.getLast?_eq_none_iff.mp hpieces, hfirst] at hyield
    exact absurd hyield (by simp [placeBehind, place])
  | some p =>
    obtain ⟨k, hk⟩ := Option.ne_none_iff_exists'.mp (hlast p hpieces)
    obtain ⟨rest, hlex⟩ := exists_lexes_of_mem_pieces (List.mem_of_getLast? hpieces)
    rw [hk] at hlex
    obtain ⟨before, hbefore⟩ := List.getLast?_eq_some_iff.mp hpieces
    obtain ⟨c, hc⟩ := Option.ne_none_iff_exists'.mp fun hnone =>
      hlex.ne_nil (List.getLast?_eq_none_iff.mp hnone)
    refine ⟨c, ?_, fun hblank => hlex.last_ne (hblank ▸ hc)⟩
    rw [← textOf_pieces s.toList, hbefore, textOf_append, List.getLast?_append]
    simp [hc]

/-- Behind the last arrow of a type there is something. -/
theorem splitArrow_ne_nil {s : String} (h : ReadsAsType s) {before after : List Char}
    (hsplit : splitArrow s.toList = some (before, after)) : after ≠ [] := by
  rintro rfl
  obtain ⟨c, hc, hblank⟩ := exists_last_of_readsAsType h
  rw [eq_of_splitArrow hsplit, List.append_nil, List.getLast?_append] at hc
  exact hblank (by simpa [arrowChars, eq_comm] using hc)

theorem ne_nil_of_readsAsType {s : String} (h : ReadsAsType s) : s.toList ≠ [] := by
  obtain ⟨c, hc, -⟩ := exists_last_of_readsAsType h
  rintro hnil
  simp [hnil] at hc

/-! ## What is bound -/

/-- A member whose parts were taken apart at an arrow of the result is the member of the parts before
exactly when its text is put together again the same. -/
theorem memberSignature_regrouped_iff (role : Role) (model parameters : String) {result : String}
    {before after : List Char} (h : result.toList = before ++ arrowChars ++ after) :
    memberSignature role model (String.ofList (parameters.toList ++ arrowChars ++ before))
        (String.ofList after) = memberSignature role model parameters result ↔
      role ≠ .query ∧ parameters ≠ "" := by
  have hne : String.ofList (parameters.toList ++ arrowChars ++ before) ≠ parameters := fun heq => by
    have hlength := congrArg String.length heq
    simp [arrowChars] at hlength
  by_cases hrole : role = .query
  · subst hrole
    have hresult : memberResult .query (String.ofList after) = memberResult .query result := rfl
    rw [memberSignature_eq_iff_of_result hresult]
    exact iff_of_false hne fun h => h.1 rfl
  by_cases hparameters : parameters = ""
  · -- a comma stands in front of what was taken for parameters
    refine iff_of_false (fun heq => ?_) (by simp [hparameters])
    have htext := congrArg String.toList heq
    simp [memberSignature, memberResult, furtherParameters, hrole, hparameters, h,
      arrowChars] at htext
  · refine iff_of_true ?_ ⟨hrole, hparameters⟩
    rw [← String.toList_inj]
    simp [memberSignature, memberResult, furtherParameters, hrole, hparameters, h, arrowChars]

/-- A signature is bound with its own parameters and result exactly when there is no arrow in the
result, or when the parts that it is taken apart into are put together again the same. -/
theorem boundSignature_eq_memberSignature_iff (role : Role) (model parameters result : String)
    (hresult : ReadsAsType result) (hthis : ¬"this:".toList <+: parameters.toList) :
    boundSignature ("(" ++ parameters ++ ") => " ++ result) role model =
        memberSignature role model parameters result ↔
      ¬arrowChars <:+: result.toList ∨ role ≠ .query ∧ parameters ≠ "" := by
  have hsignature : ("(" ++ parameters ++ ") => " ++ result).toList =
      '(' :: (parameters.toList ++ arrowChars ++ result.toList) := by
    simp [arrowChars]
  have hsplit := splitSignature_eq hthis result.toList
  rw [← hsignature, splitArrow_append] at hsplit
  cases harrow : splitArrow result.toList with
  | none =>
    rw [harrow] at hsplit
    have hbound := boundSignature_of_split hsplit role model
    rw [if_neg (ne_nil_of_readsAsType hresult), String.ofList_toList, String.ofList_toList] at hbound
    simp [hbound, (splitArrow_eq_none_iff _).mp harrow]
  | some parts =>
    obtain ⟨before, after⟩ := parts
    rw [harrow] at hsplit
    -- the front of the result is taken for parameters, and its end for the result
    have hparts := eq_of_splitArrow harrow
    have harrows : arrowChars <:+: result.toList := ⟨before, after, hparts.symm⟩
    rw [boundSignature_of_split hsplit role model, if_neg (splitArrow_ne_nil hresult harrow),
      memberSignature_regrouped_iff role model parameters hparts]
    simp [harrows]

theorem tokens_functionType : tokens ("interface X \x7bp: " ++ "(x: string) => boolean" ++ "\x7d") =
    [⟨.interfaceWord, "interface", 1, 0⟩, ⟨.identifier, "X", 1, 10⟩, ⟨.leftBrace, "\x7b", 1, 12⟩,
      ⟨.identifier, "p", 1, 13⟩, ⟨.colon, ":", 1, 14⟩, ⟨.leftParen, "(", 1, 16⟩,
      ⟨.identifier, "x", 1, 17⟩, ⟨.colon, ":", 1, 18⟩, ⟨.identifier, "string", 1, 20⟩,
      ⟨.rightParen, ")", 1, 26⟩, ⟨.arrow, "=>", 1, 28⟩, ⟨.identifier, "boolean", 1, 31⟩,
      ⟨.rightBrace, "\x7d", 1, 38⟩] := by
  decide

/-- A function type is a type. -/
theorem readsAsType_function : ReadsAsType "(x: string) => boolean" := by
  refine ⟨⟨"interface X \x7bp: (x: string) => boolean\x7d", [],
    [.interface "X" false [⟨"p", false, 16, 38⟩]]⟩, ⟨"p", false, 16, 38⟩, ?_, rfl, by decide⟩
  unfold SourceFile.ofText parse
  rw [tokens_functionType]
  rfl

/-- A method with a parameter that gives back a function keeps both. -/
theorem boundSignature_functionResult_method :
    boundSignature "(n: number) => (x: string) => boolean" .methods "User" =
      "(this: UserDocument, n: number) => (x: string) => boolean" :=
  (boundSignature_eq_memberSignature_iff .methods "User" "n: number" "(x: string) => boolean"
    readsAsType_function (by decide)).mpr (.inr (by decide))

/-- A method without parameters that gives back a function gets a parameter list that begins with a
comma, and a query helper gives back a function. -/
theorem boundSignature_functionResult :
    ReadsAsType "(x: string) => boolean" ∧
    boundSignature "() => (x: string) => boolean" .methods "User" =
      "(this: UserDocument, ) => (x: string) => boolean" ∧
    boundSignature "() => (x: string) => boolean" .methods "User" ≠
      memberSignature .methods "User" "" "(x: string) => boolean" ∧
    boundSignature "(n: number) => (x: string) => boolean" .query "User" =
      "<Q extends mongoose.Query<any, UserDocument>>(this: Q, n: number) => (x: string) => Q" ∧
    boundSignature "(n: number) => (x: string) => boolean" .query "User" ≠
      memberSignature .query "User" "n: number" "(x: string) => boolean" :=
  ⟨readsAsType_function, by decide, by decide, by decide, by decide⟩

end SchemaTypings
