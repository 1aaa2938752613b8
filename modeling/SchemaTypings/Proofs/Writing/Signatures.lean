import SchemaTypings.Signature
import SchemaTypings.Proofs.Writing.Members

/-!
# Placeholders of functions

The type that stands for a function of which nothing is known is a type in every role, and the lines
of a collection of functions are members of these types (`isMembers_functionLines`).
-/

namespace SchemaTypings

open Declaration

/-- What the placeholder says after its receiver. -/
theorem splitSignature_default :
    splitSignature defaultSignature.toList = some ("...args: any[]".toList, "any".toList) := by
  decide

/-- A placeholder without its receiver. -/
theorem boundSignature_default (role : Role) (model : String) :
    boundSignature defaultSignature role model =
      match role with
      | .query =>
        "<Q extends mongoose.Query<any, " ++ model ++ "Document>>(this: Q, ...args: any[]) => Q"
      | .methods => "(this: " ++ model ++ "Document, ...args: any[]) => any"
      | .statics => "(this: " ++ model ++ "Model, ...args: any[]) => any" := by
  unfold boundSignature
  rw [splitSignature_default]
  cases role <;> simp [← String.toList_inj]

/-- The parameters of a placeholder, in parentheses, and its result. -/
theorem isType_receiver {receiver result : List Char} (h : IsIdentifier receiver)
    (hresult : IsIdentifier result) :
    IsType ('(' :: ("this".toList ++ ':' :: ' ' :: (receiver ++ ',' :: ' ' ::
      ("...args".toList ++ ':' :: ' ' :: "any[]".toList)) ++ [')']) ++ ' ' :: ('=' :: '>' :: ' ' ::
        result)) := by
  have hany : IsIdentifier "any".toList := by decide
  have hargs : IsIdentifier "args".toList := by decide
  have hthis : IsIdentifier "this".toList := by decide
  have hlist := (hany.isType.group isBalanced_nil (b := .square) (by decide)).isBalanced
  have hrest := (isBalanced_single spells_ellipsis (by decide)).append hargs.isType.isBalanced
    (parted_of_last (by simp; decide) _)
  have hinside := hthis.isType.isBalanced.colon
    (h.isType.isBalanced.comma (hrest.colon hlist))
  have harrow : IsType ['=', '>'] := isType_single spells_arrow (by decide)
  have htype := ((hinside.isGroup .paren).isType (by decide)).spaced
    (harrow.spaced hresult.isType)
  simpa [Bracket.chars] using htype

/-- The placeholder of a function is a type. -/
theorem isType_placeholder (role : Role) {model : String} (h : IsWord model.toList) :
    IsType (boundSignature defaultSignature role model).toList := by
  have hdocument : IsIdentifier (model.toList ++ "Document".toList) :=
    h.isIdentifier_append (by decide) (by decide)
  have hmodel : IsIdentifier (model.toList ++ "Model".toList) :=
    h.isIdentifier_append (by decide) (by decide)
  have hany : IsIdentifier "any".toList := by decide
  have hquery : IsIdentifier ['Q'] := by decide
  rw [boundSignature_default]
  cases role with
  | methods => simpa using isType_receiver hdocument hany
  | statics => simpa using isType_receiver hmodel hany
  | query =>
    have hhelpers : IsIdentifier "Query".toList := by decide
    have hextends : Spells "extends".toList (Single .extendsWord "extends".toList) :=
      IsWord.spells (by decide)
    have hbound := hquery.isType.spaced ((isType_single hextends (by decide)).spaced
      ((isType_mongoose hhelpers).generic (hany.isType.isBalanced.comma hdocument.isType.isBalanced)))
    have hgroup : IsType _ := (hbound.isBalanced.isGroup .angle).isType (by decide)
    have hreceiver := isType_receiver hquery hquery
    have htype := hgroup.append hreceiver (parted_cons (by decide) _ _)
    simpa [Bracket.chars] using htype

/-- The lines of a collection of functions say their names and placeholders. -/
theorem isMembers_functionLines (role : Role) {model : String} (hmodel : IsWord model.toList)
    (names : List String) :
    IsMembers (functionLines names model role "  ").toList
      ((declaredNames names).map fun name =>
        ⟨keyName name, false, boundSignature defaultSignature role model⟩) := by
  have hindent : IsMembers "  ".toList [] := isMembers_silent (spells_blanks (by decide))
  unfold functionLines
  generalize declaredNames names = declared
  induction declared with
  | nil => exact isMembers_silent spells_nil
  | cons name rest ih =>
    have hline := isMembers_property (isName_propertyKey name)
      (isType_placeholder role hmodel) false
    have hindented := hindent.append hline (parted_of_last (by decide) _)
    have hboth := hindented.append ih (parted_of_last (by
      simp [List.getLast?_append, List.getLast?_cons]
      decide) _)
    simpa [markChars] using hboth

/-- The placeholder of a function is lined. -/
theorem isLined_placeholder (role : Role) {model : String} (h : IsWord model.toList) :
    IsLined (boundSignature defaultSignature role model).toList := by
  have hmodel := h.isLined
  rw [boundSignature_default]
  cases role
  all_goals
    simp only [String.toList_append, isLined_append, hmodel, and_true]
    decide

/-- The lines of a collection of functions are lined. -/
theorem isLined_functionLines (role : Role) {model : String} (hmodel : IsWord model.toList)
    (names : List String) : IsLined (functionLines names model role "  ").toList := by
  have htype := isLined_placeholder role hmodel
  unfold functionLines
  generalize declaredNames names = declared
  induction declared with
  | nil => exact fun _ h => nomatch h
  | cons name rest ih =>
    have hkey := isLined_propertyKey name
    simp only [List.map_cons, String.join_cons, String.toList_append, isLined_append, ih, htype, hkey,
      and_true]
    decide

end SchemaTypings
