import SchemaTypings.Proofs.Signatures.Splitting

/-!
# Explicit receivers

An explicit receiver is cut off a signature by the word characters that its type begins with and a
comma behind them. `boundSignature_receiver_iff` says when nothing of it is left: its type has to
consist of word characters. Of any other type the rest from the first other character on stays in
front of the parameters. That this rest does not begin with a comma is the only thing that the proof
needs to know of a type; there is no comma in a type without a bracket in front of it
(`head?_dropWhile_ne_comma`).
-/

namespace SchemaTypings

open Declaration

/-! ## Commas in types -/

namespace Declaration

/-- A comma, and the brackets that a comma may stand in. -/
def listKinds : List Kind := [.comma, .leftBrace, .leftParen, .leftBracket, .less]

/-- The first of these in an item of a type is no comma. -/
theorem TypeItem.find?_kind_ne_comma (i : TypeItem) :
    (i.yield.map Token.kind).find? (· ∈ listKinds) ≠ some .comma := by
  cases i with
  | token t =>
    have hkinds : ∀ k ∈ typeKinds, k ∉ listKinds := by decide
    simp [TypeItem.yield, hkinds _ t.kind_mem]
  | group b hb g =>
    have hopening : ∀ b : Bracket, b.opening ∈ listKinds ∧ b.opening ≠ .comma := fun b => by
      cases b <;> decide
    simp [TypeItem.yield, Group.yield, g.opening.kind_eq, hopening]
  | object o =>
    obtain ⟨opening, members, closing⟩ := o
    simp [TypeItem.yield, ObjectType.yield, opening.kind_eq, listKinds]

/-- The first of these in a type is no comma. -/
theorem TypeTree.find?_kind_ne_comma (x : TypeTree) :
    (x.yield.map Token.kind).find? (· ∈ listKinds) ≠ some .comma := by
  cases x with
  | item i => exact i.find?_kind_ne_comma
  | more before i =>
    rw [TypeTree.yield, List.map_append, List.find?_append]
    cases hfind : (before.yield.map Token.kind).find? (· ∈ listKinds) with
    | none => exact i.find?_kind_ne_comma
    | some k =>
      rw [Option.some_or, ← hfind]
      exact before.find?_kind_ne_comma

/-- A word character stands for none of these. -/
theorem ofChar_notMem_listKinds {c : Char} (hc : Text.isWordChar c) :
    Kind.ofChar c ∉ listKinds := by
  have hnone : ∀ d ∈ [',', '\x7b', '(', '[', '<'], Text.isWordChar d = false := by decide
  unfold Kind.ofChar
  split
  all_goals first | decide | exact absurd (hc.symm.trans (hnone _ (by decide))) (by decide)

/-- What a word character begins has no comma in it. -/
theorem Lexes.of_isWordChar {c : Char} {y x rest : List Char} {kind : Option Kind}
    (h : Lexes x kind rest) (hx : x = c :: y) (hc : Text.isWordChar c) :
    ',' ∉ x ∧ ∀ k ∈ kind, k ∉ listKinds := by
  have hnone : ∀ d ∈ [' ', '\t', '\r', '\n', '/', '"', '\'', '`'], Text.isWordChar d = false := by
    decide
  -- what passes a test that no comma passes has no comma in it
  have htest : ∀ {p : Char → Bool} {z : List Char}, p ',' = false → (∀ d ∈ z, p d) → ',' ∉ z :=
    fun hp hz hmem => ne_of_test (hz _ hmem) hp rfl
  cases h with
  | @blank d _ h =>
    obtain rfl := (List.cons.inj hx).1
    have hblank := (scan_prefix_of_test (by decide) hc rest).1
    exact absurd (h.symm.trans hblank) (by decide)
  | block h | line h hrest =>
    obtain rfl := (List.cons.inj hx).1
    exact absurd (hc.symm.trans (hnone '/' (by decide))) (by decide)
  | @string quote _ _ hquote h =>
    obtain rfl := (List.cons.inj hx).1
    have hlist : quote ∈ ['"', '\'', '`'] := by simpa [isQuote, or_assoc] using hquote
    have hfalse := hnone quote (List.mem_append_right [' ', '\t', '\r', '\n', '/'] hlist)
    exact absurd (hc.symm.trans hfalse) (by decide)
  | number hd hy hrest hpoint =>
    refine ⟨htest (p := Text.isDecimalDigit) (by decide) (List.forall_mem_cons.mpr ⟨hd, hy⟩), ?_⟩
    simp [listKinds]
  | @fraction _ _ _ _ _ hd hy he hz hrest =>
    have hwhole := htest (p := Text.isDecimalDigit) (by decide) (List.forall_mem_cons.mpr ⟨hd, hy⟩)
    have hpart := htest (p := Text.isDecimalDigit) (by decide) (List.forall_mem_cons.mpr ⟨he, hz⟩)
    refine ⟨fun hmem => ?_, by simp [listKinds]⟩
    rcases List.mem_append.mp hmem with hmem | hmem
    · exact hwhole hmem
    · exact hpart ((List.mem_cons.mp hmem).resolve_left (by decide))
  | word hd hy hrest =>
    refine ⟨htest (p := isIdentifierPart) (by decide)
      (List.forall_mem_cons.mpr ⟨isIdentifierPart_of_start hd, hy⟩), fun k hk => ?_⟩
    obtain rfl := Option.mem_some_iff.mp hk
    have hkinds : ∀ k ∈ [Kind.identifier, .exportWord, .interfaceWord, .typeWord, .declareWord,
        .moduleWord, .importWord, .extendsWord], k ∉ listKinds := by decide
    exact hkinds _ (ofWord_mem _)
  | ellipsis => exact ⟨by decide, by simp [listKinds]⟩
  | arrow => exact ⟨by decide, by simp [listKinds]⟩
  | sign hblank hcomment hstring hdigit hstart hlong =>
    obtain rfl := (List.cons.inj hx).1
    have hcomma := ne_of_test (p := Text.isWordChar) (d := ',') hc (by decide)
    exact ⟨by simpa using hcomma.symm, by simpa using ofChar_notMem_listKinds hc⟩

/-- Behind word characters a comma is the first of these. -/
theorem find?_kind_pieces {w : List Char} (hw : ∀ c ∈ w, Text.isWordChar c) (rest : List Char) :
    ((pieces (w ++ ',' :: rest)).filterMap Piece.kind).find? (· ∈ listKinds) = some .comma := by
  induction hn : w.length using Nat.strongRecOn generalizing w with
  | ind n ih =>
    cases w with
    | nil =>
      have hcomma : Lexes [','] (some .comma) rest := lexes_sign (by decide) rest
      rw [List.nil_append, ← List.singleton_append, hcomma.pieces_eq]
      rfl
    | cons c w =>
      obtain ⟨x, kind, left, heq, h⟩ := exists_lexes c (w ++ ',' :: rest)
      obtain ⟨d, y, hx⟩ := List.exists_cons_of_ne_nil h.ne_nil
      obtain rfl : c = d := by
        rw [hx, List.cons_append] at heq
        exact (List.cons.inj heq).1
      obtain ⟨hcomma, hkind⟩ := h.of_isWordChar hx (hw c (by simp))
      -- what is taken ends in front of the comma
      obtain ⟨w', hw'⟩ := isPrefix_of_append (y := c :: w) ',' rest hcomma ⟨left, heq.symm⟩
      obtain rfl : left = w' ++ ',' :: rest := by
        rw [← List.cons_append, ← hw', List.append_assoc] at heq
        exact (List.append_cancel_left heq).symm
      have hlength := congrArg List.length hw'
      have hpos := List.length_pos_iff.mpr h.ne_nil
      rw [List.length_append] at hlength
      have hrest := ih w'.length (by omega) (fun e he => hw e (by simp [← hw', he])) rfl
      rw [List.cons_append, heq, h.pieces_eq]
      cases kind with
      | none => simpa using hrest
      | some k => simpa [hkind k rfl] using hrest

/-- The word characters that a type begins with have no comma behind them. -/
theorem head?_dropWhile_ne_comma {s : String} (h : ReadsAsType s) :
    (s.toList.dropWhile Text.isWordChar).head? ≠ some ',' := by
  intro hhead
  obtain ⟨x, hyield, -⟩ := h.exists_tree
  obtain ⟨rest, hrest⟩ := List.head?_eq_some_iff.mp hhead
  have htext := List.takeWhile_append_dropWhile (p := Text.isWordChar) (l := s.toList)
  rw [hrest] at htext
  have hfirst := find?_kind_pieces (w := s.toList.takeWhile Text.isWordChar)
    (fun c hc => List.mem_takeWhile_imp hc) rest
  rw [htext, ← map_kind_place _ _, ← placeBehind, ← hyield] at hfirst
  exact x.find?_kind_ne_comma hfirst

end Declaration

/-! ## Receivers -/

/-- What stays of a receiver in front of what is behind it and a separator. -/
def receiverRest (receiver separator : List Char) : List Char :=
  if receiver.dropWhile Text.isWordChar = [] then []
  else receiver.dropWhile Text.isWordChar ++ separator

theorem receiverRest_eq_nil_iff (receiver separator : List Char) :
    receiverRest receiver separator = [] ↔ ∀ c ∈ receiver, Text.isWordChar c := by
  rw [← List.dropWhile_eq_nil_iff, receiverRest]
  split
  · next hnil => exact iff_of_true rfl hnil
  · next hne => exact iff_of_false (fun h => hne (List.append_eq_nil_iff.mp h).1) hne

/-- The word characters of a receiver are taken off, and a comma with a blank behind them. -/
theorem dropReceiver_this (receiver rest : List Char) :
    dropReceiver ("this: ".toList ++ receiver ++ rest) =
      match (receiver ++ rest).dropWhile Text.isWordChar with
      | ',' :: ' ' :: rest => rest
      | rest => rest :=
  rfl

variable {receiver : List Char}
  (hcomma : (receiver.dropWhile Text.isWordChar).head? ≠ some ',')

include hcomma

/-- A receiver of other characters is not taken off up to what is behind it. -/
theorem dropReceiver_of_ne_nil (hne : receiver.dropWhile Text.isWordChar ≠ [])
    (rest : List Char) :
    dropReceiver ("this: ".toList ++ receiver ++ rest) =
      receiver.dropWhile Text.isWordChar ++ rest := by
  rw [dropReceiver_this, List.dropWhile_append, if_neg (by simpa using hne)]
  obtain ⟨c, left, hleft⟩ := List.exists_cons_of_ne_nil hne
  rw [hleft] at hcomma ⊢
  split
  · next heq => exact absurd (by simpa using (List.cons.inj heq).1) hcomma
  · rfl

/-- What stays of a receiver with parameters behind it. -/
theorem dropReceiver_comma (rest : List Char) :
    dropReceiver ("this: ".toList ++ receiver ++ (", ".toList ++ rest)) =
      receiverRest receiver ", ".toList ++ rest := by
  unfold receiverRest
  split
  · next hnil =>
    rw [dropReceiver_this, List.dropWhile_append, if_pos (by simpa using hnil)]
    rfl
  · next hne => rw [dropReceiver_of_ne_nil hcomma hne, List.append_assoc]

/-- What stays of a receiver without parameters. -/
theorem dropReceiver_arrow (rest : List Char) :
    dropReceiver ("this: ".toList ++ receiver ++ (arrowChars ++ rest)) =
      receiverRest receiver [] ++ (arrowChars ++ rest) := by
  unfold receiverRest
  split
  · next hnil =>
    rw [dropReceiver_this, List.dropWhile_append, if_pos (by simpa using hnil)]
    rfl
  · next hne => rw [dropReceiver_of_ne_nil hcomma hne, List.append_nil]

omit hcomma

/-- Two signatures of which one has more in front of the parameters of the other. -/
theorem boundSignature_eq_iff_of_split {signature signature' : String}
    {front parameters result : List Char}
    (h : splitSignature signature.toList = some (front ++ parameters, result))
    (h' : splitSignature signature'.toList = some (parameters, result)) (role : Role)
    (model : String) :
    boundSignature signature role model = boundSignature signature' role model ↔ front = [] := by
  rw [boundSignature_of_split h, boundSignature_of_split h', memberSignature_eq_iff_of_result rfl,
    String.ofList_inj, List.append_left_eq_self]

/-- An explicit receiver makes no difference to what is bound, with parameters behind it or none,
exactly when its type consists of word characters. -/
theorem boundSignature_receiver_iff (role : Role) (model receiver parameters result : String)
    (hreceiver : ReadsAsType receiver) (hthis : ¬"this:".toList <+: parameters.toList) :
    (boundSignature ("(this: " ++ receiver ++ ", " ++ parameters ++ ") => " ++ result) role model =
        boundSignature ("(" ++ parameters ++ ") => " ++ result) role model ↔
      ∀ c ∈ receiver.toList, Text.isWordChar c) ∧
    (boundSignature ("(this: " ++ receiver ++ ") => " ++ result) role model =
        boundSignature ("() => " ++ result) role model ↔
      ∀ c ∈ receiver.toList, Text.isWordChar c) := by
  have hcomma := head?_dropWhile_ne_comma hreceiver
  constructor
  · obtain ⟨⟨before, after⟩, hparts⟩ := exists_splitArrow parameters.toList result.toList
    have hplain : splitSignature ("(" ++ parameters ++ ") => " ++ result).toList =
        some (before, after) := by
      rw [← hparts, ← splitSignature_eq hthis]
      simp [arrowChars]
    have hexplicit : splitSignature
        ("(this: " ++ receiver ++ ", " ++ parameters ++ ") => " ++ result).toList =
          some (receiverRest receiver.toList ", ".toList ++ before, after) := by
      rw [← splitArrow_append_of_some hparts, ← dropReceiver_comma hcomma]
      simp [arrowChars, splitSignature]
    rw [boundSignature_eq_iff_of_split hexplicit hplain, receiverRest_eq_nil_iff]
  · obtain ⟨⟨before, after⟩, hparts⟩ := exists_splitArrow [] result.toList
    have hplain : splitSignature ("() => " ++ result).toList = some (before, after) := by
      have hthis : ¬"this:".toList <+: [] := by decide
      rw [← hparts, ← splitSignature_eq hthis]
      simp [arrowChars]
    have hexplicit : splitSignature ("(this: " ++ receiver ++ ") => " ++ result).toList =
        some (receiverRest receiver.toList [] ++ before, after) := by
      rw [List.nil_append] at hparts
      rw [← splitArrow_append_of_some hparts, ← dropReceiver_arrow hcomma]
      simp [arrowChars, splitSignature]
    rw [boundSignature_eq_iff_of_split hexplicit hplain, receiverRest_eq_nil_iff]

theorem tokens_wordType : tokens ("interface X \x7bp: " ++ "Whatever" ++ "\x7d") =
    [⟨.interfaceWord, "interface", 1, 0⟩, ⟨.identifier, "X", 1, 10⟩, ⟨.leftBrace, "\x7b", 1, 12⟩,
      ⟨.identifier, "p", 1, 13⟩, ⟨.colon, ":", 1, 14⟩, ⟨.identifier, "Whatever", 1, 16⟩,
      ⟨.rightBrace, "\x7d", 1, 24⟩] := by
  decide

theorem readsAsType_word : ReadsAsType "Whatever" := by
  refine ⟨⟨"interface X \x7bp: Whatever\x7d", [], [.interface "X" false [⟨"p", false, 16, 24⟩]]⟩,
    ⟨"p", false, 16, 24⟩, ?_, rfl, by decide⟩
  unfold SourceFile.ofText parse
  rw [tokens_wordType]
  rfl

theorem tokens_dottedType : tokens ("interface X \x7bp: " ++ "mongoose.Document" ++ "\x7d") =
    [⟨.interfaceWord, "interface", 1, 0⟩, ⟨.identifier, "X", 1, 10⟩, ⟨.leftBrace, "\x7b", 1, 12⟩,
      ⟨.identifier, "p", 1, 13⟩, ⟨.colon, ":", 1, 14⟩, ⟨.identifier, "mongoose", 1, 16⟩,
      ⟨.dot, ".", 1, 24⟩, ⟨.identifier, "Document", 1, 25⟩, ⟨.rightBrace, "\x7d", 1, 33⟩] := by
  decide

theorem readsAsType_dotted : ReadsAsType "mongoose.Document" := by
  refine ⟨⟨"interface X \x7bp: mongoose.Document\x7d", [],
    [.interface "X" false [⟨"p", false, 16, 33⟩]]⟩, ⟨"p", false, 16, 33⟩, ?_, rfl, by decide⟩
  unfold SourceFile.ofText parse
  rw [tokens_dottedType]
  rfl

/-- A receiver that is a word is replaced. -/
theorem boundSignature_receiver_word :
    boundSignature "(this: Whatever, n: number) => string" .methods "User" =
        boundSignature "(n: number) => string" .methods "User" ∧
      boundSignature "(this: Whatever) => string" .statics "User" =
        boundSignature "() => string" .statics "User" :=
  ⟨(boundSignature_receiver_iff .methods "User" "Whatever" "n: number" "string" readsAsType_word
      (by decide)).1.mpr (by decide),
    (boundSignature_receiver_iff .statics "User" "Whatever" "n: number" "string" readsAsType_word
      (by decide)).2.mpr (by decide)⟩

/-- Of a receiver with a point in its name the end stays among the parameters. -/
theorem boundSignature_dottedReceiver :
    ReadsAsType "mongoose.Document" ∧
    boundSignature "(this: mongoose.Document, n: number) => string" .methods "User" =
      "(this: UserDocument, .Document, n: number) => string" ∧
    boundSignature "(this: mongoose.Document, n: number) => string" .methods "User" ≠
      boundSignature "(n: number) => string" .methods "User" ∧
    boundSignature "(this: mongoose.Document) => string" .methods "User" ≠
      boundSignature "() => string" .methods "User" :=
  ⟨readsAsType_dotted, by decide, by decide, by decide⟩

end SchemaTypings
