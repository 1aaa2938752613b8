import SchemaTypings.Proofs.Writing.Types

/-!
# How deep a token stands in brackets

`depth` counts the brackets that are open behind some tokens. Balanced tokens close every bracket
that they open (`Balanced.nested`), so that the bracket of a group is the last one that is closed in
it (`Nested.depth_pos`), and in a type a comma or a semicolon stands inside a bracket only
(`TypeTree.isSheltered`).
-/

namespace SchemaTypings.Declaration

/-! ## Depth -/

/-- What a token of this kind adds to the brackets that are open. -/
def Kind.weight : Kind → Int
  | .leftBrace | .leftParen | .leftBracket | .less => 1
  | .rightBrace | .rightParen | .rightBracket | .greater => -1
  | _ => 0

/-- The brackets that are open behind some tokens. -/
def depth : List Token → Int
  | [] => 0
  | t :: ts => t.kind.weight + depth ts

@[simp] theorem depth_nil : depth [] = 0 := rfl

@[simp] theorem depth_cons (t : Token) (ts : List Token) :
    depth (t :: ts) = t.kind.weight + depth ts := rfl

@[simp] theorem depth_append (ts us : List Token) : depth (ts ++ us) = depth ts + depth us := by
  induction ts with
  | nil => simp
  | cons t ts ih => rw [List.cons_append, depth_cons, depth_cons, ih, Int.add_assoc]

theorem Bracket.weight_opening (b : Bracket) : b.opening.weight = 1 := by
  cases b <;> rfl

theorem Bracket.weight_closing (b : Bracket) : b.closing.weight = -1 := by
  cases b <;> rfl

/-! ## Nested tokens -/

/-- Every bracket is closed, behind the place where it is opened. -/
structure Nested (ts : List Token) : Prop where
  settled : depth ts = 0
  nonneg : ∀ us vs, ts = us ++ vs → 0 ≤ depth us

theorem Nested.nil : Nested [] where
  settled := rfl
  nonneg us vs h := by simp [(List.append_eq_nil_iff.mp h.symm).1]

theorem Nested.append {ts us : List Token} (h : Nested ts) (h' : Nested us) :
    Nested (ts ++ us) where
  settled := by rw [depth_append, h.settled, h'.settled, Int.zero_add]
  nonneg vs ws heq := by
    -- the first of the two is passed, or it is not
    obtain ⟨more, rfl, hus⟩ | ⟨more, hts, -⟩ := List.append_eq_append_iff.mp heq
    · rw [depth_append, h.settled, Int.zero_add]
      exact h'.nonneg more ws hus
    · exact h.nonneg vs more hts

/-- A token that is no bracket. -/
theorem Nested.token {t : Token} (h : t.kind.weight = 0) : Nested [t] where
  settled := by simp [h]
  nonneg us vs heq := by
    rcases List.singleton_eq_append_iff.mp heq with ⟨rfl, -⟩ | ⟨rfl, -⟩ <;> simp [h]

/-- In front of the bracket that closes nested tokens, the bracket that opens them is open. -/
theorem Nested.depth_pos {b : Bracket} {inner us vs : List Token} (h : Nested inner)
    (opening : Leaf [b.opening]) (closing : Leaf [b.closing])
    (heq : opening.token :: inner ++ [closing.token] = us ++ vs) (hus : us ≠ []) (hvs : vs ≠ []) :
    0 < depth us := by
  obtain ⟨t, us, rfl⟩ := List.exists_cons_of_ne_nil hus
  obtain ⟨rfl, hinner⟩ : opening.token = t ∧ inner ++ [closing.token] = us ++ vs :=
    List.cons.inj heq
  -- what is left ends in the closing bracket, and what precedes it belongs to the inner tokens
  rw [← List.dropLast_concat_getLast hvs, ← List.append_assoc] at hinner
  have hsplit := (List.append_inj' hinner rfl).1
  have hpos := h.nonneg us _ hsplit
  rw [depth_cons, opening.kind_eq, b.weight_opening]
  omega

/-- Nested tokens in brackets are nested. -/
theorem Nested.group {b : Bracket} {inner : List Token} (h : Nested inner)
    (opening : Leaf [b.opening]) (closing : Leaf [b.closing]) :
    Nested (opening.token :: inner ++ [closing.token]) := by
  have hsettled : depth (opening.token :: inner ++ [closing.token]) = 0 := by
    simp [opening.kind_eq, closing.kind_eq, b.weight_opening, b.weight_closing, h.settled]
  refine ⟨hsettled, fun us vs heq => ?_⟩
  -- between its first token and its last, the group is open
  by_cases hus : us = []
  · simp [hus]
  by_cases hvs : vs = []
  · rw [hvs, List.append_nil] at heq
    have hus : depth us = 0 := heq ▸ hsettled
    exact Int.le_of_eq hus.symm
  · exact Int.le_of_lt (h.depth_pos opening closing heq hus hvs)

mutual
/-- Balanced tokens are nested. -/
theorem Balanced.nested (b : Balanced) : Nested b.yield := by
  cases b with
  | empty => exact .nil
  | more before item => exact before.nested.append item.nested

theorem BalancedItem.nested (i : BalancedItem) : Nested i.yield := by
  cases i with
  | token t =>
    have hweight : ∀ k ∈ balancedKinds, k.weight = 0 := by decide
    exact .token (hweight _ t.kind_mem)
  | group b opening inside closing => exact inside.nested.group opening closing
end

/-- Tokens that may stand in a group are nested. -/
theorem Balances.nested {ts : List Token} (h : Balances ts) : Nested ts := by
  obtain ⟨b, hb⟩ := h .empty
  rw [Balanced.yield, List.nil_append] at hb
  exact hb ▸ b.nested

/-! ## Commas and semicolons -/

/-- In front of every comma and every semicolon there is a bracket that is open. -/
def IsSheltered (ts : List Token) : Prop :=
  ∀ before t after, ts = before ++ t :: after → t.kind ∈ [.comma, .semicolon] → 0 < depth before

theorem IsSheltered.append {ts us : List Token} (hts : Nested ts) (h : IsSheltered ts)
    (h' : IsSheltered us) : IsSheltered (ts ++ us) := by
  intro before t after heq ht
  obtain ⟨more, rfl, hus⟩ | ⟨more, hbefore, hmore⟩ := List.append_eq_append_iff.mp heq
  · rw [depth_append, hts.settled, Int.zero_add]
    exact h' more t after hus ht
  · cases more with
    | nil =>
      rw [List.append_nil] at hbefore
      rw [← hbefore, hts.settled]
      exact h' [] t after hmore.symm ht
    | cons d more =>
      obtain ⟨rfl, -⟩ := List.cons.inj hmore
      exact h before t more hbefore ht

/-- Everything between brackets is sheltered. -/
theorem Nested.isSheltered {b : Bracket} {inner : List Token} (h : Nested inner)
    (opening : Leaf [b.opening]) (closing : Leaf [b.closing]) :
    IsSheltered (opening.token :: inner ++ [closing.token]) := by
  intro before t after heq ht
  have hopening : ∀ b : Bracket, b.opening ∉ [.comma, .semicolon] := by
    intro b
    cases b <;> decide
  refine h.depth_pos opening closing heq ?_ (by simp)
  rintro rfl
  obtain ⟨rfl, -⟩ := List.cons.inj heq
  exact hopening b (opening.kind_eq ▸ ht)

/-- An item of a type is a token that is no bracket, or something in brackets. -/
theorem TypeItem.nested_isSheltered (i : TypeItem) : Nested i.yield ∧ IsSheltered i.yield := by
  cases i with
  | token t =>
    have hkinds : ∀ k ∈ typeKinds, k.weight = 0 ∧ k ∉ [.comma, .semicolon] := by decide
    refine ⟨.token (hkinds _ t.kind_mem).1, fun before u after heq hu => ?_⟩
    rcases List.singleton_eq_append_iff.mp heq with ⟨-, hu'⟩ | ⟨-, hu'⟩
    · obtain ⟨rfl, -⟩ := List.cons.inj hu'
      exact absurd hu (hkinds _ t.kind_mem).2
    · contradiction
  | group b hb g =>
    have hinside := g.inside.nested
    exact ⟨hinside.group g.opening g.closing, hinside.isSheltered g.opening g.closing⟩
  | object o =>
    obtain ⟨opening, members, closing⟩ := o
    have hinside := members.balances.nested
    exact ⟨hinside.group (b := .brace) opening closing,
      hinside.isSheltered (b := .brace) opening closing⟩

/-- Commas and semicolons stand in brackets in a type. -/
theorem TypeTree.isSheltered (x : TypeTree) : IsSheltered x.yield := by
  cases x with
  | item i => exact i.nested_isSheltered.2
  | more before i =>
    exact before.isSheltered.append before.balances.nested i.nested_isSheltered.2

end SchemaTypings.Declaration
