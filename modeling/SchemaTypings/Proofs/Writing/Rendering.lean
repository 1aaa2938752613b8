import SchemaTypings.Member
import SchemaTypings.Proofs.Writing.Members

/-!
# Rendered members

The text of a type is a type, and the lines of members are members that say what was written, in
both shapes and at every depth (`isMembers_renderMembers`). All that this asks for is that the types
which are written as they are be types, and that keys be names; any other key that holds something
is read back too, under the name that it is read as (`isMembers_reading`). The lines end by line feeds
only when those types do (`isLined_renderMembers`).
-/

namespace SchemaTypings

open Declaration

/-! ## Containers -/

/-- A type in the namespace of the types of mongoose. -/
theorem isType_mongooseTypes {name : String} (h : IsIdentifier name.toList) :
    IsType ("mongoose.Types." ++ name).toList := by
  have htypes : IsIdentifier "Types".toList := by decide
  simpa using (isType_mongoose htypes).append h.isType_dot (parted_of_head _ (by simp; decide))

theorem isType_mapType (shape : Shape) {value : String} (h : IsType value.toList) :
    IsType (mapType shape value).toList := by
  have hmap : IsIdentifier "Map".toList := by decide
  have hstring : IsIdentifier "string".toList := by decide
  have hdocument := (isType_mongooseTypes hmap).generic h.isBalanced
  have hlean := hmap.isType.generic (hstring.isType.isBalanced.comma h.isBalanced)
  unfold mapType
  cases shape with
  | document => simpa using hdocument
  | lean => simpa using hlean

theorem isType_arrayType (shape : Shape) (ofSubDocuments : Bool) {element : String}
    (h : IsType element.toList) : IsType (arrayType shape ofSubDocuments element).toList := by
  have harray : IsIdentifier (if ofSubDocuments then "DocumentArray" else "Array").toList := by
    cases ofSubDocuments <;> decide
  have hdocument := (isType_mongooseTypes harray).generic h.isBalanced
  have hlist : ∀ x, IsType x → IsType (x ++ ['[', ']']) := fun x hx =>
    hx.group isBalanced_nil (b := .square) (by decide)
  have hgroup : IsType ('(' :: element.toList ++ [')']) :=
    (h.isBalanced.isGroup .paren).isType (by decide)
  unfold arrayType
  cases shape with
  | document => simpa using hdocument
  | lean =>
    dsimp only
    split
    · simpa using hlist _ hgroup
    · simpa using hlist _ h

/-! ## Rendering -/

variable {N M : String → Prop} {K L : String → Prop}

mutual
/-- The types in a type that are written as they are satisfy `N`, and the keys `K`. -/
def TypeExpr.Every (N K : String → Prop) : TypeExpr → Prop
  | .named text => N text
  | .object members => MembersEvery N K members
  | .map value => value.Every N K
  | .array _ element => element.Every N K
  termination_by structural t => t

/-- The same of a member. -/
def Member.Every (N K : String → Prop) : Member → Prop
  | ⟨key, _, _, type⟩ => K key ∧ type.Every N K
  termination_by structural m => m

/-- The same of some members. -/
def MembersEvery (N K : String → Prop) : List Member → Prop
  | [] => True
  | m :: rest => m.Every N K ∧ MembersEvery N K rest
  termination_by structural members => members
end

mutual
/-- Weaker properties hold all over a type as well. -/
theorem TypeExpr.Every.mono (hN : ∀ text, N text → M text) (hK : ∀ key, K key → L key) :
    ∀ t : TypeExpr, t.Every N K → t.Every M L
  | .named _, h => hN _ h
  | .object members, h => MembersEvery.mono hN hK members h
  | .map value, h => TypeExpr.Every.mono hN hK value h
  | .array _ element, h => TypeExpr.Every.mono hN hK element h
  termination_by structural t => t

theorem Member.Every.mono (hN : ∀ text, N text → M text) (hK : ∀ key, K key → L key) :
    ∀ m : Member, m.Every N K → m.Every M L
  | ⟨_, _, _, type⟩, h => ⟨hK _ h.1, TypeExpr.Every.mono hN hK type h.2⟩
  termination_by structural m => m

theorem MembersEvery.mono (hN : ∀ text, N text → M text) (hK : ∀ key, K key → L key) :
    ∀ members : List Member, MembersEvery N K members → MembersEvery M L members
  | [], _ => trivial
  | m :: rest, h => ⟨Member.Every.mono hN hK m h.1, MembersEvery.mono hN hK rest h.2⟩
  termination_by structural members => members
end

/-- A member of some members has what they all have. -/
theorem MembersEvery.of_mem {members : List Member} (h : MembersEvery N K members) {m : Member}
    (hm : m ∈ members) : m.Every N K := by
  induction members with
  | nil => exact absurd hm List.not_mem_nil
  | cons first rest ih =>
    obtain rfl | hm := List.mem_cons.mp hm
    · exact h.1
    · exact ih h.2 hm

theorem MembersEvery.of_forall {members : List Member} (h : ∀ m ∈ members, m.Every N K) :
    MembersEvery N K members := by
  induction members with
  | nil => trivial
  | cons m rest ih => exact ⟨h m (by simp), ih fun n hn => h n (by simp [hn])⟩

theorem Member.Every.key : ∀ {m : Member}, m.Every N K → K m.key
  | ⟨_, _, _, _⟩, h => h.1

/-- The types in a member that are written as they are are types, and the keys are names. -/
abbrev Member.IsWritable (m : Member) : Prop :=
  m.Every (fun text => IsType text.toList) (fun key => key ≠ "" ∧ IsPlainName key)

/-- The same of some members. -/
abbrev MembersWritable (members : List Member) : Prop :=
  MembersEvery (fun text => IsType text.toList) (fun key => key ≠ "" ∧ IsPlainName key) members

/-- The types in some members that are written as they are are types, and no key is empty. -/
abbrev MembersLabelled (members : List Member) : Prop :=
  MembersEvery (fun text => IsType text.toList) (· ≠ "") members

/-- What the line of a member at a depth says. -/
def Member.outline (shape : Shape) (depth : Nat) (m : Member) : PropertyOutline :=
  ⟨m.key, m.isOptional, m.type.render shape depth⟩

/-- What the line of a member at a depth is read as, whatever its key is. -/
def Member.reading (shape : Shape) (depth : Nat) (m : Member) : PropertyOutline :=
  ⟨keyName m.key, m.isOptional, m.type.render shape depth⟩

/-- A plain key is read as it was meant. -/
theorem Member.reading_eq_outline (shape : Shape) (depth : Nat) {m : Member} (h : IsPlainName m.key) :
    m.reading shape depth = m.outline shape depth := by
  rw [Member.reading, Member.outline, keyName_eq h]

theorem eq_blank_of_mem_indentation {depth : Nat} {c : Char} (h : c ∈ (indentation depth).toList) :
    c = ' ' := by
  rw [indentation, String.toList_ofList] at h
  exact List.eq_of_mem_replicate h

theorem spells_indentation (depth : Nat) : Spells (indentation depth).toList Silent := by
  refine spells_blanks fun c hc => ?_
  rw [eq_blank_of_mem_indentation hc]
  decide

/-- Blanks are parted from what stands on either side of them. -/
theorem parted_indentation (depth : Nat) (x : List Char) :
    Parted (indentation depth).toList x ∧ Parted x (indentation depth).toList := by
  refine ⟨parted_of_last (fun c hc => ?_) x, parted_of_head x fun c hc => ?_⟩
  · rw [eq_blank_of_mem_indentation (List.mem_of_getLast? hc)]
    decide
  · rw [eq_blank_of_mem_indentation (List.mem_of_head? hc)]
    decide

/-- The line of a member ends in no word. -/
theorem Member.parted_render (shape : Shape) (depth : Nat) (m : Member) (x : List Char) :
    Parted (m.render shape depth).toList x := by
  have hlast : (m.render shape depth).toList.getLast? = some '\n' := by
    obtain ⟨key, isOptional, isVirtual, type⟩ := m
    simp [Member.render, memberLine, List.getLast?_append]
  exact parted_of_last (by simp [hlast]; decide) x

mutual
/-- The text of a type is a type. -/
theorem TypeExpr.isType_render (shape : Shape) (depth : Nat) :
    ∀ t : TypeExpr, t.Every (fun text => IsType text.toList) (· ≠ "") →
      IsType (t.render shape depth).toList
  | .named _, h => h
  | .object members, h => by
    have hline : Spells ['\n'] Silent := spells_blanks (by simp; decide)
    have hmembers := isMembers_reading shape (depth + 1) members h
    have hlines := (isMembers_silent hline).append hmembers (parted_of_last (by simp; decide) _)
    have hindent := isMembers_silent (spells_indentation (depth + 1))
    have hobject := (hlines.append hindent (parted_indentation _ _).2).isObject
    simpa [TypeExpr.render] using hobject.isType
  | .map value, h => isType_mapType shape (value.isType_render shape depth h)
  | .array ofSubDocuments element, h =>
    isType_arrayType shape ofSubDocuments (element.isType_render shape depth h)
  termination_by structural t => t

/-- The line of a member is a member. -/
theorem Member.isMembers_render (shape : Shape) (depth : Nat) :
    ∀ m : Member, m.Every (fun text => IsType text.toList) (· ≠ "") →
      IsMembers (m.render shape depth).toList [m.reading shape depth]
  | ⟨key, isOptional, isVirtual, type⟩, ⟨hne, htype⟩ => by
    have hline := isMembers_property (isName_propertyKey key)
      (type.isType_render shape depth htype) isOptional
    have hindent := isMembers_silent (spells_indentation (depth + 1))
    have hwhole := hindent.append hline (parted_indentation _ _).1
    have hkey : key.isEmpty = false := by simpa using hne
    have hmark : (if isOptional then "?" else "").toList = markChars isOptional := by
      cases isOptional <;> simp [markChars]
    simpa [Member.render, memberLine, hkey, hmark, Member.reading] using hwhole
  termination_by structural m => m

/-- The lines of members are members, under the names that their keys are read as. -/
theorem isMembers_reading (shape : Shape) (depth : Nat) :
    ∀ members : List Member, MembersLabelled members →
      IsMembers (renderMembers shape depth members).toList (members.map (·.reading shape depth))
  | [], _ => isMembers_silent spells_nil
  | m :: rest, ⟨hm, hrest⟩ => by
    have hfirst := m.isMembers_render shape depth hm
    have hothers := isMembers_reading shape depth rest hrest
    have hboth := hfirst.append hothers (m.parted_render shape depth _)
    simpa [renderMembers] using hboth
  termination_by structural members => members
end

/-- The lines of members with plain names are members, with the properties that were written. -/
theorem isMembers_renderMembers (shape : Shape) (depth : Nat) {members : List Member}
    (h : MembersWritable members) :
    IsMembers (renderMembers shape depth members).toList (members.map (·.outline shape depth)) := by
  have hmembers := isMembers_reading shape depth members (h.mono (fun _ hN => hN) fun _ hK => hK.1)
  rwa [List.map_congr_left fun m hm =>
    m.reading_eq_outline shape depth (h.of_mem hm).key.2] at hmembers

/-! ## Lines -/

theorem isLined_indentation (depth : Nat) : IsLined (indentation depth).toList := by
  intro c hc
  rw [eq_blank_of_mem_indentation hc]
  decide

theorem isLined_mapType (shape : Shape) {value : String} (h : IsLined value.toList) :
    IsLined (mapType shape value).toList := by
  unfold mapType
  cases shape
  · simp only [String.toList_append, isLined_append, h, and_true]
    decide
  · simp only [String.toList_append, isLined_append, h, and_true]
    decide

theorem isLined_arrayType (shape : Shape) (ofSubDocuments : Bool) {element : String}
    (h : IsLined element.toList) : IsLined (arrayType shape ofSubDocuments element).toList := by
  unfold arrayType
  cases shape
  · dsimp only
    split
    · simp only [String.toList_append, isLined_append, h, and_true]
      decide
    · simp only [String.toList_append, isLined_append, h, true_and]
      decide
  · simp only [String.toList_append, isLined_append, h, and_true]
    cases ofSubDocuments <;> decide

mutual
/-- The text of a type is lined when the types in it that are written as they are are. -/
theorem TypeExpr.isLined_render (shape : Shape) (depth : Nat) :
    ∀ t : TypeExpr, t.Every (fun text => IsLined text.toList) K →
      IsLined (t.render shape depth).toList
  | .named _, h => h
  | .object members, h => by
    have hmembers := isLined_renderMembers shape (depth + 1) members h
    have hindent := isLined_indentation (depth + 1)
    simp only [TypeExpr.render, String.toList_append, isLined_append, hmembers, hindent, and_true]
    decide
  | .map value, h => isLined_mapType shape (value.isLined_render shape depth h)
  | .array ofSubDocuments element, h =>
    isLined_arrayType shape ofSubDocuments (element.isLined_render shape depth h)
  termination_by structural t => t

theorem Member.isLined_render (shape : Shape) (depth : Nat) :
    ∀ m : Member, m.Every (fun text => IsLined text.toList) K →
      IsLined (m.render shape depth).toList
  | ⟨key, isOptional, isVirtual, type⟩, h => by
    have htype := type.isLined_render shape depth h.2
    have hindent := isLined_indentation (depth + 1)
    have hkey := isLined_propertyKey key
    have hmark : IsLined (if isOptional then "?" else "").toList := by
      cases isOptional <;> decide
    have hlabel : IsLined (if key.isEmpty then "" else
        propertyKey key ++ (if isOptional then "?" else "") ++ ": ").toList := by
      split
      · decide
      · simp only [String.toList_append, isLined_append, hkey, hmark, true_and]
        decide
    simp only [Member.render, memberLine, String.toList_append, isLined_append, htype, hindent,
      hlabel, true_and]
    decide
  termination_by structural m => m

theorem isLined_renderMembers (shape : Shape) (depth : Nat) :
    ∀ members : List Member, MembersEvery (fun text => IsLined text.toList) K members →
      IsLined (renderMembers shape depth members).toList
  | [], _ => fun _ h => nomatch h
  | m :: rest, h => by
    have hfirst := m.isLined_render shape depth h.1
    have hothers := isLined_renderMembers shape depth rest h.2
    simp only [renderMembers, String.toList_append, isLined_append, hfirst, hothers, and_true]
  termination_by structural members => members
end

end SchemaTypings
