import SchemaTypings.Proofs.Generation.Names
import SchemaTypings.Proofs.Shapes.Hoisting
import SchemaTypings.Proofs.Writing.Capitals

/-!
# References to embedded schemas

A reference to an embedded schema is a text: the name of the model and the paths that lead to the
schema, with dots between them. The name in the type of such a reference is made of the whole text
in one go, and that of the interface level by level, so that the two are not the same in general
(`referenceName_eq_iff`): they are when the model's name begins with a capital and none of the paths
on the way is a plural, since only the last plural goes from the text.
-/

namespace SchemaTypings

/-! ## Names made level by level -/

theorem mem_dropPlural_iff {c : Char} (hc : c ≠ 's') {s : String} :
    c ∈ (dropPlural s).toList ↔ c ∈ s.toList := by
  rcases dropPlural_eq s with heq | heq
  · rw [heq]
  · rw [heq, List.mem_append, List.mem_singleton, or_iff_left hc]

theorem length_dropPlural_le (s : String) : (dropPlural s).length ≤ s.length := by
  rcases dropPlural_eq s with heq | heq
  · rw [heq]
  · have hlength := congrArg List.length heq
    rw [List.length_append, String.length_toList, String.length_toList] at hlength
    omega

/-- Level by level, each path loses its plural. -/
theorem nameAlong_eq (model : String) {paths : List String} (h : ∀ path ∈ paths, capitals path ≠ "") :
    nameAlong model paths =
      model ++ String.join (paths.map fun path => dropPlural (capitals path)) := by
  induction paths generalizing model with
  | nil => simp [nameAlong]
  | cons path rest ih =>
    have hfirst : subDocumentName path model = model ++ dropPlural (capitals path) := by
      rw [subDocumentName_eq, dropPlural_append _ (h path List.mem_cons_self)]
    calc nameAlong model (path :: rest)
        = nameAlong (subDocumentName path model) rest := rfl
      _ = model ++ dropPlural (capitals path) ++
          String.join (rest.map fun path => dropPlural (capitals path)) := by
        rw [hfirst, ih _ fun path hpath => h path (List.mem_cons_of_mem _ hpath)]
      _ = _ := by rw [List.map_cons, String.join_cons, String.append_assoc]

theorem quote_mem_nameAlong {model : String} {paths : List String}
    (h : ∀ path ∈ paths, capitals path ≠ "") :
    '\'' ∈ (nameAlong model paths).toList ↔ ∃ text ∈ model :: paths, '\'' ∈ text.toList := by
  have hquote : '\'' ≠ 's' := by decide
  rw [nameAlong_eq model h, String.toList_append, String.toList_join]
  simp [mem_dropPlural_iff hquote, quote_mem_capitals_iff]

theorem length_join_dropPlural_le (paths : List String) :
    (String.join (paths.map fun path => dropPlural (capitals path))).length ≤
      (String.join (paths.map capitals)).length := by
  induction paths with
  | nil => simp
  | cons path rest ih =>
    have hfirst := length_dropPlural_le (capitals path)
    simp only [List.map_cons, String.join_cons, String.length_append]
    omega

/-- When the plurals of some paths go and nothing changes, none of them is a plural. -/
theorem dropPlural_eq_of_join_eq {paths : List String}
    (h : String.join (paths.map capitals) =
      String.join (paths.map fun path => dropPlural (capitals path))) :
    ∀ path ∈ paths, dropPlural (capitals path) = capitals path := by
  induction paths with
  | nil => simp
  | cons path rest ih =>
    rw [List.map_cons, List.map_cons, String.join_cons, String.join_cons] at h
    have hfirst : dropPlural (capitals path) = capitals path := by
      refine (dropPlural_eq _).resolve_right fun hplural => ?_
      -- the others would have to make up for the plural
      have hlength := congrArg String.length h
      have hmore := congrArg List.length hplural
      have hrest := length_join_dropPlural_le rest
      rw [String.length_append, String.length_append] at hlength
      rw [List.length_append, String.length_toList, String.length_toList, List.length_singleton]
        at hmore
      omega
    rw [hfirst] at h
    have hrest := ih (String.append_right_inj _ |>.mp h)
    exact List.forall_mem_cons.mpr ⟨hfirst, hrest⟩

/-! ## Names made in one go -/

/-- The name in a dotted reference loses the plural that stands last in it. -/
theorem referenceName_of_dotted {ref : String} (hdot : '.' ∈ ref.toList) :
    referenceName ref = dropPlural (capitals (String.ofList (ref.toList.filter (· != '\'')))) := by
  have hkept : (String.ofList (ref.toList.filter (· != '\''))).contains '.' = true := by
    simpa using hdot
  unfold referenceName
  simp only [hkept, if_true]
  rw [subDocumentName_eq, String.empty_append]

theorem referenceName_of_unquoted {ref : String} (hdot : '.' ∈ ref.toList)
    (hquote : '\'' ∉ ref.toList) : referenceName ref = dropPlural (capitals ref) := by
  have hall : ref.toList.filter (· != '\'') = ref.toList := by
    refine List.filter_eq_self.mpr fun c hc => ?_
    simp only [bne_iff_ne]
    rintro rfl
    exact hquote hc
  rw [referenceName_of_dotted hdot, hall, String.ofList_toList]

/-- The name in a dotted reference holds neither dots nor quotes. -/
theorem not_mem_referenceName {ref : String} (hdot : '.' ∈ ref.toList) :
    '.' ∉ (referenceName ref).toList ∧ '\'' ∉ (referenceName ref).toList := by
  rw [referenceName_of_dotted hdot, mem_dropPlural_iff (by decide), mem_dropPlural_iff (by decide),
    quote_mem_capitals_iff]
  exact ⟨dot_not_mem_capitals _, by simp⟩

/-! ## Both names -/

/-- A model and the paths that lead to an embedded schema get the same name in one go as level by
level. -/
structure IsNamedAlike (model : String) (owners : List String) (path : String) : Prop where
  capital : Text.capitalize model = model
  undotted : '.' ∉ model.toList
  unquoted : ∀ text ∈ model :: (owners ++ [path]), '\'' ∉ text.toList
  /-- What an owner's path gives to the name is no plural. -/
  singular : ∀ owner ∈ owners, dropPlural (capitals owner) = capitals owner

variable {model path : String} {owners : List String}

/-- The text that refers to the embedded schema at a path. -/
def dottedReference (model : String) (owners : List String) (path : String) : String :=
  ".".intercalate (model :: (owners ++ [path]))

theorem dot_mem_dottedReference : '.' ∈ (dottedReference model owners path).toList := by
  obtain ⟨first, rest, hrest⟩ := List.exists_cons_of_ne_nil (l := owners ++ [path]) (by simp)
  rw [dottedReference, hrest, String.intercalate_cons_cons]
  simp

theorem capitals_dottedReference :
    capitals (dottedReference model owners path) =
      capitals model ++ String.join (owners.map capitals) ++ capitals path := by
  rw [dottedReference, capitals_intercalate (List.cons_ne_nil _ _), List.map_cons, List.map_append,
    String.join_cons, String.join_append, String.append_assoc]
  simp

theorem quote_mem_dottedReference :
    '\'' ∈ (dottedReference model owners path).toList ↔
      ∃ text ∈ model :: (owners ++ [path]), '\'' ∈ text.toList := by
  rw [← quote_mem_capitals_iff, dottedReference, capitals_intercalate (List.cons_ne_nil _ _),
    String.toList_join]
  simp [quote_mem_capitals_iff]

/-- The name in the type of a dotted reference and that of the interface are the same exactly for a
model that begins with a capital and has no dot in its name, without quotes in its name or the paths,
and without plurals on the way. -/
theorem referenceName_eq_iff (h : ∀ p ∈ owners ++ [path], capitals p ≠ "") :
    referenceName (dottedReference model owners path) = nameAlong model (owners ++ [path]) ↔
      IsNamedAlike model owners path := by
  have hname : nameAlong model (owners ++ [path]) =
      model ++ String.join (owners.map fun owner => dropPlural (capitals owner)) ++
        dropPlural (capitals path) := by
    rw [nameAlong_eq model h, List.map_append, String.join_append, String.append_assoc]
    simp
  -- without signs in the way the plural of the last path goes on both sides
  have hreference : '.' ∉ model.toList → (∀ text ∈ model :: (owners ++ [path]), '\'' ∉ text.toList) →
      referenceName (dottedReference model owners path) =
        Text.capitalize model ++ String.join (owners.map capitals) ++ dropPlural (capitals path) := by
    intro hdot hquote
    have hunquoted : '\'' ∉ (dottedReference model owners path).toList := by
      rw [quote_mem_dottedReference]
      rintro ⟨text, htext, hmem⟩
      exact hquote text htext hmem
    have hmodel : capitals model = Text.capitalize model := by
      simp [capitals, pathSegments_of_not_mem hdot]
    rw [referenceName_of_unquoted dot_mem_dottedReference hunquoted, capitals_dottedReference, hmodel,
      dropPlural_append _ (h path (by simp))]
  constructor
  · intro heq
    obtain ⟨hdot, hquote⟩ := not_mem_referenceName (@dot_mem_dottedReference model path owners)
    have hundotted : '.' ∉ model.toList := fun hmem => by
      rw [heq, hname] at hdot
      simp [hmem] at hdot
    have hunquoted : ∀ text ∈ model :: (owners ++ [path]), '\'' ∉ text.toList := by
      intro text htext hmem
      refine hquote ?_
      rw [heq, quote_mem_nameAlong h]
      exact ⟨text, htext, hmem⟩
    rw [hreference hundotted hunquoted, hname, String.append_left_inj] at heq
    have hcapital := Text.capitalize_of_append_eq heq
    rw [hcapital, String.append_right_inj] at heq
    exact ⟨hcapital, hundotted, hunquoted, dropPlural_eq_of_join_eq heq⟩
  · rintro ⟨hcapital, hundotted, hunquoted, hsingular⟩
    have howners : owners.map capitals = owners.map fun owner => dropPlural (capitals owner) :=
      List.map_congr_left fun owner howner => (hsingular owner howner).symm
    rw [hreference hundotted hunquoted, hname, hcapital, howners]

/-! ## Types -/

/-- The type of a reference to what has a name. -/
def referenceTo (name : String) : String :=
  name ++ "[\"_id\"] | " ++ name

/-- A field that refers with a text is declared with the name that the text gives, as it is in the
shape. -/
theorem Member.ofFields_reference (outlook : Outlook) {key ref : String} {v : Value} {spec : Fields}
    (hkey : key ∉ metadataKeys) (htarget : (Field.read v).target = some (.fields spec))
    (href : spec.lookup "ref" = some (.text ref)) (hne : ref ≠ "") :
    Member.ofFields outlook [(key, v)] =
      [⟨key, (Field.read v).isOptional, false, wrap outlook.shape (Field.read v) false
        (.named (referenceTo
          (referenceName ref ++ (if outlook.shape = .document then "Document" else ""))))⟩] := by
  have htruthy : (Value.text ref).isTruthy = true := by simpa [Value.isTruthy] using hne
  have hfilter : (spec.lookup "ref").filter Value.isTruthy = some (.text ref) := by
    rw [href, Option.filter_some_pos htruthy]
  rw [ofFields_eq, List.filterMap_cons, List.filterMap_nil]
  simp only [ofField, htarget, ofSpec, List.contains_eq_mem, hkey, decide_false, Bool.false_eq_true,
    if_false, hfilter]
  rfl

/-- A field that refers to an embedded schema by the name of a model and the paths that lead to it
has a type with a name of its own. The schema is hoisted under the name that is made level by level,
and the field's type has that name exactly when the model and the paths are named alike both ways. -/
theorem reference_names_hoisted_iff (outlook : Outlook) {s : Schema} {c : ChildSchema}
    (hmodel : model ≠ "") {interfaces : List Interface}
    (hhoist : hoist outlook.shape model s = .ok interfaces) (hc : s.EmbedsAlong owners c)
    (hpaths : ∀ p ∈ owners ++ [c.path], capitals p ≠ "") {key : String} {v : Value} {spec : Fields}
    (hkey : key ∉ metadataKeys) (htarget : (Field.read v).target = some (.fields spec))
    (href : spec.lookup "ref" = some (.text (dottedReference model owners c.path))) :
    ∃ i ∈ interfaces, ∃ name,
      (∃ members, i = c.interface outlook.shape (nameAlong model owners) members) ∧
      i.name = nameAlong model (owners ++ [c.path]) ++
        (if outlook.shape = .document then "Document" else "") ∧
      Member.ofFields outlook [(key, v)] =
        [⟨key, (Field.read v).isOptional, false,
          Member.wrap outlook.shape (Field.read v) false (.named (referenceTo name))⟩] ∧
      (name = i.name ↔ IsNamedAlike model owners c.path) := by
  have hne : dottedReference model owners c.path ≠ "" := fun hempty => by
    have hdot := @dot_mem_dottedReference model c.path owners
    rw [hempty] at hdot
    exact absurd hdot (by simp)
  have hname : subDocumentName c.path (nameAlong model owners) =
      nameAlong model (owners ++ [c.path]) := by
    simp [nameAlong, List.foldl_append]
  obtain ⟨all, hall, rfl⟩ := hoist_eq_ok.mp hhoist
  obtain ⟨included, hmem⟩ := hc.mem_hoisted (fun p hp owner howner => by
    rw [subDocumentName_eq, dropPlural_append _ (hpaths p (List.mem_append_left _ hp))]
    simp [howner]) hmodel hall
  refine ⟨_, List.mem_map_of_mem hmem, _, ⟨_, rfl⟩, ?_, Member.ofFields_reference outlook hkey htarget
    href hne, ?_⟩
  · rw [Hoisted.interface, ChildSchema.name_interface, hname]
  · rw [Hoisted.interface, ChildSchema.name_interface, hname, String.append_left_inj,
      referenceName_eq_iff hpaths]

/-- A comment with replies, which are notes. -/
def commentSchema : Schema :=
  { tree := [("replies", .list [.schema noteSchema])]
    options := [("_id", .bool false), ("version_key", .bool false)]
    methods := []
    statics := []
    query := []
    virtuals := []
    children := [⟨"replies", noteSchema, true, false⟩] }

/-- A post with one comment. -/
def postSchema : Schema :=
  { tree := [("comment", .schema commentSchema)]
    options := [("_id", .bool false), ("version_key", .bool false)]
    methods := []
    statics := []
    query := []
    virtuals := []
    children := [⟨"comment", commentSchema, false, false⟩] }

/-- A reference to the replies of the comment of a post has the name that is declared for them. -/
theorem reference_names_replies :
    ∃ interfaces, hoist .document "Post" postSchema = .ok interfaces ∧
      (∃ i ∈ interfaces, i.name = "PostCommentReplieDocument") ∧
      Member.ofFields ⟨.document, false⟩
          [("first", .dict [("type", .tag .objectId), ("ref", .text "Post.comment.replies")])] =
        [⟨"first", true, false, .named (referenceTo "PostCommentReplieDocument")⟩] := by
  obtain ⟨interfaces, hhoist⟩ :
      ∃ interfaces, hoist .document "Post" postSchema = .ok interfaces := ⟨_, rfl⟩
  have hreplies : postSchema.EmbedsAlong ["comment"] ⟨"replies", noteSchema, true, false⟩ :=
    .inside (d := ⟨"comment", commentSchema, false, false⟩) List.mem_cons_self
      (.here List.mem_cons_self)
  have halike : IsNamedAlike "Post" ["comment"] "replies" :=
    ⟨by decide, by decide, by decide, by decide⟩
  obtain ⟨i, hi, name, -, hname, hmember, hiff⟩ :=
    reference_names_hoisted_iff ⟨.document, false⟩ (by decide) hhoist hreplies (by decide)
      (show "first" ∉ metadataKeys by decide)
      (show (Field.read (.dict [("type", .tag .objectId),
        ("ref", .text "Post.comment.replies")])).target = some (.fields _) from rfl) rfl
  have hdeclared : i.name = "PostCommentReplieDocument" := hname.trans (by decide)
  rw [hiff.mpr halike, hdeclared] at hmember
  exact ⟨interfaces, hhoist, ⟨i, hi, hdeclared⟩, hmember⟩

/-- With more than one comment the plural of the comments stays in the name that the reference has,
and no interface of that name is declared. -/
theorem reference_names_nothing :
    ∃ s, Schema.build (.dict [("comments", .list [.schema commentSchema])]) .null
        [("_id", .bool false), ("version_key", .bool false)] = .ok s ∧
      s.EmbedsAlong ["comments"] ⟨"replies", noteSchema, true, false⟩ ∧
      (∃ interfaces, hoist .lean "Post" s = .ok interfaces ∧
        interfaces.map Interface.name = ["PostCommentReplie", "PostComment"]) ∧
      Member.ofFields ⟨.lean, false⟩
          [("first", .dict [("type", .tag .objectId), ("ref", .text "Post.comments.replies")])] =
        [⟨"first", true, false, .named (referenceTo "PostCommentsReplie")⟩] := by
  refine ⟨_, rfl, ?_, ⟨_, rfl, by decide⟩, ?_⟩
  · exact .inside (d := ⟨"comments", commentSchema, true, false⟩) List.mem_cons_self
      (.here List.mem_cons_self)
  · have hname : referenceName "Post.comments.replies" = "PostCommentsReplie" := by
      rw [referenceName_of_unquoted (by decide) (by decide)]
      decide
    rw [Member.ofFields_reference ⟨.lean, false⟩ (by decide) rfl rfl (by decide), hname]
    rfl

end SchemaTypings
