import ContractInference.Declaration
import ContractInference.Proofs.Comments

/-!
# Comments in type declarations

A declaration is read from nodes that stand at certain places: its name, its body, the members of
the body, the type of a member, the types that an interface extends. Comments at other places
change nothing. Two places do not tell comments from types: the first named node of a member's type
annotation is taken for the type, and every named node of the extended types for one of them.
-/

namespace ContractInference

namespace Declaration

open ContractInference.Tree (Commented)

/-- What a row of siblings belongs to. -/
inductive Place where
  | declaration
  | heritage
  | body
  | member
  /-- A member's type annotation, before its first named node. -/
  | typed
  | elsewhere
deriving DecidableEq

namespace Place

/-- The place of a node's children. A clause of extended types can be the body too. -/
def below (place : Place) (tag : Tag) : Place :=
  match place with
  | .declaration =>
    if tag.kind = "extends_type_clause" then .heritage
    else if tag.field = some "body" ∨ tag.field = some "value" then .body
    else .elsewhere
  | .body | .heritage => if tag.kind = "property_signature" then .member else .elsewhere
  | .member => if tag.field = some "type" then .typed else .elsewhere
  | .typed | .elsewhere => .elsewhere

/-- The place of the siblings after a node. -/
def after (place : Place) (tag : Tag) : Place :=
  match place with
  | .typed => if tag.named then .elsewhere else .typed
  | place => place

theorem below_declaration_of_kind {tag : Tag} (h : tag.kind = "extends_type_clause") :
    below .declaration tag = .heritage :=
  if_pos h

theorem below_declaration_of_field {tag : Tag} (hkind : tag.kind ≠ "extends_type_clause")
    (h : tag.field = some "body" ∨ tag.field = some "value") : below .declaration tag = .body :=
  (if_neg hkind).trans (if_pos h)

theorem below_after (place : Place) (before tag : Tag) :
    (place.after before).below tag = place.below tag := by
  cases place with
  | typed =>
    rw [after]
    split <;> rfl
  | _ => rfl

theorem after_of_not_named (place : Place) {tag : Tag} (h : tag.named = false) :
    place.after tag = place := by
  cases place <;> simp [after, h]

/-- The places where no named node is taken for a type. -/
def isAside : Place → Bool
  | .heritage | .typed => false
  | _ => true

end Place

/-- The second nodes are the first ones with comments inserted, at the places that allow it. -/
inductive Inserted (may : Place → Bool) : Place → List Node → List Node → Prop
  | nil (place : Place) : Inserted may place [] []
  | node {place : Place} (tag : Tag) {cs ds ts us : List Node} :
    Inserted may (place.below tag) cs ds → Inserted may (place.after tag) ts us →
    Inserted may place (.node tag cs :: ts) (.node tag ds :: us)
  | comment {place : Place} (text : String) {ts us : List Node} : may place = true →
    Inserted may place ts us → Inserted may place ts (Tree.comment text :: us)

/-- Comments anywhere are comments at places all of which allow them. -/
theorem inserted_of_commented {ts us : List Node} (h : Commented ts us) (place : Place) :
    Inserted (fun _ => true) place ts us := by
  induction h generalizing place with
  | nil => exact .nil place
  | node tag _ _ hchildren hrest => exact .node tag (hchildren _) (hrest _)
  | comment text _ hrest => exact .comment text rfl (hrest place)

/-- The same node, with comments inserted among its children and below them. -/
structure Matches (may : Place → Bool) (place : Place) (t u : Node) : Prop where
  label : t.label = u.label
  inside : Inserted may place t.children u.children

section

variable {may : Place → Bool} {place : Place} {ts us : List Node}

/-- A search that passes over comments finds the same node, or finds nothing in both. -/
theorem Inserted.find?_cases {p : Tag → Bool} (hp : ∀ text, p (Tree.comment text).label = false)
    (h : Inserted may place ts us) :
    (ts.find? (p ·.label) = none ∧ us.find? (p ·.label) = none) ∨
      ∃ t u, ts.find? (p ·.label) = some t ∧ us.find? (p ·.label) = some u ∧
        p t.label = true ∧ Matches may (place.below t.label) t u := by
  induction h with
  | nil place => exact .inl ⟨rfl, rfl⟩
  | @node place tag cs ds ts us hchildren _ _ hrest =>
    cases htag : p tag with
    | true =>
      rw [List.find?_cons_of_pos (by simp [Tree.label, htag]),
        List.find?_cons_of_pos (by simp [Tree.label, htag])]
      exact .inr ⟨_, _, rfl, rfl, htag, rfl, hchildren⟩
    | false =>
      rw [List.find?_cons_of_neg (by simp [Tree.label, htag]),
        List.find?_cons_of_neg (by simp [Tree.label, htag])]
      simpa only [Place.below_after] using hrest
  | comment text _ _ hrest =>
    rwa [List.find?_cons_of_neg (by simp [hp text])]

theorem Matches.child?_cases {t u : Node} (h : Matches may place t u) (field : String) :
    (t.child? field = none ∧ u.child? field = none) ∨
      ∃ c e, t.child? field = some c ∧ u.child? field = some e ∧ c.label.field = some field ∧
        Matches may (place.below c.label) c e := by
  have hfind := h.inside.find?_cases (p := fun tag => tag.field == some field) fun _ => rfl
  simp only [beq_iff_eq] at hfind
  exact hfind

theorem filter_named_of_named {tag : Tag} (h : tag.named = true) (cs ts : List Node) :
    (Tree.node tag cs :: ts).filter (·.label.named) =
      .node tag cs :: ts.filter (·.label.named) := by
  rw [List.filter_cons_of_pos (by simpa [Tree.label] using h)]

theorem filter_named_of_not_named {tag : Tag} (h : tag.named = false) (cs ts : List Node) :
    (Tree.node tag cs :: ts).filter (·.label.named) = ts.filter (·.label.named) := by
  rw [List.filter_cons_of_neg (by simp [Tree.label, h])]

theorem Inserted.forall₂_filterMap {β : Type} {R : β → β → Prop} {g : Node → Option β}
    (hg : ∀ text, g (Tree.comment text) = none) (h : Inserted may place ts us)
    (hR : ∀ t u, u ∈ us.filter (·.label.named) → Matches may (place.below t.label) t u →
      (g t = none ∧ g u = none) ∨ ∃ a b, g t = some a ∧ g u = some b ∧ R a b) :
    List.Forall₂ R ((ts.filter (·.label.named)).filterMap g)
      ((us.filter (·.label.named)).filterMap g) := by
  induction h with
  | nil place => exact .nil
  | @node place tag cs ds ts us hchildren _ _ hrest =>
    simp only [Place.below_after] at hrest
    cases hnamed : tag.named with
    | false =>
      rw [filter_named_of_not_named hnamed] at hR
      rw [filter_named_of_not_named hnamed, filter_named_of_not_named hnamed]
      exact hrest hR
    | true =>
      rw [filter_named_of_named hnamed] at hR
      rw [filter_named_of_named hnamed, filter_named_of_named hnamed]
      have hrest := hrest fun t u hu => hR t u (List.mem_cons_of_mem _ hu)
      have hnode := hR (.node tag cs) (.node tag ds) List.mem_cons_self ⟨rfl, hchildren⟩
      rw [List.filterMap_cons, List.filterMap_cons]
      obtain ⟨ht, hu⟩ | ⟨a, b, ht, hu, hab⟩ := hnode
      · rw [ht, hu]
        exact hrest
      · rw [ht, hu]
        exact .cons hab hrest
  | comment text _ _ hrest =>
    rw [List.filter_cons_of_pos rfl] at hR ⊢
    rw [List.filterMap_cons, hg text]
    exact hrest fun t u hu => hR t u (List.mem_cons_of_mem _ hu)

theorem Inserted.head_named (h : Inserted may place ts us) :
    (ts.filter (·.label.named)).head?.map Tree.label =
        (us.filter (·.label.named)).head?.map Tree.label ∨
      may place = true ∧ ∃ text, (us.filter (·.label.named)).head? = some (Tree.comment text) := by
  induction h with
  | nil place => exact .inl rfl
  | @node place tag cs ds ts us _ _ _ hrest =>
    cases hnamed : tag.named with
    | true =>
      rw [filter_named_of_named hnamed, filter_named_of_named hnamed]
      exact .inl rfl
    | false =>
      rw [filter_named_of_not_named hnamed, filter_named_of_not_named hnamed]
      rwa [place.after_of_not_named hnamed] at hrest
  | comment text hmay _ _ => exact .inr ⟨hmay, text, rfl⟩

theorem Inserted.labels_heritage (h : Inserted may place ts us) (hplace : place = .heritage) :
    ((ts.filter (·.label.named)).map Tree.label).Sublist
        ((us.filter (·.label.named)).map Tree.label) ∧
      (may .heritage = false → (ts.filter (·.label.named)).map Tree.label =
        (us.filter (·.label.named)).map Tree.label) ∧
      ∀ u ∈ us.filter (·.label.named), u.label ∈ (ts.filter (·.label.named)).map Tree.label ∨
        ∃ text, u = Tree.comment text := by
  induction h with
  | nil place => exact ⟨.refl _, fun _ => rfl, by simp⟩
  | @node place tag cs ds ts us _ _ _ hrest =>
    subst hplace
    obtain ⟨hsub, hsame, hmem⟩ := hrest rfl
    cases hnamed : tag.named with
    | true =>
      rw [filter_named_of_named hnamed, filter_named_of_named hnamed]
      refine ⟨hsub.cons_cons _, fun hmay => congrArg (tag :: ·) (hsame hmay), fun u hu => ?_⟩
      rcases List.mem_cons.1 hu with rfl | hu
      · exact .inl List.mem_cons_self
      · exact (hmem u hu).imp_left (List.mem_cons_of_mem _)
    | false =>
      rw [filter_named_of_not_named hnamed, filter_named_of_not_named hnamed]
      exact ⟨hsub, hsame, hmem⟩
  | comment text hmay _ hrest =>
    subst hplace
    obtain ⟨hsub, -, hmem⟩ := hrest rfl
    rw [List.filter_cons_of_pos rfl]
    refine ⟨hsub.cons _, fun hnot => ?_, fun u hu => ?_⟩
    · rw [hnot] at hmay
      cases hmay
    · rcases List.mem_cons.1 hu with rfl | hu
      · exact .inr ⟨text, rfl⟩
      · exact hmem u hu

end

/-- A member's type annotation begins with the comment. -/
def BeginsWith (text : String) (member : Node) : Prop :=
  ∃ typed, member.child? "type" = some typed ∧
    typed.namedChildren.head? = some (Tree.comment text)

/-- The same field, unless it is read from a member whose annotation begins with a comment: then
the comment is its type. -/
def FieldReread (may : Place → Bool) (maxLength : Int) (members : List Node) (f g : Field) :
    Prop :=
  f = g ∨ may .typed = true ∧ ∃ text, g = { f with label := typeLabel maxLength text } ∧
    ∃ member ∈ members, BeginsWith text member ∧ objectMember? maxLength member = some g

section

variable {may : Place → Bool} {place : Place} {t u : Node}

theorem Matches.isKind_eq (h : Matches may place t u) (kind : String) :
    t.isKind kind = u.isKind kind := by
  rw [Tree.isKind, Tree.isKind, Tree.kind, Tree.kind, h.label]

theorem Matches.text_eq (h : Matches may place t u) : t.text = u.text := by
  rw [Tree.text, Tree.text, h.label]

theorem Matches.memberName?_eq (h : Matches may place t u) : memberName? t = memberName? u := by
  obtain ⟨tag, cs⟩ := t
  obtain ⟨tag', ds⟩ := u
  obtain rfl : tag = tag' := h.label
  rfl

theorem Matches.hasChildKind_eq {kind : String} (hkind : "comment" ≠ kind)
    (h : Matches may place t u) : t.hasChildKind kind = u.hasChildKind kind := by
  have hfind := h.inside.find?_cases (p := fun tag => tag.kind == kind) fun _ => by
    simpa [Tree.comment, Tree.label] using hkind
  have hany (n : Node) :
      n.hasChildKind kind = (n.children.find? fun c => c.label.kind == kind).isSome := by
    rw [Bool.eq_iff_iff, Tree.hasChildKind, List.find?_isSome, List.any_eq_true]
    rfl
  obtain ⟨ht, hu⟩ | ⟨c, e, ht, hu, -⟩ := hfind
  · rw [hany, hany, ht, hu]
  · rw [hany, hany, ht, hu]
    rfl

theorem Matches.childText_eq (h : Matches may place t u) (field : String) :
    t.childText field = u.childText field := by
  rw [Tree.childText, Tree.childText]
  obtain ⟨ht, hu⟩ | ⟨c, e, ht, hu, -, hce⟩ := h.child?_cases field
  · rw [ht, hu]
  · rw [ht, hu]
    exact hce.text_eq

theorem Matches.childName?_eq (h : Matches may place t u) (field : String) :
    (t.child? field).bind memberName? = (u.child? field).bind memberName? := by
  obtain ⟨ht, hu⟩ | ⟨c, e, ht, hu, -, hce⟩ := h.child?_cases field
  · rw [ht, hu]
  · rw [ht, hu]
    exact hce.memberName?_eq

/-- A member's type stays, unless its annotation now begins with a comment. -/
theorem Matches.memberLabel_cases (maxLength : Int) (h : Matches may .member t u) :
    memberLabel maxLength (t.child? "type") = memberLabel maxLength (u.child? "type") ∨
      may .typed = true ∧ ∃ text, BeginsWith text u ∧
        memberLabel maxLength (u.child? "type") = typeLabel maxLength text := by
  obtain ⟨ht, hu⟩ | ⟨a, b, ht, hu, hfield, hab⟩ := h.child?_cases "type"
  · exact .inl (by rw [ht, hu])
  · have hplace : Place.member.below a.label = .typed := if_pos hfield
    rw [hplace] at hab
    rw [ht, hu]
    obtain hsame | ⟨hmay, text, htext⟩ := hab.inside.head_named
    · left
      have htexts := congrArg (Option.map Tag.text) hsame
      rw [Option.map_map, Option.map_map] at htexts
      exact congrArg (fun text : Option String => typeLabel maxLength (text.getD "")) htexts
    · exact .inr ⟨hmay, text, ⟨b, hu, htext⟩, by rw [memberLabel, Tree.namedChildren, htext]; rfl⟩

theorem objectMember?_of_isKind (maxLength : Int) {member : Node}
    (h : member.isKind "property_signature" = true) :
    objectMember? maxLength member = ((member.child? "name").bind memberName?).map fun name =>
      { name, label := memberLabel maxLength (member.child? "type"),
        isOptional := member.hasChildKind "?" } := by
  rw [objectMember?, if_pos h]
  cases (member.child? "name").bind memberName? <;> rfl

theorem Matches.objectMember?_cases (maxLength : Int) {members : List Node} (hu : u ∈ members)
    (h : Matches may (Place.body.below t.label) t u) :
    (objectMember? maxLength t = none ∧ objectMember? maxLength u = none) ∨
      ∃ f g, objectMember? maxLength t = some f ∧ objectMember? maxLength u = some g ∧
        FieldReread may maxLength members f g := by
  by_cases hkind : t.isKind "property_signature" = true
  · have hplace : Place.body.below t.label = .member := if_pos (beq_iff_eq.1 hkind)
    rw [hplace] at h
    have hread := objectMember?_of_isKind maxLength (h.isKind_eq _ ▸ hkind)
    have hold := objectMember?_of_isKind maxLength hkind
    rw [h.childName?_eq "name", h.hasChildKind_eq (by decide : "comment" ≠ "?")] at hold
    cases hname : (u.child? "name").bind memberName? with
    | none =>
      rw [hname] at hread hold
      exact .inl ⟨hold, hread⟩
    | some name =>
      rw [hname] at hread hold
      refine .inr ⟨_, _, hold, hread, ?_⟩
      obtain hsame | ⟨hmay, text, hbegins, htext⟩ := h.memberLabel_cases maxLength
      · exact .inl (by rw [hsame])
      · exact .inr ⟨hmay, text, by rw [htext], u, hu, hbegins, hread⟩
  · left
    rw [objectMember?, objectMember?, if_neg hkind, if_neg (h.isKind_eq _ ▸ hkind)]
    exact ⟨rfl, rfl⟩

theorem Matches.objectMembers_rel (maxLength : Int) (h : Matches may place t u)
    (hplace : ∀ tag, place.below tag = Place.body.below tag) :
    List.Forall₂ (FieldReread may maxLength u.namedChildren)
      (objectMembers maxLength (some t)) (objectMembers maxLength (some u)) := by
  refine h.inside.forall₂_filterMap (fun _ => rfl) fun c e he hce => ?_
  rw [hplace] at hce
  exact hce.objectMember?_cases maxLength he

theorem Matches.enumMember?_eq (h : Matches may place t u) : enumMember? t = enumMember? u := by
  rw [enumMember?, enumMember?, h.isKind_eq]
  by_cases hkind : u.isKind "enum_assignment" = true
  · simp only [if_pos hkind, h.childName?_eq]
  · simp only [if_neg hkind, Option.bind_some, h.memberName?_eq]

theorem Matches.enumMembers_eq (h : Matches may place t u) :
    enumMembers (some t) = enumMembers (some u) := by
  refine List.forall₂_eq_eq_eq ▸ h.inside.forall₂_filterMap (fun _ => rfl) fun c e _ hce => ?_
  rw [hce.enumMember?_eq]
  cases enumMember? e with
  | none => exact .inl ⟨rfl, rfl⟩
  | some f => exact .inr ⟨f, f, rfl, rfl, rfl⟩

end

def bodyField (n : Node) : String :=
  if n.isKind "type_alias_declaration" then "value" else "body"

def members (n : Node) : List Node := ((n.child? (bodyField n)).map Tree.namedChildren).getD []

def extended (n : Node) : List Node :=
  ((n.children.find? (·.isKind "extends_type_clause")).map Tree.namedChildren).getD []

def typeName (text : String) : String := String.ofList (collapseBlanks text.toList)

theorem heritage_eq (n : Node) :
    heritage n = ((extended n).map Tree.label).map (typeName ·.text) := by
  rw [heritage, extended, List.map_map]
  cases n.children.find? (·.isKind "extends_type_clause") <;> rfl

/-- The second schema is the first one, read with comments for types: comments that begin an
annotation are the types of members, and comments among the extended types are such types. -/
structure Reread (may : Place → Bool) (maxLength : Int) (m : Node) (a b : String × Schema) :
    Prop where
  rest : b = (a.1, { a.2 with fields := b.2.fields, parents := b.2.parents })
  fields : List.Forall₂ (FieldReread may maxLength (members m)) a.2.fields b.2.fields
  parents : a.2.parents.Sublist b.2.parents
  kept : may .heritage = false → a.2.parents = b.2.parents
  inserted : ∀ s ∈ b.2.parents, s ∈ a.2.parents ∨
    ∃ text, Tree.comment text ∈ extended m ∧ s = typeName text

section

variable {may : Place → Bool} {n m : Node}

theorem Reread.eq {maxLength : Int} {a b : String × Schema} (h : Reread may maxLength m a b)
    (htyped : may .typed = false) (hheritage : may .heritage = false) : a = b := by
  have hfields : a.2.fields = b.2.fields := by
    refine List.forall₂_eq_eq_eq ▸ h.fields.imp fun f g hfg => ?_
    exact hfg.resolve_right fun hmay => by simp [htyped] at hmay
  rw [h.rest, ← hfields, ← h.kept hheritage]

theorem Reread.of_fields {maxLength : Int} {name : String} {fs gs : List Field}
    (h : List.Forall₂ (FieldReread may maxLength (members m)) fs gs) :
    Reread may maxLength m (name, { source := .declaration, fields := fs, name })
      (name, { source := .declaration, fields := gs, name }) where
  rest := rfl
  fields := h
  parents := .refl _
  kept _ := rfl
  inserted _ hs := .inl hs

theorem Matches.extended_cases (h : Matches may .declaration n m) :
    ((extended n).map Tree.label).Sublist ((extended m).map Tree.label) ∧
      (may .heritage = false → (extended n).map Tree.label = (extended m).map Tree.label) ∧
      ∀ u ∈ extended m, u.label ∈ (extended n).map Tree.label ∨ ∃ text, u = Tree.comment text := by
  have hfind := h.inside.find?_cases (p := fun tag => tag.kind == "extends_type_clause")
    fun _ => by simp [Tree.comment, Tree.label]
  have hextended (n : Node) : extended n =
      ((n.children.find? (·.label.kind == "extends_type_clause")).map Tree.namedChildren).getD [] :=
    rfl
  obtain ⟨hn, hm⟩ | ⟨clause, clause', hn, hm, hkind, hclause⟩ := hfind
  · rw [hextended, hextended, hn, hm]
    exact ⟨.refl _, fun _ => rfl, by simp⟩
  · rw [hextended, hextended, hn, hm]
    exact hclause.inside.labels_heritage (Place.below_declaration_of_kind (beq_iff_eq.1 hkind))

theorem Matches.interface_rel (maxLength : Int) {name : String} {fs gs : List Field}
    (h : Matches may .declaration n m)
    (hfields : List.Forall₂ (FieldReread may maxLength (members m)) fs gs) :
    Reread may maxLength m
      (name, { source := .declaration, fields := fs, name, parents := heritage n })
      (name, { source := .declaration, fields := gs, name, parents := heritage m }) := by
  obtain ⟨hsub, hsame, hmem⟩ := h.extended_cases
  refine ⟨rfl, hfields, ?_, fun hmay => ?_, fun s hs => ?_⟩
  · rw [heritage_eq, heritage_eq]
    exact hsub.map _
  · simp only [heritage_eq, hsame hmay]
  · simp only [heritage_eq] at hs ⊢
    obtain ⟨label, hlabel, rfl⟩ := List.mem_map.1 hs
    obtain ⟨u, hu, rfl⟩ := List.mem_map.1 hlabel
    obtain hold | ⟨text, rfl⟩ := hmem u hu
    · exact .inl (List.mem_map_of_mem hold)
    · exact .inr ⟨text, hu, rfl⟩

theorem Matches.members_rel (maxLength : Int) {field : String} (hfield : bodyField m = field)
    (h : Matches may .declaration n m) :
    List.Forall₂ (FieldReread may maxLength (members m))
      (objectMembers maxLength (n.child? field)) (objectMembers maxLength (m.child? field)) := by
  rw [members, hfield]
  obtain ⟨hn, hm⟩ | ⟨c, e, hn, hm, hc, hce⟩ := h.child?_cases field
  · rw [hn, hm]
    exact .nil
  · rw [hn, hm]
    refine hce.objectMembers_rel maxLength fun tag => ?_
    have hbody : c.label.field = some "body" ∨ c.label.field = some "value" := by
      rw [hc, ← hfield, bodyField]
      split <;> simp
    by_cases hkind : c.label.kind = "extends_type_clause"
    · rw [Place.below_declaration_of_kind hkind]
      rfl
    · rw [Place.below_declaration_of_field hkind hbody]

theorem Matches.schema?_rel (d : DeclarationSettings) (h : Matches may .declaration n m) :
    Option.Rel (Reread may d.maxTypeLength m) (schema? d n) (schema? d m) := by
  have hkind : n.kind = m.kind := congrArg Tag.kind h.label
  rw [schema?, schema?]
  simp only [h.childText_eq, h.isKind_eq, hkind]
  by_cases hnone : (!kinds.contains m.kind || (m.childText "name").isEmpty) = true
  · rw [if_pos hnone, if_pos hnone]
    exact .none
  rw [if_neg hnone, if_neg hnone]
  by_cases henum : m.isKind "enum_declaration" = true
  · rw [if_pos henum, if_pos henum]
    obtain ⟨hn, hm⟩ | ⟨c, e, hn, hm, -, hce⟩ := h.child?_cases "body"
    · rw [hn, hm]
      exact .some (.of_fields .nil)
    · rw [hn, hm, hce.enumMembers_eq]
      exact .some (.of_fields (List.forall₂_same.2 fun _ _ => .inl rfl))
  rw [if_neg henum, if_neg henum]
  by_cases hinterface : m.isKind "interface_declaration" = true
  · rw [if_pos hinterface, if_pos hinterface]
    have hbody : bodyField m = "body" := by
      rw [bodyField, Tree.isKind, beq_iff_eq.1 hinterface]
      rfl
    exact .some (h.interface_rel d.maxTypeLength (h.members_rel d.maxTypeLength hbody))
  rw [if_neg hinterface, if_neg hinterface]
  have halias : bodyField m = "value" := by
    have hdeclared : m.kind ∈ kinds := by simp_all
    simp_all [kinds, bodyField, Tree.isKind]
  have hmembers := h.members_rel d.maxTypeLength halias
  obtain ⟨hn, hm⟩ | ⟨c, e, hn, hm, -, hce⟩ := h.child?_cases "value"
  · rw [hn, hm]
    exact .none
  · rw [hn, hm] at hmembers
    simp only [hn, hm, hce.isKind_eq]
    by_cases hobject : (e.isKind "interface_body" || e.isKind "object_type") = true
    · rw [if_pos hobject, if_pos hobject]
      exact .some (.of_fields hmembers)
    · rw [if_neg hobject, if_neg hobject]
      exact .none

end

/-- Comments in a declaration that stand neither among the extended types nor before the type of a
member change nothing. Comments at these two places are taken for types, and nothing else changes:
a member's type becomes the comment that its annotation begins with, and the extended types get
the comments among them. -/
theorem schema?_of_commented (d : DeclarationSettings) {n m : Node} (h : Commented [n] [m]) :
    (Inserted Place.isAside .declaration n.children m.children → schema? d n = schema? d m) ∧
      Option.Rel (Reread (fun _ => true) d.maxTypeLength m) (schema? d n) (schema? d m) := by
  have hany : Matches (fun _ => true) .declaration n m := by
    cases h with
    | node tag hchildren _ => exact ⟨rfl, inserted_of_commented hchildren _⟩
    | comment text hrest => cases hrest
  refine ⟨fun haside => ?_, hany.schema?_rel d⟩
  have hrel := Matches.schema?_rel d ⟨hany.label, haside⟩
  generalize schema? d n = a at hrel ⊢
  generalize schema? d m = b at hrel ⊢
  cases hrel with
  | none => rfl
  | some hab => rw [hab.eq rfl rfl]

/-- `interface A extends B, C { a: string }`, with comments put after the name, before the second
extended type, before the member's type and after it. -/
def commentedInterface (outside among before behind : List String) : Node :=
  let leaf (kind text : String) (field : Option String) : Node := .node { kind, text, field } []
  let clause := .node { kind := "extends_type_clause", text := "extends B, C" }
    (leaf "type_identifier" "B" (some "type") :: among.map Tree.comment ++
      [leaf "type_identifier" "C" (some "type")])
  let typed := .node { kind := "type_annotation", text := ": string", field := some "type" }
    (.node { kind := ":", text := ":", named := false } [] :: before.map Tree.comment ++
      leaf "predefined_type" "string" none :: behind.map Tree.comment)
  let body := .node
    { kind := "interface_body", text := "\x7b a: string \x7d", field := some "body" }
    [.node { kind := "property_signature", text := "a: string" }
      [leaf "property_identifier" "a" (some "name"), typed]]
  .node { kind := "interface_declaration", text := "interface A extends B, C \x7b a: string \x7d" }
    (leaf "type_identifier" "A" (some "name") :: outside.map Tree.comment ++ [clause, body])

theorem schema?_of_commented_aside :
    Commented [commentedInterface [] [] [] []]
        [commentedInterface ["// x", "// y"] [] [] ["/* u */"]] ∧
      Inserted Place.isAside .declaration (commentedInterface [] [] [] []).children
        (commentedInterface ["// x", "// y"] [] [] ["/* u */"]).children ∧
      (schema? {} (commentedInterface [] [] [] [])).isSome = true ∧
      schema? {} (commentedInterface [] [] [] []) =
        schema? {} (commentedInterface ["// x", "// y"] [] [] ["/* u */"]) := by
  have hcommented : Commented [commentedInterface [] [] [] []]
      [commentedInterface ["// x", "// y"] [] [] ["/* u */"]] := by
    repeat' constructor
  have haside : Inserted Place.isAside .declaration (commentedInterface [] [] [] []).children
      (commentedInterface ["// x", "// y"] [] [] ["/* u */"]).children := by
    repeat' constructor
  exact ⟨hcommented, haside, by decide, (schema?_of_commented {} hcommented).1 haside⟩

/-- The types of a declaration's members, and those it extends. -/
def declaredTypes (n : Node) : Option (List Text × List String) :=
  (schema? {} n).map fun s => (s.2.fields.map (·.label), s.2.parents)

/-- A comment among the extended types is one of them, and one before a member's type replaces
it. -/
theorem schema?_of_comment_for_type :
    Commented [commentedInterface [] [] [] []]
        [commentedInterface [] ["/* c */"] ["/* n */"] []] ∧
      declaredTypes (commentedInterface [] [] [] []) = some ([.ofString "string"], ["B", "C"]) ∧
      declaredTypes (commentedInterface [] ["/* c */"] ["/* n */"] []) =
        some ([.ofString "/* n */"], ["B", "/* c */", "C"]) :=
  ⟨by repeat' constructor, by decide, by decide⟩

end Declaration

end ContractInference
