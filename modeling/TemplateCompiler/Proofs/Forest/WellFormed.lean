import TemplateCompiler.Proofs.Forest.Meaning

namespace TemplateCompiler.Template

open Markup (Attributes)

/-- A tag with the nodes inside it. -/
structure Tag where
  name : String
  attributes : Attributes
  content : Forest

/-- What a tag stands for. -/
def Tag.kind (tag : Tag) : TagKind :=
  TagKind.of tag.name tag.attributes

/-- Whether a tag is a further branch of a conditional. -/
def TagKind.isBranch (kind : TagKind) : Bool :=
  kind == elseIfTag || kind == elseTag

namespace Forest

/-- All tags of a forest in document order. -/
def tags : Forest → List Tag
  | nil => []
  | text _ _ rest => rest.tags
  | tag name attributes _ _ children rest =>
    ⟨name, attributes, children⟩ :: (children.tags ++ rest.tags)

/-- The texts of a forest that are in none of its tags. -/
def texts : Forest → List String
  | nil => []
  | text content _ rest => content :: rest.texts
  | tag _ _ _ _ _ rest => rest.texts

/-- The branches of a forest in document order: those that are in none of its tags, or in other
    branches only. -/
def branches : Forest → List TagKind
  | nil => []
  | text _ _ rest => rest.branches
  | tag name attributes _ _ children rest =>
    if (TagKind.of name attributes).isBranch then
      TagKind.of name attributes :: (children.branches ++ rest.branches)
    else rest.branches

end Forest

/-- Nothing but blank characters in a pair of braces, which may have blank characters around it. -/
def IsBlankBraces (value : String) : Prop :=
  ∃ inner, Text.trim value.toList = '\x7b' :: (inner ++ ['\x7d']) ∧
    ∀ c ∈ inner, Text.isBlank c = true

/-- A brace at the start of a value, and the first closing brace at its end. -/
def IsWrapped (value : String) (inner : List Char) : Prop :=
  value.toList = '\x7b' :: (inner ++ ['\x7d']) ∧ '\x7d' ∉ inner

/-- A value of an attribute that is no directive can be used as it is, as a handler or a style
    object, as one expression, or as a text with expressions. -/
def UsableValue (name value : String) : Prop :=
  (value.toList.head? = some '\x7b' ∧ ("on".toList <+: name.toList ∨ name = "style")) ∨
    '\x7b' ∉ value.toList ∨
    (∃ inner, IsWrapped value inner ∧ ∃ c ∈ inner, Text.isBlank c = false) ∨
    ((¬∃ inner, IsWrapped value inner) ∧ (Interpolation.ofString value).issues = [])

/-- A text can be rendered. -/
def UsableText (content : String) : Prop :=
  Text.allBlank content = true ∨ (Interpolation.ofString content).issues = []

/-- An iteration can be read. -/
def UsableIteration (expression : String) : Prop :=
  (EachClause.parse? expression).isSome = true

/-- The attributes of a rendered element can all be used. -/
structure UsableAttributes (attributes : Attributes) : Prop where
  unchained : ∀ name ∈ ["elseif", "else"], attributes.contains name = false
  conditions : ∀ name ∈ ["if", "skip"], ∀ value, attributes.get? name = some value →
    ¬IsBlankBraces value
  iteration : ∀ expression, attributes.get? "each" = some expression → UsableIteration expression
  values : ∀ entry ∈ attributes.entries,
    entry.1 ∉ ["key", "if", "each", "skip", "elseif", "else"] → UsableValue entry.1 entry.2

/-- The attributes of a tag can be used for what the tag stands for. -/
structure Tag.Usable (tag : Tag) : Prop where
  condition : tag.kind ∈ [.ifTag, .elseIfTag, .elseTag, .skipTag] →
    ¬IsBlankBraces ((tagCondition tag.attributes).getD "")
  iteration : tag.kind = .eachTag → UsableIteration ((tag.attributes.get? "expression").getD "")
  functionName : tag.kind = .metadata → ∀ name, tag.attributes.get? "name" = some name →
    Script.isIdentifier (Text.trimmed name) = true
  element : tag.kind = .element → UsableAttributes tag.attributes

/-- No branch comes behind an else. -/
def ElseLast (branches : List TagKind) : Prop :=
  branches.Pairwise fun earlier _ => earlier ≠ .elseTag

/-- A tag can be used, and so can its content directly inside it. The branches of a conditional are
    all in its own content, and those of a branch belong to the conditional around it. -/
structure Tag.WellFormed (tag : Tag) : Prop where
  usable : tag.Usable
  texts : tag.kind ≠ .script → ∀ text ∈ tag.content.texts, UsableText text
  branches : tag.kind ≠ .ifTag → tag.kind.isBranch = false → tag.content.branches = []
  elseLast : tag.kind = .ifTag → ElseLast tag.content.branches
  metadata : ∀ inner ∈ tag.content.tags, inner.kind ≠ .metadata

/-- A template in which every tag and every text can be used, every branch is in a conditional
    without an earlier else, and at most one tag describes the function, which is in no other. -/
structure Forest.WellFormed (forest : Forest) : Prop where
  tags : ∀ tag ∈ forest.tags, tag.WellFormed
  texts : ∀ text ∈ forest.texts, UsableText text
  branches : forest.branches = []
  metadata : (forest.tags.filter (·.kind = .metadata)).length ≤ 1

/-- What lies around a part of a template, as far as the part can be refused for it. -/
structure Surroundings where
  /-- The part is directly in a script. -/
  script : Bool
  /-- The part is in a conditional, apart from branches. -/
  chained : Bool
  /-- That conditional has had its else. -/
  elseSeen : Bool
  /-- The part is in no tag. -/
  outermost : Bool
  /-- The function has been described. -/
  described : Bool

namespace Surroundings

/-- What lies around the content of a tag. -/
def inside (around : Surroundings) (kind : TagKind) : Surroundings where
  script := kind == .script
  chained := kind == .ifTag || kind.isBranch && around.chained
  elseSeen := kind == .elseTag
  outermost := false
  described := around.described || kind == .metadata

/-- What lies around the nodes behind some branches, and behind tags that describe the function or
    not. -/
def behind (around : Surroundings) (branches : List TagKind) (described : Bool) : Surroundings :=
  { around with
    elseSeen := around.elseSeen || branches.contains .elseTag
    described := around.described || described }

/-- Around a whole template there is nothing. -/
def nothing : Surroundings where
  script := false
  chained := false
  elseSeen := false
  outermost := true
  described := false

end Surroundings

/-- The branches that a tag is and has, for the conditional around it. -/
def Tag.branches (tag : Tag) : List TagKind :=
  if tag.kind.isBranch then tag.kind :: tag.content.branches else []

/-- The forest of a tag and the nodes behind it. -/
def Tag.before (tag : Tag) (opening closing : Markup.Span) (rest : Forest) : Forest :=
  .tag tag.name tag.attributes opening closing tag.content rest

/-- A tag may stand where it does. -/
structure Tag.Allowed (around : Surroundings) (tag : Tag) : Prop where
  branch : tag.kind.isBranch = true → around.chained = true ∧ around.elseSeen = false
  metadata : tag.kind = .metadata → around.outermost = true ∧ around.described = false

/-- A part of a template is well formed for what lies around it. -/
structure Forest.Accepted (around : Surroundings) (forest : Forest) : Prop where
  tags : ∀ tag ∈ forest.tags, tag.WellFormed
  texts : around.script = false → ∀ text ∈ forest.texts, UsableText text
  branches : around.chained = false ∨ around.elseSeen = true → forest.branches = []
  elseLast : ElseLast forest.branches
  metadata : around.outermost = false ∨ around.described = true →
    ∀ tag ∈ forest.tags, tag.kind ≠ .metadata
  single : (forest.tags.filter (·.kind = .metadata)).length ≤ 1

namespace Forest

open Surroundings (nothing)

theorem wellFormed_iff_accepted (forest : Forest) : forest.WellFormed ↔ forest.Accepted nothing := by
  constructor
  · rintro ⟨htags, htexts, hbranches, hmetadata⟩
    refine ⟨htags, fun _ => htexts, fun _ => hbranches, ?_, ?_, hmetadata⟩
    · rw [hbranches]
      exact List.Pairwise.nil
    · rintro (h | h) <;> cases h
  · rintro ⟨htags, htexts, hbranches, _, _, hsingle⟩
    exact ⟨htags, htexts rfl, hbranches (.inl rfl), hsingle⟩

/-- Whether the function is described somewhere in a forest. -/
def describes (forest : Forest) : Bool :=
  forest.tags.any (·.kind = .metadata)

variable {around : Surroundings}

theorem accepted_nil : Accepted around nil where
  tags := by simp [tags]
  texts := by simp [texts]
  branches := fun _ => rfl
  elseLast := List.Pairwise.nil
  metadata := by simp [tags]
  single := by simp [tags]

theorem accepted_text_iff (content : String) (span : Markup.Span) (rest : Forest) :
    (text content span rest).Accepted around ↔
      (around.script = false → UsableText content) ∧ rest.Accepted around := by
  constructor
  · rintro ⟨htags, htexts, hbranches, helse, hmetadata, hsingle⟩
    refine ⟨fun hscript => htexts hscript content List.mem_cons_self, htags, ?_, hbranches, helse,
      hmetadata, hsingle⟩
    intro hscript text hmem
    exact htexts hscript text (List.mem_cons_of_mem content hmem)
  · rintro ⟨hcontent, htags, htexts, hbranches, helse, hmetadata, hsingle⟩
    refine ⟨htags, ?_, hbranches, helse, hmetadata, hsingle⟩
    intro hscript text hmem
    obtain rfl | hmem := List.mem_cons.mp hmem
    · exact hcontent hscript
    · exact htexts hscript text hmem

theorem elseLast_append_iff {first second : List TagKind} :
    ElseLast (first ++ second) ↔
      ElseLast first ∧ ElseLast second ∧ (.elseTag ∈ first → second = []) := by
  unfold ElseLast
  rw [List.pairwise_append]
  refine and_congr_right fun _ => and_congr_right fun _ => ?_
  constructor
  · intro happend hmem
    cases second with
    | nil => rfl
    | cons kind kinds => exact (happend _ hmem kind List.mem_cons_self rfl).elim
  · rintro hnone earlier hearlier later hlater rfl
    rw [hnone hearlier] at hlater
    cases hlater

theorem filter_metadata_eq_nil {tags : List Tag} (hnone : ∀ tag ∈ tags, tag.kind ≠ .metadata) :
    tags.filter (·.kind = .metadata) = [] := by
  rw [List.filter_eq_nil_iff]
  intro tag hmem
  simpa using hnone tag hmem

section Node

variable {node : Tag} {opening closing : Markup.Span} {rest : Forest}

theorem branches_before :
    (node.before opening closing rest).branches = node.branches ++ rest.branches := by
  unfold Tag.before Tag.branches Tag.kind
  rw [branches]
  split <;> rfl

theorem Accepted.first (h : (node.before opening closing rest).Accepted around) :
    node.WellFormed ∧ node.Allowed around := by
  have hnode : node ∈ (node.before opening closing rest).tags := List.mem_cons_self
  refine ⟨h.tags node hnode, ?_, ?_⟩
  · intro hbranch
    have hne : (node.before opening closing rest).branches ≠ [] := by
      rw [branches_before, Tag.branches, if_pos hbranch]
      exact List.cons_ne_nil _ _
    cases hchained : around.chained with
    | false => exact (hne (h.branches (.inl hchained))).elim
    | true =>
      cases helse : around.elseSeen with
      | false => exact ⟨rfl, rfl⟩
      | true => exact (hne (h.branches (.inr helse))).elim
  · intro hkind
    cases houtermost : around.outermost with
    | false => exact (h.metadata (.inl houtermost) node hnode hkind).elim
    | true =>
      cases hdescribed : around.described with
      | false => exact ⟨rfl, rfl⟩
      | true => exact (h.metadata (.inr hdescribed) node hnode hkind).elim

theorem Accepted.inside (h : (node.before opening closing rest).Accepted around) :
    node.content.Accepted (around.inside node.kind) := by
  obtain ⟨hnode, hallowed⟩ := h.first
  have helse := h.elseLast
  rw [branches_before, elseLast_append_iff] at helse
  obtain ⟨helse, -, -⟩ := helse
  refine ⟨?_, ?_, ?_, ?_, fun _ => hnode.metadata, ?_⟩
  · intro tag hmem
    exact h.tags tag (List.mem_cons_of_mem _ (List.mem_append_left _ hmem))
  · intro hscript
    exact hnode.texts (by simpa [Surroundings.inside] using hscript)
  · intro hclosed
    cases hbranch : node.kind.isBranch with
    | true =>
      obtain ⟨hchained, -⟩ := hallowed.branch hbranch
      have hkind : node.kind = .elseTag := by
        simpa [Surroundings.inside, hbranch, hchained] using hclosed
      rw [Tag.branches, if_pos hbranch, ← List.singleton_append, elseLast_append_iff] at helse
      exact helse.2.2 (by simp [hkind])
    | false =>
      refine hnode.branches ?_ hbranch
      intro hkind
      simp [Surroundings.inside, hkind] at hclosed
  · cases hbranch : node.kind.isBranch with
    | true =>
      rw [Tag.branches, if_pos hbranch] at helse
      exact helse.of_cons
    | false =>
      by_cases hkind : node.kind = .ifTag
      · exact hnode.elseLast hkind
      · rw [hnode.branches hkind hbranch]
        exact List.Pairwise.nil
  · rw [filter_metadata_eq_nil hnode.metadata]
    exact Nat.zero_le 1

theorem Accepted.behind (h : (node.before opening closing rest).Accepted around) :
    rest.Accepted (around.behind node.branches (node.kind == .metadata)) := by
  have hmem (tag : Tag) (htag : tag ∈ rest.tags) :
      tag ∈ (node.before opening closing rest).tags :=
    List.mem_cons_of_mem node (List.mem_append_right _ htag)
  have hbranches := h.branches
  have helse := h.elseLast
  rw [branches_before] at hbranches helse
  rw [elseLast_append_iff] at helse
  have hsingle : (if node.kind = .metadata then 1 else 0) +
      (rest.tags.filter (·.kind = .metadata)).length ≤ 1 := by
    have hsublist : (node :: rest.tags).Sublist (node.before opening closing rest).tags :=
      (List.sublist_append_right _ _).cons_cons node
    have hlength := Nat.le_trans (hsublist.filter (·.kind = .metadata)).length_le h.single
    rw [List.filter_cons] at hlength
    by_cases hkind : node.kind = .metadata
    · simp only [hkind, decide_true, if_true, List.length_cons] at hlength ⊢
      omega
    · simp only [hkind, decide_false, Bool.false_eq_true, if_false] at hlength ⊢
      omega
  refine ⟨fun tag htag => h.tags tag (hmem tag htag), h.texts, ?_, helse.2.1, ?_, ?_⟩
  · intro hclosed
    simp only [Surroundings.behind, Bool.or_eq_true, List.contains_iff_mem] at hclosed
    obtain hchained | hseen | hseen := hclosed
    · exact (List.append_eq_nil_iff.mp (hbranches (.inl hchained))).2
    · exact (List.append_eq_nil_iff.mp (hbranches (.inr hseen))).2
    · exact helse.2.2 hseen
  · intro hclosed tag htag hkind
    simp only [Surroundings.behind, Bool.or_eq_true, beq_iff_eq] at hclosed
    obtain houtermost | hdescribed | hnode := hclosed
    · exact h.metadata (.inl houtermost) tag (hmem tag htag) hkind
    · exact h.metadata (.inr hdescribed) tag (hmem tag htag) hkind
    · have hfound : tag ∈ rest.tags.filter (·.kind = .metadata) :=
        List.mem_filter.mpr ⟨htag, by simpa using hkind⟩
      have hpos := List.length_pos_of_mem hfound
      rw [if_pos hnode] at hsingle
      omega
  · omega

theorem wellFormed_of_inside (husable : node.Usable)
    (hinside : node.content.Accepted (around.inside node.kind)) : node.WellFormed := by
  refine ⟨husable, ?_, ?_, fun _ => hinside.elseLast, hinside.metadata (.inl rfl)⟩
  · intro hkind
    exact hinside.texts (by simpa [Surroundings.inside] using hkind)
  · intro hkind hbranch
    exact hinside.branches (.inl (by simp [Surroundings.inside, hkind, hbranch]))

theorem accepted_before (husable : node.Usable) (hallowed : node.Allowed around)
    (hinside : node.content.Accepted (around.inside node.kind))
    (hbehind : rest.Accepted (around.behind node.branches (node.kind == .metadata))) :
    (node.before opening closing rest).Accepted around := by
  have hnone : ∀ inner ∈ node.content.tags, inner.kind ≠ .metadata := hinside.metadata (.inl rfl)
  have hnode := wellFormed_of_inside husable hinside
  refine ⟨?_, hbehind.texts, ?_, ?_, ?_, ?_⟩
  · intro tag htag
    obtain rfl | htag := List.mem_cons.mp htag
    · exact hnode
    · obtain htag | htag := List.mem_append.mp htag
      · exact hinside.tags tag htag
      · exact hbehind.tags tag htag
  · intro hclosed
    have hbranch : node.kind.isBranch = false := by
      rw [Bool.eq_false_iff]
      intro hbranch
      obtain ⟨hchained, helse⟩ := hallowed.branch hbranch
      simp [hchained, helse] at hclosed
    rw [branches_before, Tag.branches, if_neg (by simp [hbranch]), List.nil_append]
    refine hbehind.branches (hclosed.imp_right ?_)
    intro hseen
    simp [Surroundings.behind, hseen]
  · rw [branches_before, elseLast_append_iff]
    refine ⟨?_, hbehind.elseLast, ?_⟩
    · unfold Tag.branches
      split
      · rw [← List.singleton_append, elseLast_append_iff]
        refine ⟨List.pairwise_singleton _ _, hinside.elseLast, ?_⟩
        intro hkind
        have hlast : node.kind = .elseTag := (List.mem_singleton.mp hkind).symm
        exact hinside.branches (.inr (by simp [Surroundings.inside, hlast]))
      · exact List.Pairwise.nil
    · intro hmem
      exact hbehind.branches (.inr (by simp [Surroundings.behind, hmem]))
  · intro hclosed tag htag hkind
    obtain rfl | htag := List.mem_cons.mp htag
    · obtain ⟨houtermost, hdescribed⟩ := hallowed.metadata hkind
      simp [houtermost, hdescribed] at hclosed
    · obtain htag | htag := List.mem_append.mp htag
      · exact hnone tag htag hkind
      · refine hbehind.metadata (hclosed.imp_right ?_) tag htag hkind
        intro hdescribed
        simp [Surroundings.behind, hdescribed]
  · change ((node :: (node.content.tags ++ rest.tags)).filter (·.kind = .metadata)).length ≤ 1
    rw [List.filter_cons, List.filter_append, filter_metadata_eq_nil hnone, List.nil_append]
    split
    · rename_i hkind
      rw [filter_metadata_eq_nil]
      · exact Nat.le_refl 1
      · exact hbehind.metadata (.inr (by simp_all [Surroundings.behind]))
    · exact hbehind.single

/-- A tag with the nodes behind it is well formed if and only if the tag can be used where it stands,
    its content is well formed inside it, and the nodes behind it are well formed behind it. -/
theorem accepted_before_iff :
    (node.before opening closing rest).Accepted around ↔
      node.Usable ∧ node.Allowed around ∧ node.content.Accepted (around.inside node.kind) ∧
        rest.Accepted (around.behind node.branches (node.kind == .metadata)) := by
  constructor
  · intro h
    exact ⟨h.first.1.usable, h.first.2, h.inside, h.behind⟩
  · rintro ⟨husable, hallowed, hinside, hbehind⟩
    exact accepted_before husable hallowed hinside hbehind

end Node

end Forest

end TemplateCompiler.Template
