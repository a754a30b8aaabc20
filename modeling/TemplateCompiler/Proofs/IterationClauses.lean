import Mathlib.Data.List.TakeWhile
import TemplateCompiler.Proofs.FirstOccurrence
import TemplateCompiler.Template.EachClause

namespace TemplateCompiler.Text

theorem mem_of_mem_trim {c : Char} {cs : List Char} (hc : c ∈ trim cs) : c ∈ cs := by
  have hfront := (List.dropWhile_sublist isBlank).mem (List.mem_reverse.mp hc)
  exact (List.dropWhile_sublist isBlank).mem (List.mem_reverse.mp hfront)

/-- A trimmed text does not start with a blank. -/
theorem isBlank_head?_trim {cs : List Char} {first : Char}
    (hfirst : (trim cs).head? = some first) : isBlank first = false := by
  obtain ⟨behind, hbehind⟩ : trim cs <+: cs.dropWhile isBlank := by
    rw [← List.reverse_suffix, trim, List.reverse_reverse]
    exact List.dropWhile_suffix _
  have hhead := List.head?_dropWhile_not isBlank cs
  rw [← hbehind, List.head?_append, hfirst] at hhead
  exact hhead

/-- A trimmed text does not end with a blank. -/
theorem isBlank_getLast?_trim {cs : List Char} {last : Char}
    (hlast : (trim cs).getLast? = some last) : isBlank last = false := by
  rw [trim, List.getLast?_reverse] at hlast
  have hhead := List.head?_dropWhile_not isBlank (cs.dropWhile isBlank).reverse
  rw [hlast] at hhead
  exact hhead

/-- A text that neither starts nor ends with a blank stays whole, whatever is trimmed in front of
    it. -/
theorem trim_append {cs : List Char} {first last : Char} (hfirst : cs.head? = some first)
    (hlast : cs.getLast? = some last) (hstart : isBlank first = false)
    (hend : isBlank last = false) (front : List Char) :
    trim (front ++ cs) = front.dropWhile isBlank ++ cs := by
  have hfront : (front ++ cs).dropWhile isBlank = front.dropWhile isBlank ++ cs := by
    obtain ⟨rest, rfl⟩ := List.head?_eq_some_iff.mp hfirst
    rw [List.dropWhile_append, List.dropWhile_cons_of_neg (by simp [hstart])]
    split
    · rename_i hempty
      rw [List.isEmpty_iff.mp hempty, List.nil_append]
    · rfl
  rw [← List.head?_reverse] at hlast
  obtain ⟨rest, hrest⟩ := List.head?_eq_some_iff.mp hlast
  have hback : (front.dropWhile isBlank ++ cs).reverse.dropWhile isBlank =
      (front.dropWhile isBlank ++ cs).reverse := by
    rw [List.reverse_append, hrest, List.cons_append, List.dropWhile_cons_of_neg (by simp [hend])]
  rw [trim, hfront, hback, List.reverse_reverse]

end TemplateCompiler.Text

namespace TemplateCompiler.Template.EachClause

/-- A text that can be a part of a clause: it is not empty, and it has no blank at either end. -/
structure IsPart (part : String) : Prop where
  ne_empty : part ≠ ""
  first_not_blank : ∀ first ∈ part.toList.head?, Text.isBlank first = false
  last_not_blank : ∀ last ∈ part.toList.getLast?, Text.isBlank last = false

theorem IsPart.toList_ne_nil {part : String} (h : IsPart part) : part.toList ≠ [] :=
  fun hnil => h.ne_empty (String.toList_eq_nil_iff.mp hnil)

theorem IsPart.trim_append {part : String} (h : IsPart part) (front : List Char) :
    Text.trim (front ++ part.toList) = front.dropWhile Text.isBlank ++ part.toList := by
  have hfirst := List.head?_eq_some_head h.toList_ne_nil
  have hlast := List.getLast?_eq_some_getLast h.toList_ne_nil
  exact Text.trim_append hfirst hlast (h.first_not_blank _ hfirst) (h.last_not_blank _ hlast) front

section Reading

variable {cs head : List Char} {part expression : String} {clause : EachClause}

theorem nonempty?_eq_some_iff :
    nonempty? cs = some part ↔ part.toList = Text.trim cs ∧ part ≠ "" := by
  unfold nonempty?
  dsimp only
  split
  · rename_i hempty
    simp [hempty]
  · rename_i hinner
    constructor
    · intro h
      obtain rfl := Option.some.inj h
      rw [String.toList_ofList]
      exact ⟨rfl, by simpa using hinner⟩
    · rintro ⟨hs, -⟩
      rw [← hs, String.ofList_toList]

theorem isPart_of_nonempty? (h : nonempty? cs = some part) : IsPart part := by
  obtain ⟨htrim, hne⟩ := nonempty?_eq_some_iff.mp h
  refine ⟨hne, ?_, ?_⟩
  · intro first hfirst
    exact Text.isBlank_head?_trim (htrim ▸ hfirst)
  · intro last hlast
    exact Text.isBlank_getLast?_trim (htrim ▸ hlast)

/-- A part is read back with blanks in front of it, and with nothing else. -/
theorem IsPart.nonempty?_append_iff (h : IsPart part) (front : List Char) :
    nonempty? (front ++ part.toList) = some part ↔ ∀ c ∈ front, Text.isBlank c = true := by
  rw [nonempty?_eq_some_iff, h.trim_append, List.self_eq_append_left, List.dropWhile_eq_nil_iff]
  exact and_iff_left h.ne_empty

theorem parse?_eq_some_iff : parse? expression = some clause ↔
    ∃ head target, Text.splitOnce " in ".toList expression.toList = some (head, target) ∧
      nonempty? (splitHead head).1 = some clause.binding ∧
      (splitHead head).2.bind nonempty? = clause.itemKey ∧
      nonempty? target = some clause.target := by
  unfold parse?
  constructor
  · intro h
    split at h
    · cases h
    · rename_i head target hcut
      dsimp only at h
      split at h
      · rename_i binding target' hbinding htarget
        cases h
        exact ⟨head, target, hcut, hbinding, rfl, htarget⟩
      · cases h
  · rintro ⟨head, target, hcut, hbinding, hitemKey, htarget⟩
    simp only [hcut, hbinding, hitemKey, htarget]

theorem subset_of_splitHead (head : List Char) :
    (splitHead head).1 ⊆ head ∧ ∀ itemKey ∈ (splitHead head).2, itemKey ⊆ head := by
  unfold splitHead
  split
  · rename_i binding itemKey hcomma
    rw [Text.eq_append_of_splitOnce hcomma]
    constructor
    · exact ((List.prefix_append _ _).trans (List.prefix_append _ _)).subset
    · intro cs hcs
      obtain rfl := Option.some.inj hcs
      exact (List.suffix_append _ _).subset
  · exact ⟨List.Subset.refl head, by simp⟩

theorem comma_notMem_splitHead (head : List Char) : ',' ∉ (splitHead head).1 := by
  unfold splitHead
  split
  · rename_i binding itemKey hcomma
    exact (Text.splitOnce_singleton_eq_some_iff.mp hcomma).2
  · rename_i hnone
    exact Text.splitOnce_singleton_eq_none_iff.mp hnone

/-- The parts of a clause are cut out of its text and trimmed. -/
theorem parts_of_parse? (h : parse? expression = some clause) :
    ∀ part ∈ clause.binding :: clause.target :: clause.itemKey.toList,
      part.toList ⊆ expression.toList ∧ IsPart part := by
  obtain ⟨head, target, hcut, hbinding, hitemKey, htarget⟩ := parse?_eq_some_iff.mp h
  have hexpression := Text.eq_append_of_splitOnce hcut
  have hhead : head ⊆ expression.toList := by
    rw [hexpression, List.append_assoc]
    exact (List.prefix_append _ _).subset
  have hpart {cs : List Char} (hcs : cs ⊆ expression.toList) {part : String}
      (hpart : nonempty? cs = some part) : part.toList ⊆ expression.toList ∧ IsPart part := by
    refine ⟨?_, isPart_of_nonempty? hpart⟩
    rw [(nonempty?_eq_some_iff.mp hpart).1]
    exact fun c hc => hcs (Text.mem_of_mem_trim hc)
  obtain ⟨hfirst, hsecond⟩ := subset_of_splitHead head
  simp only [List.forall_mem_cons]
  refine ⟨hpart (List.Subset.trans hfirst hhead) hbinding, hpart ?_ htarget, ?_⟩
  · rw [hexpression]
    exact (List.suffix_append _ _).subset
  · intro itemKey hmem
    rw [Option.mem_toList, ← hitemKey] at hmem
    obtain ⟨cs, hcs, hread⟩ := Option.bind_eq_some_iff.mp hmem
    exact hpart (List.Subset.trans (hsecond cs hcs) hhead) hread

end Reading

/-- A clause of trimmed parts, of which the binding has no comma. -/
structure WellFormed (clause : EachClause) : Prop where
  binding : IsPart clause.binding
  comma_notMem : ',' ∉ clause.binding.toList
  itemKey : ∀ itemKey ∈ clause.itemKey, IsPart itemKey
  target : IsPart clause.target

/-- The names that a clause binds, as they are written in front of ` in `. -/
def boundNames (clause : EachClause) : String :=
  match clause.itemKey with
  | some itemKey => clause.binding ++ ", " ++ itemKey
  | none => clause.binding

/-- The clause as a template has it. -/
def render (clause : EachClause) : String :=
  clause.boundNames ++ " in " ++ clause.target

theorem wellFormed_of_parse? {expression : String} {clause : EachClause}
    (h : parse? expression = some clause) : clause.WellFormed := by
  have hparts := parts_of_parse? h
  simp only [List.forall_mem_cons, Option.mem_toList] at hparts
  obtain ⟨⟨-, hbinding⟩, ⟨-, htarget⟩, hitemKey⟩ := hparts
  refine ⟨hbinding, ?_, fun itemKey hmem => (hitemKey itemKey hmem).2, htarget⟩
  obtain ⟨head, -, -, hread, -⟩ := parse?_eq_some_iff.mp h
  rw [(nonempty?_eq_some_iff.mp hread).1]
  exact fun hcomma => comma_notMem_splitHead head (Text.mem_of_mem_trim hcomma)

theorem splitHead_boundNames {clause : EachClause} (hcomma : ',' ∉ clause.binding.toList) :
    splitHead clause.boundNames.toList =
      (clause.binding.toList, clause.itemKey.map (' ' :: ·.toList)) := by
  obtain ⟨binding, itemKey, target⟩ := clause
  cases itemKey with
  | none =>
    rw [splitHead, boundNames, Text.splitOnce_singleton_eq_none_iff.mpr hcomma]
    rfl
  | some itemKey =>
    have hcut : Text.splitOnce [','] (binding ++ ", " ++ itemKey).toList =
        some (binding.toList, ' ' :: itemKey.toList) :=
      Text.splitOnce_singleton_eq_some_iff.mpr ⟨by simp, hcomma⟩
    rw [splitHead, boundNames, hcut]
    rfl

/-- Blanks behind ` in ` do not hide where it stands. -/
theorem eq_of_append_blanks {head names between : List Char}
    (hblank : ∀ c ∈ between, Text.isBlank c = true)
    (h : head ++ " in ".toList ++ between = names ++ " in ".toList) :
    head = names ∧ between = [] := by
  have hkept (front : List Char) {blanks : List Char}
      (hblanks : ∀ c ∈ blanks, Text.isBlank c = true) :
      (front ++ " in ".toList ++ blanks).reverse.dropWhile Text.isBlank =
        (front ++ " in".toList).reverse := by
    rw [List.reverse_append, List.dropWhile_append_of_pos (by simpa using hblanks)]
    simp [Text.isBlank]
  have hsame := hkept head hblank
  have hnames := hkept names (List.forall_mem_nil _)
  rw [h, ← List.append_nil (names ++ " in ".toList), hnames, List.reverse_inj] at hsame
  obtain rfl := List.append_cancel_right hsame
  exact ⟨rfl, List.append_right_eq_self.mp h⟩

theorem toList_render (clause : EachClause) : clause.render.toList =
    clause.boundNames.toList ++ " in ".toList ++ clause.target.toList := by
  rw [render, String.toList_append, String.toList_append]

theorem splitOnce_render_iff (clause : EachClause) :
    Text.splitOnce " in ".toList clause.render.toList =
        some (clause.boundNames.toList, clause.target.toList) ↔
      ¬" in ".toList <:+: (clause.boundNames ++ " in").toList := by
  rw [Text.splitOnce_eq_some_iff (by decide), String.toList_append]
  exact and_iff_right clause.toList_render

/-- A text that is cut too early has an `in` in front of the target. So the written form of a clause
    that is read back is cut where it should be. -/
theorem splitOnce_of_parse?_render {clause : EachClause} (h : parse? clause.render = some clause) :
    Text.splitOnce " in ".toList clause.render.toList =
      some (clause.boundNames.toList, clause.target.toList) := by
  obtain ⟨head, target, hcut, -, -, hread⟩ := parse?_eq_some_iff.mp h
  have hrender := Text.eq_append_of_splitOnce hcut
  have hlater : " in ".toList ++ clause.target.toList <:+ clause.render.toList := by
    rw [toList_render, List.append_assoc]
    exact List.suffix_append _ _
  have hlength := (Text.suffix_of_splitOnce hcut hlater (List.prefix_append _ _)).length_le
  obtain ⟨between, rfl⟩ : clause.target.toList <:+ target := by
    refine List.suffix_of_suffix_length_le ((List.suffix_append _ _).trans hlater)
      (hrender ▸ List.suffix_append _ _) ?_
    simpa using hlength
  rw [(wellFormed_of_parse? h).target.nonempty?_append_iff] at hread
  rw [toList_render, ← List.append_assoc] at hrender
  obtain ⟨rfl, rfl⟩ := eq_of_append_blanks hread (List.append_cancel_right hrender).symm
  exact hcut

theorem WellFormed.parse?_render {clause : EachClause} (h : clause.WellFormed)
    (hcut : Text.splitOnce " in ".toList clause.render.toList =
      some (clause.boundNames.toList, clause.target.toList)) :
    parse? clause.render = some clause := by
  refine parse?_eq_some_iff.mpr ⟨_, _, hcut, ?_⟩
  rw [splitHead_boundNames h.comma_notMem]
  refine ⟨?_, ?_, ?_⟩
  · exact (h.binding.nonempty?_append_iff []).mpr (List.forall_mem_nil _)
  · cases hkey : clause.itemKey with
    | none => rfl
    | some itemKey =>
      exact ((h.itemKey itemKey hkey).nonempty?_append_iff [' ']).mpr
        (List.forall_mem_singleton.mpr rfl)
  · exact (h.target.nonempty?_append_iff []).mpr (List.forall_mem_nil _)

/-- A clause is read back from its written form if and only if it is well-formed and there is no
    ` in ` that ends before the space in front of the target. -/
theorem parse?_render_iff (clause : EachClause) :
    parse? clause.render = some clause ↔
      clause.WellFormed ∧ ¬" in ".toList <:+: (clause.boundNames ++ " in").toList := by
  rw [← splitOnce_render_iff]
  exact ⟨fun h => ⟨wellFormed_of_parse? h, splitOnce_of_parse?_render h⟩,
    fun h => h.1.parse?_render h.2⟩

end TemplateCompiler.Template.EachClause
