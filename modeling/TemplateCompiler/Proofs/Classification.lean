import Mathlib.Data.List.Perm.Basic
import TemplateCompiler.Proofs.ElementAttributes
import TemplateCompiler.Proofs.StaticAttributes

namespace TemplateCompiler.Template

open Markup (Attribute Attributes)
open Script (Property)

section Roles

/-- An attribute that controls whether and how often its element is rendered. -/
def IsDirective (entry : Attribute) : Prop :=
  entry.1 ∈ ["if", "each", "skip", "elseif", "else"]

/-- An attribute that is no directive, with a value in which no expression can start. -/
def IsLiteral (entry : Attribute) : Prop :=
  ¬IsDirective entry ∧ '\x7b' ∉ entry.2.toList

instance (entry : Attribute) : Decidable (IsDirective entry) :=
  inferInstanceAs (Decidable (entry.1 ∈ _))

instance (entry : Attribute) : Decidable (IsLiteral entry) :=
  inferInstanceAs (Decidable (_ ∧ _))

theorem isDirective_iff (entry : Attribute) :
    IsDirective entry ↔ ∃ directive, Directive.ofName? entry.1 = some directive := by
  rw [← Option.isSome_iff_exists, ← Option.ne_none_iff_isSome, ne_eq,
    Directive.ofName?_eq_none_iff, not_not]
  rfl

namespace AttributeRole

theorem ofValue_of_notMem {name value : String} (hvalue : '\x7b' ∉ value.toList) :
    ofValue name value = literal := by
  have hhead : value.toList.head? ≠ some '\x7b' := fun hhead =>
    hvalue (List.mem_of_mem_head? hhead)
  have hwrapped : unwrapBraces? value.toList = none := by
    rw [Option.eq_none_iff_forall_ne_some]
    intro inner hinner
    rw [(unwrapBraces?_eq_some_iff.mp hinner).1] at hvalue
    exact hvalue List.mem_cons_self
  simp [ofValue, hhead, hwrapped, hasOpeningBrace, hvalue]

/-- A value in which an expression can start is set at every rendering, whatever comes of it. -/
theorem ofValue_of_mem {name value : String} (hvalue : '\x7b' ∈ value.toList) :
    ∃ expression issues, ofValue name value = property expression issues := by
  have hopening : hasOpeningBrace value = true := List.contains_iff_mem.mpr hvalue
  unfold ofValue ofWrapped
  rw [if_pos hopening]
  dsimp only
  repeat' split
  all_goals exact ⟨_, _, rfl⟩

/-- An attribute has one of three roles. -/
theorem ofAttribute_cases (entry : Attribute) :
    (∃ found, Directive.ofName? entry.1 = some found ∧ ofAttribute entry = directive found) ∨
    (IsLiteral entry ∧ ofAttribute entry = literal) ∨
    (¬IsDirective entry ∧ ¬IsLiteral entry ∧
      ∃ expression issues, ofAttribute entry = property expression issues) := by
  unfold ofAttribute
  cases hfound : Directive.ofName? entry.1 with
  | some found => exact .inl ⟨found, rfl, rfl⟩
  | none =>
    have hplain : ¬IsDirective entry := (Directive.ofName?_eq_none_iff entry.1).mp hfound
    by_cases hvalue : '\x7b' ∈ entry.2.toList
    · exact .inr (.inr ⟨hplain, fun hliteral => hliteral.2 hvalue, ofValue_of_mem hvalue⟩)
    · exact .inr (.inl ⟨⟨hplain, hvalue⟩, ofValue_of_notMem hvalue⟩)

theorem ofAttribute_eq_literal_iff (entry : Attribute) :
    ofAttribute entry = literal ↔ IsLiteral entry := by
  obtain ⟨found, hfound, hrole⟩ | ⟨hliteral, hrole⟩ | ⟨-, hliteral, expression, issues, hrole⟩ :=
    ofAttribute_cases entry
  · have hdirective := (isDirective_iff entry).mpr ⟨found, hfound⟩
    simp [hrole, IsLiteral, hdirective]
  · simp [hrole, hliteral]
  · simp [hrole, hliteral]

end AttributeRole

end Roles

namespace Classified

open AttributeRole (ofAttribute ofAttribute_cases ofAttribute_eq_literal_iff)

section Properties

variable (noStatics : Bool) (entry : Attribute)

theorem property?_of_literal (hliteral : IsLiteral entry) :
    property? noStatics entry =
      if noStatics then some ⟨entry.1, Script.quote entry.2⟩ else none := by
  rw [property?, (ofAttribute_eq_literal_iff entry).mpr hliteral]

/-- Whether literals may be static plays no part for other attributes. -/
theorem property?_of_not_literal (hliteral : ¬IsLiteral entry) :
    property? noStatics entry = property? false entry := by
  rw [← ofAttribute_eq_literal_iff] at hliteral
  unfold property?
  cases hrole : ofAttribute entry with
  | literal => exact (hliteral hrole).elim
  | directive found => rfl
  | property expression issues => rfl

/-- An attribute becomes a property under its own name, unless it is a directive or static. -/
theorem map_name_property? :
    (property? noStatics entry).map Property.name =
      if IsDirective entry ∨ noStatics = false ∧ IsLiteral entry then none else some entry.1 := by
  obtain ⟨found, hfound, hrole⟩ | ⟨hliteral, hrole⟩ |
    ⟨hplain, hliteral, expression, issues, hrole⟩ := ofAttribute_cases entry
  · have hdirective := (isDirective_iff entry).mpr ⟨found, hfound⟩
    simp [property?, hrole, hdirective]
  · cases noStatics <;> simp [property?, hrole, hliteral, hliteral.1]
  · simp [property?, hrole, hplain, hliteral]

theorem name_of_property? {noStatics : Bool} {entry : Attribute} {property : Property}
    (hproperty : property? noStatics entry = some property) : property.name = entry.1 := by
  have hname := map_name_property? noStatics entry
  rw [hproperty, Option.map_some] at hname
  split at hname
  · cases hname
  · exact Option.some.inj hname

/-- Properties are in the order of their declaration. -/
theorem names_properties (attributes : Attributes) :
    (ofAttributes attributes noStatics).properties.map Property.name =
      (attributes.entries.filter fun entry =>
        ¬(IsDirective entry ∨ noStatics = false ∧ IsLiteral entry)).map Prod.fst := by
  change (attributes.entries.filterMap (property? noStatics)).map Property.name = _
  rw [List.map_filterMap, ← List.filterMap_eq_map, List.filterMap_filter]
  apply List.filterMap_congr
  intro entry _
  rw [map_name_property?]
  by_cases hnone : IsDirective entry ∨ noStatics = false ∧ IsLiteral entry
  · simp [hnone]
  · simp [hnone]

/-- Among attributes of distinct names, the property of an attribute is found by its name. -/
theorem find?_properties {entries : List Attribute} (hnames : (entries.map Prod.fst).Nodup)
    {entry : Attribute} (hentry : entry ∈ entries) :
    (entries.filterMap (property? noStatics)).find? (·.name == entry.1) =
      property? noStatics entry := by
  induction entries with
  | nil => cases hentry
  | cons first entries ih =>
    rw [List.map_cons, List.nodup_cons] at hnames
    obtain ⟨hfirst, hlater⟩ := hnames
    have habsent : (entries.filterMap (property? noStatics)).find? (·.name == first.1) = none := by
      rw [List.find?_eq_none]
      intro property hmem hname
      obtain ⟨other, hother, hproperty⟩ := List.mem_filterMap.mp hmem
      rw [beq_iff_eq, name_of_property? hproperty] at hname
      exact hfirst (hname ▸ List.mem_map_of_mem hother)
    rw [List.filterMap_cons]
    obtain rfl | hentry := List.mem_cons.mp hentry
    · cases hproperty : property? noStatics entry with
      | none => exact habsent
      | some property => simp [name_of_property? hproperty]
    · have hne : first.1 ≠ entry.1 := fun heq => hfirst (heq ▸ List.mem_map_of_mem hentry)
      cases hproperty : property? noStatics first with
      | none => exact ih hlater hentry
      | some property =>
        rw [List.find?_cons_of_neg (by simpa [name_of_property? hproperty] using hne)]
        exact ih hlater hentry

/-- Where no attribute may be static, the literals stand among the other properties at the places
    where they are declared. -/
theorem properties_merged (attributes : Attributes) :
    (ofAttributes attributes true).properties =
      attributes.entries.filterMap fun entry =>
        if IsLiteral entry then some ⟨entry.1, Script.quote entry.2⟩
        else (ofAttributes attributes false).properties.find? (·.name == entry.1) := by
  apply List.filterMap_congr
  intro entry hentry
  split
  · rename_i hliteral
    rw [property?_of_literal true entry hliteral, if_pos rfl]
  · rename_i hliteral
    rw [property?_of_not_literal true entry hliteral]
    exact (find?_properties false attributes.nodup_names hentry).symm

end Properties

section Statics

theorem statics_ofAttributes (attributes : Attributes) :
    (ofAttributes attributes false).statics =
      sortByName (attributes.entries.filter fun entry => IsLiteral entry) := by
  simp only [ofAttributes, ofAttribute_eq_literal_iff, Bool.false_eq_true, if_false]

/-- The names of static attributes ascend, and none of them is repeated. -/
theorem pairwise_statics (attributes : Attributes) :
    (ofAttributes attributes false).statics.Pairwise fun entry later => entry.1 < later.1 := by
  rw [statics_ofAttributes]
  have hdeclared : ((attributes.entries.filter fun entry => IsLiteral entry).map Prod.fst).Nodup :=
    attributes.nodup_names.sublist (List.filter_sublist.map Prod.fst)
  have hdistinct := List.pairwise_map.mp
    (((sortByName_perm _).map Prod.fst).nodup_iff.mpr hdeclared)
  refine (hdistinct.and (ascending_sortByName _)).imp ?_
  rintro entry later ⟨hne, hle⟩
  exact String.not_le.mp fun hge => hne (String.le_antisymm hle hge)

end Statics

section Slots

/-- The parts of a classification that attributes are put into. -/
inductive Slot where
  | condition
  | iteration
  | skip
  | chained
  | statics
  | properties
deriving DecidableEq, Repr

/-- All slots. -/
def Slot.all : List Slot :=
  [.condition, .iteration, .skip, .chained, .statics, .properties]

/-- The names of the attributes in a slot. -/
def names (classified : Classified) : Slot → List String
  | .condition => classified.condition.toList.map fun _ => "if"
  | .iteration => classified.iteration.toList.map fun _ => "each"
  | .skip => classified.skip.toList.map fun _ => "skip"
  | .chained => classified.chained
  | .statics => classified.statics.map Prod.fst
  | .properties => classified.properties.map Property.name

/-- The slot of a directive. -/
def slotOfDirective : Directive → Slot
  | .condition => .condition
  | .iteration => .iteration
  | .skip => .skip
  | .chained => .chained

/-- The slot that an attribute belongs in. -/
def slotOf (noStatics : Bool) (entry : Attribute) : Slot :=
  match Directive.ofName? entry.1 with
  | some directive => slotOfDirective directive
  | none => if noStatics = false ∧ IsLiteral entry then .statics else .properties

theorem slotOf_eq_slotOfDirective_iff (noStatics : Bool) (entry : Attribute)
    (directive : Directive) :
    slotOf noStatics entry = slotOfDirective directive ↔
      Directive.ofName? entry.1 = some directive := by
  unfold slotOf
  cases Directive.ofName? entry.1 with
  | some found => cases found <;> cases directive <;> simp [slotOfDirective]
  | none =>
    dsimp only
    split <;> cases directive <;> simp [slotOfDirective]

theorem slotOf_eq_statics_iff (noStatics : Bool) (entry : Attribute) :
    slotOf noStatics entry = .statics ↔ noStatics = false ∧ IsLiteral entry := by
  unfold slotOf
  cases hfound : Directive.ofName? entry.1 with
  | some found =>
    have hdirective := (isDirective_iff entry).mpr ⟨found, hfound⟩
    cases found <;> simp [slotOfDirective, IsLiteral, hdirective]
  | none =>
    dsimp only
    split <;> simp_all

theorem slotOf_eq_properties_iff (noStatics : Bool) (entry : Attribute) :
    slotOf noStatics entry = .properties ↔
      ¬(IsDirective entry ∨ noStatics = false ∧ IsLiteral entry) := by
  unfold slotOf
  cases hfound : Directive.ofName? entry.1 with
  | some found =>
    have hdirective := (isDirective_iff entry).mpr ⟨found, hfound⟩
    cases found <;> simp [slotOfDirective, hdirective]
  | none =>
    have hplain : ¬IsDirective entry := (Directive.ofName?_eq_none_iff entry.1).mp hfound
    dsimp only
    split <;> simp_all

variable (attributes : Attributes) (noStatics : Bool)

theorem chained_eq :
    (ofAttributes attributes noStatics).chained =
      (attributes.entries.map Prod.fst).filter (· ∈ ["elseif", "else"]) := by
  simp only [ofAttributes, Directive.ofName?_eq_chained_iff, List.filter_map]
  rfl

/-- A directive that has one name only is the one attribute of that name. -/
theorem names_directive {directive : Directive} {name : String}
    (hname : directive.onlyName? = some name) :
    (directiveValue? directive attributes.entries).toList.map (fun _ => name) =
      (attributes.entries.filter fun entry => entry.1 == name).map Prod.fst := by
  have hfilter : (attributes.entries.filter fun entry => entry.1 == name).map Prod.fst =
      List.replicate ((attributes.entries.map Prod.fst).count name) name := by
    rw [← List.filter_beq, List.filter_map]
    rfl
  rw [hfilter, attributes.nodup_names.count, directiveValue?_eq_get? hname]
  by_cases hmem : name ∈ attributes.entries.map Prod.fst
  · obtain ⟨entry, hentry, rfl⟩ := List.mem_map.mp hmem
    have hfound : (attributes.get? entry.1).isSome := by
      rw [Attributes.get?, Option.isSome_map, List.find?_isSome]
      exact ⟨entry, hentry, beq_self_eq_true _⟩
    obtain ⟨value, hvalue⟩ := Option.isSome_iff_exists.mp hfound
    rw [hvalue, if_pos hmem]
    rfl
  · have hnone : attributes.get? name = none := by
      rw [Attributes.get?, Option.map_eq_none_iff, List.find?_eq_none]
      intro entry hentry hsame
      exact hmem (beq_iff_eq.mp hsame ▸ List.mem_map_of_mem hentry)
    rw [hnone, if_neg hmem]
    rfl

/-- A slot holds the attributes that belong in it. -/
theorem names_perm (slot : Slot) :
    ((ofAttributes attributes noStatics).names slot).Perm
      ((attributes.entries.filter fun entry => slotOf noStatics entry = slot).map Prod.fst) := by
  have hdirective {directive : Directive} {name : String}
      (hname : directive.onlyName? = some name) :
      (directiveValue? directive attributes.entries).toList.map (fun _ => name) =
        (attributes.entries.filter fun entry =>
          slotOf noStatics entry = slotOfDirective directive).map Prod.fst := by
    simp only [names_directive attributes hname, slotOf_eq_slotOfDirective_iff,
      Directive.ofName?_eq_some_iff hname]
    rfl
  cases slot with
  | condition => exact .of_eq (hdirective rfl)
  | iteration => exact .of_eq (hdirective rfl)
  | skip => exact .of_eq (hdirective rfl)
  | chained =>
    simp only [show Slot.chained = slotOfDirective .chained from rfl,
      slotOf_eq_slotOfDirective_iff]
    exact .refl _
  | statics =>
    simp only [slotOf_eq_statics_iff]
    cases noStatics with
    | true => simp [names, ofAttributes]
    | false =>
      simp only [names, statics_ofAttributes, true_and]
      exact (sortByName_perm _).map Prod.fst
  | properties =>
    simp only [slotOf_eq_properties_iff]
    exact .of_eq (names_properties noStatics attributes)

theorem perm_flatMap_filter {α β : Type} [DecidableEq β] (f : α → β) {keys : List β}
    (hkeys : keys.Nodup) {items : List α} (hitems : ∀ item ∈ items, f item ∈ keys) :
    (keys.flatMap fun key => items.filter fun item => f item = key).Perm items := by
  induction keys generalizing items with
  | nil =>
    cases items with
    | nil => exact .refl _
    | cons item items => cases hitems item List.mem_cons_self
  | cons key keys ih =>
    obtain ⟨hkey, hkeys⟩ := List.nodup_cons.mp hkeys
    have hothers : keys.flatMap (fun other => items.filter fun item => f item = other) =
        keys.flatMap fun other =>
          (items.filter fun item => !decide (f item = key)).filter fun item => f item = other := by
      apply List.flatMap_congr
      intro other hother
      rw [List.filter_filter]
      apply List.filter_congr
      intro item _
      by_cases hsame : f item = other
      · have hne : f item ≠ key := fun heq => hkey (heq ▸ hsame ▸ hother)
        simp [hsame, hsame ▸ hne]
      · simp [hsame]
    rw [List.flatMap_cons, hothers]
    refine List.Perm.trans (List.Perm.append_left _ (ih hkeys ?_))
      (List.filter_append_perm (fun item => decide (f item = key)) items)
    intro item hitem
    obtain ⟨hmem, hne⟩ := List.mem_filter.mp hitem
    obtain heq | hlater := List.mem_cons.mp (hitems item hmem)
    · simp [heq] at hne
    · exact hlater

/-- Every attribute is in one slot. -/
theorem names_all_perm :
    (Slot.all.flatMap (ofAttributes attributes noStatics).names).Perm
      (attributes.entries.map Prod.fst) := by
  have hall : ∀ entry ∈ attributes.entries, slotOf noStatics entry ∈ Slot.all := by
    intro entry _
    cases slotOf noStatics entry <;> decide
  have hslots := (perm_flatMap_filter (slotOf noStatics) (by decide) hall).map Prod.fst
  rw [List.map_flatMap] at hslots
  exact (List.Perm.flatMap_left _ fun slot _ => names_perm attributes noStatics slot).trans hslots

end Slots

/-- Every attribute is in one slot, and only once, since no name is repeated among the attributes.
    The three directives of one name have their values, and the chained directives and the
    properties are in the order of their declaration. The static attributes are the literals with
    their values, in ascending order of their names, or none if no attribute may be static. In that
    case the directives and the issues are the same, and the properties differ only in the literals,
    which stand among the others, quoted, at the places where they are declared. -/
theorem attributes_classified_once (attributes : Attributes) (noStatics : Bool) :
    let classified := ofAttributes attributes noStatics
    let plain := ofAttributes attributes false
    let dynamic := ofAttributes attributes true
    (Slot.all.flatMap classified.names).Perm (attributes.entries.map Prod.fst) ∧
    (classified.condition = attributes.get? "if" ∧ classified.iteration = attributes.get? "each" ∧
      classified.skip = attributes.get? "skip") ∧
    classified.chained = (attributes.entries.map Prod.fst).filter (· ∈ ["elseif", "else"]) ∧
    classified.properties.map Property.name =
      (attributes.entries.filter fun entry =>
        ¬(IsDirective entry ∨ noStatics = false ∧ IsLiteral entry)).map Prod.fst ∧
    (plain.statics.Perm (attributes.entries.filter fun entry => IsLiteral entry) ∧
      plain.statics.Pairwise (fun entry later => entry.1 < later.1) ∧ dynamic.statics = []) ∧
    (dynamic.condition = plain.condition ∧ dynamic.iteration = plain.iteration ∧
      dynamic.skip = plain.skip ∧ dynamic.chained = plain.chained ∧
      dynamic.issues = plain.issues) ∧
    dynamic.properties =
      attributes.entries.filterMap fun entry =>
        if IsLiteral entry then some ⟨entry.1, Script.quote entry.2⟩
        else plain.properties.find? (·.name == entry.1) := by
  intro classified plain dynamic
  have hliterals : plain.statics.Perm (attributes.entries.filter fun entry => IsLiteral entry) := by
    rw [statics_ofAttributes]
    exact sortByName_perm _
  exact ⟨names_all_perm attributes noStatics,
    ⟨directiveValue?_eq_get? rfl attributes, directiveValue?_eq_get? rfl attributes,
      directiveValue?_eq_get? rfl attributes⟩,
    chained_eq attributes noStatics, names_properties noStatics attributes,
    ⟨hliterals, pairwise_statics attributes, rfl⟩, ⟨rfl, rfl, rfl, rfl, rfl⟩,
    properties_merged attributes⟩

end Classified

end TemplateCompiler.Template
