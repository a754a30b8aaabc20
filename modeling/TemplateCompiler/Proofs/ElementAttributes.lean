import TemplateCompiler.Proofs.FirstOccurrence
import TemplateCompiler.Template.AttributeRole
import TemplateCompiler.Template.TagKind

namespace TemplateCompiler.Markup.Attributes

theorem erase_erase (attributes : Attributes) (first second : String) :
    (attributes.erase first).erase second = (attributes.erase second).erase first := by
  simp only [erase, List.filter_filter, Bool.and_comm]

theorem get?_erase_of_ne (attributes : Attributes) {erased name : String} (hne : name ≠ erased) :
    (attributes.erase erased).get? name = attributes.get? name := by
  unfold get? erase
  rw [List.find?_filter]
  congr 2
  funext entry
  by_cases hname : entry.1 = name <;> simp [hname, hne]

theorem contains_erase_of_ne (attributes : Attributes) {erased name : String}
    (hne : name ≠ erased) : (attributes.erase erased).contains name = attributes.contains name := by
  unfold contains erase
  rw [List.any_filter]
  congr 1
  funext entry
  by_cases hname : entry.1 = name <;> simp [hname, hne]

section Entries

variable (attributes : Attributes) {erased : String}

theorem filter_entries_erase {keep : Attribute → Bool}
    (hkeep : ∀ entry, keep entry → entry.1 ≠ erased) :
    (attributes.erase erased).entries.filter keep = attributes.entries.filter keep := by
  unfold erase
  rw [List.filter_filter]
  apply List.filter_congr
  intro entry _
  cases hkept : keep entry with
  | false => rfl
  | true => simpa using hkeep entry hkept

theorem filterMap_entries_erase {α : Type} {f : Attribute → Option α}
    (hf : ∀ entry, entry.1 = erased → f entry = none) :
    (attributes.erase erased).entries.filterMap f = attributes.entries.filterMap f := by
  unfold erase
  rw [List.filterMap_filter]
  congr 1
  funext entry
  by_cases hentry : entry.1 = erased
  · simp [hentry, hf]
  · simp [hentry]

theorem flatMap_entries_erase {α : Type} {f : Attribute → List α}
    (hf : ∀ entry, entry.1 = erased → f entry = []) :
    (attributes.erase erased).entries.flatMap f = attributes.entries.flatMap f := by
  change (attributes.entries.filter (·.1 != erased)).flatMap f = _
  induction attributes.entries with
  | nil => rfl
  | cons entry entries ih =>
    by_cases hentry : entry.1 = erased
    · simpa [hentry, hf] using ih
    · simpa [hentry] using ih

end Entries

end TemplateCompiler.Markup.Attributes

namespace TemplateCompiler.Template

open Markup (Attribute Attributes)

theorem unwrapBraces?_eq_some_iff {value inner : List Char} :
    unwrapBraces? value = some inner ↔ value = '\x7b' :: (inner ++ ['\x7d']) ∧ '\x7d' ∉ inner := by
  have hcut (rest : List Char) : Text.splitOnce ['\x7d'] rest = some (inner, []) ↔
      rest = inner ++ ['\x7d'] ∧ '\x7d' ∉ inner := Text.splitOnce_singleton_eq_some_iff
  rw [unwrapBraces?.eq_def]
  split
  · rename_i rest
    simp only [List.cons.injEq, true_and, ← hcut rest]
    split
    · rename_i inner' hinner
      simp [hinner]
    · rename_i hother
      constructor
      · intro h
        cases h
      · intro h
        exact (hother inner h).elim
  · rename_i hother
    constructor
    · intro h
      cases h
    · rintro ⟨rfl, -⟩
      exact (hother _ rfl).elim

theorem Directive.ofName?_eq_none_iff (name : String) :
    Directive.ofName? name = none ↔ name ∉ ["if", "each", "skip", "elseif", "else"] := by
  grind [Directive.ofName?]

theorem Directive.ofName?_eq_chained_iff (name : String) :
    Directive.ofName? name = some .chained ↔ name ∈ ["elseif", "else"] := by
  grind [Directive.ofName?]

/-- The name of a directive that has one name only. -/
def Directive.onlyName? : Directive → Option String
  | condition => some "if"
  | iteration => some "each"
  | skip => some "skip"
  | chained => none

section OnlyName

variable {name : String} {directive : Directive} (hname : directive.onlyName? = some name)

include hname

theorem Directive.ofName?_eq_some_iff (other : String) :
    ofName? other = some directive ↔ other = name := by
  cases directive <;> simp only [onlyName?, Option.some.injEq, reduceCtorEq] at hname <;>
    grind [ofName?]

/-- Without the attribute of a directive a tag is of the same kind. -/
theorem TagKind.of_erase (tag : String) (attributes : Attributes) :
    TagKind.of tag (attributes.erase name) = TagKind.of tag attributes := by
  have hne (other : String) (hother : Directive.ofName? other = none) : other ≠ name := by
    intro hsame
    rw [(Directive.ofName?_eq_some_iff hname other).mpr hsame] at hother
    cases hother
  simp only [TagKind.of, Attributes.contains_erase_of_ne attributes (hne "type" rfl),
    Attributes.contains_erase_of_ne attributes (hne "name" rfl),
    Attributes.contains_erase_of_ne attributes (hne "args" rfl)]

namespace Classified

/-- The value of a directive that has one name only. -/
def value? (classified : Classified) : Directive → Option String
  | .condition => classified.condition
  | .iteration => classified.iteration
  | .skip => classified.skip
  | .chained => none

/-- The attributes of an element without one of its directives. -/
def without (classified : Classified) : Directive → Classified
  | .condition => { classified with condition := none }
  | .iteration => { classified with iteration := none }
  | .skip => { classified with skip := none }
  | .chained => classified

theorem directiveValue?_eq_get? (attributes : Attributes) :
    directiveValue? directive attributes.entries = attributes.get? name := by
  unfold directiveValue? Attributes.get?
  congr 2
  funext entry
  simp [Directive.ofName?_eq_some_iff hname, BEq.beq]

theorem directiveValue?_erase (attributes : Attributes) (other : Directive) :
    directiveValue? other (attributes.erase name).entries =
      if other = directive then none else directiveValue? other attributes.entries := by
  have hdirective := (Directive.ofName?_eq_some_iff hname name).mpr rfl
  unfold directiveValue? Attributes.erase
  rw [List.find?_filter]
  split
  · rename_i hother
    subst hother
    rw [Option.map_eq_none_iff, List.find?_eq_none]
    intro entry _
    simp [Directive.ofName?_eq_some_iff hname]
  · rename_i hother
    congr 2
    funext entry
    by_cases hentry : entry.1 = name
    · simp [hentry, hdirective, Ne.symm hother]
    · simp [hentry]

theorem ofAttribute_of_directive (entry : Attribute) (hentry : entry.1 = name) :
    AttributeRole.ofAttribute entry = .directive directive := by
  simp only [AttributeRole.ofAttribute, hentry, (Directive.ofName?_eq_some_iff hname name).mpr rfl]

/-- The value of a directive is the value of its attribute. -/
theorem value?_ofAttributes (attributes : Attributes) (noStatics : Bool) :
    (ofAttributes attributes noStatics).value? directive = attributes.get? name := by
  have hvalue := directiveValue?_eq_get? hname attributes
  cases directive with
  | condition | iteration | skip => exact hvalue
  | chained => cases hname

/-- The directive itself is the only thing lost with its attribute. -/
theorem ofAttributes_erase (attributes : Attributes) (noStatics : Bool) :
    ofAttributes (attributes.erase name) noStatics =
      (ofAttributes attributes noStatics).without directive := by
  have hdirective := (Directive.ofName?_eq_some_iff hname name).mpr rfl
  have hrole := ofAttribute_of_directive hname
  have hchained : directive ≠ .chained := by
    rintro rfl
    cases hname
  unfold ofAttributes without
  rw [attributes.filter_entries_erase, attributes.filter_entries_erase,
    attributes.filterMap_entries_erase, attributes.flatMap_entries_erase]
  · simp only [directiveValue?_erase hname]
    cases directive <;> simp_all
  · intro entry hentry
    simp [attributeIssues, hrole entry hentry]
  · intro entry hentry
    simp [property?, hrole entry hentry]
  · intro entry hliteral hentry
    simp [hrole entry hentry] at hliteral
  · intro entry hentry hsame
    simp only [hsame, hdirective, decide_eq_true_eq, Option.some.injEq] at hentry
    exact hchained hentry

end Classified

end OnlyName

end TemplateCompiler.Template
