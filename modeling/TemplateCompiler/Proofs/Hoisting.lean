import Mathlib.Data.List.Flatten
import TemplateCompiler.Proofs.Prologue

namespace TemplateCompiler.Script.Listing

/-- The pieces of script are written in the order in which they are listed. -/
theorem texts_map_write_sublist (listing : Listing) :
    (listing.texts.map Step.write).Sublist listing.steps := by
  obtain ⟨steps⟩ := listing
  change ((steps.filterMap Step.text?).map Step.write).Sublist steps
  induction steps with
  | nil => exact List.Sublist.refl _
  | cons step steps ih =>
    cases step with
    | indent | dedent => exact ih.cons _
    | write text => exact ih.cons_cons _

end TemplateCompiler.Script.Listing

namespace TemplateCompiler.Template

open Markup (Attribute Event)
open Script (Listing)

namespace Rendering

variable (setting : Setting) (rendering : Rendering)

/-- The call that opens an element. -/
def call : String :=
  Script.Call.elementOpen rendering.name ((rendering.key setting).map ElementKey.expression)
    (rendering.identifier setting) (rendering.classified setting).properties

/-- The static attributes of an element in the order of their names. -/
def statics : List Attribute :=
  sortByName (rendering.literals setting)

theorem nodup_literals : ((rendering.literals setting).map Prod.fst).Nodup := by
  unfold literals
  split
  · exact List.nodup_nil
  · exact (rendering.attributes.erase "key").nodup_names.sublist (List.filter_sublist.map Prod.fst)

theorem array?_of_statics {setting : Setting} {rendering : Rendering}
    (hstatics : rendering.statics setting ≠ []) :
    rendering.array? setting = some (serializeStatics (rendering.statics setting)) := by
  rw [array?, if_neg (mt sortByName_eq_nil_iff.mpr hstatics)]
  rfl

end Rendering

namespace Session

variable (setting : Setting) {events : List Event}

/-- The calls of all elements are written, in document order. -/
theorem calls_sublist (events : List Event) (size : Nat) :
    ((start.renderings setting events).map fun element =>
      Script.Step.write (element.call setting)).Sublist
        ((start.feedAll setting events).finish size).listing.steps := by
  have hcalls : (start.renderings setting events).map (Rendering.call setting) =
      ((wholeScript setting events).filter Phrase.isElementStart).flatMap Phrase.texts := by
    rw [filter_wholeScript, List.flatMap_map, ← List.flatMap_singleton' (List.map _ _),
      List.flatMap_map]
    rfl
  have htexts : ((start.renderings setting events).map (Rendering.call setting)).Sublist
      ((start.feedAll setting events).finish size).listing.texts := by
    rw [hcalls, listing_finish, Phrase.texts_foldl_write]
    exact List.filter_sublist.flatMap _
  have hwritten := htexts.map Script.Step.write
  rw [List.map_map] at hwritten
  exact hwritten.trans (Listing.texts_map_write_sublist _)

/-- The array of an element is declared in the end, and its call names it. -/
theorem declared_of_mem_renderings {rendering : Rendering}
    (hmem : rendering ∈ start.renderings setting events)
    (hstatics : rendering.statics setting ≠ []) :
    let array := serializeStatics (rendering.statics setting)
    let pool := (start.feedAll setting events).pool
    array ∈ pool.statics ∧ rendering.identifier setting = some (pool.identifierOf array) := by
  intro array pool
  have harray : rendering.array? setting = some array := Rendering.array?_of_statics hstatics
  refine ⟨array_mem_statics setting hmem harray, ?_⟩
  rw [identifier_of_mem_renderings setting start hmem, harray]
  rfl

end Session

end TemplateCompiler.Template

namespace TemplateCompiler

open Markup (Event)
open Template (HoistPool IdSource Rendering Session Setting attributeWithoutReturns
  serializeStatics serializeStatics_eq_iff sortByName_eq_of_perm)

/-- In a compile of any events, the calls that open the elements are all written, and every element
with static attributes names a declared array of just these. Two such elements name the same array
if and only if their static attributes in the order of the names differ in carriage returns at most.
So the order of declaration does not matter, and no value makes different attributes share an array. -/
theorem identifier_eq_iff_statics_eq (options : Options) (ids : IdSource) (size : Nat)
    (events : List Event) :
    let setting : Setting := ⟨ids, options.noStatics⟩
    let run := runSession options ids size events
    let elements := Session.start.renderings setting events
    (elements.map fun element => Script.Step.write (element.call setting)).Sublist
        run.listing.steps ∧
      (∀ element ∈ elements, element.statics setting ≠ [] →
        ∃ index, element.identifier setting = some (HoistPool.identifier index) ∧
          run.pool.statics[index]? = some (serializeStatics (element.statics setting))) ∧
      ∀ first ∈ elements, ∀ second ∈ elements,
        first.statics setting ≠ [] → second.statics setting ≠ [] →
        (first.identifier setting = second.identifier setting ↔
          (first.statics setting).map attributeWithoutReturns =
            (second.statics setting).map attributeWithoutReturns) ∧
        ((first.literals setting).Perm (second.literals setting) →
          first.identifier setting = second.identifier setting) := by
  intro setting run elements
  have hpool : run.pool = (Session.start.feedAll setting events).pool :=
    pool_runSession options ids size events
  refine ⟨Session.calls_sublist setting events size, ?_, ?_⟩
  · intro element helement hstatics
    obtain ⟨hdeclared, hidentifier⟩ :=
      Session.declared_of_mem_renderings setting helement hstatics
    refine ⟨_, hidentifier, ?_⟩
    rw [hpool, List.getElem?_idxOf hdeclared]
  · intro first hfirst second hsecond hstatics hstatics'
    obtain ⟨hdeclared, hidentifier⟩ :=
      Session.declared_of_mem_renderings setting hfirst hstatics
    obtain ⟨-, hidentifier'⟩ := Session.declared_of_mem_renderings setting hsecond hstatics'
    have hiff : first.identifier setting = second.identifier setting ↔
        (first.statics setting).map attributeWithoutReturns =
          (second.statics setting).map attributeWithoutReturns := by
      rw [hidentifier, hidentifier', Option.some.injEq,
        HoistPool.identifierOf_eq_iff_of_mem hdeclared, serializeStatics_eq_iff]
    refine ⟨hiff, ?_⟩
    intro hperm
    rw [hiff, Rendering.statics, Rendering.statics,
      sortByName_eq_of_perm (first.nodup_literals setting) hperm]

/-- Two elements that declare the same attributes in different orders, and one whose only value has
the quotes and the separator of their array. -/
theorem identifier_eq_iff_statics_eq_separators :
    let ids := IdSource.sequential "k"
    let setting : Setting := ⟨ids, false⟩
    let opened (literals : List Markup.Attribute) :=
      Event.opened "p" (Markup.Attributes.ofList literals) (Markup.Span.point 0)
    let elements := Session.start.renderings setting
      [opened [("class", "x"), ("id", "1")], opened [("id", "1"), ("class", "x")],
        opened [("class", "x\", \"id\", \"1")]]
    ∃ first second third, elements = [first, second, third] ∧
      first.statics setting ≠ [] ∧ second.statics setting ≠ [] ∧ third.statics setting ≠ [] ∧
      first.identifier setting = second.identifier setting ∧
      first.identifier setting ≠ third.identifier setting := by
  intro ids setting opened elements
  obtain ⟨-, -, hpairs⟩ := identifier_eq_iff_statics_eq {} ids 0
    [opened [("class", "x"), ("id", "1")], opened [("id", "1"), ("class", "x")],
      opened [("class", "x\", \"id\", \"1")]]
  change ∀ first ∈ elements, ∀ second ∈ elements, _ at hpairs
  have hliterals : elements.map (Rendering.literals setting) =
      [[("class", "x"), ("id", "1")], [("id", "1"), ("class", "x")],
        [("class", "x\", \"id\", \"1")]] := by
    decide +kernel
  have hlength : elements.length = 3 := by
    rw [← List.length_map (Rendering.literals setting), hliterals]
    rfl
  obtain ⟨first, second, third, helements⟩ := List.length_eq_three.mp hlength
  rw [helements] at hliterals hpairs
  simp only [List.map_cons, List.map_nil, List.cons.injEq, and_true] at hliterals
  obtain ⟨hfirst, hsecond, hthird⟩ := hliterals
  have hstatics : first.statics setting ≠ [] := by
    rw [Rendering.statics, hfirst]
    decide +kernel
  have hstatics' : second.statics setting ≠ [] := by
    rw [Rendering.statics, hsecond]
    decide +kernel
  have hstatics'' : third.statics setting ≠ [] := by
    rw [Rendering.statics, hthird]
    decide +kernel
  refine ⟨first, second, third, helements, hstatics, hstatics', hstatics'', ?_, ?_⟩
  · refine (hpairs first (by simp) second (by simp) hstatics hstatics').2 ?_
    rw [hfirst, hsecond]
    exact List.Perm.swap _ _ _
  · rw [ne_eq, (hpairs first (by simp) third (by simp) hstatics hstatics'').1, Rendering.statics,
      Rendering.statics, hfirst, hthird]
    decide +kernel

end TemplateCompiler
