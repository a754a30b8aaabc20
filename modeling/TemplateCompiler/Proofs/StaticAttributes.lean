import TemplateCompiler.Proofs.QuotedTexts
import TemplateCompiler.Template.AttributeRole

namespace TemplateCompiler.Template

open Markup (Attribute)
open Script (quoteChars quoteChars_append_eq_iff withoutReturns)

section Sorting

theorem insertByName_perm (entry : Attribute) (entries : List Attribute) :
    (insertByName entry entries).Perm (entry :: entries) := by
  induction entries with
  | nil => exact List.Perm.refl _
  | cons other others ih =>
    rw [insertByName]
    split
    · exact (ih.cons other).trans (List.Perm.swap entry other others)
    · exact List.Perm.refl _

theorem sortByName_perm (entries : List Attribute) : (sortByName entries).Perm entries := by
  induction entries with
  | nil => exact List.Perm.refl _
  | cons entry entries ih => exact (insertByName_perm entry _).trans (ih.cons entry)

/-- Names do not descend. -/
def Ascending (entries : List Attribute) : Prop :=
  entries.Pairwise fun entry later => entry.1 ≤ later.1

theorem Ascending.insertByName {entries : List Attribute} (h : Ascending entries)
    (entry : Attribute) : Ascending (insertByName entry entries) := by
  induction entries with
  | nil => exact List.pairwise_singleton _ _
  | cons other others ih =>
    obtain ⟨hother, hothers⟩ := List.pairwise_cons.mp h
    rw [Template.insertByName]
    split
    · rename_i hlt
      refine List.pairwise_cons.mpr ⟨?_, ih hothers⟩
      intro later hlater
      obtain rfl | hlater := List.mem_cons.mp ((insertByName_perm entry others).mem_iff.mp hlater)
      · exact String.not_lt.mp (String.lt_asymm hlt)
      · exact hother later hlater
    · rename_i hge
      have hle : entry.1 ≤ other.1 := String.not_lt.mp hge
      refine List.pairwise_cons.mpr ⟨?_, h⟩
      intro later hlater
      obtain rfl | hlater := List.mem_cons.mp hlater
      · exact hle
      · exact String.le_trans hle (hother later hlater)

theorem ascending_sortByName (entries : List Attribute) : Ascending (sortByName entries) := by
  induction entries with
  | nil => exact List.Pairwise.nil
  | cons entry entries ih => exact ih.insertByName entry

theorem eq_of_mem_of_name_eq {entries : List Attribute} (hnames : (entries.map Prod.fst).Nodup)
    {entry other : Attribute} (hentry : entry ∈ entries) (hother : other ∈ entries)
    (hname : entry.1 = other.1) : entry = other := by
  induction entries with
  | nil => cases hentry
  | cons first entries ih =>
    obtain ⟨hfirst, hnames⟩ := List.nodup_cons.mp hnames
    have hnone {later : Attribute} (hlater : later ∈ entries) : later.1 ≠ first.1 := by
      intro heq
      exact hfirst (heq ▸ List.mem_map_of_mem hlater)
    rcases List.mem_cons.mp hentry with rfl | hlater <;>
      rcases List.mem_cons.mp hother with rfl | hlater'
    · rfl
    · exact (hnone hlater' hname.symm).elim
    · exact (hnone hlater hname).elim
    · exact ih hnames hlater hlater'

/-- Attributes with distinct names have one order in which the names ascend. -/
theorem sortByName_eq_of_perm {entries entries' : List Attribute}
    (hnames : (entries.map Prod.fst).Nodup) (hperm : entries.Perm entries') :
    sortByName entries = sortByName entries' := by
  have hsorted : (sortByName entries).Perm (sortByName entries') :=
    (sortByName_perm entries).trans (hperm.trans (sortByName_perm entries').symm)
  refine hsorted.eq_of_pairwise ?_ (ascending_sortByName entries) (ascending_sortByName entries')
  intro entry other hentry hother hle hge
  refine eq_of_mem_of_name_eq hnames ?_ ?_ (String.le_antisymm hle hge)
  · exact (sortByName_perm entries).mem_iff.mp hentry
  · exact hperm.mem_iff.mpr ((sortByName_perm entries').mem_iff.mp hother)

end Sorting

section Array

/-- The name and the value of an attribute without their carriage returns. -/
def attributeWithoutReturns (entry : Attribute) : List Char × List Char :=
  (withoutReturns entry.1.toList, withoutReturns entry.2.toList)

/-- The two elements that an attribute becomes in an array. -/
def arrayElements (entry : Attribute) : List Char :=
  quoteChars entry.1.toList ++ (", ".toList ++ quoteChars entry.2.toList)

/-- An array behind its first attribute. -/
def arrayTail (entries : List Attribute) : List Char :=
  entries.flatMap (fun entry => ", ".toList ++ arrayElements entry) ++ "]".toList

theorem toList_serializeStatics_cons (entry : Attribute) (entries : List Attribute) :
    (serializeStatics (entry :: entries)).toList =
      "[".toList ++ (arrayElements entry ++ arrayTail entries) := by
  let written (entry : Attribute) : String :=
    Script.quote entry.1 ++ ", " ++ Script.quote entry.2
  have hwritten (entry : Attribute) : (written entry).toList = arrayElements entry := by
    simp [written, arrayElements, Script.quote]
  have hjoined : (", ".intercalate ((entry :: entries).map written)).toList =
      arrayElements entry ++ entries.flatMap fun entry => ", ".toList ++ arrayElements entry := by
    induction entries generalizing entry with
    | nil => simp [hwritten]
    | cons next entries ih =>
      change (", ".intercalate (written entry :: written next :: entries.map written)).toList = _
      rw [String.intercalate_cons_cons, String.toList_append, String.toList_append, hwritten,
        List.flatMap_cons, List.append_assoc, List.append_assoc]
      exact congrArg (fun tail => arrayElements entry ++ (", ".toList ++ tail)) (ih next)
  change ("[" ++ ", ".intercalate ((entry :: entries).map written) ++ "]").toList = _
  rw [String.toList_append, String.toList_append, hjoined, arrayTail]
  simp only [List.append_assoc]

theorem arrayElements_append_eq_iff {entry entry' : Attribute} {rest rest' : List Char} :
    arrayElements entry ++ rest = arrayElements entry' ++ rest' ↔
      attributeWithoutReturns entry = attributeWithoutReturns entry' ∧ rest = rest' := by
  unfold arrayElements attributeWithoutReturns
  simp only [List.append_assoc, quoteChars_append_eq_iff, List.append_cancel_left_eq,
    Prod.mk.injEq, and_assoc]

theorem arrayTail_eq_iff {entries entries' : List Attribute} :
    arrayTail entries = arrayTail entries' ↔
      entries.map attributeWithoutReturns = entries'.map attributeWithoutReturns := by
  induction entries generalizing entries' with
  | nil =>
    cases entries' with
    | nil => simp
    | cons entry' entries' => simp [arrayTail]
  | cons entry entries ih =>
    cases entries' with
    | nil => simp [arrayTail]
    | cons entry' entries' =>
      have hcons (entry : Attribute) (entries : List Attribute) :
          arrayTail (entry :: entries) =
            ", ".toList ++ (arrayElements entry ++ arrayTail entries) := by
        simp only [arrayTail, List.flatMap_cons, List.append_assoc]
      rw [hcons, hcons, List.append_cancel_left_eq, arrayElements_append_eq_iff, ih, List.map_cons,
        List.map_cons, List.cons.injEq]

/-- The text of an array gives its attributes away, up to carriage returns. -/
theorem serializeStatics_eq_iff {entries entries' : List Attribute} :
    serializeStatics entries = serializeStatics entries' ↔
      entries.map attributeWithoutReturns = entries'.map attributeWithoutReturns := by
  rw [← String.toList_inj]
  cases entries with
  | nil =>
    cases entries' with
    | nil => simp
    | cons entry' entries' =>
      rw [toList_serializeStatics_cons]
      simp [serializeStatics, arrayElements, quoteChars]
  | cons entry entries =>
    rw [toList_serializeStatics_cons]
    cases entries' with
    | nil => simp [serializeStatics, arrayElements, quoteChars]
    | cons entry' entries' =>
      rw [toList_serializeStatics_cons, List.append_cancel_left_eq, arrayElements_append_eq_iff,
        arrayTail_eq_iff, List.map_cons, List.map_cons, List.cons.injEq]

end Array

end TemplateCompiler.Template
