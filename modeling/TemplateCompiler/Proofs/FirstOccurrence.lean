import Mathlib.Data.List.Infix
import TemplateCompiler.Text.Search

namespace TemplateCompiler.Text

theorem dropPrefix?_eq_none_iff {pattern cs : List Char} :
    dropPrefix? pattern cs = none ↔ ¬pattern <+: cs := by
  rw [Option.eq_none_iff_forall_ne_some]
  constructor
  · rintro hnone ⟨rest, hrest⟩
    exact hnone rest (dropPrefix?_eq_some_iff.mpr hrest.symm)
  · intro hleads rest hrest
    exact hleads ⟨rest, (dropPrefix?_eq_some_iff.mp hrest).symm⟩

theorem dropPrefix?_eq_none {pattern cs : List Char} (h : pattern.isPrefixOf cs = false) :
    dropPrefix? pattern cs = none := by
  rw [dropPrefix?_eq_none_iff, ← List.isPrefixOf_iff_prefix, h]
  exact Bool.false_ne_true

/-- A text is cut unless the pattern is nowhere in it. -/
theorem splitOnce_eq_none_iff {pattern cs : List Char} (hpattern : pattern ≠ []) :
    splitOnce pattern cs = none ↔ ¬pattern <:+: cs := by
  induction cs with
  | nil => simp [splitOnce, hpattern]
  | cons c cs ih =>
    rw [List.infix_cons_iff, not_or, ← ih, ← dropPrefix?_eq_none_iff, splitOnce]
    split
    · rename_i behind hleads
      simp [hleads]
    · rename_i hmiss
      simp [hmiss]

/-- Wherever else the pattern stands, it stands behind the place where a text is cut. -/
theorem suffix_of_splitOnce {pattern cs before behind later : List Char}
    (h : splitOnce pattern cs = some (before, behind)) (hlater : later <:+ cs)
    (hleads : pattern <+: later) : later <:+ pattern ++ behind := by
  induction cs generalizing before with
  | nil => cases h
  | cons c cs ih =>
    rw [splitOnce] at h
    split at h
    · rename_i found hfound
      cases h
      rw [← dropPrefix?_eq_some_iff.mp hfound]
      exact hlater
    · rename_i hmiss
      obtain ⟨⟨before', behind'⟩, hcut, hpair⟩ := Option.map_eq_some_iff.mp h
      cases hpair
      obtain rfl | hlater := List.suffix_cons_iff.mp hlater
      · exact (dropPrefix?_eq_none_iff.mp hmiss hleads).elim
      · exact ih hcut hlater

/-- A text is cut where the pattern stands and does not end any earlier. -/
theorem splitOnce_eq_some_iff {pattern cs before behind : List Char} (hpattern : pattern ≠ []) :
    splitOnce pattern cs = some (before, behind) ↔
      cs = before ++ pattern ++ behind ∧ ¬pattern <:+: before ++ pattern.dropLast := by
  constructor
  · intro h
    have hcs := eq_append_of_splitOnce h
    refine ⟨hcs, ?_⟩
    rintro ⟨front, part, hpart⟩
    have hlater : pattern ++ (part ++ pattern.getLast hpattern :: behind) <:+ cs := by
      refine ⟨front, ?_⟩
      calc front ++ (pattern ++ (part ++ pattern.getLast hpattern :: behind))
          = before ++ (pattern.dropLast ++ [pattern.getLast hpattern]) ++ behind := by
            rw [← List.append_assoc, ← List.append_assoc, hpart]
            simp
        _ = cs := by rw [List.dropLast_concat_getLast, hcs]
    have hlength := (suffix_of_splitOnce h hlater (List.prefix_append _ _)).length_le
    simp only [List.length_append, List.length_cons] at hlength
    omega
  · rintro ⟨hcs, hfirst⟩
    have hlater : pattern ++ behind <:+ cs := by
      rw [hcs, List.append_assoc]
      exact List.suffix_append _ _
    cases hcut : splitOnce pattern cs with
    | none =>
      refine ((splitOnce_eq_none_iff hpattern).mp hcut ?_).elim
      exact (List.prefix_append _ _).isInfix.trans hlater.isInfix
    | some cut =>
      have hcut' : cs = cut.1 ++ pattern ++ cut.2 := eq_append_of_splitOnce hcut
      have hlength := (suffix_of_splitOnce hcut hlater (List.prefix_append _ _)).length_le
      have hsame := congrArg List.length (hcut'.symm.trans hcs)
      simp only [List.length_append] at hlength hsame
      by_cases hearlier : cut.1.length < before.length
      · -- The pattern at an earlier place ends before its last character at the later one.
        have hends : cut.1 ++ pattern <+: before ++ pattern.dropLast := by
          refine List.prefix_of_prefix_length_le (hcut' ▸ List.prefix_append _ _) ?_ ?_
          · rw [hcs]
            exact ((List.prefix_append_right_inj before).mpr (List.dropLast_prefix _)).trans
              (List.prefix_append _ _)
          · simp only [List.length_append, List.length_dropLast]
            omega
        exact (hfirst ((List.suffix_append _ _).isInfix.trans hends.isInfix)).elim
      · obtain ⟨hbefore, hbehind⟩ := List.append_inj
          (by simpa only [List.append_assoc] using hcut'.symm.trans hcs) (by omega)
        rw [← hbefore, ← List.append_cancel_left hbehind]

theorem splitOnce_singleton_eq_some_iff {c : Char} {cs before behind : List Char} :
    splitOnce [c] cs = some (before, behind) ↔ cs = before ++ c :: behind ∧ c ∉ before := by
  rw [splitOnce_eq_some_iff (List.cons_ne_nil c []), List.append_assoc, List.singleton_append,
    List.dropLast_singleton, List.append_nil, List.singleton_infix_iff]

theorem splitOnce_singleton_eq_none_iff {c : Char} {cs : List Char} :
    splitOnce [c] cs = none ↔ c ∉ cs := by
  rw [splitOnce_eq_none_iff (List.cons_ne_nil c []), List.singleton_infix_iff]

theorem splitOnce_cons {pattern cs before behind : List Char} {c : Char}
    (hmiss : dropPrefix? pattern (c :: cs) = none)
    (h : splitOnce pattern cs = some (before, behind)) :
    splitOnce pattern (c :: cs) = some (c :: before, behind) := by
  rw [splitOnce, hmiss, h]
  rfl

theorem splitOnce_append {pattern cs before behind : List Char}
    (h : splitOnce pattern cs = some (before, behind)) (more : List Char) :
    splitOnce pattern (cs ++ more) = some (before, behind ++ more) := by
  cases pattern with
  | nil =>
    cases cs with
    | nil => cases h
    | cons c cs =>
      cases h
      rfl
  | cons p ps =>
    obtain ⟨hcs, hfirst⟩ := (splitOnce_eq_some_iff (List.cons_ne_nil p ps)).mp h
    refine (splitOnce_eq_some_iff (List.cons_ne_nil p ps)).mpr ⟨?_, hfirst⟩
    rw [hcs, List.append_assoc]

theorem eq_false_of_mem_splitOnP {isSeparator : Char → Bool} {cs piece : List Char}
    (hpiece : piece ∈ cs.splitOnP isSeparator) : ∀ c ∈ piece, isSeparator c = false := by
  induction cs generalizing piece with
  | nil =>
    rw [List.splitOnP_nil, List.mem_singleton] at hpiece
    simp [hpiece]
  | cons d cs ih =>
    rw [List.splitOnP_cons_eq_if_modifyHead] at hpiece
    split at hpiece
    · obtain rfl | hpiece := List.mem_cons.mp hpiece
      · exact List.forall_mem_nil _
      · exact ih hpiece
    · rename_i hd
      obtain ⟨first, later, hsplit⟩ :=
        List.exists_cons_of_ne_nil (List.splitOnP_ne_nil isSeparator cs)
      rw [hsplit, List.modifyHead_cons, List.mem_cons] at hpiece
      obtain rfl | hpiece := hpiece
      · have hfirst := ih (hsplit ▸ List.mem_cons_self)
        exact List.forall_mem_cons.mpr ⟨Bool.eq_false_iff.mpr hd, hfirst⟩
      · exact ih (hsplit ▸ List.mem_cons_of_mem first hpiece)

end TemplateCompiler.Text
