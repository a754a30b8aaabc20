import TemplateCompiler.Markup.Tag

namespace TemplateCompiler.Markup

/-- What a `<` turns out to be: stray, the start of markup without an end, or the start of the given
    piece of markup with the text behind it. -/
inductive AngleUse where
  | stray
  | unfinished
  | markup (piece behind : List Char)
deriving DecidableEq, Repr

/-- The markup up to and with the first occurrence of `closer`. -/
def AngleUse.upTo (closer cs : List Char) : AngleUse :=
  match Text.splitOnce closer cs with
  | some (before, behind) => markup (before ++ closer) behind
  | none => unfinished

/-- The markup up to the end of a tag. -/
def AngleUse.upToTagEnd (cs : List Char) : AngleUse :=
  match cutTag none cs with
  | .ok (content, behind) => markup (content ++ ['>']) behind
  | .error _ => unfinished

/-- What a `<` is, by the text behind it. -/
def AngleUse.of (cs : List Char) : AngleUse :=
  match cs with
  | [] => stray
  | c :: _ =>
    if c.isAlpha ∨ c = '/' ∨ c = '?' then upToTagEnd cs
    else if c ≠ '!' then stray
    else if "!--".toList.isPrefixOf cs then upTo "-->".toList cs
    else if "![CDATA[".toList.isPrefixOf cs then upTo "]]>".toList cs
    else upToTagEnd cs

theorem AngleUse.eq_append_of_of {cs piece behind : List Char}
    (h : AngleUse.of cs = .markup piece behind) : cs = piece ++ behind := by
  have htag : upToTagEnd cs = .markup piece behind → cs = piece ++ behind := by
    intro htag
    rw [upToTagEnd] at htag
    split at htag
    · rename_i content rest hcut
      cases htag
      simpa using eq_append_of_cutTag hcut
    · cases htag
  have hupTo : ∀ closer, upTo closer cs = .markup piece behind → cs = piece ++ behind := by
    intro closer hupTo
    rw [upTo] at hupTo
    split at hupTo
    · rename_i before rest hcut
      cases hupTo
      exact Text.eq_append_of_splitOnce hcut
    · cases hupTo
  rw [AngleUse.of.eq_def] at h
  split at h
  · cases h
  · split at h
    · exact htag h
    · split at h
      · cases h
      · split at h
        · exact hupTo _ h
        · split at h
          · exact hupTo _ h
          · exact htag h

/-- The texts before and behind the first stray angle. A text with unfinished markup before it has
    none. -/
def splitAtStray (cs : List Char) : Option (List Char × List Char) :=
  match _hangle : Text.splitOnce ['<'] cs with
  | none => none
  | some (before, rest) =>
    match _huse : AngleUse.of rest with
    | .stray => some (before, rest)
    | .unfinished => none
    | .markup piece behind =>
      (splitAtStray behind).map fun (slice, beyond) => (before ++ '<' :: piece ++ slice, beyond)
termination_by cs.length
decreasing_by
  have hangle := Text.length_behind_splitOnce _hangle
  have hpiece := congrArg List.length (AngleUse.eq_append_of_of _huse)
  simp at hangle hpiece
  omega

theorem eq_append_of_splitAtStray {cs slice beyond : List Char}
    (h : splitAtStray cs = some (slice, beyond)) : cs = slice ++ '<' :: beyond := by
  fun_induction splitAtStray cs generalizing slice with
  | case1 => cases h
  | case2 cs before rest hangle =>
    cases h
    simpa using Text.eq_append_of_splitOnce hangle
  | case3 => cases h
  | case4 cs before rest hangle piece behind huse ih =>
    obtain ⟨⟨slice', beyond'⟩, hcut, hpair⟩ := Option.map_eq_some_iff.mp h
    cases hpair
    have hrest := AngleUse.eq_append_of_of huse
    have hbehind := ih hcut
    have hcs := Text.eq_append_of_splitOnce hangle
    simp [hcs, hrest, hbehind]

end TemplateCompiler.Markup
