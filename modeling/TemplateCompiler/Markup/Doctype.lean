import TemplateCompiler.Markup.Tag

namespace TemplateCompiler.Markup

/-- The text behind the first occurrence of `closer`. -/
def behind? (closer cs : List Char) : Option (List Char) :=
  (Text.splitOnce closer cs).map Prod.snd

theorem suffix_of_behind? {closer cs rest : List Char} (h : behind? closer cs = some rest) :
    rest <:+ cs := by
  obtain ⟨⟨before, behind⟩, hcut, hrest⟩ := Option.map_eq_some_iff.mp h
  simp only at hrest
  subst hrest
  exact ⟨before ++ closer, (Text.eq_append_of_splitOnce hcut).symm⟩

/-- The text behind the end of a tag. -/
def behindTag? (cs : List Char) : Option (List Char) :=
  match cutTag none cs with
  | .ok (_, behind) => some behind
  | .error _ => none

theorem suffix_of_behindTag? {cs rest : List Char} (h : behindTag? cs = some rest) :
    rest <:+ cs := by
  rw [behindTag?] at h
  split at h
  · rename_i content behind hcut
    cases h
    exact ⟨content ++ ['>'], by simpa using (eq_append_of_cutTag hcut).symm⟩
  · cases h

/-- The declarations of an internal subset in which quotes hide a `>`. -/
def quotedDeclarations : List (List Char) :=
  ["!ENTITY".toList, "!ATTLIST".toList, "!NOTATION".toList]

/-- The text behind a piece of markup in an internal subset, from behind its `<`. -/
def behindSubsetMarkup? (cs : List Char) : Option (List Char) :=
  match Text.dropPrefix? ['?'] cs with
  | some instruction => behind? "?>".toList instruction
  | none =>
    match Text.dropPrefix? "!--".toList cs with
    | some comment => behind? "-->".toList comment
    | none =>
      if quotedDeclarations.any (·.isPrefixOf cs) then behindTag? cs else behind? ['>'] cs

theorem suffix_of_behindSubsetMarkup? {cs rest : List Char}
    (h : behindSubsetMarkup? cs = some rest) : rest <:+ cs := by
  rw [behindSubsetMarkup?] at h
  split at h
  · rename_i instruction hopen
    have hcs := Text.dropPrefix?_eq_some_iff.mp hopen
    exact (suffix_of_behind? h).trans ⟨_, hcs.symm⟩
  · split at h
    · rename_i comment hopen
      have hcs := Text.dropPrefix?_eq_some_iff.mp hopen
      exact (suffix_of_behind? h).trans ⟨_, hcs.symm⟩
    · split at h
      · exact suffix_of_behindTag? h
      · exact suffix_of_behind? h

/-- The text behind the bracket that closes an internal subset. -/
def behindSubset? (cs : List Char) : Option (List Char) :=
  match cs with
  | [] => none
  | c :: rest =>
    if c = ']' then some rest
    else if c = '<' then
      match _hmarkup : behindSubsetMarkup? rest with
      | none => none
      | some behind => behindSubset? behind
    else behindSubset? rest
termination_by cs.length
decreasing_by
  · have hle := (suffix_of_behindSubsetMarkup? _hmarkup).length_le
    simp
    omega
  · simp

theorem suffix_of_behindSubset? {cs rest : List Char} (h : behindSubset? cs = some rest) :
    rest <:+ cs := by
  fun_induction behindSubset? cs with
  | case1 => cases h
  | case2 tail =>
    cases h
    exact List.suffix_cons ']' rest
  | case3 => cases h
  | case4 tail behind hmarkup _ ih =>
    exact ((ih h).trans (suffix_of_behindSubsetMarkup? hmarkup)).trans (List.suffix_cons '<' tail)
  | case5 c tail _ _ ih => exact (ih h).trans (List.suffix_cons c tail)

/-- The text behind a document type declaration, where `quote` is open at the start. -/
def behindDoctype? : Option Char → List Char → Option (List Char)
  | _, [] => none
  | quote, c :: cs =>
    if quote = none ∧ c = '>' then some cs
    else if quote = none ∧ c = '[' then (behindSubset? cs).bind (behind? ['>'])
    else behindDoctype? (nextQuote quote c) cs

theorem suffix_of_behindDoctype? {quote : Option Char} {cs rest : List Char}
    (h : behindDoctype? quote cs = some rest) : rest <:+ cs := by
  induction cs generalizing quote with
  | nil => simp [behindDoctype?] at h
  | cons c cs ih =>
    rw [behindDoctype?] at h
    split at h
    · cases h
      exact List.suffix_cons c rest
    · split at h
      · obtain ⟨behind, hsubset, hend⟩ := Option.bind_eq_some_iff.mp h
        exact ((suffix_of_behind? hend).trans (suffix_of_behindSubset? hsubset)).trans
          (List.suffix_cons c cs)
      · exact (ih h).trans (List.suffix_cons c cs)

end TemplateCompiler.Markup
