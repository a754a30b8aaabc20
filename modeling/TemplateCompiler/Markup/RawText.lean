import TemplateCompiler.Text.Case
import TemplateCompiler.Text.Search

namespace TemplateCompiler.Markup

/-- Whether a character may follow the name in the end tag of a raw text element: `>` or white space
    of ASCII. -/
def endsRawName (c : Char) : Bool :=
  c == '>' || c == ' ' || c == '\t' || c == '\n' || c == '\x0C' || c == '\r'

/-- What opens the end tag of an element, in lower case. -/
def endTagOpening (name : String) : List Char :=
  '<' :: '/' :: Text.lower name.toList

/-- The text up to the first end tag that starts with `opening`, in upper or lower case, and the
    text behind that end tag. -/
def cutRawText (opening cs : List Char) : Option (List Char × List Char) :=
  match _hfound : Text.splitOnce opening (Text.lower cs) with
  | none => none
  | some (before, _) =>
    let behind := cs.drop (before.length + opening.length)
    if behind.head?.any endsRawName then
      (Text.splitOnce ['>'] behind).map fun (_, rest) => (cs.take before.length, rest)
    else if _hopening : opening = [] then none
    else
      (cutRawText opening behind).map fun (content, rest) =>
        (cs.take (before.length + opening.length) ++ content, rest)
termination_by cs.length
decreasing_by
  have hlength := Text.length_behind_splitOnce _hfound
  have hpos := List.length_pos_iff.mpr _hopening
  simp at hlength ⊢
  omega

theorem length_behind_cutRawText {opening cs content rest : List Char}
    (h : cutRawText opening cs = some (content, rest)) : rest.length < cs.length := by
  fun_induction cutRawText opening cs generalizing content with
  | case1 => cases h
  | case2 cs before _ _ behind =>
    obtain ⟨⟨tag, rest'⟩, hcut, hpair⟩ := Option.map_eq_some_iff.mp h
    cases hpair
    have hlength := Text.length_behind_splitOnce hcut
    have hdrop : behind.length ≤ cs.length := by simp [behind]
    simp at hlength
    omega
  | case3 => cases h
  | case4 cs before _ _ behind _ _ =>
    rename_i ih
    obtain ⟨⟨content', rest'⟩, hcut, hpair⟩ := Option.map_eq_some_iff.mp h
    cases hpair
    have hlength := ih hcut
    have hdrop : behind.length ≤ cs.length := by simp [behind]
    omega

end TemplateCompiler.Markup
