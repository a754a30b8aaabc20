import TemplateCompiler.Text.Search

namespace TemplateCompiler.Markup

/-- Whether a character is one of the two quotes. -/
def isQuote (c : Char) : Bool :=
  c == '"' || c == '\''

/-- The quote that is open behind a character, from the one that is open before it. -/
def nextQuote (quote : Option Char) (c : Char) : Option Char :=
  match quote with
  | none => if isQuote c then some c else none
  | some opened => if c = opened then none else some opened

/-- Cuts a text at the first `>` outside quotes, where `quote` is open at its start. Without such a
    `>` the answer is the quote that is open at the end. -/
def cutTag : Option Char → List Char → Except (Option Char) (List Char × List Char)
  | quote, [] => .error quote
  | quote, c :: cs =>
    if quote = none ∧ c = '>' then .ok ([], cs)
    else (cutTag (nextQuote quote c) cs).map fun (content, behind) => (c :: content, behind)

theorem eq_append_of_cutTag {quote : Option Char} {cs content behind : List Char}
    (h : cutTag quote cs = .ok (content, behind)) : cs = content ++ '>' :: behind := by
  induction cs generalizing quote content with
  | nil => simp [cutTag] at h
  | cons c cs ih =>
    rw [cutTag] at h
    split at h
    · rename_i hend
      cases h
      simp [hend.2]
    · cases hcut : cutTag (nextQuote quote c) cs with
      | error opened => simp [hcut, Except.map] at h
      | ok pair =>
        obtain ⟨content', behind'⟩ := pair
        simp only [hcut, Except.map, Except.ok.injEq, Prod.mk.injEq] at h
        obtain ⟨hcontent, hbehind⟩ := h
        subst hcontent hbehind
        simpa using ih hcut

end TemplateCompiler.Markup
