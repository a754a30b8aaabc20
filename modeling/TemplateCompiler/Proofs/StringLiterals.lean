import TemplateCompiler.Proofs.QuotedTexts

namespace TemplateCompiler.Script

/-- Reads a string literal from behind its opening quote: the text that it stands for, and what
    follows its closing quote. With `escaped` a backslash has just been read. A line may only end
    behind a backslash, and the two are left out. A backslash in front of any other character is
    refused, so that nothing depends on what such an escape might stand for. -/
def readQuoted : Bool → List Char → Option (List Char × List Char)
  | _, [] => none
  | true, c :: cs =>
    if c = '\n' then readQuoted false cs
    else if c = '\\' ∨ c = '"' then
      (readQuoted false cs).map fun read => (c :: read.1, read.2)
    else none
  | false, c :: cs =>
    if c = '"' then some ([], cs)
    else if c = '\\' then readQuoted true cs
    else if c = '\n' then none
    else (readQuoted false cs).map fun read => (c :: read.1, read.2)

/-- Reads a string literal at the start of a script. -/
def readLiteral : List Char → Option (List Char × List Char)
  | [] => none
  | c :: cs => if c = '"' then readQuoted false cs else none

/-- A text with its lines put together, and a blank in the place of every newline. -/
def joinedLines (cs : List Char) : List Char :=
  (withoutReturns cs).map fun c => if c = '\n' then ' ' else c

/-- One character of a text is read back as one character. -/
theorem readQuoted_escape {c : Char} (hc : c ≠ '\r') (rest : List Char) :
    readQuoted false (escape c ++ rest) =
      (readQuoted false rest).map fun read =>
        ((if c = '\n' then ' ' else c) :: read.1, read.2) := by
  by_cases hbackslash : c = '\\'
  · subst hbackslash
    simp [escape, readQuoted]
  by_cases hquote : c = '"'
  · subst hquote
    simp [escape, readQuoted]
  by_cases hnewline : c = '\n'
  · subst hnewline
    simp [escape, readQuoted]
  · simp [escape, readQuoted, hc, hbackslash, hquote, hnewline]

theorem readQuoted_flatMap_escape {cs : List Char} (hcs : '\r' ∉ cs) (rest : List Char) :
    readQuoted false (cs.flatMap escape ++ '"' :: rest) =
      some (cs.map fun c => if c = '\n' then ' ' else c, rest) := by
  induction cs with
  | nil => rfl
  | cons c cs ih =>
    have hc : c ≠ '\r' := (List.ne_of_not_mem_cons hcs).symm
    rw [List.flatMap_cons, List.append_assoc, readQuoted_escape hc,
      ih (List.not_mem_of_not_mem_cons hcs)]
    rfl

theorem readLiteral_quoteChars_append (cs rest : List Char) :
    readLiteral (quoteChars cs ++ rest) = some (joinedLines cs, rest) := by
  have hreturn : '\r' ∉ withoutReturns cs := by simp [withoutReturns]
  have hread := readQuoted_flatMap_escape hreturn rest
  rw [flatMap_escape_withoutReturns] at hread
  simpa [quoteChars, readLiteral, joinedLines] using hread

/-- What follows a literal plays no part in reading it. -/
theorem readQuoted_append {escaped : Bool} {cs value rest : List Char}
    (hread : readQuoted escaped cs = some (value, rest)) (more : List Char) :
    readQuoted escaped (cs ++ more) = some (value, rest ++ more) := by
  fun_induction readQuoted escaped cs generalizing value with
  | case1 => cases hread
  | case2 cs ih => exact ih hread
  | case3 c cs hnewline hescape ih =>
    obtain ⟨⟨behind, rest⟩, hbehind, hpair⟩ := Option.map_eq_some_iff.mp hread
    cases hpair
    rw [List.cons_append, readQuoted, if_neg hnewline, if_pos hescape, ih hbehind]
    rfl
  | case4 => cases hread
  | case5 cs =>
    cases hread
    rfl
  | case6 cs hquote ih => exact ih hread
  | case7 => cases hread
  | case8 c cs hquote hbackslash hnewline ih =>
    obtain ⟨⟨behind, rest⟩, hbehind, hpair⟩ := Option.map_eq_some_iff.mp hread
    cases hpair
    rw [List.cons_append, readQuoted, if_neg hquote, if_neg hbackslash, if_neg hnewline, ih hbehind]
    rfl

theorem readLiteral_append {cs value rest : List Char}
    (hread : readLiteral cs = some (value, rest)) (more : List Char) :
    readLiteral (cs ++ more) = some (value, rest ++ more) := by
  cases cs with
  | nil => cases hread
  | cons c cs =>
    obtain ⟨hquote, hread⟩ := Option.ite_none_right_eq_some.mp hread
    rw [List.cons_append, readLiteral, if_pos hquote]
    exact readQuoted_append hread more

/-- The literal of a text is read as the text with its lines put together, whatever follows it. No
part of it that ends earlier can be read, so that it ends at its own last quote. Literals are equal
if and only if their texts differ in carriage returns at most. -/
theorem readLiteral_quote (text : String) :
    (∀ rest, readLiteral ((quote text).toList ++ rest) = some (joinedLines text.toList, rest)) ∧
      (∀ front back, (quote text).toList = front ++ back → back ≠ [] → readLiteral front = none) ∧
      ∀ other, quote text = quote other ↔
        withoutReturns text.toList = withoutReturns other.toList := by
  have hquote (text : String) : (quote text).toList = quoteChars text.toList := by
    rw [quote, String.toList_ofList]
  have hread := readLiteral_quoteChars_append text.toList
  rw [hquote]
  refine ⟨hread, ?_, ?_⟩
  · intro front back hparts hback
    rw [Option.eq_none_iff_forall_ne_some]
    rintro ⟨value, rest⟩ hfront
    -- Read together with the rest of the literal, the rest would be left over.
    have hwhole := hread []
    rw [List.append_nil, hparts, readLiteral_append hfront back, Option.some.injEq,
      Prod.mk.injEq] at hwhole
    exact hback (List.append_eq_nil_iff.mp hwhole.2).2
  · intro other
    have hiff : quoteChars text.toList ++ [] = quoteChars other.toList ++ [] ↔
        withoutReturns text.toList = withoutReturns other.toList ∧ ([] : List Char) = [] :=
      quoteChars_append_eq_iff text.toList other.toList
    rw [← String.toList_inj, hquote, hquote]
    simpa using hiff

/-- A text with a backslash in front of a newline, one at its end, and a quote. Its literal has an
inner quote, up to which it cannot be read. -/
theorem readLiteral_quote_backslashes :
    let text := "a\"b\\\r\n \\"
    (quote text).toList = "\"a\\\"".toList ++ "b\\\\ \\\n \\\\\"".toList ∧
      readLiteral "\"a\\\"".toList = none ∧
      readLiteral (quote text).toList = some ("a\"b\\  \\".toList, []) := by
  intro text
  obtain ⟨hread, hpart, -⟩ := readLiteral_quote text
  have hparts : (quote text).toList =
      "\"a\\\"".toList ++ "b\\\\ \\\n \\\\\"".toList := by decide
  have hvalue : joinedLines text.toList = "a\"b\\  \\".toList := by decide
  have hwhole := hread []
  rw [List.append_nil, hvalue] at hwhole
  exact ⟨hparts, hpart _ _ hparts (by decide), hwhole⟩

end TemplateCompiler.Script
