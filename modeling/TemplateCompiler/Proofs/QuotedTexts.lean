import TemplateCompiler.Script.Quoted

namespace TemplateCompiler.Script

/-- A text without its carriage returns. -/
def withoutReturns (cs : List Char) : List Char :=
  cs.filter (· != '\r')

theorem withoutReturns_cons_of_ne {c : Char} (hc : c ≠ '\r') (cs : List Char) :
    withoutReturns (c :: cs) = c :: withoutReturns cs :=
  List.filter_cons_of_pos (by simpa using hc)

theorem flatMap_escape_withoutReturns (cs : List Char) :
    (withoutReturns cs).flatMap escape = cs.flatMap escape := by
  induction cs with
  | nil => rfl
  | cons c cs ih =>
    by_cases hc : c = '\r'
    · subst hc
      exact ih
    · rw [withoutReturns_cons_of_ne hc, List.flatMap_cons, List.flatMap_cons, ih]

/-- Two characters that are written with the same first character are equal, or one is a blank and
    the other a newline, or both are escaped by a backslash. -/
theorem eq_of_head?_escape_eq {c c' : Char} (hc : c ≠ '\r') (hc' : c' ≠ '\r')
    (hhead : (escape c).head? = (escape c').head?) :
    c = c' ∨ (c = ' ' ∧ c' = '\n') ∨ (c = '\n' ∧ c' = ' ') ∨
      (c = '\\' ∧ c' = '"') ∨ (c = '"' ∧ c' = '\\') := by
  grind [escape]

section Literal

variable {rest rest' : List Char}

/-- No text is written with an escaped newline at its start. -/
theorem flatMap_escape_ne_continuation (cs tail : List Char) :
    cs.flatMap escape ++ '"' :: rest ≠ '\\' :: '\n' :: tail := by
  induction cs with
  | nil => simp
  | cons c cs ih =>
    by_cases hc : c = '\r'
    · subst hc
      exact ih
    · rw [List.flatMap_cons, List.append_assoc]
      grind [escape]

theorem head?_escape_ne_quote {c : Char} (hc : c ≠ '\r') (tail : List Char) :
    escape c ++ tail ≠ '"' :: rest := by
  grind [escape]

theorem flatMap_escape_inj {cs cs' : List Char} (hcs : '\r' ∉ cs) (hcs' : '\r' ∉ cs')
    (heq : cs.flatMap escape ++ '"' :: rest = cs'.flatMap escape ++ '"' :: rest') :
    cs = cs' ∧ rest = rest' := by
  induction cs generalizing cs' with
  | nil =>
    cases cs' with
    | nil => exact ⟨rfl, List.cons.inj heq |>.2⟩
    | cons c' cs' =>
      rw [List.flatMap_cons, List.append_assoc] at heq
      exact (head?_escape_ne_quote (List.ne_of_not_mem_cons hcs').symm _ heq.symm).elim
  | cons c cs ih =>
    have hc : c ≠ '\r' := (List.ne_of_not_mem_cons hcs).symm
    rw [List.flatMap_cons, List.append_assoc] at heq
    cases cs' with
    | nil => exact (head?_escape_ne_quote hc _ heq).elim
    | cons c' cs' =>
      have hc' : c' ≠ '\r' := (List.ne_of_not_mem_cons hcs').symm
      rw [List.flatMap_cons, List.append_assoc] at heq
      have hhead : (escape c).head? = (escape c').head? := by
        grind [escape]
      obtain rfl | ⟨rfl, rfl⟩ | ⟨rfl, rfl⟩ | ⟨rfl, rfl⟩ | ⟨rfl, rfl⟩ :=
        eq_of_head?_escape_eq hc hc' hhead
      · obtain ⟨rfl, hrest⟩ := ih (List.not_mem_of_not_mem_cons hcs)
          (List.not_mem_of_not_mem_cons hcs') (List.append_cancel_left heq)
        exact ⟨rfl, hrest⟩
      · exact (flatMap_escape_ne_continuation cs _ (List.cons.inj heq).2).elim
      · exact (flatMap_escape_ne_continuation cs' _ (List.cons.inj heq).2.symm).elim
      · simp [escape] at heq
      · simp [escape] at heq

/-- A literal in front of a text tells where it ends, and what it stands for apart from carriage
    returns. -/
theorem quoteChars_append_eq_iff (cs cs' : List Char) :
    quoteChars cs ++ rest = quoteChars cs' ++ rest' ↔
      withoutReturns cs = withoutReturns cs' ∧ rest = rest' := by
  have hquoted (cs rest : List Char) :
      quoteChars cs ++ rest = '"' :: ((withoutReturns cs).flatMap escape ++ '"' :: rest) := by
    simp [quoteChars, flatMap_escape_withoutReturns]
  have hreturn (cs : List Char) : '\r' ∉ withoutReturns cs := by
    simp [withoutReturns]
  rw [hquoted, hquoted]
  constructor
  · intro heq
    exact flatMap_escape_inj (hreturn cs) (hreturn cs') (List.cons.inj heq).2
  · rintro ⟨hcs, hrest⟩
    rw [hcs, hrest]

end Literal

end TemplateCompiler.Script
