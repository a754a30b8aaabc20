namespace TemplateCompiler.Template

theorem toList_toString (number : Nat) : (toString number).toList = Nat.toDigits 10 number := by
  rw [Nat.toString_eq_repr, Nat.toList_repr]

theorem toDigits_inj {number other : Nat} (heq : Nat.toDigits 10 number = Nat.toDigits 10 other) :
    number = other := by
  have hnumbers := congrArg (Nat.ofDigitChars 10 · 0) heq
  simpa only [Nat.ofDigitChars_ten_toDigits] using hnumbers

theorem toString_inj {number other : Nat} (heq : toString number = toString other) :
    number = other := by
  have hlists := congrArg String.toList heq
  rw [toList_toString, toList_toString] at hlists
  exact toDigits_inj hlists

theorem notMem_toString {c : Char} (hc : c.isDigit = false) (number : Nat) :
    c ∉ (toString number).toList := by
  rw [toList_toString]
  intro hmem
  have hdigit := Nat.isDigit_of_mem_toDigits (by omega) (by omega) hmem
  rw [hc] at hdigit
  cases hdigit

/-- A number with a space behind it can be told from any other. -/
theorem eq_of_append_space {number other : Nat} {rest later : List Char}
    (heq : (toString number).toList ++ ' ' :: rest = (toString other).toList ++ ' ' :: later) :
    number = other := by
  have htake (number : Nat) (rest : List Char) :
      ((toString number).toList ++ ' ' :: rest).takeWhile (· != ' ') = (toString number).toList := by
    rw [List.takeWhile_append_of_pos]
    · simp
    · intro c hc
      rw [bne_iff_ne]
      rintro rfl
      exact notMem_toString rfl number hc
  have hsame : (toString number).toList = (toString other).toList := by
    rw [← htake number rest, heq, htake]
  exact toString_inj (String.toList_inj.mp hsame)

/-- A number with the digits of another one behind it. -/
def joined (number later : Nat) : Nat :=
  Nat.ofDigitChars 10 (Nat.toDigits 10 later) number

theorem joined_of_lt_ten (number : Nat) {digit : Nat} (hdigit : digit < 10) :
    joined number digit = 10 * number + digit := by
  rw [joined, Nat.toDigits_of_lt_base hdigit, Nat.ofDigitChars_cons_digitChar_of_lt_ten hdigit,
    Nat.ofDigitChars_nil]

theorem joined_digit (number : Nat) {leading digit : Nat} (hleading : 0 < leading)
    (hdigit : digit < 10) :
    joined number (10 * leading + digit) = 10 * joined number leading + digit := by
  rw [joined, ← Nat.toDigits_append_toDigits (by decide) hleading hdigit, Nat.ofDigitChars_append]
  exact joined_of_lt_ten _ hdigit

theorem le_joined (number later : Nat) : 10 * number + later ≤ joined number later := by
  induction later using Nat.base_induction 10 (by decide) with
  | single digit hdigit => exact Nat.le_of_eq (joined_of_lt_ten number hdigit).symm
  | digit leading digit hdigit hleading ih =>
    rw [joined_digit number hleading hdigit]
    omega

theorem toDigits_joined {number : Nat} (hpos : 0 < number) (later : Nat) :
    Nat.toDigits 10 (joined number later) = Nat.toDigits 10 number ++ Nat.toDigits 10 later := by
  induction later using Nat.base_induction 10 (by decide) with
  | single digit hdigit =>
    rw [joined_of_lt_ten number hdigit, Nat.toDigits_append_toDigits (by decide) hpos hdigit]
  | digit leading digit hdigit hleading ih =>
    have hjoined : 0 < joined number leading := by
      have hle := le_joined number leading
      omega
    rw [joined_digit number hleading hdigit,
      ← Nat.toDigits_append_toDigits (by decide) hjoined hdigit, ih, List.append_assoc,
      Nat.toDigits_append_toDigits (by decide) hleading hdigit]

/-- A numeral that is cut in two starts with a numeral, which is not that of zero. -/
theorem exists_toDigits_of_append {number : Nat} {front back : List Char} (hfront : front ≠ [])
    (hback : back ≠ []) (hcut : Nat.toDigits 10 number = front ++ back) :
    ∃ leading, 0 < leading ∧ front = Nat.toDigits 10 leading := by
  induction number using Nat.base_induction 10 (by decide) generalizing back with
  | single digit hdigit =>
    have hlength := congrArg List.length hcut
    rw [Nat.toDigits_of_lt_base hdigit, List.length_append, List.length_singleton] at hlength
    have hsome := List.length_pos_iff.mpr hfront
    have hmore := List.length_pos_iff.mpr hback
    omega
  | digit leading digit hdigit hleading ih =>
    obtain rfl | ⟨back, last, rfl⟩ := List.eq_nil_or_concat back
    · exact (hback rfl).elim
    · rw [← Nat.toDigits_append_toDigits (by decide) hleading hdigit,
        Nat.toDigits_of_lt_base hdigit, List.concat_eq_append, ← List.append_assoc] at hcut
      obtain ⟨hdigits, -⟩ := List.append_inj' hcut rfl
      by_cases hnone : back = []
      · rw [hnone, List.append_nil] at hdigits
        exact ⟨leading, hleading, hdigits.symm⟩
      · exact ih hnone hdigits

theorem toDigits_eq_append_iff {extra : List Char} (hextra : extra ≠ []) (number later : Nat) :
    Nat.toDigits 10 number = extra ++ Nat.toDigits 10 later ↔
      ∃ leading, 0 < leading ∧ extra = Nat.toDigits 10 leading ∧ number = joined leading later := by
  constructor
  · intro hcut
    obtain ⟨leading, hpos, rfl⟩ := exists_toDigits_of_append hextra Nat.toDigits_ne_nil hcut
    rw [← toDigits_joined hpos] at hcut
    exact ⟨leading, hpos, rfl, toDigits_inj hcut⟩
  · rintro ⟨leading, hpos, rfl, rfl⟩
    exact toDigits_joined hpos later

theorem exists_toString_of_append {stem stem' : String} {number number' : Nat} {extra : List Char}
    (hstems : stem ≠ stem') (hlonger : stem'.toList = stem.toList ++ extra)
    (hdigits : Nat.toDigits 10 number = extra ++ Nat.toDigits 10 number') :
    ∃ leading, 0 < leading ∧ stem' = stem ++ toString leading ∧ number = joined leading number' := by
  have hextra : extra ≠ [] := by
    rintro rfl
    rw [List.append_nil] at hlonger
    exact hstems (String.toList_inj.mp hlonger.symm)
  obtain ⟨leading, hpos, rfl, hjoined⟩ := (toDigits_eq_append_iff hextra number number').mp hdigits
  refine ⟨leading, hpos, ?_, hjoined⟩
  rw [← String.toList_inj, String.toList_append, toList_toString, hlonger]

theorem append_toString_joined (stem : String) {leading : Nat} (hpos : 0 < leading) (number : Nat) :
    stem ++ toString (joined leading number) = stem ++ toString leading ++ toString number := by
  rw [← String.toList_inj]
  simp only [String.toList_append, toList_toString, toDigits_joined hpos, List.append_assoc]

/-- Two different stems with numbers behind them read alike if and only if one stem is the other one
    with the leading digits of the number there. -/
theorem append_toString_eq_iff {stem stem' : String} (hstems : stem ≠ stem')
    (number number' : Nat) :
    stem ++ toString number = stem' ++ toString number' ↔
      (∃ leading, 0 < leading ∧ stem' = stem ++ toString leading ∧
        number = joined leading number') ∨
      ∃ leading, 0 < leading ∧ stem = stem' ++ toString leading ∧
        number' = joined leading number := by
  constructor
  · intro heq
    have hlists := congrArg String.toList heq
    simp only [String.toList_append, toList_toString] at hlists
    obtain ⟨extra, hlonger, hdigits⟩ | ⟨extra, hlonger, hdigits⟩ :=
      List.append_eq_append_iff.mp hlists
    · exact .inl (exists_toString_of_append hstems hlonger hdigits)
    · exact .inr (exists_toString_of_append hstems.symm hlonger hdigits)
  · rintro (⟨leading, hpos, rfl, rfl⟩ | ⟨leading, hpos, rfl, rfl⟩)
    · exact append_toString_joined stem hpos number'
    · exact (append_toString_joined stem' hpos number).symm

end TemplateCompiler.Template
