namespace TemplateCompiler.Text

/-- What follows `pattern` in a text that starts with it. -/
def dropPrefix? : List Char → List Char → Option (List Char)
  | [], rest => some rest
  | _ :: _, [] => none
  | p :: ps, c :: cs => if p = c then dropPrefix? ps cs else none

theorem dropPrefix?_eq_some_iff {pattern cs rest : List Char} :
    dropPrefix? pattern cs = some rest ↔ cs = pattern ++ rest := by
  induction pattern generalizing cs with
  | nil => simp [dropPrefix?]
  | cons p ps ih =>
    cases cs with
    | nil => simp [dropPrefix?]
    | cons c cs =>
      by_cases hpc : p = c
      · subst hpc
        simp [dropPrefix?, ih]
      · simp [dropPrefix?, hpc, Ne.symm hpc]

/-- The texts before and behind the first occurrence of a nonempty `pattern`. -/
def splitOnce (pattern : List Char) : List Char → Option (List Char × List Char)
  | [] => none
  | c :: cs =>
    match dropPrefix? pattern (c :: cs) with
    | some behind => some ([], behind)
    | none => (splitOnce pattern cs).map fun (before, behind) => (c :: before, behind)

theorem eq_append_of_splitOnce {pattern cs before behind : List Char}
    (h : splitOnce pattern cs = some (before, behind)) : cs = before ++ pattern ++ behind := by
  induction cs generalizing before with
  | nil => simp [splitOnce] at h
  | cons c cs ih =>
    rw [splitOnce] at h
    split at h
    · rename_i found hfound
      cases h
      simpa using dropPrefix?_eq_some_iff.mp hfound
    · obtain ⟨⟨before', behind'⟩, hcut, hpair⟩ := Option.map_eq_some_iff.mp h
      cases hpair
      simpa using ih hcut

theorem length_behind_splitOnce {pattern cs before behind : List Char}
    (h : splitOnce pattern cs = some (before, behind)) :
    before.length + pattern.length + behind.length = cs.length := by
  rw [eq_append_of_splitOnce h]
  simp [Nat.add_assoc]

/-- Puts `replacement` in the place of every occurrence of `pattern`, found from left to right
    without overlap. An empty pattern occurs nowhere. -/
def replaceAll (pattern replacement cs : List Char) : List Char :=
  if _hpattern : pattern = [] then cs
  else
    match _hcut : splitOnce pattern cs with
    | none => cs
    | some (before, behind) => before ++ replacement ++ replaceAll pattern replacement behind
termination_by cs.length
decreasing_by
  have hlength := length_behind_splitOnce _hcut
  have hpos := List.length_pos_iff.mpr _hpattern
  omega

/-- Puts `replacement` in the place of every occurrence of `pattern` in a string. -/
def replaceText (pattern replacement s : String) : String :=
  String.ofList (replaceAll pattern.toList replacement.toList s.toList)

end TemplateCompiler.Text
