namespace TemplateCompiler.Text

/-- Number of bytes of a text in UTF-8. -/
def byteLength (cs : List Char) : Nat :=
  (cs.map Char.utf8Size).foldr (· + ·) 0

@[simp]
theorem byteLength_nil : byteLength [] = 0 := rfl

@[simp]
theorem byteLength_cons (c : Char) (cs : List Char) :
    byteLength (c :: cs) = c.utf8Size + byteLength cs := rfl

@[simp]
theorem byteLength_append (cs ds : List Char) :
    byteLength (cs ++ ds) = byteLength cs + byteLength ds := by
  induction cs with
  | nil => simp
  | cons c cs ih => rw [List.cons_append, byteLength_cons, ih, byteLength_cons, Nat.add_assoc]

/-- The texts before and from byte position `at`; none if no character begins there. -/
def splitAtByte? : Nat → List Char → Option (List Char × List Char)
  | 0, cs => some ([], cs)
  | _ + 1, [] => none
  | position + 1, c :: cs =>
    if c.utf8Size ≤ position + 1 then
      (splitAtByte? (position + 1 - c.utf8Size) cs).map fun (before, behind) =>
        (c :: before, behind)
    else none

theorem eq_append_of_splitAtByte? {position : Nat} {cs before behind : List Char}
    (h : splitAtByte? position cs = some (before, behind)) :
    cs = before ++ behind ∧ byteLength before = position := by
  induction cs generalizing position before with
  | nil =>
    cases position with
    | zero => simp_all [splitAtByte?]
    | succ position => simp [splitAtByte?] at h
  | cons c cs ih =>
    cases position with
    | zero => simp_all [splitAtByte?]
    | succ position =>
      rw [splitAtByte?] at h
      split at h
      · rename_i hfits
        obtain ⟨⟨before', behind'⟩, hcut, hpair⟩ := Option.map_eq_some_iff.mp h
        cases hpair
        obtain ⟨happend, hbytes⟩ := ih hcut
        exact ⟨by simp [happend], by rw [byteLength_cons, hbytes]; omega⟩
      · cases h

end TemplateCompiler.Text
