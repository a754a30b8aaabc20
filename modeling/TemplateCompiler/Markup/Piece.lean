import TemplateCompiler.Markup.Doctype
import TemplateCompiler.Markup.TagContent
import TemplateCompiler.Text.Case

namespace TemplateCompiler.Markup

/-- A piece of markup. -/
inductive Piece where
  | text (content : List Char)
  | startTag (tag : StartTag)
  | endTag (name : String)
  | ignored
deriving DecidableEq, Repr

/-- A fault and the text that had not been read when it was found. -/
structure Refusal where
  fault : Fault
  rest : List Char
deriving DecidableEq, Repr

namespace Piece

/-- Reads a start tag or an end tag from behind its `<`. -/
def readTag (cs : List Char) : Except Refusal (Piece × List Char) :=
  match cutTag none cs with
  | .error none => .error ⟨.tagNotClosed, []⟩
  | .error (some quote) => .error ⟨.valueNotClosed quote, []⟩
  | .ok (content, behind) =>
    match Text.dropPrefix? ['/'] content with
    | some name => .ok (.endTag (endTagName name), behind)
    | none =>
      match StartTag.read content with
      | .ok tag => .ok (.startTag tag, behind)
      | .error fault => .error ⟨fault, behind⟩

/-- Reads an instruction from behind its `<?`. The question mark of the opening may also be that of
    the closing, but then the instruction is refused. -/
def readInstruction (cs : List Char) : Except Refusal (Piece × List Char) :=
  match Text.splitOnce "?>".toList ('?' :: cs) with
  | some ([], behind) => .error ⟨.instructionNotClosed, behind⟩
  | some (_, behind) => .ok (.ignored, behind)
  | none =>
    match Text.dropPrefix? "xml".toList cs with
    | some rest =>
      if rest.head?.all fun c => Text.isTagSpace c || c == '?' then
        .error ⟨.declarationNotClosed, []⟩
      else .error ⟨.instructionNotClosed, []⟩
    | none => .error ⟨.instructionNotClosed, []⟩

/-- Reads a comment from behind its `<!-`. Its end is looked for behind the next character, which
    has to be a hyphen too. -/
def readComment (cs : List Char) : Except Refusal (Piece × List Char) :=
  match behind? "-->".toList (cs.drop 1) with
  | none => .error ⟨.commentNotClosed, []⟩
  | some behind =>
    if cs.head? = some '-' then .ok (.ignored, behind) else .error ⟨.commentNotClosed, behind⟩

/-- Reads a CDATA section from behind its `<![`. -/
def readCdata (cs : List Char) : Except Refusal (Piece × List Char) :=
  match Text.splitOnce "]]>".toList cs with
  | none => .error ⟨.cdataNotClosed, []⟩
  | some (before, behind) =>
    match Text.dropPrefix? "CDATA[".toList before with
    | some content => .ok (.text content, behind)
    | none => .error ⟨.cdataNotClosed, behind⟩

/-- Reads a document type declaration from behind its `<!`. -/
def readDoctype (cs : List Char) : Except Refusal (Piece × List Char) :=
  match behindDoctype? none cs with
  | none => .error ⟨.doctypeNotClosed, []⟩
  | some behind =>
    match Text.dropPrefix? "doctype".toList (Text.lower cs) with
    | none => .error ⟨.doctypeNotClosed, behind⟩
    | some rest =>
      if (rest.dropWhile Text.isTagSpace).head? = some '>' then .error ⟨.doctypeUnnamed, behind⟩
      else .ok (.ignored, behind)

/-- Reads a declaration from behind its `<!`. What is no known declaration is not read at all. -/
def readDeclaration (cs : List Char) : Except Refusal (Piece × List Char) :=
  match cs with
  | '-' :: rest => readComment rest
  | '[' :: rest => readCdata rest
  | 'D' :: _ => readDoctype cs
  | 'd' :: _ => readDoctype cs
  | _ => .error ⟨.unknownMarkup, '<' :: '!' :: cs⟩

/-- Reads markup from behind its `<`. -/
def readMarkup (cs : List Char) : Except Refusal (Piece × List Char) :=
  match cs with
  | [] => .error ⟨.tagNotClosed, ['<']⟩
  | '!' :: rest => readDeclaration rest
  | '?' :: rest => readInstruction rest
  | _ => readTag cs

/-- Reads the piece at the start of a nonempty text. -/
def read (cs : List Char) : Except Refusal (Piece × List Char) :=
  match cs with
  | '<' :: rest => readMarkup rest
  | _ => .ok (.text (cs.takeWhile (· != '<')), cs.dropWhile (· != '<'))

theorem suffix_of_readTag {cs rest : List Char} {piece : Piece}
    (h : readTag cs = .ok (piece, rest)) : rest <:+ cs := by
  rw [readTag] at h
  split at h
  · cases h
  · cases h
  · rename_i content behind hcut
    have hsuffix : behind <:+ cs :=
      ⟨content ++ ['>'], by simpa using (eq_append_of_cutTag hcut).symm⟩
    split at h
    · cases h
      exact hsuffix
    · split at h
      · cases h
        exact hsuffix
      · cases h

theorem suffix_of_readInstruction {cs rest : List Char} {piece : Piece}
    (h : readInstruction cs = .ok (piece, rest)) : rest <:+ cs := by
  rw [readInstruction] at h
  split at h
  · cases h
  · rename_i before behind hne hcut
    cases h
    cases before with
    | nil => exact (hne rfl).elim
    | cons c before =>
      have hcs := Text.eq_append_of_splitOnce hcut
      simp only [List.cons_append, List.cons.injEq] at hcs
      exact ⟨before ++ "?>".toList, hcs.2.symm⟩
  · split at h
    · split at h <;> cases h
    · cases h

theorem suffix_of_readComment {cs rest : List Char} {piece : Piece}
    (h : readComment cs = .ok (piece, rest)) : rest <:+ cs := by
  rw [readComment] at h
  split at h
  · cases h
  · rename_i behind hend
    split at h
    · cases h
      exact (suffix_of_behind? hend).trans (List.drop_suffix 1 cs)
    · cases h

theorem suffix_of_readCdata {cs rest : List Char} {piece : Piece}
    (h : readCdata cs = .ok (piece, rest)) : rest <:+ cs := by
  rw [readCdata] at h
  split at h
  · cases h
  · rename_i before behind hcut
    split at h
    · cases h
      exact ⟨before ++ "]]>".toList, (Text.eq_append_of_splitOnce hcut).symm⟩
    · cases h

theorem suffix_of_readDoctype {cs rest : List Char} {piece : Piece}
    (h : readDoctype cs = .ok (piece, rest)) : rest <:+ cs := by
  rw [readDoctype] at h
  split at h
  · cases h
  · rename_i behind hend
    split at h
    · cases h
    · split at h
      · cases h
      · cases h
        exact suffix_of_behindDoctype? hend

theorem suffix_of_readDeclaration {cs rest : List Char} {piece : Piece}
    (h : readDeclaration cs = .ok (piece, rest)) : rest <:+ cs := by
  rw [readDeclaration.eq_def] at h
  split at h
  · exact (suffix_of_readComment h).trans (List.suffix_cons _ _)
  · exact (suffix_of_readCdata h).trans (List.suffix_cons _ _)
  · exact suffix_of_readDoctype h
  · exact suffix_of_readDoctype h
  · cases h

theorem suffix_of_readMarkup {cs rest : List Char} {piece : Piece}
    (h : readMarkup cs = .ok (piece, rest)) : rest <:+ cs := by
  rw [readMarkup.eq_def] at h
  split at h
  · cases h
  · exact (suffix_of_readDeclaration h).trans (List.suffix_cons _ _)
  · exact (suffix_of_readInstruction h).trans (List.suffix_cons _ _)
  · exact suffix_of_readTag h

/-- Reading a piece leaves a proper suffix of the text. -/
theorem suffix_of_read {c : Char} {cs rest : List Char} {piece : Piece}
    (h : read (c :: cs) = .ok (piece, rest)) : rest <:+ cs := by
  rw [read.eq_def] at h
  split at h
  · rename_i rest' heq
    cases heq
    exact suffix_of_readMarkup h
  · rename_i hne
    cases h
    have hc : (c != '<') = true := by
      simp only [bne_iff_ne, ne_eq]
      intro hc
      subst hc
      exact hne cs rfl
    rw [List.dropWhile_cons, if_pos hc]
    exact List.dropWhile_suffix _

end Piece

end TemplateCompiler.Markup
