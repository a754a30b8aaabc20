import TemplateCompiler.Proofs.LineBreaks
import TemplateCompiler.Proofs.Noninterference

namespace TemplateCompiler.Text

/-- Every line break of a text stands behind a backslash. -/
def BreaksContinued (cs : List Char) : Prop :=
  ∀ before behind, cs = before ++ '\n' :: behind → before.getLast? = some '\\'

namespace BreaksContinued

variable {cs ds : List Char}

theorem of_notMem (hcs : '\n' ∉ cs) : BreaksContinued cs := by
  rintro before behind rfl
  exact (hcs (by simp)).elim

theorem append (h : BreaksContinued cs) (h' : BreaksContinued ds) : BreaksContinued (cs ++ ds) := by
  intro before behind hbreak
  obtain ⟨inside, rfl, hds⟩ | ⟨inside, hcs, hrest⟩ := List.append_eq_append_iff.mp hbreak
  · rw [List.getLast?_append, h' inside behind hds]
    rfl
  · cases inside with
    | nil =>
      have hstart := h' [] behind hrest.symm
      cases hstart
    | cons c inside =>
      obtain ⟨rfl, -⟩ := List.cons.inj hrest
      exact h before inside hcs

/-- What follows a line break is again such a text. -/
theorem behind (h : BreaksContinued (cs ++ '\n' :: ds)) : BreaksContinued ds := by
  rintro before behind rfl
  have hlast := h (cs ++ '\n' :: before) behind (by simp)
  rw [List.getLast?_append] at hlast
  cases before with
  | nil => simp at hlast
  | cons c before => simpa [List.getLast?_cons] using hlast

theorem flatMap {f : Char → List Char} (hf : ∀ c, BreaksContinued (f c)) (cs : List Char) :
    BreaksContinued (cs.flatMap f) := by
  induction cs with
  | nil => exact of_notMem List.not_mem_nil
  | cons c cs ih => exact (hf c).append ih

theorem intercalate {separator : String} (hseparator : BreaksContinued separator.toList)
    {texts : List String} (htexts : ∀ text ∈ texts, BreaksContinued text.toList) :
    BreaksContinued (separator.intercalate texts).toList := by
  induction texts with
  | nil => exact of_notMem List.not_mem_nil
  | cons text texts ih =>
    obtain ⟨htext, hlater⟩ := List.forall_mem_cons.mp htexts
    cases texts with
    | nil => rwa [String.intercalate_singleton]
    | cons next texts =>
      rw [String.intercalate_cons_cons, String.toList_append, String.toList_append]
      exact (htext.append hseparator).append (ih hlater)

end BreaksContinued

theorem joinLines_splitLines (s : String) : joinLines (splitLines s) = s := by
  rw [← String.toList_inj, joinLines, splitLines, String.toList_intercalate, List.map_map]
  simp only [Function.comp_def, String.toList_ofList, List.map_id']
  exact List.intercalate_splitOn '\n'

/-- All lines of such a text but the last one are continued. -/
theorem isContinued_of_mem_dropLast {lines : List String}
    (h : BreaksContinued (joinLines lines).toList) :
    ∀ line ∈ lines.dropLast, isContinued line = true := by
  induction lines with
  | nil => simp
  | cons line lines ih =>
    cases lines with
    | nil => simp
    | cons next lines =>
      have hjoined : (joinLines (line :: next :: lines)).toList =
          line.toList ++ '\n' :: (joinLines (next :: lines)).toList := by
        simp [joinLines, String.intercalate_cons_cons]
      rw [hjoined] at h
      rw [List.dropLast_cons_cons, List.forall_mem_cons]
      refine ⟨?_, ih h.behind⟩
      rw [isContinued, h line.toList _ rfl]
      rfl

/-- Whether the line behind some lines continues a string literal. -/
def continuedBehind (continued : Bool) (lines : List String) : Bool :=
  (lines.getLast?.map isContinued).getD continued

theorem continuedBehind_cons (continued : Bool) (line : String) (lines : List String) :
    continuedBehind continued (line :: lines) = continuedBehind (isContinued line) lines := by
  cases lines <;> rfl

/-- No line continues a text that ends with neither a backslash nor a line break. -/
theorem continuedBehind_eq_false {lines : List String} {last : Char}
    (hlast : (joinLines lines).toList.getLast? = some last) (hbackslash : last ≠ '\\')
    (hbreak : last ≠ '\n') (continued : Bool) : continuedBehind continued lines = false := by
  induction lines generalizing continued with
  | nil => cases hlast
  | cons line lines ih =>
    rw [continuedBehind_cons]
    cases lines with
    | nil =>
      rw [joinLines, String.intercalate_singleton] at hlast
      simpa [continuedBehind, isContinued, hlast] using hbackslash
    | cons next lines =>
      apply ih
      rw [joinLines, String.intercalate_cons_cons, String.toList_append,
        List.getLast?_append] at hlast
      cases hinner : ("\n".intercalate (next :: lines)).toList.getLast? with
      | none =>
        rw [hinner, String.toList_append] at hlast
        simp [Ne.symm hbreak] at hlast
      | some c =>
        rw [hinner] at hlast
        rwa [joinLines, hinner]

theorem eq_empty_of_joinLines_eq_empty {lines : List String} (h : joinLines lines = "") :
    ∀ line ∈ lines, line = "" := by
  cases lines with
  | nil => simp
  | cons line lines =>
    cases lines with
    | nil => simpa [joinLines] using h
    | cons next lines =>
      rw [joinLines, String.intercalate_cons_cons] at h
      have hlist := congrArg String.toList h
      simp at hlist

/-- Lines that are joined beforehand stand among other lines like one of them. -/
theorem joinLines_append_joinLines (front later : List String) {lines : List String}
    (hlines : lines ≠ []) :
    joinLines (front ++ lines ++ later) = joinLines (front ++ joinLines lines :: later) := by
  unfold joinLines
  induction front with
  | nil =>
    cases later with
    | nil => simp
    | cons next later =>
      rw [List.nil_append, List.nil_append,
        String.intercalate_append_of_ne_nil hlines (List.cons_ne_nil _ _),
        String.intercalate_cons_cons]
  | cons line front ih =>
    rw [List.cons_append, List.cons_append, List.cons_append,
      String.intercalate_cons_of_ne_nil (by simp [hlines]), ih,
      String.intercalate_cons_of_ne_nil (by simp)]

theorem spaces_append (count more : Nat) : spaces count ++ spaces more = spaces (count + more) := by
  rw [spaces, spaces, spaces, ← String.ofList_append, List.replicate_append_replicate]

end TemplateCompiler.Text

namespace TemplateCompiler.Package.Program

open Text (BreaksContinued continuedBehind isContinued)

theorem indentLines_append (width : Nat) (continued : Bool) (lines later : List String) :
    indentLines width continued (lines ++ later) =
      indentLines width continued lines ++
        indentLines width (continuedBehind continued lines) later := by
  induction lines generalizing continued with
  | nil => rfl
  | cons line lines ih =>
    rw [List.cons_append, indentLines, ih, indentLines, Text.continuedBehind_cons, List.cons_append]

/-- Lines of which each continues the one before stay as they are. -/
theorem indentLines_continued (width : Nat) {lines : List String}
    (hlines : ∀ line ∈ lines.dropLast, isContinued line = true) :
    indentLines width true lines = lines := by
  induction lines with
  | nil => rfl
  | cons line lines ih =>
    cases lines with
    | nil => rfl
    | cons next lines =>
      rw [List.dropLast_cons_cons, List.forall_mem_cons] at hlines
      rw [indentLines, hlines.1, ih hlines.2]
      rfl

/-- Lines that belong together are indented as one text: at its start only. -/
theorem joinLines_indentLines (width : Nat) {lines : List String}
    (hlines : Text.joinLines lines ≠ "")
    (h : BreaksContinued (Text.joinLines lines).toList) :
    Text.joinLines (indentLines width false lines) =
      Text.spaces width ++ Text.joinLines lines := by
  have hcontinued := Text.isContinued_of_mem_dropLast h
  cases lines with
  | nil => exact (hlines rfl).elim
  | cons line lines =>
    -- The first line is not empty, for no break stands at the start of the text.
    have hline : line ≠ "" := by
      rintro rfl
      cases lines with
      | nil => exact hlines rfl
      | cons next lines =>
        have hstart := h [] (Text.joinLines (next :: lines)).toList (by simp [Text.joinLines])
        cases hstart
    have hindented : indentLines width false (line :: lines) =
        (Text.spaces width ++ line) :: lines := by
      cases lines with
      | nil => simp [indentLines, hline]
      | cons next lines =>
        rw [List.dropLast_cons_cons, List.forall_mem_cons] at hcontinued
        rw [indentLines, hcontinued.1, indentLines_continued width hcontinued.2]
        simp [hline]
    rw [hindented, Text.joinLines, Text.joinLines, String.intercalate_cons_append]

/-- Lines that are joined to a text stand in the function as that text. -/
theorem function_eq_of_indentLines {indent : Nat} {body front placed later : List String}
    {text : String} (hlines : indentLines indent false body = front ++ placed ++ later)
    (hplaced : Text.joinLines placed = text) (htext : text ≠ "") (signature : Signature)
    (prologue : String) :
    function indent ⟨signature, body, prologue⟩ =
      "function " ++ signature.render ++ " \x7b\n" ++ Text.joinLines (front ++ text :: later) ++
        "\n\x7d" := by
  have hsome : placed ≠ [] := by
    rintro rfl
    exact htext hplaced.symm
  have hbody : Text.joinLines (front ++ text :: later) ≠ "" := by
    intro hempty
    exact htext (Text.eq_empty_of_joinLines_eq_empty hempty text (by simp))
  rw [← hplaced, ← Text.joinLines_append_joinLines _ _ hsome, ← hlines] at hbody ⊢
  exact if_neg hbody

end TemplateCompiler.Package.Program

namespace TemplateCompiler.Script

open Package (Program Signature)
open Text (BreaksContinued OneLine)

/-- A text that a listing is given next adds the lines `added` to it, which the function around the
    listing shows as `placed`. These are the text as it is, behind the indentation of its start, and
    so it stands in the function, whatever lines follow. -/
structure Listing.Keeps (listing : Listing) (width indent : Nat) (text : String)
    (added placed : List String) : Prop where
  added_eq : (listing.write text).render width = listing.render width ++ added
  placed_eq : ∀ later, Program.indentLines indent false (listing.render width ++ added ++ later) =
    Program.indentLines indent false (listing.render width) ++ placed ++
      Program.indentLines indent false later
  joined_eq : Text.joinLines placed = Text.spaces (listing.level * width + indent) ++ text
  function_eq : ∀ (signature : Signature) (prologue : String) (later : List String),
    Program.function indent ⟨signature, listing.render width ++ added ++ later, prologue⟩ =
      "function " ++ signature.render ++ " \x7b\n" ++
        Text.joinLines (Program.indentLines indent false (listing.render width) ++
          (Text.spaces (listing.level * width + indent) ++ text) ::
            Program.indentLines indent false later) ++ "\n\x7d"

/-- The listing and the function indent a text in the same way, one after the other. -/
theorem Listing.exists_keeps {listing : Listing} {width : Nat} (indent : Nat) {text : String}
    (hbefore : ∀ line ∈ (listing.render width).getLast?, Text.isContinued line = false)
    (hbreaks : BreaksContinued text.toList) (hend : text.toList.getLast? = some ')') :
    ∃ added placed, listing.Keeps width indent text added placed := by
  have hspaced (count : Nat) : BreaksContinued (Text.spaces count ++ text).toList := by
    rw [String.toList_append]
    refine BreaksContinued.append (BreaksContinued.of_notMem ?_) hbreaks
    simp [Text.spaces, List.mem_replicate]
  have hlast (count : Nat) : (Text.spaces count ++ text).toList.getLast? = some ')' := by
    rw [String.toList_append, List.getLast?_append, hend]
    rfl
  have hne (count : Nat) : Text.spaces count ++ text ≠ "" := by
    intro hempty
    have hnone := hlast count
    rw [hempty] at hnone
    cases hnone
  let added := Program.indentLines (listing.level * width) false (Text.splitLines text)
  let placed := Program.indentLines indent false added
  have hadded : Text.joinLines added = Text.spaces (listing.level * width) ++ text := by
    have htext : text ≠ "" := by
      rintro rfl
      cases hend
    rw [Program.joinLines_indentLines] <;> rw [Text.joinLines_splitLines]
    · exact htext
    · exact hbreaks
  have hplaced : Text.joinLines placed = Text.spaces (listing.level * width + indent) ++ text := by
    rw [Program.joinLines_indentLines] <;> rw [hadded]
    · rw [← String.append_assoc, Text.spaces_append, Nat.add_comm]
    · exact hne _
    · exact hspaced _
  have hfront : Text.continuedBehind false (listing.render width) = false := by
    unfold Text.continuedBehind
    cases hline : (listing.render width).getLast? with
    | none => rfl
    | some line => exact hbefore line hline
  have hbehind : Text.continuedBehind false added = false := by
    have hclosed : (Text.joinLines added).toList.getLast? = some ')' := by
      rw [hadded]
      exact hlast _
    exact Text.continuedBehind_eq_false hclosed (by decide) (by decide) false
  have hlines (later : List String) :
      Program.indentLines indent false (listing.render width ++ added ++ later) =
        Program.indentLines indent false (listing.render width) ++ placed ++
          Program.indentLines indent false later := by
    rw [List.append_assoc, Program.indentLines_append, hfront, Program.indentLines_append, hbehind,
      List.append_assoc]
  refine ⟨added, placed, ?_, hlines, hplaced, ?_⟩
  · rw [Listing.render, Listing.lines_write, List.map_append, map_render_placeLines]
    rfl
  · intro signature prologue later
    exact Program.function_eq_of_indentLines (hlines later) hplaced (hne _) signature prologue

theorem breaksContinued_escape (c : Char) : BreaksContinued (escape c) := by
  by_cases hnewline : c = '\n'
  · subst hnewline
    intro before behind hbreak
    have hshape : [' ', '\\'] ++ '\n' :: [] = before ++ '\n' :: behind := hbreak
    obtain ⟨rfl, -, -⟩ := (List.append_cons_inj_of_notMem (by decide) (by decide)).mp hshape
    rfl
  · apply BreaksContinued.of_notMem
    unfold escape
    grind

/-- All line breaks of a string literal are continuations. -/
theorem breaksContinued_quote (s : String) : BreaksContinued (quote s).toList := by
  rw [quote, String.toList_ofList]
  have hquote : BreaksContinued ['"'] := BreaksContinued.of_notMem (by decide)
  exact hquote.append ((BreaksContinued.flatMap breaksContinued_escape _).append hquote)

/-- A script expression whose line breaks, if it has any, are those of a string literal. -/
def LiteralOrOneLine (expression : String) : Prop :=
  OneLine expression ∨ ∃ s, expression = quote s

theorem LiteralOrOneLine.breaksContinued {expression : String} (h : LiteralOrOneLine expression) :
    BreaksContinued expression.toList := by
  obtain hline | ⟨s, rfl⟩ := h
  · exact BreaksContinued.of_notMem hline
  · exact breaksContinued_quote s

/-- A call keeps the continuations of its arguments. -/
theorem breaksContinued_call {opening : String} (hopening : OneLine opening) {arguments : String}
    (harguments : BreaksContinued arguments.toList) :
    BreaksContinued (opening ++ arguments ++ ")").toList ∧
      (opening ++ arguments ++ ")").toList.getLast? = some ')' := by
  rw [String.toList_append, String.toList_append]
  refine ⟨?_, by simp⟩
  exact ((BreaksContinued.of_notMem hopening).append harguments).append
    (BreaksContinued.of_notMem (by decide))

theorem breaksContinued_openArguments {tag : String} {key statics : Option String}
    {properties : List Property} (hkey : ∀ text ∈ key, LiteralOrOneLine text)
    (hstatics : ∀ text ∈ statics, LiteralOrOneLine text)
    (hproperties : ∀ property ∈ properties, LiteralOrOneLine property.expression) :
    BreaksContinued (", ".intercalate (Call.openArguments tag key statics properties)).toList := by
  have hgetD {value : Option String} (hvalue : ∀ text ∈ value, LiteralOrOneLine text) :
      LiteralOrOneLine (value.getD Call.absent) := by
    cases value with
    | none => exact .inl (by decide)
    | some text => exact hvalue text rfl
  refine BreaksContinued.intercalate (BreaksContinued.of_notMem (by decide)) ?_
  intro argument hargument
  obtain rfl | rfl | rfl | ⟨property, hproperty, hmem⟩ := Call.mem_openArguments hargument
  · exact breaksContinued_quote tag
  · exact (hgetD hkey).breaksContinued
  · exact (hgetD hstatics).breaksContinued
  · obtain rfl | hvalue := List.mem_cons.mp hmem
    · exact breaksContinued_quote property.name
    · rw [List.mem_singleton.mp hvalue]
      exact (hproperties property hproperty).breaksContinued

end TemplateCompiler.Script

namespace TemplateCompiler.Template

open Script (LiteralOrOneLine Listing)
open Text (BreaksContinued OneLine)

theorem Interpolation.breaksContinued_expression {interpolation : Interpolation}
    (hsources : ∀ source, .expression source ∈ interpolation.segments → '\n' ∉ source) :
    BreaksContinued interpolation.expression.toList := by
  refine BreaksContinued.intercalate (BreaksContinued.of_notMem (by decide)) ?_
  intro text htext
  obtain rfl | ⟨segment, hsegment, rfl⟩ := mem_operands htext
  · exact Script.breaksContinued_quote ""
  · cases segment with
    | literal text => exact Script.breaksContinued_quote _
    | expression source =>
      exact BreaksContinued.of_notMem (oneLine_operand (hsources source hsegment))

/-- Indentation never changes a string literal. Behind a line that is not continued, the call for a
text whose expressions have no line break keeps its text, however deep it stands and however the
function is indented. So does the call that opens an element, if the line breaks of its arguments
are those of string literals. -/
theorem calls_keep_literals (listing : Listing) (width indent : Nat)
    (hbefore : ∀ line ∈ (listing.render width).getLast?, Text.isContinued line = false) :
    (∀ text : String,
      (∀ source, .expression source ∈ (Interpolation.ofString text).segments → '\n' ∉ source) →
        ∃ added placed, listing.Keeps width indent
          (Script.Call.text (Interpolation.ofString text).expression) added placed) ∧
      ∀ (tag : String) (key statics : Option String) (properties : List Script.Property),
        (∀ text ∈ key, LiteralOrOneLine text) → (∀ text ∈ statics, LiteralOrOneLine text) →
        (∀ property ∈ properties, LiteralOrOneLine property.expression) →
          ∃ added placed, listing.Keeps width indent
            (Script.Call.elementOpen tag key statics properties) added placed := by
  refine ⟨?_, ?_⟩
  · intro text hsources
    have hopening : OneLine "text(" := by decide
    obtain ⟨hbreaks, hend⟩ := Script.breaksContinued_call hopening
      (Interpolation.breaksContinued_expression hsources)
    exact Listing.exists_keeps indent hbefore hbreaks hend
  · intro tag key statics properties hkey hstatics hproperties
    have hopening : OneLine "elementOpen(" := by decide
    obtain ⟨hbreaks, hend⟩ := Script.breaksContinued_call hopening
      (Script.breaksContinued_openArguments hkey hstatics hproperties)
    exact Listing.exists_keeps indent hbefore hbreaks hend

/-- A text with a carriage return, an empty line and a backslash in front of its last line break, and
an element with line breaks in its key and in a property, and with a backslash at the end of
another one. -/
theorem calls_keep_literals_nested :
    let listing := (Listing.empty.openBlock "if (a) \x7b").openBlock "elementOpen(\"p\")"
    let text := "one\r\n\n\x7ba\x7d\\\n"
    let properties : List Script.Property := [⟨"title", Script.quote "\n"⟩, ⟨"value", "x\\"⟩]
    (listing.render 2).getLast? = some "  elementOpen(\"p\")" ∧
      (Interpolation.ofString text).segments =
        [.literal "one\r\n\n".toList, .expression ['a'], .literal "\\\n".toList] ∧
      (∃ added placed, listing.Keeps 2 4
        (Script.Call.text (Interpolation.ofString text).expression) added placed) ∧
      ∃ added placed, listing.Keeps 2 4
        (Script.Call.elementOpen "li" (some (Script.quote "a\nb")) (some "hoisted1") properties)
        added placed := by
  intro listing text properties
  have hlast : (listing.render 2).getLast? = some "  elementOpen(\"p\")" := by decide +kernel
  have hsegments : (Interpolation.ofString text).segments =
      [.literal "one\r\n\n".toList, .expression ['a'], .literal "\\\n".toList] := by
    decide +kernel
  have hbefore : ∀ line ∈ (listing.render 2).getLast?, Text.isContinued line = false := by
    rw [hlast]
    decide
  obtain ⟨htexts, helements⟩ := calls_keep_literals listing 2 4 hbefore
  refine ⟨hlast, hsegments, htexts text ?_, helements "li" _ _ properties ?_ ?_ ?_⟩
  · intro source hsource
    obtain rfl : source = ['a'] := by simpa [hsegments] using hsource
    decide
  · intro key hkey
    exact .inr ⟨_, (Option.mem_some.mp hkey).symm⟩
  · intro statics hstatics
    rw [← Option.mem_some.mp hstatics]
    exact .inl (by decide)
  · simp only [properties, List.forall_mem_cons]
    exact ⟨.inr ⟨_, rfl⟩, .inl (by decide), by simp⟩

end TemplateCompiler.Template
