import TemplateCompiler.Package.Layout
import TemplateCompiler.Proofs.FirstOccurrence

namespace TemplateCompiler.Text

variable {pattern replacement : List Char}

theorem replaceAll_of_splitOnce_eq_none {cs : List Char} (hcut : splitOnce pattern cs = none) :
    replaceAll pattern replacement cs = cs := by
  rw [replaceAll]
  split
  · rfl
  · split
    · rfl
    · simp_all

theorem replaceAll_of_splitOnce_eq_some {cs before behind : List Char} (hpattern : pattern ≠ [])
    (hcut : splitOnce pattern cs = some (before, behind)) :
    replaceAll pattern replacement cs =
      before ++ replacement ++ replaceAll pattern replacement behind := by
  rw [replaceAll, dif_neg hpattern]
  split <;> simp_all

theorem replaceAll_cons {c : Char} {cs : List Char} (hpattern : pattern ≠ [])
    (hmiss : dropPrefix? pattern (c :: cs) = none) :
    replaceAll pattern replacement (c :: cs) = c :: replaceAll pattern replacement cs := by
  cases hcut : splitOnce pattern cs with
  | none =>
    have hcons : splitOnce pattern (c :: cs) = none := by simp [splitOnce, hmiss, hcut]
    rw [replaceAll_of_splitOnce_eq_none hcons, replaceAll_of_splitOnce_eq_none hcut]
  | some cut =>
    have hcons : splitOnce pattern (c :: cs) = some (c :: cut.1, cut.2) := by
      simp [splitOnce, hmiss, hcut]
    rw [replaceAll_of_splitOnce_eq_some hpattern hcons,
      replaceAll_of_splitOnce_eq_some hpattern hcut]
    rfl

theorem replaceAll_pattern (hpattern : pattern ≠ []) (rest : List Char) :
    replaceAll pattern replacement (pattern ++ rest) =
      replacement ++ replaceAll pattern replacement rest := by
  have hcut : splitOnce pattern (pattern ++ rest) = some ([], rest) := by
    obtain ⟨p, ps, rfl⟩ := List.exists_cons_of_ne_nil hpattern
    have hfound : dropPrefix? (p :: ps) (p :: (ps ++ rest)) = some rest :=
      dropPrefix?_eq_some_iff.mpr rfl
    rw [List.cons_append, splitOnce, hfound]
  rw [replaceAll_of_splitOnce_eq_some hpattern hcut, List.nil_append]

/-- A text without the first character of a pattern is passed over. -/
theorem replaceAll_append {first : Char} (hfirst : pattern.head? = some first)
    {plain : List Char} (hplain : first ∉ plain) (rest : List Char) :
    replaceAll pattern replacement (plain ++ rest) =
      plain ++ replaceAll pattern replacement rest := by
  obtain ⟨others, rfl⟩ := List.head?_eq_some_iff.mp hfirst
  induction plain with
  | nil => rfl
  | cons c cs ih =>
    have hc : first ≠ c := List.ne_of_not_mem_cons hplain
    have hcs : first ∉ cs := List.not_mem_of_not_mem_cons hplain
    rw [List.cons_append, replaceAll_cons (List.cons_ne_nil _ _) (by simp [dropPrefix?, hc]),
      ih hcs, List.cons_append]

end TemplateCompiler.Text

namespace TemplateCompiler.Package

open Text (dropPrefix? replaceAll replaceText)

/-- A part of the text of a layout: plain text, a brace that opens a block, or a placeholder. -/
inductive Part where
  | text (content : String)
  | block
  | slot (label : String)

namespace Part

/-- The characters of a part. -/
def written : Part → List Char
  | text content => content.toList
  | block => ['\x7b']
  | slot label => '\x7b' :: (label.toList ++ ['\x7d'])

/-- Fills the placeholders with one label. -/
def put (label value : String) : Part → Part
  | slot other => if other = label then text value else slot other
  | part => part

/-- Whether a line ends before the parts. -/
def endsLine : List Part → Bool
  | [] => true
  | text content :: _ => content.toList.head? == some '\n'
  | _ => false

/-- Whether the braces of a text can be told apart: plain text has no opening brace, a placeholder
    is labelled with letters, and the brace of a block ends its line. -/
def legible : List Part → Bool
  | [] => true
  | text content :: rest => !content.toList.contains '\x7b' && legible rest
  | block :: rest => endsLine rest && legible rest
  | slot label :: rest => label.toList.all Char.isAlpha && legible rest

theorem endsLine_put {parts : List Part} (label value : String) (h : endsLine parts = true) :
    endsLine (parts.map (put label value)) = true := by
  fun_cases endsLine parts with
  | case1 => rfl
  | case2 => exact h
  | case3 => simp_all [endsLine]

/-- A text stays legible when a placeholder is filled with a text that has no opening brace. -/
theorem legible_put {parts : List Part} (label : String) {value : String}
    (hvalue : '\x7b' ∉ value.toList) (h : legible parts = true) :
    legible (parts.map (put label value)) = true := by
  fun_induction legible parts with
  | case1 => rfl
  | case2 content rest ih =>
    obtain ⟨hcontent, hrest⟩ := Bool.and_eq_true_iff.mp h
    exact Bool.and_eq_true_iff.mpr ⟨hcontent, ih hrest⟩
  | case3 rest ih =>
    obtain ⟨hend, hrest⟩ := Bool.and_eq_true_iff.mp h
    exact Bool.and_eq_true_iff.mpr ⟨endsLine_put label value hend, ih hrest⟩
  | case4 other rest ih =>
    obtain ⟨hother, hrest⟩ := Bool.and_eq_true_iff.mp h
    rw [List.map_cons, put]
    split
    · simpa [legible, hvalue] using ih hrest
    · exact Bool.and_eq_true_iff.mpr ⟨hother, ih hrest⟩

theorem not_mem_of_all_isAlpha {c : Char} (hc : c.isAlpha = false) {label : String}
    (hlabel : label.toList.all Char.isAlpha) : c ∉ label.toList := by
  intro hmem
  have halpha := List.all_eq_true.mp hlabel c hmem
  rw [hc] at halpha
  cases halpha

/-- A placeholder is not taken for one with another label. -/
theorem dropPrefix?_slot {label other : String} (hlabel : label.toList.all Char.isAlpha)
    (hother : other.toList.all Char.isAlpha) (hne : other ≠ label) (rest : List Char) :
    dropPrefix? (slot label).written ('\x7b' :: (other.toList ++ ['\x7d'] ++ rest)) = none := by
  rw [Option.eq_none_iff_forall_ne_some]
  intro behind hbehind
  have htexts : other.toList ++ '\x7d' :: rest = label.toList ++ '\x7d' :: behind := by
    simpa [written] using Text.dropPrefix?_eq_some_iff.mp hbehind
  -- Both labels are what stands before the first closing brace.
  have hcut : Text.splitOnce ['\x7d'] (other.toList ++ '\x7d' :: rest) =
      some (other.toList, rest) :=
    Text.splitOnce_singleton_eq_some_iff.mpr ⟨rfl, not_mem_of_all_isAlpha rfl hother⟩
  have hcut' : Text.splitOnce ['\x7d'] (other.toList ++ '\x7d' :: rest) =
      some (label.toList, behind) :=
    Text.splitOnce_singleton_eq_some_iff.mpr ⟨htexts, not_mem_of_all_isAlpha rfl hlabel⟩
  rw [hcut, Option.some.injEq, Prod.mk.injEq] at hcut'
  exact hne (String.toList_inj.mp hcut'.1)

/-- The brace of a block is not taken for that of a placeholder. -/
theorem dropPrefix?_block {label : String} (hlabel : label.toList.all Char.isAlpha)
    {rest : List Part} (hend : endsLine rest = true) :
    dropPrefix? (slot label).written ('\x7b' :: rest.flatMap written) = none := by
  rw [Option.eq_none_iff_forall_ne_some]
  intro behind hbehind
  have htexts : rest.flatMap written = label.toList ++ '\x7d' :: behind := by
    simpa [written] using Text.dropPrefix?_eq_some_iff.mp hbehind
  fun_cases endsLine rest with
  | case1 => simp at htexts
  | case2 content rest =>
    obtain ⟨more, hmore⟩ : ∃ more, content.toList = '\n' :: more :=
      List.head?_eq_some_iff.mp (by simpa [endsLine] using hend)
    rw [List.flatMap_cons, written, hmore] at htexts
    cases hchars : label.toList with
    | nil => simp [hchars] at htexts
    | cons c cs =>
      rw [hchars] at htexts
      obtain rfl := (List.cons.inj htexts).1
      have hmem : '\n' ∈ label.toList := by simp [hchars]
      exact not_mem_of_all_isAlpha rfl hlabel hmem
  | case3 => simp_all [endsLine]

/-- Filling replaces the placeholders with the label, and nothing else. -/
theorem replaceAll_flatMap_written {parts : List Part} {label : String} (value : String)
    (hlabel : label.toList.all Char.isAlpha) (h : legible parts = true) :
    replaceAll (slot label).written value.toList (parts.flatMap written) =
      (parts.map (put label value)).flatMap written := by
  have hfirst : (slot label).written.head? = some '\x7b' := rfl
  have hpattern : (slot label).written ≠ [] := List.cons_ne_nil _ _
  fun_induction legible parts with
  | case1 => simp [replaceAll, Text.splitOnce]
  | case2 content rest ih =>
    obtain ⟨hcontent, hrest⟩ := Bool.and_eq_true_iff.mp h
    have hplain : '\x7b' ∉ (text content).written := by simpa [written] using hcontent
    rw [List.flatMap_cons, Text.replaceAll_append hfirst hplain, ih hrest]
    rfl
  | case3 rest ih =>
    obtain ⟨hend, hrest⟩ := Bool.and_eq_true_iff.mp h
    change replaceAll (slot label).written value.toList ('\x7b' :: rest.flatMap written) = _
    rw [Text.replaceAll_cons hpattern (dropPrefix?_block hlabel hend), ih hrest]
    rfl
  | case4 other rest ih =>
    obtain ⟨hother, hrest⟩ := Bool.and_eq_true_iff.mp h
    by_cases hsame : other = label
    · subst hsame
      rw [List.flatMap_cons, Text.replaceAll_pattern hpattern, ih hrest]
      simp [put, written]
    · -- Behind its brace another placeholder is plain text.
      have hmiss := dropPrefix?_slot hlabel hother hsame (rest.flatMap written)
      have hplain : '\x7b' ∉ other.toList ++ ['\x7d'] := by
        simp [not_mem_of_all_isAlpha (c := '\x7b') rfl hother]
      change replaceAll (slot label).written value.toList
        ('\x7b' :: (other.toList ++ ['\x7d'] ++ rest.flatMap written)) = _
      rw [Text.replaceAll_cons hpattern hmiss, Text.replaceAll_append hfirst hplain, ih hrest]
      simp [put, hsame, written]

end Part

/-- The text of a layout's parts. -/
def textOf (parts : List Part) : String :=
  String.ofList (parts.flatMap Part.written)

theorem replaceText_textOf {pattern : String} (label value : String) {parts : List Part}
    (hpattern : pattern.toList = (Part.slot label).written)
    (hlabel : label.toList.all Char.isAlpha) (h : Part.legible parts = true) :
    replaceText pattern value (textOf parts) = textOf (parts.map (Part.put label value)) := by
  rw [replaceText, textOf, String.toList_ofList, hpattern,
    Part.replaceAll_flatMap_written value hlabel h]
  rfl

namespace Names

/-- None of the names has an opening brace. -/
structure Plain (names : Names) : Prop where
  moduleName : '\x7b' ∉ names.moduleName.toList
  holder : '\x7b' ∉ names.holder.toList
  name : '\x7b' ∉ names.name.toList
  assign : '\x7b' ∉ names.assign.toList

/-- Fills the placeholders of the names. -/
def put (names : Names) (parts : List Part) : List Part :=
  (((parts.map (Part.put "module" names.moduleName)).map
    (Part.put "namespace" names.holder)).map
      (Part.put "name" names.name)).map (Part.put "assign" names.assign)

variable {names : Names} {parts : List Part}

theorem Plain.legible_put (hnames : names.Plain) (h : Part.legible parts = true) :
    Part.legible (names.put parts) = true :=
  Part.legible_put _ hnames.assign (Part.legible_put _ hnames.name
    (Part.legible_put _ hnames.holder (Part.legible_put _ hnames.moduleName h)))

/-- Names without opening braces are filled in as they are. -/
theorem Plain.fill_textOf (hnames : names.Plain) (parts : List Part)
    (h : Part.legible parts = true) : names.fill (textOf parts) = textOf (names.put parts) := by
  have hmodule := Part.legible_put "module" hnames.moduleName h
  have hholder := Part.legible_put "namespace" hnames.holder hmodule
  have hname := Part.legible_put "name" hnames.name hholder
  rw [fill, replaceText_textOf "module" _ (by decide) (by decide) h,
    replaceText_textOf "namespace" _ (by decide) (by decide) hmodule,
    replaceText_textOf "name" _ (by decide) (by decide) hholder,
    replaceText_textOf "assign" _ (by decide) (by decide) hname]
  rfl

/-- The function is filled in behind the names, so its text may hold any braces. -/
theorem Plain.expose_textOf (hnames : names.Plain) (function : String) (parts : List Part)
    (h : Part.legible parts = true) :
    replaceText "\x7bfn\x7d" function (names.fill (textOf parts)) =
      textOf ((names.put parts).map (Part.put "fn" function)) := by
  rw [hnames.fill_textOf parts h]
  exact replaceText_textOf "fn" function (by decide) (by decide) (hnames.legible_put h)

end Names

@[simp]
theorem textOf_nil : textOf [] = "" := rfl

@[simp]
theorem textOf_cons (part : Part) (parts : List Part) :
    textOf (part :: parts) = String.ofList part.written ++ textOf parts := by
  simp [textOf]

/-- The lines that bind the patch primitives as members of an object. -/
def memberLines (holder : String) : List String :=
  ["var patch = " ++ holder ++ ".patch",
    "var elementOpen = " ++ holder ++ ".elementOpen",
    "var elementClose = " ++ holder ++ ".elementClose",
    "var text = " ++ holder ++ ".text",
    "var skip = " ++ holder ++ ".skip",
    "var currentElement = " ++ holder ++ ".currentElement"]

/-- What stands around a program: the lines up to the bindings of the primitives, the texts before
    and behind the function, and the lines that follow. -/
structure Wrapper where
  head : List String
  front : String
  back : String
  foot : List String

/-- The wrapper of a mode. -/
def OutputMode.wrapper (mode : OutputMode) (api : PatchApi) (variableName : Option String)
    (name : String) : Wrapper :=
  match mode with
  | assigned =>
    let start := match variableName with
      | some target => "var " ++ target ++ " = "
      | none => ";"
    { head := (start ++ "(function () \x7b") :: memberLines api.holder
      front := "return "
      back := ""
      foot := ["\x7d)()"] }
  | browser =>
    { head := ("window." ++ name ++ " = (function () \x7b") :: memberLines api.holder
      front := "return "
      back := ""
      foot := ["\x7d)()"] }
  | esModule =>
    { head :=
        ["import \x7bpatch, elementOpen, elementClose, text, skip, currentElement\x7d from \"" ++
          api.moduleName ++ "\""]
      front := "export "
      back := ""
      foot := [] }
  | commonModule =>
    { head := ("var " ++ api.holder ++ " = require('" ++ api.moduleName ++ "')") ::
        memberLines api.holder
      front := "module.exports = "
      back := ""
      foot := [] }
  | asyncModule =>
    { head := ("define(['exports', '" ++ api.moduleName ++ "'], function (exports, " ++
        api.holder ++ ") \x7b") :: memberLines api.holder
      front := "exports." ++ name ++ " = (function () \x7b\n  return "
      back := "\n\x7d)()"
      foot := ["\x7d)"] }

/-- The wrapper that a program is packaged in. -/
def wrapperOf (options : Options) (program : Program) : Wrapper :=
  options.mode.wrapper options.patchApi options.variableName program.signature.name

/-- The lines of a wrapped program, with a blank line before the script, if there is any, and one
    before the function. -/
def Wrapper.lines (wrapper : Wrapper) (prologue function : String) : List String :=
  wrapper.head ++ (if prologue = "" then [] else ["", prologue]) ++
    ["", wrapper.front ++ function ++ wrapper.back] ++ wrapper.foot

section Filled

variable {options : Options} {program : Program}

theorem map_memberLine (holder : String) :
    primitives.map (memberLine holder) = memberLines holder := by
  simp [primitives, memberLine, memberLines, String.append_assoc]

/-- The lines before the script: what opens the wrapper, and the bindings of the primitives. -/
theorem head_wrapperOf (hnames : (packageNames options program).Plain) :
    (options.mode.layout.opening.map (packageNames options program).fill).toList ++
        options.mode.layout.bindings.lines (packageNames options program) =
      (wrapperOf options program).head := by
  unfold wrapperOf
  cases options.mode with
  | assigned =>
    -- Here and below, the text of the layout is that of the parts.
    have hfill := hnames.fill_textOf [.slot "assign", .text "(function () ", .block] rfl
    refine List.cons_eq_cons.mpr ⟨hfill.trans ?_, map_memberLine _⟩
    rw [← String.toList_inj]
    cases hvariable : options.variableName <;>
      simp [Names.put, Part.put, Part.written, packageNames, assignment, hvariable]
  | browser =>
    have hfill := hnames.fill_textOf
      [.text "window.", .slot "name", .text " = (function () ", .block] rfl
    refine List.cons_eq_cons.mpr ⟨hfill.trans ?_, map_memberLine _⟩
    simp [Names.put, Part.put, Part.written, packageNames, String.append_assoc]
  | esModule =>
    simp [OutputMode.layout, OutputMode.wrapper, Bindings.lines, primitives, packageNames]
  | commonModule =>
    have hfill := hnames.fill_textOf [.text "require('", .slot "module", .text "')"] rfl
    refine List.cons_eq_cons.mpr ⟨(congrArg _ hfill).trans ?_, map_memberLine _⟩
    rw [← String.toList_inj]
    simp [Names.put, Part.put, Part.written, packageNames, String.append_assoc]
  | asyncModule =>
    have hfill := hnames.fill_textOf [.text "define(['exports', '", .slot "module",
      .text "'], function (exports, ", .slot "namespace", .text ") ", .block] rfl
    refine List.cons_eq_cons.mpr ⟨hfill.trans ?_, map_memberLine _⟩
    simp [Names.put, Part.put, Part.written, packageNames, String.append_assoc]

/-- The function in its place. -/
theorem exposed_wrapperOf (hnames : (packageNames options program).Plain) (function : String) :
    replaceText "\x7bfn\x7d" function
        ((packageNames options program).fill options.mode.layout.exposing) =
      (wrapperOf options program).front ++ function ++ (wrapperOf options program).back := by
  unfold wrapperOf
  cases options.mode with
  | assigned =>
    refine (hnames.expose_textOf function [.text "return ", .slot "fn"] rfl).trans ?_
    simp [Names.put, Part.put, Part.written, OutputMode.wrapper]
  | browser =>
    refine (hnames.expose_textOf function [.text "return ", .slot "fn"] rfl).trans ?_
    simp [Names.put, Part.put, Part.written, OutputMode.wrapper]
  | esModule =>
    refine (hnames.expose_textOf function [.text "export ", .slot "fn"] rfl).trans ?_
    simp [Names.put, Part.put, Part.written, OutputMode.wrapper]
  | commonModule =>
    refine (hnames.expose_textOf function [.text "module.exports = ", .slot "fn"] rfl).trans ?_
    simp [Names.put, Part.put, Part.written, OutputMode.wrapper]
  | asyncModule =>
    refine (hnames.expose_textOf function [.text "exports.", .slot "name", .text " = (function () ",
      .block, .text "\n  return ", .slot "fn", .text "\n\x7d)()"] rfl).trans ?_
    rw [← String.toList_inj]
    simp [Names.put, Part.put, Part.written, OutputMode.wrapper, packageNames, String.append_assoc]

theorem foot_wrapperOf (hnames : (packageNames options program).Plain) :
    (options.mode.layout.closing.map (packageNames options program).fill).toList =
      (wrapperOf options program).foot := by
  unfold wrapperOf
  cases options.mode with
  | assigned => exact congrArg (· :: []) (hnames.fill_textOf [.text "\x7d)()"] rfl)
  | browser => exact congrArg (· :: []) (hnames.fill_textOf [.text "\x7d)()"] rfl)
  | esModule => rfl
  | commonModule => rfl
  | asyncModule => exact congrArg (· :: []) (hnames.fill_textOf [.text "\x7d)"] rfl)

end Filled

theorem head_wrapperOf_ne_nil (options : Options) (program : Program) :
    (wrapperOf options program).head ≠ [] := by
  unfold wrapperOf
  cases options.mode <;> exact List.cons_ne_nil _ _

/-- Blocks with a blank line between each two are lines with an empty line between each two. -/
theorem intercalate_blocks {head : List String} (hhead : head ≠ []) (prologue exposed : String) :
    "\n\n".intercalate
        (Text.joinLines head :: (if prologue = "" then [] else [prologue]) ++ [exposed]) =
      Text.joinLines
        (head ++ (if prologue = "" then [] else ["", prologue]) ++ ["", exposed]) := by
  rw [← String.toList_inj]
  split <;>
    simp [Text.joinLines, String.intercalate_cons_cons, String.intercalate_append_of_ne_nil hhead]

theorem joinLines_concat {lines : List String} (hlines : lines ≠ []) (line : String) :
    Text.joinLines (lines ++ [line]) = Text.joinLines lines ++ "\n" ++ line := by
  rw [Text.joinLines, String.intercalate_append_of_ne_nil hlines (List.cons_ne_nil _ _),
    String.intercalate_singleton]
  rfl

theorem packageNames_plain {options : Options} {program : Program}
    (hmodule : '\x7b' ∉ options.patchApi.moduleName.toList)
    (hholder : '\x7b' ∉ options.patchApi.holder.toList)
    (hname : '\x7b' ∉ program.signature.name.toList)
    (hvariable : ∀ target ∈ options.variableName, '\x7b' ∉ target.toList) :
    (packageNames options program).Plain := by
  refine ⟨hmodule, hholder, hname, ?_⟩
  cases htarget : options.variableName with
  | none => simp [packageNames, assignment, htarget]
  | some target =>
    have hplain := hvariable target htarget
    simp [packageNames, assignment, htarget, hplain]

/-- A program is packaged in the wrapper of its mode, line by line, if no name has an opening brace.
    Script and function stand in it as they are, whatever braces they hold. -/
theorem package_eq_wrapper_lines (options : Options) (program : Program)
    (hmodule : '\x7b' ∉ options.patchApi.moduleName.toList)
    (hholder : '\x7b' ∉ options.patchApi.holder.toList)
    (hname : '\x7b' ∉ program.signature.name.toList)
    (hvariable : ∀ target ∈ options.variableName, '\x7b' ∉ target.toList) :
    package options program =
      Text.joinLines ((wrapperOf options program).lines program.prologue
        (program.function options.indentWidth)) ++ "\n" := by
  have hnames := packageNames_plain hmodule hholder hname hvariable
  have hhead := head_wrapperOf_ne_nil options program
  rw [package, head_wrapperOf hnames, exposed_wrapperOf hnames, intercalate_blocks hhead,
    Wrapper.lines, ← foot_wrapperOf hnames]
  cases options.mode.layout.closing with
  | none => simp
  | some closing =>
    rw [Option.map_some, Option.toList_some, joinLines_concat (by simp)]

/-- Braces in the script and in the function, and a closing one in the name of the module. -/
theorem package_eq_wrapper_lines_async :
    let options : Options :=
      { mode := .asyncModule, variableName := some "view", patchApi := ⟨"lib\x7dname", "Dom"⟩,
        indentWidth := 4 }
    let program : Program :=
      ⟨⟨"render", ["data"]⟩, ["text('\x7bname\x7d \x7bfn\x7d')"], "let fn = '\x7bmodule\x7d'"⟩
    package options program =
      "define(['exports', 'lib\x7dname'], function (exports, Dom) \x7b\n" ++
      "var patch = Dom.patch\nvar elementOpen = Dom.elementOpen\n" ++
      "var elementClose = Dom.elementClose\nvar text = Dom.text\nvar skip = Dom.skip\n" ++
      "var currentElement = Dom.currentElement\n\nlet fn = '\x7bmodule\x7d'\n\n" ++
      "exports.render = (function () \x7b\n  return function render (data) \x7b\n" ++
      "    text('\x7bname\x7d \x7bfn\x7d')\n\x7d\n\x7d)()\n\x7d)\n" := by
  intro options program
  rw [package_eq_wrapper_lines options program (by decide) (by decide) (by decide) (by decide)]
  decide +kernel

end TemplateCompiler.Package
