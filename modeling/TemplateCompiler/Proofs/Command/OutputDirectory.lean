import Mathlib.Data.List.Nodup
import TemplateCompiler.Proofs.Command.Runs

namespace TemplateCompiler.Command

section Names

/-- The name that the code of a file is written under, without its extension. -/
def outputName? (file : String) : Option (List Char) :=
  ((Path.fileStem? file).filter fun stem => stem != "." && stem != "..").map fun stem =>
    Path.stemOf stem.toList

/-- A stem that code is written under as it is. -/
def IsPlainStem (stem : String) : Prop :=
  stem ≠ "." ∧ '.' ∉ stem.toList.tail

variable {file stem : String} {name : List Char}

theorem outputName?_of_stem (hstem : Path.fileStem? file = some stem) (hdot : stem ≠ ".")
    (hup : stem ≠ "..") : outputName? file = some (Path.stemOf stem.toList) := by
  rw [outputName?, hstem]
  simp [Option.filter, hdot, hup]

theorem outputName?_of_dots (hstem : Path.fileStem? file = some stem)
    (hdots : stem = "." ∨ stem = "..") : outputName? file = none := by
  rw [outputName?, hstem]
  obtain rfl | rfl := hdots <;> rfl

/-- Code is written under the stem itself if and only if that is plain. -/
theorem outputName?_eq_stem_iff (hstem : Path.fileStem? file = some stem) :
    outputName? file = some stem.toList ↔ IsPlainStem stem := by
  by_cases hdots : stem = "." ∨ stem = ".."
  · rw [outputName?_of_dots hstem hdots]
    obtain rfl | rfl := hdots <;> simp [IsPlainStem]
  · obtain ⟨hdot, hup⟩ := not_or.mp hdots
    have hup' : stem.toList ≠ ['.', '.'] := fun heq => hup (String.toList_inj.mp heq)
    rw [outputName?_of_stem hstem hdot hup, Option.some.injEq, Path.stemOf_eq_self_iff hup']
    exact (and_iff_right hdot).symm

theorem exists_stem_of_outputName? (hfile : outputName? file = some name) :
    ∃ stem, Path.fileStem? file = some stem ∧ Path.stemOf stem.toList = name := by
  obtain ⟨stem, hstem, hname⟩ := Option.map_eq_some_iff.mp hfile
  exact ⟨stem, (Option.filter_eq_some_iff.mp hstem).1, hname⟩

/-- The code of a file is written at the place of a name if and only if that is its name. -/
theorem place?_output_iff {tree : FileTree} {directory : String} {place : List String}
    (hname : Path.IsPart name) (hstem : Path.fileStem? file = some stem)
    (hplace : tree.place? (Path.withExtension (Path.join directory stem) "js") = some place) :
    tree.place? (Path.join directory (Path.extended name "js")) = some place ↔
      outputName? file = some name := by
  have hat {name : List Char} (hname : Path.IsPart name) :
      tree.place? (Path.join directory (Path.extended name "js")) =
        (tree.home? directory).map (· ++ [Path.extended name "js"]) := by
    obtain ⟨hdot, hup⟩ := Path.extended_ne_dots hname.1 (show "js" ≠ "" by decide)
    exact FileTree.place?_join tree (hname.extended (by decide)) hdot hup directory
  by_cases hdot : stem = "."
  · subst hdot
    rw [outputName?_of_dots hstem (.inl rfl), hat hname]
    constructor
    · intro hjoined
      obtain ⟨home, hhome, rfl⟩ := Option.map_eq_some_iff.mp hjoined
      have hlength := FileTree.length_place?_withExtension_dot (by decide) hplace hhome
      simp at hlength
    · intro hnone
      cases hnone
  by_cases hup : stem = ".."
  · subst hup
    rw [Path.withExtension_join_up, FileTree.place?_join_dots tree (.inr rfl)] at hplace
    cases hplace
  have hpart := Path.isPart_of_fileStem? hstem
  rw [Path.withExtension_join hpart hdot hup (by decide), hat hpart.stemOf] at hplace
  obtain ⟨home, hhome, rfl⟩ := Option.map_eq_some_iff.mp hplace
  rw [outputName?_of_stem hstem hdot hup, hat hname, hhome, Option.map_some, Option.some.injEq,
    List.append_cancel_left_eq, List.singleton_inj, Path.extended_inj, Option.some.injEq, eq_comm]

end Names

section Writing

variable {directory : String} {tree : FileTree} {output : Output} {outputs : List Output}

theorem exists_of_writeOutputs_cons
    (hsuccess : (writeOutputs directory tree (output :: outputs)).2 = none) :
    ∃ file stem written, output.path = some file ∧ Path.fileStem? file = some stem ∧
      tree.write (Path.withExtension (Path.join directory stem) "js") output.code = .ok written ∧
      writeOutputs directory tree (output :: outputs) = writeOutputs directory written outputs := by
  cases hstem : output.path.bind Path.fileStem? with
  | none =>
    rw [writeOutputs, outputPath?, hstem] at hsuccess
    cases hsuccess
  | some stem =>
    obtain ⟨file, hfile, hstem'⟩ := Option.bind_eq_some_iff.mp hstem
    rw [writeOutputs, outputPath?, hstem, Option.map_some] at hsuccess ⊢
    cases hwrite : tree.write (Path.withExtension (Path.join directory stem) "js") output.code with
    | error failure =>
      simp only [hwrite] at hsuccess
      cases hsuccess
    | ok written => exact ⟨file, stem, written, hfile, hstem', hwrite, by simp only [hwrite]⟩

/-- Of all outputs with one name the last is kept. Without any, what was there stays. -/
theorem read?_writeOutputs {name : List Char} (hname : Path.IsPart name)
    (hsuccess : (writeOutputs directory tree outputs).2 = none) :
    (writeOutputs directory tree outputs).1.read? (Path.join directory (Path.extended name "js")) =
      ((outputs.reverse.find? fun output => output.path.bind outputName? = some name).map
        Output.code).or (tree.read? (Path.join directory (Path.extended name "js"))) := by
  induction outputs generalizing tree with
  | nil => rfl
  | cons output outputs ih =>
    obtain ⟨file, stem, written, hfile, hstem, hwrite, hlater⟩ :=
      exists_of_writeOutputs_cons hsuccess
    rw [hlater] at hsuccess ⊢
    obtain ⟨place, hplace, -⟩ := FileTree.exists_place_of_write hwrite
    obtain ⟨-, hread⟩ := FileTree.read?_write hwrite (Path.join directory (Path.extended name "js"))
    rw [ih hsuccess, hread, hplace, List.reverse_cons, List.find?_append, Option.map_or,
      Option.or_assoc, List.find?_singleton, hfile, Option.bind_some]
    by_cases hnamed : outputName? file = some name
    · rw [if_pos ((place?_output_iff hname hstem hplace).mpr hnamed),
        if_pos (decide_eq_true hnamed), Option.map_some, Option.some_or]
    · rw [if_neg (mt (place?_output_iff hname hstem hplace).mp hnamed),
        if_neg (by simpa using hnamed), Option.map_none, Option.none_or]

end Writing

section Run

variable {arguments : Arguments} {stdin : Option String} {tree : FileTree} {directory : String}
  {parse? : String → Option Options}

/-- A run into a directory creates it and writes every output. -/
theorem exists_of_run_into_directory (hdirectory : arguments.outDir = some directory)
    (hcheck : arguments.check = false)
    (hsuccess : (arguments.run stdin tree parse?).error = none) :
    ∃ configured inputs reports outputs created,
      Prepared arguments ⟨tree.read?, stdin, parse?⟩ configured inputs ∧
      compileInputs (arguments.override configured) inputs = (reports, .ok outputs) ∧
      tree.createDirectories directory = .ok created ∧
      (writeOutputs directory created outputs).2 = none ∧
      (arguments.run stdin tree parse?).tree = (writeOutputs directory created outputs).1 := by
  obtain ⟨configured, inputs, reports, outputs, h, hcompiled⟩ :=
    exists_prepared_of_success hcheck hsuccess
  have hrun := h.run_of_compiled hcompiled hcheck
  rw [Arguments.effect, hdirectory] at hrun
  dsimp only [Effect.apply] at hrun
  cases hcreated : tree.createDirectories directory with
  | error failure =>
    rw [hrun, hcreated] at hsuccess
    cases hsuccess
  | ok created =>
    rw [hcreated] at hrun
    rw [hrun] at hsuccess
    exact ⟨configured, inputs, reports, outputs, created, h, hcompiled, rfl, hsuccess, by rw [hrun]⟩

/-- Under each name the directory holds the code of the last file that is written there, or what it
    held before. -/
theorem read?_run_into_directory (hdirectory : arguments.outDir = some directory)
    (hcheck : arguments.check = false)
    (hsuccess : (arguments.run stdin tree parse?).error = none) :
    ∃ configured created, arguments.configured ⟨tree.read?, stdin, parse?⟩ = .ok configured ∧
      tree.createDirectories directory = .ok created ∧
      (∀ file ∈ arguments.files, ∃ code,
        World.code? ⟨tree.read?, stdin, parse?⟩ (arguments.override configured) file = some code) ∧
      ∀ name, Path.IsPart name →
        (arguments.run stdin tree parse?).tree.read?
            (Path.join directory (Path.extended name "js")) =
          ((arguments.files.filter fun file => outputName? file = some name).getLast?.bind
            (World.code? ⟨tree.read?, stdin, parse?⟩ (arguments.override configured))).or
            (created.read? (Path.join directory (Path.extended name "js"))) := by
  obtain ⟨configured, inputs, reports, outputs, created, h, hcompiled, hcreated, hwritten, htree⟩ :=
    exists_of_run_into_directory hdirectory hcheck hsuccess
  refine ⟨configured, created, h.configured_eq, hcreated, fun file => h.exists_code hcompiled,
    fun name hname => ?_⟩
  have hfiles := h.files_ne_nil (by rw [hdirectory]; rfl)
  have hlast := congrArg (fun pairs => (pairs.reverse.find?
    fun pair : Option String × Option String => pair.1.bind outputName? = some name).bind (·.2))
    (h.map_code?_eq hcompiled hfiles)
  simp only [← List.map_reverse, List.find?_map, Option.bind_map, Function.comp_def,
    Option.bind_some] at hlast
  rw [htree, read?_writeOutputs hname hwritten, List.getLast?_eq_head?_reverse,
    ← List.filter_reverse, List.head?_filter, hlast, Option.map_eq_bind]
  rfl

/-- Under a name there is what was there before, or the code of a file that is written there. -/
theorem unchanged_or_written {files : List String} {code? : String → Option String}
    {name : List Char} {before kept : Option String}
    (hcodes : ∀ file ∈ files, ∃ code, code? file = some code)
    (hkept : kept =
      ((files.filter fun file => outputName? file = some name).getLast?.bind code?).or before) :
    (kept = before ∧ ∀ file ∈ files, outputName? file ≠ some name) ∨
      ∃ file ∈ files, outputName? file = some name ∧ kept = code? file := by
  cases hlast : (files.filter fun file => outputName? file = some name).getLast? with
  | none =>
    left
    refine ⟨?_, fun file hfile hnamed => ?_⟩
    · rw [hkept, hlast, Option.bind_none, Option.none_or]
    · have hnone := List.filter_eq_nil_iff.mp (List.getLast?_eq_none_iff.mp hlast) file hfile
      exact hnone (decide_eq_true hnamed)
  | some file =>
    right
    obtain ⟨hfile, hnamed⟩ := List.mem_filter.mp (List.mem_of_getLast? hlast)
    obtain ⟨code, hcode⟩ := hcodes file hfile
    refine ⟨file, hfile, of_decide_eq_true hnamed, ?_⟩
    rw [hkept, hlast, Option.bind_some, hcode, Option.some_or]

/-- Under the stem of a file, the output directory holds the code of the last file that is written
    under that name, or what it held before. A file is written under its own stem if and only if
    that is plain. So a file with a plain stem is kept unless another stem is cut to it, and a file
    with another stem is lost. -/
theorem outDir_keeps_plain_stems (hdirectory : arguments.outDir = some directory)
    (hcheck : arguments.check = false)
    (hsuccess : (arguments.run stdin tree parse?).error = none)
    (hdistinct : (arguments.files.map Path.fileStem?).Nodup) :
    ∃ configured created, arguments.configured ⟨tree.read?, stdin, parse?⟩ = .ok configured ∧
      tree.createDirectories directory = .ok created ∧
      let code? := World.code? ⟨tree.read?, stdin, parse?⟩ (arguments.override configured)
      ∀ file ∈ arguments.files, ∃ stem code, Path.fileStem? file = some stem ∧
        code? file = some code ∧
        let path := Path.join directory (stem ++ ".js")
        let writers := arguments.files.filter fun other => outputName? other = some stem.toList
        let kept := (arguments.run stdin tree parse?).tree.read? path
        kept = (writers.getLast?.bind code?).or (created.read? path) ∧
        (file ∈ writers ↔ IsPlainStem stem) ∧
        (IsPlainStem stem →
          (∀ other ∈ arguments.files, ∀ cut, Path.fileStem? other = some cut → ¬IsPlainStem cut →
            Path.stemOf cut.toList ≠ stem.toList) →
          kept = some code) ∧
        (¬IsPlainStem stem →
          kept = created.read? path ∨
            ∃ other ∈ arguments.files, other ≠ file ∧ kept = code? other) := by
  obtain ⟨configured, created, hconfigured, hcreated, hcodes, hread⟩ :=
    read?_run_into_directory hdirectory hcheck hsuccess
  refine ⟨configured, created, hconfigured, hcreated, fun file hfile => ?_⟩
  obtain ⟨code, hcode⟩ := hcodes file hfile
  obtain ⟨stem, hstem⟩ := exists_stem_of_code? hcode
  have hkept := hread stem.toList (Path.isPart_of_fileStem? hstem)
  have hpath : Path.extended stem.toList "js" = stem ++ ".js" := by
    rw [← String.toList_inj, Path.extended, String.toList_ofList, String.toList_append]
    rfl
  rw [hpath] at hkept
  have hwriter := unchanged_or_written hcodes hkept
  have hown := outputName?_eq_stem_iff hstem
  refine ⟨stem, code, hstem, hcode, hkept, ?_, fun hplain hcuts => ?_, fun hlost => ?_⟩
  · rw [List.mem_filter, decide_eq_true_iff, and_iff_right hfile, hown]
  · obtain ⟨-, hnone⟩ | ⟨other, hother, hnamed, hheld⟩ := hwriter
    · exact absurd (hown.mpr hplain) (hnone file hfile)
    · obtain ⟨cut, hcut, hsame⟩ := exists_stem_of_outputName? hnamed
      have hplainCut : IsPlainStem cut :=
        Classical.not_not.mp fun hnot => hcuts other hother cut hcut hnot hsame
      rw [Path.stemOf_of_notMem_tail hplainCut.2, String.toList_inj] at hsame
      have heq : other = file :=
        List.inj_on_of_nodup_map hdistinct hother hfile (by rw [hcut, hstem, hsame])
      rw [hheld, heq, hcode]
  · obtain ⟨hheld, -⟩ | ⟨other, hother, hnamed, hheld⟩ := hwriter
    · exact .inl hheld
    · exact .inr ⟨other, hother, fun heq => hlost (hown.mp (heq ▸ hnamed)), hheld⟩

/-- A command that compiles files into a directory. -/
def compileInto (directory : String) (files : List String) : Arguments :=
  { outDir := some directory, files := files }

/-- A plain stem beside one with a dot, which is reached from above the working directory. The
    output directory is given from the root. -/
theorem outDir_keeps_plain_stems_beside_dotted :
    let tree := FileTree.ofFiles [("a.html", some "<p></p>"), ("b.c.html", some "<i></i>")]
    let arguments := compileInto "/dist" ["a.html", "../work/b.c.html"]
    (arguments.run none tree).error = none ∧
      ∃ code, World.code? ⟨tree.read?, none, readConfig?⟩ (arguments.override {}) "a.html" =
          some code ∧
        (arguments.run none tree).tree.read? "/dist/a.js" = some code := by
  intro tree arguments
  have hsuccess : (arguments.run none tree).error = none := by decide +kernel
  obtain ⟨configured, created, hconfigured, -, hkept⟩ :=
    outDir_keeps_plain_stems (show arguments.outDir = some "/dist" from rfl) rfl hsuccess
      (by decide)
  obtain rfl := Except.ok.inj hconfigured
  obtain ⟨stem, code, hstem, hcode, -, -, hplain, -⟩ := hkept "a.html" (by decide)
  obtain rfl := Option.some.inj hstem
  refine ⟨hsuccess, code, hcode, hplain ⟨by decide, by decide⟩ ?_⟩
  intro other (hother : other ∈ ["a.html", "../work/b.c.html"]) cut hcut hdotted
  obtain rfl | rfl : other = "a.html" ∨ other = "../work/b.c.html" := by simpa using hother
  · obtain rfl := Option.some.inj hcut
    exact absurd ⟨by decide, by decide⟩ hdotted
  · obtain rfl := Option.some.inj hcut
    decide

/-- Two files with distinct stems are compiled, but there is one output. -/
theorem outDir_loses_dotted_stems :
    let tree := FileTree.ofFiles [("a.html", some "<p></p>"), ("a.b.html", some "<i></i>")]
    let arguments := compileInto "dist" ["a.html", "a.b.html"]
    let outcome := arguments.run none tree
    (arguments.files.map Path.fileStem?).Nodup ∧ outcome.error = none ∧
      (World.code? ⟨tree.read?, none, readConfig?⟩ (arguments.override {}) "a.b.html").isSome ∧
      outcome.tree.read? "dist/a.b.js" = none ∧
      outcome.tree.entries.map Prod.fst =
        [["work"], ["work", "a.html"], ["work", "a.b.html"], ["work", "dist"],
          ["work", "dist", "a.js"]] := by
  decide +kernel

end Run

end TemplateCompiler.Command
