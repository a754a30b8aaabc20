import TemplateCompiler.Proofs.Command.FileTrees

namespace TemplateCompiler.Command

theorem exists_of_bind_eq_ok {ε α β : Type} {first : Except ε α} {next : α → Except ε β}
    {result : β} (h : first >>= next = .ok result) :
    ∃ value, first = .ok value ∧ next value = .ok result := by
  cases first with
  | error failure => cases h
  | ok value => exact ⟨value, rfl, h⟩

/-- Arguments without two that exclude each other: a check writes nothing, and the code goes to a
    file or into a directory. -/
structure Arguments.Accepted (arguments : Arguments) : Prop where
  check : arguments.check = true → arguments.output = none ∧ arguments.outDir = none
  output : arguments.output.isSome = true → arguments.outDir = none

theorem Matches.value?_eq_none_of_conflict {found : Matches} {exclusive : List (String × String)}
    (hconflict : found.hasConflict exclusive = false) {one other : String}
    (hpair : (one, other) ∈ exclusive) (hone : found.mentions one = true) :
    found.value? other = none := by
  cases hvalue : found.value? other with
  | none => rfl
  | some value =>
    have hother : found.mentions other = true := by
      rw [mentions, hvalue]
      exact Bool.or_true _
    have hconflict' : found.hasConflict exclusive = true :=
      List.any_eq_true.mpr ⟨_, hpair, Bool.and_eq_true_iff.mpr ⟨hone, hother⟩⟩
    rw [hconflict] at hconflict'
    cases hconflict'

/-- Without conflicts among its switches, a command line gives arguments that are accepted. -/
theorem accepted_ofMatches {found : Matches}
    (hconflict : found.hasConflict exclusiveSwitches = false) :
    (Arguments.ofMatches found).Accepted := by
  have hexcluded {one other : String} (hpair : (one, other) ∈ exclusiveSwitches) :=
    Matches.value?_eq_none_of_conflict hconflict hpair
  constructor
  · intro hcheck
    have hmentioned : found.mentions "check" = true := by
      rw [Matches.mentions, Bool.or_eq_true]
      exact .inl hcheck
    exact ⟨hexcluded (by decide) hmentioned, hexcluded (by decide) hmentioned⟩
  · intro houtput
    have hmentioned : found.mentions "output" = true := by
      rw [Matches.mentions, Bool.or_eq_true]
      exact .inr houtput
    exact hexcluded (by decide) hmentioned

/-- Arguments that are read from a command line are accepted. -/
theorem accepted_of_read {words : List String} {arguments : Arguments}
    (hread : Invocation.read words = .ok (.compile arguments)) : arguments.Accepted := by
  obtain ⟨⟨progress, subcommand⟩, -, hcommand⟩ := exists_of_bind_eq_ok hread
  dsimp only at hcommand
  split at hcommand
  · obtain ⟨found, hfound, harguments⟩ := exists_of_bind_eq_ok hcommand
    obtain ⟨settled, -, hconclude⟩ := exists_of_bind_eq_ok hfound
    split at hconclude
    · cases hconclude
    · rename_i hconflict
      obtain rfl := Except.ok.inj hconclude
      cases harguments
      exact accepted_ofMatches (Bool.eq_false_iff.mpr hconflict)
  · obtain ⟨shell, -, hrest⟩ := exists_of_bind_eq_ok hcommand
    obtain ⟨found, -, hcompletion⟩ := exists_of_bind_eq_ok hrest
    cases hcompletion
  · cases hcommand

section Inputs

variable {world : World}

theorem readInputs_cons_eq_ok {file : String} {files : List String} {inputs : List Input}
    (h : readInputs world (file :: files) = .ok inputs) :
    ∃ source later, world.read? file = some source ∧ readInputs world files = .ok later ∧
      inputs = ⟨some file, source⟩ :: later := by
  rw [readInputs] at h
  split at h
  · cases h
  · rename_i source hsource
    cases hlater : readInputs world files with
    | error failure =>
      rw [hlater] at h
      cases h
    | ok later =>
      rw [hlater] at h
      exact ⟨source, later, hsource, rfl, (Except.ok.inj h).symm⟩

theorem compileInputs_cons_eq_ok_iff {options : Options} {input : Input} {inputs : List Input}
    {reports : List Report} {outputs : List Output} :
    compileInputs options (input :: inputs) = (reports, .ok outputs) ↔
      ∃ compiled laterReports laterOutputs,
        compile (optionsFor options input.path) input.source = .ok compiled ∧
        compileInputs options inputs = (laterReports, .ok laterOutputs) ∧
        reports = compiled.diagnostics.map (⟨input, ·⟩) ++ laterReports ∧
        outputs = ⟨input.path, compiled.code⟩ :: laterOutputs := by
  rw [compileInputs]
  cases compile (optionsFor options input.path) input.source with
  | error failure => simp
  | ok compiled =>
    obtain ⟨laterReports, laterOutputs⟩ := compileInputs options inputs
    cases laterOutputs with
    | error failure => simp [Except.map]
    | ok laterOutputs => simp [Except.map, eq_comm, and_assoc]

/-- The code that is compiled from a file, if it can be read and compiled. -/
def World.code? (world : World) (options : Options) (file : String) : Option String :=
  (world.read? file).bind fun source =>
    (compile (optionsFor options (some file)) source).toOption.map Compiled.code

theorem code?_eq_some_iff {options : Options} {file code : String} :
    world.code? options file = some code ↔
      ∃ source compiled, world.read? file = some source ∧
        compile (optionsFor options (some file)) source = .ok compiled ∧ compiled.code = code := by
  rw [World.code?]
  cases world.read? file with
  | none => simp
  | some source =>
    cases hcompile : compile (optionsFor options (some file)) source with
    | error failure => simp [hcompile, Except.toOption]
    | ok compiled => simp [hcompile, Except.toOption]

/-- Each file is compiled on its own. -/
theorem map_code?_eq {options : Options} {files : List String} {inputs : List Input}
    {reports : List Report} {outputs : List Output} (hread : readInputs world files = .ok inputs)
    (hcompiled : compileInputs options inputs = (reports, .ok outputs)) :
    files.map (fun file => (some file, world.code? options file)) =
      outputs.map (fun output => (output.path, some output.code)) := by
  induction files generalizing inputs reports outputs with
  | nil =>
    obtain rfl := Except.ok.inj hread
    cases hcompiled
    rfl
  | cons file files ih =>
    obtain ⟨source, later, hsource, hlater, rfl⟩ := readInputs_cons_eq_ok hread
    obtain ⟨compiled, laterReports, laterOutputs, hfirst, hrest, -, rfl⟩ :=
      compileInputs_cons_eq_ok_iff.mp hcompiled
    have hcode := code?_eq_some_iff.mpr ⟨source, compiled, hsource, hfirst, rfl⟩
    rw [List.map_cons, List.map_cons, hcode, ih hlater hrest]

/-- Nothing is reported if and only if every template is compiled without a problem. -/
theorem compileInputs_silent_iff {options : Options} {inputs : List Input} :
    (∃ outputs, compileInputs options inputs = ([], .ok outputs)) ↔
      ∀ input ∈ inputs, ∃ compiled,
        compile (optionsFor options input.path) input.source = .ok compiled ∧
        compiled.diagnostics = [] := by
  induction inputs with
  | nil => exact ⟨fun _ => List.forall_mem_nil _, fun _ => ⟨[], rfl⟩⟩
  | cons input inputs ih =>
    rw [List.forall_mem_cons, ← ih]
    constructor
    · rintro ⟨outputs, hsilent⟩
      obtain ⟨compiled, laterReports, laterOutputs, hfirst, hrest, hreports, -⟩ :=
        compileInputs_cons_eq_ok_iff.mp hsilent
      obtain ⟨hmap, rfl⟩ := List.append_eq_nil_iff.mp hreports.symm
      exact ⟨⟨compiled, hfirst, List.map_eq_nil_iff.mp hmap⟩, laterOutputs, hrest⟩
    · rintro ⟨⟨compiled, hfirst, hdiagnostics⟩, laterOutputs, hrest⟩
      refine ⟨_, compileInputs_cons_eq_ok_iff.mpr
        ⟨compiled, [], laterOutputs, hfirst, hrest, ?_, rfl⟩⟩
      rw [hdiagnostics]
      rfl

end Inputs

section Plan

variable {arguments : Arguments} {world : World} {options : Options} {inputs : List Input}

/-- What a run goes on with once everything is read. -/
structure Prepared (arguments : Arguments) (world : World) (configured : Options)
    (inputs : List Input) : Prop where
  configured_eq : arguments.configured world = .ok configured
  inputs_eq : arguments.inputs world = .ok inputs
  named : ¬(arguments.outDir.isSome ∧ inputs.any (·.path.isNone))
  single : ¬(arguments.output.isSome ∧ inputs.length > 1)

theorem prepare_eq_ok_iff :
    arguments.prepare world = .ok (options, inputs) ↔
      ∃ configured, Prepared arguments world configured inputs ∧
        options = arguments.override configured := by
  constructor
  · intro hprepare
    obtain ⟨configured, hconfigured, hrest⟩ := exists_of_bind_eq_ok hprepare
    obtain ⟨read, hread, hjudged⟩ := exists_of_bind_eq_ok hrest
    split at hjudged
    · cases hjudged
    rename_i hnamed
    split at hjudged
    · cases hjudged
    rename_i hsingle
    cases hjudged
    exact ⟨configured, ⟨hconfigured, hread, hnamed, hsingle⟩, rfl⟩
  · rintro ⟨configured, h, rfl⟩
    unfold Arguments.prepare
    rw [h.configured_eq, h.inputs_eq]
    exact (if_neg h.named).trans (if_neg h.single)

end Plan

section Run

variable {arguments : Arguments} {stdin : Option String} {tree : FileTree}
  {parse? : String → Option Options}

/-- Code comes from a file that has a stem. -/
theorem exists_stem_of_code? {options : Options} {file code : String}
    (hcode : World.code? ⟨tree.read?, stdin, parse?⟩ options file = some code) :
    ∃ stem, Path.fileStem? file = some stem := by
  obtain ⟨source, compiled, hsource, -⟩ := code?_eq_some_iff.mp hcode
  exact FileTree.exists_fileStem?_of_read? hsource

section Prepared

variable {configured : Options} {inputs : List Input} {reports : List Report}
  {outputs : List Output} (h : Prepared arguments ⟨tree.read?, stdin, parse?⟩ configured inputs)

include h

theorem Prepared.run_of_error {error : RunError}
    (hfailed : compileInputs (arguments.override configured) inputs = (reports, .error error)) :
    arguments.run stdin tree parse? = ⟨"", tree, reports, some error⟩ := by
  have hprepare := prepare_eq_ok_iff.mpr ⟨configured, h, rfl⟩
  simp only [Arguments.run, Arguments.plan, hprepare, hfailed]

/-- Standard input cannot be compiled into a directory. -/
theorem Prepared.files_ne_nil (hdirectory : arguments.outDir.isSome) : arguments.files ≠ [] := by
  intro hfiles
  have hread := h.inputs_eq
  rw [Arguments.inputs, if_pos hfiles] at hread
  split at hread
  · cases hread
  · obtain rfl := Except.ok.inj hread
    exact h.named ⟨hdirectory, rfl⟩

variable (hcompiled : compileInputs (arguments.override configured) inputs = (reports, .ok outputs))

include hcompiled

theorem Prepared.run_of_check (hcheck : arguments.check = true) :
    arguments.run stdin tree parse? =
      ⟨"", tree, reports, if reports = [] then none else some (.problemsFound reports.length)⟩ := by
  have hprepare := prepare_eq_ok_iff.mpr ⟨configured, h, rfl⟩
  by_cases hsilent : reports = []
  · simp only [Arguments.run, Arguments.plan, hprepare, hcompiled, hcheck, hsilent, if_true]
    rfl
  · simp only [Arguments.run, Arguments.plan, hprepare, hcompiled, hcheck, hsilent, if_true,
      if_false]

theorem Prepared.run_of_compiled (hcheck : arguments.check = false) :
    arguments.run stdin tree parse? =
      ⟨((arguments.effect outputs).apply tree).1, ((arguments.effect outputs).apply tree).2.1,
        reports, ((arguments.effect outputs).apply tree).2.2⟩ := by
  have hprepare := prepare_eq_ok_iff.mpr ⟨configured, h, rfl⟩
  simp only [Arguments.run, Arguments.plan, hprepare, hcompiled, hcheck, Bool.false_eq_true,
    if_false]

/-- What is not written into files is printed. -/
theorem Prepared.run_of_print (hcheck : arguments.check = false) (houtput : arguments.output = none)
    (hdirectory : arguments.outDir = none) :
    arguments.run stdin tree parse? =
      ⟨String.join (outputs.map Output.code), tree, reports, none⟩ := by
  rw [h.run_of_compiled hcompiled hcheck, Arguments.effect, hdirectory, houtput]
  rfl

/-- Where files are given, each output is the code of one of them. -/
theorem Prepared.map_code?_eq (hfiles : arguments.files ≠ []) :
    arguments.files.map (fun file =>
        (some file, World.code? ⟨tree.read?, stdin, parse?⟩ (arguments.override configured) file)) =
      outputs.map (fun output => (output.path, some output.code)) := by
  have hread := h.inputs_eq
  rw [Arguments.inputs, if_neg hfiles] at hread
  exact Command.map_code?_eq hread hcompiled

theorem Prepared.exists_code {file : String} (hfile : file ∈ arguments.files) :
    ∃ code,
      World.code? ⟨tree.read?, stdin, parse?⟩ (arguments.override configured) file = some code := by
  have hmem := List.mem_map_of_mem (f := fun file : String =>
    (some file, World.code? ⟨tree.read?, stdin, parse?⟩ (arguments.override configured) file)) hfile
  rw [h.map_code?_eq hcompiled (List.ne_nil_of_mem hfile)] at hmem
  obtain ⟨output, -, heq⟩ := List.mem_map.mp hmem
  exact ⟨output.code, (Prod.mk.inj heq).2.symm⟩

/-- An output for a directory comes from a file that has a stem. -/
theorem Prepared.exists_stem (hdirectory : arguments.outDir.isSome) :
    ∀ output ∈ outputs, ∃ stem, output.path.bind Path.fileStem? = some stem := by
  intro output houtput
  have hmem := List.mem_map_of_mem (f := fun output : Output => (output.path, some output.code))
    houtput
  rw [← h.map_code?_eq hcompiled (h.files_ne_nil hdirectory)] at hmem
  obtain ⟨file, -, heq⟩ := List.mem_map.mp hmem
  obtain ⟨hpath, hcode⟩ := Prod.mk.inj heq
  rw [← hpath]
  exact exists_stem_of_code? hcode

end Prepared

/-- A run stops before it writes anything, or writes what it has compiled. -/
theorem run_cases (arguments : Arguments) (stdin : Option String) (tree : FileTree)
    (parse? : String → Option Options) :
    (∃ reports error, arguments.run stdin tree parse? = ⟨"", tree, reports, error⟩ ∧
      (error = none → arguments.check = true)) ∨
    ∃ configured inputs reports outputs,
      Prepared arguments ⟨tree.read?, stdin, parse?⟩ configured inputs ∧
      compileInputs (arguments.override configured) inputs = (reports, .ok outputs) ∧
      arguments.check = false := by
  cases hprepare : arguments.prepare ⟨tree.read?, stdin, parse?⟩ with
  | error error =>
    have hrun : arguments.run stdin tree parse? = ⟨"", tree, [], some error⟩ := by
      simp only [Arguments.run, Arguments.plan, hprepare]
    exact .inl ⟨[], some error, hrun, fun hnone => by cases hnone⟩
  | ok prepared =>
    obtain ⟨options, inputs⟩ := prepared
    obtain ⟨configured, h, rfl⟩ := prepare_eq_ok_iff.mp hprepare
    cases hcompiled : compileInputs (arguments.override configured) inputs with
    | mk reports outputs =>
      cases outputs with
      | error error =>
        exact .inl ⟨reports, _, h.run_of_error hcompiled, fun hnone => by cases hnone⟩
      | ok outputs =>
        cases hcheck : arguments.check with
        | true => exact .inl ⟨reports, _, h.run_of_check hcompiled hcheck, fun _ => rfl⟩
        | false => exact .inr ⟨configured, inputs, reports, outputs, h, hcompiled, rfl⟩

/-- A run that is no check and succeeds writes what it has compiled. -/
theorem exists_prepared_of_success (hcheck : arguments.check = false)
    (hsuccess : (arguments.run stdin tree parse?).error = none) :
    ∃ configured inputs reports outputs,
      Prepared arguments ⟨tree.read?, stdin, parse?⟩ configured inputs ∧
      compileInputs (arguments.override configured) inputs = (reports, .ok outputs) := by
  obtain ⟨reports, failed, hrun, hchecked⟩ | ⟨configured, inputs, reports, outputs, h, hcompiled,
    -⟩ := run_cases arguments stdin tree parse?
  · rw [hrun] at hsuccess
    rw [hchecked hsuccess] at hcheck
    cases hcheck
  · exact ⟨configured, inputs, reports, outputs, h, hcompiled⟩

/-- Writing outputs that all have a name can only fail because of the files. -/
theorem exists_file_of_writeOutputs {directory : String} {outputs : List Output} {error : RunError}
    (hstems : ∀ output ∈ outputs, ∃ stem, output.path.bind Path.fileStem? = some stem)
    (herror : (writeOutputs directory tree outputs).2 = some error) :
    ∃ failure, error = .file failure := by
  induction outputs generalizing tree with
  | nil => cases herror
  | cons output outputs ih =>
    obtain ⟨⟨stem, hstem⟩, hlater⟩ := List.forall_mem_cons.mp hstems
    rw [writeOutputs, outputPath?, hstem] at herror
    dsimp only [Option.map_some] at herror
    split at herror
    · exact ⟨_, (Option.some.inj herror).symm⟩
    · exact ih hlater herror

/-- What is compiled can only fail to be written because of the files. -/
theorem exists_file_of_apply {outputs : List Output} {error : RunError}
    (hstems : arguments.outDir.isSome →
      ∀ output ∈ outputs, ∃ stem, output.path.bind Path.fileStem? = some stem)
    (herror : ((arguments.effect outputs).apply tree).2.2 = some error) :
    ∃ failure, error = .file failure := by
  unfold Arguments.effect at herror
  split at herror
  · rename_i directory _ hdirectory
    rw [Effect.apply] at herror
    split at herror
    · exact ⟨_, (Option.some.inj herror).symm⟩
    · exact exists_file_of_writeOutputs (hstems (by rw [hdirectory]; rfl)) herror
  · rw [Effect.apply] at herror
    split at herror
    · cases herror
    · exact ⟨_, (Option.some.inj herror).symm⟩
  · cases herror

/-- A run that fails otherwise than by writing files leaves them as they are and prints nothing. -/
theorem run_unchanged_of_error {error : RunError}
    (herror : (arguments.run stdin tree parse?).error = some error)
    (hfile : ∀ failure, error ≠ .file failure) :
    (arguments.run stdin tree parse?).tree = tree ∧
      (arguments.run stdin tree parse?).stdout = "" := by
  obtain ⟨reports, failed, hrun, -⟩ | ⟨configured, inputs, reports, outputs, hprepared, hcompiled,
    hcheck⟩ := run_cases arguments stdin tree parse?
  · rw [hrun]
    exact ⟨rfl, rfl⟩
  · rw [hprepared.run_of_compiled hcompiled hcheck] at herror
    obtain ⟨failure, hfailure⟩ := exists_file_of_apply (hprepared.exists_stem hcompiled) herror
    exact absurd hfailure (hfile failure)

/-- A run that only checks leaves the files as they are and prints nothing. -/
theorem run_unchanged_of_check (hcheck : arguments.check = true) :
    (arguments.run stdin tree parse?).tree = tree ∧
      (arguments.run stdin tree parse?).stdout = "" := by
  obtain ⟨reports, failed, hrun, -⟩ | ⟨_, _, _, _, -, -, hwrites⟩ :=
    run_cases arguments stdin tree parse?
  · rw [hrun]
    exact ⟨rfl, rfl⟩
  · rw [hcheck] at hwrites
    cases hwrites

/-- A check succeeds if and only if no template has a problem. -/
theorem Prepared.check_succeeds_iff {configured : Options} {inputs : List Input}
    (h : Prepared arguments ⟨tree.read?, stdin, parse?⟩ configured inputs)
    (hcheck : arguments.check = true) :
    (arguments.run stdin tree parse?).error = none ↔
      ∀ input ∈ inputs, ∃ compiled,
        compile (optionsFor (arguments.override configured) input.path) input.source =
          .ok compiled ∧
        compiled.diagnostics = [] := by
  rw [← compileInputs_silent_iff]
  cases hcompiled : compileInputs (arguments.override configured) inputs with
  | mk reports outputs =>
    cases outputs with
    | error error =>
      rw [h.run_of_error hcompiled]
      simp
    | ok outputs =>
      rw [h.run_of_check hcompiled hcheck]
      simp

/-- The same command for one file alone. -/
def Arguments.alone (arguments : Arguments) (file : String) : Arguments :=
  { arguments with files := [file] }

/-- A file that compiles is printed on its own. -/
theorem run_alone {configured : Options} {file code : String}
    (hcheck : arguments.check = false) (houtput : arguments.output = none)
    (hdirectory : arguments.outDir = none)
    (hconfigured : arguments.configured ⟨tree.read?, stdin, parse?⟩ = .ok configured)
    (hcode :
      World.code? ⟨tree.read?, stdin, parse?⟩ (arguments.override configured) file = some code) :
    ((arguments.alone file).run stdin tree parse?).error = none ∧
      ((arguments.alone file).run stdin tree parse?).stdout = code := by
  obtain ⟨source, compiled, hsource, hcompile, rfl⟩ := code?_eq_some_iff.mp hcode
  have hprepared : Prepared (arguments.alone file) ⟨tree.read?, stdin, parse?⟩ configured
      [⟨some file, source⟩] :=
    { configured_eq := hconfigured
      inputs_eq := by
        change readInputs ⟨tree.read?, stdin, parse?⟩ [file] = .ok [⟨some file, source⟩]
        rw [readInputs, hsource]
        rfl
      named := by simp
      single := by simp }
  have hcompiled : compileInputs ((arguments.alone file).override configured)
      [⟨some file, source⟩] = (compiled.diagnostics.map (⟨⟨some file, source⟩, ·⟩) ++ [],
        .ok [⟨some file, compiled.code⟩]) :=
    compileInputs_cons_eq_ok_iff.mpr ⟨compiled, [], [], hcompile, rfl, rfl, rfl⟩
  rw [hprepared.run_of_print hcompiled hcheck houtput hdirectory]
  exact ⟨rfl, String.empty_append⟩

/-- What is printed for files is what is printed for each of them. -/
theorem run_prints_each (hcheck : arguments.check = false) (houtput : arguments.output = none)
    (hdirectory : arguments.outDir = none) (hfiles : arguments.files ≠ [])
    (hsuccess : (arguments.run stdin tree parse?).error = none) :
    (arguments.run stdin tree parse?).tree = tree ∧
      (∀ file ∈ arguments.files, ((arguments.alone file).run stdin tree parse?).error = none) ∧
      (arguments.run stdin tree parse?).stdout =
        String.join (arguments.files.map fun file =>
          ((arguments.alone file).run stdin tree parse?).stdout) := by
  obtain ⟨configured, inputs, reports, outputs, h, hcompiled⟩ :=
    exists_prepared_of_success hcheck hsuccess
  have halone : ∀ file ∈ arguments.files, ∃ code,
      World.code? ⟨tree.read?, stdin, parse?⟩ (arguments.override configured) file = some code ∧
      ((arguments.alone file).run stdin tree parse?).error = none ∧
      ((arguments.alone file).run stdin tree parse?).stdout = code := by
    intro file hfile
    obtain ⟨code, hcode⟩ := h.exists_code hcompiled hfile
    exact ⟨code, hcode, run_alone hcheck houtput hdirectory h.configured_eq hcode⟩
  rw [h.run_of_print hcompiled hcheck houtput hdirectory]
  refine ⟨rfl, fun file hfile => ?_, ?_⟩
  · obtain ⟨code, -, herror, -⟩ := halone file hfile
    exact herror
  · have hprinted : arguments.files.map
        (fun file => ((arguments.alone file).run stdin tree parse?).stdout) =
          outputs.map Output.code := by
      have hgiven := congrArg (List.map fun pair : Option String × Option String =>
        pair.2.getD "") (h.map_code?_eq hcompiled hfiles)
      rw [List.map_map, List.map_map] at hgiven
      refine Eq.trans (List.map_congr_left fun file hfile => ?_) hgiven
      obtain ⟨code, hcode, -, hstdout⟩ := halone file hfile
      rw [hstdout, Function.comp_apply, hcode]
      rfl
    rw [hprinted]

/-- A run is all or nothing, whatever files there are and however configurations are read. If it
    fails otherwise than by writing files, they stay as they are and nothing is printed. A check
    never writes, and once everything is read it succeeds if and only if every template is compiled
    without a problem. A run that writes no files prints for several files what it prints for each
    of them alone, in their order. -/
theorem run_all_or_nothing (haccepted : arguments.Accepted) (stdin : Option String)
    (tree : FileTree) (parse? : String → Option Options) :
    let world : World := ⟨tree.read?, stdin, parse?⟩
    let outcome := arguments.run stdin tree parse?
    (∀ error, outcome.error = some error → (∀ failure, error ≠ .file failure) →
      outcome.tree = tree ∧ outcome.stdout = "") ∧
    (arguments.check = true →
      outcome.tree = tree ∧ outcome.stdout = "" ∧
      ∀ configured inputs, arguments.configured world = .ok configured →
        arguments.inputs world = .ok inputs →
        (outcome.error = none ↔
          ∀ input ∈ inputs, ∃ compiled,
            compile (optionsFor (arguments.override configured) input.path) input.source =
              .ok compiled ∧
            compiled.diagnostics = [])) ∧
    (arguments.check = false → arguments.output = none → arguments.outDir = none →
      arguments.files ≠ [] → outcome.error = none →
      outcome.tree = tree ∧
      (∀ file ∈ arguments.files, ((arguments.alone file).run stdin tree parse?).error = none) ∧
      outcome.stdout =
        String.join (arguments.files.map fun file =>
          ((arguments.alone file).run stdin tree parse?).stdout)) := by
  intro world outcome
  refine ⟨fun error => run_unchanged_of_error, fun hcheck => ?_, run_prints_each⟩
  obtain ⟨htree, hstdout⟩ : outcome.tree = tree ∧ _ := run_unchanged_of_check hcheck
  refine ⟨htree, hstdout, fun configured inputs hconfigured hinputs => ?_⟩
  obtain ⟨houtput, hdirectory⟩ := haccepted.check hcheck
  have hprepared : Prepared arguments world configured inputs :=
    { configured_eq := hconfigured
      inputs_eq := hinputs
      named := by simp [hdirectory]
      single := by simp [houtput] }
  exact hprepared.check_succeeds_iff hcheck

/-- Two templates, of which the second is never closed. -/
def closedAndUnclosed : FileTree :=
  .ofFiles [("a.html", some "<p></p>"), ("b.html", some "<i>")]

/-- A command for both of them. -/
def compileBoth : Arguments :=
  { files := ["a.html", "b.html"] }

/-- A template that is never closed fails a strict run and is found by a check. Otherwise both are
    printed. -/
theorem run_all_or_nothing_unclosed :
    let strict := { compileBoth with strict := true, outDir := some "dist" }
    let check := { compileBoth with check := true }
    let printed := compileBoth.run none closedAndUnclosed
    let code (function name : String) := ";(function () \x7b\nvar patch = IncrementalDOM.patch\n" ++
      "var elementOpen = IncrementalDOM.elementOpen\n" ++
      "var elementClose = IncrementalDOM.elementClose\nvar text = IncrementalDOM.text\n" ++
      "var skip = IncrementalDOM.skip\nvar currentElement = IncrementalDOM.currentElement\n\n" ++
      "return function " ++ function ++ " (data) \x7b\n  elementOpen(\"" ++ name ++ "\")\n" ++
      "  elementClose(\"" ++ name ++ "\")\n\x7d\n\x7d)()\n"
    ((strict.run none closedAndUnclosed).tree = closedAndUnclosed ∧
      (strict.run none closedAndUnclosed).stdout = "") ∧
    ((check.run none closedAndUnclosed).error = none ↔
      ∀ input ∈ [(⟨some "a.html", "<p></p>"⟩ : Input), ⟨some "b.html", "<i>"⟩],
        ∃ compiled, compile (optionsFor (check.override {}) input.path) input.source =
            .ok compiled ∧
          compiled.diagnostics = []) ∧
    printed.stdout = String.join (compileBoth.files.map fun file =>
      ((compileBoth.alone file).run none closedAndUnclosed).stdout) ∧
    printed.stdout = code "a" "p" ++ code "b" "i" := by
  intro strict check printed code
  have hstrict := accepted_of_read
    (show Invocation.read ["--strict", "--out-dir", "dist", "a.html", "b.html"] =
      .ok (.compile strict) from rfl)
  have hcheck := accepted_of_read
    (show Invocation.read ["--check", "a.html", "b.html"] = .ok (.compile check) from rfl)
  have hboth := accepted_of_read
    (show Invocation.read ["a.html", "b.html"] = .ok (.compile compileBoth) from rfl)
  refine ⟨?_, ?_, ?_, ?_⟩
  · exact (run_all_or_nothing hstrict none closedAndUnclosed readConfig?).1
      (.notCompiled (some "b.html") "<i>" (.reported
        ⟨.unbalancedElement "i" "never closed", ⟨0, 3, by decide⟩⟩))
      (by decide +kernel) (fun failure heq => by cases heq)
  · exact ((run_all_or_nothing hcheck none closedAndUnclosed readConfig?).2.1 rfl).2.2 {} _ rfl rfl
  · exact ((run_all_or_nothing hboth none closedAndUnclosed readConfig?).2.2 rfl rfl rfl
      (by decide) (by decide +kernel)).2.2
  · decide +kernel

end Run

end TemplateCompiler.Command
