import TemplateCompiler.Proofs.Command.Paths

namespace TemplateCompiler.Command.FileTree

section Set

theorem lookup_filter_ne {entries : List (List String × Entry)} {place other : List String}
    (hne : other ≠ place) :
    (entries.filter (·.1 != place)).lookup other = entries.lookup other := by
  induction entries with
  | nil => rfl
  | cons first entries ih =>
    by_cases hfirst : first.1 = place
    · have hother : (other == first.1) = false := beq_eq_false_iff_ne.mpr (hfirst ▸ hne)
      rw [List.filter_cons_of_neg (by simpa using hfirst), ih, List.lookup_cons, hother]
    · rw [List.filter_cons_of_pos (by simpa using hfirst), List.lookup_cons, List.lookup_cons, ih]

theorem lookup_filter_self (entries : List (List String × Entry)) (place : List String) :
    (entries.filter (·.1 != place)).lookup place = none := by
  rw [List.lookup_eq_none_iff]
  intro entry hentry
  obtain ⟨-, hne⟩ := List.mem_filter.mp hentry
  exact bne_comm.trans hne

variable (tree : FileTree) {place other : List String} (entry : Entry)

theorem get?_set_self (hplace : place ≠ []) : (tree.set place entry).get? place = some entry := by
  rw [get?, if_neg hplace, set, List.lookup_append, lookup_filter_self]
  simp

theorem get?_set_of_ne (hne : other ≠ place) :
    (tree.set place entry).get? other = tree.get? other := by
  have hlast : [(place, entry)].lookup other = none := by
    rw [List.lookup_cons, beq_eq_false_iff_ne.mpr hne]
    rfl
  unfold get? set
  rw [List.lookup_append, lookup_filter_ne hne, hlast, Option.or_none]

end Set

section Walk

variable (tree : FileTree)

theorem toOption_walk_cons (directory : List String) (part : String) (parts : List String) :
    (tree.walk directory (part :: parts)).toOption =
      (tree.enter directory part).toOption.bind fun inner =>
        (tree.walk inner parts).toOption := by
  rw [walk]
  cases tree.enter directory part with
  | error failure => rfl
  | ok inner => rfl

theorem toOption_walk_append (directory : List String) (parts later : List String) :
    (tree.walk directory (parts ++ later)).toOption =
      (tree.walk directory parts).toOption.bind fun inner => (tree.walk inner later).toOption := by
  induction parts generalizing directory with
  | nil => rfl
  | cons part parts ih =>
    rw [List.cons_append, toOption_walk_cons, toOption_walk_cons, Option.bind_assoc]
    simp only [ih]

/-- Going to a name in a directory leads one level in. -/
theorem eq_of_enter {directory inner : List String} {part : String} (hdot : part ≠ ".")
    (hup : part ≠ "..") (henter : (tree.enter directory part).toOption = some inner) :
    inner = directory ++ [part] := by
  rw [enter, if_neg hdot, if_neg hup] at henter
  split at henter
  · exact (Option.some.inj henter).symm
  · cases henter
  · cases henter

theorem walk_dots {dots : List String} (hdots : ∀ dot ∈ dots, dot = ".")
    (directory : List String) : tree.walk directory dots = .ok directory := by
  induction dots with
  | nil => rfl
  | cons dot dots ih =>
    obtain ⟨rfl, hlater⟩ := List.forall_mem_cons.mp hdots
    exact ih hlater

end Walk

/-- Trees with directories in the same places and the same working directory. -/
structure SameDirectories (tree other : FileTree) : Prop where
  start_eq : ∀ path, other.start path = tree.start path
  get?_iff : ∀ place, tree.get? place = some .directory ↔ other.get? place = some .directory

/-- The place of the file that a path names. -/
def place? (tree : FileTree) (path : String) : Option (List String) :=
  if Path.hasTrailingSlash path then none
  else
    (tree.walk (tree.start path) (Path.parts path).dropLast).toOption.bind fun directory =>
      ((Path.parts path).getLast?.filter fun part => part != "." && part != "..").map
        (directory ++ [·])

/-- The text of the file at a place. -/
def text? (tree : FileTree) (place : List String) : Option String :=
  match tree.get? place with
  | some (.file content) => content
  | _ => none

section Place

variable {tree other : FileTree} {path : String} {place : List String}

/-- A path leads to the place of the name at its end in the directory around it. -/
theorem exists_of_place? (hplace : tree.place? path = some place) :
    ∃ outer name directory, Path.parts path = outer ++ [name] ∧ name ≠ "." ∧ name ≠ ".." ∧
      (tree.walk (tree.start path) outer).toOption = some directory ∧
      place = directory ++ [name] := by
  unfold place? at hplace
  split at hplace
  · cases hplace
  · obtain ⟨directory, hwalk, hplace⟩ := Option.bind_eq_some_iff.mp hplace
    obtain ⟨name, hname, rfl⟩ := Option.map_eq_some_iff.mp hplace
    obtain ⟨hlast, hnamed⟩ := Option.filter_eq_some_iff.mp hname
    obtain ⟨outer, houter⟩ := List.getLast?_eq_some_iff.mp hlast
    rw [houter, List.dropLast_concat] at hwalk
    simp only [Bool.and_eq_true, bne_iff_ne] at hnamed
    exact ⟨outer, name, directory, houter, hnamed.1, hnamed.2, hwalk, rfl⟩

theorem ne_nil_of_place? (hplace : tree.place? path = some place) : place ≠ [] := by
  obtain ⟨-, -, -, -, -, -, -, rfl⟩ := exists_of_place? hplace
  exact List.concat_ne_nil _ _

theorem SameDirectories.enter_eq (h : SameDirectories tree other) (directory : List String)
    (part : String) :
    (other.enter directory part).toOption = (tree.enter directory part).toOption := by
  unfold enter
  split
  · rfl
  split
  · rfl
  have hinner := h.get?_iff (directory ++ [part])
  revert hinner
  rcases tree.get? (directory ++ [part]) with _ | _ | _ <;>
    rcases other.get? (directory ++ [part]) with _ | _ | _ <;> simp [Except.toOption]

theorem SameDirectories.walk_eq (h : SameDirectories tree other) (directory : List String)
    (parts : List String) :
    (other.walk directory parts).toOption = (tree.walk directory parts).toOption := by
  induction parts generalizing directory with
  | nil => rfl
  | cons part parts ih =>
    rw [toOption_walk_cons, toOption_walk_cons, h.enter_eq]
    simp only [ih]

/-- Only directories decide where a path leads. -/
theorem SameDirectories.place?_eq (h : SameDirectories tree other) (path : String) :
    other.place? path = tree.place? path := by
  rw [place?, place?, h.start_eq, h.walk_eq]

theorem sameDirectories_set (tree : FileTree) {place : List String} (hplace : place ≠ [])
    (hfree : tree.get? place ≠ some .directory) (content : Option String) :
    SameDirectories tree (tree.set place (.file content)) := by
  refine ⟨fun _ => rfl, fun other => ?_⟩
  by_cases hother : other = place
  · subst hother
    rw [get?_set_self tree _ hplace]
    simp [hfree]
  · rw [get?_set_of_ne tree _ hother]

theorem read?_eq_bind (tree : FileTree) (path : String) :
    tree.read? path = (tree.place? path).bind tree.text? := by
  unfold read? place? locate
  cases hslash : Path.hasTrailingSlash path with
  | true => simp
  | false =>
    cases hwalk : tree.walk (tree.start path) (Path.parts path).dropLast with
    | error failure => simp [Except.toOption]
    | ok directory =>
      cases hname : (Path.parts path).getLast?.filter fun part => part != "." && part != ".." with
      | none => simp [Except.toOption]
      | some name => rfl

/-- A file is written at its place, unless a directory is there. -/
theorem exists_place_of_write {text : String} {written : FileTree}
    (hwrite : tree.write path text = .ok written) :
    ∃ place, tree.place? path = some place ∧ tree.get? place ≠ some .directory ∧
      written = tree.set place (.file (some text)) := by
  unfold write locate at hwrite
  unfold place?
  split at hwrite
  · cases hwrite
  cases hwalk : tree.walk (tree.start path) (Path.parts path).dropLast with
  | error failure => simp [hwalk] at hwrite
  | ok directory =>
    cases hname : (Path.parts path).getLast?.filter fun part => part != "." && part != ".." with
    | none => simp [hwalk, hname] at hwrite
    | some name =>
      simp only [hwalk, hname] at hwrite
      split at hwrite
      · cases hwrite
      rename_i hslash
      split at hwrite
      · cases hwrite
      rename_i hfree
      refine ⟨directory ++ [name], ?_, hfree, (Except.ok.inj hwrite).symm⟩
      simp [hslash, Except.toOption]

/-- Writing a file changes what is read at its place and nowhere else. -/
theorem read?_write {text : String} {written : FileTree}
    (hwrite : tree.write path text = .ok written) (path' : String) :
    written.place? path' = tree.place? path' ∧
      written.read? path' =
        if tree.place? path' = tree.place? path then some text else tree.read? path' := by
  obtain ⟨place, hplace, hfree, rfl⟩ := exists_place_of_write hwrite
  have hne := ne_nil_of_place? hplace
  have hsame := (sameDirectories_set tree hne hfree (some text)).place?_eq path'
  refine ⟨hsame, ?_⟩
  rw [read?_eq_bind, hsame, hplace]
  cases hplace' : tree.place? path' with
  | none => simp [read?_eq_bind, hplace']
  | some place' =>
    by_cases heq : place' = place
    · subst heq
      simp [text?, get?_set_self tree _ hne]
    · simp [read?_eq_bind, hplace', heq, text?, get?_set_of_ne tree _ heq]

/-- What can be read has a stem to name its output after. -/
theorem exists_fileStem?_of_read? {text : String} (hread : tree.read? path = some text) :
    ∃ stem, Path.fileStem? path = some stem := by
  rw [read?_eq_bind] at hread
  obtain ⟨place, hplace, -⟩ := Option.bind_eq_some_iff.mp hread
  obtain ⟨outer, name, -, hparts, hdot, hup, -⟩ := exists_of_place? hplace
  have hname : Path.fileName? path = some name := by
    rw [Path.fileName?, Path.dropTrailingDots, hparts, List.reverse_concat,
      List.dropWhile_cons_of_neg (by simpa using hdot), List.reverse_cons, List.reverse_reverse,
      List.getLast?_concat]
    simp [hup]
  rw [Path.fileStem?, hname]
  exact ⟨_, rfl⟩

end Place

section Home

/-- The place of a directory that names are joined to. -/
def home? (tree : FileTree) (directory : String) : Option (List String) :=
  (tree.walk (tree.start directory) (Path.parts directory)).toOption

/-- A name joined to a directory leads to a place in that directory. -/
theorem place?_join (tree : FileTree) {name : String} (hpart : Path.IsPart name.toList)
    (hdot : name ≠ ".") (hup : name ≠ "..") (directory : String) :
    tree.place? (Path.join directory name) = (tree.home? directory).map (· ++ [name]) := by
  have hstart : tree.start (Path.join directory name) = tree.start directory := by
    rw [start, start, Path.isAbsolute_join hpart]
  have hnamed : (some name).filter (fun part => part != "." && part != "..") = some name := by
    simp [Option.filter, hdot, hup]
  rw [place?, home?, Path.hasTrailingSlash_join hpart, hstart, Path.parts_join hpart,
    List.dropLast_concat, List.getLast?_concat, hnamed]
  cases (tree.walk (tree.start directory) (Path.parts directory)).toOption with
  | none => rfl
  | some home => rfl

theorem place?_join_dots (tree : FileTree) {name : String} (hname : name = "." ∨ name = "..")
    (directory : String) : tree.place? (Path.join directory name) = none := by
  have hpart : Path.IsPart name.toList := by
    obtain rfl | rfl := hname <;> exact ⟨by decide, by decide⟩
  cases hplace : tree.place? (Path.join directory name) with
  | none => rfl
  | some place =>
    obtain ⟨outer, last, -, hparts, hdot, hup, -⟩ := exists_of_place? hplace
    rw [Path.parts_join hpart] at hparts
    obtain ⟨-, hlast⟩ := List.append_inj' hparts rfl
    obtain rfl := (List.cons.inj hlast).1
    exact (hname.elim hdot hup).elim

/-- With the extension of a dot replaced, a path leads to a place beside the directory. -/
theorem length_place?_withExtension_dot {tree : FileTree} {ext : String} (hext : '/' ∉ ext.toList)
    {directory : String} {place home : List String}
    (hplace : tree.place? (Path.withExtension (Path.join directory ".") ext) = some place)
    (hhome : tree.home? directory = some home) : place.length = home.length := by
  obtain hself | ⟨outer, name, dots, hparts, hdots, hdot, hup, habsolute, hrenamed⟩ :=
    Path.withExtension_join_dot hext directory
  · rw [hself, place?_join_dots tree (.inl rfl)] at hplace
    cases hplace
  · have hstart : tree.start (Path.withExtension (Path.join directory ".") ext) =
        tree.start directory := by
      rw [start, start, habsolute]
    obtain ⟨outer', renamed, around', hparts', -, -, hwalk', rfl⟩ := exists_of_place? hplace
    obtain ⟨rfl, -⟩ := List.append_inj' (hrenamed.symm.trans hparts') rfl
    rw [hstart] at hwalk'
    rw [home?, hparts, toOption_walk_append, hwalk', Option.bind_some, toOption_walk_cons] at hhome
    obtain ⟨inner, henter, hwalk⟩ := Option.bind_eq_some_iff.mp hhome
    rw [walk_dots tree hdots] at hwalk
    obtain rfl := Option.some.inj hwalk
    rw [eq_of_enter tree hdot hup henter]
    simp

end Home

end TemplateCompiler.Command.FileTree
