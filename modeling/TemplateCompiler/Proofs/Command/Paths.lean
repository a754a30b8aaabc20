import TemplateCompiler.Command.Run
import TemplateCompiler.Proofs.FirstOccurrence

namespace TemplateCompiler.Command.Path

theorem notMem_of_mem_splitOn {c : Char} {cs piece : List Char} (hpiece : piece ∈ cs.splitOn c) :
    c ∉ piece := by
  rw [List.splitOn_eq_splitOnP] at hpiece
  intro hc
  have hother := Text.eq_false_of_mem_splitOnP hpiece c hc
  rw [beq_self_eq_true] at hother
  cases hother

/-- A text that can be a part of a path. -/
def IsPart (name : List Char) : Prop :=
  name ≠ [] ∧ '/' ∉ name

theorem isPart_of_mem_parts {path part : String} (hpart : part ∈ parts path) :
    IsPart part.toList := by
  obtain ⟨piece, hpiece, rfl⟩ := List.mem_map.mp hpart
  obtain ⟨hsplit, hne⟩ := List.mem_filter.mp hpiece
  rw [String.toList_ofList]
  exact ⟨of_decide_eq_true hne, notMem_of_mem_splitOn hsplit⟩

section Stem

variable {name stem ext : List Char}

theorem dropWhile_append_of_no_dot (hname : '.' ∉ name) (behind : List Char) :
    (name ++ behind).dropWhile (· != '.') = behind.dropWhile (· != '.') := by
  apply List.dropWhile_append_of_pos
  intro c hc
  rw [bne_iff_ne]
  rintro rfl
  exact hname hc

/-- The stem of a name ends before the last dot. -/
theorem stemOf_append (hstem : stem ≠ []) (hext : '.' ∉ ext)
    (hdots : stem ++ '.' :: ext ≠ ['.', '.']) : stemOf (stem ++ '.' :: ext) = stem := by
  have hbehind : (stem ++ '.' :: ext).reverse.dropWhile (· != '.') = '.' :: stem.reverse := by
    rw [List.reverse_append, List.reverse_cons, List.append_assoc,
      dropWhile_append_of_no_dot (mt List.mem_reverse.mp hext)]
    rfl
  rw [stemOf, if_neg hdots, hbehind, List.tail_cons, List.reverse_reverse]
  obtain ⟨c, cs, rfl⟩ := List.exists_cons_of_ne_nil hstem
  rfl

/-- A name is its own stem if no dot stands behind its first character. -/
theorem stemOf_of_notMem_tail (hname : '.' ∉ name.tail) : stemOf name = name := by
  cases name with
  | nil => rfl
  | cons c cs =>
    have hcs : '.' ∉ cs.reverse := mt List.mem_reverse.mp hname
    have hbehind : ((c :: cs).reverse.dropWhile (· != '.')).tail = [] := by
      rw [List.reverse_cons, dropWhile_append_of_no_dot hcs]
      unfold List.dropWhile
      split <;> rfl
    unfold stemOf
    split
    · rfl
    · rw [hbehind]
      rfl

theorem exists_eq_append_of_mem_tail (hname : '.' ∈ name.tail) :
    ∃ stem ext, stem ≠ [] ∧ '.' ∉ ext ∧ name = stem ++ '.' :: ext := by
  cases name with
  | nil => cases hname
  | cons c cs =>
    obtain ⟨behind, before, hcs, hbehind⟩ :=
      List.eq_append_cons_of_mem (List.mem_reverse.mpr hname)
    rw [List.tail_cons, List.reverse_eq_iff, List.reverse_append, List.reverse_cons,
      List.append_assoc, List.singleton_append] at hcs
    refine ⟨c :: before.reverse, behind.reverse, List.cons_ne_nil _ _, ?_, ?_⟩
    · exact mt List.mem_reverse.mp hbehind
    · rw [hcs, List.cons_append]

/-- The stem of a name is the name itself or what stands before its last dot. -/
theorem stemOf_cases (name : List Char) :
    stemOf name = name ∨ stemOf name ≠ [] ∧ ∃ ext, name = stemOf name ++ '.' :: ext := by
  by_cases hname : '.' ∈ name.tail
  · obtain ⟨stem, ext, hstem, hext, rfl⟩ := exists_eq_append_of_mem_tail hname
    by_cases hdots : stem ++ '.' :: ext = ['.', '.']
    · rw [hdots]
      exact .inl rfl
    · rw [stemOf_append hstem hext hdots]
      exact .inr ⟨hstem, ext, rfl⟩
  · exact .inl (stemOf_of_notMem_tail hname)

theorem stemOf_eq_self_iff (hup : name ≠ ['.', '.']) : stemOf name = name ↔ '.' ∉ name.tail := by
  refine ⟨fun hself hdot => ?_, stemOf_of_notMem_tail⟩
  obtain ⟨stem, ext, hstem, hext, rfl⟩ := exists_eq_append_of_mem_tail hdot
  rw [stemOf_append hstem hext hup] at hself
  have hlength := congrArg List.length hself
  rw [List.length_append, List.length_cons] at hlength
  omega

theorem IsPart.stemOf (hname : IsPart name) : IsPart (stemOf name) := by
  obtain hsame | ⟨hstem, ext, hcut⟩ := stemOf_cases name
  · rwa [hsame]
  · refine ⟨hstem, fun hslash => hname.2 ?_⟩
    rw [hcut]
    exact List.mem_append_left _ hslash

end Stem

theorem isPart_of_fileName? {path name : String} (hname : fileName? path = some name) :
    IsPart name.toList := by
  obtain ⟨hlast, -⟩ := Option.filter_eq_some_iff.mp hname
  have hmem := List.mem_of_getLast? hlast
  rw [dropTrailingDots, List.mem_reverse] at hmem
  exact isPart_of_mem_parts (List.mem_reverse.mp ((List.dropWhile_suffix _).subset hmem))

theorem isPart_of_fileStem? {path stem : String} (hstem : fileStem? path = some stem) :
    IsPart stem.toList := by
  obtain ⟨name, hname, rfl⟩ := Option.map_eq_some_iff.mp hstem
  rw [String.toList_ofList]
  exact (isPart_of_fileName? hname).stemOf

section Join

/-- A directory without the slash at its end. -/
def withoutSlash (directory : String) : List Char :=
  if hasTrailingSlash directory then directory.toList.dropLast else directory.toList

theorem toList_eq_withoutSlash (directory : String) :
    directory.toList = withoutSlash directory ++
      if hasTrailingSlash directory then ['/'] else [] := by
  unfold withoutSlash
  cases hslash : hasTrailingSlash directory with
  | false => exact (List.append_nil _).symm
  | true =>
    obtain ⟨before, hbefore⟩ := List.getLast?_eq_some_iff.mp (beq_iff_eq.mp hslash)
    rw [if_pos rfl, if_pos rfl, hbefore, List.dropLast_concat]

theorem isAbsolute_of_isPart {name : String} (hname : IsPart name.toList) :
    isAbsolute name = false := by
  obtain ⟨hne, hslash⟩ := hname
  obtain ⟨c, cs, hcs⟩ := List.exists_cons_of_ne_nil hne
  rw [hcs] at hslash
  rw [isAbsolute, hcs, List.head?_cons]
  exact beq_eq_false_iff_ne.mpr fun heq => hslash (Option.some.inj heq ▸ List.mem_cons_self)

theorem join_empty (path : String) : join "" path = path := by
  rw [join, if_pos (.inr rfl)]

theorem toList_join {name directory : String} (hname : IsPart name.toList)
    (hdirectory : directory ≠ "") :
    (join directory name).toList = withoutSlash directory ++ '/' :: name.toList := by
  have hrelative : ¬(isAbsolute name = true ∨ directory = "") := by
    rw [isAbsolute_of_isPart hname]
    simpa using hdirectory
  have hwritten := toList_eq_withoutSlash directory
  unfold join
  rw [if_neg hrelative]
  split at hwritten
  · rename_i hslash
    rw [if_pos hslash, String.toList_append, hwritten, List.append_assoc]
    rfl
  · rename_i hslash
    rw [if_neg hslash, String.toList_append, String.toList_append, hwritten, List.append_nil,
      List.append_assoc]
    rfl

/-- The pieces between the slashes of a path, empty ones included. -/
def pieces (path : String) : List (List Char) :=
  path.toList.splitOn '/'

/-- The pieces of a directory, in front of a name that is joined to it. -/
def outerPieces (directory : String) : List (List Char) :=
  if directory = "" then [] else (withoutSlash directory).splitOn '/'

theorem notMem_of_mem_outerPieces {directory : String} {piece : List Char}
    (hpiece : piece ∈ outerPieces directory) : '/' ∉ piece := by
  unfold outerPieces at hpiece
  split at hpiece
  · cases hpiece
  · exact notMem_of_mem_splitOn hpiece

theorem pieces_join {name : String} (hname : IsPart name.toList) (directory : String) :
    pieces (join directory name) = outerPieces directory ++ [name.toList] := by
  unfold pieces outerPieces
  by_cases hdirectory : directory = ""
  · rw [if_pos hdirectory, hdirectory, join_empty, List.splitOn_eq_singleton hname.2]
    rfl
  · rw [if_neg hdirectory, toList_join hname hdirectory, List.splitOn_append_cons_self,
      List.splitOn_eq_singleton hname.2]

theorem parts_eq_outerPieces (directory : String) :
    parts directory = ((outerPieces directory).filter (· ≠ [])).map String.ofList := by
  unfold outerPieces
  by_cases hdirectory : directory = ""
  · rw [if_pos hdirectory, hdirectory]
    rfl
  · rw [if_neg hdirectory, parts, toList_eq_withoutSlash directory]
    split
    · rw [List.splitOn_append_cons_self, List.filter_append, List.splitOn_nil]
      simp
    · rw [List.append_nil]

/-- A name joined to a directory is the last part of the path. -/
theorem parts_join {name : String} (hname : IsPart name.toList) (directory : String) :
    parts (join directory name) = parts directory ++ [name] := by
  have hpieces := pieces_join hname directory
  unfold pieces at hpieces
  rw [parts, hpieces, parts_eq_outerPieces, List.filter_append, List.map_append]
  simp [hname.1]

theorem hasTrailingSlash_join {name : String} (hname : IsPart name.toList) (directory : String) :
    hasTrailingSlash (join directory name) = false := by
  obtain ⟨before, c, hlast⟩ := List.eq_nil_or_concat name.toList |>.resolve_left hname.1
  have hjoined : ∃ outer, (join directory name).toList = outer ++ name.toList := by
    by_cases hdirectory : directory = ""
    · exact ⟨[], by rw [hdirectory, join_empty, List.nil_append]⟩
    · exact ⟨withoutSlash directory ++ ['/'], by simp [toList_join hname hdirectory]⟩
  obtain ⟨outer, houter⟩ := hjoined
  rw [hasTrailingSlash, houter, hlast, List.concat_eq_append, ← List.append_assoc,
    List.getLast?_concat]
  refine beq_eq_false_iff_ne.mpr fun heq => hname.2 ?_
  rw [hlast, ← Option.some.inj heq]
  simp

/-- A joined path starts at the root if and only if the directory does. -/
theorem isAbsolute_join {name : String} (hname : IsPart name.toList) (directory : String) :
    isAbsolute (join directory name) = isAbsolute directory := by
  by_cases hdirectory : directory = ""
  · rw [hdirectory, join_empty]
    exact isAbsolute_of_isPart hname
  · have hwritten := toList_eq_withoutSlash directory
    rw [isAbsolute, isAbsolute, toList_join hname hdirectory]
    cases houter : withoutSlash directory with
    | cons c cs =>
      rw [hwritten, houter]
      rfl
    | nil =>
      -- Only the root itself is nothing but its slash.
      rw [houter, List.nil_append] at hwritten
      split at hwritten
      · rw [hwritten]
        rfl
      · exact (hdirectory (String.toList_inj.mp hwritten)).elim

end Join

section Extension

variable {path ext : String} {outer dots : List (List Char)} {name : List Char}

/-- A piece of a path that leads nowhere. -/
def IsIdle (piece : List Char) : Prop :=
  piece = [] ∨ piece = ['.']

/-- Either all pieces are idle or there is a last one that is not. -/
theorem forall_idle_or_last (between : List (List Char)) :
    (∀ piece ∈ between, IsIdle piece) ∨
      ∃ outer name dots, between = outer ++ name :: dots ∧ ¬IsIdle name ∧
        ∀ dot ∈ dots, IsIdle dot := by
  induction between with
  | nil => exact .inl (List.forall_mem_nil _)
  | cons piece between ih =>
    obtain hidle | ⟨outer, name, dots, rfl, hname, hdots⟩ := ih
    · by_cases hpiece : IsIdle piece
      · exact .inl (List.forall_mem_cons.mpr ⟨hpiece, hidle⟩)
      · exact .inr ⟨[], piece, between, rfl, hpiece, hidle⟩
    · exact .inr ⟨piece :: outer, name, dots, rfl, hname, hdots⟩

theorem dropWhile_reverse_of_idle (between : List (List Char)) (hdots : ∀ dot ∈ dots, IsIdle dot) :
    (between ++ dots).reverse.dropWhile (fun piece => piece = [] ∨ piece = ['.']) =
      between.reverse.dropWhile (fun piece => piece = [] ∨ piece = ['.']) := by
  rw [List.reverse_append]
  apply List.dropWhile_append_of_pos
  intro dot hdot
  exact decide_eq_true (hdots dot (List.mem_reverse.mp hdot))

theorem dropWhile_reverse_of_last (outer : List (List Char)) (hname : ¬IsIdle name)
    (hdots : ∀ dot ∈ dots, IsIdle dot) :
    (outer ++ name :: dots).reverse.dropWhile (fun piece => piece = [] ∨ piece = ['.']) =
      name :: outer.reverse := by
  rw [List.append_cons, dropWhile_reverse_of_idle _ hdots, List.reverse_append,
    List.reverse_singleton, List.singleton_append]
  apply List.dropWhile_cons_of_neg
  simpa [IsIdle] using hname

/-- The extension is that of the last piece that is not idle. -/
theorem withExtension_of_pieces (hpieces : pieces path = outer ++ name :: dots)
    (hname : ¬IsIdle name) (hup : name ≠ ['.', '.']) (hdots : ∀ dot ∈ dots, IsIdle dot)
    (ext : String) :
    withExtension path ext =
      String.ofList (['/'].intercalate (outer ++ [stemOf name ++ '.' :: ext.toList])) := by
  have hlast := dropWhile_reverse_of_last outer hname hdots
  rw [← hpieces, pieces] at hlast
  unfold withExtension
  simp only [hlast]
  rw [if_neg hup, List.reverse_cons, List.reverse_reverse]

theorem head?_intercalate_cons (c : Char) (cs : List Char) (later : List (List Char)) :
    (['/'].intercalate ((c :: cs) :: later)).head? = some c := by
  cases later <;> rfl

/-- Whether a path starts at the root shows in front of its last name. -/
theorem isAbsolute_of_pieces (hpieces : pieces path = outer ++ name :: dots) (hname : name ≠ []) :
    isAbsolute path = (outer.head? == some []) := by
  have hpath : path.toList = ['/'].intercalate (outer ++ name :: dots) := by
    rw [← hpieces, pieces, List.intercalate_splitOn]
  have hfirst {c : Char} {cs : List Char} (hpiece : c :: cs ∈ outer ++ name :: dots) :
      (some c == some '/') = false := by
    rw [← hpieces] at hpiece
    refine beq_eq_false_iff_ne.mpr fun heq => notMem_of_mem_splitOn hpiece ?_
    rw [Option.some.inj heq]
    exact List.mem_cons_self
  rw [isAbsolute, hpath]
  rcases outer with _ | ⟨_ | ⟨c, cs⟩, outer⟩
  · obtain ⟨c, cs, rfl⟩ := List.exists_cons_of_ne_nil hname
    rw [List.nil_append, head?_intercalate_cons, hfirst List.mem_cons_self]
    rfl
  · cases outer <;> rfl
  · rw [List.cons_append, head?_intercalate_cons, hfirst List.mem_cons_self]
    rfl

/-- Nothing is replaced where a path goes up. -/
theorem withExtension_of_up (hpieces : pieces path = outer ++ ['.', '.'] :: dots)
    (hdots : ∀ dot ∈ dots, IsIdle dot) (ext : String) : withExtension path ext = path := by
  have hname : ¬IsIdle ['.', '.'] := by simp [IsIdle]
  have hlast := dropWhile_reverse_of_last outer hname hdots
  rw [← hpieces, pieces] at hlast
  unfold withExtension
  simp only [hlast]
  rfl

/-- A path without a name at its end has no extension to replace. -/
theorem withExtension_eq_self_or (path ext : String) :
    withExtension path ext = path ∨
      ∃ outer name dots, pieces path = outer ++ name :: dots ∧ ¬IsIdle name ∧
        name ≠ ['.', '.'] ∧ ∀ dot ∈ dots, IsIdle dot := by
  obtain hidle | ⟨outer, name, dots, hpieces, hname, hdots⟩ := forall_idle_or_last (pieces path)
  · left
    have hlast := dropWhile_reverse_of_idle [] hidle
    rw [List.nil_append, pieces] at hlast
    unfold withExtension
    simp only [hlast]
    rfl
  · by_cases hup : name = ['.', '.']
    · subst hup
      exact .inl (withExtension_of_up hpieces hdots ext)
    · exact .inr ⟨outer, name, dots, hpieces, hname, hup, hdots⟩

/-- A name with an extension. -/
def extended (name : List Char) (ext : String) : String :=
  String.ofList (name ++ '.' :: ext.toList)

theorem IsPart.extended (hname : IsPart name) (hext : '/' ∉ ext.toList) :
    IsPart (extended name ext).toList := by
  rw [Path.extended, String.toList_ofList]
  refine ⟨List.append_ne_nil_of_left_ne_nil hname.1 _, ?_⟩
  simp [hname.2, hext]

theorem extended_inj {other : List Char} :
    extended name ext = extended other ext ↔ name = other := by
  rw [extended, extended, String.ofList_inj, List.append_left_inj]

theorem extended_ne_dots (hname : name ≠ []) {ext : String} (hext : ext ≠ "") :
    extended name ext ≠ "." ∧ extended name ext ≠ ".." := by
  have hnamePos := List.length_pos_iff.mpr hname
  have hextPos := List.length_pos_iff.mpr fun hnil => hext (String.toList_inj.mp hnil)
  have hlength : (extended name ext).toList.length = name.length + ext.toList.length + 1 := by
    rw [extended, String.toList_ofList, List.length_append, List.length_cons, Nat.add_assoc]
  constructor
  · intro heq
    rw [heq] at hlength
    change 1 = _ at hlength
    omega
  · intro heq
    rw [heq] at hlength
    change 2 = _ at hlength
    omega

theorem intercalate_pieces (path : String) :
    String.ofList (['/'].intercalate (pieces path)) = path := by
  rw [pieces, List.intercalate_splitOn, String.ofList_toList]

theorem parts_intercalate {between : List (List Char)} (hne : between ≠ [])
    (hslash : ∀ piece ∈ between, '/' ∉ piece) :
    parts (String.ofList (['/'].intercalate between)) =
      (between.filter (· ≠ [])).map String.ofList := by
  rw [parts, String.toList_ofList, List.splitOn_intercalate _ hslash hne]

/-- Replacing the extension of a name that is joined to a directory. -/
theorem withExtension_join {stem : String} (hstem : IsPart stem.toList) (hdot : stem ≠ ".")
    (hup : stem ≠ "..") (hext : '/' ∉ ext.toList) (directory : String) :
    withExtension (join directory stem) ext =
      join directory (extended (stemOf stem.toList) ext) := by
  have hname : ¬IsIdle stem.toList := by
    rintro (hnil | heq)
    · exact hstem.1 hnil
    · exact hdot (String.toList_inj.mp heq)
  have hup' : stem.toList ≠ ['.', '.'] := fun heq => hup (String.toList_inj.mp heq)
  have hrenamed := pieces_join (hstem.stemOf.extended hext) directory
  rw [extended, String.toList_ofList] at hrenamed
  rw [withExtension_of_pieces (pieces_join hstem directory) hname hup' (List.forall_mem_nil _),
    ← hrenamed, intercalate_pieces]
  rfl

theorem withExtension_join_up (directory ext : String) :
    withExtension (join directory "..") ext = join directory ".." :=
  withExtension_of_up (pieces_join ⟨by decide, by decide⟩ directory) (List.forall_mem_nil _) ext

/-- Replacing the extension of a dot that is joined to a directory replaces that of the directory,
    if it has a name. -/
theorem withExtension_join_dot (hext : '/' ∉ ext.toList) (directory : String) :
    withExtension (join directory ".") ext = join directory "." ∨
      ∃ (outer : List String) (name : String) (dots : List String),
        parts directory = outer ++ name :: dots ∧ (∀ dot ∈ dots, dot = ".") ∧
        name ≠ "." ∧ name ≠ ".." ∧
        isAbsolute (withExtension (join directory ".") ext) = isAbsolute directory ∧
        parts (withExtension (join directory ".") ext) =
          outer ++ [extended (stemOf name.toList) ext] := by
  have hdot : IsPart ".".toList := ⟨by decide, by decide⟩
  obtain hself | ⟨outer, name, dots, hpieces, hname, hup, hdots⟩ :=
    withExtension_eq_self_or (join directory ".") ext
  · exact .inl hself
  right
  have hrenamed := withExtension_of_pieces hpieces hname hup hdots ext
  have habsolute := isAbsolute_of_pieces hpieces fun hnil => hname (.inl hnil)
  rw [isAbsolute_join hdot] at habsolute
  rw [pieces_join hdot] at hpieces
  -- The dot itself is the last of the idle pieces.
  obtain rfl | ⟨inner, last, rfl⟩ := List.eq_nil_or_concat dots
  · obtain ⟨-, hlast⟩ := List.append_inj' hpieces rfl
    exact (hname (.inr (List.cons.inj hlast).1.symm)).elim
  rw [List.concat_eq_append, ← List.cons_append, ← List.append_assoc] at hpieces
  obtain ⟨haround, -⟩ := List.append_inj' hpieces rfl
  have hslash : ∀ piece ∈ outer ++ name :: inner, '/' ∉ piece := by
    rw [← haround]
    exact fun _ => notMem_of_mem_outerPieces
  obtain ⟨houter, hrest⟩ := List.forall_mem_append.mp hslash
  obtain ⟨hnameSlash, -⟩ := List.forall_mem_cons.mp hrest
  have hpart : IsPart name := ⟨fun hnil => hname (.inl hnil), hnameSlash⟩
  have hextended := hpart.stemOf.extended hext
  rw [extended, String.toList_ofList] at hextended
  have hbetween : ∀ piece ∈ outer ++ [stemOf name ++ '.' :: ext.toList], '/' ∉ piece :=
    List.forall_mem_append.mpr ⟨houter, List.forall_mem_singleton.mpr hextended.2⟩
  refine ⟨(outer.filter (· ≠ [])).map String.ofList, String.ofList name,
    (inner.filter (· ≠ [])).map String.ofList, ?_, ?_, ?_, ?_, ?_, ?_⟩
  · rw [parts_eq_outerPieces, haround]
    simp [hpart.1]
  · intro dot hdot
    obtain ⟨piece, hpiece, rfl⟩ := List.mem_map.mp hdot
    obtain ⟨hmem, hne⟩ := List.mem_filter.mp hpiece
    obtain hnil | rfl := hdots piece (by simp [hmem])
    · exact (of_decide_eq_true hne hnil).elim
    · rfl
  · exact fun heq => hname (.inr (String.ofList_inj.mp heq))
  · exact fun heq => hup (String.ofList_inj.mp heq)
  · have hpieces' : pieces (withExtension (join directory ".") ext) =
        outer ++ [stemOf name ++ '.' :: ext.toList] := by
      rw [hrenamed, pieces, String.toList_ofList,
        List.splitOn_intercalate _ hbetween (List.concat_ne_nil _ _)]
    rw [habsolute, isAbsolute_of_pieces hpieces' (by simp)]
  · rw [hrenamed, parts_intercalate (List.concat_ne_nil _ _) hbetween, List.filter_append,
      List.map_append]
    simp [extended]

end Extension

end TemplateCompiler.Command.Path
