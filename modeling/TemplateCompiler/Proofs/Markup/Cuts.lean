import Mathlib.Data.List.Infix
import TemplateCompiler.Proofs.Markup.Tiling

namespace TemplateCompiler.Markup

section Boundaries

/-- A byte offset between two characters of a source, or at one of its ends. -/
def Boundary (source : List Char) (offset : Nat) : Prop :=
  ∃ before, before <+: source ∧ Text.byteLength before = offset

theorem boundary_iff_splitAtByte? (source : List Char) (offset : Nat) :
    Boundary source offset ↔ (Text.splitAtByte? offset source).isSome = true := by
  constructor
  · rintro ⟨before, ⟨behind, rfl⟩, rfl⟩
    rw [splitAtByte?_byteLength]
    rfl
  · intro hsome
    obtain ⟨⟨before, behind⟩, hsplit⟩ := Option.isSome_iff_exists.mp hsome
    obtain ⟨hsource, hbytes⟩ := Text.eq_append_of_splitAtByte? hsplit
    exact ⟨before, ⟨behind, hsource.symm⟩, hbytes⟩

instance (source : List Char) (offset : Nat) : Decidable (Boundary source offset) :=
  decidable_of_iff _ (boundary_iff_splitAtByte? source offset).symm

/-- A range of bytes that is taken out of a source. -/
structure Cut where
  start : Nat
  stop : Nat
deriving DecidableEq, Repr

/-- A range that can be taken out of a source: in order, inside the source and between characters. -/
def Cut.Fits (source : List Char) (cut : Cut) : Prop :=
  cut.start ≤ cut.stop ∧ cut.stop ≤ Text.byteLength source ∧ Boundary source cut.start ∧
    Boundary source cut.stop

instance (source : List Char) (cut : Cut) : Decidable (cut.Fits source) :=
  inferInstanceAs (Decidable (_ ∧ _ ∧ _ ∧ _))

/-- A source goes on with `cs` from the byte `position` on. -/
def ContinuesAt (source : List Char) (position : Nat) (cs : List Char) : Prop :=
  ∃ before, source = before ++ cs ∧ Text.byteLength before = position

namespace ContinuesAt

variable {source read cs : List Char} {position : Nat}

theorem behind (h : ContinuesAt source position (read ++ cs)) :
    ContinuesAt source (position + Text.byteLength read) cs := by
  obtain ⟨before, rfl, rfl⟩ := h
  exact ⟨before ++ read, (List.append_assoc _ _ _).symm, Text.byteLength_append _ _⟩

theorem boundary_iff (h : ContinuesAt source position cs) (offset : Nat) :
    Boundary source (position + offset) ↔ Boundary cs offset := by
  obtain ⟨before, rfl, rfl⟩ := h
  rw [boundary_iff_splitAtByte?, boundary_iff_splitAtByte?, splitAtByte?_append, Option.isSome_map]

theorem boundary (h : ContinuesAt source position cs) : Boundary source position := by
  obtain ⟨before, rfl, rfl⟩ := h
  exact ⟨before, List.prefix_append _ _, rfl⟩

theorem le (h : ContinuesAt source position cs) : position ≤ Text.byteLength source := by
  obtain ⟨before, rfl, rfl⟩ := h
  rw [Text.byteLength_append]
  exact Nat.le_add_right _ _

theorem fits (h : ContinuesAt source position (read ++ cs)) :
    Cut.Fits source ⟨position, position + Text.byteLength read⟩ :=
  ⟨Nat.le_add_right _ _, h.behind.le, h.boundary, h.behind.boundary⟩

theorem fits_to_end (h : ContinuesAt source position cs) :
    Cut.Fits source ⟨position, Text.byteLength source⟩ :=
  ⟨h.le, Nat.le_refl _, h.boundary, source, List.prefix_refl _, rfl⟩

end ContinuesAt

end Boundaries

section Searches

/-- The offsets from which the search for a stray angle takes the rest of a source: where it goes on
    looking, and each angle. -/
def strayOffsets (position : Nat) (cs : List Char) : List Nat :=
  match _hangle : Text.splitOnce ['<'] cs with
  | none => [position]
  | some (before, rest) =>
    let angle := position + Text.byteLength before
    match _huse : AngleUse.of rest with
    | .stray | .unfinished => [position, angle]
    | .markup piece behind =>
      position :: angle :: strayOffsets (angle + Text.byteLength ('<' :: piece)) behind
termination_by cs.length
decreasing_by
  have hangle := Text.length_behind_splitOnce _hangle
  have hpiece := congrArg List.length (AngleUse.eq_append_of_of _huse)
  simp at hangle hpiece
  omega

theorem ContinuesAt.fits_strayOffsets {source cs : List Char} {position : Nat}
    (h : ContinuesAt source position cs) :
    ∀ offset ∈ strayOffsets position cs, Cut.Fits source ⟨offset, Text.byteLength source⟩ := by
  have hat {position : Nat} {cs before rest : List Char} (h : ContinuesAt source position cs)
      (hangle : Text.splitOnce ['<'] cs = some (before, rest)) :
      ContinuesAt source (position + Text.byteLength before) ('<' :: rest) := by
    rw [Text.eq_append_of_splitOnce hangle, List.append_assoc] at h
    exact h.behind
  fun_induction strayOffsets position cs with
  | case1 position cs hangle => exact List.forall_mem_singleton.mpr h.fits_to_end
  | case2 position cs before rest hangle angle huse
  | case3 position cs before rest hangle angle huse =>
    refine List.forall_mem_cons.mpr ⟨h.fits_to_end, ?_⟩
    exact List.forall_mem_singleton.mpr (hat h hangle).fits_to_end
  | case4 position cs before rest hangle angle piece behind huse ih =>
    have hrest := hat h hangle
    refine List.forall_mem_cons.mpr ⟨h.fits_to_end, List.forall_mem_cons.mpr ⟨hrest.fits_to_end, ?_⟩⟩
    rw [AngleUse.eq_append_of_of huse, ← List.cons_append] at hrest
    exact ih hrest.behind

/-- The offsets from which the search for the end tag of raw text takes the rest of a source: where it
    goes on looking, and behind each occurrence of the opening of that tag. They are counted in a copy
    of the text in lower case. -/
def rawTextOffsets (position : Nat) (opening copy : List Char) : List Nat :=
  match _hfound : Text.splitOnce opening copy with
  | none => [position]
  | some (before, behind) =>
    let after := position + Text.byteLength (before ++ opening)
    if behind.head?.any endsRawName then [position, after]
    else if _hopening : opening = [] then [position, after]
    else position :: after :: rawTextOffsets after opening behind
termination_by copy.length
decreasing_by
  have hlength := Text.length_behind_splitOnce _hfound
  have hpos := List.length_pos_iff.mpr _hopening
  omega

theorem utf8Size_toLower (c : Char) : c.toLower.utf8Size = c.utf8Size := by
  unfold Char.toLower
  split
  · rename_i hupper
    have hlow : 65 ≤ c.val.toNat := UInt32.le_iff_toNat_le.mp hupper.1
    have hhigh : c.val.toNat ≤ 90 := UInt32.le_iff_toNat_le.mp hupper.2
    have hsize {d : Char} (hd : d.val.toNat ≤ 127) : d.utf8Size = 1 :=
      if_pos (UInt32.le_iff_toNat_le.mpr hd)
    have hstep : ('a'.val - 'A'.val).toNat = 32 := rfl
    rw [hsize (Nat.le_trans hhigh (by omega)), hsize]
    rw [UInt32.toNat_add, hstep]
    omega
  · rfl

/-- A copy in lower case has its characters in the same places. -/
theorem byteLength_lower (cs : List Char) :
    Text.byteLength (Text.lower cs) = Text.byteLength cs := by
  induction cs with
  | nil => rfl
  | cons c cs ih =>
    rw [Text.lower, List.map_cons, Text.byteLength_cons, utf8Size_toLower, Text.byteLength_cons]
    exact congrArg (c.utf8Size + ·) ih

theorem ContinuesAt.fits_rawTextOffsets {source cs : List Char} {position : Nat}
    (h : ContinuesAt source position cs) (opening : List Char) :
    ∀ offset ∈ rawTextOffsets position opening (Text.lower cs),
      Cut.Fits source ⟨offset, Text.byteLength source⟩ := by
  have hafter {position : Nat} {cs before opening behind : List Char}
      (h : ContinuesAt source position cs)
      (hfound : Text.splitOnce opening (Text.lower cs) = some (before, behind)) :
      ∃ rest, Text.lower rest = behind ∧
        ContinuesAt source (position + Text.byteLength (before ++ opening)) rest := by
    obtain ⟨read, rest, rfl, hread, hrest⟩ :=
      List.map_eq_append_iff.mp (Text.eq_append_of_splitOnce hfound)
    refine ⟨rest, hrest, ?_⟩
    rw [← hread, ← Text.lower, byteLength_lower]
    exact h.behind
  generalize hcopy : Text.lower cs = copy
  fun_induction rawTextOffsets position opening copy generalizing cs with
  | case1 position copy hfound => exact List.forall_mem_singleton.mpr h.fits_to_end
  | case2 position copy before behind hfound after
  | case3 position copy before behind hfound after =>
    subst hcopy
    obtain ⟨rest, -, hrest⟩ := hafter h hfound
    refine List.forall_mem_cons.mpr ⟨h.fits_to_end, ?_⟩
    exact List.forall_mem_singleton.mpr hrest.fits_to_end
  | case4 position copy before behind hfound after =>
    rename_i ih
    subst hcopy
    obtain ⟨rest, hlower, hrest⟩ := hafter h hfound
    refine List.forall_mem_cons.mpr ⟨h.fits_to_end, List.forall_mem_cons.mpr ⟨hrest.fits_to_end, ?_⟩⟩
    exact ih hrest hlower

end Searches

section Places

variable (rules : Rules)

/-- How the slice at a place is read. -/
def sliceAt (position : Nat) (cs : List Char) : Except Failure (List Event × SliceEnd) :=
  readSlice rules position (dropByteOrderMark (sliceBeforeStray cs))

/-- Where reading goes on behind the slice at a place: behind a stray angle, or behind raw text. -/
def resume? (position : Nat) (cs : List Char) : Option (Nat × List Char) :=
  match sliceAt rules position cs with
  | .error _ => none
  | .ok (_, .exhausted) =>
    (splitAtStray cs).map fun (slice, beyond) => (position + Text.byteLength slice + 1, beyond)
  | .ok (_, .rawText name tag) =>
    (Text.splitAtByte? (tag.stop - position) cs).bind fun (_, scanned) =>
      (cutRawText (endTagOpening name) scanned).map fun (content, rest) =>
        ((rawTextEvents name tag.stop scanned content rest).2, rest)

/-- The places of a source at which a slice starts: byte positions with the text from there on. -/
inductive Reached (source : List Char) : Nat → List Char → Prop where
  | start : Reached source 0 source
  | resume {position later : Nat} {cs rest : List Char} (hreached : Reached source position cs)
      (hresume : resume? rules position cs = some (later, rest)) : Reached source later rest

/-- The cuts in a source of `size` bytes for the raw text behind the slice at a place: those of the
    search for its end tag, and the raw text itself. -/
def scanCuts (size position : Nat) (cs : List Char) : List Cut :=
  match sliceAt rules position cs with
  | .error _ | .ok (_, .exhausted) => []
  | .ok (_, .rawText name tag) =>
    match Text.splitAtByte? (tag.stop - position) cs with
    | none => [⟨tag.stop, size⟩]
    | some (_, scanned) =>
      (rawTextOffsets tag.stop (endTagOpening name) (Text.lower scanned)).map (⟨·, size⟩) ++
        (cutRawText (endTagOpening name) scanned).toList.map fun cut =>
          ⟨tag.stop, tag.stop + Text.byteLength cut.1⟩

/-- The cuts in a source of `size` bytes for the slice at a place: those of the search for a stray
    angle, the slice itself, and those for raw text behind it. -/
def cutsAt (size position : Nat) (cs : List Char) : List Cut :=
  (strayOffsets position cs).map (⟨·, size⟩) ++
    ⟨position, position + Text.byteLength (sliceBeforeStray cs)⟩ :: scanCuts rules size position cs

/-- A place where a byte order mark stands in front of the slice, and the slice ends with the start tag
    of a raw text element such that no character begins as many bytes in as that tag ends behind the
    mark, that is, three bytes before its end. -/
def CutsCharacter (position : Nat) (cs : List Char) : Prop :=
  ∃ head rest events name tag, cs = byteOrderMark :: head ++ rest ∧
    sliceAt rules position cs = .ok (events, .rawText name tag) ∧
    tag.stop = position + Text.byteLength head ∧
    ¬Boundary (byteOrderMark :: head) (Text.byteLength head)

variable {rules} {position : Nat} {cs : List Char} {events : List Event}

/-- The start tag that ends a slice is as long as the text that was read up to its end. -/
theorem exists_head_of_readSlice {name : String} {tag : Span}
    (h : readSlice rules position cs = .ok (events, .rawText name tag)) :
    ∃ head rest, cs = head ++ rest ∧ tag.stop = position + Text.byteLength head := by
  have hstop {c : Char} {tail rest : List Char} {piece : Piece}
      (hread : Piece.read (c :: tail) = .ok (piece, rest)) :
      ∃ head, c :: tail = head ++ rest ∧ bytesRead (c :: tail) rest = Text.byteLength head := by
    obtain ⟨head, rfl⟩ := Piece.suffix_of_read hread
    exact ⟨c :: head, rfl, bytesRead_append (c :: head) rest⟩
  fun_induction readSlice rules position cs generalizing events with
  | case1 => cases h
  | case2 => cases h
  | case3 position c tail piece rest hread span name' =>
    obtain ⟨-, hend⟩ := Prod.mk.inj (Except.ok.inj h)
    obtain ⟨-, rfl⟩ := SliceEnd.rawText.inj hend
    obtain ⟨head, hhead, hbytes⟩ := hstop hread
    exact ⟨head, rest, hhead, congrArg (position + ·) hbytes⟩
  | case4 position c tail piece rest hread span =>
    rename_i ih
    obtain ⟨⟨following, stop⟩, hslice, hpair⟩ := exists_of_map_eq_ok h
    cases hpair
    obtain ⟨head, hhead, hbytes⟩ := hstop hread
    obtain ⟨later, behind, rfl, hlater⟩ := ih hslice
    refine ⟨head ++ later, behind, by rw [hhead, List.append_assoc], ?_⟩
    have hspan : span.stop = position + Text.byteLength head := congrArg (position + ·) hbytes
    rw [hlater, hspan, Text.byteLength_append, Nat.add_assoc]

/-- Reading goes on behind what it has read. -/
theorem exists_read_of_resume {later : Nat} {rest : List Char}
    (h : resume? rules position cs = some (later, rest)) :
    ∃ read, read ≠ [] ∧ cs = read ++ rest ∧ later = position + Text.byteLength read := by
  unfold resume? at h
  split at h
  · cases h
  · obtain ⟨⟨slice, beyond⟩, hstray, hpair⟩ := Option.map_eq_some_iff.mp h
    cases hpair
    refine ⟨slice ++ ['<'], by simp, ?_, ?_⟩
    · simpa using eq_append_of_splitAtStray hstray
    · rw [Text.byteLength_append, Nat.add_assoc]
      rfl
  · rename_i events name tag hslice
    obtain ⟨⟨front, scanned⟩, hsplit, hcut⟩ := Option.bind_eq_some_iff.mp h
    obtain ⟨⟨content, behind⟩, hraw, hpair⟩ := Option.map_eq_some_iff.mp hcut
    cases hpair
    obtain ⟨rfl, hfront⟩ := Text.eq_append_of_splitAtByte? hsplit
    obtain ⟨shown, rfl, hend, -⟩ := covers_rawTextEvents hraw tag.stop
    have hle := le_stop_of_readSlice hslice
    have hshorter := length_behind_cutRawText hraw
    refine ⟨front ++ shown, ?_, (List.append_assoc _ _ _).symm, ?_⟩
    · rintro hnil
      rw [(List.append_eq_nil_iff.mp hnil).2] at hshorter
      exact Nat.lt_irrefl _ hshorter
    · rw [hend, Text.byteLength_append]
      omega

theorem Reached.continuesAt {source : List Char} (h : Reached rules source position cs) :
    ContinuesAt source position cs := by
  induction h with
  | start => exact ⟨[], rfl, rfl⟩
  | resume hreached hresume ih =>
    obtain ⟨read, -, rfl, rfl⟩ := exists_read_of_resume hresume
    exact ih.behind

/-- A character is cut at a place if and only if the scan for the end of raw text cannot begin. -/
theorem cutsCharacter_iff :
    CutsCharacter rules position cs ↔
      ∃ events name tag, sliceAt rules position cs = .ok (events, .rawText name tag) ∧
        ¬Boundary cs (tag.stop - position) := by
  constructor
  · rintro ⟨head, rest, events, name, tag, hcs, hslice, hstop, hcut⟩
    refine ⟨events, name, tag, hslice, ?_⟩
    rw [hstop, Nat.add_sub_cancel_left]
    rintro ⟨before, hbefore, hbytes⟩
    obtain hshort | ⟨more, hmore⟩ :=
      List.prefix_or_prefix_of_prefix hbefore ⟨rest, hcs.symm⟩
    · exact hcut ⟨before, hshort, hbytes⟩
    · have hmark : byteOrderMark.utf8Size = 3 := rfl
      rw [← hmore, Text.byteLength_append, Text.byteLength_cons] at hbytes
      omega
  · rintro ⟨events, name, tag, hslice, hcut⟩
    obtain ⟨head, behind, hhead, hstop⟩ := exists_head_of_readSlice hslice
    rw [hstop, Nat.add_sub_cancel_left] at hcut
    obtain ⟨beyond, hbeyond⟩ := sliceBeforeStray_prefix cs
    cases hread : sliceBeforeStray cs with
    | nil =>
      rw [sliceAt, hread, dropByteOrderMark, readSlice_nil] at hslice
      cases hslice
    | cons c slice =>
      rw [hread] at hhead hbeyond
      by_cases hmark : c = byteOrderMark
      · rw [dropByteOrderMark, if_pos hmark] at hhead
        have hcs : cs = byteOrderMark :: head ++ (behind ++ beyond) := by
          rw [← hbeyond, hhead, hmark]
          simp
        refine ⟨head, behind ++ beyond, events, name, tag, hcs, hslice, hstop, ?_⟩
        rintro ⟨before, hbefore, hbytes⟩
        exact hcut ⟨before, hbefore.trans ⟨_, hcs.symm⟩, hbytes⟩
      · rw [dropByteOrderMark, if_neg hmark] at hhead
        refine (hcut ⟨head, ⟨behind ++ beyond, ?_⟩, rfl⟩).elim
        rw [← hbeyond, hhead, List.append_assoc]

theorem cutsCharacter_of_rawText {name : String} {tag : Span}
    (hslice : sliceAt rules position cs = .ok (events, .rawText name tag)) :
    CutsCharacter rules position cs ↔ ¬Boundary cs (tag.stop - position) := by
  rw [cutsCharacter_iff]
  constructor
  · rintro ⟨_, _, _, hread, hcut⟩
    rw [hslice] at hread
    cases hread
    exact hcut
  · exact fun hcut => ⟨events, name, tag, hslice, hcut⟩

theorem not_cutsCharacter (hslice : ∀ events name tag,
    sliceAt rules position cs ≠ .ok (events, .rawText name tag)) :
    ¬CutsCharacter rules position cs := by
  rw [cutsCharacter_iff]
  rintro ⟨events, name, tag, hread, -⟩
  exact hslice events name tag hread

/-- The raw text behind a slice can be cut out, unless a character is cut where the scan for its end
    begins. -/
theorem ContinuesAt.fits_scanCuts_iff {source : List Char} (h : ContinuesAt source position cs) :
    (∀ cut ∈ scanCuts rules (Text.byteLength source) position cs, cut.Fits source) ↔
      ¬CutsCharacter rules position cs := by
  unfold scanCuts
  split
  · rename_i hslice
    exact iff_of_true (List.forall_mem_nil _) (not_cutsCharacter (by simp [hslice]))
  · rename_i hslice
    exact iff_of_true (List.forall_mem_nil _) (not_cutsCharacter (by simp [hslice]))
  · rename_i events name tag hslice
    have hstop : position + (tag.stop - position) = tag.stop :=
      Nat.add_sub_cancel' (le_stop_of_readSlice hslice)
    have hcut := h.boundary_iff (tag.stop - position)
    rw [hstop] at hcut
    rw [cutsCharacter_of_rawText hslice, Decidable.not_not, ← hcut]
    cases hsplit : Text.splitAtByte? (tag.stop - position) cs with
    | none =>
      refine ⟨fun hfits => (hfits _ List.mem_cons_self).2.2.1, fun hwhole => ?_⟩
      have hsome := (boundary_iff_splitAtByte? _ _).mp (hcut.mp hwhole)
      rw [hsplit] at hsome
      cases hsome
    | some parts =>
      obtain ⟨front, scanned⟩ := parts
      obtain ⟨rfl, hfront⟩ := Text.eq_append_of_splitAtByte? hsplit
      have hscanned := h.behind
      rw [hfront, hstop] at hscanned
      refine iff_of_true (List.forall_mem_append.mpr ⟨?_, ?_⟩) hscanned.boundary
      · exact List.forall_mem_map.mpr (hscanned.fits_rawTextOffsets _)
      · rw [List.forall_mem_map]
        intro cut hraw
        obtain ⟨opened, inner, rfl, -⟩ := eq_append_of_cutRawText (Option.mem_toList.mp hraw)
        rw [List.append_assoc] at hscanned
        exact hscanned.fits

/-- All cuts at a place can be made, unless a character is cut there. -/
theorem Reached.fits_cutsAt_iff {source : List Char} (h : Reached rules source position cs) :
    (∀ cut ∈ cutsAt rules (Text.byteLength source) position cs, cut.Fits source) ↔
      ¬CutsCharacter rules position cs := by
  have hat := h.continuesAt
  have hslice : Cut.Fits source ⟨position, position + Text.byteLength (sliceBeforeStray cs)⟩ := by
    obtain ⟨beyond, hbeyond⟩ := sliceBeforeStray_prefix cs
    rw [← hbeyond] at hat
    exact hat.fits
  rw [cutsAt, List.forall_mem_append, List.forall_mem_map, List.forall_mem_cons,
    hat.fits_scanCuts_iff]
  exact ⟨fun hfits => hfits.2.2, fun hwhole => ⟨hat.fits_strayOffsets, hslice, hwhole⟩⟩

theorem error_of_map_eq_error {ε α β : Type} {result : Except ε α} {f : α → β} {e : ε}
    (h : result.map f = .error e) : result = .error e := by
  cases result with
  | error e' => exact congrArg _ (Except.error.inj h)
  | ok a => cases h

theorem exists_reported_of_readSlice {failure : Failure}
    (h : readSlice rules position cs = .error failure) :
    ∃ diagnostic, failure = .reported diagnostic := by
  fun_induction readSlice rules position cs with
  | case1 => cases h
  | case2 => exact ⟨_, (Except.error.inj h).symm⟩
  | case3 => cases h
  | case4 position c tail piece rest hread span =>
    rename_i ih
    exact ih (error_of_map_eq_error h)

/-- A source is read as the slice at its place, and then from where reading goes on. -/
theorem readSource_of_resume {later : Nat} {rest : List Char}
    (h : resume? rules position cs = some (later, rest)) :
    ∃ events, readSource rules position cs = (readSource rules later rest).map (events ++ ·) := by
  unfold resume? at h
  split at h
  · cases h
  · rename_i events hslice
    obtain ⟨⟨slice, beyond⟩, hstray, hpair⟩ := Option.map_eq_some_iff.mp h
    cases hpair
    refine ⟨events ++ [.text "<" (Span.ofLength (position + Text.byteLength slice) 1)], ?_⟩
    rw [readSource_of_exhausted hslice, hstray]
    simp
  · rename_i events name tag hslice
    obtain ⟨⟨front, scanned⟩, hsplit, hcut⟩ := Option.bind_eq_some_iff.mp h
    obtain ⟨⟨content, behind⟩, hraw, hpair⟩ := Option.map_eq_some_iff.mp hcut
    cases hpair
    refine ⟨events ++ (rawTextEvents name tag.stop scanned content rest).1, ?_⟩
    rw [readSource_of_rawText hslice, hsplit]
    dsimp only
    rw [hraw]

/-- Reading fails where a character is cut. -/
theorem readSource_of_cutsCharacter (h : CutsCharacter rules position cs) :
    ∃ offset, readSource rules position cs = .error (.insideCharacter offset) := by
  obtain ⟨events, name, tag, hslice, hcut⟩ := cutsCharacter_iff.mp h
  rw [boundary_iff_splitAtByte?, Option.not_isSome_iff_eq_none] at hcut
  rw [readSource_of_rawText hslice, hcut]
  exact ⟨tag.stop, rfl⟩

/-- Where reading does not go on, nothing else makes it fail inside a character. -/
theorem cutsCharacter_of_stop (hstop : resume? rules position cs = none) {offset : Nat}
    (herror : readSource rules position cs = .error (.insideCharacter offset)) :
    CutsCharacter rules position cs := by
  unfold resume? at hstop
  split at hstop
  · rename_i failure hslice
    obtain ⟨diagnostic, rfl⟩ := exists_reported_of_readSlice hslice
    rw [readSource_of_error hslice] at herror
    cases herror
  · rename_i events hslice
    rw [readSource_of_exhausted hslice, Option.map_eq_none_iff.mp hstop] at herror
    cases herror
  · rename_i events name tag hslice
    rw [cutsCharacter_of_rawText hslice, boundary_iff_splitAtByte?, Option.not_isSome_iff_eq_none]
    cases hsplit : Text.splitAtByte? (tag.stop - position) cs with
    | none => rfl
    | some parts =>
      rw [hsplit, Option.bind_some, Option.map_eq_none_iff] at hstop
      rw [readSource_of_rawText hslice, hsplit] at herror
      dsimp only at herror
      rw [hstop] at herror
      cases herror

end Places

/-- What goes wrong at a place that is reached goes wrong with the source. -/
theorem Reached.readSource_error {rules : Rules} {source cs : List Char} {position : Nat}
    (h : Reached rules source position cs) {failure : Failure}
    (herror : readSource rules position cs = .error failure) :
    readSource rules 0 source = .error failure := by
  induction h with
  | start => exact herror
  | resume hreached hresume ih =>
    obtain ⟨events, hread⟩ := readSource_of_resume hresume
    rw [herror] at hread
    exact ih hread

/-- If reading fails inside a character, one is cut at a place that is reached. -/
theorem Reached.exists_cutsCharacter {rules : Rules} {source cs : List Char} {position offset : Nat}
    (h : Reached rules source position cs)
    (herror : readSource rules position cs = .error (.insideCharacter offset)) :
    ∃ later rest, Reached rules source later rest ∧ CutsCharacter rules later rest := by
  generalize hlength : cs.length = length
  induction length using Nat.strongRecOn generalizing position cs with
  | ind length ih =>
    cases hresume : resume? rules position cs with
    | none => exact ⟨position, cs, h, cutsCharacter_of_stop hresume herror⟩
    | some place =>
      obtain ⟨later, rest⟩ := place
      obtain ⟨events, hread⟩ := readSource_of_resume hresume
      obtain ⟨read, hne, rfl, -⟩ := exists_read_of_resume hresume
      have hshorter : rest.length < length := by
        have hpos := List.length_pos_iff.mpr hne
        rw [List.length_append] at hlength
        omega
      refine ih rest.length hshorter (h.resume hresume) ?_ rfl
      rw [herror] at hread
      exact error_of_map_eq_error hread.symm

/-- Reading a source cuts it between characters, with one exception: if a byte order mark stands in
    front of a slice that ends with the start tag of a raw text element, the scan for the end of the
    raw text begins three bytes early, and fails if no character begins there. A source without that
    mark is never cut inside a character. -/
theorem tokenize_cuts_fit_iff (rules : Rules) (source : String) :
    let reached := Reached rules source.toList
    let fits (position : Nat) (cs : List Char) :=
      ∀ cut ∈ cutsAt rules source.utf8ByteSize position cs, cut.Fits source.toList
    ((∀ position cs, reached position cs → fits position cs) ↔
      ∀ position cs, reached position cs → ¬CutsCharacter rules position cs) ∧
    ((∃ offset, tokenize rules source = .error (.insideCharacter offset)) ↔
      ∃ position cs, reached position cs ∧ CutsCharacter rules position cs) ∧
    (byteOrderMark ∉ source.toList → ∀ position cs, reached position cs → fits position cs) := by
  intro reached fits
  have hplace (position : Nat) (cs : List Char) (hreached : reached position cs) :
      fits position cs ↔ ¬CutsCharacter rules position cs := by
    have hfits := Reached.fits_cutsAt_iff hreached
    rw [byteLength_toList] at hfits
    exact hfits
  refine ⟨?_, ?_, ?_⟩
  · constructor
    · intro hfits position cs hreached
      exact (hplace position cs hreached).mp (hfits position cs hreached)
    · intro hwhole position cs hreached
      exact (hplace position cs hreached).mpr (hwhole position cs hreached)
  · constructor
    · rintro ⟨offset, herror⟩
      exact Reached.start.exists_cutsCharacter (error_of_map_eq_error herror)
    · rintro ⟨position, cs, hreached, hcut⟩
      obtain ⟨offset, herror⟩ := readSource_of_cutsCharacter hcut
      refine ⟨offset, ?_⟩
      rw [tokenize, hreached.readSource_error herror]
      rfl
  · intro hmark position cs hreached
    refine (hplace position cs hreached).mpr ?_
    rintro ⟨head, rest, -, -, -, rfl, -⟩
    obtain ⟨before, hsource, -⟩ := Reached.continuesAt hreached
    rw [hsource] at hmark
    exact hmark (by simp)

/-- The start tag of a script behind a byte order mark, with a character of two bytes at its end. -/
theorem tokenize_cuts_attribute_value :
    let source := "\uFEFF<script a=\"é\">x</script>"
    tokenize {} source = .error (.insideCharacter 15) ∧
      ⟨15, 28⟩ ∈ cutsAt {} source.utf8ByteSize 0 source.toList ∧
      ¬Cut.Fits source.toList ⟨15, 28⟩ := by
  refine ⟨?_, ?_, ?_⟩ <;> decide +kernel

end TemplateCompiler.Markup
