import TemplateCompiler.Proofs.Markup.Cuts

namespace TemplateCompiler.Markup

section Search

/-- A text starts with a letter. -/
def LetterFirst (cs : List Char) : Prop :=
  ∃ c tail, cs = c :: tail ∧ c.isAlpha = true

/-- The text behind a `<` makes it the start of markup. -/
def StartsMarkup (cs : List Char) : Prop :=
  ∃ c tail, cs = c :: tail ∧ (c.isAlpha = true ∨ c ∈ ['/', '!', '?'])

theorem angleUse_of_not_startsMarkup {cs : List Char} (h : ¬StartsMarkup cs) :
    AngleUse.of cs = .stray := by
  cases cs with
  | nil => rfl
  | cons c tail => exact angleUse_cons_eq_stray (fun hc => h ⟨c, tail, rfl, hc⟩) tail

theorem not_startsMarkup_append {cs beyond : List Char} (h : ¬StartsMarkup cs)
    (hbeyond : beyond = [] ∨ beyond.head? = some '<') : ¬StartsMarkup (cs ++ beyond) := by
  rintro ⟨c, tail, heq, hc⟩
  cases cs with
  | nil =>
    rw [List.nil_append] at heq
    subst heq
    obtain hnil | hfirst := hbeyond
    · cases hnil
    · cases hfirst
      exact absurd hc (by decide)
  | cons d ds =>
    obtain ⟨rfl, -⟩ := List.cons.inj heq
    exact h ⟨d, ds, rfl, hc⟩

variable {cs piece behind : List Char}

theorem upTo_append {closer : List Char} (h : AngleUse.upTo closer cs = .markup piece behind)
    (beyond : List Char) :
    AngleUse.upTo closer (cs ++ beyond) = .markup piece (behind ++ beyond) := by
  unfold AngleUse.upTo at h
  split at h
  · rename_i before rest hcut
    cases h
    rw [AngleUse.upTo, Text.splitOnce_append hcut]
  · cases h

theorem upToTagEnd_append (h : AngleUse.upToTagEnd cs = .markup piece behind)
    (beyond : List Char) :
    AngleUse.upToTagEnd (cs ++ beyond) = .markup piece (behind ++ beyond) := by
  unfold AngleUse.upToTagEnd at h
  split at h
  · rename_i content rest hcut
    cases h
    have hcut' := cutTag_append hcut (behind ++ beyond)
    rw [AngleUse.upToTagEnd, eq_append_of_cutTag hcut, List.append_assoc, List.cons_append, hcut']
  · cases h

theorem mem_of_angleUse (h : AngleUse.of cs = .markup piece behind) : '>' ∈ cs := by
  have htag (htag : AngleUse.upToTagEnd cs = .markup piece behind) : '>' ∈ cs := by
    unfold AngleUse.upToTagEnd at htag
    split at htag
    · rename_i content rest hcut
      simp [eq_append_of_cutTag hcut]
    · cases htag
  have hupTo {closer : List Char} (hcloser : '>' ∈ closer)
      (hupTo : AngleUse.upTo closer cs = .markup piece behind) : '>' ∈ cs := by
    unfold AngleUse.upTo at hupTo
    split at hupTo
    · rename_i before rest hcut
      simp [Text.eq_append_of_splitOnce hcut, hcloser]
    · cases hupTo
  unfold AngleUse.of at h
  split at h
  · cases h
  · split at h
    · exact htag h
    · split at h
      · cases h
      · split at h
        · exact hupTo (by decide) h
        · split at h
          · exact hupTo (by decide) h
          · exact htag h

/-- A text that is not cut off inside an opening keeps it, whatever follows. -/
theorem isPrefixOf_append (opening : List Char) (hopening : '>' ∉ opening) (hend : '>' ∈ cs)
    (beyond : List Char) : opening.isPrefixOf (cs ++ beyond) = opening.isPrefixOf cs := by
  rw [Bool.eq_iff_iff, List.isPrefixOf_iff_prefix, List.isPrefixOf_iff_prefix]
  constructor
  · intro hlong
    obtain hshort | hshort := List.prefix_or_prefix_of_prefix hlong (List.prefix_append cs beyond)
    · exact hshort
    · exact (hopening (hshort.subset hend)).elim
  · intro hshort
    exact hshort.trans (List.prefix_append cs beyond)

/-- What stands behind the end of markup plays no part in where it ends. -/
theorem angleUse_append (h : AngleUse.of cs = .markup piece behind) (beyond : List Char) :
    AngleUse.of (cs ++ beyond) = .markup piece (behind ++ beyond) := by
  have hend := mem_of_angleUse h
  cases cs with
  | nil => cases h
  | cons c tail =>
    have hcomment := isPrefixOf_append "!--".toList (by decide) hend beyond
    have hcdata := isPrefixOf_append "![CDATA[".toList (by decide) hend beyond
    rw [AngleUse.of] at h
    rw [List.cons_append, AngleUse.of, ← List.cons_append, hcomment, hcdata]
    split at h
    · rw [if_pos ‹_›, upToTagEnd_append h]
    · rw [if_neg ‹_›]
      split at h
      · cases h
      · rw [if_neg ‹_›]
        split at h
        · rw [if_pos ‹_›, upTo_append h]
        · rw [if_neg ‹_›]
          split at h
          · rw [if_pos ‹_›, upTo_append h]
          · rw [if_neg ‹_›, upToTagEnd_append h]

end Search

section Reader

/-- Reading a slice comes to `later`, a rest of the slice: before it stand whole pieces of markup,
    none of which opens raw text. -/
inductive ReadsTo (rules : Rules) (later : List Char) : List Char → Prop where
  | here : ReadsTo rules later later
  | piece {c : Char} {tail rest : List Char} {piece : Piece}
      (hread : Piece.read (c :: tail) = .ok (piece, rest)) (hraw : piece.rawText? rules = none)
      (hrest : ReadsTo rules later rest) : ReadsTo rules later (c :: tail)

/-- Markup that starts with `inner` behind its `<`, and that the reader reads up to `behind`, ends
    elsewhere or not at all for the search for stray angles. -/
def Misjudged (inner behind : List Char) : Prop :=
  StartsMarkup inner ∧ ∀ piece, AngleUse.of inner ≠ .markup piece behind

/-- Reading a slice comes to a piece of markup that is misjudged, and then to a `<` with `inner`
    behind it. -/
def ReadsPastMisjudged (rules : Rules) (inner slice : List Char) : Prop :=
  ∃ first piece behind, ReadsTo rules ('<' :: first) slice ∧
    Piece.read ('<' :: first) = .ok (piece, behind) ∧ piece.rawText? rules = none ∧
    Misjudged first behind ∧ ReadsTo rules ('<' :: inner) behind

variable {rules : Rules} {slice later inner : List Char}

theorem ReadsTo.trans {middle : List Char} (h : ReadsTo rules middle slice)
    (hlater : ReadsTo rules later middle) : ReadsTo rules later slice := by
  induction h with
  | here => exact hlater
  | piece hread hraw hrest ih => exact .piece hread hraw ih

theorem ReadsTo.suffix (h : ReadsTo rules later slice) : later <:+ slice := by
  induction h with
  | here => exact List.suffix_refl later
  | piece hread hraw hrest ih =>
    exact (ih.trans (Piece.suffix_of_read hread)).trans (List.suffix_cons _ _)

theorem ReadsPastMisjudged.piece {c : Char} {tail rest : List Char} {piece : Piece}
    (hread : Piece.read (c :: tail) = .ok (piece, rest)) (hraw : piece.rawText? rules = none)
    (h : ReadsPastMisjudged rules inner rest) : ReadsPastMisjudged rules inner (c :: tail) := by
  obtain ⟨first, piece', behind, hfirst, hmisjudged⟩ := h
  exact ⟨first, piece', behind, .piece hread hraw hfirst, hmisjudged⟩

theorem ReadsPastMisjudged.readsTo (h : ReadsPastMisjudged rules inner slice) :
    ReadsTo rules ('<' :: inner) slice := by
  obtain ⟨first, piece, behind, hfirst, hread, hraw, -, hbehind⟩ := h
  exact hfirst.trans (.piece hread hraw hbehind)

/-- A piece of text is taken off before the next angle. -/
theorem exists_text_of_read {c : Char} {tail rest : List Char} {piece : Piece} (hc : c ≠ '<')
    (hread : Piece.read (c :: tail) = .ok (piece, rest)) :
    ∃ text, '<' ∉ text ∧ c :: tail = text ++ rest := by
  rw [Piece.read.eq_def] at hread
  split at hread
  · rename_i heq
    exact (hc (List.cons.inj heq).1).elim
  · cases hread
    refine ⟨(c :: tail).takeWhile (· != '<'), ?_, List.takeWhile_append_dropWhile.symm⟩
    intro hmem
    simpa using List.all_eq_true.mp List.all_takeWhile _ hmem

/-- As long as the pieces on the way are judged right, the search finds a stray angle that reading
    comes to, or one before it. -/
theorem ReadsTo.misjudged_or_found (h : ReadsTo rules ('<' :: inner) slice)
    (hstray : ¬StartsMarkup inner) {beyond : List Char}
    (hbeyond : beyond = [] ∨ beyond.head? = some '<') :
    ReadsPastMisjudged rules inner slice ∨
      ∃ front found, slice = front ++ '<' :: found ∧
        splitAtStray (slice ++ beyond) = some (front, found ++ beyond) := by
  -- A stray angle at the start of a slice is found.
  have hfound {cs : List Char} (hcs : ¬StartsMarkup cs) :
      splitAtStray ('<' :: cs ++ beyond) = some ([], cs ++ beyond) := by
    rw [List.cons_append, splitAtStray_angle,
      angleUse_of_not_startsMarkup (not_startsMarkup_append hcs hbeyond)]
  induction h with
  | here => exact .inr ⟨[], inner, rfl, hfound hstray⟩
  | @piece c tail rest piece hread hraw hrest ih =>
    by_cases hc : c = '<'
    · subst hc
      by_cases hstarts : StartsMarkup tail
      · by_cases hjudged : ∃ judged, AngleUse.of tail = .markup judged rest
        · obtain ⟨judged, huse⟩ := hjudged
          obtain hpast | ⟨front, found, rfl, hsplit⟩ := ih
          · exact .inl (hpast.piece hread hraw)
          · refine .inr ⟨'<' :: judged ++ front, found, ?_, ?_⟩
            · rw [AngleUse.eq_append_of_of huse, List.append_assoc]
              rfl
            · rw [List.cons_append, splitAtStray_angle, angleUse_append huse]
              dsimp only
              rw [hsplit]
              rfl
        · exact .inl ⟨tail, piece, rest, .here, hread, hraw, ⟨hstarts, not_exists.mp hjudged⟩,
            hrest⟩
      · exact .inr ⟨[], tail, rfl, hfound hstarts⟩
    · obtain ⟨text, hangle, htext⟩ := exists_text_of_read hc hread
      obtain hpast | ⟨front, found, rfl, hsplit⟩ := ih
      · exact .inl (hpast.piece hread hraw)
      · refine .inr ⟨text ++ front, found, by rw [htext, List.append_assoc], ?_⟩
        rw [htext, List.append_assoc, splitAtStray_append hangle, hsplit]
        rfl

end Reader

section Names

theorem isTagSpace_of_isAlpha {c : Char} (hc : c.isAlpha = true) : Text.isTagSpace c = false := by
  rw [Bool.eq_false_iff]
  intro hspace
  simp only [Text.isTagSpace, Bool.or_eq_true, beq_iff_eq] at hspace
  obtain ((rfl | rfl) | rfl) | rfl := hspace <;> cases hc

/-- The name of a tag starts with a letter if and only if the tag does. -/
theorem letterFirst_name_iff {content : List Char} {tag : StartTag}
    (hread : StartTag.read content = .ok tag) :
    LetterFirst tag.name.toList ↔ LetterFirst content := by
  constructor
  · rintro ⟨c, tail, hname, hc⟩
    obtain ⟨behind, rfl⟩ := name_prefix_of_read hread
    exact ⟨c, tail ++ behind, by rw [hname]; rfl, hc⟩
  · rintro ⟨c, tail, rfl, hc⟩
    unfold StartTag.read at hread
    obtain ⟨entries, -, rfl⟩ := exists_of_map_eq_ok hread
    -- A letter is no slash, so the first one is not cut off at the end.
    obtain ⟨rest, hrest⟩ : ∃ rest,
        (if (c :: tail).getLast? == some '/' then (c :: tail).dropLast else c :: tail) =
          c :: rest := by
      split
      · rename_i hlast
        cases tail with
        | nil =>
          obtain rfl : c = '/' := by simpa using hlast
          cases hc
        | cons d tail => exact ⟨_, rfl⟩
      · exact ⟨tail, rfl⟩
    refine ⟨c, rest.takeWhile (!Text.isTagSpace ·), ?_, hc⟩
    simp only [hrest, String.toList_ofList]
    rw [List.takeWhile_cons_of_pos]
    simp [isTagSpace_of_isAlpha hc]

variable {inner behind : List Char} {tag : StartTag} {piece : Piece}

/-- A start tag that is read has a name that starts with a letter if and only if its `<` starts
    markup. -/
theorem MarkupRead.letterFirst_iff (h : MarkupRead behind inner (.startTag tag)) :
    LetterFirst tag.name.toList ↔ StartsMarkup inner := by
  cases h with
  | @tag c tail content _ hc hcut hpiece =>
    unfold tagPiece at hpiece
    split at hpiece
    · cases hpiece
    · rename_i hslash
      obtain ⟨tag', hread, htag⟩ := exists_of_map_eq_ok hpiece
      cases htag
      have hinner := eq_append_of_cutTag hcut
      rw [letterFirst_name_iff hread, hinner]
      cases content with
      | nil =>
        refine iff_of_false ?_ ?_
        · rintro ⟨d, ds, hd, -⟩
          cases hd
        · rintro ⟨d, ds, hd, hstarts⟩
          cases hd
          exact absurd hstarts (by decide)
      | cons d ds =>
        obtain ⟨rfl, -⟩ := List.cons.inj hinner
        constructor
        · rintro ⟨_, _, hd, hletter⟩
          cases hd
          exact ⟨c, _, rfl, .inl hletter⟩
        · rintro ⟨_, _, hd, hstarts⟩
          cases hd
          refine ⟨c, ds, rfl, hstarts.resolve_right ?_⟩
          intro hmem
          obtain rfl | hmem := List.mem_cons.mp hmem
          · cases hslash
          · exact hc hmem

/-- Behind an angle that does not start markup only a start tag can be read. -/
theorem MarkupRead.exists_startTag (h : MarkupRead behind inner piece)
    (hstray : ¬StartsMarkup inner) : ∃ tag, piece = .startTag tag := by
  cases h with
  | instruction rest => exact (hstray ⟨'?', rest, rfl, by decide⟩).elim
  | comment hcut => exact (hstray ⟨'!', _, rfl, by decide⟩).elim
  | cdata hcut => exact (hstray ⟨'!', _, rfl, by decide⟩).elim
  | doctype hc hbehind => exact (hstray ⟨'!', _, rfl, by decide⟩).elim
  | @tag c tail content _ hc hcut hpiece =>
    unfold tagPiece at hpiece
    split at hpiece
    · rename_i name hslash
      obtain rfl : content = '/' :: name := Text.dropPrefix?_eq_some_iff.mp hslash
      exact (hstray ⟨'/', name ++ '>' :: behind, eq_append_of_cutTag hcut, by decide⟩).elim
    · obtain ⟨tag, -, rfl⟩ := exists_of_map_eq_ok hpiece
      exact ⟨tag, rfl⟩

end Names

section Openings

variable {rules : Rules} {position : Nat} {slice : List Char} {events : List Event}
  {stop : SliceEnd} {name : String}

/-- A tag with the name opens. -/
def OpensTag (name : String) (events : List Event) : Prop :=
  ∃ attributes span, .opened name attributes span ∈ events

theorem opensTag_append {later : List Event} :
    OpensTag name (events ++ later) ↔ OpensTag name events ∨ OpensTag name later := by
  simp only [OpensTag, List.mem_append, exists_or]

theorem opensTag_events_iff {piece : Piece} {span : Span} :
    OpensTag name (piece.events rules span) ↔ ∃ tag, piece = .startTag tag ∧ tag.name = name := by
  cases piece with
  | text content => simp [OpensTag, Piece.events]
  | startTag tag =>
    simp only [OpensTag, Piece.events]
    split <;> simp [eq_comm]
  | endTag closed =>
    simp only [OpensTag, Piece.events]
    split <;> simp
  | ignored => simp [OpensTag, Piece.events]

theorem opensTag_joinTexts : OpensTag name (Event.joinTexts events) ↔ OpensTag name events := by
  fun_induction Event.joinTexts events with
  | case1 => exact Iff.rfl
  | case2 => simp_all [OpensTag]
  | case3 => simp_all [OpensTag]
  | case4 event events htag ih =>
    rw [← List.singleton_append, opensTag_append, ih, ← opensTag_append]
    rfl

/-- A start tag with the name is read from behind a `<`. -/
def TagAt (name : String) (inner : List Char) : Prop :=
  ∃ tag behind, Piece.readMarkup inner = .ok (.startTag tag, behind) ∧ tag.name = name

variable {c : Char} {tail rest : List Char} {piece : Piece}

theorem opensTag_piece_iff (hread : Piece.read (c :: tail) = .ok (piece, rest)) {span : Span} :
    OpensTag name (piece.events rules span) ↔
      ∃ inner, '<' :: inner = c :: tail ∧ TagAt name inner := by
  rw [opensTag_events_iff]
  constructor
  · rintro ⟨tag, rfl, hname⟩
    rw [Piece.read.eq_def] at hread
    split at hread
    · rename_i inner heq
      exact ⟨inner, heq.symm, tag, rest, hread, hname⟩
    · cases hread
  · rintro ⟨inner, heq, tag, behind, htag, hname⟩
    rw [← heq] at hread
    cases htag.symm.trans hread
    exact ⟨tag, rfl, hname⟩

theorem readsTo_cons_iff {later : List Char} (hread : Piece.read (c :: tail) = .ok (piece, rest)) :
    ReadsTo rules later (c :: tail) ↔
      later = c :: tail ∨ piece.rawText? rules = none ∧ ReadsTo rules later rest := by
  constructor
  · intro h
    cases h with
    | here => exact .inl rfl
    | piece hread' hraw hrest =>
      cases hread.symm.trans hread'
      exact .inr ⟨hraw, hrest⟩
  · rintro (rfl | ⟨hraw, hrest⟩)
    · exact .here
    · exact .piece hread hraw hrest

/-- The tags that open in a slice are those that reading comes to. -/
theorem opensTag_readSlice_iff (h : readSlice rules position slice = .ok (events, stop)) :
    OpensTag name events ↔ ∃ inner, ReadsTo rules ('<' :: inner) slice ∧ TagAt name inner := by
  fun_induction readSlice rules position slice generalizing events with
  | case1 =>
    cases h
    refine iff_of_false ?_ ?_
    · rintro ⟨attributes, span, hmem⟩
      cases hmem
    · rintro ⟨inner, hreads, -⟩
      cases hreads
  | case2 => cases h
  | case3 position c tail piece rest hread span raw =>
    rename_i hraw
    cases h
    simp [opensTag_piece_iff hread, readsTo_cons_iff hread, hraw]
  | case4 position c tail piece rest hread span =>
    rename_i hraw ih
    obtain ⟨⟨following, stop'⟩, hslice, hpair⟩ := exists_of_map_eq_ok h
    cases hpair
    simp [opensTag_append, opensTag_piece_iff hread, ih hslice, readsTo_cons_iff hread, hraw,
      or_and_right, exists_or]

end Openings

section Slices

variable {rules : Rules} {source cs slice : List Char} {position : Nat} {events : List Event}

/-- A slice of a source is handed to the reader. -/
def Handed (rules : Rules) (source slice : List Char) : Prop :=
  ∃ position cs, Reached rules source position cs ∧
    slice = dropByteOrderMark (sliceBeforeStray cs)

/-- Reading gives the events of the slice, and then those from where reading goes on; what stands in
    between opens no tag. -/
theorem readSource_cases (h : readSource rules position cs = .ok events) :
    ∃ first stop, sliceAt rules position cs = .ok (first, stop) ∧
      (events = first ∨ ∃ later rest between following,
        resume? rules position cs = some (later, rest) ∧
        readSource rules later rest = .ok following ∧ events = first ++ between ++ following ∧
        ∀ name, ¬OpensTag name between) := by
  cases hslice : sliceAt rules position cs with
  | error failure =>
    rw [readSource_of_error hslice] at h
    cases h
  | ok result =>
    obtain ⟨first, stop⟩ := result
    refine ⟨first, stop, rfl, ?_⟩
    cases stop with
    | exhausted =>
      rw [readSource_of_exhausted hslice] at h
      cases hstray : splitAtStray cs with
      | none =>
        rw [hstray] at h
        cases h
        exact .inl rfl
      | some cut =>
        obtain ⟨slice, beyond⟩ := cut
        rw [hstray] at h
        obtain ⟨following, hfollowing, rfl⟩ := exists_of_map_eq_ok h
        refine .inr ⟨_, beyond, [_], following, ?_, hfollowing, List.append_cons _ _ _, ?_⟩
        · simp [resume?, hslice, hstray]
        · simp [OpensTag]
    | rawText name tag =>
      rw [readSource_of_rawText hslice] at h
      cases hsplit : Text.splitAtByte? (tag.stop - position) cs with
      | none =>
        rw [hsplit] at h
        cases h
      | some parts =>
        obtain ⟨front, scanned⟩ := parts
        rw [hsplit] at h
        dsimp only at h
        cases hraw : cutRawText (endTagOpening name) scanned with
        | none =>
          rw [hraw] at h
          cases h
        | some cut =>
          obtain ⟨content, rest⟩ := cut
          rw [hraw] at h
          obtain ⟨following, hfollowing, rfl⟩ := exists_of_map_eq_ok h
          refine .inr ⟨_, rest, _, following, ?_, hfollowing, rfl, ?_⟩
          · simp [resume?, hslice, hsplit, hraw]
          · unfold rawTextEvents
            split <;> simp [OpensTag]

theorem Reached.exists_readSource (hreached : Reached rules source position cs)
    (hread : readSource rules 0 source = .ok events) :
    ∃ later, readSource rules position cs = .ok later ∧
      ∀ name, OpensTag name later → OpensTag name events := by
  induction hreached with
  | start => exact ⟨events, hread, fun name hopens => hopens⟩
  | resume hreached hresume ih =>
    obtain ⟨later, hlater, hopens⟩ := ih
    obtain ⟨before, hbefore⟩ := readSource_of_resume hresume
    rw [hlater] at hbefore
    obtain ⟨following, hfollowing, rfl⟩ := exists_of_map_eq_ok hbefore.symm
    exact ⟨following, hfollowing, fun name hname => hopens name (opensTag_append.mpr (.inr hname))⟩

theorem Reached.exists_tag {name : String} (hreached : Reached rules source position cs)
    (hread : readSource rules position cs = .ok events) (hopens : OpensTag name events) :
    ∃ slice inner, Handed rules source slice ∧ ReadsTo rules ('<' :: inner) slice ∧
      TagAt name inner := by
  generalize hlength : cs.length = length
  induction length using Nat.strongRecOn generalizing position cs events with
  | ind length ih =>
    obtain ⟨first, stop, hslice, hcases⟩ := readSource_cases hread
    have hfirst (hopens : OpensTag name first) : ∃ slice inner, Handed rules source slice ∧
        ReadsTo rules ('<' :: inner) slice ∧ TagAt name inner := by
      obtain ⟨inner, hreads, htag⟩ := (opensTag_readSlice_iff hslice).mp hopens
      exact ⟨_, inner, ⟨position, cs, hreached, rfl⟩, hreads, htag⟩
    obtain rfl | ⟨later, rest, between, following, hresume, hfollowing, rfl, hbetween⟩ := hcases
    · exact hfirst hopens
    · obtain hopens | hopens := opensTag_append.mp hopens
      · exact hfirst ((opensTag_append.mp hopens).resolve_right (hbetween name))
      · obtain ⟨read, hne, rfl, -⟩ := exists_read_of_resume hresume
        have hshorter : rest.length < length := by
          have hpos := List.length_pos_iff.mpr hne
          rw [List.length_append] at hlength
          omega
        exact ih rest.length hshorter (hreached.resume hresume) hfollowing hopens rfl

/-- The tags that open in a source are those that reading comes to. -/
theorem opensTag_readSource_iff {name : String} (hread : readSource rules 0 source = .ok events) :
    OpensTag name events ↔ ∃ slice inner, Handed rules source slice ∧
      ReadsTo rules ('<' :: inner) slice ∧ TagAt name inner := by
  constructor
  · exact Reached.start.exists_tag hread
  · rintro ⟨slice, inner, ⟨position, cs, hreached, rfl⟩, hreads, htag⟩
    obtain ⟨later, hlater, hopens⟩ := hreached.exists_readSource hread
    apply hopens
    obtain ⟨first, stop, hslice, hcases⟩ := readSource_cases hlater
    have hfirst := (opensTag_readSlice_iff hslice).mpr ⟨inner, hreads, htag⟩
    obtain rfl | ⟨_, _, between, following, -, -, rfl, -⟩ := hcases
    · exact hfirst
    · exact opensTag_append.mpr (.inl (opensTag_append.mpr (.inl hfirst)))

/-- What reading comes to is read. -/
theorem ReadsTo.exists_read {c : Char} {tail : List Char} {result : List Event × SliceEnd}
    (h : ReadsTo rules (c :: tail) slice) (hslice : readSlice rules position slice = .ok result) :
    ∃ piece rest, Piece.read (c :: tail) = .ok (piece, rest) := by
  induction h generalizing position result with
  | here =>
    cases hread : Piece.read (c :: tail) with
    | error refusal =>
      obtain ⟨failure, hfailure⟩ := readSlice_of_refused rules hread position
      rw [hfailure] at hslice
      cases hslice
    | ok read => exact ⟨read.1, read.2, rfl⟩
  | piece hread hraw hrest ih =>
    rw [readSlice] at hslice
    split at hslice
    · rename_i hrefused
      cases hread.symm.trans hrefused
    · rename_i hread'
      cases hread.symm.trans hread'
      dsimp only at hslice
      rw [hraw] at hslice
      obtain ⟨following, hfollowing, -⟩ := exists_of_map_eq_ok hslice
      exact ih hfollowing

end Slices

section Misjudgements

/-- A `[` stands outside quotes before the first `>` outside quotes, where `quote` is open at the
    start. -/
def opensSubset : Option Char → List Char → Bool
  | _, [] => false
  | quote, c :: cs =>
    if quote = none ∧ c = '>' then false
    else if quote = none ∧ c = '[' then true
    else opensSubset (nextQuote quote c) cs

/-- Markup, from behind its `<`, whose end the search for stray angles can miss: an instruction, a
    comment whose text starts like the end of one, and a document type with an internal subset. -/
def treacherous : List Char → Bool
  | '?' :: _ => true
  | '!' :: '-' :: '-' :: text => ['>'].isPrefixOf text || ['-', '>'].isPrefixOf text
  | '!' :: c :: rest => (c == 'd' || c == 'D') && opensSubset none (c :: rest)
  | _ => false

theorem opensSubset_append {quote : Option Char} {cs : List Char}
    (h : opensSubset quote cs = true) (beyond : List Char) :
    opensSubset quote (cs ++ beyond) = true := by
  induction cs generalizing quote with
  | nil => cases h
  | cons c cs ih =>
    rw [opensSubset] at h
    rw [List.cons_append, opensSubset]
    split at h
    · cases h
    · rw [if_neg ‹_›]
      split at h
      · rw [if_pos ‹_›]
      · rw [if_neg ‹_›, ih h]

/-- Without an internal subset a document type ends like a tag. -/
theorem exists_cutTag_of_behindDoctype? {quote : Option Char} {cs behind : List Char}
    (hsubset : opensSubset quote cs = false) (h : behindDoctype? quote cs = some behind) :
    ∃ content, cutTag quote cs = .ok (content, behind) := by
  induction cs generalizing quote with
  | nil => cases h
  | cons c cs ih =>
    rw [opensSubset] at hsubset
    rw [behindDoctype?] at h
    rw [cutTag]
    split at h
    · cases h
      rw [if_pos ‹_›]
      exact ⟨[], rfl⟩
    · rw [if_neg ‹_›] at hsubset ⊢
      split at h
      · rw [if_pos ‹_›] at hsubset
        cases hsubset
      · rw [if_neg ‹_›] at hsubset
        obtain ⟨content, hcut⟩ := ih hsubset h
        rw [hcut]
        exact ⟨c :: content, rfl⟩

variable {inner behind : List Char} {piece : Piece}

/-- The search for stray angles finds the end of all other markup. -/
theorem MarkupRead.not_misjudged (h : MarkupRead behind inner piece)
    (hsafe : treacherous inner = false) : ¬Misjudged inner behind := by
  rintro ⟨hstarts, hjudged⟩
  cases h with
  | instruction rest => cases hsafe
  | @comment text before hcut =>
    obtain ⟨hangle, hhyphen⟩ := Bool.or_eq_false_iff.mp hsafe
    -- The end of the comment is not found in its own opening.
    have hopening : Text.splitOnce "-->".toList ('!' :: '-' :: '-' :: text) =
        some ('!' :: '-' :: '-' :: before, behind) :=
      Text.splitOnce_cons rfl (Text.splitOnce_cons (Text.dropPrefix?_eq_none hangle)
        (Text.splitOnce_cons (Text.dropPrefix?_eq_none hhyphen) hcut))
    apply hjudged
    change AngleUse.upTo "-->".toList ('!' :: '-' :: '-' :: text) = _
    rw [AngleUse.upTo, hopening]
  | @cdata rest content hcut =>
    have hopening := Text.splitOnce_cons (c := '!') rfl (Text.splitOnce_cons (c := '[') rfl hcut)
    apply hjudged
    have huse : AngleUse.of ('!' :: '[' :: rest) =
        AngleUse.upTo "]]>".toList ('!' :: '[' :: rest) := by
      rw [Text.eq_append_of_splitOnce hcut]
      rfl
    rw [huse, AngleUse.upTo, hopening]
  | @doctype c rest hc hbehind =>
    have huse : AngleUse.of ('!' :: c :: rest) = AngleUse.upToTagEnd ('!' :: c :: rest) ∧
        opensSubset none (c :: rest) = false := by
      obtain rfl | rfl := hc <;> exact ⟨rfl, hsafe⟩
    obtain ⟨content, hcut⟩ := exists_cutTag_of_behindDoctype? huse.2 hbehind
    have hopening : cutTag none ('!' :: c :: rest) = .ok ('!' :: content, behind) := by
      change (cutTag none (c :: rest)).map _ = _
      rw [hcut]
      rfl
    apply hjudged
    rw [huse.1, AngleUse.upToTagEnd, hopening]
  | @tag c tail content _ hc hcut hpiece =>
    have hstarts : StartsTag (c :: tail) := by
      obtain ⟨_, _, heq, hstarts⟩ := hstarts
      cases heq
      refine ⟨c, tail, rfl, hstarts.imp_right ?_⟩
      intro hmem
      exact (List.mem_cons.mp hmem).resolve_right hc
    apply hjudged
    rw [angleUse_of_startsTag hstarts, AngleUse.upToTagEnd, hcut]

theorem treacherous_append (h : treacherous inner = true) (beyond : List Char) :
    treacherous (inner ++ beyond) = true := by
  have hprefix {opening text : List Char} (hopening : opening.isPrefixOf text = true) :
      opening.isPrefixOf (text ++ beyond) = true :=
    List.isPrefixOf_iff_prefix.mpr
      ((List.isPrefixOf_iff_prefix.mp hopening).trans (List.prefix_append text beyond))
  fun_cases treacherous inner with
  | case1 => rfl
  | case2 text =>
    exact Bool.or_eq_true_iff.mpr ((Bool.or_eq_true_iff.mp h).imp hprefix hprefix)
  | case3 c rest hcomment =>
    rw [treacherous.eq_3 c rest hcomment, Bool.and_eq_true_iff, Bool.or_eq_true_iff, beq_iff_eq,
      beq_iff_eq] at h
    have hsubset := opensSubset_append h.2 beyond
    obtain rfl | rfl := h.1 <;> exact hsubset
  | case4 => simp_all [treacherous]

end Misjudgements

section Sources

variable {rules : Rules} {source slice : List Char}

/-- A slice stands in its source behind a mark, if at all, and ends there or at the next angle. -/
theorem exists_around_slice (cs : List Char) :
    ∃ mark beyond, '<' ∉ mark ∧ (beyond = [] ∨ beyond.head? = some '<') ∧
      sliceBeforeStray cs = mark ++ dropByteOrderMark (sliceBeforeStray cs) ∧
      cs = sliceBeforeStray cs ++ beyond := by
  obtain ⟨mark, hmark, hslice⟩ : ∃ mark, '<' ∉ mark ∧
      sliceBeforeStray cs = mark ++ dropByteOrderMark (sliceBeforeStray cs) := by
    cases sliceBeforeStray cs with
    | nil => exact ⟨[], List.not_mem_nil, rfl⟩
    | cons c slice =>
      rw [dropByteOrderMark]
      split
      · rename_i hc
        exact ⟨[c], by rw [hc]; decide, rfl⟩
      · exact ⟨[], List.not_mem_nil, rfl⟩
  cases hstray : splitAtStray cs with
  | none =>
    refine ⟨mark, [], hmark, .inl rfl, hslice, ?_⟩
    rw [sliceBeforeStray, hstray, List.append_nil]
  | some cut =>
    refine ⟨mark, '<' :: cut.2, hmark, .inr rfl, hslice, ?_⟩
    rw [sliceBeforeStray, hstray]
    exact eq_append_of_splitAtStray hstray

/-- Reading comes to an angle that does not start markup only behind markup that is misjudged. -/
theorem Handed.readsPastMisjudged (hhanded : Handed rules source slice) {inner : List Char}
    (hreads : ReadsTo rules ('<' :: inner) slice) (hstray : ¬StartsMarkup inner) :
    ReadsPastMisjudged rules inner slice := by
  obtain ⟨position, cs, -, rfl⟩ := hhanded
  obtain ⟨mark, beyond, hmark, hbeyond, hslice, hcs⟩ := exists_around_slice cs
  refine (hreads.misjudged_or_found hstray hbeyond).resolve_right ?_
  -- The slice would have ended at the angle that is found.
  rintro ⟨front, found, hfront, hfound⟩
  have hsplit : splitAtStray cs = some (mark ++ front, found ++ beyond) := by
    rw [hcs, hslice, List.append_assoc, splitAtStray_append hmark, hfound]
    rfl
  have hshort : sliceBeforeStray cs = mark ++ front := by
    rw [sliceBeforeStray, hsplit]
  rw [hfront, hshort] at hslice
  have hlength := congrArg List.length hslice
  simp at hlength

/-- Markup that reading comes to stands in the source. -/
theorem Handed.exists_suffix (hhanded : Handed rules source slice) {inner : List Char}
    (hreads : ReadsTo rules ('<' :: inner) slice) :
    ∃ beyond, '<' :: (inner ++ beyond) <:+ source := by
  obtain ⟨position, cs, hreached, rfl⟩ := hhanded
  obtain ⟨mark, beyond, -, -, hslice, hcs⟩ := exists_around_slice cs
  obtain ⟨before, hsource, -⟩ := hreached.continuesAt
  obtain ⟨front, hfront⟩ := hreads.suffix
  refine ⟨beyond, before ++ (mark ++ front), ?_⟩
  rw [hsource, hcs, hslice, ← hfront]
  simp

/-- Where nothing treacherous stands in a source, nothing is misjudged. -/
theorem Handed.not_readsPastMisjudged (hhanded : Handed rules source slice)
    (hsafe : ∀ inner, '<' :: inner <:+ source → treacherous inner = false) (inner : List Char) :
    ¬ReadsPastMisjudged rules inner slice := by
  rintro ⟨first, piece, behind, hfirst, hread, -, hmisjudged, -⟩
  obtain ⟨beyond, hsuffix⟩ := hhanded.exists_suffix hfirst
  refine (markupRead_of_readMarkup hread).not_misjudged ?_ hmisjudged
  rw [Bool.eq_false_iff]
  intro htreacherous
  have hwhole := hsafe _ hsuffix
  rw [treacherous_append htreacherous beyond] at hwhole
  cases hwhole

/-- In a source that is read, markup that reading comes to is read. -/
theorem Handed.exists_readMarkup (hhanded : Handed rules source slice) {events : List Event}
    (hread : readSource rules 0 source = .ok events) {inner : List Char}
    (hreads : ReadsTo rules ('<' :: inner) slice) :
    ∃ piece behind, Piece.readMarkup inner = .ok (piece, behind) := by
  obtain ⟨position, cs, hreached, rfl⟩ := hhanded
  obtain ⟨later, hlater, -⟩ := hreached.exists_readSource hread
  obtain ⟨first, stop, hslice, -⟩ := readSource_cases hlater
  exact hreads.exists_read hslice

/-- All tags that open have names that start with letters if and only if every angle that reading
    comes to starts markup. -/
theorem letterFirst_iff_startsMarkup {events : List Event}
    (hread : readSource rules 0 source = .ok events) :
    (∀ name, OpensTag name events → LetterFirst name.toList) ↔
      ∀ slice, Handed rules source slice → ∀ inner, ReadsTo rules ('<' :: inner) slice →
        StartsMarkup inner := by
  constructor
  · intro hletters slice hhanded inner hreads
    refine Classical.byContradiction fun hstray => ?_
    obtain ⟨piece, behind, hpiece⟩ := hhanded.exists_readMarkup hread hreads
    have hmarkup := markupRead_of_readMarkup hpiece
    obtain ⟨tag, rfl⟩ := hmarkup.exists_startTag hstray
    have hopens : OpensTag tag.name events := (opensTag_readSource_iff hread).mpr
      ⟨slice, inner, hhanded, hreads, tag, behind, hpiece, rfl⟩
    exact hstray (hmarkup.letterFirst_iff.mp (hletters tag.name hopens))
  · intro hstarts name hopens
    obtain ⟨slice, inner, hhanded, hreads, tag, behind, hpiece, rfl⟩ :=
      (opensTag_readSource_iff hread).mp hopens
    exact (markupRead_of_readMarkup hpiece).letterFirst_iff.mpr (hstarts slice hhanded inner hreads)

end Sources

/-- Every tag that opens has a name that starts with a letter, unless the search for stray angles
    takes a piece of markup to end elsewhere than the reader does, and behind that piece the reader
    comes to a `<` that does not start markup. Without instructions, comments that start like the
    end of one, and document types with an internal subset that never happens. -/
theorem tokenize_letterFirst_iff (rules : Rules) (source : String) (events : List Event)
    (hread : tokenize rules source = .ok events) :
    let handed := Handed rules source.toList
    let lettered := ∀ name attributes span, .opened name attributes span ∈ events →
      LetterFirst name.toList
    (lettered ↔ ∀ slice, handed slice → ∀ inner, ReadsTo rules ('<' :: inner) slice →
      StartsMarkup inner) ∧
    (lettered ↔ ∀ slice, handed slice → ∀ inner, ReadsPastMisjudged rules inner slice →
      StartsMarkup inner) ∧
    ((∀ inner, '<' :: inner <:+ source.toList → treacherous inner = false) → lettered) := by
  intro handed lettered
  obtain ⟨pieces, hpieces, rfl⟩ := exists_of_map_eq_ok hread
  have hlettered : lettered ↔ ∀ name, OpensTag name pieces → LetterFirst name.toList := by
    constructor
    · intro hletters name hopens
      obtain ⟨attributes, span, hmem⟩ := opensTag_joinTexts.mpr hopens
      exact hletters name attributes span hmem
    · intro hletters name attributes span hmem
      exact hletters name (opensTag_joinTexts.mp ⟨attributes, span, hmem⟩)
  have hangles := hlettered.trans (letterFirst_iff_startsMarkup hpieces)
  have hmisjudged : lettered ↔ ∀ slice, handed slice → ∀ inner,
      ReadsPastMisjudged rules inner slice → StartsMarkup inner := by
    rw [hangles]
    constructor
    · intro hstarts slice hhanded inner hpast
      exact hstarts slice hhanded inner hpast.readsTo
    · intro hstarts slice hhanded inner hreads
      refine Classical.byContradiction fun hstray => hstray ?_
      exact hstarts slice hhanded inner (hhanded.readsPastMisjudged hreads hstray)
  refine ⟨hangles, hmisjudged, fun hsafe => hmisjudged.mpr ?_⟩
  intro slice hhanded inner hpast
  exact (hhanded.not_readsPastMisjudged hsafe inner hpast).elim

/-- Angles in a comment, in a CDATA section, in an attribute value and in a text. -/
theorem tokenize_letterFirst_document :
    let source := "<!DOCTYPE html><!-- < --><![CDATA[< ]]><p a=\"<\">1 < 2</p>"
    ∃ events, tokenize {} source = .ok events ∧ events.length = 4 ∧
      ∀ name attributes span, .opened name attributes span ∈ events →
        LetterFirst name.toList := by
  intro source
  have hlength : (tokenize {} source).toOption.map List.length = some 4 := by decide +kernel
  have hsafe : ∀ rest ∈ source.toList.tails, rest.head? = some '<' →
      treacherous rest.tail = false := by decide +kernel
  cases hread : tokenize {} source with
  | error failure =>
    rw [hread] at hlength
    cases hlength
  | ok events =>
    rw [hread] at hlength
    refine ⟨events, rfl, Option.some.inj hlength, ?_⟩
    apply (tokenize_letterFirst_iff {} source events hread).2.2
    intro inner hsuffix
    exact hsafe _ ((List.mem_tails _ _).mpr hsuffix) rfl

/-- A quote in an instruction hides the angle behind it from the search. -/
theorem tokenize_opens_without_name :
    ∃ attributes span, tokenize {} "<?a \"?>< b>" = .ok [.opened "" attributes span] ∧
      ¬LetterFirst "".toList := by
  refine ⟨Attributes.ofList [("b", "")], Span.ofLength 7 4, by decide +kernel, ?_⟩
  rintro ⟨c, tail, hname, -⟩
  cases hname

end TemplateCompiler.Markup
