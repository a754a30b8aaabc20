import TemplateCompiler.Proofs.Markup.Cuts

namespace TemplateCompiler.Markup

section Letters

/-- A character that is shown, and the byte of the source at which it stands. -/
structure Letter where
  char : Char
  place : Nat
deriving DecidableEq, Repr

/-- The letters of a text that stands at the byte `position`. -/
def lettersFrom : Nat → List Char → List Letter
  | _, [] => []
  | position, c :: cs => ⟨c, position⟩ :: lettersFrom (position + c.utf8Size) cs

theorem chars_lettersFrom (position : Nat) (cs : List Char) :
    (lettersFrom position cs).map Letter.char = cs := by
  induction cs generalizing position with
  | nil => rfl
  | cons c cs ih => exact congrArg (c :: ·) (ih _)

/-- What starts a CDATA section. -/
def cdataStart : List Char := "<![CDATA[".toList

/-- What ends a CDATA section. -/
def cdataEnd : List Char := "]]>".toList

/-- The characters that an event shows. -/
def Event.shown : Event → List Char
  | text content _ => content.toList
  | _ => []

/-- The letters of an event that was read from one piece of markup. A text that is shorter than its
    span is the content of a CDATA section. -/
def Event.letters : Event → List Letter
  | text content span =>
    if Text.byteLength content.toList = span.length then
      lettersFrom span.start content.toList
    else lettersFrom (span.start + Text.byteLength cdataStart) content.toList
  | _ => []

theorem Event.chars_letters (event : Event) : event.letters.map Letter.char = event.shown := by
  cases event with
  | text content span =>
    rw [letters]
    split <;> exact chars_lettersFrom _ _
  | opened name attributes span => rfl
  | closed name span => rfl

theorem Event.letters_of_eq {content : String} {length : Nat}
    (hlength : Text.byteLength content.toList = length) (position : Nat) :
    letters (.text content (Span.ofLength position length)) = lettersFrom position content.toList :=
  if_pos (hlength.trans (Nat.add_sub_cancel_left position length).symm)

theorem Event.letters_of_ne {content : String} {length : Nat}
    (hlength : Text.byteLength content.toList ≠ length) (position : Nat) :
    letters (.text content (Span.ofLength position length)) =
      lettersFrom (position + Text.byteLength cdataStart) content.toList :=
  if_neg fun hsame => hlength (hsame.trans (Nat.add_sub_cancel_left position length))

/-- The letters of all texts of a source, in order. -/
def letters (rules : Rules) (source : List Char) : List Letter :=
  match readSource rules 0 source with
  | .error _ => []
  | .ok pieces => pieces.flatMap Event.letters

end Letters

section Excerpts

/-- Markup of which nothing is shown: the ends of a CDATA section, and pieces without events. -/
inductive LeftOut (rules : Rules) : List Char → Prop where
  | cdataStart : LeftOut rules cdataStart
  | cdataEnd : LeftOut rules cdataEnd
  | piece {c : Char} {tail rest : List Char} {piece : Piece}
      (hread : Piece.read (c :: tail ++ rest) = .ok (piece, rest))
      (hevents : ∀ span, piece.events rules span = []) : LeftOut rules (c :: tail)

/-- The letters that are shown of a stretch of markup, which starts at the byte `position`, when some
    of it is left out. -/
inductive Excerpt (rules : Rules) : Nat → List Char → List Letter → Prop where
  | nil (position : Nat) : Excerpt rules position [] []
  | shown {position : Nat} {markup : List Char} {run : List Letter} (c : Char)
      (h : Excerpt rules (position + c.utf8Size) markup run) :
      Excerpt rules position (c :: markup) (⟨c, position⟩ :: run)
  | leftOut {position : Nat} {piece markup : List Char} {run : List Letter}
      (hpiece : LeftOut rules piece)
      (h : Excerpt rules (position + Text.byteLength piece) markup run) :
      Excerpt rules position (piece ++ markup) run

variable {rules : Rules} {position : Nat}

theorem LeftOut.byteLength_pos {piece : List Char} (h : LeftOut rules piece) :
    0 < Text.byteLength piece := by
  cases h with
  | cdataStart => decide
  | cdataEnd => decide
  | @piece c tail rest piece hread hevents =>
    have hpos := c.utf8Size_pos
    rw [Text.byteLength_cons]
    omega

namespace Excerpt

variable {markup later : List Char} {run more : List Letter}

theorem of_lettersFrom (position : Nat) (cs : List Char) :
    Excerpt rules position cs (lettersFrom position cs) := by
  induction cs generalizing position with
  | nil => exact nil position
  | cons c cs ih => exact shown c (ih _)

theorem append (h : Excerpt rules position markup run)
    (hlater : Excerpt rules (position + Text.byteLength markup) later more) :
    Excerpt rules position (markup ++ later) (run ++ more) := by
  induction h with
  | nil position => exact hlater
  | shown c h ih =>
    rw [Text.byteLength_cons, ← Nat.add_assoc] at hlater
    exact shown c (ih hlater)
  | leftOut hpiece h ih =>
    rw [Text.byteLength_append, ← Nat.add_assoc] at hlater
    rw [List.append_assoc]
    exact leftOut hpiece (ih hlater)

theorem of_leftOut {piece : List Char} (hpiece : LeftOut rules piece) :
    Excerpt rules position piece [] := by
  have hexcerpt := leftOut hpiece (nil (position + Text.byteLength piece))
  rw [List.append_nil] at hexcerpt
  exact hexcerpt

/-- A letter stands in the stretch at its place, and what is shown before it is an excerpt of what
    stands before it. -/
theorem exists_of_append {letter : Letter}
    (h : Excerpt rules position markup (run ++ letter :: more)) :
    ∃ stretch rest, markup = stretch ++ letter.char :: rest ∧
      letter.place = position + Text.byteLength stretch ∧ Excerpt rules position stretch run := by
  generalize hwhole : run ++ letter :: more = whole at h
  induction h generalizing run with
  | nil position => simp at hwhole
  | @shown position markup run' c h ih =>
    cases run with
    | nil =>
      obtain ⟨rfl, -⟩ := List.cons.inj hwhole
      exact ⟨[], markup, rfl, rfl, nil position⟩
    | cons first run =>
      obtain ⟨rfl, htail⟩ := List.cons.inj hwhole
      obtain ⟨stretch, rest, rfl, hplace, hstretch⟩ := ih htail
      refine ⟨c :: stretch, rest, rfl, ?_, shown c hstretch⟩
      rw [hplace, Text.byteLength_cons, Nat.add_assoc]
  | @leftOut position piece markup run' hpiece h ih =>
    obtain ⟨stretch, rest, rfl, hplace, hstretch⟩ := ih hwhole
    refine ⟨piece ++ stretch, rest, (List.append_assoc _ _ _).symm, ?_, leftOut hpiece hstretch⟩
    rw [hplace, Text.byteLength_append, Nat.add_assoc]

theorem byteLength_le (h : Excerpt rules position markup run) :
    Text.byteLength (run.map Letter.char) ≤ Text.byteLength markup := by
  induction h with
  | nil position => exact Nat.le_refl 0
  | shown c h ih => exact Nat.add_le_add_left ih c.utf8Size
  | leftOut hpiece h ih =>
    rw [Text.byteLength_append]
    exact Nat.le_add_left_of_le ih

/-- An excerpt is shorter than its stretch, unless it shows all of it. -/
theorem byteLength_eq_iff (h : Excerpt rules position markup run) :
    Text.byteLength (run.map Letter.char) = Text.byteLength markup ↔
      markup = run.map Letter.char := by
  refine ⟨?_, fun hsame => by rw [← hsame]⟩
  induction h with
  | nil position => exact fun _ => rfl
  | shown c h ih =>
    intro hbytes
    rw [List.map_cons, Text.byteLength_cons, Text.byteLength_cons,
      Nat.add_left_cancel_iff] at hbytes
    rw [List.map_cons, ← ih hbytes]
  | leftOut hpiece h ih =>
    intro hbytes
    have hle := h.byteLength_le
    have hpos := hpiece.byteLength_pos
    rw [Text.byteLength_append] at hbytes
    omega

end Excerpt

end Excerpts

/-- Events that retell a text from the byte `position` on, with the letters that they show: each text
    event shows an excerpt of its stretch, and what stands between the stretches of two texts is a tag
    or left out. -/
inductive Retells (rules : Rules) : Nat → List Char → List Event → List Letter → Prop where
  | nil (position : Nat) : Retells rules position [] [] []
  | leftOut {position : Nat} {piece rest : List Char} {events : List Event} {letters : List Letter}
      (hpiece : LeftOut rules piece)
      (hrest : Retells rules (position + Text.byteLength piece) rest events letters) :
      Retells rules position (piece ++ rest) events letters
  | text {position : Nat} {markup rest : List Char} {content : String} {events : List Event}
      {run letters : List Letter} (hexcerpt : Excerpt rules position markup run)
      (hrun : run.map Letter.char = content.toList)
      (hrest : Retells rules (position + Text.byteLength markup) rest events letters) :
      Retells rules position (markup ++ rest)
        (.text content (Span.ofLength position (Text.byteLength markup)) :: events) (run ++ letters)
  | tag {position : Nat} {markup rest : List Char} {event : Event} {events : List Event}
      {letters : List Letter} (htag : event.IsTag)
      (hrest : Retells rules (position + Text.byteLength markup) rest events letters) :
      Retells rules position (markup ++ rest) (event :: events) letters

namespace Retells

variable {rules : Rules} {position : Nat} {cs rest : List Char} {events later : List Event}
  {letters more : List Letter}

theorem append (h : Retells rules position cs events letters)
    (hlater : Retells rules (position + Text.byteLength cs) rest later more) :
    Retells rules position (cs ++ rest) (events ++ later) (letters ++ more) := by
  have hmove {position : Nat} {head cs : List Char}
      (h : Retells rules (position + Text.byteLength (head ++ cs)) rest later more) :
      Retells rules (position + Text.byteLength head + Text.byteLength cs) rest later more := by
    rw [Text.byteLength_append, ← Nat.add_assoc] at h
    exact h
  induction h with
  | nil position => exact hlater
  | leftOut hpiece hrest ih =>
    rw [List.append_assoc]
    exact leftOut hpiece (ih (hmove hlater))
  | text hexcerpt hrun hrest ih =>
    rw [List.append_assoc, List.append_assoc]
    exact text hexcerpt hrun (ih (hmove hlater))
  | tag htag hrest ih =>
    rw [List.append_assoc]
    exact tag htag (ih (hmove hlater))

/-- A text that comes first is shown of a stretch with only left out markup before it. -/
theorem exists_of_text {content : String} {span : Span}
    (h : Retells rules position cs (.text content span :: events) letters) :
    ∃ gap markup rest run more, cs = gap ++ markup ++ rest ∧ letters = run ++ more ∧
      Excerpt rules position gap [] ∧
      Excerpt rules (position + Text.byteLength gap) markup run ∧
      run.map Letter.char = content.toList ∧
      span = Span.ofLength (position + Text.byteLength gap) (Text.byteLength markup) ∧
      Retells rules (position + Text.byteLength (gap ++ markup)) rest events more := by
  generalize hall : Event.text content span :: events = all at h
  induction h with
  | nil position => cases hall
  | @leftOut position piece rest events' letters hpiece hrest ih =>
    obtain ⟨gap, markup, behind, run, more, rfl, rfl, hgap, hmarkup, hrun, hspan, hbehind⟩ :=
      ih hall
    have hmove (cs : List Char) : position + Text.byteLength (piece ++ cs) =
        position + Text.byteLength piece + Text.byteLength cs := by
      rw [Text.byteLength_append, Nat.add_assoc]
    refine ⟨piece ++ gap, markup, behind, run, more, by simp, rfl, .leftOut hpiece hgap, ?_, hrun,
      ?_, ?_⟩
    · rw [hmove]
      exact hmarkup
    · rw [hmove]
      exact hspan
    · rw [List.append_assoc, hmove]
      exact hbehind
  | @text position markup rest content' events' run letters hexcerpt hrun hrest ih =>
    cases hall
    exact ⟨[], markup, rest, run, letters, rfl, rfl, .nil position, hexcerpt, hrun, rfl, hrest⟩
  | tag htag hrest ih =>
    cases hall
    exact (htag _ _ rfl).elim

/-- Joining neighbouring texts joins their excerpts, with what was left out between them. -/
theorem joinTexts (h : Retells rules position cs events letters) :
    Retells rules position cs (Event.joinTexts events) letters := by
  induction h with
  | nil position => exact nil position
  | leftOut hpiece hrest ih => exact leftOut hpiece ih
  | @tag position markup rest event events letters htag hrest ih =>
    cases event with
    | opened name attributes span => exact tag htag ih
    | closed name span => exact tag htag ih
    | text content span => exact (htag _ _ rfl).elim
  | @text position markup rest first events run letters hexcerpt hrun hrest ih =>
    rw [Event.joinTexts]
    split
    · rename_i second span' joined hjoined
      rw [hjoined] at ih
      obtain ⟨gap, markup', behind, run', more, rfl, rfl, hgap, hmarkup', hrun', rfl, hbehind⟩ :=
        ih.exists_of_text
      have hspan : Span.ofBounds position (position + Text.byteLength markup +
          Text.byteLength gap + Text.byteLength markup') =
          Span.ofLength position (Text.byteLength (markup ++ (gap ++ markup'))) := by
        rw [Text.byteLength_append, Text.byteLength_append, Nat.add_assoc _ (Text.byteLength gap)]
        exact Span.ofBounds_eq_ofLength position _ _
      have hwhole : markup ++ (gap ++ markup' ++ behind) =
          markup ++ (gap ++ markup') ++ behind := (List.append_assoc _ _ _).symm
      change Retells rules position _ (.text (first ++ second) (Span.ofBounds position
        (position + Text.byteLength markup + Text.byteLength gap + Text.byteLength markup')) ::
          joined) _
      rw [hwhole, hspan, ← List.append_assoc run]
      refine text (hexcerpt.append (hgap.append hmarkup')) ?_ ?_
      · rw [String.toList_append, ← hrun, ← hrun']
        exact List.map_append
      · rw [Text.byteLength_append, ← Nat.add_assoc]
        exact hbehind
    · exact text hexcerpt hrun ih

/-- A text event is shown of the stretch of the source that its span marks, by the letters behind
    those of the events before it. -/
theorem exists_of_append {front back : List Event} {content : String} {span : Span}
    (h : Retells rules position cs (front ++ .text content span :: back) letters)
    {source : List Char} (hat : ContinuesAt source position cs) :
    ∃ earlier run more before markup behind, letters = earlier ++ run ++ more ∧
      earlier.map Letter.char = front.flatMap Event.shown ∧
      run.map Letter.char = content.toList ∧ source = before ++ markup ++ behind ∧
      Excerpt rules (Text.byteLength before) markup run ∧
      span = Span.ofLength (Text.byteLength before) (Text.byteLength markup) := by
  generalize hall : front ++ Event.text content span :: back = all at h
  induction h generalizing front with
  | nil position => simp at hall
  | leftOut hpiece hrest ih => exact ih hat.behind hall
  | @text position markup rest first events run letters hexcerpt hrun hrest ih =>
    cases front with
    | nil =>
      cases hall
      obtain ⟨before, rfl, rfl⟩ := hat
      exact ⟨[], run, letters, before, markup, rest, rfl, rfl, hrun,
        (List.append_assoc _ _ _).symm, hexcerpt, rfl⟩
    | cons event front =>
      obtain ⟨rfl, htail⟩ := List.cons.inj hall
      obtain ⟨earlier, run', more, before, markup', behind, rfl, hearlier, hfound⟩ :=
        ih hat.behind htail
      refine ⟨run ++ earlier, run', more, before, markup', behind, by simp, ?_, hfound⟩
      rw [List.map_append, hrun, hearlier, List.flatMap_cons]
      rfl
  | @tag position markup rest event events letters htag hrest ih =>
    cases front with
    | nil =>
      cases hall
      exact (htag _ _ rfl).elim
    | cons event front =>
      obtain ⟨rfl, htail⟩ := List.cons.inj hall
      obtain ⟨earlier, run, more, before, markup', behind, rfl, hearlier, hfound⟩ :=
        ih hat.behind htail
      refine ⟨earlier, run, more, before, markup', behind, rfl, ?_, hfound⟩
      cases event with
      | text content span => exact (htag _ _ rfl).elim
      | opened name attributes span => exact hearlier
      | closed name span => exact hearlier

end Retells

/-- Pieces of markup that retell a text, with the letters of each. -/
def Retold (rules : Rules) (position : Nat) (cs : List Char) (pieces : List Event) : Prop :=
  Retells rules position cs pieces (pieces.flatMap Event.letters)

namespace Retold

variable {rules : Rules} {position : Nat} {cs rest : List Char} {pieces later : List Event}

theorem append (h : Retold rules position cs pieces)
    (hlater : Retold rules (position + Text.byteLength cs) rest later) :
    Retold rules position (cs ++ rest) (pieces ++ later) := by
  unfold Retold
  rw [List.flatMap_append]
  exact Retells.append h hlater

theorem of_leftOut (hpiece : LeftOut rules cs) : Retold rules position cs [] := by
  have hretells := Retells.leftOut hpiece (.nil (position + Text.byteLength cs))
  rw [List.append_nil] at hretells
  exact hretells

theorem of_tag_cons {event : Event} (htag : event.IsTag)
    (hrest : Retold rules (position + Text.byteLength cs) [] pieces) :
    Retold rules position cs (event :: pieces) := by
  have hretells := Retells.tag htag hrest
  rw [List.append_nil] at hretells
  cases event with
  | text content span => exact (htag _ _ rfl).elim
  | opened name attributes span => exact hretells
  | closed name span => exact hretells

theorem of_tag {event : Event} (htag : event.IsTag) : Retold rules position cs [event] :=
  of_tag_cons htag (.nil _)

theorem of_text {content : String} (hexcerpt : Excerpt rules position cs
    (Event.letters (.text content (Span.ofLength position (Text.byteLength cs))))) :
    Retold rules position cs [.text content (Span.ofLength position (Text.byteLength cs))] := by
  have hretells := Retells.text hexcerpt (Event.chars_letters _)
    (.nil (position + Text.byteLength cs))
  rw [List.append_nil cs] at hretells
  exact hretells

/-- A text of which all is shown. -/
theorem of_plain {content : String} (hcontent : content.toList = cs) :
    Retold rules position cs [.text content (Span.ofLength position (Text.byteLength cs))] := by
  apply of_text
  rw [Event.letters_of_eq (congrArg Text.byteLength hcontent), hcontent]
  exact .of_lettersFrom position cs

/-- The content of a CDATA section. -/
theorem of_cdata {content : String} (hcontent : content.toList = rest)
    (hcs : cs = cdataStart ++ (rest ++ cdataEnd)) :
    Retold rules position cs [.text content (Span.ofLength position (Text.byteLength cs))] := by
  apply of_text
  have hends : 0 < Text.byteLength cdataStart := by decide
  have hbytes : Text.byteLength content.toList ≠ Text.byteLength cs := by
    rw [hcontent, hcs, Text.byteLength_append, Text.byteLength_append]
    omega
  have hexcerpt : Excerpt rules (position + Text.byteLength cdataStart) (rest ++ cdataEnd)
      (lettersFrom (position + Text.byteLength cdataStart) rest ++ []) :=
    (Excerpt.of_lettersFrom _ rest).append (.of_leftOut .cdataEnd)
  rw [List.append_nil] at hexcerpt
  rw [Event.letters_of_ne hbytes, hcontent, hcs]
  exact .leftOut .cdataStart hexcerpt

end Retold

section Reading

variable {rules : Rules} {position : Nat} {cs rest : List Char} {events : List Event}

theorem cdata_of_readMarkup {content : List Char}
    (hread : Piece.readMarkup cs = .ok (.text content, rest)) :
    '<' :: cs = cdataStart ++ (content ++ cdataEnd) ++ rest := by
  have hstart : cdataStart = '<' :: '!' :: '[' :: "CDATA[".toList := by decide
  cases markupRead_of_readMarkup hread with
  | cdata hcut =>
    rw [Text.eq_append_of_splitOnce hcut, hstart, cdataEnd]
    simp only [List.cons_append, List.append_assoc]
  | tag hc hcut hpiece =>
    unfold tagPiece at hpiece
    split at hpiece
    · cases hpiece
    · obtain ⟨tag, -, htag⟩ := exists_of_map_eq_ok hpiece
      cases htag

/-- A text that is read is all of the markup up to an angle, or the content of a CDATA section. -/
theorem retold_of_read_text (rules : Rules) {c : Char} {tail content : List Char}
    (hread : Piece.read (c :: tail) = .ok (.text content, rest)) :
    ∃ head, c :: tail = head ++ rest ∧ ∀ position, Retold rules position head
      [.text (String.ofList content) (Span.ofLength position (Text.byteLength head))] := by
  rw [Piece.read.eq_def] at hread
  split at hread
  · rename_i behind heq
    cases heq
    exact ⟨_, cdata_of_readMarkup hread, fun position => .of_cdata String.toList_ofList rfl⟩
  · cases hread
    exact ⟨_, List.takeWhile_append_dropWhile.symm, fun position => .of_plain String.toList_ofList⟩

/-- The events of a piece retell it. -/
theorem retold_of_read (rules : Rules) {c : Char} {tail : List Char} {piece : Piece}
    (hread : Piece.read (c :: tail) = .ok (piece, rest)) :
    ∃ head, c :: tail = head ++ rest ∧ ∀ position, Retold rules position head
      (piece.events rules (Span.ofLength position (Text.byteLength head))) := by
  obtain ⟨front, hfront⟩ := Piece.suffix_of_read hread
  have hhead : c :: tail = c :: front ++ rest := congrArg (c :: ·) hfront.symm
  have hleftOut (hevents : ∀ span, piece.events rules span = []) (position : Nat) :
      Retold rules position (c :: front)
        (piece.events rules (Span.ofLength position (Text.byteLength (c :: front)))) := by
    rw [hhead] at hread
    rw [hevents]
    exact .of_leftOut (.piece hread hevents)
  cases piece with
  | text content => exact retold_of_read_text rules hread
  | startTag tag =>
    refine ⟨c :: front, hhead, fun position => ?_⟩
    unfold Piece.events
    dsimp only
    split
    · exact .of_tag_cons (Event.isTag_opened _ _ _) (.of_tag (Event.isTag_closed _ _))
    · exact .of_tag (Event.isTag_opened _ _ _)
  | endTag name =>
    refine ⟨c :: front, hhead, ?_⟩
    by_cases hvoid : rules.isVoid name = true
    · exact hleftOut fun span => if_pos hvoid
    · intro position
      rw [Piece.events, if_neg hvoid]
      exact .of_tag (Event.isTag_closed _ _)
  | ignored => exact ⟨c :: front, hhead, hleftOut fun span => rfl⟩

/-- The events of a slice retell it, up to the start tag of a raw text element if one ends it. -/
theorem retold_of_readSlice {stop : SliceEnd}
    (h : readSlice rules position cs = .ok (events, stop)) :
    ∃ head rest, cs = head ++ rest ∧ Retold rules position head events ∧
      (stop = .exhausted → rest = []) ∧
      ∀ name tag, stop = .rawText name tag → tag.stop = position + Text.byteLength head := by
  fun_induction readSlice rules position cs generalizing events with
  | case1 =>
    cases h
    refine ⟨[], [], rfl, .nil _, fun _ => rfl, ?_⟩
    intro name tag hstop
    cases hstop
  | case2 => cases h
  | case3 position c tail piece rest hread span name =>
    cases h
    obtain ⟨head, hhead, hretold⟩ := retold_of_read rules hread
    have hspan : span = Span.ofLength position (Text.byteLength head) := by
      rw [← bytesRead_append head rest, ← hhead]
    rw [hspan]
    refine ⟨head, rest, hhead, hretold position, ?_, ?_⟩
    · intro hstop
      cases hstop
    · intro name' tag hstop
      cases hstop
      rfl
  | case4 position c tail piece rest hread span =>
    rename_i ih
    obtain ⟨⟨following, stop⟩, hslice, hpair⟩ := exists_of_map_eq_ok h
    cases hpair
    obtain ⟨head, hhead, hretold⟩ := retold_of_read rules hread
    obtain ⟨later, behind, rfl, hlater, hexhausted, hrawText⟩ := ih hslice
    have hspan : span = Span.ofLength position (Text.byteLength head) := by
      rw [← bytesRead_append head (later ++ behind), ← hhead]
    rw [hspan] at hlater hrawText ⊢
    refine ⟨head ++ later, behind, ?_, (hretold position).append hlater, hexhausted, ?_⟩
    · rw [hhead, List.append_assoc]
    · intro name tag hstop
      rw [hrawText name tag hstop, Text.byteLength_append, ← Nat.add_assoc]
      rfl

/-- What shows all of a text retells it. -/
theorem Covers.retold (h : Covers position cs events) : Retold rules position cs events := by
  induction h with
  | nil position => exact .nil position
  | @cons position slice rest event events hspan hshows hrest ih =>
    have hevent : Retold rules position slice [event] := by
      cases event with
      | text content span =>
        obtain rfl : span = _ := hspan
        exact .of_plain hshows
      | opened name attributes span => exact .of_tag (Event.isTag_opened _ _ _)
      | closed name span => exact .of_tag (Event.isTag_closed _ _)
    exact hevent.append ih

section Below

-- What stands behind the text that is read is retold already.
variable (hbelow : ∀ {read behind}, read ≠ [] → cs = read ++ behind → ∀ {position events},
  readSource rules position behind = .ok events → Retold rules position behind events)

include hbelow

theorem retold_of_exhausted {shown : List Event}
    (hslice : readSlice rules position (dropByteOrderMark (sliceBeforeStray cs)) =
      .ok (shown, .exhausted)) (hmark : cs.head? ≠ some byteOrderMark)
    (h : readSource rules position cs = .ok events) : Retold rules position cs events := by
  rw [readSource_of_exhausted hslice] at h
  rw [dropByteOrderMark_sliceBeforeStray hmark] at hslice
  obtain ⟨head, rest, hhead, hshown, hrest, -⟩ := retold_of_readSlice hslice
  rw [hrest rfl, List.append_nil, sliceBeforeStray] at hhead
  cases hstray : splitAtStray cs with
  | none =>
    rw [hstray] at h hhead
    cases h
    obtain rfl : cs = head := hhead
    exact hshown
  | some pair =>
    obtain ⟨slice, beyond⟩ := pair
    rw [hstray] at h hhead
    obtain rfl : slice = head := hhead
    obtain ⟨following, hfollowing, rfl⟩ := exists_of_map_eq_ok h
    have hcs := eq_append_of_splitAtStray hstray
    have hangle : Retold rules (position + Text.byteLength slice) ['<']
        [.text "<" (Span.ofLength (position + Text.byteLength slice) 1)] :=
      .of_plain rfl
    have hread : cs = slice ++ ['<'] ++ beyond := by
      rw [hcs, List.append_assoc]
      rfl
    have hbeyond := hangle.append (hbelow (by simp) hread hfollowing)
    rw [hcs]
    exact hshown.append hbeyond

theorem retold_of_rawText {shown : List Event} {name : String} {tag : Span}
    (hslice : readSlice rules position (dropByteOrderMark (sliceBeforeStray cs)) =
      .ok (shown, .rawText name tag)) (hmark : cs.head? ≠ some byteOrderMark)
    (h : readSource rules position cs = .ok events) : Retold rules position cs events := by
  rw [readSource_of_rawText hslice] at h
  rw [dropByteOrderMark_sliceBeforeStray hmark] at hslice
  obtain ⟨head, rest, hhead, hshown, -, hstop⟩ := retold_of_readSlice hslice
  obtain ⟨beyond, hcs⟩ := sliceBeforeStray_prefix cs
  rw [hhead, List.append_assoc] at hcs
  generalize rest ++ beyond = scanned at hcs
  have hsplit : Text.splitAtByte? (tag.stop - position) cs = some (head, scanned) := by
    rw [hstop name tag rfl, Nat.add_sub_cancel_left, ← hcs, splitAtByte?_byteLength]
  rw [hsplit] at h
  dsimp only at h
  cases hcut : cutRawText (endTagOpening name) scanned with
  | none =>
    rw [hcut] at h
    cases h
  | some pair =>
    obtain ⟨content, behind⟩ := pair
    rw [hcut] at h
    obtain ⟨following, hfollowing, rfl⟩ := exists_of_map_eq_ok h
    obtain ⟨raw, hraw, hend, hcovers⟩ := covers_rawTextEvents hcut tag.stop
    have hread : cs = head ++ raw ++ behind := by
      rw [← hcs, hraw, List.append_assoc]
    have hne : head ++ raw ≠ [] := by
      intro hnil
      have hshorter := length_behind_cutRawText hcut
      rw [hraw, (List.append_eq_nil_iff.mp hnil).2] at hshorter
      exact Nat.lt_irrefl _ hshorter
    have hbehind := hbelow hne hread hfollowing
    rw [hend] at hbehind
    have hrawText : Retold rules (position + Text.byteLength head) (raw ++ behind)
        ((rawTextEvents name tag.stop scanned content behind).1 ++ following) := by
      rw [← hstop name tag rfl]
      exact hcovers.retold.append hbehind
    rw [hread, List.append_assoc, List.append_assoc]
    exact hshown.append hrawText

end Below

/-- The events of a source without byte order marks retell it. -/
theorem retold_of_readSource (hmark : byteOrderMark ∉ cs)
    (h : readSource rules position cs = .ok events) : Retold rules position cs events := by
  induction hlength : cs.length using Nat.strongRecOn generalizing cs position events with
  | ind length ih =>
    have hbelow {read behind : List Char} (hread : read ≠ []) (hcs : cs = read ++ behind)
        {position : Nat} {events : List Event}
        (h : readSource rules position behind = .ok events) :
        Retold rules position behind events := by
      have hlt : behind.length < length := by
        have hpos := List.length_pos_of_ne_nil hread
        rw [← hlength, hcs, List.length_append]
        omega
      have hmark : byteOrderMark ∉ behind := by
        intro hmem
        exact hmark (hcs ▸ List.mem_append_right read hmem)
      exact ih behind.length hlt hmark h rfl
    have hhead : cs.head? ≠ some byteOrderMark := mt List.mem_of_head? hmark
    cases hslice : readSlice rules position (dropByteOrderMark (sliceBeforeStray cs)) with
    | error failure =>
      rw [readSource_of_error hslice] at h
      cases h
    | ok result =>
      obtain ⟨shown, stop⟩ := result
      cases stop with
      | exhausted => exact retold_of_exhausted hbelow hslice hhead h
      | rawText name tag => exact retold_of_rawText hbelow hslice hhead h

/-- The events of a source without byte order marks retell it by its letters. -/
theorem retells_of_tokenize {source : String} (hmark : byteOrderMark ∉ source.toList)
    (h : tokenize rules source = .ok events) :
    Retells rules 0 source.toList events (letters rules source.toList) := by
  obtain ⟨pieces, hpieces, rfl⟩ := exists_of_map_eq_ok h
  have hretold := retold_of_readSource hmark hpieces
  rw [letters, hpieces]
  exact Retells.joinTexts hretold

end Reading

end TemplateCompiler.Markup
