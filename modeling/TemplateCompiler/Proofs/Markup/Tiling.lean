import TemplateCompiler.Proofs.Markup.Reading

namespace TemplateCompiler.Markup

/-- A span is where `slice` stands in a source. -/
def Span.Holds (source slice : List Char) (span : Span) : Prop :=
  ∃ before behind, source = before ++ slice ++ behind ∧ span.start = Text.byteLength before ∧
    span.stop = Text.byteLength before + Text.byteLength slice

/-- Spans that lie side by side from `start` to `stop`. -/
def Tiles : Nat → Nat → List Span → Prop
  | start, stop, [] => start = stop
  | start, stop, span :: spans => span.start = start ∧ Tiles span.stop stop spans

/-- An event shows the stretch of a source that it comes from. Where an element without content
    closes by itself there is nothing to show. -/
def Event.Shows (slice : List Char) : Event → Prop
  | .opened name _ _ => '<' :: name.toList <+: slice ∧ ['>'] <:+ slice
  | .text content _ => content.toList = slice
  | .closed _ _ => slice ≠ [] → ['<', '/'] <+: slice ∧ ['>'] <:+ slice

/-- A source without the markup that is left out: marks, declarations, instructions, and end tags of
    elements without content. -/
structure Lossless (rules : Rules) (source : List Char) : Prop where
  mark : byteOrderMark ∉ source
  declaration : ¬"<!".toList <:+: source
  instruction : ¬"<?".toList <:+: source
  voidEnd : rules.voidElements = true →
    ∀ name ∈ voidNames, ¬"</".toList ++ name.toList <:+: Text.lower source

theorem Lossless.of_suffix {rules : Rules} {source rest : List Char} (h : Lossless rules source)
    (hrest : rest <:+ source) : Lossless rules rest := by
  refine ⟨?_, ?_, ?_, ?_⟩
  · intro hmem
    exact h.mark (hrest.subset hmem)
  · intro hpart
    exact h.declaration (hpart.trans hrest.isInfix)
  · intro hpart
    exact h.instruction (hpart.trans hrest.isInfix)
  · intro hvoid name hname hpart
    exact h.voidEnd hvoid name hname (hpart.trans (hrest.map Char.toLower).isInfix)

theorem Span.ofBounds_eq_ofLength (start length length' : Nat) :
    ofBounds start (start + length + length') = ofLength start (length + length') := by
  have hmax : max start (start + length + length') = start + (length + length') := by
    omega
  simp only [ofBounds, ofLength, hmax]

/-- Events that show all of a text, which starts at the byte `position`. -/
inductive Covers : Nat → List Char → List Event → Prop where
  | nil (position : Nat) : Covers position [] []
  | cons {position : Nat} {slice rest : List Char} {event : Event} {events : List Event}
      (hspan : event.span = Span.ofLength position (Text.byteLength slice))
      (hshows : event.Shows slice)
      (hrest : Covers (position + Text.byteLength slice) rest events) :
      Covers position (slice ++ rest) (event :: events)

namespace Covers

variable {position : Nat} {cs rest : List Char} {events later : List Event}

theorem append (h : Covers position cs events)
    (hlater : Covers (position + Text.byteLength cs) rest later) :
    Covers position (cs ++ rest) (events ++ later) := by
  induction h with
  | nil position => simpa using hlater
  | cons hspan hshows hrest ih =>
    rw [List.append_assoc, List.cons_append]
    refine cons hspan hshows (ih ?_)
    rw [Text.byteLength_append, ← Nat.add_assoc] at hlater
    exact hlater

theorem single {event : Event} (hspan : event.span = Span.ofLength position (Text.byteLength cs))
    (hshows : event.Shows cs) : Covers position cs [event] := by
  have hcovers := cons hspan hshows (nil _)
  rw [List.append_nil] at hcovers
  exact hcovers

/-- Joining neighbouring texts joins what they show. -/
theorem joinTexts (h : Covers position cs events) : Covers position cs (Event.joinTexts events) := by
  induction h with
  | nil position => exact nil position
  | @cons position slice rest event events hspan hshows hrest ih =>
    cases event with
    | opened name attributes span => exact cons hspan hshows ih
    | closed name span => exact cons hspan hshows ih
    | text first span =>
      rw [Event.joinTexts]
      split
      · rename_i second span' joined hjoined
        rw [hjoined] at ih
        cases ih with
        | @cons _ slice' rest' _ _ hspan' hshows' hrest' =>
          have hspan : span = Span.ofLength position (Text.byteLength slice) := hspan
          have hspan' : span' = Span.ofLength (position + Text.byteLength slice)
            (Text.byteLength slice') := hspan'
          rw [← List.append_assoc]
          refine cons ?_ ?_ ?_
          · change Span.ofBounds span.start span'.stop = _
            rw [hspan, hspan', Text.byteLength_append]
            exact Span.ofBounds_eq_ofLength position (Text.byteLength slice) (Text.byteLength slice')
          · change (first ++ second).toList = slice ++ slice'
            rw [String.toList_append]
            exact congr (congrArg _ hshows) hshows'
          · rw [Text.byteLength_append, ← Nat.add_assoc]
            exact hrest'
      · exact cons hspan hshows ih

theorem tiles (h : Covers position cs events) :
    Tiles position (position + Text.byteLength cs) (events.map Event.span) := by
  induction h with
  | nil position => exact rfl
  | @cons position slice rest event events hspan hshows hrest ih =>
    rw [List.map_cons, hspan]
    refine ⟨rfl, ?_⟩
    rw [Text.byteLength_append, ← Nat.add_assoc]
    exact ih

theorem holds (h : Covers position cs events) (before : List Char)
    (hbefore : Text.byteLength before = position) {event : Event} (hevent : event ∈ events) :
    ∃ slice, event.span.Holds (before ++ cs) slice ∧ event.Shows slice := by
  induction h generalizing before with
  | nil position => cases hevent
  | @cons position slice rest event' events hspan hshows hrest ih =>
    obtain rfl | hevent := List.mem_cons.mp hevent
    · refine ⟨slice, ⟨before, rest, by simp, ?_, ?_⟩, hshows⟩
      · rw [hspan, hbefore]
        rfl
      · rw [hspan, hbefore]
        rfl
    · have hmoved : Text.byteLength (before ++ slice) = position + Text.byteLength slice := by
        rw [Text.byteLength_append, hbefore]
      have hlater := ih (before ++ slice) hmoved hevent
      rw [List.append_assoc] at hlater
      exact hlater

end Covers

section Tags

theorem name_prefix_of_read {content : List Char} {tag : StartTag}
    (hread : StartTag.read content = .ok tag) : tag.name.toList <+: content := by
  have hinner : (if content.getLast? == some '/' then content.dropLast else content) <+: content := by
    split
    · exact List.dropLast_prefix content
    · exact List.prefix_refl content
  unfold StartTag.read at hread
  dsimp only at hread
  generalize (if content.getLast? == some '/' then content.dropLast else content) = inner
    at hinner hread
  cases hattributes : readAttributes (Text.byteLength inner)
      (inner.drop (inner.takeWhile (!Text.isTagSpace ·)).length) with
  | error fault =>
    rw [hattributes] at hread
    cases hread
  | ok entries =>
    rw [hattributes] at hread
    cases hread
    rw [String.toList_ofList]
    exact (List.takeWhile_prefix _).trans hinner

theorem endTagName_prefix (content : List Char) : (endTagName content).toList <+: content := by
  have htrimmed : (content.reverse.dropWhile Text.isTagSpace).reverse <+: content := by
    rw [← List.reverse_suffix, List.reverse_reverse]
    exact List.dropWhile_suffix _
  unfold endTagName
  dsimp only
  rw [String.toList_ofList]
  split
  · exact List.prefix_refl content
  · exact htrimmed

/-- The end tag of an element without content is not in a source of which nothing is left out. -/
theorem Lossless.isVoid_eq_false {rules : Rules} {content rest : List Char}
    (h : Lossless rules ('<' :: '/' :: (content ++ rest))) :
    rules.isVoid (endTagName content) = false := by
  rw [Bool.eq_false_iff]
  intro hvoid
  rw [Rules.isVoid, Bool.and_eq_true, List.contains_iff_mem] at hvoid
  obtain ⟨helements, hname⟩ := hvoid
  refine h.voidEnd helements _ hname ?_
  obtain ⟨behind, hbehind⟩ := endTagName_prefix content
  have hlower : Text.lower content =
      (Text.lowercase (endTagName content)).toList ++ Text.lower behind := by
    rw [Text.lowercase, String.toList_ofList, Text.lower, Text.lower, Text.lower, ← List.map_append,
      hbehind]
  have hopening : Text.lower ('<' :: '/' :: (content ++ rest)) =
      "</".toList ++ (Text.lower content ++ Text.lower rest) := by
    simp [Text.lower]
  refine ⟨[], Text.lower behind ++ Text.lower rest, ?_⟩
  rw [hopening, hlower]
  simp only [List.nil_append, List.append_assoc]

variable {rules : Rules} {position : Nat} {content : List Char}

theorem covers_startTag {tag : StartTag} (hread : StartTag.read content = .ok tag) :
    Covers position ('<' :: (content ++ ['>'])) (Piece.events rules
      (Span.ofLength position (Text.byteLength ('<' :: (content ++ ['>'])))) (.startTag tag)) := by
  obtain ⟨behind, hbehind⟩ := name_prefix_of_read hread
  have hopened : Covers position ('<' :: (content ++ ['>'])) [.opened tag.name tag.attributes
      (Span.ofLength position (Text.byteLength ('<' :: (content ++ ['>']))))] := by
    refine Covers.single rfl ⟨⟨behind ++ ['>'], ?_⟩, ⟨'<' :: content, rfl⟩⟩
    rw [← hbehind]
    simp
  simp only [Piece.events]
  split
  · have hclosed : Covers (position + Text.byteLength ('<' :: (content ++ ['>']))) []
        [.closed tag.name (Span.point (position + Text.byteLength ('<' :: (content ++ ['>']))))] :=
      Covers.single rfl fun hne => (hne rfl).elim
    have happend := hopened.append hclosed
    rw [List.append_nil] at happend
    exact happend
  · exact hopened

theorem covers_endTag (hvoid : rules.isVoid (endTagName content) = false) :
    Covers position ('<' :: ('/' :: content ++ ['>'])) (Piece.events rules
      (Span.ofLength position (Text.byteLength ('<' :: ('/' :: content ++ ['>']))))
        (.endTag (endTagName content))) := by
  simp only [Piece.events, hvoid]
  exact Covers.single rfl fun _ => ⟨⟨content ++ ['>'], rfl⟩, ⟨'<' :: '/' :: content, rfl⟩⟩

end Tags

section RawText

/-- Where a pattern is found in a text in lower case, the text is cut in the same places. -/
theorem lower_take_of_splitOnce {opening cs before behind : List Char}
    (hfound : Text.splitOnce opening (Text.lower cs) = some (before, behind)) :
    Text.lower ((cs.drop before.length).take opening.length) = opening := by
  have hlower := Text.eq_append_of_splitOnce hfound
  unfold Text.lower at hlower ⊢
  rw [List.map_take, List.map_drop, hlower, List.append_assoc, List.drop_left, List.take_left]

/-- Raw text ends in front of its end tag. -/
theorem eq_append_of_cutRawText {opening cs content rest : List Char}
    (h : cutRawText opening cs = some (content, rest)) :
    ∃ opened inner, cs = content ++ (opened ++ inner ++ ['>']) ++ rest ∧
      Text.lower opened = opening := by
  have hsplit (cs : List Char) (before : Nat) :
      cs = cs.take before ++ ((cs.drop before).take opening.length ++
        cs.drop (before + opening.length)) := by
    rw [← List.drop_drop, List.take_append_drop, List.take_append_drop]
  fun_induction cutRawText opening cs generalizing content with
  | case1 => cases h
  | case2 cs before _ hfound behind =>
    obtain ⟨⟨inner, rest'⟩, hcut, hpair⟩ := Option.map_eq_some_iff.mp h
    cases hpair
    have hbehind : cs.drop (before.length + opening.length) = inner ++ ['>'] ++ rest :=
      Text.eq_append_of_splitOnce hcut
    refine ⟨_, inner, ?_, lower_take_of_splitOnce hfound⟩
    have hcs := hsplit cs before.length
    rw [hbehind] at hcs
    simpa using hcs
  | case3 => cases h
  | case4 cs before _ hfound behind =>
    rename_i ih
    obtain ⟨⟨content', rest'⟩, hcut, hpair⟩ := Option.map_eq_some_iff.mp h
    cases hpair
    obtain ⟨opened, inner, hbehind, hopened⟩ := ih hcut
    have hbehind : cs.drop (before.length + opening.length) = _ := hbehind
    refine ⟨opened, inner, ?_, hopened⟩
    have hcs := List.take_append_drop (before.length + opening.length) cs
    rw [hbehind] at hcs
    simpa using hcs.symm

theorem isPrefix_of_lower_eq {name : String} {opened : List Char}
    (hopened : Text.lower opened = endTagOpening name) : ['<', '/'] <+: opened := by
  obtain ⟨angle, tail, rfl, hangle, htail⟩ := List.map_eq_cons_iff.mp hopened
  obtain ⟨slash, tail, rfl, hslash, -⟩ := List.map_eq_cons_iff.mp htail
  rw [eq_of_toLower_eq (by decide) hangle, eq_of_toLower_eq (by decide) hslash]
  exact ⟨tail, rfl⟩

/-- Raw text and its end tag are shown by their events. -/
theorem covers_rawTextEvents {name : String} {scanned content rest : List Char}
    (hcut : cutRawText (endTagOpening name) scanned = some (content, rest)) (position : Nat) :
    ∃ shown, scanned = shown ++ rest ∧
      (rawTextEvents name position scanned content rest).2 = position + Text.byteLength shown ∧
      Covers position shown (rawTextEvents name position scanned content rest).1 := by
  obtain ⟨opened, inner, hscanned, hopened⟩ := eq_append_of_cutRawText hcut
  have hleading := (isPrefix_of_lower_eq hopened).trans (List.prefix_append opened (inner ++ ['>']))
  rw [← List.append_assoc] at hleading
  generalize htag : opened ++ inner ++ ['>'] = tag at hscanned hleading
  have hsuffix : ['>'] <:+ tag := ⟨_, htag⟩
  have hread : bytesRead scanned rest = Text.byteLength content + Text.byteLength tag := by
    rw [hscanned, bytesRead_append, Text.byteLength_append]
  have hspan : Span.ofBounds (position + Text.byteLength content)
      (position + (Text.byteLength content + Text.byteLength tag)) =
      Span.ofLength (position + Text.byteLength content) (Text.byteLength tag) := by
    have hbounds := Span.ofBounds_eq_ofLength (position + Text.byteLength content)
      (Text.byteLength tag) 0
    rw [Nat.add_zero, Nat.add_assoc] at hbounds
    exact hbounds
  have hclosed : Covers (position + Text.byteLength content) tag [.closed name
      (Span.ofBounds (position + Text.byteLength content)
        (position + (Text.byteLength content + Text.byteLength tag)))] :=
    Covers.single hspan fun _ => ⟨hleading, hsuffix⟩
  refine ⟨content ++ tag, hscanned, ?_, ?_⟩
  · unfold rawTextEvents
    dsimp only
    rw [hread, Text.byteLength_append]
    split <;> rfl
  · unfold rawTextEvents
    dsimp only
    rw [hread]
    split
    · rename_i hempty
      rw [hempty] at hclosed ⊢
      exact hclosed
    · have htext : Covers position content [.text (String.ofList content)
          (Span.ofBounds position (position + Text.byteLength content))] := by
        refine Covers.single ?_ (String.toList_ofList)
        exact Span.ofBounds_eq_ofLength position (Text.byteLength content) 0
      exact htext.append hclosed

end RawText

section Source

variable {rules : Rules} {position : Nat} {head rest : List Char} {piece : Piece}
  {events : List Event}

theorem Lossless.head?_ne_mark {cs : List Char} (h : Lossless rules cs) :
    cs.head? ≠ some byteOrderMark := by
  intro hhead
  exact h.mark (List.mem_of_head? hhead)

theorem covers_of_leads (hleads : Leads head rest piece) (hsource : Lossless rules rest)
    (hraw : piece.rawText? rules = none)
    (hhead : Covers position head
      (piece.events rules (Span.ofLength position (Text.byteLength head))))
    (hrest : ∀ {position events}, readSource rules position rest = .ok events →
      Covers position rest events)
    (hread : readSource rules position (head ++ rest) = .ok events) :
    Covers position (head ++ rest) events := by
  rw [hleads.readSource_eq hsource.head?_ne_mark hraw] at hread
  obtain ⟨following, hfollowing, rfl⟩ := exists_of_map_eq_ok hread
  exact hhead.append (hrest hfollowing)

theorem covers_of_rawText (hleads : Leads head rest piece) {name : String}
    (hraw : piece.rawText? rules = some name)
    (hhead : Covers position head
      (piece.events rules (Span.ofLength position (Text.byteLength head))))
    (hrest : ∀ {behind}, behind <:+ rest → ∀ {position events},
      readSource rules position behind = .ok events → Covers position behind events)
    (hread : readSource rules position (head ++ rest) = .ok events) :
    Covers position (head ++ rest) events := by
  rw [hleads.readSource_rawText_eq hraw] at hread
  cases hcut : cutRawText (endTagOpening name) rest with
  | none =>
    rw [hcut] at hread
    cases hread
  | some pair =>
    obtain ⟨content, behind⟩ := pair
    rw [hcut] at hread
    obtain ⟨following, hfollowing, rfl⟩ := exists_of_map_eq_ok hread
    obtain ⟨shown, hshown, hend, hcovers⟩ :=
      covers_rawTextEvents hcut (position + Text.byteLength head)
    have hbehind := hrest ⟨shown, hshown.symm⟩ hfollowing
    change Covers (rawTextEvents name (position + Text.byteLength head) rest content behind).2 _ _
      at hbehind
    rw [hend] at hbehind
    have hall := hhead.append (hcovers.append hbehind)
    rw [← hshown, ← List.append_assoc] at hall
    exact hall

/-- An angle is stray or starts a tag, unless it starts markup that is left out. -/
theorem startsTag_or_stray {cs : List Char} (hsource : Lossless rules ('<' :: cs)) :
    StartsTag cs ∨ AngleUse.of cs = .stray := by
  cases cs with
  | nil => exact .inr rfl
  | cons c tail =>
    have hdeclaration : c ≠ '!' := by
      rintro rfl
      exact hsource.declaration ⟨[], tail, rfl⟩
    have hinstruction : c ≠ '?' := by
      rintro rfl
      exact hsource.instruction ⟨[], tail, rfl⟩
    by_cases hc : c.isAlpha = true ∨ c = '/'
    · exact .inl ⟨c, tail, rfl, hc⟩
    · refine .inr (angleUse_cons_eq_stray ?_ tail)
      simp only [List.mem_cons, List.not_mem_nil, or_false]
      rintro (halpha | hslash | hmark | hmark)
      · exact hc (.inl halpha)
      · exact hc (.inr hslash)
      · exact hdeclaration hmark
      · exact hinstruction hmark

section Below

-- What is shorter than the source is covered already.
variable {c : Char} {tail : List Char}
  (hbelow : ∀ {behind}, behind <:+ tail → ∀ {position events},
    readSource rules position behind = .ok events → Covers position behind events)

include hbelow

theorem covers_text (hsource : Lossless rules (c :: tail)) (hangle : c ≠ '<')
    (hread : readSource rules position (c :: tail) = .ok events) :
    Covers position (c :: tail) events := by
  have hmark := hsource.head?_ne_mark
  obtain ⟨text, rest, htext, hsuffix, hnone, hrest⟩ := exists_text_before_angle hangle tail
  have hleads := leads_text (List.cons_ne_nil c text) hnone hmark hrest
  rw [htext] at hread hsource ⊢
  refine covers_of_leads hleads (hsource.of_suffix (List.suffix_append _ _)) rfl ?_
    (hbelow hsuffix) hread
  exact Covers.single rfl String.toList_ofList

theorem covers_stray (hstray : AngleUse.of tail = .stray)
    (hread : readSource rules position ('<' :: tail) = .ok events) :
    Covers position ('<' :: tail) events := by
  rw [readSource_stray rules hstray] at hread
  obtain ⟨following, hfollowing, rfl⟩ := exists_of_map_eq_ok hread
  have hangle : Covers position ['<'] [.text "<" (Span.ofLength position 1)] :=
    Covers.single rfl rfl
  exact hangle.append (hbelow (List.suffix_refl tail) hfollowing)

theorem covers_tag (hsource : Lossless rules ('<' :: tail)) (hstarts : StartsTag tail)
    (hread : readSource rules position ('<' :: tail) = .ok events) :
    Covers position ('<' :: tail) events := by
  have hfinished : ∃ content behind piece, cutTag none tail = .ok (content, behind) ∧
      tagPiece content = .ok piece := by
    refine Classical.byContradiction fun hnone => ?_
    have hrefused (content behind : List Char) (hcut : cutTag none tail = .ok (content, behind)) :
        ∃ fault, tagPiece content = .error fault := by
      cases hpiece : tagPiece content with
      | error fault => exact ⟨fault, rfl⟩
      | ok piece => exact (hnone ⟨content, behind, piece, hcut, hpiece⟩).elim
    obtain ⟨failure, hfailure⟩ := readSource_refused rules hstarts hrefused position
    rw [hfailure] at hread
    cases hread
  obtain ⟨content, behind, piece, hcut, hpiece⟩ := hfinished
  obtain rfl := eq_append_of_cutTag hcut
  have hleads := leads_tag hstarts.of_append hcut hpiece
  have hsuffix : behind <:+ content ++ '>' :: behind := ⟨content ++ ['>'], by simp⟩
  have hshown : Covers position ('<' :: (content ++ ['>'])) (piece.events rules
      (Span.ofLength position (Text.byteLength ('<' :: (content ++ ['>']))))) := by
    unfold tagPiece at hpiece
    cases hslash : Text.dropPrefix? ['/'] content with
    | some name =>
      rw [hslash] at hpiece
      cases hpiece
      obtain rfl := Text.dropPrefix?_eq_some_iff.mp hslash
      exact covers_endTag hsource.isVoid_eq_false
    | none =>
      rw [hslash] at hpiece
      cases hstart : StartTag.read content with
      | error fault =>
        rw [hstart] at hpiece
        cases hpiece
      | ok tag =>
        rw [hstart] at hpiece
        cases hpiece
        exact covers_startTag hstart
  rw [← tag_append] at hread ⊢
  cases hraw : piece.rawText? rules with
  | none =>
    exact covers_of_leads hleads (hsource.of_suffix (hsuffix.trans (List.suffix_cons _ _))) hraw
      hshown (hbelow hsuffix) hread
  | some name =>
    exact covers_of_rawText hleads hraw hshown
      (fun hbehind => hbelow (hbehind.trans hsuffix)) hread

end Below

/-- The events of a source show all of it. -/
theorem covers_readSource {cs : List Char} (hsource : Lossless rules cs)
    (hread : readSource rules position cs = .ok events) : Covers position cs events := by
  induction hlength : cs.length using Nat.strongRecOn generalizing cs position events with
  | ind length ih =>
    cases cs with
    | nil =>
      rw [readSource_nil] at hread
      cases hread
      exact Covers.nil position
    | cons c tail =>
      have hbelow {behind : List Char} (hsuffix : behind <:+ tail) {position : Nat}
          {events : List Event} (hread : readSource rules position behind = .ok events) :
          Covers position behind events := by
        have hlt : behind.length < length := by
          rw [← hlength, List.length_cons]
          exact Nat.lt_succ_of_le hsuffix.length_le
        have hlossless := hsource.of_suffix (hsuffix.trans (List.suffix_cons c tail))
        exact ih behind.length hlt hlossless hread rfl
      by_cases hangle : c = '<'
      · subst hangle
        obtain hstarts | hstray := startsTag_or_stray hsource
        · exact covers_tag hbelow hsource hstarts hread
        · exact covers_stray hbelow hstray hread
      · exact covers_text hbelow hsource hangle hread

end Source

theorem byteLength_toList (s : String) : Text.byteLength s.toList = s.utf8ByteSize := by
  have hlist (cs : List Char) : (String.ofList cs).utf8ByteSize = Text.byteLength cs := by
    induction cs with
    | nil => rfl
    | cons c cs ih =>
      have hcons : String.ofList (c :: cs) = String.singleton c ++ String.ofList cs := by
        rw [← String.toList_inj]
        simp
      rw [hcons, String.utf8ByteSize_append, String.utf8ByteSize_singleton, ih,
        Text.byteLength_cons]
  rw [← hlist, String.ofList_toList]

/-- The spans of the events lie side by side from the start of a source to its end, and each event
    shows the stretch of the source that it comes from. Only an empty source has no events. -/
theorem tokenize_tiles (rules : Rules) (source : String) (hsource : Lossless rules source.toList)
    (events : List Event) (hread : tokenize rules source = .ok events) :
    Tiles 0 source.utf8ByteSize (events.map Event.span) ∧ (events = [] → source = "") ∧
      ∀ event ∈ events, ∃ slice, event.span.Holds source.toList slice ∧ event.Shows slice := by
  obtain ⟨pieces, hpieces, rfl⟩ := exists_of_map_eq_ok hread
  have hcovers := (covers_readSource hsource hpieces).joinTexts
  have htiles := hcovers.tiles
  rw [Nat.zero_add, byteLength_toList] at htiles
  refine ⟨htiles, ?_, ?_⟩
  · intro hnone
    rw [hnone] at htiles
    exact String.utf8ByteSize_eq_zero_iff.mp htiles.symm
  · intro event hevent
    exact hcovers.holds [] rfl hevent

/-- A source with a stray angle, an element without content and raw text. -/
theorem tokenize_tiles_script :
    let source := "a < b<br><script>if (a<b) c</SCRIPT >"
    Lossless {} source.toList ∧ ∃ events, tokenize {} source = .ok events ∧
      Tiles 0 37 (events.map Event.span) ∧
      ∀ event ∈ events, ∃ slice, event.span.Holds source.toList slice ∧ event.Shows slice := by
  intro source
  have hsource : Lossless {} source.toList := by
    refine ⟨by decide +kernel, by decide +kernel, by decide +kernel, by decide +kernel⟩
  have hok : (tokenize {} source).toOption.isSome = true := by decide +kernel
  cases hread : tokenize {} source with
  | error failure =>
    rw [hread] at hok
    cases hok
  | ok events =>
    obtain ⟨htiles, -, hshown⟩ := tokenize_tiles {} source hsource events hread
    exact ⟨hsource, events, rfl, htiles, hshown⟩

end TemplateCompiler.Markup
