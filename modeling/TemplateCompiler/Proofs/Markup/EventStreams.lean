import Mathlib.Data.List.Chain
import TemplateCompiler.Proofs.Markup.Excerpts

namespace TemplateCompiler.Markup

section Order

/-- Spans between two positions, each at or behind the end of the one before. -/
def Ordered : Nat → Nat → List Span → Prop
  | start, stop, [] => start ≤ stop
  | start, stop, span :: spans => start ≤ span.start ∧ Ordered span.stop stop spans

namespace Ordered

variable {start stop : Nat} {spans : List Span}

theorem le (h : Ordered start stop spans) : start ≤ stop := by
  induction spans generalizing start with
  | nil => exact h
  | cons span spans ih => exact (h.1.trans span.start_le_stop).trans (ih h.2)

theorem of_mem (h : Ordered start stop spans) {span : Span} (hmem : span ∈ spans) :
    start ≤ span.start ∧ span.stop ≤ stop := by
  induction spans generalizing start with
  | nil => cases hmem
  | cons first spans ih =>
    obtain ⟨hstart, hrest⟩ := h
    obtain rfl | hlater := List.mem_cons.mp hmem
    · exact ⟨hstart, hrest.le⟩
    · obtain ⟨hspan, hstop⟩ := ih hrest hlater
      have hfirst := first.start_le_stop
      exact ⟨by omega, hstop⟩

theorem pairwise (h : Ordered start stop spans) :
    spans.Pairwise fun earlier later => earlier.stop ≤ later.start := by
  induction spans generalizing start with
  | nil => exact List.Pairwise.nil
  | cons span spans ih =>
    refine List.pairwise_cons.mpr ⟨?_, ih h.2⟩
    intro later hlater
    exact (h.2.of_mem hlater).1

end Ordered

end Order

/-- Events of a source between the bytes `start` and `stop`. What opens and closes at once, and what
    holds raw text, is taken as a whole; other tags stand alone, and of these none is an element
    without content. A text shows at most as many bytes as its span has, and only the end of an
    element that closes at once may have no bytes. -/
inductive EventStream (rules : Rules) (stop : Nat) : Nat → List Event → Prop where
  | nil {start : Nat} (hstop : start ≤ stop) : EventStream rules stop start []
  | text {start : Nat} {content : String} {span : Span} {events : List Event}
      (hstart : start ≤ span.start) (hshown : Text.byteLength content.toList ≤ span.length)
      (hrest : EventStream rules stop span.stop events) :
      EventStream rules stop start (.text content span :: events)
  | opened {start : Nat} {name : String} {attributes : Attributes} {span : Span}
      {events : List Event} (hvoid : rules.isVoid name = false)
      (hraw : rules.isRawText name = false) (hstart : start ≤ span.start)
      (hspan : span.start < span.stop) (hrest : EventStream rules stop span.stop events) :
      EventStream rules stop start (.opened name attributes span :: events)
  | closed {start : Nat} {name : String} {span : Span} {events : List Event}
      (hvoid : rules.isVoid name = false) (hstart : start ≤ span.start)
      (hspan : span.start < span.stop) (hrest : EventStream rules stop span.stop events) :
      EventStream rules stop start (.closed name span :: events)
  | element {start : Nat} {name : String} {attributes : Attributes} {span tagEnd : Span}
      {events : List Event} (hstart : start ≤ span.start) (hspan : span.start < span.stop)
      (hend : span.stop ≤ tagEnd.start) (hrest : EventStream rules stop tagEnd.stop events) :
      EventStream rules stop start (.opened name attributes span :: .closed name tagEnd :: events)
  | rawText {start : Nat} {name content : String} {attributes : Attributes}
      {span textSpan tagEnd : Span} {events : List Event} (hvoid : rules.isVoid name = false)
      (hstart : start ≤ span.start) (hspan : span.start < span.stop)
      (htext : span.stop ≤ textSpan.start)
      (hshown : Text.byteLength content.toList ≤ textSpan.length)
      (hend : textSpan.stop ≤ tagEnd.start) (hrest : EventStream rules stop tagEnd.stop events) :
      EventStream rules stop start
        (.opened name attributes span :: .text content textSpan :: .closed name tagEnd :: events)

namespace EventStream

variable {rules : Rules} {start middle stop : Nat} {events later : List Event}

theorem ordered (h : EventStream rules stop start events) :
    Ordered start stop (events.map Event.span) := by
  induction h with
  | nil hstop => exact hstop
  | text hstart _ _ ih => exact ⟨hstart, ih⟩
  | opened _ _ hstart _ _ ih => exact ⟨hstart, ih⟩
  | closed _ hstart _ _ ih => exact ⟨hstart, ih⟩
  | element hstart _ hend _ ih => exact ⟨hstart, hend, ih⟩
  | rawText _ hstart _ htext _ hend _ ih => exact ⟨hstart, htext, hend, ih⟩

theorem of_le (h : EventStream rules stop middle events) (hle : start ≤ middle) :
    EventStream rules stop start events := by
  cases h with
  | nil hstop => exact nil (hle.trans hstop)
  | text hstart hshown hrest => exact text (hle.trans hstart) hshown hrest
  | opened hvoid hraw hstart hspan hrest => exact opened hvoid hraw (hle.trans hstart) hspan hrest
  | closed hvoid hstart hspan hrest => exact closed hvoid (hle.trans hstart) hspan hrest
  | element hstart hspan hend hrest => exact element (hle.trans hstart) hspan hend hrest
  | rawText hvoid hstart hspan htext hshown hend hrest =>
    exact rawText hvoid (hle.trans hstart) hspan htext hshown hend hrest

theorem append (h : EventStream rules middle start events)
    (hlater : EventStream rules stop middle later) :
    EventStream rules stop start (events ++ later) := by
  induction h with
  | nil hmiddle => exact hlater.of_le hmiddle
  | text hstart hshown _ ih => exact text hstart hshown ih
  | opened hvoid hraw hstart hspan _ ih => exact opened hvoid hraw hstart hspan ih
  | closed hvoid hstart hspan _ ih => exact closed hvoid hstart hspan ih
  | element hstart hspan hend _ ih => exact element hstart hspan hend ih
  | rawText hvoid hstart hspan htext hshown hend _ ih =>
    exact rawText hvoid hstart hspan htext hshown hend ih

theorem le_stop (h : EventStream rules middle start events) (hle : middle ≤ stop) :
    EventStream rules stop start events := by
  have happend := h.append (nil hle)
  rw [List.append_nil] at happend
  exact happend

/-- A joined text reaches over both of its parts, so it is long enough for what both show. -/
theorem joinTexts (h : EventStream rules stop start events) :
    EventStream rules stop start (Event.joinTexts events) := by
  induction h with
  | nil hstop => exact nil hstop
  | opened hvoid hraw hstart hspan _ ih => exact opened hvoid hraw hstart hspan ih
  | closed hvoid hstart hspan _ ih => exact closed hvoid hstart hspan ih
  | element hstart hspan hend _ ih => exact element hstart hspan hend ih
  | rawText hvoid hstart hspan htext hshown hend _ ih =>
    exact rawText hvoid hstart hspan htext hshown hend ih
  | @text start first span events hstart hshown _ ih =>
    rw [Event.joinTexts]
    split
    · rename_i second span' joined hjoined
      rw [hjoined] at ih
      cases ih with
      | text hstart' hshown' hrest' =>
        have hstop : (Span.ofBounds span.start span'.stop).stop = span'.stop := by
          have hspan := span.start_le_stop
          have hspan' := span'.start_le_stop
          exact Nat.max_eq_right (by omega)
        rw [← hstop] at hrest'
        refine text hstart ?_ hrest'
        have hspan := span.start_le_stop
        have hspan' := span'.start_le_stop
        unfold Span.length at hshown hshown' ⊢
        rw [String.toList_append, Text.byteLength_append, hstop]
        change _ ≤ span'.stop - span.start
        omega
    · exact text hstart hshown ih

/-- What an opening tag is followed by. -/
theorem opened_cases {front : List Event} {name : String} {attributes : Attributes} {span : Span}
    (h : EventStream rules stop start (front ++ .opened name attributes span :: later)) :
    (rules.isVoid name = false ∧ rules.isRawText name = false) ∨
      (∃ tagEnd rest, later = .closed name tagEnd :: rest) ∨
      (rules.isVoid name = false ∧ ∃ content textSpan tagEnd rest,
        later = .text content textSpan :: .closed name tagEnd :: rest) := by
  generalize hall : front ++ .opened name attributes span :: later = all at h
  induction h generalizing front with
  | nil => simp at hall
  | text _ _ _ ih =>
    obtain _ | ⟨event, front⟩ := front
    · cases hall
    · exact ih (List.cons.inj hall).2
  | opened hvoid hraw _ _ _ ih =>
    obtain _ | ⟨event, front⟩ := front
    · cases hall
      exact .inl ⟨hvoid, hraw⟩
    · exact ih (List.cons.inj hall).2
  | closed _ _ _ _ ih =>
    obtain _ | ⟨event, front⟩ := front
    · cases hall
    · exact ih (List.cons.inj hall).2
  | element _ _ _ _ ih =>
    obtain _ | ⟨event, _ | ⟨event', front⟩⟩ := front
    · cases hall
      exact .inr (.inl ⟨_, _, rfl⟩)
    · cases hall
    · exact ih (List.cons.inj (List.cons.inj hall).2).2
  | rawText hvoid _ _ _ _ _ _ ih =>
    obtain _ | ⟨event, _ | ⟨event', _ | ⟨event'', front⟩⟩⟩ := front
    · cases hall
      exact .inr (.inr ⟨hvoid, _, _, _, _, rfl⟩)
    · cases hall
    · cases hall
    · exact ih (List.cons.inj (List.cons.inj (List.cons.inj hall).2).2).2

/-- The end of an element without content stands directly behind its opening tag. -/
theorem closed_cases {front : List Event} {name : String} {span : Span}
    (h : EventStream rules stop start (front ++ .closed name span :: later)) :
    rules.isVoid name = false ∨
      ∃ before attributes tag, front = before ++ [.opened name attributes tag] := by
  have hbehind {front : List Event} (events : List Event)
      (hfront : rules.isVoid name = false ∨
        ∃ before attributes tag, front = before ++ [.opened name attributes tag]) :
      rules.isVoid name = false ∨
        ∃ before attributes tag, events ++ front = before ++ [.opened name attributes tag] := by
    refine hfront.imp id ?_
    rintro ⟨before, attributes, tag, rfl⟩
    exact ⟨events ++ before, attributes, tag, (List.append_assoc _ _ _).symm⟩
  generalize hall : front ++ .closed name span :: later = all at h
  induction h generalizing front with
  | nil => simp at hall
  | text _ _ _ ih =>
    obtain _ | ⟨event, front⟩ := front
    · cases hall
    · exact hbehind [event] (ih (List.cons.inj hall).2)
  | opened _ _ _ _ _ ih =>
    obtain _ | ⟨event, front⟩ := front
    · cases hall
    · exact hbehind [event] (ih (List.cons.inj hall).2)
  | closed hvoid _ _ _ ih =>
    obtain _ | ⟨event, front⟩ := front
    · cases hall
      exact .inl hvoid
    · exact hbehind [event] (ih (List.cons.inj hall).2)
  | element _ _ _ _ ih =>
    obtain _ | ⟨event, _ | ⟨event', front⟩⟩ := front
    · cases hall
    · cases hall
      exact .inr ⟨[], _, _, rfl⟩
    · exact hbehind [event, event'] (ih (List.cons.inj (List.cons.inj hall).2).2)
  | rawText hvoid _ _ _ _ _ _ ih =>
    obtain _ | ⟨event, _ | ⟨event', _ | ⟨event'', front⟩⟩⟩ := front
    · cases hall
    · cases hall
    · cases hall
      exact .inl hvoid
    · exact hbehind [event, event', event'']
        (ih (List.cons.inj (List.cons.inj (List.cons.inj hall).2).2).2)

end EventStream

section Reading

variable {rules : Rules} {position : Nat} {cs rest : List Char} {events : List Event}

/-- A text shows no more than it is read from. -/
theorem byteLength_le_of_read_text {head content : List Char} (hhead : head ≠ [])
    (hread : Piece.read (head ++ rest) = .ok (.text content, rest)) :
    Text.byteLength content ≤ Text.byteLength head := by
  obtain ⟨c, tail, rfl⟩ := List.exists_cons_of_ne_nil hhead
  rw [Piece.read.eq_def] at hread
  split at hread
  · rename_i heq
    have hbytes := congrArg Text.byteLength (heq.trans (cdata_of_readMarkup hread))
    simp only [Text.byteLength_append] at hbytes
    omega
  · obtain ⟨hcontent, hrest⟩ := Prod.mk.inj (Except.ok.inj hread)
    have hbytes := congrArg Text.byteLength
      (List.takeWhile_append_dropWhile (p := (· != '<')) (l := c :: tail ++ rest))
    rw [Piece.text.inj hcontent, hrest, Text.byteLength_append, Text.byteLength_append] at hbytes
    omega

theorem eventStream_of_read {head : List Char} {piece : Piece} (hhead : head ≠ [])
    (hread : Piece.read (head ++ rest) = .ok (piece, rest)) (hraw : piece.rawText? rules = none)
    (position : Nat) :
    EventStream rules (position + Text.byteLength head) position
      (piece.events rules (Span.ofLength position (Text.byteLength head))) := by
  obtain ⟨c, tail, rfl⟩ := List.exists_cons_of_ne_nil hhead
  have hpos : position < position + Text.byteLength (c :: tail) := by
    have hsize := c.utf8Size_pos
    rw [Text.byteLength_cons]
    omega
  cases piece with
  | text content =>
    refine .text (Nat.le_refl _) ?_ (.nil (Nat.le_refl _))
    have hlength : (Span.ofLength position (Text.byteLength (c :: tail))).length =
        Text.byteLength (c :: tail) := Nat.add_sub_cancel_left _ _
    rw [hlength, String.toList_ofList]
    exact byteLength_le_of_read_text hhead hread
  | startTag tag =>
    simp only [Piece.events]
    simp only [Piece.rawText?] at hraw
    split
    · exact .element (Nat.le_refl _) hpos (Nat.le_refl _) (.nil (Nat.le_refl _))
    · rename_i hopen
      simp only [Bool.or_eq_true, not_or, Bool.not_eq_true] at hopen
      simp only [hopen.1, hopen.2, Bool.not_false, Bool.true_and, ite_eq_right_iff, reduceCtorEq,
        imp_false, Bool.not_eq_true] at hraw
      exact .opened hopen.2 hraw (Nat.le_refl _) hpos (.nil (Nat.le_refl _))
  | endTag name =>
    simp only [Piece.events]
    split
    · exact .nil hpos.le
    · rename_i hvoid
      exact .closed (Bool.not_eq_true _ ▸ hvoid) (Nat.le_refl _) hpos (.nil (Nat.le_refl _))
  | ignored => exact .nil hpos.le

/-- A piece that opens raw text is a start tag, and has no event but that of the tag. -/
theorem events_of_rawText {piece : Piece} {name : String}
    (hraw : piece.rawText? rules = some name) (span : Span) :
    rules.isVoid name = false ∧
      ∃ attributes, piece.events rules span = [.opened name attributes span] := by
  cases piece with
  | startTag tag =>
    simp only [Piece.rawText?, Option.ite_none_right_eq_some, Bool.and_eq_true, Bool.not_eq_true',
      Option.some.injEq] at hraw
    obtain ⟨⟨⟨hopen, hvoid⟩, -⟩, rfl⟩ := hraw
    refine ⟨hvoid, tag.attributes, ?_⟩
    simp only [Piece.events, hopen, hvoid]
    rfl
  | text content => cases hraw
  | endTag name => cases hraw
  | ignored => cases hraw

/-- What the events of a slice are, by its end: the start tag of a raw text element stands last. -/
def SliceEnd.Follows (rules : Rules) (stop start : Nat) (events : List Event) : SliceEnd → Prop
  | exhausted => EventStream rules stop start events
  | rawText name tag => rules.isVoid name = false ∧ tag.start < tag.stop ∧
      ∃ front attributes, events = front ++ [.opened name attributes tag] ∧
        EventStream rules tag.start start front

theorem SliceEnd.Follows.append {ending : SliceEnd} {start middle stop : Nat} {later : List Event}
    (hlater : ending.Follows rules stop middle later)
    (h : EventStream rules middle start events) :
    ending.Follows rules stop start (events ++ later) := by
  cases ending with
  | exhausted => exact EventStream.append h hlater
  | rawText name tag =>
    obtain ⟨hvoid, htag, front, attributes, rfl, hfront⟩ := hlater
    exact ⟨hvoid, htag, events ++ front, attributes, (List.append_assoc _ _ _).symm,
      h.append hfront⟩

theorem follows_of_readSlice {ending : SliceEnd}
    (h : readSlice rules position cs = .ok (events, ending)) :
    ending.Follows rules (position + Text.byteLength cs) position events := by
  have hhead {c : Char} {tail rest : List Char} {piece : Piece}
      (hread : Piece.read (c :: tail) = .ok (piece, rest)) :
      ∃ head, head ≠ [] ∧ c :: tail = head ++ rest ∧
        bytesRead (c :: tail) rest = Text.byteLength head := by
    obtain ⟨front, rfl⟩ := Piece.suffix_of_read hread
    exact ⟨c :: front, List.cons_ne_nil _ _, rfl, bytesRead_append (c :: front) rest⟩
  fun_induction readSlice rules position cs generalizing events with
  | case1 =>
    cases h
    exact EventStream.nil (Nat.le_add_right _ _)
  | case2 => cases h
  | case3 position c tail piece rest hread span name =>
    rename_i hraw
    cases h
    obtain ⟨head, hne, -, hbytes⟩ := hhead hread
    obtain ⟨hvoid, attributes, hevents⟩ := events_of_rawText hraw span
    refine ⟨hvoid, ?_, [], attributes, hevents, .nil (Nat.le_refl _)⟩
    obtain ⟨first, more, rfl⟩ := List.exists_cons_of_ne_nil hne
    have hpos := first.utf8Size_pos
    change position < position + bytesRead (c :: tail) rest
    rw [hbytes, Text.byteLength_cons]
    omega
  | case4 position c tail piece rest hread span =>
    rename_i hraw ih
    obtain ⟨⟨following, ending'⟩, hslice, hpair⟩ := exists_of_map_eq_ok h
    cases hpair
    obtain ⟨head, hne, hparts, hbytes⟩ := hhead hread
    have hspan : span = Span.ofLength position (Text.byteLength head) :=
      congrArg (Span.ofLength position) hbytes
    rw [hparts] at hread
    have hpiece := eventStream_of_read hne hread hraw position
    have hfollowing := ih hslice
    rw [hspan] at hfollowing ⊢
    rw [hparts, Text.byteLength_append, ← Nat.add_assoc]
    exact hfollowing.append hpiece

theorem byteLength_dropByteOrderMark_le (cs : List Char) :
    Text.byteLength (dropByteOrderMark cs) ≤ Text.byteLength cs := by
  cases cs with
  | nil => exact Nat.le_refl _
  | cons c cs =>
    rw [dropByteOrderMark]
    split
    · exact Nat.le_add_left _ _
    · exact Nat.le_refl _

/-- Raw text and its end tag complete the events behind whose start tag they stand. -/
theorem eventStream_rawText {name : String} {tag : Span} {scanned content : List Char}
    {start : Nat} {following : List Event}
    (hslice : (SliceEnd.rawText name tag).Follows rules start position events)
    (hcut : cutRawText (endTagOpening name) scanned = some (content, rest))
    (hfollowing : EventStream rules (tag.stop + Text.byteLength scanned)
      (rawTextEvents name tag.stop scanned content rest).2 following) :
    EventStream rules (tag.stop + Text.byteLength scanned) position
      (events ++ (rawTextEvents name tag.stop scanned content rest).1 ++ following) := by
  obtain ⟨hvoid, htag, front, attributes, rfl, hfront⟩ := hslice
  obtain ⟨opened, inner, hscanned, -⟩ := eq_append_of_cutRawText hcut
  have hbytes : bytesRead scanned rest =
      Text.byteLength content + Text.byteLength (opened ++ inner ++ ['>']) := by
    rw [hscanned, bytesRead_append, Text.byteLength_append]
  have hbehind : (Span.ofBounds (tag.stop + Text.byteLength content)
      (tag.stop + bytesRead scanned rest)).stop = tag.stop + bytesRead scanned rest :=
    Nat.max_eq_right (by omega)
  have hraw : EventStream rules (tag.stop + Text.byteLength scanned) tag.start
      (.opened name attributes tag ::
        ((rawTextEvents name tag.stop scanned content rest).1 ++ following)) := by
    simp only [rawTextEvents] at hfollowing ⊢
    split at hfollowing
    · rename_i hempty
      rw [if_pos hempty]
      rw [← hbehind] at hfollowing
      exact .element (Nat.le_refl _) htag (Nat.le_add_right _ _) hfollowing
    · rename_i hcontent
      rw [if_neg hcontent]
      rw [← hbehind] at hfollowing
      have htext : (Span.ofBounds tag.stop (tag.stop + Text.byteLength content)).stop =
          tag.stop + Text.byteLength content := Nat.max_eq_right (Nat.le_add_right _ _)
      refine .rawText hvoid (Nat.le_refl _) htag (Nat.le_refl _) ?_ (Nat.le_of_eq htext) hfollowing
      rw [Span.length, htext, String.toList_ofList]
      exact Nat.le_of_eq (Nat.add_sub_cancel_left _ _).symm
  rw [List.append_assoc, List.append_assoc]
  exact hfront.append hraw

/-- A byte order mark in front of a slice only moves its events away from the end of the slice. -/
theorem eventStream_of_exhausted
    (hslice : readSlice rules position (dropByteOrderMark (sliceBeforeStray cs)) =
      .ok (events, .exhausted)) :
    EventStream rules (position + Text.byteLength (sliceBeforeStray cs)) position events := by
  have hstream : EventStream rules
      (position + Text.byteLength (dropByteOrderMark (sliceBeforeStray cs))) position events :=
    follows_of_readSlice hslice
  have hdrop := byteLength_dropByteOrderMark_le (sliceBeforeStray cs)
  exact hstream.le_stop (by omega)

/-- The events of a source form a stream from its start to its end. -/
theorem eventStream_of_readSource (h : readSource rules position cs = .ok events) :
    EventStream rules (position + Text.byteLength cs) position events := by
  fun_induction readSource rules position cs generalizing events with
  | case1 => cases h
  | case2 position cs shown hslice hstray =>
    cases h
    have hstream := eventStream_of_exhausted hslice
    rw [sliceBeforeStray, hstray] at hstream
    exact hstream
  | case3 position cs shown hslice slice beyond hstray angle =>
    rename_i ih
    obtain ⟨following, hfollowing, rfl⟩ := exists_of_map_eq_ok h
    have hshown := eventStream_of_exhausted hslice
    rw [sliceBeforeStray, hstray] at hshown
    have hstop : position + Text.byteLength cs = angle + 1 + Text.byteLength beyond := by
      have hangle : Char.utf8Size '<' = 1 := by decide
      rw [eq_append_of_splitAtStray hstray, Text.byteLength_append, Text.byteLength_cons]
      omega
    rw [hstop]
    refine hshown.append (.text (Nat.le_refl angle) ?_ (ih hfollowing))
    exact Nat.le_of_eq (Nat.add_sub_cancel_left angle 1).symm
  | case4 => cases h
  | case5 => cases h
  | case6 position cs shown name tag hslice front scanned hsplit content rest hcut raw tagEnd =>
    rename_i hraw ih
    obtain rfl := congrArg Prod.fst hraw
    obtain rfl := congrArg Prod.snd hraw
    obtain ⟨following, hfollowing, rfl⟩ := exists_of_map_eq_ok h
    obtain ⟨hcs, hfront⟩ := Text.eq_append_of_splitAtByte? hsplit
    have hle := le_stop_of_readSlice hslice
    have hstop : position + Text.byteLength cs = tag.stop + Text.byteLength scanned := by
      rw [hcs, Text.byteLength_append, hfront]
      omega
    have hfollows : (rawTextEvents name tag.stop scanned content rest).2 + Text.byteLength rest =
        tag.stop + Text.byteLength scanned := by
      obtain ⟨read, hscanned, hend, -⟩ := covers_rawTextEvents hcut tag.stop
      rw [hend, hscanned, Text.byteLength_append, Nat.add_assoc]
    have hbehind := ih hfollowing
    rw [hfollows] at hbehind
    rw [hstop]
    exact eventStream_rawText (follows_of_readSlice hslice) hcut hbehind

/-- No two texts are left side by side. -/
theorem isChain_joinTexts (events : List Event) :
    (Event.joinTexts events).IsChain fun first second => first.IsTag ∨ second.IsTag := by
  induction events with
  | nil => exact .nil
  | cons event events ih =>
    cases event with
    | opened name attributes span => exact ih.cons fun next _ => .inl (Event.isTag_opened _ _ _)
    | closed name span => exact ih.cons fun next _ => .inl (Event.isTag_closed _ _)
    | text first span =>
      rw [Event.joinTexts]
      split
      · rename_i second span' joined hjoined
        rw [hjoined, List.isChain_cons] at ih
        refine ih.2.cons fun next hnext => .inr ?_
        exact (ih.1 next hnext).resolve_left fun htag => htag _ _ rfl
      · rename_i hjoined
        refine ih.cons fun next hnext => .inr ?_
        intro content span' htext
        obtain ⟨rest, hrest⟩ := List.head?_eq_some_iff.mp hnext
        exact hjoined content span' rest (htext ▸ hrest)

end Reading

/-- The events of a source follow each other without overlap and end inside the source, and no two of
    them are texts side by side. An element without content closes directly behind its opening tag,
    and nowhere else. Between the tags of a raw text element there is at most one text. -/
theorem tokenize_shape (rules : Rules) (source : String) (events : List Event)
    (hread : tokenize rules source = .ok events) :
    (events.Pairwise fun earlier later => earlier.span.stop ≤ later.span.start) ∧
    (∀ event ∈ events, event.span.stop ≤ source.utf8ByteSize) ∧
    (events.IsChain fun first second => first.IsTag ∨ second.IsTag) ∧
    (∀ front name attributes span later,
      events = front ++ .opened name attributes span :: later → rules.isVoid name = true →
        ∃ tagEnd rest, later = .closed name tagEnd :: rest) ∧
    (∀ front name span later,
      events = front ++ .closed name span :: later → rules.isVoid name = true →
        ∃ before attributes tag, front = before ++ [.opened name attributes tag]) ∧
    (∀ front name attributes span later,
      events = front ++ .opened name attributes span :: later → rules.isRawText name = true →
        ∃ tagEnd rest, later = .closed name tagEnd :: rest ∨
          ∃ content textSpan, later = .text content textSpan :: .closed name tagEnd :: rest) := by
  obtain ⟨pieces, hpieces, rfl⟩ := exists_of_map_eq_ok hread
  have hstream := (eventStream_of_readSource hpieces).joinTexts
  rw [Nat.zero_add, byteLength_toList] at hstream
  refine ⟨?_, ?_, isChain_joinTexts pieces, ?_, ?_, ?_⟩
  · exact List.pairwise_map.mp hstream.ordered.pairwise
  · intro event hevent
    exact (hstream.ordered.of_mem (List.mem_map_of_mem hevent)).2
  · intro front name attributes span later hevents hvoid
    rw [hevents] at hstream
    obtain hplain | hclosed | hraw := hstream.opened_cases
    · rw [hplain.1] at hvoid
      cases hvoid
    · exact hclosed
    · rw [hraw.1] at hvoid
      cases hvoid
  · intro front name span later hevents hvoid
    rw [hevents] at hstream
    obtain hother | hopened := hstream.closed_cases
    · rw [hother] at hvoid
      cases hvoid
    · exact hopened
  · intro front name attributes span later hevents hraw
    rw [hevents] at hstream
    obtain hplain | ⟨tagEnd, rest, hclosed⟩ | ⟨-, content, textSpan, tagEnd, rest, htext⟩ :=
      hstream.opened_cases
    · rw [hplain.2] at hraw
      cases hraw
    · exact ⟨tagEnd, rest, .inl hclosed⟩
    · exact ⟨tagEnd, rest, .inr ⟨content, textSpan, htext⟩⟩

/-- A byte order mark, a stray angle, an element without content, an end tag that is ignored, and raw
    text. -/
theorem tokenize_shape_marked :
    let source := "\uFEFFa < <BR></br><!-- -->b<Script>if (a<b) c</SCRIPT ><style/>"
    ∃ events, tokenize {} source = .ok events ∧ events.length = 9 ∧
      (events.Pairwise fun earlier later => earlier.span.stop ≤ later.span.start) ∧
      (∀ event ∈ events, event.span.stop ≤ source.utf8ByteSize) ∧
      events.IsChain fun first second => first.IsTag ∨ second.IsTag := by
  intro source
  have hlength : (tokenize {} source).toOption.map List.length = some 9 := by decide +kernel
  cases hread : tokenize {} source with
  | error failure =>
    rw [hread] at hlength
    cases hlength
  | ok events =>
    rw [hread] at hlength
    obtain ⟨hordered, hinside, htexts, -⟩ := tokenize_shape {} source events hread
    exact ⟨events, rfl, Option.some.inj hlength, hordered, hinside, htexts⟩

end TemplateCompiler.Markup
