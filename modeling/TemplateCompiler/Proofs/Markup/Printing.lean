import Mathlib.Data.List.Infix
import TemplateCompiler.Proofs.Markup.PrintedTags

namespace TemplateCompiler.Markup

/-- An event without the place it comes from. -/
def Event.unplaced : Event → Event
  | .opened name attributes _ => .opened name attributes (Span.point 0)
  | .text content _ => .text content (Span.point 0)
  | .closed name _ => .closed name (Span.point 0)

/-- A text in which every angle is stray. -/
structure IsPlainText (content : List Char) : Prop where
  mark : byteOrderMark ∉ content
  angles : ∀ c, c.isAlpha = true ∨ c ∈ ['/', '!', '?'] → ¬['<', c] <:+: content

theorem isPlainText_iff {content : List Char} :
    IsPlainText content ↔ byteOrderMark ∉ content ∧ (content.all fun c =>
      !((c.isAlpha || ['/', '!', '?'].contains c) && decide (['<', c] <:+: content))) = true := by
  simp only [List.all_eq_true, Bool.not_eq_true', Bool.and_eq_false_imp, Bool.or_eq_true,
    List.contains_iff_mem, decide_eq_false_iff_not]
  constructor
  · intro h
    exact ⟨h.mark, fun c _ hc => h.angles c hc⟩
  · rintro ⟨hmark, hangles⟩
    refine ⟨hmark, fun c hc hpart => ?_⟩
    exact hangles c (hpart.subset (List.mem_cons_of_mem '<' List.mem_cons_self)) hc hpart

instance (content : List Char) : Decidable (IsPlainText content) :=
  decidable_of_iff' _ isPlainText_iff

/-- A text that can be printed inside raw text. -/
def IsRawText (content : List Char) : Prop :=
  ¬['<', '/'] <:+: content

/-- Events that can be printed. Texts are never empty and never side by side. An element without
    content is closed as soon as it is opened, and an element with raw text has one text at most. -/
inductive Printable : List Event → Prop where
  | nil : Printable []
  | text {content : String} {span : Span} {events : List Event}
      (hne : content ≠ "") (hcontent : IsPlainText content.toList)
      (hnext : ∀ other span', events.head? ≠ some (.text other span'))
      (hevents : Printable events) :
      Printable (.text content span :: events)
  | opened {name : String} {attributes : Attributes} {span : Span} {events : List Event}
      (htag : PrintableTag name attributes) (hvoid : Rules.isVoid {} name = false)
      (hraw : Rules.isRawText {} name = false) (hevents : Printable events) :
      Printable (.opened name attributes span :: events)
  | closed {name : String} {span : Span} {events : List Event}
      (hname : IsName name) (hvoid : Rules.isVoid {} name = false) (hevents : Printable events) :
      Printable (.closed name span :: events)
  | void {name : String} {attributes : Attributes} {span span' : Span} {events : List Event}
      (htag : PrintableTag name attributes) (hvoid : Rules.isVoid {} name = true)
      (hevents : Printable events) :
      Printable (.opened name attributes span :: .closed name span' :: events)
  | blank {name : String} {attributes : Attributes} {span span' : Span} {events : List Event}
      (htag : PrintableTag name attributes) (hraw : Rules.isRawText {} name = true)
      (hevents : Printable events) :
      Printable (.opened name attributes span :: .closed name span' :: events)
  | rawText {name content : String} {attributes : Attributes} {span span' span'' : Span}
      {events : List Event}
      (htag : PrintableTag name attributes) (hraw : Rules.isRawText {} name = true)
      (hne : content ≠ "") (hcontent : IsRawText content.toList) (hevents : Printable events) :
      Printable (.opened name attributes span :: .text content span' ::
        .closed name span'' :: events)

section Texts

/-- Texts that make up a longer one together. -/
inductive Texts : List Char → List Event → Prop where
  | nil : Texts [] []
  | cons {content : String} {span : Span} {whole rest : List Char} {events : List Event}
      (hwhole : whole = content.toList ++ rest) (hrest : Texts rest events) :
      Texts whole (.text content span :: events)

theorem joinTexts_cons_text {content : String} {span : Span} {events : List Event}
    (hnext : ∀ other span', (Event.joinTexts events).head? ≠ some (.text other span')) :
    Event.joinTexts (.text content span :: events) =
      .text content span :: Event.joinTexts events := by
  rw [Event.joinTexts]
  split
  · rename_i second span' joined hjoined
    rw [hjoined] at hnext
    exact (hnext second span' rfl).elim
  · rfl

/-- Texts side by side are joined. -/
theorem Texts.joinTexts_append {content : List Char} {texts : List Event} (h : Texts content texts)
    (hne : texts ≠ []) {events : List Event}
    (hnext : ∀ other span', (Event.joinTexts events).head? ≠ some (.text other span')) :
    ∃ span, Event.joinTexts (texts ++ events) =
      .text (String.ofList content) span :: Event.joinTexts events := by
  induction h with
  | nil => exact (hne rfl).elim
  | @cons content span whole rest texts hwhole hrest ih =>
    have hcontent : content ++ String.ofList rest = String.ofList whole := by
      rw [← String.toList_inj, hwhole]
      simp
    cases texts with
    | nil =>
      cases hrest
      refine ⟨span, ?_⟩
      rw [hwhole, List.append_nil, String.ofList_toList]
      exact joinTexts_cons_text hnext
    | cons text texts =>
      obtain ⟨span', hjoined⟩ := ih (List.cons_ne_nil _ _)
      refine ⟨Span.ofBounds span.start span'.stop, ?_⟩
      rw [List.cons_append, Event.joinTexts, hjoined, ← hcontent]

theorem IsPlainText.of_suffix {content rest : List Char} (h : IsPlainText content)
    (hrest : rest <:+ content) : IsPlainText rest := by
  refine ⟨fun hmem => h.mark (hrest.subset hmem), ?_⟩
  intro c hc hpart
  exact h.angles c hc (hpart.trans hrest.isInfix)

/-- Every angle of a plain text is stray, whatever markup is behind the text. -/
theorem angleUse_eq_stray {content rest : List Char} (hcontent : IsPlainText ('<' :: content))
    (hrest : rest = [] ∨ rest.head? = some '<') : AngleUse.of (content ++ rest) = .stray := by
  cases content with
  | nil =>
    obtain rfl | hfirst := hrest
    · rfl
    · obtain ⟨tail, rfl⟩ := List.head?_eq_some_iff.mp hfirst
      exact angleUse_cons_eq_stray (by decide) tail
  | cons c tail =>
    refine angleUse_cons_eq_stray (fun hc => ?_) (tail ++ rest)
    exact hcontent.angles c hc ⟨[], tail, rfl⟩

/-- What stands in front of `rest` is read as texts, whatever is read from `rest`. -/
def ReadsTexts (rules : Rules) (content rest : List Char) : Prop :=
  ∀ position, ∃ texts, Texts content texts ∧
    readSource rules position (content ++ rest) =
      (readSource rules (position + Text.byteLength content) rest).map (texts ++ ·)

theorem ReadsTexts.nil (rules : Rules) (rest : List Char) : ReadsTexts rules [] rest := by
  intro position
  refine ⟨[], Texts.nil, ?_⟩
  rw [List.nil_append, Text.byteLength_nil, Nat.add_zero]
  cases readSource rules position rest <;> rfl

theorem ReadsTexts.cons {rules : Rules} {first content rest : List Char}
    (hcontent : ReadsTexts rules content rest)
    (hfirst : ∀ position, readSource rules position (first ++ (content ++ rest)) =
      (readSource rules (position + Text.byteLength first) (content ++ rest)).map
        (.text (String.ofList first) (Span.ofLength position (Text.byteLength first)) :: ·)) :
    ReadsTexts rules (first ++ content) rest := by
  intro position
  obtain ⟨texts, htexts, hread⟩ := hcontent (position + Text.byteLength first)
  have hwhole : first ++ content = (String.ofList first).toList ++ content := by
    rw [String.toList_ofList]
  refine ⟨.text (String.ofList first) (Span.ofLength position (Text.byteLength first)) :: texts,
    Texts.cons hwhole htexts, ?_⟩
  rw [List.append_assoc, hfirst, hread, Text.byteLength_append, Nat.add_assoc]
  cases readSource rules (position + (Text.byteLength first + Text.byteLength content)) rest <;> rfl

/-- A plain text is read as texts, one for each stray angle and one for what lies between two. -/
theorem IsPlainText.readsTexts (rules : Rules) {content rest : List Char}
    (hcontent : IsPlainText content) (hrest : rest = [] ∨ rest.head? = some '<') :
    ReadsTexts rules content rest := by
  -- A text takes many characters at once, so the induction is on the length.
  induction hlength : content.length using Nat.strongRecOn generalizing content with
  | ind length ih =>
    cases content with
    | nil => exact ReadsTexts.nil rules rest
    | cons c tail =>
      have hshorter {behind : List Char} (hbehind : behind <:+ tail) :
          ReadsTexts rules behind rest := by
        have hlt : behind.length < length := by
          rw [← hlength, List.length_cons]
          exact Nat.lt_succ_of_le hbehind.length_le
        exact ih behind.length hlt
          (hcontent.of_suffix (hbehind.trans (List.suffix_cons c tail))) rfl
      by_cases hangle : c = '<'
      · subst hangle
        have huse := angleUse_eq_stray hcontent hrest
        change ReadsTexts rules (['<'] ++ tail) rest
        exact (hshorter (List.suffix_refl tail)).cons (readSource_stray rules huse)
      · obtain ⟨text, behind, htext, hbehind, hnone, hnext⟩ := exists_text_before_angle hangle tail
        rw [htext]
        refine (hshorter hbehind).cons
          (readSource_text rules (List.cons_ne_nil c text) hnone ?_ ?_)
        · intro hmark
          exact hcontent.mark (List.mem_of_head? hmark)
        · obtain rfl | hfirst := hnext
          · exact hrest
          · obtain ⟨after, rfl⟩ := List.head?_eq_some_iff.mp hfirst
            exact .inr rfl

end Texts

section RawText

theorem splitOnce_endTag {before : List Char} (hbefore : IsRawText before)
    (name behind : List Char) :
    Text.splitOnce ('<' :: '/' :: name) (before ++ ('<' :: '/' :: name ++ behind)) =
      some (before, behind) := by
  induction before with
  | nil =>
    have hfound : Text.dropPrefix? ('<' :: '/' :: name) ('<' :: '/' :: name ++ behind) =
        some behind := Text.dropPrefix?_eq_some_iff.mpr rfl
    rw [List.nil_append, List.cons_append, Text.splitOnce, ← List.cons_append, hfound]
  | cons c before ih =>
    have hrest : IsRawText before := fun hpart =>
      hbefore (hpart.trans (List.suffix_cons c before).isInfix)
    have hnone : Text.dropPrefix? ('<' :: '/' :: name)
        (c :: (before ++ ('<' :: '/' :: name ++ behind))) = none := by
      rw [Option.eq_none_iff_forall_ne_some]
      intro found hfound
      obtain ⟨rfl, hslash⟩ := List.cons.inj (Text.dropPrefix?_eq_some_iff.mp hfound)
      cases before with
      | nil => cases hslash
      | cons d before =>
        obtain ⟨rfl, -⟩ := List.cons.inj hslash
        exact hbefore ⟨[], before, rfl⟩
    exact Text.splitOnce_cons hnone (ih hrest)

theorem IsRawText.lower {content : List Char} (h : IsRawText content) :
    IsRawText (Text.lower content) := by
  rintro ⟨before, behind, heq⟩
  obtain ⟨rest, behind', rfl, hrest, -⟩ := List.map_eq_append_iff.mp heq.symm
  obtain ⟨before', found, rfl, -, hfound⟩ := List.map_eq_append_iff.mp hrest
  obtain ⟨angle, tail, rfl, hangle, htail⟩ := List.map_eq_cons_iff.mp hfound
  obtain ⟨slash, tail, rfl, hslash, hnil⟩ := List.map_eq_cons_iff.mp htail
  obtain rfl := List.map_eq_nil_iff.mp hnil
  rw [eq_of_toLower_eq (by decide) hangle, eq_of_toLower_eq (by decide) hslash] at h
  exact h ⟨before', behind', rfl⟩

/-- Raw text ends at the end tag that is printed behind it. -/
theorem cutRawText_printed {content : List Char} (hcontent : IsRawText content) (name : String)
    (rest : List Char) :
    cutRawText (endTagOpening name) (content ++ ('<' :: ('/' :: name.toList ++ ['>']) ++ rest)) =
      some (content, rest) := by
  have hfound : Text.splitOnce (endTagOpening name)
      (Text.lower (content ++ ('<' :: ('/' :: name.toList ++ ['>']) ++ rest))) =
      some (Text.lower content, '>' :: Text.lower rest) := by
    have hlower : Text.lower (content ++ ('<' :: ('/' :: name.toList ++ ['>']) ++ rest)) =
        Text.lower content ++ (endTagOpening name ++ '>' :: Text.lower rest) := by
      simp [Text.lower, endTagOpening]
    rw [hlower]
    exact splitOnce_endTag hcontent.lower _ _
  have hbehind : (content ++ ('<' :: ('/' :: name.toList ++ ['>']) ++ rest)).drop
      ((Text.lower content).length + (endTagOpening name).length) = '>' :: rest := by
    have hlength : (Text.lower content).length + (endTagOpening name).length =
        (content ++ '<' :: '/' :: name.toList).length := by
      simp [endTagOpening]
    have hsplit : content ++ ('<' :: ('/' :: name.toList ++ ['>']) ++ rest) =
        (content ++ '<' :: '/' :: name.toList) ++ '>' :: rest := by
      simp
    rw [hlength, hsplit, List.drop_left]
  rw [cutRawText]
  split
  · rename_i hnone
    rw [hfound] at hnone
    cases hnone
  · rename_i before after hsome
    rw [hfound] at hsome
    cases hsome
    dsimp only
    have hends : Option.any endsRawName ('>' :: rest).head? = true := rfl
    rw [hbehind, if_pos hends, Text.length_lower, List.take_left]
    rfl

end RawText

/-- The markup of events. -/
def printed (events : List Event) : List Char :=
  events.flatMap (·.display.toList)

theorem toList_displayAll (events : List Event) :
    (Event.displayAll events).toList = printed events := by
  simp [Event.displayAll, printed, List.flatMap_map]

theorem printed_cons (event : Event) (events : List Event) :
    printed (event :: events) = event.display.toList ++ printed events :=
  List.flatMap_cons

/-- What is read from a text is what is given, except for the places. -/
def ReadsAs (cs : List Char) (events : List Event) : Prop :=
  ∀ position, ∃ pieces, readSource {} position cs = .ok pieces ∧
    (Event.joinTexts pieces).map Event.unplaced = events.map Event.unplaced

theorem head?_printed_of_tag {event : Event} {tag : List Char}
    (htag : event.display.toList = '<' :: tag) (later : List Event) :
    (printed (event :: later)).head? = some '<' := by
  rw [printed_cons, htag]
  rfl

theorem Printable.angle_of_no_text {events : List Event} (h : Printable events)
    (hnone : ∀ content span, events.head? ≠ some (.text content span)) :
    printed events = [] ∨ (printed events).head? = some '<' := by
  cases h with
  | nil => exact .inl rfl
  | text => exact (hnone _ _ rfl).elim
  | opened => exact .inr (head?_printed_of_tag (toList_display_opened _ _ _) _)
  | closed => exact .inr (head?_printed_of_tag (toList_display_closed _ _) _)
  | void => exact .inr (head?_printed_of_tag (toList_display_opened _ _ _) _)
  | blank => exact .inr (head?_printed_of_tag (toList_display_opened _ _ _) _)
  | rawText => exact .inr (head?_printed_of_tag (toList_display_opened _ _ _) _)

theorem Printable.head?_ne_mark {events : List Event} (h : Printable events) :
    (printed events).head? ≠ some byteOrderMark := by
  by_cases hnone : ∀ content span, events.head? ≠ some (.text content span)
  · exact ne_mark_of_angle (h.angle_of_no_text hnone)
  · simp only [Classical.not_forall, Classical.not_not] at hnone
    obtain ⟨content, span, hfirst⟩ := hnone
    obtain ⟨later, rfl⟩ := List.head?_eq_some_iff.mp hfirst
    cases h with
    | text hne hcontent hnext hevents =>
      obtain ⟨c, tail, hlist⟩ := List.exists_cons_of_ne_nil (mt String.toList_eq_nil_iff.mp hne)
      have hdisplay : (Event.text content span).display.toList = c :: tail := hlist
      intro hmark
      rw [printed_cons, hdisplay] at hmark
      refine hcontent.mark ?_
      rw [hlist, ← Option.some.inj hmark]
      exact List.mem_cons_self

theorem joinTexts_tags_append {tags : List Event} (htags : ∀ tag ∈ tags, tag.IsTag)
    (events : List Event) :
    Event.joinTexts (tags ++ events) = tags ++ Event.joinTexts events := by
  induction tags with
  | nil => rfl
  | cons tag tags ih =>
    have hrest := ih fun later hlater => htags later (List.mem_cons_of_mem tag hlater)
    cases tag with
    | opened name attributes span => exact congrArg _ hrest
    | closed name span => exact congrArg _ hrest
    | text content span => exact (htags _ List.mem_cons_self content span rfl).elim

theorem isVoid_of_isRawText {name : String} (hraw : Rules.isRawText {} name = true) :
    Rules.isVoid {} name = false := by
  have hdisjoint : ∀ name ∈ rawTextNames, voidNames.contains name = false := by decide
  have hmem : Text.lowercase name ∈ rawTextNames := by
    simpa [Rules.isRawText] using hraw
  simp only [Rules.isVoid, hdisjoint _ hmem, Bool.and_false]

theorem joinTexts_rawTextEvents_append (name : String) (position : Nat)
    (scanned content rest : List Char) (events : List Event) :
    let raw := (rawTextEvents name position scanned content rest).1
    Event.joinTexts (raw ++ events) = raw ++ Event.joinTexts events := by
  simp only [rawTextEvents]
  split
  · rfl
  · refine joinTexts_cons_text fun other span' htext => ?_
    cases htext

theorem head?_of_unplaced {read events : List Event}
    (hsame : read.map Event.unplaced = events.map Event.unplaced)
    (hnone : ∀ content span, events.head? ≠ some (.text content span)) (content : String)
    (span : Span) : read.head? ≠ some (.text content span) := by
  intro hread
  have hhead : events.head?.map Event.unplaced = some (.text content (Span.point 0)) := by
    rw [← List.head?_map, ← hsame, List.head?_map, hread]
    rfl
  obtain ⟨event, hevent, htext⟩ := Option.map_eq_some_iff.mp hhead
  cases event with
  | text other span' => exact hnone other span' hevent
  | opened => cases htext
  | closed => cases htext

namespace ReadsAs

variable {rest : List Char} {events : List Event}

/-- Plain text in front of markup is read as one text. -/
theorem of_plainText (hrest : ReadsAs rest events) {content : String} (hne : content ≠ "")
    (hcontent : IsPlainText content.toList) (hangle : rest = [] ∨ rest.head? = some '<')
    (hnext : ∀ other span, events.head? ≠ some (.text other span)) (span : Span) :
    ReadsAs (content.toList ++ rest) (.text content span :: events) := by
  intro position
  obtain ⟨texts, htexts, hread⟩ := hcontent.readsTexts {} hangle position
  obtain ⟨pieces, hpieces, hsame⟩ := hrest (position + Text.byteLength content.toList)
  have htexts_ne : texts ≠ [] := by
    rintro rfl
    obtain ⟨c, tail, hlist⟩ := List.exists_cons_of_ne_nil (mt String.toList_eq_nil_iff.mp hne)
    rw [hlist] at htexts
    cases htexts
  obtain ⟨joined, hjoined⟩ := htexts.joinTexts_append htexts_ne (head?_of_unplaced hsame hnext)
  refine ⟨texts ++ pieces, ?_, ?_⟩
  · rw [hread, hpieces]
    rfl
  · rw [hjoined, List.map_cons, hsame, String.ofList_toList]
    rfl

/-- A tag in front of markup is read as the events that it stands for. -/
theorem of_leads (hrest : ReadsAs rest events) {head : List Char} {piece : Piece}
    (hleads : Leads head rest piece) (hmark : rest.head? ≠ some byteOrderMark)
    (hraw : piece.rawText? {} = none) (shown : List Event)
    (hshown : ∀ span, (∀ tag ∈ piece.events {} span, tag.IsTag) ∧
      (piece.events {} span).map Event.unplaced = shown.map Event.unplaced) :
    ReadsAs (head ++ rest) (shown ++ events) := by
  intro position
  let span := Span.ofLength position (Text.byteLength head)
  obtain ⟨pieces, hread, hsame⟩ := hrest (position + Text.byteLength head)
  obtain ⟨htags, htag⟩ := hshown span
  refine ⟨piece.events {} span ++ pieces, ?_, ?_⟩
  · rw [hleads.readSource_eq hmark hraw, hread]
    rfl
  · rw [joinTexts_tags_append htags, List.map_append, List.map_append, htag, hsame]

/-- An element with raw text is read up to its end tag, whatever its text looks like. -/
theorem of_rawText (hrest : ReadsAs rest events) {name : String} {attributes : Attributes}
    (htag : PrintableTag name attributes) (hraw : Rules.isRawText {} name = true)
    (content : List Char) (hcontent : IsRawText content) (span : Span) (shown : List Event)
    (hshown : ∀ position scanned rest, (rawTextEvents name position scanned content rest).1.map
      Event.unplaced = shown.map Event.unplaced) :
    ReadsAs ('<' :: (printedTag name attributes ++ ['>']) ++
        (content ++ ('<' :: ('/' :: name.toList ++ ['>']) ++ rest)))
      (.opened name attributes span :: (shown ++ events)) := by
  intro position
  let behind := content ++ ('<' :: ('/' :: name.toList ++ ['>']) ++ rest)
  let tag := Span.ofLength position (Text.byteLength ('<' :: (printedTag name attributes ++ ['>'])))
  let raw := rawTextEvents name tag.stop behind content rest
  have hvoid := isVoid_of_isRawText hraw
  have hrawText : Piece.rawText? {} (.startTag ⟨name, attributes, false⟩) = some name := by
    simp [Piece.rawText?, hvoid, hraw]
  have hevents : Piece.events {} tag (.startTag ⟨name, attributes, false⟩) =
      [.opened name attributes tag] := by
    simp [Piece.events, hvoid]
  -- Whatever the text looks like, its first `</` is the one that was printed behind it.
  have hread := (leads_printedTag htag behind).readSource_rawText_eq hrawText position
  rw [cutRawText_printed hcontent name rest] at hread
  obtain ⟨pieces, hpieces, hsame⟩ := hrest raw.2
  refine ⟨.opened name attributes tag :: (raw.1 ++ pieces), ?_, ?_⟩
  · rw [hread]
    dsimp only
    rw [hpieces, hevents]
    rfl
  · have hjoined : Event.joinTexts (.opened name attributes tag :: (raw.1 ++ pieces)) =
        .opened name attributes tag :: (raw.1 ++ Event.joinTexts pieces) :=
      congrArg _ (joinTexts_rawTextEvents_append _ _ _ _ _ pieces)
    rw [hjoined, List.map_cons, List.map_append, hshown, hsame, List.map_cons, List.map_append]
    rfl

end ReadsAs

theorem Printable.readsAs {events : List Event} (h : Printable events) :
    ReadsAs (printed events) events := by
  induction h with
  | nil =>
    intro position
    exact ⟨[], readSource_nil {} position, rfl⟩
  | @text content span events hne hcontent hnext hevents ih =>
    rw [printed_cons]
    exact ih.of_plainText hne hcontent (hevents.angle_of_no_text hnext) hnext span
  | @opened name attributes span events htag hvoid hraw hevents ih =>
    rw [printed_cons, toList_display_opened]
    refine ih.of_leads (leads_printedTag htag _) hevents.head?_ne_mark
      (by simp [Piece.rawText?, hraw]) [.opened name attributes span] fun span' => ?_
    simp [Piece.events, hvoid, Event.IsTag, Event.unplaced]
  | @closed name span events hname hvoid hevents ih =>
    rw [printed_cons, toList_display_closed]
    refine ih.of_leads (leads_endTag hname _) hevents.head?_ne_mark rfl [.closed name span]
      fun span' => ?_
    simp [Piece.events, hvoid, Event.IsTag, Event.unplaced]
  | @void name attributes span span' events htag hvoid hevents ih =>
    -- The end tag of an element without content says nothing, since the start tag closes it.
    have hclosed := ih.of_leads (leads_endTag htag.name _) hevents.head?_ne_mark rfl []
      fun span => by simp [Piece.events, hvoid]
    rw [printed_cons, toList_display_opened, printed_cons, toList_display_closed]
    refine hclosed.of_leads (leads_printedTag htag _) (by simp [byteOrderMark])
      (by simp [Piece.rawText?, hvoid])
      [.opened name attributes span, .closed name span'] fun span => ?_
    simp [Piece.events, hvoid, Event.IsTag, Event.unplaced]
  | @blank name attributes span span' events htag hraw hevents ih =>
    rw [printed_cons, toList_display_opened, printed_cons, toList_display_closed]
    refine ih.of_rawText htag hraw [] (by simp [IsRawText]) span
      [.closed name span'] fun position scanned rest => ?_
    simp [rawTextEvents, Event.unplaced]
  | @rawText name content attributes span span' span'' events htag hraw hne hcontent hevents ih =>
    rw [printed_cons, toList_display_opened, printed_cons, printed_cons, toList_display_closed]
    refine ih.of_rawText htag hraw _ hcontent span [.text content span', .closed name span'']
      fun position scanned rest => ?_
    simp [rawTextEvents, Event.unplaced, hne]

/-- Reading the markup of printable events gives the same events. -/
theorem tokenize_displayAll (events : List Event) (hevents : Printable events) :
    ∃ read, tokenize {} (Event.displayAll events) = .ok read ∧
      read.map Event.unplaced = events.map Event.unplaced := by
  obtain ⟨pieces, hread, hsame⟩ := hevents.readsAs 0
  refine ⟨Event.joinTexts pieces, ?_, hsame⟩
  rw [tokenize, toList_displayAll, hread]
  rfl

/-- A text with stray angles, a value with an angle and a quote, an element without content, and a
    script with markup in it. -/
theorem tokenize_displayAll_script :
    let here := Span.point 0
    let events : List Event :=
      [.text "a < b & <" here, .opened "p" ⟨[("title", "1 > '0'")], by decide⟩ here,
        .opened "br" .empty here, .closed "br" here, .closed "p" here,
        .opened "script" .empty here, .text "if (a<b) f('<p>')" here, .closed "script" here]
    Event.displayAll events =
        "a < b & <<p title=\"1 > '0'\"><br></br></p><script>if (a<b) f('<p>')</script>" ∧
      Printable events ∧
      ∃ read, tokenize {} (Event.displayAll events) = .ok read ∧
        read.map Event.unplaced = events := by
  intro here events
  have hp : PrintableTag "p" ⟨[("title", "1 > '0'")], by decide⟩ := by
    refine ⟨by decide +kernel, ?_, by simp⟩
    exact List.forall_mem_singleton.mpr (by decide +kernel)
  have hbare (name : String) (hname : IsName name) : PrintableTag name .empty :=
    ⟨hname, by simp [Attributes.empty], by simp [Attributes.empty]⟩
  have hbr := hbare "br" (by decide +kernel)
  have hscript := hbare "script" (by decide +kernel)
  have hevents : Printable events := by
    have hcode : IsRawText "if (a<b) f('<p>')".toList := by
      rw [IsRawText]
      decide +kernel
    refine .text (by decide) (by decide +kernel) (by simp) ?_
    refine .opened hp (by decide +kernel) (by decide +kernel) ?_
    refine .void hbr (by decide +kernel) (.closed hp.name (by decide +kernel) ?_)
    exact .rawText hscript (by decide +kernel) (by decide) hcode .nil
  refine ⟨by decide +kernel, hevents, ?_⟩
  obtain ⟨read, hread, hsame⟩ := tokenize_displayAll events hevents
  exact ⟨read, hread, hsame⟩

end TemplateCompiler.Markup
