import TemplateCompiler.Markup.Tokens
import TemplateCompiler.Proofs.FirstOccurrence

namespace TemplateCompiler.Markup

theorem exists_of_map_eq_ok {ε α β : Type} {result : Except ε α} {f : α → β} {b : β}
    (h : result.map f = .ok b) : ∃ a, result = .ok a ∧ f a = b := by
  cases result with
  | error e => cases h
  | ok a => exact ⟨a, rfl, Except.ok.inj h⟩

/-- An event is no text. -/
def Event.IsTag (event : Event) : Prop :=
  ∀ content span, event ≠ .text content span

theorem Event.isTag_opened (name : String) (attributes : Attributes) (span : Span) :
    (opened name attributes span).IsTag := by
  intro content span' hsame
  cases hsame

theorem Event.isTag_closed (name : String) (span : Span) : (closed name span).IsTag := by
  intro content span' hsame
  cases hsame

theorem bytesRead_append (cs rest : List Char) :
    bytesRead (cs ++ rest) rest = Text.byteLength cs := by
  rw [bytesRead, Text.byteLength_append]
  omega

theorem splitAtByte?_append (cs rest : List Char) (position : Nat) :
    Text.splitAtByte? (Text.byteLength cs + position) (cs ++ rest) =
      (Text.splitAtByte? position rest).map fun (before, behind) => (cs ++ before, behind) := by
  induction cs with
  | nil => simp
  | cons c cs ih =>
    have hpos : 0 < c.utf8Size := c.utf8Size_pos
    obtain ⟨before, hbefore⟩ : ∃ before, c.utf8Size = before + 1 :=
      ⟨c.utf8Size - 1, by omega⟩
    have hsum : Text.byteLength (c :: cs) + position =
        before + (Text.byteLength cs + position) + 1 := by
      rw [Text.byteLength_cons]
      omega
    have hbehind : before + (Text.byteLength cs + position) + 1 - c.utf8Size =
        Text.byteLength cs + position := by
      omega
    rw [hsum, List.cons_append, Text.splitAtByte?, if_pos (by omega), hbehind, ih, Option.map_map]
    rfl

theorem splitAtByte?_byteLength (cs rest : List Char) :
    Text.splitAtByte? (Text.byteLength cs) (cs ++ rest) = some (cs, rest) := by
  have hsplit := splitAtByte?_append cs rest 0
  have hstart : Text.splitAtByte? 0 rest = some ([], rest) := by
    cases rest <;> rfl
  rw [Nat.add_zero, hstart] at hsplit
  simpa using hsplit

/-- A character before the small letters has no capital form. -/
theorem eq_of_toLower_eq {c d : Char} (hd : d.val.toNat < 97) (h : c.toLower = d) : c = d := by
  unfold Char.toLower at h
  split at h
  · rename_i hupper
    have hlow : 65 ≤ c.val.toNat := UInt32.le_iff_toNat_le.mp hupper.1
    have hhigh : c.val.toNat ≤ 90 := UInt32.le_iff_toNat_le.mp hupper.2
    have hval : (c.val + 32).toNat = d.val.toNat := congrArg (fun d : Char => d.val.toNat) h
    have hstep : (32 : UInt32).toNat = 32 := rfl
    rw [UInt32.toNat_add] at hval
    omega
  · exact h

section Slices

variable {rules : Rules} {position : Nat} {cs : List Char} {events : List Event}

theorem readSource_of_error {failure : Failure}
    (h : readSlice rules position (dropByteOrderMark (sliceBeforeStray cs)) = .error failure) :
    readSource rules position cs = .error failure := by
  rw [readSource, h]

theorem readSource_of_exhausted
    (h : readSlice rules position (dropByteOrderMark (sliceBeforeStray cs)) =
      .ok (events, .exhausted)) :
    readSource rules position cs =
      match splitAtStray cs with
      | none => .ok events
      | some (slice, beyond) =>
        (readSource rules (position + Text.byteLength slice + 1) beyond).map fun following =>
          events ++ .text "<" (Span.ofLength (position + Text.byteLength slice) 1) :: following := by
  rw [readSource, h]
  dsimp only
  split
  · rename_i hstray
    rw [hstray]
  · rename_i hstray
    rw [hstray]

theorem readSource_of_rawText {name : String} {tag : Span}
    (h : readSlice rules position (dropByteOrderMark (sliceBeforeStray cs)) =
      .ok (events, .rawText name tag)) :
    readSource rules position cs =
      match Text.splitAtByte? (tag.stop - position) cs with
      | none => .error (.insideCharacter tag.stop)
      | some (_, scanned) =>
        match cutRawText (endTagOpening name) scanned with
        | none => .error (.reported ⟨.unterminatedRawText name, tag⟩)
        | some (content, rest) =>
          (readSource rules (rawTextEvents name tag.stop scanned content rest).2 rest).map
            fun following =>
              events ++ (rawTextEvents name tag.stop scanned content rest).1 ++ following := by
  rw [readSource, h]
  dsimp only
  split
  · rename_i hsplit
    rw [hsplit]
  · rename_i hsplit
    rw [hsplit]
    dsimp only
    split
    · rename_i hraw
      rw [hraw]
    · rename_i hraw
      rw [hraw]

end Slices

/-- The mark is only looked for at the start of a slice. -/
theorem dropByteOrderMark_of_head? {cs : List Char} (h : cs.head? ≠ some byteOrderMark) :
    dropByteOrderMark cs = cs := by
  cases cs with
  | nil => rfl
  | cons c cs =>
    rw [dropByteOrderMark, if_neg]
    intro hc
    exact h (congrArg some hc)

theorem sliceBeforeStray_prefix (cs : List Char) : sliceBeforeStray cs <+: cs := by
  unfold sliceBeforeStray
  split
  · rename_i slice beyond hstray
    exact ⟨'<' :: beyond, (eq_append_of_splitAtStray hstray).symm⟩
  · exact List.prefix_refl cs

theorem dropByteOrderMark_sliceBeforeStray {cs : List Char} (h : cs.head? ≠ some byteOrderMark) :
    dropByteOrderMark (sliceBeforeStray cs) = sliceBeforeStray cs := by
  apply dropByteOrderMark_of_head?
  obtain ⟨behind, hcs⟩ := sliceBeforeStray_prefix cs
  cases hslice : sliceBeforeStray cs with
  | nil => simp
  | cons c slice =>
    rw [hslice] at hcs
    rw [← hcs] at h
    exact h

theorem readSlice_nil (rules : Rules) (position : Nat) :
    readSlice rules position [] = .ok ([], .exhausted) := by
  rw [readSlice]

theorem readSlice_of_read (rules : Rules) {head slice : List Char} {piece : Piece}
    (hhead : head ≠ []) (hread : Piece.read (head ++ slice) = .ok (piece, slice)) (position : Nat) :
    readSlice rules position (head ++ slice) =
      match piece.rawText? rules with
      | some name =>
        .ok (piece.events rules (Span.ofLength position (Text.byteLength head)),
          .rawText name (Span.ofLength position (Text.byteLength head)))
      | none =>
        (readSlice rules (position + Text.byteLength head) slice).map fun (events, stop) =>
          (piece.events rules (Span.ofLength position (Text.byteLength head)) ++ events, stop) := by
  have hbytes := bytesRead_append head slice
  obtain ⟨c, tail, rfl⟩ := List.exists_cons_of_ne_nil hhead
  rw [List.cons_append] at hread hbytes ⊢
  rw [readSlice]
  split
  · rename_i hrefused
    rw [hread] at hrefused
    cases hrefused
  · rename_i piece' rest hread'
    rw [hread] at hread'
    cases hread'
    rw [hbytes]
    rfl

theorem readSlice_of_refused (rules : Rules) {c : Char} {tail : List Char} {refusal : Refusal}
    (hread : Piece.read (c :: tail) = .error refusal) (position : Nat) :
    ∃ failure, readSlice rules position (c :: tail) = .error failure := by
  rw [readSlice]
  split
  · exact ⟨_, rfl⟩
  · rename_i hread'
    rw [hread] at hread'
    cases hread'

/-- What follows a slice lies behind its start. -/
theorem le_stop_of_readSlice {rules : Rules} {position : Nat} {cs : List Char}
    {events : List Event} {name : String} {tag : Span}
    (h : readSlice rules position cs = .ok (events, .rawText name tag)) : position ≤ tag.stop := by
  fun_induction readSlice rules position cs generalizing events with
  | case1 => cases h
  | case2 => cases h
  | case3 position c tail piece rest hread span name' =>
    obtain ⟨-, hstop⟩ := Prod.mk.inj (Except.ok.inj h)
    obtain ⟨-, rfl⟩ := SliceEnd.rawText.inj hstop
    exact Nat.le_add_right position _
  | case4 position c tail piece rest hread span =>
    rename_i ih
    obtain ⟨⟨following, stop⟩, hslice, hpair⟩ := exists_of_map_eq_ok h
    cases hpair
    exact Nat.le_trans (Nat.le_add_right position _) (ih hslice)

theorem sliceBeforeStray_append {head rest : List Char}
    (hstray : splitAtStray (head ++ rest) =
      (splitAtStray rest).map fun (slice, beyond) => (head ++ slice, beyond)) :
    sliceBeforeStray (head ++ rest) = head ++ sliceBeforeStray rest := by
  unfold sliceBeforeStray
  rw [hstray]
  cases splitAtStray rest <;> rfl

/-- A piece of markup that is read from a source by its first characters alone: the first stray angle
    lies behind them, and wherever the slice ends behind them, they are read as the piece. -/
structure Leads (head rest : List Char) (piece : Piece) : Prop where
  ne_nil : head ≠ []
  head_ne_mark : head.head? ≠ some byteOrderMark
  stray : splitAtStray (head ++ rest) =
    (splitAtStray rest).map fun (slice, beyond) => (head ++ slice, beyond)
  read : Piece.read (head ++ sliceBeforeStray rest) = .ok (piece, sliceBeforeStray rest)

namespace Leads

variable {rules : Rules} {head rest : List Char} {piece : Piece}

theorem slice_eq (h : Leads head rest piece) :
    dropByteOrderMark (sliceBeforeStray (head ++ rest)) = head ++ sliceBeforeStray rest := by
  have hmark : (head ++ rest).head? ≠ some byteOrderMark := by
    obtain ⟨c, tail, rfl⟩ := List.exists_cons_of_ne_nil h.ne_nil
    exact h.head_ne_mark
  rw [dropByteOrderMark_sliceBeforeStray hmark, sliceBeforeStray_append h.stray]

/-- A piece that opens no raw text is taken off the source. -/
theorem readSource_eq (h : Leads head rest piece) (hmark : rest.head? ≠ some byteOrderMark)
    (hraw : piece.rawText? rules = none) (position : Nat) :
    readSource rules position (head ++ rest) =
      (readSource rules (position + Text.byteLength head) rest).map
        (piece.events rules (Span.ofLength position (Text.byteLength head)) ++ ·) := by
  have hread := readSlice_of_read rules h.ne_nil h.read position
  rw [hraw, ← dropByteOrderMark_sliceBeforeStray hmark] at hread
  -- The slice of the whole source is the piece with the slice of the rest behind it, so both readings
  -- end in the same way.
  have hslice := h.slice_eq
  rw [← dropByteOrderMark_sliceBeforeStray hmark] at hslice
  rw [← hslice] at hread
  cases hrest : readSlice rules (position + Text.byteLength head)
      (dropByteOrderMark (sliceBeforeStray rest)) with
  | error failure =>
    rw [hrest] at hread
    rw [readSource_of_error hread, readSource_of_error hrest]
    rfl
  | ok pair =>
    obtain ⟨events, stop⟩ := pair
    rw [hrest] at hread
    cases stop with
    | exhausted =>
      rw [readSource_of_exhausted hread, readSource_of_exhausted hrest, h.stray]
      cases splitAtStray rest with
      | none => rfl
      | some pair =>
        obtain ⟨slice, beyond⟩ := pair
        have hangle : position + Text.byteLength (head ++ slice) =
            position + Text.byteLength head + Text.byteLength slice := by
          rw [Text.byteLength_append]
          omega
        simp only [Option.map_some, hangle]
        cases readSource rules (position + Text.byteLength head + Text.byteLength slice + 1) beyond with
        | error failure => rfl
        | ok following => simp [Except.map]
    | rawText name tag =>
      have hstop := le_stop_of_readSlice hrest
      have hsplit : tag.stop - position =
          Text.byteLength head + (tag.stop - (position + Text.byteLength head)) := by
        omega
      rw [readSource_of_rawText hread, readSource_of_rawText hrest, hsplit, splitAtByte?_append]
      cases Text.splitAtByte? (tag.stop - (position + Text.byteLength head)) rest with
      | none => rfl
      | some pair =>
        obtain ⟨before, scanned⟩ := pair
        simp only [Option.map_some]
        cases cutRawText (endTagOpening name) scanned with
        | none => rfl
        | some pair =>
          obtain ⟨content, behind⟩ := pair
          dsimp only
          cases readSource rules (rawTextEvents name tag.stop scanned content behind).2 behind with
          | error failure => rfl
          | ok following => simp [Except.map]

/-- Behind the start tag of a raw text element its end tag is looked for. -/
theorem readSource_rawText_eq (h : Leads head rest piece) {name : String}
    (hraw : piece.rawText? rules = some name) (position : Nat) :
    let span := Span.ofLength position (Text.byteLength head)
    readSource rules position (head ++ rest) =
      match cutRawText (endTagOpening name) rest with
      | none => .error (.reported ⟨.unterminatedRawText name, span⟩)
      | some (content, behind) =>
        (readSource rules (rawTextEvents name span.stop rest content behind).2 behind).map
          fun following =>
            piece.events rules span ++ (rawTextEvents name span.stop rest content behind).1 ++
              following := by
  intro span
  have hread := readSlice_of_read rules h.ne_nil h.read position
  rw [hraw, ← h.slice_eq] at hread
  have hstop : span.stop - position = Text.byteLength head :=
    Nat.add_sub_cancel_left position (Text.byteLength head)
  rw [readSource_of_rawText hread, hstop, splitAtByte?_byteLength]

end Leads

section Text

theorem splitAtStray_eq_none {cs : List Char} (hangle : '<' ∉ cs) : splitAtStray cs = none := by
  rw [splitAtStray]
  split
  · rfl
  · rename_i hcut
    rw [Text.splitOnce_singleton_eq_none_iff.mpr hangle] at hcut
    cases hcut

theorem splitAtStray_of_splitOnce {cs before rest : List Char}
    (hangle : Text.splitOnce ['<'] cs = some (before, rest)) :
    splitAtStray cs =
      match AngleUse.of rest with
      | .stray => some (before, rest)
      | .unfinished => none
      | .markup piece behind =>
        (splitAtStray behind).map fun (slice, beyond) =>
          (before ++ '<' :: piece ++ slice, beyond) := by
  rw [splitAtStray]
  split
  · rename_i hnone
    rw [hangle] at hnone
    cases hnone
  · rename_i before' rest' hsome
    rw [hangle] at hsome
    cases hsome
    split
    · rename_i huse
      rw [huse]
    · rename_i huse
      rw [huse]
    · rename_i huse
      rw [huse]

theorem splitAtStray_angle (rest : List Char) :
    splitAtStray ('<' :: rest) =
      match AngleUse.of rest with
      | .stray => some ([], rest)
      | .unfinished => none
      | .markup piece behind =>
        (splitAtStray behind).map fun (slice, beyond) => ('<' :: piece ++ slice, beyond) :=
  splitAtStray_of_splitOnce rfl

theorem angleUse_cons_eq_stray {c : Char} (hc : ¬(c.isAlpha = true ∨ c ∈ ['/', '!', '?']))
    (tail : List Char) : AngleUse.of (c :: tail) = .stray := by
  simp only [List.mem_cons, List.not_mem_nil, or_false, not_or] at hc
  obtain ⟨halpha, hslash, hdeclaration, hinstruction⟩ := hc
  rw [AngleUse.of, if_neg, if_pos hdeclaration]
  rintro (hc | hc | hc)
  · exact halpha hc
  · exact hslash hc
  · exact hinstruction hc

/-- A text goes on to the next angle. -/
theorem exists_text_before_angle {c : Char} (hc : c ≠ '<') (tail : List Char) :
    ∃ text rest, c :: tail = c :: text ++ rest ∧ rest <:+ tail ∧ '<' ∉ c :: text ∧
      (rest = [] ∨ rest.head? = some '<') := by
  refine ⟨tail.takeWhile (· != '<'), tail.dropWhile (· != '<'), ?_, List.dropWhile_suffix _, ?_, ?_⟩
  · rw [List.cons_append, List.takeWhile_append_dropWhile]
  · intro hmem
    obtain heq | hmem := List.mem_cons.mp hmem
    · exact hc heq.symm
    · simpa using List.all_eq_true.mp List.all_takeWhile _ hmem
  · cases hdrop : tail.dropWhile (· != '<') with
    | nil => exact .inl rfl
    | cons d rest =>
      have hd := List.head?_dropWhile_not (· != '<') tail
      rw [hdrop] at hd
      simpa using hd

/-- The search for a stray angle passes over a text without angles. -/
theorem splitAtStray_append {text : List Char} (hangle : '<' ∉ text) (rest : List Char) :
    splitAtStray (text ++ rest) =
      (splitAtStray rest).map fun (slice, beyond) => (text ++ slice, beyond) := by
  cases hrest : Text.splitOnce ['<'] rest with
  | none =>
    have hnone := Text.splitOnce_singleton_eq_none_iff.mp hrest
    have hboth : '<' ∉ text ++ rest := by simp [hangle, hnone]
    rw [splitAtStray_eq_none hnone, splitAtStray_eq_none hboth, Option.map_none]
  | some cut =>
    obtain ⟨before, inner⟩ := cut
    obtain ⟨rfl, hbefore⟩ := Text.splitOnce_singleton_eq_some_iff.mp hrest
    have hcut : Text.splitOnce ['<'] (text ++ (before ++ '<' :: inner)) =
        some (text ++ before, inner) :=
      Text.splitOnce_singleton_eq_some_iff.mpr ⟨by simp, by simp [hangle, hbefore]⟩
    rw [splitAtStray_of_splitOnce hrest, splitAtStray_of_splitOnce hcut]
    cases AngleUse.of inner with
    | stray => rfl
    | unfinished => rfl
    | markup piece behind => simp [Function.comp_def]

theorem ne_mark_of_angle {rest : List Char} (hrest : rest = [] ∨ rest.head? = some '<') :
    rest.head? ≠ some byteOrderMark := by
  obtain rfl | hfirst := hrest
  · simp
  · rw [hfirst]
    decide

theorem leads_text {text rest : List Char} (hne : text ≠ []) (hangle : '<' ∉ text)
    (hmark : text.head? ≠ some byteOrderMark) (hrest : rest = [] ∨ rest.head? = some '<') :
    Leads text rest (.text text) := by
  refine ⟨hne, hmark, splitAtStray_append hangle rest, ?_⟩
  have hslice : sliceBeforeStray rest = [] ∨ (sliceBeforeStray rest).head? = some '<' := by
    obtain ⟨behind, hbehind⟩ := sliceBeforeStray_prefix rest
    cases hslice : sliceBeforeStray rest with
    | nil => exact .inl rfl
    | cons c slice =>
      rw [hslice] at hbehind
      rw [← hbehind] at hrest
      simpa using hrest
  generalize sliceBeforeStray rest = slice at hslice
  have hall : ∀ c ∈ text, (c != '<') = true := by
    intro c hc
    rw [bne_iff_ne]
    rintro rfl
    exact hangle hc
  have hnone : slice.takeWhile (· != '<') = [] ∧ slice.dropWhile (· != '<') = slice := by
    obtain rfl | hfirst := hslice
    · exact ⟨rfl, rfl⟩
    · obtain ⟨tail, rfl⟩ := List.head?_eq_some_iff.mp hfirst
      exact ⟨rfl, rfl⟩
  rw [Piece.read.eq_def]
  split
  · rename_i rest' heq
    obtain ⟨c, tail, rfl⟩ := List.exists_cons_of_ne_nil hne
    obtain ⟨rfl, -⟩ := List.cons.inj heq
    exact (hangle List.mem_cons_self).elim
  · rw [List.takeWhile_append_of_pos hall, List.dropWhile_append_of_pos hall, hnone.1, hnone.2,
      List.append_nil]

/-- A text in front of an angle is taken off the source. -/
theorem readSource_text (rules : Rules) {text rest : List Char} (hne : text ≠ [])
    (hangle : '<' ∉ text) (hmark : text.head? ≠ some byteOrderMark)
    (hrest : rest = [] ∨ rest.head? = some '<') (position : Nat) :
    readSource rules position (text ++ rest) =
      (readSource rules (position + Text.byteLength text) rest).map
        (.text (String.ofList text) (Span.ofLength position (Text.byteLength text)) :: ·) :=
  (leads_text hne hangle hmark hrest).readSource_eq (ne_mark_of_angle hrest) rfl position

theorem readSource_nil (rules : Rules) (position : Nat) :
    readSource rules position [] = .ok [] := by
  have hstray : splitAtStray [] = none := splitAtStray_eq_none List.not_mem_nil
  have hslice : sliceBeforeStray [] = [] := by
    rw [sliceBeforeStray, hstray]
  have hread : readSlice rules position (dropByteOrderMark (sliceBeforeStray [])) =
      .ok ([], .exhausted) := by
    rw [hslice]
    exact readSlice_nil rules position
  rw [readSource_of_exhausted hread, hstray]

/-- A stray angle is a text of its own. -/
theorem readSource_stray (rules : Rules) {rest : List Char} (huse : AngleUse.of rest = .stray)
    (position : Nat) :
    readSource rules position ('<' :: rest) =
      (readSource rules (position + 1) rest).map
        (.text "<" (Span.ofLength position 1) :: ·) := by
  have hstray : splitAtStray ('<' :: rest) = some ([], rest) := by
    rw [splitAtStray_angle, huse]
  have hslice : sliceBeforeStray ('<' :: rest) = [] := by
    rw [sliceBeforeStray, hstray]
  have hread : readSlice rules position (dropByteOrderMark (sliceBeforeStray ('<' :: rest))) =
      .ok ([], .exhausted) := by
    rw [hslice]
    exact readSlice_nil rules position
  rw [readSource_of_exhausted hread, hstray]
  rfl

end Text

section Tag

/-- What is read from between the angles of a tag. -/
def tagPiece (content : List Char) : Except Fault Piece :=
  match Text.dropPrefix? ['/'] content with
  | some name => .ok (.endTag (endTagName name))
  | none => (StartTag.read content).map .startTag

theorem readTag_of_cutTag {cs content behind : List Char}
    (hcut : cutTag none cs = .ok (content, behind)) :
    Piece.readTag cs =
      match tagPiece content with
      | .ok piece => .ok (piece, behind)
      | .error fault => .error ⟨fault, behind⟩ := by
  rw [Piece.readTag, hcut, tagPiece]
  dsimp only
  cases Text.dropPrefix? ['/'] content with
  | some name => rfl
  | none => cases StartTag.read content <;> rfl

/-- Where a tag ends does not depend on what is behind it. -/
theorem cutTag_append {quote : Option Char} {cs content behind : List Char}
    (hcut : cutTag quote cs = .ok (content, behind)) (other : List Char) :
    cutTag quote (content ++ '>' :: other) = .ok (content, other) := by
  induction cs generalizing quote content with
  | nil => cases hcut
  | cons c cs ih =>
    rw [cutTag] at hcut
    split at hcut
    · rename_i hend
      cases hcut
      rw [List.nil_append, cutTag, if_pos ⟨hend.1, rfl⟩]
    · rename_i hinside
      cases hrest : cutTag (nextQuote quote c) cs with
      | error opened =>
        rw [hrest] at hcut
        cases hcut
      | ok pair =>
        obtain ⟨content', behind'⟩ := pair
        rw [hrest] at hcut
        cases hcut
        rw [List.cons_append, cutTag, if_neg hinside, ih hrest]
        rfl

/-- A tag starts with a letter or with a slash. -/
def StartsTag (cs : List Char) : Prop :=
  ∃ c tail, cs = c :: tail ∧ (c.isAlpha = true ∨ c = '/')

variable {content behind cs : List Char}

theorem StartsTag.append (hstarts : StartsTag content) (rest : List Char) :
    StartsTag (content ++ rest) := by
  obtain ⟨c, tail, rfl, hc⟩ := hstarts
  exact ⟨c, tail ++ rest, rfl, hc⟩

theorem read_angle (hstarts : StartsTag cs) : Piece.read ('<' :: cs) = Piece.readTag cs := by
  obtain ⟨c, tail, rfl, hc⟩ := hstarts
  change Piece.readMarkup (c :: tail) = _
  rw [Piece.readMarkup.eq_def]
  split
  · rename_i heq
    cases heq
  · rename_i heq
    cases heq
    exact absurd hc (by decide)
  · rename_i heq
    cases heq
    exact absurd hc (by decide)
  · rfl

theorem angleUse_of_startsTag (hstarts : StartsTag cs) :
    AngleUse.of cs = AngleUse.upToTagEnd cs := by
  obtain ⟨c, tail, rfl, hc⟩ := hstarts
  rw [AngleUse.of, if_pos (hc.imp_right .inl)]

theorem StartsTag.of_append (hstarts : StartsTag (content ++ '>' :: behind)) :
    StartsTag content := by
  obtain ⟨c, tail, heq, hc⟩ := hstarts
  cases content with
  | nil =>
    obtain ⟨rfl, -⟩ := List.cons.inj heq
    exact absurd hc (by decide)
  | cons first content =>
    obtain ⟨rfl, -⟩ := List.cons.inj heq
    exact ⟨first, content, rfl, hc⟩

theorem tag_append (content rest : List Char) :
    '<' :: (content ++ ['>']) ++ rest = '<' :: (content ++ '>' :: rest) := by
  simp

theorem splitAtStray_tag (hstarts : StartsTag content)
    (hcut : cutTag none (content ++ '>' :: behind) = .ok (content, behind)) :
    splitAtStray ('<' :: (content ++ ['>']) ++ behind) =
      (splitAtStray behind).map fun (slice, beyond) =>
        ('<' :: (content ++ ['>']) ++ slice, beyond) := by
  have huse : AngleUse.of (content ++ '>' :: behind) = .markup (content ++ ['>']) behind := by
    rw [angleUse_of_startsTag (hstarts.append _), AngleUse.upToTagEnd, hcut]
  rw [tag_append, splitAtStray_angle, huse]

theorem leads_tag (hstarts : StartsTag content) {piece : Piece}
    (hcut : cutTag none (content ++ '>' :: behind) = .ok (content, behind))
    (hpiece : tagPiece content = .ok piece) : Leads ('<' :: (content ++ ['>'])) behind piece := by
  have hmark : some '<' ≠ some byteOrderMark := by decide
  refine ⟨List.cons_ne_nil _ _, hmark, splitAtStray_tag hstarts hcut, ?_⟩
  rw [tag_append, read_angle (hstarts.append _), readTag_of_cutTag (cutTag_append hcut _), hpiece]

/-- A tag that has no end, or that cannot be read, is a failure. -/
theorem readSource_refused (rules : Rules) (hstarts : StartsTag cs)
    (hrefused : ∀ content behind, cutTag none cs = .ok (content, behind) →
      ∃ fault, tagPiece content = .error fault) (position : Nat) :
    ∃ failure, readSource rules position ('<' :: cs) = .error failure := by
  have hslice : ∃ slice refusal, sliceBeforeStray ('<' :: cs) = '<' :: slice ∧
      Piece.readTag slice = .error refusal ∧ StartsTag slice := by
    cases hcut : cutTag none cs with
    | error quote =>
      have hstray : splitAtStray ('<' :: cs) = none := by
        rw [splitAtStray_angle, angleUse_of_startsTag hstarts, AngleUse.upToTagEnd, hcut]
      obtain ⟨refusal, hrefusal⟩ : ∃ refusal, Piece.readTag cs = .error refusal := by
        rw [Piece.readTag, hcut]
        cases quote <;> exact ⟨_, rfl⟩
      refine ⟨cs, refusal, ?_, hrefusal, hstarts⟩
      rw [sliceBeforeStray, hstray]
    | ok pair =>
      obtain ⟨content, behind⟩ := pair
      obtain ⟨fault, hfault⟩ := hrefused content behind hcut
      have hcs := eq_append_of_cutTag hcut
      rw [hcs] at hstarts hcut ⊢
      have hcontent := hstarts.of_append
      have hstray := sliceBeforeStray_append (splitAtStray_tag hcontent hcut)
      rw [tag_append, tag_append] at hstray
      refine ⟨_, ⟨fault, sliceBeforeStray behind⟩, hstray, ?_, hcontent.append _⟩
      rw [readTag_of_cutTag (cutTag_append hcut _), hfault]
  obtain ⟨slice, refusal, hslice, hread, hstarts⟩ := hslice
  rw [← read_angle hstarts] at hread
  obtain ⟨failure, hfailure⟩ := readSlice_of_refused rules hread position
  refine ⟨failure, readSource_of_error ?_⟩
  rw [hslice]
  exact hfailure

end Tag

section Markup

/-- The ways in which markup is read, from behind its `<` up to `behind`. -/
inductive MarkupRead (behind : List Char) : List Char → Piece → Prop where
  | instruction (rest : List Char) : MarkupRead behind ('?' :: rest) .ignored
  | comment {text before : List Char}
      (hcut : Text.splitOnce "-->".toList text = some (before, behind)) :
      MarkupRead behind ('!' :: '-' :: '-' :: text) .ignored
  | cdata {rest content : List Char}
      (hcut : Text.splitOnce "]]>".toList rest = some ("CDATA[".toList ++ content, behind)) :
      MarkupRead behind ('!' :: '[' :: rest) (.text content)
  | doctype {c : Char} {rest : List Char} (hc : c = 'd' ∨ c = 'D')
      (hbehind : behindDoctype? none (c :: rest) = some behind) :
      MarkupRead behind ('!' :: c :: rest) .ignored
  | tag {c : Char} {tail content : List Char} {piece : Piece} (hc : c ∉ ['!', '?'])
      (hcut : cutTag none (c :: tail) = .ok (content, behind))
      (hpiece : tagPiece content = .ok piece) : MarkupRead behind (c :: tail) piece

variable {inner behind : List Char} {piece : Piece}

theorem markupRead_of_readDoctype {c : Char} (hc : c = 'd' ∨ c = 'D')
    (hread : Piece.readDoctype (c :: inner) = .ok (piece, behind)) :
    MarkupRead behind ('!' :: c :: inner) piece := by
  unfold Piece.readDoctype at hread
  split at hread
  · cases hread
  · rename_i behind' hbehind
    split at hread
    · cases hread
    · split at hread
      · cases hread
      · cases hread
        exact .doctype hc hbehind

theorem markupRead_of_readDeclaration (hread : Piece.readDeclaration inner = .ok (piece, behind)) :
    MarkupRead behind ('!' :: inner) piece := by
  unfold Piece.readDeclaration at hread
  split at hread
  · rename_i rest
    unfold Piece.readComment at hread
    split at hread
    · cases hread
    · rename_i behind' hbehind
      split at hread
      · rename_i hhyphen
        cases hread
        obtain ⟨text, rfl⟩ := List.head?_eq_some_iff.mp hhyphen
        obtain ⟨⟨before, behind'⟩, hcut, rfl⟩ := Option.map_eq_some_iff.mp hbehind
        exact .comment hcut
      · cases hread
  · rename_i rest
    unfold Piece.readCdata at hread
    split at hread
    · cases hread
    · rename_i before behind' hcut
      split at hread
      · rename_i content hopening
        cases hread
        rw [Text.dropPrefix?_eq_some_iff.mp hopening] at hcut
        exact .cdata hcut
      · cases hread
  · exact markupRead_of_readDoctype (.inr rfl) hread
  · exact markupRead_of_readDoctype (.inl rfl) hread
  · cases hread

theorem markupRead_of_readMarkup (hread : Piece.readMarkup inner = .ok (piece, behind)) :
    MarkupRead behind inner piece := by
  unfold Piece.readMarkup at hread
  split at hread
  · cases hread
  · exact markupRead_of_readDeclaration hread
  · unfold Piece.readInstruction at hread
    split at hread
    · cases hread
    · cases hread
      exact .instruction _
    · split at hread
      · split at hread <;> cases hread
      · cases hread
  · rename_i hnil hdeclaration hinstruction
    obtain ⟨c, tail, rfl⟩ := List.exists_cons_of_ne_nil hnil
    have hc : c ∉ ['!', '?'] := by
      rintro hmem
      obtain rfl | hmem := List.mem_cons.mp hmem
      · exact hdeclaration tail rfl
      · obtain rfl := List.mem_singleton.mp hmem
        exact hinstruction tail rfl
    cases hcut : cutTag none (c :: tail) with
    | error quote =>
      rw [Piece.readTag, hcut] at hread
      cases quote <;> cases hread
    | ok cut =>
      obtain ⟨content, rest⟩ := cut
      rw [readTag_of_cutTag hcut] at hread
      split at hread
      · rename_i piece' hpiece
        cases hread
        exact .tag hc hcut hpiece
      · cases hread

end Markup

end TemplateCompiler.Markup
