import TemplateCompiler.Proofs.FirstOccurrence
import TemplateCompiler.Proofs.Markup.Cuts

namespace TemplateCompiler.Markup

section EndTags

/-- A text starts with the end tag of an element: an angle, a slash and the name, in upper or lower
    case, and a character that ends the name. -/
def StartsEndTag (name : String) (cs : List Char) : Prop :=
  ∃ opened c behind, cs = opened ++ c :: behind ∧
    Text.lower opened = '<' :: '/' :: Text.lower name.toList ∧ endsRawName c = true

/-- A name without angles. -/
def AngleFree (name : String) : Prop :=
  '<' ∉ Text.lower name.toList ∧ '>' ∉ Text.lower name.toList

variable {name : String} {cs later : List Char}

theorem StartsEndTag.prefix_lower (h : StartsEndTag name cs) :
    endTagOpening name <+: Text.lower cs := by
  obtain ⟨opened, c, behind, rfl, hopened, -⟩ := h
  refine ⟨Text.lower (c :: behind), ?_⟩
  rw [Text.lower, Text.lower, List.map_append]
  exact congrArg (· ++ _) hopened.symm

theorem startsEndTag_append {opened behind : List Char}
    (hopened : Text.lower opened = endTagOpening name)
    (hends : behind.head?.any endsRawName = true) : StartsEndTag name (opened ++ behind) := by
  cases behind with
  | nil => cases hends
  | cons c behind => exact ⟨opened, c, behind, rfl, hopened, hends⟩

/-- A text is cut in the same places as its copy in lower case. -/
theorem exists_opened_of_splitOnce {opening before behind : List Char}
    (hfound : Text.splitOnce opening (Text.lower cs) = some (before, behind)) :
    ∃ opened, Text.lower opened = opening ∧
      cs.drop before.length = opened ++ cs.drop (before.length + opening.length) := by
  refine ⟨_, lower_take_of_splitOnce hfound, ?_⟩
  rw [← List.drop_drop, List.take_append_drop]

theorem suffix_drop_of_splitOnce {before behind : List Char}
    (hfound : Text.splitOnce (endTagOpening name) (Text.lower cs) = some (before, behind))
    (hlater : later <:+ cs) (hstarts : StartsEndTag name later) :
    later <:+ cs.drop before.length := by
  have hlower := (Text.suffix_of_splitOnce hfound (hlater.map Char.toLower)
    hstarts.prefix_lower).length_le
  have hlength := Text.length_behind_splitOnce hfound
  refine List.suffix_of_suffix_length_le hlater (List.drop_suffix _ _) ?_
  simp at hlower hlength ⊢
  omega

theorem close_notMem_of_lower (hname : AngleFree name) {opened : List Char}
    (hopened : Text.lower opened = endTagOpening name) : '>' ∉ opened := by
  intro hmem
  have hlower : '>' ∈ Text.lower opened := List.mem_map_of_mem (f := Char.toLower) hmem
  rw [hopened] at hlower
  simp [endTagOpening, hname.2] at hlower

/-- An end tag does not start inside an opening that is none of a tag, but only behind it. -/
theorem StartsEndTag.suffix_behind (hname : AngleFree name) {opened behind : List Char}
    (hopened : Text.lower opened = endTagOpening name)
    (hbehind : ¬behind.head?.any endsRawName = true) (hstarts : StartsEndTag name later)
    (hlater : later <:+ opened ++ behind) : later <:+ behind := by
  obtain ⟨opened', c, rest, rfl, hopened', hends⟩ := hstarts
  obtain ⟨front, hfront⟩ := hlater
  obtain ⟨part, rfl, hpart⟩ | ⟨between, -, rfl⟩ := List.append_eq_append_iff.mp hfront
  · cases front with
    | nil =>
      -- The tag would have to be the opening itself, which is no tag.
      have hlength : opened'.length = part.length := by
        have hlower := congrArg List.length (hopened'.trans hopened.symm)
        simpa using hlower
      obtain ⟨-, rfl⟩ := List.append_inj hpart hlength
      exact (hbehind hends).elim
    | cons d front =>
      cases part with
      | nil =>
        rw [hpart]
        exact List.suffix_refl _
      | cons angle part =>
        -- Its angle would stand in the name.
        obtain ⟨first, tail, rfl, hfirst, -⟩ := List.map_eq_cons_iff.mp hopened'
        obtain ⟨rfl, -⟩ := List.cons.inj hpart
        have hinside : Text.lower (front ++ first :: part) = '/' :: Text.lower name.toList :=
          (List.cons.inj hopened).2
        have hmem : '<' ∈ Text.lower (front ++ first :: part) := by
          rw [← hfirst]
          exact List.mem_map_of_mem (by simp)
        rw [hinside] at hmem
        simp [hname.1] at hmem
  · exact List.suffix_append _ _

/-- The first end tag in a text: no other one starts before it. -/
structure FirstEndTag (name : String) (cs content tag : List Char) : Prop where
  eq_append : cs = content ++ tag
  starts : StartsEndTag name tag
  first : ∀ later, later <:+ cs → StartsEndTag name later → later <:+ tag

/-- Raw text is cut at the first end tag, behind the first angle that closes it, unless no end tag
    is closed. -/
theorem cutRawText_spec (hname : AngleFree name) (cs : List Char) :
    (cutRawText (endTagOpening name) cs = none ∧
      ∀ later, later <:+ cs → StartsEndTag name later → '>' ∉ later) ∨
    ∃ content inner rest, cutRawText (endTagOpening name) cs = some (content, rest) ∧
      '>' ∉ inner ∧ FirstEndTag name cs content (inner ++ '>' :: rest) := by
  generalize hopening : endTagOpening name = opening
  fun_induction cutRawText opening cs with
  | case1 cs hfound =>
    refine .inl ⟨rfl, ?_⟩
    intro later hlater hstarts
    have hinside : opening <:+: Text.lower cs :=
      hopening ▸ hstarts.prefix_lower.isInfix.trans (hlater.map Char.toLower).isInfix
    have hnonempty : opening ≠ [] := by
      simp [← hopening, endTagOpening]
    exact ((Text.splitOnce_eq_none_iff hnonempty).mp hfound hinside).elim
  | case2 cs before _ hfound behind hends =>
    subst hopening
    obtain ⟨opened, hopened, htag⟩ := exists_opened_of_splitOnce hfound
    have hfree := close_notMem_of_lower hname hopened
    cases hclose : Text.splitOnce ['>'] behind with
    | none =>
      refine .inl ⟨rfl, ?_⟩
      intro later hlater hstarts hmem
      have hsuffix := suffix_drop_of_splitOnce hfound hlater hstarts
      rw [htag] at hsuffix
      obtain hopen | hbehind := List.mem_append.mp (hsuffix.mem hmem)
      · exact hfree hopen
      · exact Text.splitOnce_singleton_eq_none_iff.mp hclose hbehind
    | some cut =>
      obtain ⟨inner, rest⟩ := cut
      obtain ⟨hbehind, hinner⟩ := Text.splitOnce_singleton_eq_some_iff.mp hclose
      refine .inr ⟨_, opened ++ inner, rest, rfl, by simp [hfree, hinner], ?_⟩
      have hwhole : cs.drop before.length = opened ++ inner ++ '>' :: rest := by
        rw [htag, List.append_assoc]
        exact congrArg (opened ++ ·) hbehind
      refine ⟨?_, ?_, ?_⟩
      · rw [← hwhole, List.take_append_drop]
      · rw [← hwhole, htag]
        exact startsEndTag_append hopened hends
      · intro later hlater hstarts
        rw [← hwhole]
        exact suffix_drop_of_splitOnce hfound hlater hstarts
  | case3 =>
    rename_i hnil
    simp [← hopening, endTagOpening] at hnil
  | case4 cs before _ hfound behind hends =>
    rename_i ih
    subst hopening
    obtain ⟨opened, hopened, htag⟩ := exists_opened_of_splitOnce hfound
    have hlater {later : List Char} (hlater : later <:+ cs) (hstarts : StartsEndTag name later) :
        later <:+ behind := by
      have hsuffix := suffix_drop_of_splitOnce hfound hlater hstarts
      rw [htag] at hsuffix
      exact hstarts.suffix_behind hname hopened hends hsuffix
    obtain ⟨hnone, hunclosed⟩ | ⟨content, inner, rest, hcut, hinner, hfirst⟩ := ih
    · refine .inl ⟨by rw [hnone]; rfl, ?_⟩
      intro later hsuffix hstarts
      exact hunclosed later (hlater hsuffix hstarts) hstarts
    · refine .inr ⟨_, inner, rest, by rw [hcut]; rfl, hinner, ?_, hfirst.starts, ?_⟩
      · rw [List.append_assoc, ← hfirst.eq_append]
        exact (List.take_append_drop _ _).symm
      · intro later hsuffix hstarts
        exact hfirst.first later (hlater hsuffix hstarts) hstarts

/-- Raw text holds no end tag. -/
theorem FirstEndTag.not_startsEndTag {content tag : List Char}
    (h : FirstEndTag name cs content tag) (hlater : later <:+ content) :
    ¬StartsEndTag name later := by
  rintro ⟨opened, c, behind, rfl, hopened, hends⟩
  have hstarts : StartsEndTag name (opened ++ c :: behind ++ tag) :=
    ⟨opened, c, behind ++ tag, by simp, hopened, hends⟩
  have hsuffix : opened ++ c :: behind ++ tag <:+ cs := by
    obtain ⟨front, rfl⟩ := hlater
    exact ⟨front, by rw [h.eq_append, List.append_assoc front]⟩
  have hlength := (h.first _ hsuffix hstarts).length_le
  simp at hlength
  omega

end EndTags

section Offsets

theorem eq_nil_of_byteLength_eq_zero {cs : List Char} (h : Text.byteLength cs = 0) : cs = [] := by
  cases cs with
  | nil => rfl
  | cons c cs =>
    have hpos := c.utf8Size_pos
    rw [Text.byteLength_cons] at h
    omega

variable {source : List Char}

/-- What follows a place goes on with what follows a later place. -/
theorem ContinuesAt.exists_read_of_le {position later : Nat} {cs rest : List Char}
    (h : ContinuesAt source position cs) (hlater : ContinuesAt source later rest)
    (hle : position ≤ later) :
    ∃ read, cs = read ++ rest ∧ later = position + Text.byteLength read := by
  obtain ⟨before, hsource, rfl⟩ := h
  obtain ⟨before', hsource', rfl⟩ := hlater
  rw [hsource] at hsource'
  obtain ⟨read, rfl, rfl⟩ | ⟨read, rfl, rfl⟩ := List.append_eq_append_iff.mp hsource'
  · exact ⟨read, rfl, Text.byteLength_append _ _⟩
  · rw [Text.byteLength_append] at hle
    have hread : Text.byteLength read = 0 := by omega
    obtain rfl := eq_nil_of_byteLength_eq_zero hread
    exact ⟨[], rfl, by simp⟩

theorem ContinuesAt.unique {position : Nat} {cs rest : List Char}
    (h : ContinuesAt source position cs) (h' : ContinuesAt source position rest) : cs = rest := by
  obtain ⟨read, rfl, hposition⟩ := h.exists_read_of_le h' (Nat.le_refl _)
  have hread : Text.byteLength read = 0 := by omega
  obtain rfl := eq_nil_of_byteLength_eq_zero hread
  rfl

/-- The end tag of an element starts at a byte of a source. -/
def EndTagAt (source : List Char) (name : String) (offset : Nat) : Prop :=
  ∃ cs, ContinuesAt source offset cs ∧ StartsEndTag name cs

/-- The first closing angle from the byte `offset` on ends just before the byte `stop`. -/
def ClosedAt (source : List Char) (offset stop : Nat) : Prop :=
  ∃ inner rest, ContinuesAt source offset (inner ++ '>' :: rest) ∧ '>' ∉ inner ∧
    stop = offset + Text.byteLength inner + 1

theorem ClosedAt.unique {offset stop stop' : Nat} (h : ClosedAt source offset stop)
    (h' : ClosedAt source offset stop') : stop = stop' := by
  obtain ⟨inner, rest, hcontinues, hinner, rfl⟩ := h
  obtain ⟨inner', rest', hcontinues', hinner', rfl⟩ := h'
  have hcut : Text.splitOnce ['>'] (inner ++ '>' :: rest) = some (inner, rest) :=
    Text.splitOnce_singleton_eq_some_iff.mpr ⟨rfl, hinner⟩
  rw [hcontinues.unique hcontinues',
    Text.splitOnce_singleton_eq_some_iff.mpr ⟨rfl, hinner'⟩] at hcut
  cases hcut
  rfl

/-- The raw text of an element that starts at a byte ends at the first end tag from there on, and
    the end tag where it is closed. -/
structure RawTextEnd (source : List Char) (name : String) (start stop close : Nat) : Prop where
  le : start ≤ stop
  endTag : EndTagAt source name stop
  first : ∀ offset, start ≤ offset → EndTagAt source name offset → stop ≤ offset
  closed : ClosedAt source stop close

theorem RawTextEnd.unique {name : String} {start stop close stop' close' : Nat}
    (h : RawTextEnd source name start stop close)
    (h' : RawTextEnd source name start stop' close') : stop = stop' ∧ close = close' := by
  obtain rfl : stop = stop' :=
    Nat.le_antisymm (h.first stop' h'.le h'.endTag) (h'.first stop h.le h.endTag)
  exact ⟨rfl, h.closed.unique h'.closed⟩

/-- The bytes at which the scan from the byte `start` on finds that raw text and its end tag end. -/
def rawTextEnd? (source : List Char) (start : Nat) (name : String) : Option (Nat × Nat) :=
  (Text.splitAtByte? start source).bind fun cut =>
    (cutRawText (endTagOpening name) cut.2).map fun found =>
      (start + Text.byteLength found.1, start + bytesRead cut.2 found.2)

section Scan

variable {name : String} {start stop close : Nat} {scanned content rest : List Char}

theorem rawTextEnd?_eq (hstart : ContinuesAt source start scanned) :
    rawTextEnd? source start name =
      (cutRawText (endTagOpening name) scanned).map fun found =>
        (start + Text.byteLength found.1, start + bytesRead scanned found.2) := by
  obtain ⟨before, rfl, rfl⟩ := hstart
  rw [rawTextEnd?, splitAtByte?_byteLength]
  rfl

/-- The first end tag in the text from a byte on is the first one from there on. -/
theorem FirstEndTag.rawTextEnd {inner : List Char} (hstart : ContinuesAt source start scanned)
    (hfirst : FirstEndTag name scanned content (inner ++ '>' :: rest)) (hinner : '>' ∉ inner) :
    RawTextEnd source name start (start + Text.byteLength content)
      (start + bytesRead scanned rest) := by
  have hscanned : scanned = content ++ inner ++ ['>'] ++ rest := by
    simpa using hfirst.eq_append
  have htag : ContinuesAt source (start + Text.byteLength content) (inner ++ '>' :: rest) := by
    rw [hfirst.eq_append] at hstart
    exact hstart.behind
  refine ⟨Nat.le_add_right _ _, ⟨_, htag, hfirst.starts⟩, ?_, inner, rest, htag, hinner, ?_⟩
  · rintro offset hle ⟨later, hlater, hstarts⟩
    obtain ⟨read, hread, rfl⟩ := hstart.exists_read_of_le hlater hle
    obtain ⟨between, hbetween⟩ := hfirst.first later ⟨read, hread.symm⟩ hstarts
    have hbytes := congrArg Text.byteLength (hread.symm.trans hfirst.eq_append)
    rw [← hbetween] at hbytes
    simp only [Text.byteLength_append] at hbytes
    omega
  · have hangle : Text.byteLength ['>'] = 1 := rfl
    rw [hscanned, bytesRead_append]
    simp only [Text.byteLength_append, hangle]
    omega

/-- The scan finds the first end tag that is closed, unless there is none. -/
theorem rawTextEnd?_cases (hname : AngleFree name) (hstart : ContinuesAt source start scanned) :
    (rawTextEnd? source start name = none ∧
      ¬∃ stop close, start ≤ stop ∧ EndTagAt source name stop ∧ ClosedAt source stop close) ∨
    ∃ stop close, rawTextEnd? source start name = some (stop, close) ∧
      RawTextEnd source name start stop close := by
  rw [rawTextEnd?_eq hstart]
  obtain ⟨hnone, hunclosed⟩ | ⟨content, inner, rest, hcut, hinner, hfirst⟩ :=
    cutRawText_spec hname scanned
  · refine .inl ⟨by rw [hnone]; rfl, ?_⟩
    rintro ⟨stop, close, hle, ⟨later, hlater, hstarts⟩, inner, rest, hclosed, -⟩
    obtain ⟨read, hread, -⟩ := hstart.exists_read_of_le hlater hle
    refine hunclosed later ⟨read, hread.symm⟩ hstarts ?_
    rw [hlater.unique hclosed]
    simp
  · exact .inr ⟨_, _, by rw [hcut]; rfl, hfirst.rawTextEnd hstart hinner⟩

theorem rawTextEvents_eq (name : String) (start : Nat) (content tag rest : List Char) :
    let stop := start + Text.byteLength content
    let close := stop + Text.byteLength tag
    rawTextEvents name start (content ++ tag ++ rest) content rest =
      ((if content = [] then []
        else [Event.text (String.ofList content) (Span.ofBounds start stop)]) ++
          [Event.closed name (Span.ofBounds stop close)], close) := by
  have hread : bytesRead (content ++ tag ++ rest) rest =
      Text.byteLength content + Text.byteLength tag := by
    rw [bytesRead_append, Text.byteLength_append]
  intro stop close
  unfold rawTextEvents
  rw [hread, ← Nat.add_assoc]
  split <;> rfl

/-- What the scan finds cuts the source into four parts, of which the second is the raw text. -/
theorem exists_parts_of_rawTextEnd? (hname : AngleFree name)
    (hstart : ContinuesAt source start scanned)
    (h : rawTextEnd? source start name = some (stop, close)) :
    ∃ before content tag rest, source = before ++ content ++ tag ++ rest ∧
      Text.byteLength before = start ∧ Text.byteLength (before ++ content) = stop ∧
      Text.byteLength (before ++ content ++ tag) = close ∧
      (∀ offset, ¬EndTagAt content name offset) ∧
      cutRawText (endTagOpening name) (content ++ tag ++ rest) = some (content, rest) := by
  rw [rawTextEnd?_eq hstart] at h
  obtain ⟨hnone, -⟩ | ⟨content, inner, rest, hcut, -, hfirst⟩ := cutRawText_spec hname scanned
  · rw [hnone] at h
    cases h
  · have hscanned : scanned = content ++ (inner ++ ['>']) ++ rest := by
      simpa using hfirst.eq_append
    rw [hcut, hscanned, Option.map_some, bytesRead_append] at h
    cases h
    obtain ⟨before, rfl, rfl⟩ := hstart
    refine ⟨before, content, inner ++ ['>'], rest, ?_, rfl, Text.byteLength_append _ _, ?_, ?_,
      hscanned ▸ hcut⟩
    · simp [hscanned]
    · rw [List.append_assoc, Text.byteLength_append]
    · rintro offset ⟨later, ⟨front, hcontent, -⟩, hstarts⟩
      exact hfirst.not_startsEndTag ⟨front, hcontent.symm⟩ hstarts

theorem angleFree_of_rawText (hname : Text.lowercase name ∈ rawTextNames) : AngleFree name := by
  have hlower : Text.lower name.toList = (Text.lowercase name).toList := by simp [Text.lowercase]
  unfold AngleFree
  rw [hlower]
  have hall : ∀ known ∈ rawTextNames, '<' ∉ known.toList ∧ '>' ∉ known.toList := by decide
  exact hall _ hname

end Scan

/-- The scan for the end of raw text finds the first end tag from its start on and the first angle
    that closes it, and finds nothing if and only if no end tag from there on is closed. The offsets
    that it finds are those of the source itself: they cut it into what lies before, the raw text,
    which holds no end tag, its end tag, and what lies behind, and the events have these places. -/
theorem rawTextEnd?_iff_first (source : List Char) {start : Nat} (hstart : Boundary source start)
    {name : String} (hname : Text.lowercase name ∈ rawTextNames) :
    (∀ stop close, rawTextEnd? source start name = some (stop, close) ↔
      RawTextEnd source name start stop close) ∧
    (rawTextEnd? source start name = none ↔
      ¬∃ stop close, start ≤ stop ∧ EndTagAt source name stop ∧ ClosedAt source stop close) ∧
    ∀ stop close, rawTextEnd? source start name = some (stop, close) →
      ∃ before content tag rest, source = before ++ content ++ tag ++ rest ∧
        Text.byteLength before = start ∧ Text.byteLength (before ++ content) = stop ∧
        Text.byteLength (before ++ content ++ tag) = close ∧
        (∀ offset, ¬EndTagAt content name offset) ∧
        cutRawText (endTagOpening name) (content ++ tag ++ rest) = some (content, rest) ∧
        rawTextEvents name start (content ++ tag ++ rest) content rest =
          ((if content = [] then []
            else [Event.text (String.ofList content) (Span.ofBounds start stop)]) ++
              [Event.closed name (Span.ofBounds stop close)], close) := by
  have hfree := angleFree_of_rawText hname
  obtain ⟨before, ⟨scanned, hsource⟩, hbefore⟩ := hstart
  have hstart : ContinuesAt source start scanned := ⟨before, hsource.symm, hbefore⟩
  refine ⟨?_, ?_, ?_⟩
  · intro stop close
    obtain ⟨hnone, hunclosed⟩ | ⟨stop', close', hsome, hend⟩ := rawTextEnd?_cases hfree hstart
    · rw [hnone]
      constructor
      · intro hsome
        cases hsome
      · intro hend
        exact (hunclosed ⟨stop, close, hend.le, hend.endTag, hend.closed⟩).elim
    · rw [hsome]
      constructor
      · intro heq
        cases heq
        exact hend
      · intro hend'
        obtain ⟨rfl, rfl⟩ := hend.unique hend'
        rfl
  · obtain ⟨hnone, hunclosed⟩ | ⟨stop, close, hsome, hend⟩ := rawTextEnd?_cases hfree hstart
    · exact iff_of_true hnone hunclosed
    · refine iff_of_false (by simp [hsome]) (not_not.mpr ?_)
      exact ⟨stop, close, hend.le, hend.endTag, hend.closed⟩
  · intro stop close hsome
    obtain ⟨before, content, tag, rest, hparts, rfl, rfl, rfl, hnone, hcut⟩ :=
      exists_parts_of_rawTextEnd? hfree hstart hsome
    refine ⟨before, content, tag, rest, hparts, rfl, rfl, rfl, hnone, hcut, ?_⟩
    have hevents := rawTextEvents_eq name (Text.byteLength before) content tag rest
    simp only [← Text.byteLength_append] at hevents
    exact hevents

/-- A longer name is passed over, and the capital letters and the line break of the end tag do no
    harm. -/
theorem rawTextEnd?_iff_first_longer_name :
    let source := "é</scripts></SCRIPT\n>x".toList
    Boundary source 2 ∧ Text.lowercase "Script" ∈ rawTextNames ∧
      rawTextEnd? source 2 "Script" = some (12, 22) ∧ RawTextEnd source "Script" 2 12 22 := by
  intro source
  have hstart : Boundary source 2 := by decide
  have hname : Text.lowercase "Script" ∈ rawTextNames := by decide +kernel
  have hfound : rawTextEnd? source 2 "Script" = some (12, 22) := by decide +kernel
  exact ⟨hstart, hname, hfound,
    ((rawTextEnd?_iff_first source hstart hname).1 12 22).mp hfound⟩

end Offsets

end TemplateCompiler.Markup
