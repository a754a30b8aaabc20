import TemplateCompiler.Markup.Event
import TemplateCompiler.Proofs.Markup.Reading

namespace TemplateCompiler.Markup

/-- A letter of ASCII, followed by letters, digits and some marks. -/
def IsName (name : String) : Prop :=
  ∃ c rest, name.toList = c :: rest ∧ c.isAlpha = true ∧
    ∀ d ∈ rest, d.isAlphanum = true ∨ d ∈ ['-', '_', ':']

theorem isName_iff {name : String} :
    IsName name ↔ name.toList.head?.any Char.isAlpha = true ∧
      (name.toList.tail.all fun d => d.isAlphanum || ['-', '_', ':'].contains d) = true := by
  simp only [IsName, List.all_eq_true, Bool.or_eq_true, List.contains_iff_mem]
  constructor
  · rintro ⟨c, rest, hlist, hc, hrest⟩
    rw [hlist]
    exact ⟨hc, hrest⟩
  · rintro ⟨hfirst, hrest⟩
    cases hlist : name.toList with
    | nil =>
      rw [hlist] at hfirst
      cases hfirst
    | cons c rest =>
      rw [hlist] at hfirst hrest
      exact ⟨c, rest, rfl, hfirst, hrest⟩

instance (name : String) : Decidable (IsName name) :=
  decidable_of_iff' _ isName_iff

/-- A tag that can be printed. -/
structure PrintableTag (name : String) (attributes : Attributes) : Prop where
  name : IsName name
  names : ∀ entry ∈ attributes.entries, IsName entry.1
  values : ∀ entry ∈ attributes.entries, '"' ∉ entry.2.toList

/-- What is printed between the angles of a start tag. -/
def printedTag (name : String) (attributes : Attributes) : List Char :=
  name.toList ++ attributes.entries.flatMap fun entry => (Event.displayAttribute entry).toList

theorem toList_display_opened (name : String) (attributes : Attributes) (span : Span) :
    (Event.opened name attributes span).display.toList =
      '<' :: (printedTag name attributes ++ ['>']) := by
  simp [Event.display, printedTag, List.flatMap_map]

theorem toList_display_closed (name : String) (span : Span) :
    (Event.closed name span).display.toList = '<' :: ('/' :: name.toList ++ ['>']) := by
  simp [Event.display]

section Name

/-- A character of a name ends neither the name nor the tag. -/
theorem nameChar_spec {c : Char} (hc : c.isAlphanum = true ∨ c ∈ ['-', '_', ':']) :
    c ≠ '>' ∧ c ≠ '/' ∧ isQuote c = false ∧ Text.isTagSpace c = false ∧
      isAttributeNameRest c = true := by
  have hne (d : Char) (hd : d.isAlphanum = false) (hmark : d ∉ ['-', '_', ':']) : c ≠ d := by
    rintro rfl
    obtain halphanum | hmem := hc
    · rw [hd] at halphanum
      cases halphanum
    · exact hmark hmem
  have hspace : Text.isTagSpace c = false := by
    simp [Text.isTagSpace, hne ' ' rfl (by decide), hne '\t' rfl (by decide),
      hne '\n' rfl (by decide), hne '\r' rfl (by decide)]
  refine ⟨hne '>' rfl (by decide), hne '/' rfl (by decide), ?_, hspace, ?_⟩
  · simp [isQuote, hne '"' rfl (by decide), hne '\'' rfl (by decide)]
  · simp [isAttributeNameRest, hspace, hne '=' rfl (by decide)]

variable {name : String}

theorem IsName.chars (hname : IsName name) {c : Char} (hc : c ∈ name.toList) :
    c.isAlphanum = true ∨ c ∈ ['-', '_', ':'] := by
  obtain ⟨first, rest, hlist, hfirst, hrest⟩ := hname
  rw [hlist] at hc
  obtain rfl | hc := List.mem_cons.mp hc
  · exact .inl (by simp [Char.isAlphanum, hfirst])
  · exact hrest c hc

theorem IsName.ne_nil (hname : IsName name) : name.toList ≠ [] := by
  obtain ⟨first, rest, hlist, -⟩ := hname
  rw [hlist]
  exact List.cons_ne_nil _ _

end Name

section Cut

/-- A text that lies inside a tag if a tag is open in front of it and no quote is. -/
def StaysInTag (cs : List Char) : Prop :=
  ∀ rest, cutTag none (cs ++ rest) =
    (cutTag none rest).map fun (content, behind) => (cs ++ content, behind)

theorem StaysInTag.nil : StaysInTag [] := by
  intro rest
  rw [List.nil_append]
  cases cutTag none rest <;> rfl

theorem StaysInTag.append {cs ds : List Char} (h : StaysInTag cs) (h' : StaysInTag ds) :
    StaysInTag (cs ++ ds) := by
  intro rest
  rw [List.append_assoc, h, h']
  cases cutTag none rest with
  | error quote => rfl
  | ok pair => simp [Except.map]

theorem StaysInTag.flatMap {α : Type} {f : α → List Char} {items : List α}
    (h : ∀ item ∈ items, StaysInTag (f item)) : StaysInTag (items.flatMap f) := by
  induction items with
  | nil => exact nil
  | cons item items ih =>
    rw [List.flatMap_cons]
    exact (h item List.mem_cons_self).append
      (ih fun later hlater => h later (List.mem_cons_of_mem item hlater))

theorem staysInTag_of_plain {cs : List Char} (hcs : ∀ c ∈ cs, c ≠ '>' ∧ isQuote c = false) :
    StaysInTag cs := by
  induction cs with
  | nil => exact StaysInTag.nil
  | cons c cs ih =>
    intro rest
    obtain ⟨hend, hquote⟩ := hcs c List.mem_cons_self
    have hrest := ih (fun d hd => hcs d (List.mem_cons_of_mem c hd)) rest
    rw [List.cons_append, cutTag, if_neg (fun h => hend h.2), nextQuote]
    simp only [hquote, Bool.false_eq_true, if_false]
    rw [hrest]
    cases cutTag none rest <;> rfl

theorem staysInTag_singleton {c : Char} (hend : c ≠ '>') (hquote : isQuote c = false) :
    StaysInTag [c] :=
  staysInTag_of_plain (List.forall_mem_singleton.mpr ⟨hend, hquote⟩)

theorem staysInTag_quoted {value : List Char} (hvalue : '"' ∉ value) :
    StaysInTag ('"' :: (value ++ ['"'])) := by
  have hinside (rest : List Char) : cutTag (some '"') (value ++ '"' :: rest) =
      (cutTag none rest).map fun (content, behind) => (value ++ '"' :: content, behind) := by
    induction value with
    | nil =>
      rw [List.nil_append, cutTag, if_neg (by simp), nextQuote, if_pos rfl]
      rfl
    | cons c value ih =>
      have hc : c ≠ '"' := (List.ne_of_not_mem_cons hvalue).symm
      rw [List.cons_append, cutTag, if_neg (by simp), nextQuote, if_neg hc,
        ih (List.not_mem_of_not_mem_cons hvalue)]
      cases cutTag none rest <;> rfl
  intro rest
  have hopened : cutTag none ('"' :: (value ++ '"' :: rest)) =
      (cutTag (some '"') (value ++ '"' :: rest)).map fun (content, behind) =>
        ('"' :: content, behind) := rfl
  rw [List.cons_append, List.append_assoc, List.singleton_append, hopened, hinside]
  cases cutTag none rest with
  | error quote => rfl
  | ok pair => simp [Except.map]

variable {name : String} {attributes : Attributes}

theorem staysInTag_name (hname : IsName name) : StaysInTag name.toList := by
  refine staysInTag_of_plain fun c hc => ?_
  obtain ⟨hend, -, hquote, -⟩ := nameChar_spec (hname.chars hc)
  exact ⟨hend, hquote⟩

theorem toList_displayAttribute (entry : Attribute) :
    (Event.displayAttribute entry).toList =
      ' ' :: (entry.1.toList ++ '=' :: '"' :: (entry.2.toList ++ ['"'])) := by
  simp [Event.displayAttribute]

theorem staysInTag_printedTag (htag : PrintableTag name attributes) :
    StaysInTag (printedTag name attributes) := by
  refine (staysInTag_name htag.name).append (StaysInTag.flatMap fun entry hentry => ?_)
  have hblank : StaysInTag [' '] := staysInTag_singleton (by decide) rfl
  have hassign : StaysInTag ['='] := staysInTag_singleton (by decide) rfl
  have hattribute := hblank.append ((staysInTag_name (htag.names entry hentry)).append
    (hassign.append (staysInTag_quoted (htag.values entry hentry))))
  rw [toList_displayAttribute]
  simpa using hattribute

theorem StaysInTag.cutTag_eq {cs : List Char} (h : StaysInTag cs) (behind : List Char) :
    cutTag none (cs ++ '>' :: behind) = .ok (cs, behind) := by
  rw [h, cutTag, if_pos ⟨rfl, rfl⟩]
  simp [Except.map]

end Cut

section Attributes

theorem readAttributes_nil (size : Nat) : readAttributes size [] = .ok [] := by
  rw [readAttributes]
  rfl

theorem readValue_quoted (size : Nat) {value : List Char} (hvalue : '"' ∉ value)
    (rest : List Char) :
    readValue size ('"' :: (value ++ '"' :: rest)) = .ok (value, rest) := by
  have hcut : Text.splitOnce ['"'] (value ++ '"' :: rest) = some (value, rest) :=
    Text.splitOnce_singleton_eq_some_iff.mpr ⟨rfl, hvalue⟩
  have hquote : ('"' :: (value ++ '"' :: rest)).dropWhile Text.isTagSpace =
      '"' :: (value ++ '"' :: rest) := rfl
  rw [readValue, hquote]
  simp [isQuote, hcut]

theorem readAttributes_of_value {size : Nat} {cs rest assigned value behind : List Char} {c : Char}
    (hstart : cs.dropWhile Text.isTagSpace = c :: rest)
    (hname : (rest.dropWhile isAttributeNameRest).dropWhile Text.isTagSpace = '=' :: assigned)
    (hvalue : readValue size assigned = .ok (value, behind)) :
    readAttributes size cs = (readAttributes size behind).map
      ((String.ofList (c :: rest.takeWhile isAttributeNameRest), String.ofList value) :: ·) := by
  rw [readAttributes]
  split
  · rename_i hnone
    rw [hstart] at hnone
    cases hnone
  · rename_i hcons
    rw [hstart] at hcons
    cases hcons
    split
    · rename_i hassign
      rw [hname] at hassign
      cases hassign
      split
      · rename_i hfault
        rw [hvalue] at hfault
        cases hfault
      · rename_i hok
        rw [hvalue] at hok
        cases hok
        rfl
    · rename_i hother
      exact (hother _ hname).elim

theorem readAttributes_cons (size : Nat) {entry : Attribute} (hname : IsName entry.1)
    (hvalue : '"' ∉ entry.2.toList) (rest : List Char) :
    readAttributes size ((Event.displayAttribute entry).toList ++ rest) =
      (readAttributes size rest).map (entry :: ·) := by
  obtain ⟨c, tail, hlist, hfirst, htail⟩ := hname
  have hspace : Text.isTagSpace c = false :=
    (nameChar_spec (.inl (by simp [Char.isAlphanum, hfirst]))).2.2.2.1
  have hnames : ∀ d ∈ tail, isAttributeNameRest d = true :=
    fun d hd => (nameChar_spec (htail d hd)).2.2.2.2
  generalize hassigned : '"' :: (entry.2.toList ++ '"' :: rest) = assigned
  have hstart : ((Event.displayAttribute entry).toList ++ rest).dropWhile Text.isTagSpace =
      c :: (tail ++ '=' :: assigned) := by
    have hblank : (Event.displayAttribute entry).toList ++ rest =
        ' ' :: c :: (tail ++ '=' :: assigned) := by
      rw [toList_displayAttribute, hlist, ← hassigned]
      simp
    rw [hblank, List.dropWhile_cons_of_pos rfl, List.dropWhile_cons_of_neg (by simp [hspace])]
  have hbehind : ((tail ++ '=' :: assigned).dropWhile isAttributeNameRest).dropWhile
      Text.isTagSpace = '=' :: assigned := by
    rw [List.dropWhile_append_of_pos hnames, List.dropWhile_cons_of_neg (by decide),
      List.dropWhile_cons_of_neg (by decide)]
  have hread : readValue size assigned = .ok (entry.2.toList, rest) := by
    rw [← hassigned]
    exact readValue_quoted size hvalue rest
  rw [readAttributes_of_value hstart hbehind hread, List.takeWhile_append_of_pos hnames,
    List.takeWhile_cons_of_neg (by decide), List.append_nil, ← hlist, String.ofList_toList,
    String.ofList_toList]

theorem readAttributes_printed (size : Nat) {entries : List Attribute}
    (hnames : ∀ entry ∈ entries, IsName entry.1)
    (hvalues : ∀ entry ∈ entries, '"' ∉ entry.2.toList) :
    readAttributes size (entries.flatMap fun entry => (Event.displayAttribute entry).toList) =
      .ok entries := by
  induction entries with
  | nil => exact readAttributes_nil size
  | cons entry entries ih =>
    have hrest := ih (fun later hlater => hnames later (List.mem_cons_of_mem entry hlater))
      fun later hlater => hvalues later (List.mem_cons_of_mem entry hlater)
    rw [List.flatMap_cons, readAttributes_cons size (hnames entry List.mem_cons_self)
      (hvalues entry List.mem_cons_self), hrest]
    rfl

/-- Attributes are those of the list of their entries. -/
theorem Attributes.ofList_entries (attributes : Attributes) :
    ofList attributes.entries = attributes := by
  have hinserted (later : List Attribute) (inserted : Attributes)
      (hnames : ((inserted.entries ++ later).map Prod.fst).Nodup) :
      (later.foldl (fun attributes entry => attributes.insert entry.1 entry.2)
        inserted).entries = inserted.entries ++ later := by
    induction later generalizing inserted with
    | nil => simp
    | cons entry later ih =>
      have hnew : ¬inserted.contains entry.1 = true := by
        rw [contains_eq_true_iff]
        intro hmem
        rw [List.map_append, List.map_cons, List.nodup_append] at hnames
        exact hnames.2.2 entry.1 hmem entry.1 List.mem_cons_self rfl
      have hentries : (inserted.insert entry.1 entry.2).entries = inserted.entries ++ [entry] := by
        rw [insert, dif_neg hnew]
      rw [List.append_cons, ← hentries] at hnames
      rw [List.foldl_cons, ih _ hnames, hentries, List.append_assoc]
      rfl
  have hentries := hinserted attributes.entries empty attributes.nodup_names
  generalize hread : ofList attributes.entries = read
  unfold ofList at hread
  rw [hread] at hentries
  cases read
  cases attributes
  cases hentries
  rfl

variable {name : String} {attributes : Attributes}

theorem getLast?_printedTag (htag : PrintableTag name attributes) :
    (printedTag name attributes).getLast? ≠ some '/' := by
  unfold printedTag
  obtain hnone | ⟨entries, entry, hentries⟩ := List.eq_nil_or_concat attributes.entries
  · rw [hnone, List.flatMap_nil, List.append_nil]
    intro hlast
    have hslash := (nameChar_spec (htag.name.chars (List.mem_of_getLast? hlast))).2.1
    exact hslash rfl
  · have hquote : (Event.displayAttribute entry).toList =
        (' ' :: (entry.1.toList ++ '=' :: '"' :: entry.2.toList)) ++ ['"'] := by
      rw [toList_displayAttribute]
      simp
    rw [hentries, List.concat_eq_append, List.flatMap_append, List.flatMap_singleton, hquote,
      ← List.append_assoc, ← List.append_assoc, List.getLast?_concat]
    decide

theorem read_printedTag (htag : PrintableTag name attributes) :
    StartTag.read (printedTag name attributes) = .ok ⟨name, attributes, false⟩ := by
  have hopen : ((printedTag name attributes).getLast? == some '/') = false := by
    simpa using getLast?_printedTag htag
  have hname : ∀ c ∈ name.toList, (!Text.isTagSpace c) = true := by
    intro c hc
    rw [(nameChar_spec (htag.name.chars hc)).2.2.2.1]
    rfl
  have htaken : (printedTag name attributes).takeWhile (!Text.isTagSpace ·) = name.toList := by
    rw [printedTag, List.takeWhile_append_of_pos hname]
    cases attributes.entries with
    | nil => simp
    | cons entry entries =>
      rw [List.flatMap_cons, toList_displayAttribute]
      simp [Text.isTagSpace]
  have hrest : (printedTag name attributes).drop name.toList.length =
      attributes.entries.flatMap fun entry => (Event.displayAttribute entry).toList :=
    List.drop_left
  unfold StartTag.read
  simp only [hopen, Bool.false_eq_true, if_false, htaken, hrest,
    readAttributes_printed _ htag.names htag.values]
  simp [Except.map, Attributes.ofList_entries]

theorem startsTag_printedTag (htag : PrintableTag name attributes) :
    StartsTag (printedTag name attributes) := by
  obtain ⟨c, rest, hlist, hc, -⟩ := htag.name
  exact ⟨c, _, by rw [printedTag, hlist]; rfl, .inl hc⟩

theorem leads_printedTag (htag : PrintableTag name attributes) (behind : List Char) :
    Leads ('<' :: (printedTag name attributes ++ ['>'])) behind
      (.startTag ⟨name, attributes, false⟩) := by
  have hpiece : tagPiece (printedTag name attributes) =
      .ok (.startTag ⟨name, attributes, false⟩) := by
    have hslash : Text.dropPrefix? ['/'] (printedTag name attributes) = none := by
      obtain ⟨c, rest, hlist, hc, -⟩ := htag.name
      have hne : c ≠ '/' := by
        rintro rfl
        cases hc
      rw [printedTag, hlist, List.cons_append, Text.dropPrefix?, if_neg hne.symm]
    rw [tagPiece, hslash, read_printedTag htag]
    rfl
  exact leads_tag (startsTag_printedTag htag) ((staysInTag_printedTag htag).cutTag_eq behind) hpiece

theorem endTagName_of_isName (hname : IsName name) : endTagName name.toList = name := by
  have htrimmed : (name.toList.reverse.dropWhile Text.isTagSpace).reverse = name.toList := by
    have hspaces : name.toList.reverse.dropWhile Text.isTagSpace = name.toList.reverse := by
      cases hlist : name.toList.reverse with
      | nil => rfl
      | cons c rest =>
        have hc : c ∈ name.toList := by
          rw [← List.mem_reverse, hlist]
          exact List.mem_cons_self
        rw [List.dropWhile_cons_of_neg]
        rw [(nameChar_spec (hname.chars hc)).2.2.2.1]
        exact Bool.false_ne_true
    rw [hspaces, List.reverse_reverse]
  rw [endTagName, htrimmed, if_neg hname.ne_nil, String.ofList_toList]

theorem leads_endTag (hname : IsName name) (behind : List Char) :
    Leads ('<' :: ('/' :: name.toList ++ ['>'])) behind (.endTag name) := by
  have hslash : StaysInTag ['/'] := staysInTag_singleton (by decide) rfl
  have hpiece : tagPiece ('/' :: name.toList) = .ok (.endTag name) := by
    change Except.ok (Piece.endTag (endTagName name.toList)) = _
    rw [endTagName_of_isName hname]
  exact leads_tag ⟨'/', name.toList, rfl, .inr rfl⟩
    ((hslash.append (staysInTag_name hname)).cutTag_eq behind) hpiece

end Attributes

end TemplateCompiler.Markup
