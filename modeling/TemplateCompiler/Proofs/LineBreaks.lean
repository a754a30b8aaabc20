import TemplateCompiler.Proofs.ChildKeys
import TemplateCompiler.Proofs.IterationClauses
import TemplateCompiler.Proofs.TagRepair

namespace TemplateCompiler.Text

/-- A string without a line break. -/
def OneLine (s : String) : Prop :=
  '\n' ∉ s.toList

instance (s : String) : Decidable (OneLine s) :=
  inferInstanceAs (Decidable (¬_))

theorem oneLine_ofList {cs : List Char} : OneLine (String.ofList cs) ↔ '\n' ∉ cs := by
  rw [OneLine, String.toList_ofList]

theorem oneLine_append {s t : String} : OneLine (s ++ t) ↔ OneLine s ∧ OneLine t := by
  rw [OneLine, String.toList_append, List.mem_append, not_or]
  rfl

theorem oneLine_intercalate {separator : String} (hseparator : OneLine separator)
    {texts : List String} (htexts : ∀ text ∈ texts, OneLine text) :
    OneLine (separator.intercalate texts) := by
  induction texts with
  | nil => exact List.not_mem_nil
  | cons text texts ih =>
    obtain ⟨htext, hlater⟩ := List.forall_mem_cons.mp htexts
    cases texts with
    | nil => rwa [String.intercalate_singleton]
    | cons next texts =>
      rw [String.intercalate_cons_cons, oneLine_append, oneLine_append]
      exact ⟨⟨htext, hseparator⟩, ih hlater⟩

theorem oneLine_toString (number : Nat) : OneLine (toString number) :=
  Template.notMem_toString rfl number

theorem splitLines_of_oneLine {s : String} (hs : OneLine s) : splitLines s = [s] := by
  rw [splitLines, List.splitOn_eq_singleton hs, List.map_singleton, String.ofList_toList]

theorem oneLine_trimmed {s : String} (hs : OneLine s) : OneLine (trimmed s) :=
  oneLine_ofList.mpr fun hbreak => hs (mem_of_mem_trim hbreak)

/-- Indentation is lost when a line is trimmed. -/
theorem trim_spaces_append (count : Nat) (s : String) :
    trim (spaces count ++ s).toList = trim s.toList := by
  have hspaces : ((List.replicate count ' ') ++ s.toList).dropWhile isBlank =
      s.toList.dropWhile isBlank := by
    apply List.dropWhile_append_of_pos
    intro c hc
    rw [List.eq_of_mem_replicate hc]
    rfl
  rw [trim, spaces, String.toList_append, String.toList_ofList, hspaces, trim]

end TemplateCompiler.Text

namespace TemplateCompiler.Script

open Text (OneLine oneLine_append oneLine_intercalate)

theorem oneLine_quote {s : String} (hs : OneLine s) : OneLine (quote s) := by
  rw [quote, Text.oneLine_ofList, quoteChars]
  intro hbreak
  have hinside : '\n' ∈ s.toList.flatMap escape := by simpa using hbreak
  obtain ⟨c, hc, hescaped⟩ := List.mem_flatMap.mp hinside
  have hsame : c = '\n' := by
    unfold escape at hescaped
    grind
  exact hs (hsame ▸ hc)

namespace Call

theorem mem_openArguments {tag : String} {key statics : Option String} {properties : List Property}
    {argument : String} (h : argument ∈ openArguments tag key statics properties) :
    argument = quote tag ∨ argument = key.getD absent ∨ argument = statics.getD absent ∨
      ∃ property ∈ properties, argument ∈ property.arguments := by
  have hoptional {rest : List String} (hrest : argument ∈ quote tag :: rest)
      (hsome : argument ∈ rest → argument ∈ [key.getD absent, statics.getD absent] ∨
        argument ∈ properties.flatMap Property.arguments) :
      argument = quote tag ∨ argument = key.getD absent ∨ argument = statics.getD absent ∨
        ∃ property ∈ properties, argument ∈ property.arguments := by
    obtain htag | hrest := List.mem_cons.mp hrest
    · exact .inl htag
    · obtain hshort | hproperty := hsome hrest
      · obtain hkey | hstatics := List.mem_cons.mp hshort
        · exact .inr (.inl hkey)
        · exact .inr (.inr (.inl (List.mem_singleton.mp hstatics)))
      · exact .inr (.inr (.inr (List.mem_flatMap.mp hproperty)))
  cases properties with
  | nil =>
    refine hoptional h fun hrest => .inl ?_
    have hkept := (List.dropWhile_sublist (· == absent)).mem (List.mem_reverse.mp hrest)
    exact List.mem_reverse.mp hkept
  | cons property properties => exact hoptional h List.mem_append.mp

theorem oneLine_elementOpen {tag : String} {key statics : Option String}
    {properties : List Property} (htag : OneLine tag) (hkey : ∀ text ∈ key, OneLine text)
    (hstatics : ∀ text ∈ statics, OneLine text)
    (hproperties : ∀ property ∈ properties,
      OneLine property.name ∧ OneLine property.expression) :
    OneLine (elementOpen tag key statics properties) := by
  have hgetD {value : Option String} (hvalue : ∀ text ∈ value, OneLine text) :
      OneLine (value.getD absent) := by
    cases value with
    | none =>
      rw [Option.getD_none]
      decide
    | some text => exact hvalue text rfl
  rw [elementOpen, oneLine_append, oneLine_append]
  refine ⟨⟨by decide, oneLine_intercalate (by decide) ?_⟩, by decide⟩
  intro argument hargument
  obtain rfl | rfl | rfl | ⟨property, hproperty, hmem⟩ := mem_openArguments hargument
  · exact oneLine_quote htag
  · exact hgetD hkey
  · exact hgetD hstatics
  · obtain ⟨hname, hexpression⟩ := hproperties property hproperty
    obtain rfl | hvalue := List.mem_cons.mp hmem
    · exact oneLine_quote hname
    · rw [List.mem_singleton.mp hvalue]
      exact hexpression

end Call

namespace Listing

/-- If every piece of script is one line, the pieces are the lines of the listing. -/
theorem map_text_lines_of_oneLine {listing : Listing}
    (hlisting : ∀ text ∈ listing.texts, OneLine text) :
    listing.lines.map Line.text = listing.texts := by
  rw [map_text_lines]
  generalize listing.texts = texts at hlisting
  induction texts with
  | nil => rfl
  | cons text texts ih =>
    obtain ⟨htext, hlater⟩ := List.forall_mem_cons.mp hlisting
    rw [List.flatMap_cons, Text.splitLines_of_oneLine htext, ih hlater]
    rfl

end Listing

end TemplateCompiler.Script

namespace TemplateCompiler.Markup.Event

/-- The attributes of an opening tag. -/
def entries : Event → List Attribute
  | opened _ attributes _ => attributes.entries
  | _ => []

/-- All strings of an event. -/
def strings : Event → List String
  | opened name attributes _ => name :: attributes.entries.flatMap fun entry => [entry.1, entry.2]
  | text content _ => [content]
  | closed name _ => [name]

end TemplateCompiler.Markup.Event

namespace TemplateCompiler.Template

open Markup (Attribute Attributes Event Span)
open Script (Property oneLine_quote)
open Text (OneLine oneLine_append oneLine_intercalate oneLine_ofList oneLine_toString)

/-- The characters of a segment. -/
def Segment.chars : Segment → List Char
  | literal text => text
  | expression source => source

namespace Interpolation

variable {c : Char} {segment : Segment}

theorem mem_of_mem_literalSegments {text : List Char} (hsegment : segment ∈ literalSegments text)
    (hc : c ∈ segment.chars) : c ∈ text := by
  cases text with
  | nil => cases hsegment
  | cons first text =>
    obtain rfl := List.mem_singleton.mp hsegment
    exact hc

theorem mem_of_mem_expressionSegments {source : List Char}
    (hsegment : segment ∈ expressionSegments source) (hc : c ∈ segment.chars) : c ∈ source := by
  unfold expressionSegments at hsegment
  split at hsegment
  · cases hsegment
  · obtain rfl := List.mem_singleton.mp hsegment
    exact hc

/-- The segments of a text have no characters but its own. -/
theorem mem_of_mem_cut {literal cs : List Char} {offset : Nat}
    (hsegment : segment ∈ (cut literal offset cs).segments) (hc : c ∈ segment.chars) :
    c ∈ literal ++ cs := by
  have hsplit (cs : List Char) {brace : Char} {rest : List Char}
      (hrest : cs.dropWhile (!isBrace ·) = brace :: rest) :
      cs = cs.takeWhile (!isBrace ·) ++ brace :: rest := by
    rw [← hrest, List.takeWhile_append_dropWhile]
  fun_induction cut literal offset cs with
  | case1 literal offset cs plain hrest =>
    have hplain := mem_of_mem_literalSegments hsegment hc
    exact ((List.Sublist.refl literal).append (List.takeWhile_sublist _)).mem hplain
  | case2 literal offset cs plain position rest hrest following ih =>
    rw [hsplit cs hrest]
    simpa [plain] using ih hsegment
  | case3 literal offset cs plain position brace rest hrest hbrace hclose =>
    rw [hsplit cs hrest, ← List.append_assoc]
    exact mem_of_mem_literalSegments hsegment hc
  | case4 literal offset cs plain position brace rest hrest hbrace source behind hclose following ih =>
    rw [hsplit cs hrest, Text.eq_append_of_splitOnce hclose]
    obtain hfront | hlater := List.mem_append.mp hsegment
    · obtain hplain | hsource := List.mem_append.mp hfront
      · have hplain := mem_of_mem_literalSegments hplain hc
        rw [← List.append_assoc]
        exact List.mem_append_left _ hplain
      · have hsource := mem_of_mem_expressionSegments hsource hc
        simp [hsource]
    · have hbehind : c ∈ behind := ih hlater
      simp [hbehind]

theorem oneLine_operand (hsegment : '\n' ∉ segment.chars) : OneLine (operand segment) := by
  cases segment with
  | literal text => exact oneLine_quote (oneLine_ofList.mpr hsegment)
  | expression source =>
    rw [operand, oneLine_append, oneLine_append]
    refine ⟨⟨by decide, oneLine_ofList.mpr ?_⟩, by decide⟩
    intro hbreak
    exact hsegment (List.mem_filter.mp hbreak).1

theorem mem_operands {segments : List Segment} {text : String} (htext : text ∈ operands segments) :
    text = Script.quote "" ∨ ∃ segment ∈ segments, text = operand segment := by
  have hmap (htext : text ∈ segments.map operand) : ∃ segment ∈ segments, text = operand segment := by
    obtain ⟨segment, hsegment, hoperand⟩ := List.mem_map.mp htext
    exact ⟨segment, hsegment, hoperand.symm⟩
  cases segments with
  | nil => exact .inl (List.mem_singleton.mp htext)
  | cons segment segments =>
    cases segment with
    | literal => exact .inr (hmap htext)
    | expression =>
      obtain hempty | htext := List.mem_cons.mp htext
      · exact .inl hempty
      · exact .inr (hmap htext)

theorem oneLine_expression {content : String} (hcontent : OneLine content) :
    OneLine (ofString content).expression := by
  refine oneLine_intercalate (by decide) ?_
  intro text htext
  obtain rfl | ⟨segment, hsegment, rfl⟩ := mem_operands htext
  · exact oneLine_quote (by decide)
  · apply oneLine_operand
    intro hbreak
    exact hcontent (mem_of_mem_cut hsegment hbreak)

end Interpolation

theorem mem_of_unwrapBraces? {value inner : List Char} (h : unwrapBraces? value = some inner)
    {c : Char} (hc : c ∈ inner) : c ∈ value := by
  unfold unwrapBraces? at h
  split at h
  · rename_i rest
    split at h
    · rename_i inside hcut
      obtain rfl := Option.some.inj h
      rw [Text.eq_append_of_splitOnce hcut]
      simp [hc]
    · cases h
  · cases h

theorem oneLine_conditionExpression {value : Option String} (hvalue : ∀ text ∈ value, OneLine text) :
    OneLine (conditionExpression value) := by
  have hgiven : '\n' ∉ Text.trim (value.getD "").toList := by
    intro hbreak
    have hbreak := Text.mem_of_mem_trim hbreak
    cases value with
    | none => cases hbreak
    | some text => exact hvalue text rfl hbreak
  have hshown {cs : List Char} (hcs : '\n' ∉ cs) :
      OneLine (if cs = [] then alwaysTrue else String.ofList cs) := by
    split
    · decide
    · exact oneLine_ofList.mpr hcs
  unfold conditionExpression
  dsimp only
  split
  · rename_i inner hinner
    apply hshown
    intro hbreak
    exact hgiven (mem_of_unwrapBraces? hinner (Text.mem_of_mem_trim hbreak))
  · exact hshown hgiven

/-- Whether an attribute is an event handler that the template gives the body of. -/
def isHandler (entry : Attribute) : Bool :=
  "on".toList.isPrefixOf entry.1.toList && entry.2.toList.head? == some '\x7b'

/-- An attribute without line breaks that is no event handler. -/
structure FlatEntry (entry : Attribute) : Prop where
  oneLine_name : OneLine entry.1
  oneLine_value : OneLine entry.2
  not_handler : isHandler entry = false

/-- The property of an attribute is written on one line, unless it is an event handler. -/
theorem oneLine_property {noStatics : Bool} {entry : Attribute} {property : Property}
    (hentry : FlatEntry entry) (hproperty : Classified.property? noStatics entry = some property) :
    OneLine property.name ∧ OneLine property.expression := by
  obtain ⟨hname, hvalue, hhandler⟩ := hentry
  have hempty : OneLine (Script.quote "") := oneLine_quote (by decide)
  have hrole : ∀ expression issues,
      AttributeRole.ofAttribute entry = .property expression issues → OneLine expression := by
    intro expression issues hrole
    unfold AttributeRole.ofAttribute AttributeRole.ofValue at hrole
    dsimp only at hrole
    split at hrole
    · cases hrole
    · split at hrole
      · rename_i hbraced
        rw [isHandler, hbraced.1, hbraced.2] at hhandler
        cases hhandler
      · split at hrole
        · cases hrole
          exact hvalue
        · split at hrole
          · rename_i inner hinner
            unfold AttributeRole.ofWrapped at hrole
            split at hrole
            · cases hrole
              exact hempty
            · cases hrole
              exact oneLine_ofList.mpr fun hbreak => hvalue (mem_of_unwrapBraces? hinner hbreak)
          · split at hrole
            · cases hrole
              exact Interpolation.oneLine_expression hvalue
            · cases hrole
  unfold Classified.property? at hproperty
  split at hproperty
  · cases hproperty
  · rename_i expression issues hfound
    cases hproperty
    exact ⟨hname, hrole expression issues hfound⟩
  · split at hproperty
    · cases hproperty
      exact ⟨hname, oneLine_quote hvalue⟩
    · cases hproperty

theorem oneLine_keyVariable (number : Nat) : OneLine (keyVariable number) :=
  oneLine_append.mpr ⟨by decide, oneLine_toString number⟩

theorem oneLine_targetVariable (number : Nat) : OneLine (targetVariable number) :=
  oneLine_append.mpr ⟨by decide, oneLine_toString number⟩

theorem oneLine_loopKey {outer itemKey : Option String} {id : String}
    (houter : ∀ text ∈ outer, OneLine text) (hitem : ∀ text ∈ itemKey, OneLine text)
    (hid : OneLine id) : OneLine (loopKey outer itemKey id) := by
  have hquoted : OneLine (Script.quote ("_" ++ id)) :=
    oneLine_quote (oneLine_append.mpr ⟨by decide, hid⟩)
  have hinner {item : String} (hitem : OneLine item) :
      OneLine (item ++ " + " ++ Script.quote ("_" ++ id)) := by
    rw [oneLine_append, oneLine_append]
    exact ⟨⟨hitem, by decide⟩, hquoted⟩
  have hitem : OneLine ((itemKey.map ("(" ++ · ++ ")")).getD "$item") := by
    cases itemKey with
    | none => decide
    | some expression =>
      rw [Option.map_some, Option.getD_some, oneLine_append, oneLine_append]
      exact ⟨⟨by decide, hitem expression rfl⟩, by decide⟩
  have hkey : loopKey outer itemKey id =
      (outer.map (· ++ " + \"_\" + ")).getD "" ++
        ((itemKey.map ("(" ++ · ++ ")")).getD "$item" ++ " + " ++ Script.quote ("_" ++ id)) := by
    cases outer <;> cases itemKey <;> simp [loopKey]
  rw [hkey, oneLine_append]
  refine ⟨?_, hinner hitem⟩
  cases outer with
  | none => decide
  | some key => exact oneLine_append.mpr ⟨houter key rfl, by decide⟩

theorem ElementKey.oneLine_expression {key : ElementKey}
    (hgiven : ∀ text, key = .given text → OneLine text)
    (hid : ∀ id, key = .generated id → OneLine id) : OneLine key.expression := by
  cases key with
  | given text => exact oneLine_quote (hgiven text rfl)
  | generated id => exact oneLine_quote (hid id rfl)
  | ofLoop number => exact oneLine_keyVariable number
  | ofChild number ordinal =>
    rw [expression, childKey, oneLine_append, oneLine_append, oneLine_append]
    exact ⟨⟨⟨oneLine_keyVariable number, by decide⟩, oneLine_toString ordinal⟩, by decide⟩

namespace Phrase

/-- A phrase whose pieces of script are one line each. -/
def Flat (phrase : Phrase) : Prop :=
  ∀ text ∈ phrase.texts, OneLine text

theorem flat_of_texts {phrase : Phrase} {text : String} (htexts : phrase.texts = [text])
    (htext : OneLine text) : phrase.Flat := by
  intro other hother
  rw [htexts, List.mem_singleton] at hother
  rwa [hother]

theorem oneLine_enclosed {inside : String} (hinside : OneLine inside) {opening closing : String}
    (hopening : OneLine opening) (hclosing : OneLine closing) :
    OneLine (opening ++ inside ++ closing) :=
  oneLine_append.mpr ⟨oneLine_append.mpr ⟨hopening, hinside⟩, hclosing⟩

variable {inside : String} (hinside : OneLine inside)

include hinside

theorem flat_text : (text inside).Flat :=
  flat_of_texts rfl (oneLine_enclosed hinside (by decide) (by decide))

theorem flat_ifStart : (ifStart inside).Flat :=
  flat_of_texts rfl (oneLine_enclosed hinside (by decide) (by decide))

theorem flat_ifTurn : (ifTurn (some inside)).Flat :=
  flat_of_texts rfl (oneLine_enclosed hinside (by decide) (by decide))

theorem flat_elementEnd : (elementEnd inside).Flat :=
  flat_of_texts rfl (oneLine_enclosed (oneLine_quote hinside) (by decide) (by decide))

omit hinside

theorem flat_ifTurn_none : (ifTurn none).Flat :=
  flat_of_texts rfl (by decide)

theorem flat_skip : skip.Flat :=
  flat_of_texts rfl (by decide)

theorem flat_ifEnd : ifEnd.Flat :=
  flat_of_texts rfl (by decide)

theorem flat_loopEnd (number : Nat) : (loopEnd number).Flat := by
  intro text htext
  obtain rfl | htext := List.mem_cons.mp htext
  · decide
  · rw [List.mem_singleton.mp htext]
    decide

/-- The header of a loop has line breaks only if its id or its iteration has. -/
theorem flat_loopStart (number : Nat) (outer : Option Nat) {id : String} {clause : EachClause}
    (hid : OneLine id)
    (hclause : ∀ part ∈ clause.binding :: clause.target :: clause.itemKey.toList, OneLine part) :
    (loopStart number outer id clause).Flat := by
  have hvariable := oneLine_targetVariable number
  obtain ⟨hbinding, hrest⟩ := List.forall_mem_cons.mp hclause
  obtain ⟨htarget, hitem⟩ := List.forall_mem_cons.mp hrest
  have hitem : ∀ text ∈ clause.itemKey, OneLine text := fun text htext =>
    hitem text (Option.mem_toList.mpr htext)
  intro text htext
  obtain hfront | hkey := List.mem_append.mp htext
  · obtain hheader | hbound := List.mem_append.mp hfront
    · simp only [List.mem_cons, List.not_mem_nil, or_false] at hheader
      obtain rfl | rfl | rfl := hheader
      · simp only [targetLine, oneLine_append, hvariable, htarget, and_true]
        decide
      · simp only [ifHeader, oneLine_append, hvariable, true_and]
        decide
      · simp only [iterationHeader, oneLine_append, hvariable, and_true]
        decide
    · obtain hfetch | hnamed := List.mem_append.mp hbound
      · simp only [List.mem_cons, List.not_mem_nil, or_false] at hfetch
        obtain rfl | rfl := hfetch
        · simp only [oneLine_append, hvariable, and_true]
          decide
        · exact oneLine_enclosed hbinding (by decide) (by decide)
      · obtain ⟨itemKey, hitemKey, rfl⟩ := List.mem_map.mp hnamed
        have hgiven := (Option.filter_eq_some_iff.mp (Option.mem_toList.mp hitemKey)).1
        exact oneLine_enclosed (hitem itemKey hgiven) (by decide) (by decide)
  · obtain rfl := List.mem_singleton.mp hkey
    refine oneLine_append.mpr
      ⟨oneLine_enclosed (oneLine_keyVariable number) (by decide) (by decide), ?_⟩
    apply oneLine_loopKey _ hitem hid
    intro key hkey
    obtain ⟨enclosing, -, rfl⟩ := Option.map_eq_some_iff.mp hkey
    exact oneLine_keyVariable enclosing

end Phrase

theorem mem_of_directiveValue? {directive : Directive} {entries : List Attribute} {value : String}
    (hvalue : Classified.directiveValue? directive entries = some value) :
    ∃ entry ∈ entries, entry.2 = value := by
  obtain ⟨entry, hfound, rfl⟩ := Option.map_eq_some_iff.mp hvalue
  exact ⟨entry, List.mem_of_find?_eq_some hfound, rfl⟩

theorem mem_of_get? {attributes : Attributes} {name value : String}
    (hvalue : attributes.get? name = some value) : ∃ entry ∈ attributes.entries, entry.2 = value := by
  obtain ⟨entry, hfound, rfl⟩ := Option.map_eq_some_iff.mp hvalue
  exact ⟨entry, List.mem_of_find?_eq_some hfound, rfl⟩

theorem flat_skipPhrases {condition : String} (hcondition : OneLine condition) :
    ∀ phrase ∈ skipPhrases condition, phrase.Flat := by
  intro phrase hphrase
  simp only [skipPhrases, List.mem_cons, List.not_mem_nil, or_false] at hphrase
  obtain rfl | rfl | rfl := hphrase
  · exact Phrase.flat_ifStart hcondition
  · exact Phrase.flat_skip
  · exact Phrase.flat_ifTurn_none

theorem oneLine_parts {expression : String} (hexpression : OneLine expression) {clause : EachClause}
    (hclause : EachClause.parse? expression = some clause) :
    ∀ part ∈ clause.binding :: clause.target :: clause.itemKey.toList, OneLine part := by
  intro part hpart hbreak
  exact hexpression ((EachClause.parts_of_parse? hclause part hpart).1 hbreak)

namespace Rendering

variable {setting : Setting} {rendering : Rendering}

/-- A key with a text of its own is the `key` attribute or a drawn id. -/
theorem source_of_key {key : ElementKey} (hkey : rendering.key setting = some key) :
    (∀ text, key = .given text → rendering.attributes.get? "key" = some text) ∧
      ∀ id, key = .generated id → id = setting.ids rendering.session.drawn := by
  obtain hplaced | ⟨-, hgenerated⟩ := Option.or_eq_some_iff.mp hkey
  · rw [placedKey_eq] at hplaced
    split at hplaced
    · obtain ⟨text, htext, rfl⟩ := Option.map_eq_some_iff.mp hplaced
      constructor <;> intro other hsame <;> cases hsame
      exact htext
    · split at hplaced
      · cases hplaced
        constructor <;> intro text hsame <;> cases hsame
      · obtain ⟨loop, -, rfl⟩ := Option.map_eq_some_iff.mp hplaced
        constructor <;> intro text hsame <;> cases hsame
  · split at hgenerated
    · cases hgenerated
    · cases hgenerated
      constructor <;> intro id hsame <;> cases hsame
      rfl

variable (hids : ∀ drawn, OneLine (setting.ids drawn)) (hname : OneLine rendering.name)
  (hentries : ∀ entry ∈ rendering.attributes.entries, FlatEntry entry)

include hentries

theorem flatEntry_of_erase {name : String} :
    ∀ entry ∈ (rendering.attributes.erase name).entries, FlatEntry entry := by
  intro entry hentry
  exact hentries entry (List.mem_filter.mp hentry).1

theorem flat_behind : ∀ phrase ∈ rendering.behind setting, phrase.Flat := by
  intro phrase hphrase
  obtain ⟨value, hvalue, hskip⟩ := List.mem_flatMap.mp hphrase
  obtain ⟨entry, hentry, rfl⟩ := mem_of_directiveValue? (Option.mem_toList.mp hvalue)
  refine flat_skipPhrases (oneLine_conditionExpression ?_) phrase hskip
  intro text htext
  obtain rfl := Option.some.inj htext
  exact (flatEntry_of_erase hentries entry hentry).oneLine_value

include hids

theorem flat_before : ∀ phrase ∈ rendering.before setting, phrase.Flat := by
  intro phrase hphrase
  obtain hguard | hloop := List.mem_append.mp hphrase
  · obtain ⟨value, hvalue, rfl⟩ := List.mem_map.mp hguard
    obtain ⟨entry, hentry, rfl⟩ := mem_of_directiveValue? (Option.mem_toList.mp hvalue)
    refine Phrase.flat_ifStart (oneLine_conditionExpression ?_)
    intro text htext
    obtain rfl := Option.some.inj htext
    exact (flatEntry_of_erase hentries entry hentry).oneLine_value
  · obtain ⟨clause, hclause, rfl⟩ := List.mem_map.mp hloop
    obtain ⟨expression, hexpression, hparse⟩ :=
      Option.bind_eq_some_iff.mp (Option.mem_toList.mp hclause)
    obtain ⟨entry, hentry, rfl⟩ := mem_of_directiveValue? hexpression
    exact Phrase.flat_loopStart _ _ (hids _)
      (oneLine_parts (flatEntry_of_erase hentries entry hentry).oneLine_value hparse)

include hname

theorem flat_start : (rendering.start setting).Flat := by
  refine Phrase.flat_of_texts rfl (Script.Call.oneLine_elementOpen hname ?_ ?_ ?_)
  · intro text htext
    obtain ⟨key, hkey, rfl⟩ := Option.map_eq_some_iff.mp htext
    obtain ⟨hgiven, hgenerated⟩ := source_of_key hkey
    apply ElementKey.oneLine_expression
    · intro text htext
      obtain ⟨entry, hentry, rfl⟩ := mem_of_get? (hgiven text htext)
      exact (hentries entry hentry).oneLine_value
    · intro id hid
      rw [hgenerated id hid]
      exact hids _
  · intro text htext
    unfold identifier at htext
    split at htext
    · cases htext
    · obtain rfl := Option.some.inj htext
      exact oneLine_append.mpr ⟨by decide, oneLine_toString _⟩
  · intro property hproperty
    obtain ⟨entry, hentry, hproperty⟩ := List.mem_filterMap.mp hproperty
    exact oneLine_property (flatEntry_of_erase hentries entry hentry) hproperty

/-- An element without line breaks and handlers is written without line breaks. -/
theorem flat_phrases : ∀ phrase ∈ rendering.phrases setting, phrase.Flat := by
  intro phrase hphrase
  obtain hbefore | hrest := List.mem_append.mp hphrase
  · exact flat_before hids hentries phrase hbefore
  · obtain rfl | hbehind := List.mem_cons.mp hrest
    · exact flat_start hids hname hentries
    · exact flat_behind hentries phrase hbehind

end Rendering

/-- An event without line breaks and handlers. -/
structure FlatEvent (event : Event) : Prop where
  oneLine_strings : ∀ text ∈ event.strings, OneLine text
  not_handler : ∀ entry ∈ event.entries, isHandler entry = false

theorem FlatEvent.flatEntry {name : String} {attributes : Attributes} {span : Span}
    (hevent : FlatEvent (.opened name attributes span)) :
    ∀ entry ∈ attributes.entries, FlatEntry entry := by
  intro entry hentry
  have hstrings (text : String) (htext : text ∈ [entry.1, entry.2]) : OneLine text :=
    hevent.oneLine_strings text
      (List.mem_cons_of_mem _ (List.mem_flatMap.mpr ⟨entry, hentry, htext⟩))
  exact ⟨hstrings _ List.mem_cons_self, hstrings _ (List.mem_cons_of_mem _ List.mem_cons_self),
    hevent.not_handler entry hentry⟩

/-- Open tags with names without line breaks close without line breaks. -/
theorem flat_closing {frames : List Frame} (hnames : ∀ frame ∈ frames, OneLine frame.name) :
    ∀ phrase ∈ frames.flatMap Frame.closing, phrase.Flat := by
  intro phrase hphrase
  obtain ⟨frame, hframe, hclosing⟩ := List.mem_flatMap.mp hphrase
  have hname := hnames frame hframe
  have hend := isEnd_of_mem_closing hphrase
  cases phrase with
  | ifEnd => exact Phrase.flat_ifEnd
  | loopEnd number => exact Phrase.flat_loopEnd number
  | elementEnd name =>
    rw [frame.name_of_elementEnd hclosing]
    exact Phrase.flat_elementEnd hname
  | _ => cases hend

namespace Session

variable {setting : Setting} (hids : ∀ drawn, OneLine (setting.ids drawn))

theorem oneLine_openNames_feed {session : Session}
    (hnames : ∀ name ∈ session.openNames, OneLine name) {event : Event}
    (hevent : FlatEvent event) : ∀ name ∈ (session.feed setting event).openNames, OneLine name := by
  cases event with
  | opened name attributes span =>
    rw [feed, openNames_openTag]
    exact List.forall_mem_cons.mpr ⟨hevent.oneLine_strings name List.mem_cons_self, hnames⟩
  | text content span =>
    rw [feed, openNames_addText]
    exact hnames
  | closed name span =>
    intro other hother
    apply hnames
    rw [openNames, ← session.closedBy_append_frames name span, List.map_append]
    exact List.mem_append_right _ hother

theorem flat_textPhrases (session : Session) {content : String} (hcontent : OneLine content) :
    ∀ phrase ∈ session.textPhrases content, phrase.Flat := by
  intro phrase hphrase
  unfold textPhrases at hphrase
  split at hphrase
  · cases hphrase
  · split at hphrase
    · cases hphrase
    · obtain rfl := List.mem_singleton.mp hphrase
      exact Phrase.flat_of_texts rfl (Text.oneLine_trimmed hcontent)
    · obtain rfl := List.mem_singleton.mp hphrase
      exact Phrase.flat_text (Interpolation.oneLine_expression hcontent)

include hids

theorem flat_directivePhrases (session : Session) (name : String) {attributes : Attributes}
    (hentries : ∀ entry ∈ attributes.entries, FlatEntry entry) :
    ∀ phrase ∈ session.directivePhrases setting name attributes, phrase.Flat := by
  have hvalue {key value : String} (hget : attributes.get? key = some value) : OneLine value := by
    obtain ⟨entry, hentry, rfl⟩ := mem_of_get? hget
    exact (hentries entry hentry).oneLine_value
  have hcondition : OneLine (conditionExpression (tagCondition attributes)) := by
    apply oneLine_conditionExpression
    intro text htext
    obtain hfound | ⟨-, hfound⟩ := Option.or_eq_some_iff.mp htext <;> exact hvalue hfound
  have hbranch (isElse : Bool) : (branchPhrase isElse
      (conditionExpression (tagCondition attributes)) session.frames).Flat := by
    unfold branchPhrase
    split
    · cases isElse with
      | false => exact Phrase.flat_ifTurn hcondition
      | true => exact Phrase.flat_ifTurn_none
    · exact Phrase.flat_ifStart hcondition
  have hloop : ∀ clause, eachClause? name attributes = some clause →
      ∀ part ∈ clause.binding :: clause.target :: clause.itemKey.toList, OneLine part := by
    intro clause hclause
    unfold eachClause? at hclause
    split at hclause
    · refine oneLine_parts ?_ hclause
      cases hget : attributes.get? "expression" with
      | none => exact List.not_mem_nil
      | some expression => exact hvalue hget
    · cases hclause
  intro phrase hphrase
  unfold directivePhrases at hphrase
  dsimp only at hphrase
  cases hkind : TagKind.of name attributes <;> rw [hkind] at hphrase
  case ifTag =>
    obtain rfl := List.mem_singleton.mp hphrase
    exact Phrase.flat_ifStart hcondition
  case elseIfTag | elseTag =>
    obtain rfl := List.mem_singleton.mp hphrase
    exact hbranch _
  case eachTag =>
    obtain ⟨clause, hclause, rfl⟩ := List.mem_map.mp hphrase
    exact Phrase.flat_loopStart _ _ (hids _) (hloop clause (Option.mem_toList.mp hclause))
  case skipTag => exact flat_skipPhrases hcondition phrase hphrase
  case script | metadata | element => cases hphrase

/-- An event without line breaks and handlers is written without line breaks. -/
theorem flat_phrases {session : Session} (hnames : ∀ name ∈ session.openNames, OneLine name)
    {event : Event} (hevent : FlatEvent event) :
    ∀ phrase ∈ session.phrases setting event, phrase.Flat := by
  cases event with
  | opened name attributes span =>
    cases hrendering : session.rendering? (.opened name attributes span) with
    | none =>
      rw [phrases_of_directive setting hrendering]
      exact session.flat_directivePhrases hids name hevent.flatEntry
    | some rendering =>
      rw [phrases_of_rendering setting hrendering]
      obtain ⟨rfl, -⟩ := rendering?_eq_some hrendering
      exact Rendering.flat_phrases hids (hevent.oneLine_strings name List.mem_cons_self)
        hevent.flatEntry
  | text content span =>
    exact session.flat_textPhrases (hevent.oneLine_strings content List.mem_cons_self)
  | closed name span =>
    have hclosed : ∀ frame ∈ session.closedBy name, OneLine frame.name := by
      intro frame hframe
      apply hnames
      rw [openNames, ← session.closedBy_append_frames name span]
      exact List.mem_map.mpr ⟨frame, List.mem_append_left _ hframe, rfl⟩
    exact flat_closing hclosed

theorem flat_script {session : Session} (hnames : ∀ name ∈ session.openNames, OneLine name)
    {events : List Event} (hevents : ∀ event ∈ events, FlatEvent event) :
    (∀ phrase ∈ session.script setting events, phrase.Flat) ∧
      ∀ name ∈ (session.feedAll setting events).openNames, OneLine name := by
  induction events generalizing session with
  | nil => exact ⟨List.forall_mem_nil _, hnames⟩
  | cons event events ih =>
    obtain ⟨hevent, hlater⟩ := List.forall_mem_cons.mp hevents
    obtain ⟨hscript, hfinal⟩ := ih (oneLine_openNames_feed hnames hevent) hlater
    exact ⟨List.forall_mem_append.mpr ⟨flat_phrases hids hnames hevent, hscript⟩, hfinal⟩

/-- A template without line breaks and handlers is compiled to script that is written without line
    breaks. -/
theorem flat_wholeScript {events : List Event} (hevents : ∀ event ∈ events, FlatEvent event) :
    ∀ phrase ∈ wholeScript setting events, phrase.Flat := by
  have hstart : ∀ name ∈ start.openNames, OneLine name := List.forall_mem_nil _
  obtain ⟨hscript, hfinal⟩ := flat_script hids hstart hevents
  refine List.forall_mem_append.mpr ⟨hscript, flat_closing ?_⟩
  intro frame hframe
  exact hfinal frame.name (List.mem_map.mpr ⟨frame, hframe, rfl⟩)

end Session

end TemplateCompiler.Template
