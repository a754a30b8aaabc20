import TemplateCompiler.Proofs.LineBreaks

namespace TemplateCompiler.Script

open Text (isBlank trim)

section Scan

variable {σ α : Type}

/-- The state behind all items of a list, unless one of them is refused. -/
def scan (step : σ → α → Option σ) : σ → List α → Option σ
  | state, [] => some state
  | state, item :: items => (step state item).bind (scan step · items)

theorem scan_append {step : σ → α → Option σ} {state middle : σ} {items : List α}
    (hitems : scan step state items = some middle) (later : List α) :
    scan step state (items ++ later) = scan step middle later := by
  induction items generalizing state with
  | nil =>
    cases hitems
    rfl
  | cons item items ih =>
    obtain ⟨next, hnext, hrest⟩ := Option.bind_eq_some_iff.mp hitems
    rw [List.cons_append, scan, hnext]
    exact ih hrest

theorem scan_singleton (step : σ → α → Option σ) (state : σ) (item : α) :
    scan step state [item] = step state item := by
  cases hitem : step state item <;> simp [scan, hitem]

end Scan

/-- The lines of a script without the blanks around them. -/
def trimmedLines (lines : List String) : List (List Char) :=
  lines.map fun line => trim line.toList

/-- The number of open blocks behind a line. A line that starts with a closing brace ends a block, and
    one that ends with an opening brace starts one. -/
def blocksAfter? (blocks : Nat) (line : List Char) : Option Nat :=
  let started := if line.getLast? = some '\x7b' then 1 else 0
  if line.head? = some '\x7d' then
    match blocks with
    | 0 => none
    | outer + 1 => some (outer + started)
  else some (blocks + started)

/-- No line ends a block where none is open, and all blocks end. -/
def BlocksBalanced (lines : List String) : Prop :=
  scan blocksAfter? 0 (trimmedLines lines) = some 0

instance (lines : List String) : Decidable (BlocksBalanced lines) :=
  inferInstanceAs (Decidable (_ = _))

/-- The first string of a line that starts with a call, as far as the next quote. -/
def calledWith? (call : String) (line : List Char) : Option (List Char) :=
  (Text.dropPrefix? (call ++ "(\"").toList line).map (·.takeWhile (· != '"'))

/-- The names of the open elements behind a line, innermost first. -/
def elementsAfter? (names : List (List Char)) (line : List Char) : Option (List (List Char)) :=
  match calledWith? "elementOpen" line, calledWith? "elementClose" line with
  | some name, _ => some (name :: names)
  | none, none => some names
  | none, some name => if names.head? = some name then some names.tail else none

/-- Every element that closes is the innermost open one, and all elements close. -/
def ElementsBalanced (lines : List String) : Prop :=
  scan elementsAfter? [] (trimmedLines lines) = some []

instance (lines : List String) : Decidable (ElementsBalanced lines) :=
  inferInstanceAs (Decidable (_ = _))

/-- A rendered listing reads as its pieces of script do, if these are one line each. -/
theorem trimmedLines_render (width : Nat) {listing : Listing}
    (hlisting : ∀ text ∈ listing.texts, Text.OneLine text) :
    trimmedLines (listing.render width) = trimmedLines listing.texts := by
  rw [← Listing.map_text_lines_of_oneLine hlisting, trimmedLines, trimmedLines, Listing.render, List.map_map,
    List.map_map]
  exact List.map_congr_left fun line _ => Text.trim_spaces_append _ line.text

/-- The first and the last character of a piece of script, of which neither is blank. -/
structure Ends (text : String) (first last : Char) : Prop where
  head?_eq : text.toList.head? = some first
  getLast?_eq : text.toList.getLast? = some last
  first_not_blank : isBlank first = false
  last_not_blank : isBlank last = false

namespace Ends

variable {text : String} {first last : Char}

theorem append {opening closing : String} (hopening : opening.toList.head? = some first)
    (hclosing : closing.toList.getLast? = some last) (hfirst : isBlank first = false)
    (hlast : isBlank last = false) : Ends (opening ++ closing) first last := by
  refine ⟨?_, ?_, hfirst, hlast⟩
  · rw [String.toList_append, List.head?_append, hopening]
    rfl
  · rw [String.toList_append, List.getLast?_append, hclosing]
    rfl

theorem trim_eq (h : Ends text first last) : trim text.toList = text.toList :=
  Text.trim_append h.head?_eq h.getLast?_eq h.first_not_blank h.last_not_blank []

theorem blocksAfter?_of_ne (h : Ends text first last) (hfirst : first ≠ '\x7d') (blocks : Nat) :
    blocksAfter? blocks (trim text.toList) = some (blocks + if last = '\x7b' then 1 else 0) := by
  rw [h.trim_eq]
  unfold blocksAfter?
  simp [h.head?_eq, h.getLast?_eq, hfirst]

theorem blocksAfter?_succ (h : Ends text '\x7d' last) (outer : Nat) :
    blocksAfter? (outer + 1) (trim text.toList) = some (outer + if last = '\x7b' then 1 else 0) := by
  rw [h.trim_eq]
  unfold blocksAfter?
  simp [h.head?_eq, h.getLast?_eq]

/-- A line that does not start as the calls about elements do leaves the elements as they are. -/
theorem elementsAfter?_eq (h : Ends text first last) (hfirst : first ≠ 'e')
    (names : List (List Char)) : elementsAfter? names (trim text.toList) = some names := by
  obtain ⟨rest, hrest⟩ := List.head?_eq_some_iff.mp h.head?_eq
  have hcall (call : String) (hcall : call.toList.head? = some 'e') :
      calledWith? call (first :: rest) = none := by
    obtain ⟨letters, hletters⟩ := List.head?_eq_some_iff.mp hcall
    rw [calledWith?, String.toList_append, hletters, List.cons_append, Text.dropPrefix?,
      if_neg (Ne.symm hfirst)]
    rfl
  rw [h.trim_eq, hrest, elementsAfter?, hcall _ rfl, hcall _ rfl]

end Ends

end TemplateCompiler.Script

namespace TemplateCompiler.Template

open Markup (Attributes Event Span)
open Script (BlocksBalanced ElementsBalanced Ends blocksAfter? calledWith? elementsAfter? scan
  scan_append trimmedLines)

/-- What a script has opened and not closed: blocks, and elements, innermost first. -/
structure Standing where
  blocks : Nat
  elements : List String
deriving DecidableEq, Repr

/-- Nothing is open. -/
def Standing.empty : Standing := ⟨0, []⟩

/-- What is open behind a phrase, unless it ends something that is not open. -/
def Phrase.standingAfter? (standing : Standing) : Phrase → Option Standing
  | literal _ | text _ | skip => some standing
  | ifStart _ => some { standing with blocks := standing.blocks + 1 }
  | ifTurn _ => if standing.blocks = 0 then none else some standing
  | ifEnd =>
    if standing.blocks = 0 then none else some { standing with blocks := standing.blocks - 1 }
  | loopStart _ _ _ _ => some { standing with blocks := standing.blocks + 2 }
  | loopEnd _ =>
    if standing.blocks < 2 then none else some { standing with blocks := standing.blocks - 2 }
  | elementStart name _ _ _ => some { standing with elements := name :: standing.elements }
  | elementEnd name =>
    if standing.elements.head? = some name then
      some { standing with elements := standing.elements.tail }
    else none

section Lines

/-- The name of an element as the scan of the lines sees it: its string literal up to the first quote
    inside. -/
def shownName (name : String) : List Char :=
  (name.toList.flatMap Script.escape).takeWhile (· != '"')

/-- Both scans read pieces of script, one line each, from one standing to another. -/
structure Reads (texts : List String) (before after : Standing) : Prop where
  blocks_eq : scan blocksAfter? before.blocks (trimmedLines texts) = some after.blocks
  elements_eq : scan elementsAfter? (before.elements.map shownName) (trimmedLines texts) =
    some (after.elements.map shownName)

namespace Reads

variable {texts later : List String} {before middle after standing : Standing} {text : String}
  {first last : Char}

theorem nil (standing : Standing) : Reads [] standing standing :=
  ⟨rfl, rfl⟩

theorem append (h : Reads texts before middle) (hlater : Reads later middle after) :
    Reads (texts ++ later) before after := by
  have hlines : trimmedLines (texts ++ later) = trimmedLines texts ++ trimmedLines later :=
    List.map_append
  constructor
  · rw [hlines, scan_append h.blocks_eq, hlater.blocks_eq]
  · rw [hlines, scan_append h.elements_eq, hlater.elements_eq]

theorem cons (h : Reads [text] before middle) (hlater : Reads later middle after) :
    Reads (text :: later) before after :=
  h.append hlater

theorem of_lines (hblocks : blocksAfter? before.blocks (Text.trim text.toList) = some after.blocks)
    (helements : elementsAfter? (before.elements.map shownName) (Text.trim text.toList) =
      some (after.elements.map shownName)) : Reads [text] before after := by
  constructor
  · exact (Script.scan_singleton _ _ _).trans hblocks
  · exact (Script.scan_singleton _ _ _).trans helements

/-- A line that neither starts with a closing brace nor ends with an opening one opens and closes no
    block. -/
theorem level (h : Ends text first last) (hfirst : first ≠ '\x7d') (hlast : last ≠ '\x7b')
    (hcall : first ≠ 'e') (standing : Standing) : Reads [text] standing standing := by
  refine of_lines ?_ (h.elementsAfter?_eq hcall _)
  rw [h.blocksAfter?_of_ne hfirst, if_neg hlast, Nat.add_zero]

theorem opening (h : Ends text first '\x7b') (hfirst : first ≠ '\x7d') (hcall : first ≠ 'e')
    (standing : Standing) :
    Reads [text] standing { standing with blocks := standing.blocks + 1 } := by
  refine of_lines ?_ (h.elementsAfter?_eq hcall _)
  rw [h.blocksAfter?_of_ne hfirst, if_pos rfl]

theorem turning (h : Ends text '\x7d' '\x7b') (hopen : standing.blocks ≠ 0) :
    Reads [text] standing standing := by
  refine of_lines ?_ (h.elementsAfter?_eq (by decide) _)
  obtain ⟨outer, houter⟩ := Nat.exists_eq_succ_of_ne_zero hopen
  rw [houter, h.blocksAfter?_succ, if_pos rfl]

theorem closing (h : Ends text '\x7d' last) (hlast : last ≠ '\x7b')
    (hopen : standing.blocks ≠ 0) :
    Reads [text] standing { standing with blocks := standing.blocks - 1 } := by
  refine of_lines ?_ (h.elementsAfter?_eq (by decide) _)
  obtain ⟨outer, houter⟩ := Nat.exists_eq_succ_of_ne_zero hopen
  rw [houter, h.blocksAfter?_succ, if_neg hlast]
  rfl

end Reads

/-- A call about an element shows the same name whatever follows the string literal of the name. -/
theorem calledWith?_append (call name : String) (rest : List Char) :
    calledWith? call (call.toList ++ '(' :: (Script.quote name).toList ++ rest) =
      some (shownName name) := by
  have hquote : (Script.quote name).toList = '"' :: (name.toList.flatMap Script.escape ++ ['"']) :=
    String.toList_ofList
  have hsplit : call.toList ++ '(' :: (Script.quote name).toList ++ rest =
      (call ++ "(\"").toList ++ (name.toList.flatMap Script.escape ++ '"' :: rest) := by
    rw [hquote, String.toList_append]
    simp
  rw [calledWith?, hsplit, Text.dropPrefix?_eq_some_iff.mpr rfl, Option.map_some, shownName]
  induction name.toList.flatMap Script.escape with
  | nil => rfl
  | cons c cs ih =>
    by_cases hc : c = '"'
    · subst hc
      rfl
    · have hkept : (c != '"') = true := bne_iff_ne.mpr hc
      rw [List.cons_append, List.takeWhile_cons, List.takeWhile_cons, hkept]
      simpa using ih

theorem ends_enclosed (inside : String) {opening closing : String} {first last : Char}
    (hopening : opening.toList.head? = some first) (hclosing : closing.toList.getLast? = some last)
    (hfirst : Text.isBlank first = false) (hlast : Text.isBlank last = false) :
    Ends (opening ++ inside ++ closing) first last := by
  refine Ends.append ?_ hclosing hfirst hlast
  rw [String.toList_append, List.head?_append, hopening]
  rfl

theorem reads_declaration (name : String) {value : String} {last : Char}
    (hlast : value.toList.getLast? = some last) (hblank : Text.isBlank last = false)
    (hbrace : last ≠ '\x7b') (standing : Standing) :
    Reads ["var " ++ name ++ " = " ++ value] standing standing := by
  have hends : Ends ("var " ++ name ++ " = " ++ value) 'v' last := by
    refine Ends.append ?_ hlast (by decide) hblank
    rw [String.toList_append, List.head?_append, String.toList_append, List.head?_append]
    rfl
  exact Reads.level hends (by decide) hbrace (by decide) standing

theorem reads_bindingLines (number : Nat) (clause : EachClause) (standing : Standing) :
    Reads (bindingLines number clause) standing standing := by
  have hfetch : Reads ["if (!" ++ targetVariable number ++
      ".forEach) \x7b $item = $value; $value = " ++ targetVariable number ++ "[$item] \x7d"]
      standing standing := by
    have hends : Ends ("if (!" ++ targetVariable number ++
        ".forEach) \x7b $item = $value; $value = " ++ targetVariable number ++ "[$item] \x7d")
        'i' '\x7d' := by
      refine Ends.append ?_ rfl (by decide) (by decide)
      simp only [String.toList_append, List.head?_append]
      rfl
    exact Reads.level hends (by decide) (by decide) (by decide) standing
  have hvalue : Reads ["var " ++ clause.binding ++ " = $value"] standing standing :=
    Reads.level (ends_enclosed clause.binding rfl rfl (by decide) (by decide)) (by decide)
      (by decide) (by decide) standing
  have hitem : Reads (clause.itemBinding.toList.map fun itemKey => "var " ++ itemKey ++ " = $item")
      standing standing := by
    cases clause.itemBinding with
    | none => exact Reads.nil standing
    | some itemKey =>
      exact Reads.level (ends_enclosed itemKey rfl rfl (by decide) (by decide)) (by decide)
        (by decide) (by decide) standing
  exact (hfetch.cons hvalue).append hitem

theorem getLast?_quote (s : String) : (Script.quote s).toList.getLast? = some '"' := by
  rw [Script.quote, String.toList_ofList, Script.quoteChars, ← List.cons_append,
    List.getLast?_concat]

theorem getLast?_loopKey (outer itemKey : Option String) (id : String) :
    (loopKey outer itemKey id).toList.getLast? = some '"' := by
  have hinner (item : String) :
      (item ++ " + " ++ Script.quote ("_" ++ id)).toList.getLast? = some '"' := by
    rw [String.toList_append, List.getLast?_append, getLast?_quote]
    rfl
  cases outer with
  | none => exact hinner _
  | some outer =>
    unfold loopKey
    dsimp only
    rw [String.toList_append, List.getLast?_append, hinner]
    rfl

/-- The header of a loop opens two blocks, unless a brace ends the target. -/
theorem reads_loopStart (number : Nat) (outer : Option Nat) (id : String) {clause : EachClause}
    {last : Char} (htarget : clause.target.toList.getLast? = some last)
    (hblank : Text.isBlank last = false) (hbrace : last ≠ '\x7b') (standing : Standing) :
    Reads (Phrase.loopStart number outer id clause).texts standing
      { standing with blocks := standing.blocks + 2 } := by
  have hguard : Ends (ifHeader (targetVariable number ++ " != null")) 'i' '\x7b' :=
    ends_enclosed _ rfl rfl (by decide) (by decide)
  have hheader : Ends (iterationHeader number) ';' '\x7b' := by
    refine Ends.append ?_ rfl (by decide) (by decide)
    simp only [String.toList_append, List.head?_append]
    rfl
  have hopened := (reads_declaration (targetVariable number) htarget hblank hbrace standing).cons
    ((Reads.opening hguard (by decide) (by decide) standing).cons
      (Reads.opening hheader (by decide) (by decide) _))
  have hkey := reads_declaration (keyVariable number)
    (getLast?_loopKey (outer.map keyVariable) clause.itemKey id) (by decide) (by decide)
    { standing with blocks := standing.blocks + 2 }
  exact (hopened.append (reads_bindingLines number clause _)).append hkey

theorem exists_toList_elementOpen (name : String) (key statics : Option String)
    (properties : List Script.Property) :
    ∃ rest, (Script.Call.elementOpen name key statics properties).toList =
      "elementOpen".toList ++ '(' :: (Script.quote name).toList ++ rest := by
  obtain ⟨arguments, harguments⟩ : ∃ arguments,
      Script.Call.openArguments name key statics properties = Script.quote name :: arguments := by
    cases properties with
    | nil => exact ⟨_, rfl⟩
    | cons property properties => exact ⟨_, rfl⟩
  rw [Script.Call.elementOpen, harguments, String.toList_append, String.toList_append]
  cases arguments with
  | nil =>
    rw [String.intercalate_singleton]
    exact ⟨_, rfl⟩
  | cons argument arguments =>
    refine ⟨", ".toList ++ (", ".intercalate (argument :: arguments)).toList ++ [')'], ?_⟩
    rw [String.intercalate_cons_cons, String.toList_append, String.toList_append]
    simp

theorem reads_elementOpen (name : String) (key statics : Option String)
    (properties : List Script.Property) (standing : Standing) :
    Reads [Script.Call.elementOpen name key statics properties] standing
      { standing with elements := name :: standing.elements } := by
  have hends : Ends (Script.Call.elementOpen name key statics properties) 'e' ')' :=
    ends_enclosed _ rfl rfl (by decide) (by decide)
  obtain ⟨rest, hrest⟩ := exists_toList_elementOpen name key statics properties
  refine Reads.of_lines ?_ ?_
  · rw [hends.blocksAfter?_of_ne (by decide)]
    rfl
  · rw [hends.trim_eq, hrest, elementsAfter?, calledWith?_append]
    rfl

theorem reads_elementClose {name : String} {standing : Standing}
    (hinner : standing.elements.head? = some name) :
    Reads [Script.Call.elementClose name] standing
      { standing with elements := standing.elements.tail } := by
  have hends : Ends (Script.Call.elementClose name) 'e' ')' :=
    ends_enclosed _ rfl rfl (by decide) (by decide)
  have htext : (Script.Call.elementClose name).toList =
      "elementClose".toList ++ '(' :: (Script.quote name).toList ++ [')'] := by
    rw [Script.Call.elementClose, String.toList_append, String.toList_append]
    rfl
  have hopening : calledWith? "elementOpen"
      ("elementClose".toList ++ '(' :: (Script.quote name).toList ++ [')']) = none := rfl
  obtain ⟨outer, houter⟩ := List.head?_eq_some_iff.mp hinner
  refine Reads.of_lines ?_ ?_
  · rw [hends.blocksAfter?_of_ne (by decide)]
    rfl
  · rw [hends.trim_eq, htext, elementsAfter?, hopening, calledWith?_append, houter]
    exact if_pos rfl

/-- Whether the lines of a phrase show what it does: it is no script of the template, and a loop's
    target does not end with a brace. -/
def Phrase.Clear : Phrase → Prop
  | literal _ => False
  | loopStart _ _ _ clause => ∃ last, clause.target.toList.getLast? = some last ∧
      Text.isBlank last = false ∧ last ≠ '\x7b'
  | _ => True

/-- The lines of a phrase read as the phrase stands for. -/
theorem Phrase.reads_texts {phrase : Phrase} (hclear : phrase.Clear) {before after : Standing}
    (hstep : phrase.standingAfter? before = some after) : Reads phrase.texts before after := by
  cases phrase with
  | literal code => exact hclear.elim
  | text expression =>
    cases hstep
    exact Reads.level (ends_enclosed expression rfl rfl (by decide) (by decide)) (by decide)
      (by decide) (by decide) before
  | skip =>
    cases hstep
    have hends : Ends Script.Call.skip 's' ')' := ⟨rfl, rfl, by decide, by decide⟩
    exact Reads.level hends (by decide) (by decide) (by decide) before
  | ifStart condition =>
    cases hstep
    exact Reads.opening (ends_enclosed condition rfl rfl (by decide) (by decide)) (by decide)
      (by decide) before
  | ifTurn condition =>
    obtain ⟨hopen, hsame⟩ := Option.ite_none_left_eq_some.mp hstep
    cases hsame
    cases condition with
    | none =>
      have hends : Ends elseHeader '\x7d' '\x7b' := ⟨rfl, rfl, by decide, by decide⟩
      exact Reads.turning hends hopen
    | some condition =>
      exact Reads.turning (ends_enclosed condition rfl rfl (by decide) (by decide)) hopen
  | ifEnd =>
    obtain ⟨hopen, hsame⟩ := Option.ite_none_left_eq_some.mp hstep
    cases hsame
    have hends : Ends blockEnd '\x7d' '\x7d' := ⟨rfl, rfl, by decide, by decide⟩
    exact Reads.closing hends (by decide) hopen
  | loopStart number outer id clause =>
    cases hstep
    obtain ⟨last, htarget, hblank, hbrace⟩ := hclear
    exact reads_loopStart number outer id htarget hblank hbrace before
  | loopEnd number =>
    obtain ⟨hopen, hsame⟩ := Option.ite_none_left_eq_some.mp hstep
    cases hsame
    have hiteration : Ends iterationEnd '\x7d' ')' := ⟨rfl, rfl, by decide, by decide⟩
    have hblock : Ends blockEnd '\x7d' '\x7d' := ⟨rfl, rfl, by decide, by decide⟩
    refine (Reads.closing hiteration (by decide) (by omega)).cons
      (Reads.closing hblock (by decide) ?_)
    dsimp only
    omega
  | elementStart name key identifier properties =>
    cases hstep
    exact reads_elementOpen name _ _ _ before
  | elementEnd name =>
    obtain ⟨hinner, hsame⟩ := Option.ite_none_right_eq_some.mp hstep
    cases hsame
    exact reads_elementClose hinner

end Lines

/-- Phrases that are clear are read as they stand for. -/
theorem reads_of_scan {phrases : List Phrase} (hclear : ∀ phrase ∈ phrases, phrase.Clear)
    {before after : Standing} (hscan : scan Phrase.standingAfter? before phrases = some after) :
    Reads (phrases.flatMap Phrase.texts) before after := by
  induction phrases generalizing before with
  | nil =>
    cases hscan
    exact Reads.nil _
  | cons phrase phrases ih =>
    obtain ⟨hphrase, hlater⟩ := List.forall_mem_cons.mp hclear
    obtain ⟨middle, hstep, hrest⟩ := Option.bind_eq_some_iff.mp hscan
    exact (Phrase.reads_texts hphrase hstep).append (ih hlater hrest)

section OpenTags

/-- What is open inside a tag. -/
def Frame.standing (frame : Frame) (outer : Standing) : Standing :=
  match frame.kind with
  | .template | .literal _ | .branch | .each none => outer
  | .conditional _ | .skip => { outer with blocks := outer.blocks + 1 }
  | .each (some _) => { outer with blocks := outer.blocks + 2 }
  | .element guarded loop skip =>
    { blocks := outer.blocks + (if guarded then 1 else 0) + (if loop.isSome then 2 else 0) +
        (if skip then 1 else 0)
      elements := frame.name :: outer.elements }

/-- What is open inside all open tags. -/
def standing (frames : List Frame) : Standing :=
  frames.foldr Frame.standing .empty

theorem standing_eq (frames : List Frame) :
    standing frames = (frames.map Frame.standing).foldr (fun enter outer => enter outer) .empty := by
  rw [List.foldr_map]
  rfl

theorem Frame.standing_withChildren (count : Nat) (frame : Frame) :
    Frame.standing { frame with kind := frame.kind.withChildren count } = frame.standing := by
  obtain ⟨name, kind, span⟩ := frame
  rcases kind with _ | _ | _ | _ | _ | (_ | _) | _ <;> rfl

theorem Frame.standing_withElseSeen (elseSeen : Bool) (frame : Frame) :
    Frame.standing { frame with kind := frame.kind.withElseSeen elseSeen } = frame.standing := by
  obtain ⟨name, kind, span⟩ := frame
  cases kind <;> rfl

/-- Where a branch finds a conditional, the block of that one is open. -/
theorem blocks_ne_zero_of_openChain {frames : List Frame} {elseSeen : Bool}
    (hchain : openChain frames = some elseSeen) : (standing frames).blocks ≠ 0 := by
  induction frames with
  | nil => cases hchain
  | cons frame frames ih =>
    obtain ⟨name, kind, span⟩ := frame
    cases kind with
    | branch => exact ih hchain
    | conditional _ => exact Nat.succ_ne_zero _
    | _ => cases hchain

/-- Closing a tag ends what it has opened. -/
theorem Frame.scan_closing (frame : Frame) (outer : Standing) :
    scan Phrase.standingAfter? (frame.standing outer) frame.closing = some outer := by
  obtain ⟨name, kind, span⟩ := frame
  rcases kind with _ | _ | _ | _ | _ | (_ | loop) | ⟨guarded, loop, skip⟩
  case element =>
    cases guarded <;> cases loop <;> cases skip <;>
      simp +arith [Frame.standing, Frame.closing, scan, Phrase.standingAfter?]
  all_goals simp [Frame.standing, Frame.closing, scan, Phrase.standingAfter?]

theorem scan_closing (frames outer : List Frame) :
    scan Phrase.standingAfter? (standing (frames ++ outer)) (frames.flatMap Frame.closing) =
      some (standing outer) := by
  induction frames with
  | nil => rfl
  | cons frame frames ih =>
    have hframe := frame.scan_closing (standing (frames ++ outer))
    rw [List.flatMap_cons]
    exact (scan_append hframe _).trans ih

end OpenTags

/-- The phrases of an element open what stands inside it. -/
theorem Rendering.scan_phrases (setting : Setting) (rendering : Rendering) (span : Span) :
    scan Phrase.standingAfter? (standing rendering.session.frames) (rendering.phrases setting) =
      some (Frame.standing ⟨rendering.name, rendering.frameKind setting, span⟩
        (standing rendering.session.frames)) := by
  unfold phrases before behind start frameKind ownLoop?
  generalize (rendering.classified setting).condition = condition
  generalize rendering.clause? setting = clause
  generalize (rendering.classified setting).skip = skip
  cases condition <;> cases clause <;> cases skip <;> rfl

namespace Session

variable (setting : Setting) (session : Session)

theorem scan_branchPhrase (isElse : Bool) (name condition : String) (frames : List Frame)
    (span : Span) :
    scan Phrase.standingAfter? (standing frames) [branchPhrase isElse condition frames] =
      some (Frame.standing ⟨name,
        if openChain frames = some false then .branch else .conditional false, span⟩
          (standing frames)) := by
  rw [Script.scan_singleton, branchPhrase, continueChain_eq]
  cases hchain : openChain frames with
  | none => rfl
  | some elseSeen =>
    cases elseSeen with
    | true => rfl
    | false => exact if_neg (blocks_ne_zero_of_openChain hchain)

/-- The phrases of a tag that is no element open what stands inside it. -/
theorem scan_directivePhrases (name : String) (attributes : Attributes) (span : Span) :
    scan Phrase.standingAfter? (standing session.frames)
        (session.directivePhrases setting name attributes) =
      some (Frame.standing ⟨name, session.directiveKind name attributes, span⟩
        (standing session.frames)) := by
  unfold directivePhrases directiveKind
  dsimp only
  cases TagKind.of name attributes with
  | ifTag | skipTag | script | metadata | element => rfl
  | elseIfTag | elseTag => exact scan_branchPhrase _ name _ session.frames span
  | eachTag => cases eachClause? name attributes <;> rfl

theorem scan_textPhrases (content : String) (standing : Standing) :
    scan Phrase.standingAfter? standing (session.textPhrases content) = some standing := by
  unfold textPhrases
  split
  · rfl
  · split <;> rfl

/-- The phrases of an event lead from what is open inside the open tags before it to what is open
    inside those behind it. -/
theorem scan_phrases (event : Event) :
    scan Phrase.standingAfter? (standing session.frames) (session.phrases setting event) =
      some (standing (session.feed setting event).frames) := by
  cases event with
  | opened name attributes span =>
    rw [feed]
    cases hrendering : session.rendering? (.opened name attributes span) with
    | none =>
      have houter : standing (session.directiveOuter name attributes) = standing session.frames := by
        rw [standing_eq, session.map_directiveOuter name attributes Frame.standing_withElseSeen,
          ← standing_eq]
      rw [phrases_of_directive setting hrendering, openTag_directive_eq setting hrendering,
        session.scan_directivePhrases setting name attributes span]
      exact congrArg (fun outer => some (Frame.standing _ outer)) houter.symm
    | some rendering =>
      rw [phrases_of_rendering setting hrendering, openTag_rendering_eq setting hrendering]
      obtain ⟨rfl, -⟩ := rendering?_eq_some hrendering
      let rendering : Rendering := ⟨session, name, attributes⟩
      have hcounted : standing (rendering.counted setting) = standing session.frames := by
        rw [standing_eq, map_counted setting rendering Frame.standing_withChildren, ← standing_eq]
      refine (rendering.scan_phrases setting span).trans ?_
      exact congrArg (fun outer => some (Frame.standing _ outer)) hcounted.symm
  | text content span =>
    rw [feed, addText_eq]
    exact session.scan_textPhrases content _
  | closed name span =>
    have hclosing := scan_closing (session.closedBy name) (session.closeTag name span).frames
    rw [closedBy_append_frames] at hclosing
    exact hclosing

theorem scan_script (events : List Event) :
    scan Phrase.standingAfter? (standing session.frames) (session.script setting events) =
      some (standing (session.feedAll setting events).frames) := by
  induction events generalizing session with
  | nil => rfl
  | cons event events ih =>
    rw [script, scan_append (session.scan_phrases setting event)]
    exact ih _

/-- Whatever is fed, the whole script ends all that it starts, in order. -/
theorem scan_wholeScript (events : List Event) :
    scan Phrase.standingAfter? .empty (wholeScript setting events) = some .empty := by
  have hclosing := scan_closing (start.feedAll setting events).frames []
  rw [List.append_nil] at hclosing
  exact (scan_append (start.scan_script setting events) _).trans hclosing

end Session

/-- Whether an event opens a script that is kept as written. -/
def opensScript : Event → Bool
  | .opened name attributes _ => TagKind.of name attributes = .script
  | _ => false

/-- The iterations that the tag of an event may open a loop for. -/
def eachExpressions : Event → List String
  | .opened name attributes _ =>
    match TagKind.of name attributes with
    | .eachTag => (attributes.get? "expression").toList
    | .element | .metadata => (attributes.get? "each").toList
    | _ => []
  | _ => []

/-- An event without line breaks that adds no script of its own: it is no script, and has neither an
    event handler nor an iteration with braces. -/
structure TameEvent (event : Event) : Prop extends FlatEvent event where
  not_script : opensScript event = false
  brace_free : ∀ expression ∈ eachExpressions event,
    expression.toList.any Interpolation.isBrace = false

instance (event : Event) : Decidable (TameEvent event) :=
  decidable_of_iff ((∀ text ∈ event.strings, Text.OneLine text) ∧
      (∀ entry ∈ event.entries, isHandler entry = false) ∧ opensScript event = false ∧
      ∀ expression ∈ eachExpressions event, expression.toList.any Interpolation.isBrace = false)
    ⟨fun h => ⟨⟨h.1, h.2.1⟩, h.2.2.1, h.2.2.2⟩,
      fun h => ⟨h.oneLine_strings, h.not_handler, h.not_script, h.brace_free⟩⟩

/-- The target of an iteration without braces ends with a character that is neither blank nor a
    brace. -/
theorem clear_loopStart (number : Nat) (outer : Option Nat) (id : String) {expression : String}
    {clause : EachClause} (hclause : EachClause.parse? expression = some clause)
    (hbraces : expression.toList.any Interpolation.isBrace = false) :
    (Phrase.loopStart number outer id clause).Clear := by
  obtain ⟨hchars, htarget⟩ := EachClause.parts_of_parse? hclause clause.target
    (List.mem_cons_of_mem _ List.mem_cons_self)
  obtain ⟨last, hlast⟩ : ∃ last, clause.target.toList.getLast? = some last :=
    ⟨_, List.getLast?_eq_some_getLast htarget.toList_ne_nil⟩
  refine ⟨last, hlast, htarget.last_not_blank last hlast, ?_⟩
  rintro rfl
  have hbrace := List.any_eq_false.mp hbraces _ (hchars (List.mem_of_getLast? hlast))
  exact hbrace rfl

theorem clear_closing (frames : List Frame) :
    ∀ phrase ∈ frames.flatMap Frame.closing, phrase.Clear := by
  intro phrase hphrase
  have hend := isEnd_of_mem_closing hphrase
  cases phrase with
  | ifEnd | loopEnd | elementEnd => trivial
  | _ => cases hend

theorem clear_skipPhrases (condition : String) :
    ∀ phrase ∈ skipPhrases condition, phrase.Clear := by
  simp [skipPhrases, Phrase.Clear]

theorem Rendering.clear_phrases (setting : Setting) {rendering : Rendering}
    (hbraces : ∀ expression ∈ rendering.attributes.get? "each",
      expression.toList.any Interpolation.isBrace = false) :
    ∀ phrase ∈ rendering.phrases setting, phrase.Clear := by
  intro phrase hphrase
  obtain hbefore | hrest := List.mem_append.mp hphrase
  · obtain hguard | hloop := List.mem_append.mp hbefore
    · obtain ⟨value, -, rfl⟩ := List.mem_map.mp hguard
      trivial
    · obtain ⟨clause, hclause, rfl⟩ := List.mem_map.mp hloop
      rw [clause?_eq] at hclause
      obtain ⟨expression, hexpression, hparse⟩ :=
        Option.bind_eq_some_iff.mp (Option.mem_toList.mp hclause)
      exact clear_loopStart _ _ _ hparse (hbraces expression hexpression)
  · obtain rfl | hbehind := List.mem_cons.mp hrest
    · trivial
    · obtain ⟨value, -, hskip⟩ := List.mem_flatMap.mp hbehind
      exact clear_skipPhrases _ phrase hskip

namespace Session

/-- No open tag is a script that is kept as written. -/
def Scriptless (frames : List Frame) : Prop :=
  ∀ script ∈ frames.map (·.kind.script?), script = none

theorem Scriptless.cons {frame : Frame} {frames : List Frame} (h : Scriptless frames)
    (hframe : frame.kind.script? = none) : Scriptless (frame :: frames) :=
  List.forall_mem_cons.mpr ⟨hframe, h⟩

theorem script?_directiveKind (session : Session) {name : String} {attributes : Attributes}
    (hkind : TagKind.of name attributes ≠ .script) :
    (session.directiveKind name attributes).script? = none := by
  unfold directiveKind
  cases hfound : TagKind.of name attributes with
  | script => exact (hkind hfound).elim
  | elseIfTag | elseTag =>
    dsimp only
    split <;> rfl
  | _ => rfl

variable (setting : Setting) {session : Session} {event : Event}

theorem scriptless_feed (hframes : Scriptless session.frames) (hscript : opensScript event = false) :
    Scriptless (session.feed setting event).frames := by
  cases event with
  | opened name attributes span =>
    rw [feed]
    cases hrendering : session.rendering? (.opened name attributes span) with
    | none =>
      rw [openTag_directive_eq setting hrendering]
      refine Scriptless.cons ?_ (session.script?_directiveKind (of_decide_eq_false hscript))
      rwa [Scriptless, session.map_directiveOuter name attributes fun elseSeen frame =>
        script?_withElseSeen elseSeen frame.kind]
    | some rendering =>
      obtain rfl := session_of_rendering? hrendering
      rw [openTag_rendering_eq setting hrendering]
      refine Scriptless.cons ?_ rfl
      rwa [Scriptless, map_counted setting rendering fun count frame =>
        script?_withChildren count frame.kind]
  | text content span =>
    rw [feed, addText_eq]
    exact hframes
  | closed name span =>
    rw [← session.closedBy_append_frames name span, Scriptless, List.map_append] at hframes
    exact (List.forall_mem_append.mp hframes).2

theorem clear_textPhrases (hframes : Scriptless session.frames) (content : String) :
    ∀ phrase ∈ session.textPhrases content, phrase.Clear := by
  have hinner : ∀ hoisted, session.frames.head?.map Frame.kind ≠ some (.literal hoisted) := by
    intro hoisted hliteral
    obtain ⟨frame, hframe, hkind⟩ := Option.map_eq_some_iff.mp hliteral
    have hnone := hframes _ (List.mem_map.mpr ⟨frame, List.mem_of_mem_head? hframe, rfl⟩)
    rw [hkind] at hnone
    cases hnone
  intro phrase hphrase
  unfold textPhrases at hphrase
  split at hphrase
  · cases hphrase
  · split at hphrase
    · cases hphrase
    · rename_i hliteral
      exact (hinner false hliteral).elim
    · obtain rfl := List.mem_singleton.mp hphrase
      trivial

theorem clear_directivePhrases (session : Session) {name : String} {attributes : Attributes}
    (span : Span) (hbraces : ∀ expression ∈ eachExpressions (.opened name attributes span),
      expression.toList.any Interpolation.isBrace = false) :
    ∀ phrase ∈ session.directivePhrases setting name attributes, phrase.Clear := by
  have hbranch (isElse : Bool) (condition : String) :
      (branchPhrase isElse condition session.frames).Clear := by
    unfold branchPhrase
    split <;> trivial
  intro phrase hphrase
  unfold directivePhrases at hphrase
  dsimp only at hphrase
  cases hkind : TagKind.of name attributes <;> rw [hkind] at hphrase
  case ifTag =>
    obtain rfl := List.mem_singleton.mp hphrase
    trivial
  case elseIfTag | elseTag =>
    obtain rfl := List.mem_singleton.mp hphrase
    exact hbranch _ _
  case eachTag =>
    obtain ⟨clause, hclause, rfl⟩ := List.mem_map.mp hphrase
    have hparse := Option.mem_toList.mp hclause
    rw [eachClause?, if_pos hkind] at hparse
    cases hget : attributes.get? "expression" with
    | none =>
      rw [hget] at hparse
      cases hparse
    | some expression =>
      rw [hget] at hparse
      refine clear_loopStart _ _ _ hparse (hbraces expression ?_)
      simp only [eachExpressions, hkind, hget]
      exact List.mem_cons_self
  case skipTag => exact clear_skipPhrases _ phrase hphrase
  case script | metadata | element => cases hphrase

/-- What is written for a tame event is clear, unless it stands in a script. -/
theorem clear_phrases (hframes : Scriptless session.frames) (hevent : TameEvent event) :
    ∀ phrase ∈ session.phrases setting event, phrase.Clear := by
  cases event with
  | opened name attributes span =>
    cases hrendering : session.rendering? (.opened name attributes span) with
    | none =>
      rw [phrases_of_directive setting hrendering]
      exact session.clear_directivePhrases setting span hevent.brace_free
    | some rendering =>
      rw [phrases_of_rendering setting hrendering]
      obtain ⟨rfl, hkind⟩ := rendering?_eq_some hrendering
      apply Rendering.clear_phrases
      intro expression hexpression
      apply hevent.brace_free
      obtain hkind | hkind := hkind <;>
        · simp only [eachExpressions, hkind]
          exact Option.mem_toList.mpr hexpression
  | text content span => exact clear_textPhrases hframes content
  | closed name span => exact clear_closing _

theorem clear_script (hframes : Scriptless session.frames) {events : List Event}
    (hevents : ∀ event ∈ events, TameEvent event) :
    ∀ phrase ∈ session.script setting events, phrase.Clear := by
  induction events generalizing session with
  | nil => exact List.forall_mem_nil _
  | cons event events ih =>
    obtain ⟨hevent, hlater⟩ := List.forall_mem_cons.mp hevents
    exact List.forall_mem_append.mpr ⟨clear_phrases setting hframes hevent,
      ih (scriptless_feed setting hframes hevent.not_script) hlater⟩

theorem clear_wholeScript {events : List Event} (hevents : ∀ event ∈ events, TameEvent event) :
    ∀ phrase ∈ wholeScript setting events, phrase.Clear := by
  have hstart : Scriptless start.frames := List.forall_mem_nil _
  exact List.forall_mem_append.mpr ⟨clear_script setting hstart hevents, clear_closing _⟩

end Session

/-- Generated script is balanced for any events, in whatever order tags open and close. If no string
    of the events and no generated id has a line break, and no event adds script of its own, then over
    the trimmed lines of the body the blocks never go below zero and all end, and the calls that open
    and close elements pair up by name. -/
theorem body_balanced (options : Options) (ids : IdSource) (size : Nat) (events : List Event)
    (hids : ∀ drawn, Text.OneLine (ids drawn)) (hevents : ∀ event ∈ events, TameEvent event) :
    let body := ((runSession options ids size events).program options).body
    BlocksBalanced body ∧ ElementsBalanced body := by
  intro body
  let setting : Setting := ⟨ids, options.noStatics⟩
  have htexts : (runSession options ids size events).listing.texts =
      (Session.wholeScript setting events).flatMap Phrase.texts := by
    have hlisting := Session.listing_finish setting events size
    rw [runSession, hlisting, Phrase.texts_foldl_write]
    rfl
  have hflat : ∀ phrase ∈ Session.wholeScript setting events, phrase.Flat :=
    Session.flat_wholeScript hids fun event hevent => (hevents event hevent).toFlatEvent
  have honeLine : ∀ text ∈ (runSession options ids size events).listing.texts,
      Text.OneLine text := by
    rw [htexts]
    intro text htext
    obtain ⟨phrase, hphrase, hmem⟩ := List.mem_flatMap.mp htext
    exact hflat phrase hphrase text hmem
  have hlines : trimmedLines body =
      trimmedLines ((Session.wholeScript setting events).flatMap Phrase.texts) :=
    (Script.trimmedLines_render options.indentWidth honeLine).trans (congrArg _ htexts)
  have hreads := reads_of_scan (Session.clear_wholeScript setting hevents)
    (Session.scan_wholeScript setting events)
  rw [BlocksBalanced, ElementsBalanced, hlines]
  exact ⟨hreads.blocks_eq, hreads.elements_eq⟩

/-- A stray end tag, a branch without a conditional, an iteration that cannot be read, a second else,
    and tags that are left open or closed in the wrong order. -/
theorem body_balanced_malformed :
    let span := Span.point 0
    let events : List Event := [.closed "p" span, .opened "else" .empty span,
      .opened "each" (.ofList [("expression", "rows")]) span,
      .opened "li" (.ofList [("each", "row in rows"), ("if", "row"), ("class", "\x7b")]) span,
      .opened "if" .empty span, .opened "else" .empty span, .opened "else" .empty span,
      .text "\x7brow\x7d" span, .closed "li" span, .opened "b\"" .empty span]
    let body := ((runSession {} (.sequential "k") 9 events).program {}).body
    (∀ event ∈ events, TameEvent event) ∧ BlocksBalanced body ∧ ElementsBalanced body := by
  intro span events body
  have hids : ∀ drawn, Text.OneLine (IdSource.sequential "k" drawn) := by
    intro drawn
    exact Text.oneLine_append.mpr ⟨by decide, Text.oneLine_toString (drawn + 1)⟩
  have hevents : ∀ event ∈ events, TameEvent event := by decide
  exact ⟨hevents, body_balanced {} (.sequential "k") 9 events hids hevents⟩

end TemplateCompiler.Template
