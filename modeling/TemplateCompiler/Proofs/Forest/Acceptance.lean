import TemplateCompiler.Proofs.ElementAttributes
import TemplateCompiler.Proofs.Forest.Compilation
import TemplateCompiler.Proofs.Forest.WellFormed
import TemplateCompiler.Proofs.TagRepair

namespace TemplateCompiler.Template

open Markup (Attribute Attributes Span)

theorem isWrapped_iff {value : String} {inner : List Char} :
    IsWrapped value inner ↔ unwrapBraces? value.toList = some inner :=
  unwrapBraces?_eq_some_iff.symm

/-- The issue of a condition is a pair of braces without an expression. -/
theorem conditionIssue?_eq_none_iff (value : Option String) :
    conditionIssue? value = none ↔ ¬IsBlankBraces (value.getD "") := by
  unfold conditionIssue? IsBlankBraces
  constructor
  · rintro hnone ⟨inner, htrim, hblank⟩
    have hbrace : '\x7d' ∉ inner := by
      intro hmem
      have hfalse := hblank _ hmem
      revert hfalse
      decide
    rw [unwrapBraces?_eq_some_iff.mpr ⟨htrim, hbrace⟩] at hnone
    simp [List.all_eq_true.mpr hblank] at hnone
  · intro hnot
    split
    · rename_i inner hinner
      obtain ⟨htrim, -⟩ := unwrapBraces?_eq_some_iff.mp hinner
      split
      · rename_i hall
        exact (hnot ⟨inner, htrim, List.all_eq_true.mp hall⟩).elim
      · rfl
    · rfl

/-- The issues of an attribute that is no directive are those of its value. -/
theorem attributeIssues_eq_nil_iff {entry : Attribute}
    (hentry : Directive.ofName? entry.1 = none) :
    Classified.attributeIssues entry = [] ↔ UsableValue entry.1 entry.2 := by
  obtain ⟨name, value⟩ := entry
  simp only [Classified.attributeIssues, AttributeRole.ofAttribute, hentry, AttributeRole.ofValue,
    List.isPrefixOf_iff_prefix]
  by_cases hhandler : value.toList.head? = some '\x7b' ∧ "on".toList <+: name.toList
  · rw [if_pos hhandler]
    exact iff_of_true rfl (.inl ⟨hhandler.1, .inl hhandler.2⟩)
  rw [if_neg hhandler]
  by_cases hstyle : value.toList.head? = some '\x7b' ∧ name = "style"
  · rw [if_pos hstyle]
    exact iff_of_true rfl (.inl ⟨hstyle.1, .inr hstyle.2⟩)
  rw [if_neg hstyle]
  have hobject : ¬(value.toList.head? = some '\x7b' ∧
      ("on".toList <+: name.toList ∨ name = "style")) := by
    rintro ⟨hbraced, hname | hname⟩
    · exact hhandler ⟨hbraced, hname⟩
    · exact hstyle ⟨hbraced, hname⟩
  simp only [UsableValue, hobject, false_or, isWrapped_iff]
  cases hinner : unwrapBraces? value.toList with
  | some inner =>
    have hbrace : '\x7b' ∈ value.toList := by
      rw [(unwrapBraces?_eq_some_iff.mp hinner).1]
      exact List.mem_cons_self
    have hinside : (∃ c ∈ inner, Text.isBlank c = false) ↔ ¬inner.all Text.isBlank = true := by
      simp
    by_cases hblank : inner.all Text.isBlank = true
    · simp [AttributeRole.ofWrapped, hblank, hbrace, hinside]
    · simp [AttributeRole.ofWrapped, hblank, hbrace, hinside]
  | none =>
    by_cases hbrace : '\x7b' ∈ value.toList
    · simp [hasOpeningBrace, hbrace]
    · simp [hasOpeningBrace, hbrace]

section Element

variable (attributes : Attributes) (noStatics : Bool)

theorem chained_eq_nil_iff :
    (Classified.ofAttributes (attributes.erase "key") noStatics).chained = [] ↔
      ∀ name ∈ ["elseif", "else"], attributes.contains name = false := by
  simp only [Classified.ofAttributes, List.map_eq_nil_iff, List.filter_eq_nil_iff, decide_eq_true_eq,
    Directive.ofName?_eq_chained_iff, Attributes.erase, List.mem_filter, bne_iff_ne]
  constructor
  · intro hnone name hname
    rw [Bool.eq_false_iff, ne_eq, Attributes.contains_eq_true_iff, List.mem_map]
    rintro ⟨entry, hentry, rfl⟩
    refine hnone entry ⟨hentry, ?_⟩ hname
    intro hkey
    rw [hkey] at hname
    simp at hname
  · rintro hnone entry ⟨hentry, -⟩ hname
    have hcontains : attributes.contains entry.1 = true :=
      (Attributes.contains_eq_true_iff _ _).mpr (List.mem_map_of_mem hentry)
    rw [hnone entry.1 hname] at hcontains
    cases hcontains

theorem issues_eq_nil_iff :
    (Classified.ofAttributes (attributes.erase "key") noStatics).issues = [] ↔
      ∀ entry ∈ attributes.entries,
        entry.1 ∉ ["key", "if", "each", "skip", "elseif", "else"] → UsableValue entry.1 entry.2 := by
  simp only [Classified.ofAttributes, List.flatMap_eq_nil_iff, Attributes.erase, List.mem_filter,
    bne_iff_ne]
  constructor
  · intro hnone entry hentry hname
    rw [List.mem_cons, not_or] at hname
    have hdirective := (Directive.ofName?_eq_none_iff entry.1).mpr hname.2
    exact (attributeIssues_eq_nil_iff hdirective).mp (hnone entry ⟨hentry, hname.1⟩)
  · rintro husable entry ⟨hentry, hkey⟩
    cases hdirective : Directive.ofName? entry.1 with
    | none =>
      refine (attributeIssues_eq_nil_iff hdirective).mpr (husable entry hentry ?_)
      rw [List.mem_cons, not_or]
      exact ⟨hkey, (Directive.ofName?_eq_none_iff entry.1).mp hdirective⟩
    | some directive => simp [Classified.attributeIssues, AttributeRole.ofAttribute, hdirective]

theorem usableAttributes_iff :
    UsableAttributes attributes ↔
      let classified := Classified.ofAttributes (attributes.erase "key") noStatics
      classified.chained = [] ∧ classified.issues = [] ∧
        (∀ value, classified.condition = some value → ¬IsBlankBraces value) ∧
        (∀ expression, classified.iteration = some expression → UsableIteration expression) ∧
        ∀ value, classified.skip = some value → ¬IsBlankBraces value := by
  have hvalue (directive : Directive) {name : String} (hname : directive.onlyName? = some name)
      (hkey : name ≠ "key") :
      (Classified.ofAttributes (attributes.erase "key") noStatics).value? directive =
        attributes.get? name :=
    (Classified.value?_ofAttributes hname _ _).trans (attributes.get?_erase_of_ne hkey)
  have hcondition : (Classified.ofAttributes (attributes.erase "key") noStatics).condition = _ :=
    hvalue .condition rfl (by decide)
  have hiteration : (Classified.ofAttributes (attributes.erase "key") noStatics).iteration = _ :=
    hvalue .iteration rfl (by decide)
  have hskip : (Classified.ofAttributes (attributes.erase "key") noStatics).skip = _ :=
    hvalue .skip rfl (by decide)
  simp only [hcondition, hiteration, hskip, chained_eq_nil_iff, issues_eq_nil_iff]
  constructor
  · rintro ⟨hchained, hconditions, hiteration, hvalues⟩
    exact ⟨hchained, hvalues, hconditions "if" (by simp), hiteration, hconditions "skip" (by simp)⟩
  · rintro ⟨hchained, hvalues, hif, hiteration, hskip⟩
    refine ⟨hchained, ?_, hiteration, hvalues⟩
    intro name hname
    obtain rfl | hname := List.mem_cons.mp hname
    · exact hif
    · rw [List.mem_singleton.mp hname]
      exact hskip

end Element

/-- What lies around the nodes at a place. -/
def surroundings (place : Place) (tally : Tally) : Surroundings where
  script := place.script.isSome
  chained := place.chained
  elseSeen := tally.elseSeen
  outermost := place.outermost
  described := tally.metadata.isSome

namespace Surroundings

/-- What lies around the content of a frame. -/
def enter (around : Surroundings) (kind : FrameKind) : Surroundings where
  script := kind.script?.isSome
  chained := if kind.isBranch then around.chained else kind.elseSeen?.isSome
  elseSeen := if kind.isBranch then around.elseSeen else false
  outermost := false
  described := around.described

/-- What lies around the nodes behind a frame, given what lies around those at the end of its
    content. -/
def leave (around : Surroundings) (kind : FrameKind) (inside : Surroundings) : Surroundings :=
  { around with
    elseSeen := if kind.isBranch then inside.elseSeen else around.elseSeen
    described := inside.described }

/-- The frame of a tag that is no branch and does not describe the function. -/
theorem enter_eq_inside (around : Surroundings) {frame : FrameKind} {kind : TagKind}
    (hframe : frame.isBranch = false) (hkind : kind.isBranch = false)
    (hmetadata : kind ≠ .metadata) (hscript : frame.script?.isSome = (kind == .script))
    (hchained : frame.elseSeen?.isSome = (kind == .ifTag)) :
    around.enter frame = around.inside kind := by
  have helse : (kind == .elseTag) = false := by
    rw [TagKind.isBranch, Bool.or_eq_false_iff] at hkind
    exact hkind.2
  simp [enter, inside, hframe, hkind, hscript, hchained, hmetadata, helse]

end Surroundings

/-- A meaning finds no problem exactly where it is accepted, and if so, the nodes behind it have
    `after` around them. -/
def Judges (accepted : Surroundings → Prop) (after : Surroundings → Surroundings)
    (meaning : Meaning) : Prop :=
  ∀ place tally,
    ((meaning place tally).1.diagnostics = [] ↔ accepted (surroundings place tally)) ∧
      (accepted (surroundings place tally) →
        surroundings place (meaning place tally).2 = after (surroundings place tally))

namespace Judges

variable {accepted accepted' : Surroundings → Prop} {after after' : Surroundings → Surroundings}
  {meaning content : Meaning}

theorem congr (h : Judges accepted after meaning)
    (haccepted : ∀ around, accepted' around ↔ accepted around)
    (hafter : ∀ around, accepted around → after' around = after around) :
    Judges accepted' after' meaning := by
  intro place tally
  obtain ⟨hsilent, hbehind⟩ := h place tally
  refine ⟨hsilent.trans (haccepted _).symm, ?_⟩
  intro hacc
  have hacc := (haccepted _).mp hacc
  rw [hbehind hacc, hafter _ hacc]

theorem append {later : Meaning} (h : Judges accepted after meaning)
    (h' : Judges accepted' after' later) :
    Judges (fun around => accepted around ∧ accepted' (after around))
      (fun around => after' (after around)) (meaning ++ later) := by
  intro place tally
  obtain ⟨hsilent, hbehind⟩ := h place tally
  obtain ⟨hsilent', hbehind'⟩ := h' place (meaning place tally).2
  rw [Meaning.append_apply]
  refine ⟨?_, ?_⟩
  · change (meaning place tally).1.diagnostics ++ (later place (meaning place tally).2).1.diagnostics =
      [] ↔ _
    rw [List.append_eq_nil_iff, hsilent, hsilent']
    refine and_congr_right fun hacc => ?_
    rw [hbehind hacc]
  · rintro ⟨hacc, hacc'⟩
    rw [← hbehind hacc] at hacc'
    exact (hbehind' hacc').trans (congrArg after' (hbehind hacc))

theorem silent_append {silent : Meaning} (hsilent : Judges (fun _ => True) id silent)
    (h : Judges accepted after content) : Judges accepted after (silent ++ content) :=
  (hsilent.append h).congr (fun _ => by simp) fun _ _ => rfl

theorem append_silent {silent : Meaning} (h : Judges accepted after content)
    (hsilent : Judges (fun _ => True) id silent) : Judges accepted after (content ++ silent) :=
  (h.append hsilent).congr (fun _ => by simp) fun _ _ => rfl

theorem nothing : Judges (fun _ => True) id .nothing :=
  fun _ _ => ⟨iff_of_true rfl trivial, fun _ => rfl⟩

theorem write (text : String) : Judges (fun _ => True) id (.write text) :=
  fun _ _ => ⟨iff_of_true rfl trivial, fun _ => rfl⟩

theorem writeAll (texts : List String) : Judges (fun _ => True) id (.writeAll texts) := by
  induction texts with
  | nil => exact nothing
  | cons text texts ih => exact (write text).silent_append ih

theorem found (diagnostics : List Diagnostic) :
    Judges (fun _ => diagnostics = []) id (.found diagnostics) :=
  fun _ _ => ⟨Iff.rfl, fun _ => rfl⟩

theorem report (problems : List Problem) (span : Span) :
    Judges (fun _ => problems = []) id (.report problems span) :=
  (found _).congr (fun _ => List.map_eq_nil_iff.symm) fun _ _ => rfl

theorem checkCondition (directive : String) (value : Option String) (span : Span) :
    Judges (fun _ => ¬IsBlankBraces (value.getD "")) id (.checkCondition directive value span) := by
  refine (report _ span).congr (fun _ => ?_) fun _ _ => rfl
  rw [List.map_eq_nil_iff, Option.toList_eq_nil_iff, conditionIssue?_eq_none_iff]

theorem indented (h : Judges accepted after content) : Judges accepted after (.indented content) :=
  fun place tally => h { place with level := place.level + 1 } tally

theorem block (h : Judges accepted after content) (header closer : String) :
    Judges accepted after (.block header closer content) :=
  ((write header).silent_append h.indented).append_silent (write closer)

theorem skipBlock (h : Judges accepted after content) (condition : String) :
    Judges accepted after (.skipBlock condition content) :=
  ((write _).silent_append (write _).indented).silent_append (h.block _ _)

theorem within (h : Judges accepted after content) (kind : FrameKind) :
    Judges (fun around => accepted (around.enter kind))
      (fun around => around.leave kind (after (around.enter kind))) (.within kind content) := by
  intro place tally
  obtain ⟨hsilent, hbehind⟩ := h (place.enter kind) (tally.enter kind)
  have hinside : surroundings (place.enter kind) (tally.enter kind) =
      (surroundings place tally).enter kind := rfl
  rw [hinside] at hsilent hbehind
  refine ⟨hsilent, ?_⟩
  intro hacc
  exact congrArg ((surroundings place tally).leave kind) (hbehind hacc)

theorem within_kind (h : Judges accepted after content) (frame : FrameKind) (kind : TagKind)
    (hframe : frame.isBranch = false) (hkind : kind.isBranch = false)
    (hmetadata : kind ≠ .metadata) (hscript : frame.script?.isSome = (kind == .script))
    (hchained : frame.elseSeen?.isSome = (kind == .ifTag)) :
    Judges (fun around => accepted (around.inside kind))
      (fun around => { around with described := (after (around.inside kind)).described })
      (.within frame content) := by
  have henter (around : Surroundings) : around.enter frame = around.inside kind :=
    around.enter_eq_inside hframe hkind hmetadata hscript hchained
  refine (h.within frame).congr (fun around => by rw [henter]) fun around _ => ?_
  simp [Surroundings.leave, henter, hframe]

theorem guarded (h : Judges accepted after content) (condition : Option String) (span : Span) :
    Judges (fun around => (∀ value, condition = some value → ¬IsBlankBraces value) ∧ accepted around)
      after (.guarded condition span content) := by
  cases condition with
  | none => exact h.congr (fun _ => by simp) fun _ _ => rfl
  | some value =>
    exact ((checkCondition "if" (some value) span).append (h.block _ _)).congr (fun _ => by simp)
      fun _ _ => rfl

theorem skippable (h : Judges accepted after content) (skip : Option String) (span : Span) :
    Judges (fun around => (∀ value, skip = some value → ¬IsBlankBraces value) ∧ accepted around)
      after (.skippable skip span content) := by
  cases skip with
  | none => exact h.congr (fun _ => by simp) fun _ _ => rfl
  | some value =>
    exact ((checkCondition "skip" (some value) span).append (h.skipBlock _)).congr (fun _ => by simp)
      fun _ _ => rfl

theorem loopBlocks (h : Judges accepted after content) (number : Nat) (drawn : String)
    (clause : EachClause) : Judges accepted after (.loopBlocks number drawn clause content) := by
  have hkey : Judges (fun _ => True) id (.writeKey number drawn clause) :=
    fun _ _ => ⟨iff_of_true rfl trivial, fun _ => rfl⟩
  have hrepeated := ((writeAll (bindingLines number clause)).silent_append hkey).silent_append h
  exact (write _).silent_append ((hrepeated.block _ _).block _ _)

theorem numbered {repeated : Nat → Meaning} (h : ∀ number, Judges accepted after (repeated number))
    (setting : Setting) (clause : EachClause) :
    Judges accepted after (.numbered setting clause repeated) := by
  intro place tally
  exact (h (tally.loops + 1)).loopBlocks (tally.loops + 1) (setting.ids tally.drawn) clause place
    { tally with loops := tally.loops + 1, drawn := tally.drawn + 1 }

theorem looped {repeated : Option Nat → Meaning} (h : ∀ number, Judges accepted after (repeated number))
    (setting : Setting) (iteration : Option String) (span : Span) :
    Judges (fun around => (∀ expression, iteration = some expression → UsableIteration expression) ∧
      accepted around) after (.looped setting iteration span repeated) := by
  cases iteration with
  | none => exact (h none).congr (fun _ => by simp) fun _ _ => rfl
  | some expression =>
    cases hclause : EachClause.parse? expression with
    | none =>
      rw [Meaning.looped_of_parse_none hclause]
      refine ((report _ span).append (h none)).congr (fun _ => ?_) fun _ _ => rfl
      simp [UsableIteration, hclause]
    | some clause =>
      rw [Meaning.looped_of_parse hclause]
      refine (numbered (fun number => h (some number)) setting clause).congr (fun _ => ?_)
        fun _ _ => rfl
      simp [UsableIteration, hclause]

theorem rendered (h : Judges accepted after content) (setting : Setting) (name : String)
    (explicit : ExplicitKey) (ownLoop : Option Nat) (classified : Classified) :
    Judges accepted after (.rendered setting name explicit ownLoop classified content) := by
  intro place tally
  have hkeyed : surroundings place (Meaning.elementKey explicit ownLoop place tally).2 =
      surroundings place tally := by
    unfold Meaning.elementKey
    cases explicit <;> cases ownLoop <;> cases place.body <;> rfl
  have hhoisted (key : Option String) (keyed : Tally) :
      surroundings place (Meaning.hoisted setting classified.statics key keyed).2.2 =
        surroundings place keyed := by
    unfold Meaning.hoisted
    split
    · rfl
    · cases key <;> rfl
  have hopened := (hhoisted (Meaning.elementKey explicit ownLoop place tally).1
    (Meaning.elementKey explicit ownLoop place tally).2).trans hkeyed
  rw [← hopened]
  exact h.block _ _ place _

theorem element (h : Judges accepted after content) (setting : Setting) (name : String)
    (attributes : Attributes) (span : Span) :
    Judges (fun around => UsableAttributes attributes ∧ accepted (around.inside .element))
      (fun around => { around with described := (after (around.inside .element)).described })
      (.element setting name attributes span content) := by
  unfold Meaning.element Meaning.arranged
  dsimp only
  generalize hstatics : (decide (ExplicitKey.ofAttribute (attributes.get? "key") = .empty) ||
    setting.noStatics) = noStatics
  have hattributes := usableAttributes_iff attributes noStatics
  generalize Classified.ofAttributes (attributes.erase "key") noStatics = classified at hattributes ⊢
  have hrendered (ownLoop : Option Nat) := ((h.skippable classified.skip span).within_kind
    (.element classified.condition.isSome ownLoop classified.skip.isSome) .element rfl rfl
    (by decide) rfl rfl).rendered setting name (ExplicitKey.ofAttribute (attributes.get? "key"))
      ownLoop classified
  have harranged := (looped hrendered setting classified.iteration span).guarded
    classified.condition span
  refine (((report _ span).append (report _ span)).append harranged).congr (fun around => ?_)
    fun _ _ => rfl
  rw [hattributes]
  simp only [List.map_eq_nil_iff, id_eq]
  constructor
  · rintro ⟨⟨hchained, hissues, hcondition, hiteration, hskip⟩, haccepted⟩
    exact ⟨⟨hchained, hissues⟩, hcondition, hiteration, hskip, haccepted⟩
  · rintro ⟨⟨hchained, hissues⟩, hcondition, hiteration, hskip, haccepted⟩
    exact ⟨⟨hchained, hissues, hcondition, hiteration, hskip⟩, haccepted⟩

theorem continued (h : Judges accepted after content) (isElse : Bool) (condition : String) :
    let kind := if isElse then TagKind.elseTag else .elseIfTag
    Judges (fun around => accepted (around.inside kind))
      (fun around => { around with
        elseSeen := (after (around.inside kind)).elseSeen
        described := (after (around.inside kind)).described })
      (.continued isElse condition content) := by
  intro kind
  have hline : Judges (fun _ => True) id
      (.outdented (.write (if isElse then elseHeader else elseIfHeader condition))) :=
    fun _ _ => ⟨iff_of_true rfl trivial, fun _ => rfl⟩
  have hset : Judges (fun _ => True) ({ · with elseSeen := isElse })
      (.tallied ({ · with elseSeen := isElse })) :=
    fun _ _ => ⟨iff_of_true rfl trivial, fun _ => rfl⟩
  have henter (around : Surroundings) :
      ({ around with elseSeen := isElse } : Surroundings).enter .branch = around.inside kind := by
    cases isElse <;> simp [Surroundings.enter, Surroundings.inside, kind, FrameKind.isBranch,
      FrameKind.script?, TagKind.isBranch]
  refine ((hline.silent_append hset).append (h.within .branch)).congr (fun around => ?_)
    fun around _ => ?_
  · rw [henter, true_and]
  · rw [henter]
    rfl

theorem branch (h : Judges accepted after content) (isElse : Bool) (name condition : String)
    (span : Span) :
    let kind := if isElse then TagKind.elseTag else .elseIfTag
    Judges (fun around => (around.chained = true ∧ around.elseSeen = false) ∧
        accepted (around.inside kind))
      (fun around => { around with
        elseSeen := (after (around.inside kind)).elseSeen
        described := (after (around.inside kind)).described })
      (.branch isElse name condition span content) := by
  intro kind place tally
  have hrefused (refusal : ChainRefusal)
      (hplace : ¬((surroundings place tally).chained = true ∧
        (surroundings place tally).elseSeen = false)) :
      ((Meaning.refused refusal name condition span content place tally).1.diagnostics = [] ↔
        ((surroundings place tally).chained = true ∧ (surroundings place tally).elseSeen = false) ∧
          accepted ((surroundings place tally).inside kind)) :=
    iff_of_false (List.cons_ne_nil _ _) fun hacc => hplace hacc.1
  unfold Meaning.branch
  cases hchained : place.chained with
  | false =>
    have hplace : ¬((surroundings place tally).chained = true ∧
        (surroundings place tally).elseSeen = false) := by
      simp [surroundings, hchained]
    exact ⟨hrefused _ hplace, fun hacc => (hplace hacc.1).elim⟩
  | true =>
    cases helse : tally.elseSeen with
    | true =>
      have hplace : ¬((surroundings place tally).chained = true ∧
          (surroundings place tally).elseSeen = false) := by
        simp [surroundings, helse]
      exact ⟨hrefused _ hplace, fun hacc => (hplace hacc.1).elim⟩
    | false =>
      have hplace : (surroundings place tally).chained = true ∧
          (surroundings place tally).elseSeen = false := ⟨hchained, helse⟩
      obtain ⟨hsilent, hbehind⟩ := h.continued isElse condition place tally
      exact ⟨hsilent.trans (and_iff_right hplace).symm, fun hacc => hbehind hacc.2⟩

theorem described (h : Judges accepted after content) (attributes : Attributes) (span : Span) :
    Judges
      (fun around => (∀ name, attributes.get? "name" = some name →
        Script.isIdentifier (Text.trimmed name) = true) ∧ accepted (around.inside .metadata))
      (fun around => { around with described := (after (around.inside .metadata)).described })
      (.described attributes span ++ .within .template content) := by
  have hset : Judges (fun _ => True) ({ · with described := true }) (.tallied fun tally =>
      { tally with
        metadata := some
          { name := ((attributes.get? "name").map Text.trimmed).filter Script.isIdentifier
            args := (attributes.get? "args").filter (!Text.allBlank ·) } }) :=
    fun _ _ => ⟨iff_of_true rfl trivial, fun _ => rfl⟩
  have henter (around : Surroundings) :
      ({ around with described := true } : Surroundings).enter .template =
        around.inside .metadata := by
    simp [Surroundings.enter, Surroundings.inside, FrameKind.isBranch, FrameKind.script?,
      FrameKind.elseSeen?, TagKind.isBranch]
  refine (((report _ span).append hset).append (h.within .template)).congr (fun around => ?_)
    fun around _ => ?_
  · simp only [id_eq, henter, and_true]
    refine and_congr_left fun _ => ?_
    cases attributes.get? "name" <;> simp
  · simp only [id_eq, henter]
    rfl

/-- A tag that describes the function is refused where the function may not be described. -/
theorem metadata (h : Judges accepted after content) (setting : Setting) (name : String)
    (attributes : Attributes) (span : Span) :
    Judges
      (fun around => (∀ name, attributes.get? "name" = some name →
          Script.isIdentifier (Text.trimmed name) = true) ∧
        (around.outermost = true ∧ around.described = false) ∧ accepted (around.inside .metadata))
      (fun around => { around with described := (after (around.inside .metadata)).described })
      (fun place tally =>
        if place.outermost ∧ tally.metadata = none then
          (Meaning.described attributes span ++ .within .template content) place tally
        else
          (Meaning.report [.extraMetadata] span ++
            .element setting name attributes span content) place tally) := by
  intro place tally
  have hfirst : ((surroundings place tally).outermost = true ∧
      (surroundings place tally).described = false) ↔
      (place.outermost = true ∧ tally.metadata = none) := by
    simp [surroundings]
  by_cases hplace : place.outermost = true ∧ tally.metadata = none
  · obtain ⟨hsilent, hbehind⟩ := h.described attributes span place tally
    simp only [if_pos hplace]
    refine ⟨hsilent.trans (and_congr_right fun _ => ?_), fun hacc => hbehind ⟨hacc.1, hacc.2.2⟩⟩
    exact (and_iff_right (hfirst.mpr hplace)).symm
  · simp only [if_neg hplace]
    refine ⟨iff_of_false (List.cons_ne_nil _ _) ?_, ?_⟩
    · rintro ⟨-, hacc, -⟩
      exact hplace (hfirst.mp hacc)
    · rintro ⟨-, hacc, -⟩
      exact (hplace (hfirst.mp hacc)).elim

theorem text (content : String) (span : Span) :
    Judges (fun around => around.script = false → UsableText content) id (.text content span) := by
  intro place tally
  unfold Meaning.text UsableText
  by_cases hblank : Text.allBlank content = true
  · rw [if_pos hblank]
    exact ⟨iff_of_true rfl fun _ => .inl hblank, fun _ => rfl⟩
  · rw [if_neg hblank]
    cases hscript : place.script with
    | some hoisted =>
      have hinside : (surroundings place tally).script = true := by simp [surroundings, hscript]
      cases hoisted <;> exact ⟨iff_of_true rfl (by simp [hinside]), fun _ => rfl⟩
    | none =>
      have houtside : (surroundings place tally).script = false := by simp [surroundings, hscript]
      have hissues := ((found ((Interpolation.ofString content).issues.map fun issue =>
        ⟨.textInterpolation issue.message, Session.issueSpan span issue⟩)).append_silent
          (write (Script.Call.text (Interpolation.ofString content).expression))) place tally
      refine ⟨hissues.1.trans ?_, fun _ => rfl⟩
      simp [houtside, hblank]

end Judges

section Node

variable {node : Tag} {around : Surroundings}

theorem describes_eq_false {forest : Forest} (h : forest.Accepted around)
    (hinside : around.outermost = false) : forest.describes = false := by
  unfold Forest.describes
  rw [List.any_eq_false]
  intro tag htag
  simpa using h.metadata (.inl hinside) tag htag

theorem Tag.usable_iff (node : Tag) :
    node.Usable ↔
      match node.kind with
      | .ifTag | .elseIfTag | .elseTag | .skipTag =>
        ¬IsBlankBraces ((tagCondition node.attributes).getD "")
      | .eachTag => UsableIteration ((node.attributes.get? "expression").getD "")
      | .metadata => ∀ name, node.attributes.get? "name" = some name →
          Script.isIdentifier (Text.trimmed name) = true
      | .element => UsableAttributes node.attributes
      | .script => True := by
  constructor
  · rintro ⟨hcondition, hiteration, hname, helement⟩
    cases hkind : node.kind <;> simp_all
  · intro h
    cases hkind : node.kind <;> rw [hkind] at h <;>
      exact ⟨by simp_all, by simp_all, by simp_all, by simp_all⟩

theorem Tag.allowed_iff (node : Tag) (around : Surroundings) :
    node.Allowed around ↔
      match node.kind with
      | .elseIfTag | .elseTag => around.chained = true ∧ around.elseSeen = false
      | .metadata => around.outermost = true ∧ around.described = false
      | _ => True := by
  constructor
  · rintro ⟨hbranch, hmetadata⟩
    cases hkind : node.kind <;> simp_all [TagKind.isBranch]
  · intro h
    cases hkind : node.kind <;> rw [hkind] at h <;>
      exact ⟨by simp_all [TagKind.isBranch], by simp_all⟩

/-- A tag of any kind, whose content is judged by what is accepted inside it. -/
theorem Judges.tag {content : Meaning} (setting : Setting) (span : Span)
    (h : Judges node.content.Accepted
      (fun around => around.behind node.content.branches node.content.describes) content) :
    Judges
      (fun around => node.Usable ∧ node.Allowed around ∧
        node.content.Accepted (around.inside node.kind))
      (fun around => around.behind node.branches (node.kind == .metadata))
      (.tag setting node.name node.attributes span content) := by
  have hkinds : TagKind.of node.name node.attributes = node.kind := rfl
  have hnone {around : Surroundings} {kind : TagKind}
      (hacc : node.content.Accepted (around.inside kind)) : node.content.describes = false :=
    describes_eq_false hacc rfl
  have hplain {around : Surroundings} (hbranch : node.kind.isBranch = false)
      (hacc : node.content.Accepted (around.inside node.kind)) :
      around.behind node.branches (node.kind == .metadata) =
        { around with described := ((around.inside node.kind).behind node.content.branches
            node.content.describes).described } := by
    simp [Surroundings.behind, Surroundings.inside, Tag.branches, hbranch, hnone hacc]
  have hchecked := Judges.checkCondition node.name (tagCondition node.attributes) span
  simp only [Meaning.tag, hkinds, Tag.usable_iff, Tag.allowed_iff]
  have hbranches : node.branches =
      if node.kind.isBranch then node.kind :: node.content.branches else [] := rfl
  generalize node.kind = kind at hplain hbranches ⊢
  cases kind with
  | ifTag =>
    have hinside := h.within_kind (.conditional false) .ifTag rfl rfl (by decide) rfl rfl
    refine (hchecked.append (hinside.block _ _)).congr (fun around => by simp) ?_
    rintro around ⟨-, hacc⟩
    exact hplain rfl hacc
  | elseIfTag =>
    refine (hchecked.append (h.branch false _ _ span)).congr (fun around => by simp) ?_
    rintro around ⟨-, ⟨-, helse⟩, hacc⟩
    have helse : around.elseSeen = false := helse
    have hdescribed := hnone hacc
    simp [Surroundings.behind, Surroundings.inside, hbranches, TagKind.isBranch, hdescribed,
      helse]
  | elseTag =>
    refine (hchecked.append (h.branch true _ _ span)).congr (fun around => by simp) ?_
    rintro around ⟨-, -, hacc⟩
    have hdescribed := hnone hacc
    simp [Surroundings.behind, Surroundings.inside, hbranches, TagKind.isBranch, hdescribed]
  | eachTag =>
    have hinside (number : Option Nat) := h.within_kind
      (.each (number.map (⟨·, 0⟩))) .eachTag rfl rfl (by decide) rfl rfl
    refine (Judges.looped hinside setting _ span).congr (fun around => by simp) ?_
    rintro around ⟨-, hacc⟩
    exact hplain rfl hacc
  | skipTag =>
    have hinside := h.within_kind .skip .skipTag rfl rfl (by decide) rfl rfl
    refine (hchecked.append (hinside.skipBlock _)).congr (fun around => by simp) ?_
    rintro around ⟨-, hacc⟩
    exact hplain rfl hacc
  | script =>
    have hinside := h.within_kind (.literal (node.attributes.contains "hoisted")) .script rfl
      rfl (by decide) rfl rfl
    refine hinside.congr (fun around => by simp) ?_
    exact fun around hacc => hplain rfl hacc
  | metadata =>
    refine (h.metadata setting node.name node.attributes span).congr (fun around => Iff.rfl) ?_
    rintro around ⟨-, -, hacc⟩
    exact hplain rfl hacc
  | element =>
    refine (h.element setting node.name node.attributes span).congr (fun around => by simp) ?_
    rintro around ⟨-, hacc⟩
    exact hplain rfl hacc

end Node

/-- The run of a template judges it: one rule for each kind of node, from the outside in. -/
theorem Judges.forest (setting : Setting) (forest : Forest) :
    Judges forest.Accepted (fun around => around.behind forest.branches forest.describes)
      (forest.meaning setting) := by
  induction forest with
  | nil =>
    refine nothing.congr (fun _ => iff_of_true Forest.accepted_nil trivial) fun around _ => ?_
    simp [Surroundings.behind, Forest.branches, Forest.describes, Forest.tags]
  | text content span rest ih =>
    exact ((text content span).append ih).congr
      (fun _ => Forest.accepted_text_iff content span rest) fun _ _ => rfl
  | tag name attributes opening closing children rest ihchildren ihrest =>
    let node : Tag := ⟨name, attributes, children⟩
    have hnode : Judges _ _ (.tag setting node.name node.attributes opening
      (node.content.meaning setting)) := Judges.tag setting opening ihchildren
    have haccepted (around : Surroundings) :
        (node.before opening closing rest).Accepted around ↔ _ := Forest.accepted_before_iff
    refine (hnode.append ihrest).congr (fun around => ?_) ?_
    · refine (haccepted around).trans ?_
      simp only [and_assoc]
    · rintro around ⟨⟨-, -, hacc⟩, -⟩
      have hinside : node.content.describes = false := describes_eq_false hacc rfl
      change around.behind (node.before opening closing rest).branches
        (node.before opening closing rest).describes = _
      have hdescribes : (node.before opening closing rest).describes =
          (node.kind == .metadata || rest.describes) := by
        change (node :: (node.content.tags ++ rest.tags)).any (·.kind = .metadata) = _
        rw [List.any_cons, List.any_append]
        change (decide (node.kind = .metadata) || (node.content.describes || rest.describes)) = _
        rw [hinside, Bool.false_or]
        rfl
      rw [Forest.branches_before, hdescribes]
      simp [Surroundings.behind, Bool.or_assoc]

end TemplateCompiler.Template

namespace TemplateCompiler

open Template (Forest IdSource Judges Realizes Session)

/-- A forest is compiled without a problem if and only if it is well formed. -/
theorem compileEvents_silent_iff_wellFormed (options : Options) (hlenient : options.strict = false)
    (ids : IdSource) (size : Nat) (forest : Forest) :
    ∃ compiled, compileEvents options ids size forest.events = .ok compiled ∧
      (compiled.diagnostics = [] ↔ forest.WellFormed) := by
  refine ⟨_, compileEvents_of_accepted options ids size forest.events (by simp [hlenient]), ?_⟩
  have hrun := Realizes.forest ⟨ids, options.noStatics⟩ forest Session.settled_start
  have hfinished : runSession options ids size forest.events =
      Session.start.feedAll ⟨ids, options.noStatics⟩ forest.events :=
    Session.finish_of_frames_eq_nil hrun.frames_eq size
  rw [hfinished, forest.wellFormed_iff_accepted]
  obtain ⟨hsilent, -⟩ := Judges.forest ⟨ids, options.noStatics⟩ forest Session.start.place
    Session.start.tally
  rw [Session.compiled, hrun.diagnostics_eq]
  exact hsilent

/-- A conditional with two further branches, which are well formed in one order only. -/
theorem compileEvents_silent_iff_wellFormed_branches :
    let span := Markup.Span.point 0
    let condition := Markup.Attributes.ofList [("condition", "a")]
    let page (first second : String) := Forest.tag "if" condition span span
      (.tag first condition span span .nil (.tag second condition span span .nil .nil)) .nil
    ({} : Options).strict = false ∧ (page "elseif" "else").WellFormed ∧
      ¬(page "else" "elseif").WellFormed := by
  intro span condition page
  have hiff (first second : String) {silent : Bool}
      (hsilent : (compileEvents {} (IdSource.sequential "k") 0
        (page first second).events).toOption.map (·.diagnostics.isEmpty) = some silent) :
      silent = true ↔ (page first second).WellFormed := by
    obtain ⟨compiled, heq, hiff⟩ :=
      compileEvents_silent_iff_wellFormed {} rfl (IdSource.sequential "k") 0 (page first second)
    rw [heq] at hsilent
    rw [← hiff, ← List.isEmpty_iff, ← Option.some.inj hsilent]
  refine ⟨rfl, ?_, ?_⟩
  · exact (hiff "elseif" "else" (by decide +kernel)).mp rfl
  · exact fun h => Bool.false_ne_true ((hiff "else" "elseif" (by decide +kernel)).mpr h)

end TemplateCompiler
