import TemplateCompiler.Proofs.Forest.Compilation
import TemplateCompiler.Proofs.Forest.WellFormed
import TemplateCompiler.Proofs.TagRepair

namespace TemplateCompiler.Template

open Markup (Attributes Event Span)

/-- The conditional that a branch would continue: the name of its tag, and whether it has had its
    else. -/
structure Chain where
  name : String
  elseSeen : Bool
deriving DecidableEq, Repr

/-- Whether a tag is a further branch of the conditional around it. -/
def continuesChain (chain : Option Chain) (name : String) (attributes : Attributes) : Bool :=
  (TagKind.of name attributes).isBranch && chain.any (!·.elseSeen)

/-- The conditional that a branch directly inside a tag would continue, if the tag itself continues
    none. -/
def chainInside (name : String) (attributes : Attributes) : Option Chain :=
  if TagKind.of name attributes = .ifTag ∨ (TagKind.of name attributes).isBranch then
    some ⟨name, false⟩
  else none

theorem exists_of_continuesChain {chain : Option Chain} {name : String} {attributes : Attributes}
    (hcontinues : continuesChain chain name attributes = true) :
    (TagKind.of name attributes).isBranch = true ∧
      ∃ conditional, chain = some ⟨conditional, false⟩ := by
  obtain ⟨hbranch, hopen⟩ := Bool.and_eq_true_iff.mp hcontinues
  refine ⟨hbranch, ?_⟩
  cases chain with
  | none => cases hopen
  | some chain =>
    obtain ⟨conditional, elseSeen⟩ := chain
    cases elseSeen with
    | false => exact ⟨conditional, rfl⟩
    | true => cases hopen

section OpenBranches

variable {branches : List Frame} (hbranches : ∀ frame ∈ branches, frame.kind = .branch)
  (frames : List Frame)

include hbranches

theorem reach_branches {through : FrameKind → Bool} (hthrough : through .branch = true) :
    reach through (branches ++ frames) = reach through frames := by
  induction branches with
  | nil => rfl
  | cons frame branches ih =>
    obtain ⟨hframe, hlater⟩ := List.forall_mem_cons.mp hbranches
    rw [List.cons_append, reach, hframe, if_pos hthrough, ih hlater]

theorem changeReached_branches {through : FrameKind → Bool} (hthrough : through .branch = true)
    (change : FrameKind → FrameKind) :
    changeReached through change (branches ++ frames) =
      branches ++ changeReached through change frames := by
  induction branches with
  | nil => rfl
  | cons frame branches ih =>
    obtain ⟨hframe, hlater⟩ := List.forall_mem_cons.mp hbranches
    rw [List.cons_append, changeReached, hframe, if_pos hthrough, ih hlater, List.cons_append]

theorem eachBody_branches : eachBody (branches ++ frames) = eachBody frames := by
  rw [eachBody, reach_branches hbranches frames rfl, eachBody]

theorem openChain_branches : openChain (branches ++ frames) = openChain frames := by
  rw [openChain, reach_branches hbranches frames rfl, openChain]

theorem enclosingLoop_branches : enclosingLoop (branches ++ frames) = enclosingLoop frames := by
  induction branches with
  | nil => rfl
  | cons frame branches ih =>
    obtain ⟨hframe, hlater⟩ := List.forall_mem_cons.mp hbranches
    rw [List.cons_append, enclosingLoop_cons, hframe, ih hlater]
    rfl

theorem update_branches (tally : Tally) :
    tally.update (branches ++ frames) = branches ++ tally.update frames := by
  unfold Tally.update setChildren setElseSeen
  rw [changeReached_branches hbranches frames rfl, changeReached_branches hbranches _ rfl]

/-- Closing branches writes and reports nothing. -/
theorem unwind_branches (session : Session) (problem : String → Problem) (place : Frame → Span) :
    session.unwind problem place branches = session := by
  induction branches with
  | nil => rfl
  | cons frame branches ih =>
    obtain ⟨hframe, hlater⟩ := List.forall_mem_cons.mp hbranches
    obtain ⟨name, kind, span⟩ := frame
    obtain rfl : kind = .branch := hframe
    have hstep : (session.report (if Frame.isBranch ⟨name, .branch, span⟩ then []
        else [problem name]) (place ⟨name, .branch, span⟩)).emit
          (Frame.close ⟨name, .branch, span⟩) = session := by
      simp [Session.report, Session.emit, Frame.isBranch, Frame.close]
    exact (congrArg (fun next => Session.unwind problem place next branches) hstep).trans
      (ih hlater)

end OpenBranches

/-- The conditional that a branch would continue, with the name of its tag. -/
def chainOf : List Frame → Option Chain
  | [] => none
  | frame :: frames =>
    if frame.kind.isBranch then chainOf frames
    else frame.kind.elseSeen?.map fun elseSeen => ⟨frame.name, elseSeen⟩

theorem openChain_eq (frames : List Frame) :
    openChain frames = (chainOf frames).map Chain.elseSeen := by
  induction frames with
  | nil => rfl
  | cons frame frames ih =>
    rw [openChain_cons, chainOf]
    split
    · exact ih
    · cases frame.kind.elseSeen? <;> rfl

theorem chainOf_branches {branches : List Frame}
    (hbranches : ∀ frame ∈ branches, frame.kind = .branch) (frames : List Frame) :
    chainOf (branches ++ frames) = chainOf frames := by
  induction branches with
  | nil => rfl
  | cons frame branches ih =>
    obtain ⟨hframe, hlater⟩ := List.forall_mem_cons.mp hbranches
    rw [List.cons_append, chainOf, hframe]
    exact ih hlater

theorem chainOf_setChildren (count : Nat) (frames : List Frame) :
    chainOf (setChildren count frames) = chainOf frames := by
  induction frames with
  | nil => rfl
  | cons frame frames ih =>
    obtain ⟨name, kind, span⟩ := frame
    rw [setChildren_cons]
    cases kind with
    | branch => exact ih
    | each loop => cases loop <;> rfl
    | _ => rfl

theorem chainOf_setElseSeen (elseSeen : Bool) (frames : List Frame) :
    chainOf (setElseSeen elseSeen frames) =
      (chainOf frames).map fun chain => { chain with elseSeen } := by
  induction frames with
  | nil => rfl
  | cons frame frames ih =>
    obtain ⟨name, kind, span⟩ := frame
    rw [setElseSeen_cons]
    cases kind with
    | branch => exact ih
    | _ => rfl

/-- Branches that may be open on top of other open tags. -/
structure Covers (branches frames : List Frame) : Prop where
  kind_eq : ∀ frame ∈ branches, frame.kind = .branch
  chained : branches ≠ [] → (openChain frames).isSome = true

theorem covers_nil (frames : List Frame) : Covers [] frames :=
  ⟨List.forall_mem_nil _, fun hne => (hne rfl).elim⟩

/-- A session with branches on top of its open tags. -/
def Session.covered (core : Session) (branches : List Frame) : Session :=
  { core with frames := branches ++ core.frames }

theorem script?_of_openChain {frames : List Frame} (hchain : (openChain frames).isSome = true) :
    frames.isEmpty = false ∧ (frames.head?.bind fun frame => frame.kind.script?) = none := by
  cases frames with
  | nil => cases hchain
  | cons frame frames =>
    refine ⟨rfl, ?_⟩
    rw [openChain_cons] at hchain
    obtain ⟨name, kind, span⟩ := frame
    cases kind with
    | conditional | branch => rfl
    | _ => cases hchain

namespace Covers

variable {core : Session} {branches : List Frame}

theorem place_eq (h : Covers branches core.frames) : (core.covered branches).place = core.place := by
  unfold Session.place Session.covered
  dsimp only
  rw [eachBody_branches h.kind_eq, openChain_branches h.kind_eq, enclosingLoop_branches h.kind_eq]
  cases branches with
  | nil => rfl
  | cons frame branches =>
    obtain ⟨hempty, hscript⟩ := script?_of_openChain (h.chained (List.cons_ne_nil _ _))
    have hframe : frame.kind.script? = none := by
      rw [h.kind_eq frame List.mem_cons_self]
      rfl
    rw [hempty, hscript, List.cons_append, List.head?_cons, Option.bind_some, hframe]
    rfl

theorem tally_eq (h : Covers branches core.frames) : (core.covered branches).tally = core.tally := by
  unfold Session.tally Session.covered
  dsimp only
  rw [eachBody_branches h.kind_eq, openChain_branches h.kind_eq]

end Covers

/-- What a session with branches on top does, it does without them. -/
theorem Realizes.uncover {meaning : Meaning} {core after : Session} {branches : List Frame}
    (hcovers : Covers branches core.frames) (h : Realizes meaning (core.covered branches) after) :
    ∃ core', after = core'.covered branches ∧ Realizes meaning core core' ∧
      Covers branches core'.frames := by
  let core' : Session := { after with frames := after.tally.update core.frames }
  have hframes : after.frames = branches ++ after.tally.update core.frames :=
    h.frames_eq.trans (update_branches hcovers.kind_eq core.frames after.tally)
  have hafter : after = core'.covered branches := by
    change after = { after with frames := branches ++ after.tally.update core.frames }
    rw [← hframes]
  have hcovers' : Covers branches core'.frames := by
    refine ⟨hcovers.kind_eq, fun hne => ?_⟩
    have hchain := hcovers.chained hne
    simp only [core', Tally.update, openChain_setElseSeen, openChain_setChildren,
      Option.isSome_map]
    exact hchain
  have htally : core'.tally = after.tally := by
    rw [hafter, hcovers'.tally_eq]
  obtain ⟨hlevel, hlines, hdiagnostics, hhanded, -⟩ := h
  rw [hcovers.place_eq, hcovers.tally_eq] at hlines hdiagnostics hhanded
  refine ⟨core', hafter, ⟨hlevel, hlines, hdiagnostics, htally.trans hhanded, ?_⟩, hcovers'⟩
  rw [htally]

namespace Session

/-- An end tag passes over branches of other names. -/
theorem closeTag_covered {core : Session} {branches outer : List Frame} {frame : Frame}
    (hbranches : ∀ frame ∈ branches, frame.kind = .branch)
    (hnames : ∀ branch ∈ branches, branch.name ≠ frame.name)
    (hframes : core.frames = frame :: outer) (span : Span) :
    (core.covered branches).closeTag frame.name span = core.closeTag frame.name span := by
  have hcovered : (core.covered branches).frames = branches ++ frame :: outer :=
    congrArg (branches ++ ·) hframes
  rw [closeTag_split _ hcovered rfl fun branch hbranch => bne_iff_ne.mpr (hnames branch hbranch),
    unwind_branches hbranches, core.closeTag_innermost hframes]
  rfl

/-- The end tag of a branch closes that branch or one of the same name that was left open inside it,
    and with it those further inside. -/
theorem closeTag_branch (core : Session) {left branches : List Frame} {branch : Frame}
    (hbranches : ∀ frame ∈ left ++ branch :: branches, frame.kind = .branch) (span : Span) :
    ∃ kept, (core.covered (left ++ branch :: branches)).closeTag branch.name span =
        core.covered (kept ++ branches) ∧
      ∀ frame ∈ kept, frame.kind = .branch ∧ ∃ other ∈ left, other.name = frame.name := by
  obtain ⟨inner, found, kept, hsplit, hfound, hinner⟩ :
      ∃ inner found kept, left ++ [branch] = inner ++ found :: kept ∧ found.name = branch.name ∧
        ∀ frame ∈ inner, (frame.name != branch.name) = true :=
    exists_innermost (by simp)
  have hall : left ++ branch :: branches = inner ++ found :: (kept ++ branches) := by
    rw [List.append_cons, hsplit, List.append_assoc, List.cons_append]
  rw [hall] at hbranches ⊢
  have hopen : (core.covered (inner ++ found :: (kept ++ branches))).frames =
      inner ++ found :: (kept ++ branches ++ core.frames) := by
    simp [covered]
  have hclose : found.close = id := by
    have hkind := hbranches found (List.mem_append_right _ List.mem_cons_self)
    obtain ⟨name, kind, place⟩ := found
    cases hkind
    rfl
  refine ⟨kept, ?_, ?_⟩
  · rw [closeTag_split _ hopen hfound hinner,
      unwind_branches fun frame hframe => hbranches frame (List.mem_append_left _ hframe), hclose]
    rfl
  · intro frame hframe
    refine ⟨hbranches frame ?_, ?_⟩
    · exact List.mem_append_right _ (List.mem_cons_of_mem _ (List.mem_append_left _ hframe))
    obtain rfl | ⟨init, last, rfl⟩ := List.eq_nil_or_concat kept
    · cases hframe
    · rw [List.concat_eq_append, ← List.cons_append, ← List.append_assoc] at hsplit
      obtain ⟨hleft, hlast⟩ := List.append_inj' hsplit rfl
      rw [List.concat_eq_append, List.mem_append] at hframe
      obtain hframe | hframe := hframe
      · refine ⟨frame, ?_, rfl⟩
        rw [hleft]
        exact List.mem_append_right _ (List.mem_cons_of_mem _ hframe)
      · rw [← hlast, List.mem_singleton] at hframe
        subst hframe
        refine ⟨found, ?_, hfound⟩
        rw [hleft]
        exact List.mem_append_right _ List.mem_cons_self

theorem openChain_ne_of_own {session : Session} {name : String} {attributes : Attributes}
    (hown : continuesChain (chainOf session.frames) name attributes = false)
    (hbranch : (TagKind.of name attributes).isBranch = true) :
    openChain session.frames ≠ some false := by
  intro hopen
  rw [openChain_eq] at hopen
  obtain ⟨chain, hchain, hseen⟩ := Option.map_eq_some_iff.mp hopen
  simp [continuesChain, hbranch, hchain, hseen] at hown

theorem directiveKind_own {session : Session} {name : String} {attributes : Attributes}
    (hown : continuesChain (chainOf session.frames) name attributes = false) :
    (session.directiveKind name attributes).isBranch = false ∧
      (session.directiveKind name attributes).elseSeen? =
        (chainInside name attributes).map Chain.elseSeen := by
  have hrefused := openChain_ne_of_own hown
  unfold directiveKind chainInside
  cases hkind : TagKind.of name attributes
  case elseIfTag | elseTag =>
    rw [hkind] at hrefused
    simp only [if_neg (hrefused rfl)]
    exact ⟨rfl, rfl⟩
  all_goals exact ⟨rfl, rfl⟩

theorem name_of_mem_chainInside {name : String} {attributes : Attributes} {chain : Chain}
    (hchain : chain ∈ chainInside name attributes) : chain.name = name := by
  unfold chainInside at hchain
  split at hchain
  · obtain rfl := Option.some.inj hchain
    rfl
  · cases hchain

/-- A tag that continues no conditional leaves the one around it as it is, and is what branches
    directly inside it continue, if they continue any. -/
theorem frames_openTag_own (setting : Setting) {session : Session} {name : String}
    {attributes : Attributes} (span : Span)
    (hown : continuesChain (chainOf session.frames) name attributes = false) :
    ∃ kind outer, (openTag setting session name attributes span).frames =
        ⟨name, kind, span⟩ :: outer ∧ kind.isBranch = false ∧
      chainOf (⟨name, kind, span⟩ :: outer) = chainInside name attributes ∧
      chainOf outer = chainOf session.frames := by
  have hinside {kind : FrameKind} (hkind : kind.isBranch = false)
      (hseen : kind.elseSeen? = (chainInside name attributes).map Chain.elseSeen)
      (outer : List Frame) :
      chainOf (⟨name, kind, span⟩ :: outer) = chainInside name attributes := by
    rw [chainOf, hkind, hseen]
    cases hchain : chainInside name attributes with
    | none => rfl
    | some chain =>
      rw [← name_of_mem_chainInside hchain]
      rfl
  cases hrendering : session.rendering? (.opened name attributes span) with
  | none =>
    obtain ⟨hkind, hseen⟩ := directiveKind_own hown
    rw [openTag_directive_eq setting hrendering]
    refine ⟨_, _, rfl, hkind, hinside hkind hseen _, ?_⟩
    rw [directiveOuter, hkind]
    rfl
  | some rendering =>
    obtain rfl := session_of_rendering? hrendering
    have hnone : chainInside name attributes = none := by
      obtain ⟨-, hkind | hkind⟩ := rendering?_eq_some hrendering <;>
        simp [chainInside, hkind, TagKind.isBranch]
    rw [openTag_rendering_eq setting hrendering]
    refine ⟨_, _, rfl, rfl, hinside rfl (by rw [hnone]; rfl) _, ?_⟩
    unfold Rendering.counted
    split
    · exact chainOf_setChildren _ _
    · rfl

end Session

namespace Realizes

/-- The end tag of a tag that continues no conditional closes it, also over branches of other names
    that were left open inside. -/
theorem closeTag_own {setting : Setting} {content : Meaning} {before core : Session} {name : String}
    {attributes : Attributes} {opening : Span} {left : List Frame} (hsettled : before.Settled)
    (hown : continuesChain (chainOf before.frames) name attributes = false)
    (h : Realizes content (Session.openTag setting before name attributes opening) core)
    (hkind : ∀ frame ∈ left, frame.kind = .branch)
    (hnames : ∀ frame ∈ left, ∃ chain ∈ chainInside name attributes, frame.name ≠ chain.name)
    (closing : Span) :
    Realizes (.tag setting name attributes opening content) before
        ((core.covered left).closeTag name closing) ∧
      chainOf ((core.covered left).closeTag name closing).frames = chainOf before.frames := by
  obtain ⟨kind, outer, hopened, hbranch, -, houter⟩ :=
    Session.frames_openTag_own setting opening hown
  have hframes := h.frames_eq
  rw [hopened, Tally.update_cons] at hframes
  simp only [hbranch, Bool.false_eq_true, if_false] at hframes
  have hclosed : (core.covered left).closeTag name closing = core.closeTag name closing := by
    refine Session.closeTag_covered hkind ?_ hframes closing
    intro frame hframe
    obtain ⟨chain, hchain, hne⟩ := hnames frame hframe
    rwa [Session.name_of_mem_chainInside hchain] at hne
  rw [hclosed]
  refine ⟨tag hsettled h closing, ?_⟩
  have htail : (core.closeTag name closing).frames = _ :=
    congrArg Session.frames (core.closeTag_innermost hframes closing)
  rw [htail, ← houter]
  dsimp only
  split
  · exact chainOf_setChildren _ _
  · rfl

theorem within_branch {place : Place} (hinside : place.outermost = false)
    (hscript : place.script = none) (content : Meaning) (tally : Tally) :
    Meaning.within .branch content place tally = content place tally := by
  have hplace : place.enter .branch = place := by
    obtain ⟨level, outermost, script, loop, body, chained⟩ := place
    obtain rfl : outermost = false := hinside
    obtain rfl : script = none := hscript
    rfl
  unfold Meaning.within
  rw [hplace]
  rfl

/-- What follows the start tag of a branch belongs to it, whether the branch stays open or not. -/
theorem openBranch {core : Session} {branches : List Frame} {conditional : String}
    (hcovers : Covers branches core.frames) (hlevel : 0 < core.listing.level)
    (hchain : chainOf core.frames = some ⟨conditional, false⟩) (isElse : Bool)
    (name condition : String) (span : Span) :
    ∃ core', (core.covered branches).openBranch isElse name condition span =
        core'.covered (⟨name, .branch, span⟩ :: branches) ∧
      Covers (⟨name, .branch, span⟩ :: branches) core'.frames ∧
      chainOf core'.frames = some ⟨conditional, isElse⟩ ∧
      ∀ content after, Realizes content core' after →
        Realizes (.branch isElse name condition span content) core after := by
  let header := if isElse then elseHeader else elseIfHeader condition
  let continued := core.emit (·.continueBlock header)
  let chosen : Session := { continued with frames := setElseSeen isElse core.frames }
  have hopen : openChain core.frames = some false := by
    rw [openChain_eq, hchain]
    rfl
  have hchosen : openChain chosen.frames = some isElse := by
    rw [openChain_setElseSeen, hopen]
    rfl
  refine ⟨chosen, ?_, ⟨?_, ?_⟩, ?_, ?_⟩
  · have hframes : setElseSeen isElse (branches ++ core.frames) =
        branches ++ setElseSeen isElse core.frames :=
      changeReached_branches hcovers.kind_eq core.frames rfl _
    unfold Session.openBranch
    rw [continueChain_eq, Session.covered, openChain_branches hcovers.kind_eq, hopen]
    simp only [hframes]
    rfl
  · exact List.forall_mem_cons.mpr ⟨rfl, hcovers.kind_eq⟩
  · intro _
    rw [hchosen]
    rfl
  · rw [chainOf_setElseSeen, hchain]
    rfl
  · intro content after hcontent
    obtain ⟨hinside, hscript⟩ := script?_of_openChain (Option.isSome_of_eq_some hopen)
    have hplace : core.place.chained = true ∧ core.tally.elseSeen = false := by
      simp [Session.place, Session.tally, hopen]
    have htally : chosen.tally = { continued.tally with elseSeen := isElse } := by
      simp [chosen, continued, Session.tally, Session.emit, hopen]
    have hframes : chosen.frames = chosen.tally.update continued.frames := by
      rw [htally, Tally.update, Session.setChildren_tally]
      rfl
    have hchose : Realizes (.tallied ({ · with elseSeen := isElse })) continued chosen :=
      tallied rfl rfl htally hframes
    have hcontinued : Meaning.branch isElse name condition span content core.place core.tally =
        Meaning.continued isElse condition content core.place core.tally := by
      simp [Meaning.branch, hplace]
    refine congr (((continueBlock hlevel header).append hchose).append hcontent) ?_
    rw [hcontinued, Meaning.continued, Meaning.append_apply, within_branch hinside hscript]
    rfl

theorem openTag_branch (setting : Setting) {core : Session} {branches : List Frame}
    {conditional name : String} {attributes : Attributes} (span : Span)
    (hcovers : Covers branches core.frames) (hsettled : (core.covered branches).Settled)
    (hchain : chainOf core.frames = some ⟨conditional, false⟩)
    (hbranch : (TagKind.of name attributes).isBranch = true) :
    ∃ core', Session.openTag setting (core.covered branches) name attributes span =
        core'.covered (⟨name, .branch, span⟩ :: branches) ∧
      Covers (⟨name, .branch, span⟩ :: branches) core'.frames ∧
      chainOf core'.frames =
        some ⟨conditional, decide (TagKind.of name attributes = .elseTag)⟩ ∧
      ∀ content after, Realizes content core' after →
        Realizes (.tag setting name attributes span content) core after := by
  let condition := tagCondition attributes
  let checked := core.checkCondition name condition span
  have hchecked : Realizes (.checkCondition name condition span) core checked :=
    checkCondition core name condition span
  have hlevel : 0 < checked.listing.level := by
    have hopen : openChain (branches ++ core.frames) = some false := by
      rw [openChain_branches hcovers.kind_eq, openChain_eq, hchain]
      rfl
    have hdebt : (core.covered branches).listing.level = debt (branches ++ core.frames) :=
      hsettled.level_eq
    exact hdebt ▸ debt_pos_of_openChain hopen
  have hopened (isElse : Bool) :=
    openBranch (show Covers branches checked.frames from hcovers) hlevel hchain isElse name
      (conditionExpression condition) span
  simp only [Session.openTag, Meaning.tag]
  cases hkind : TagKind.of name attributes with
  | elseIfTag =>
    obtain ⟨core', hopen, hcovers', hchain', hrealizes⟩ := hopened false
    exact ⟨core', hopen, hcovers', hchain', fun content after hcontent =>
      hchecked.append (hrealizes content after hcontent)⟩
  | elseTag =>
    obtain ⟨core', hopen, hcovers', hchain', hrealizes⟩ := hopened true
    exact ⟨core', hopen, hcovers', hchain', fun content after hcontent =>
      hchecked.append (hrealizes content after hcontent)⟩
  | _ =>
    rw [hkind] at hbranch
    cases hbranch

end Realizes

end TemplateCompiler.Template
