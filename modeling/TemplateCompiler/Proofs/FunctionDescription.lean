import TemplateCompiler.Proofs.Prologue

namespace TemplateCompiler.Template

open Markup (Attributes Event Span)

/-- A template tag that says something about the function. -/
def Describes (name : String) (attributes : Attributes) : Prop :=
  name = "template" ∧ (attributes.contains "name" = true ∨ attributes.contains "args" = true)

instance (name : String) (attributes : Attributes) : Decidable (Describes name attributes) :=
  inferInstanceAs (Decidable (_ ∧ _))

theorem TagKind.of_eq_metadata_iff {name : String} {attributes : Attributes} :
    TagKind.of name attributes = .metadata ↔ Describes name attributes := by
  unfold TagKind.of Describes
  constructor
  · grind
  · rintro ⟨rfl, hgiven⟩
    simp [hgiven]

/-- What is said about the function, and where. -/
structure Description where
  attributes : Attributes
  span : Span

namespace Description

/-- The name of the function: the `name` without blanks around it, if that is an identifier. -/
def name? (description : Description) : Option String :=
  ((description.attributes.get? "name").map Text.trimmed).filter Script.isIdentifier

/-- The text of the parameters: the `args`, unless they are blank. -/
def args? (description : Description) : Option String :=
  (description.attributes.get? "args").filter (!Text.allBlank ·)

/-- What a session keeps of a description. -/
def metadata (description : Description) : Metadata :=
  ⟨description.name?, description.args?⟩

/-- The tag of a description while it is open. -/
def frame (description : Description) : Frame :=
  ⟨"template", .template, description.span⟩

/-- The description that an event gives while some tags are open: there must be none. -/
def at? (tags : List OpenTag) : Event → Option Description
  | .opened name attributes span =>
    if tags = [] ∧ Describes name attributes then some ⟨attributes, span⟩ else none
  | _ => none

/-- The first description that events give, behind some open tags. -/
def first? : List OpenTag → List Event → Option Description
  | _, [] => none
  | tags, event :: events => (at? tags event).or (first? (OpenTag.after tags event) events)

end Description

namespace Frame

/-- Whether a frame is the one of a description. -/
def isTemplate (frame : Frame) : Bool :=
  frame.kind = .template

theorem isTemplate_withChildren (count : Nat) (frame : Frame) :
    isTemplate { frame with kind := frame.kind.withChildren count } = frame.isTemplate := by
  rcases hkind : frame.kind with _ | _ | _ | _ | _ | (_ | _) | _ <;>
    simp [isTemplate, FrameKind.withChildren, hkind]

theorem isTemplate_withElseSeen (elseSeen : Bool) (frame : Frame) :
    isTemplate { frame with kind := frame.kind.withElseSeen elseSeen } = frame.isTemplate := by
  cases hkind : frame.kind <;> simp [isTemplate, FrameKind.withElseSeen, hkind]

end Frame

/-- No frame inside another one is that of a description. -/
def TemplateOutermost (frames : List Frame) : Prop :=
  ∀ frame ∈ frames.dropLast, frame.kind ≠ .template

namespace TemplateOutermost

variable {frames inner outer : List Frame}

theorem of_map_eq (h : TemplateOutermost frames)
    (hsame : outer.map Frame.isTemplate = frames.map Frame.isTemplate) :
    TemplateOutermost outer := by
  intro frame hframe htemplate
  have hmem := List.mem_map_of_mem (f := Frame.isTemplate) hframe
  rw [List.map_dropLast, hsame, ← List.map_dropLast] at hmem
  obtain ⟨other, hother, heq⟩ := List.mem_map.mp hmem
  refine h other hother ?_
  simpa [Frame.isTemplate, htemplate] using heq

theorem push (h : TemplateOutermost outer) {frame : Frame}
    (hkind : frame.kind ≠ .template) : TemplateOutermost (frame :: outer) := by
  cases outer with
  | nil => exact List.forall_mem_nil _
  | cons around outer => exact List.forall_mem_cons.mpr ⟨hkind, h⟩

theorem of_append (h : TemplateOutermost (inner ++ outer)) :
    TemplateOutermost outer := by
  cases outer with
  | nil => exact List.forall_mem_nil _
  | cons around outer =>
    rw [TemplateOutermost, List.dropLast_append_of_ne_nil (List.cons_ne_nil around outer)] at h
    exact (List.forall_mem_append.mp h).2

end TemplateOutermost

namespace Session

variable (setting : Setting) (session : Session)

theorem openTags_eq_nil_iff : session.openTags = [] ↔ session.frames = [] :=
  List.map_eq_nil_iff

section Described

theorem openTag_of_describes {session : Session} {name : String} {attributes : Attributes}
    (hdescribes : Describes name attributes) (span : Span) :
    openTag setting session name attributes span =
      if session.frames = [] ∧ session.metadata = none then
        (session.readMetadata attributes span).push name .template span
      else openElement setting (session.report [.extraMetadata] span) name attributes span := by
  simp only [openTag, TagKind.of_eq_metadata_iff.mpr hdescribes]

theorem rendering?_of_describes {name : String} {attributes : Attributes}
    (hdescribes : Describes name attributes) (span : Span) :
    session.rendering? (.opened name attributes span) =
      if session.frames = [] ∧ session.metadata = none then none
      else some ⟨session, name, attributes⟩ := by
  simp only [rendering?, TagKind.of_eq_metadata_iff.mpr hdescribes]

/-- A session keeps the first description that it is given. -/
theorem metadata_feed (event : Event) :
    (session.feed setting event).metadata =
      session.metadata.or ((Description.at? session.openTags event).map Description.metadata) := by
  cases event with
  | text content span =>
    rw [feed, addText_eq]
    exact Option.or_none.symm
  | closed name span =>
    rw [feed, closeTag_eq]
    exact Option.or_none.symm
  | opened name attributes span =>
    simp only [feed, Description.at?, openTags_eq_nil_iff]
    by_cases hdescribes : Describes name attributes
    · have hrendering := session.rendering?_of_describes hdescribes span
      by_cases hfirst : session.frames = [] ∧ session.metadata = none
      · rw [if_pos hfirst] at hrendering
        rw [openTag_directive_eq setting hrendering,
          if_pos (TagKind.of_eq_metadata_iff.mpr hdescribes), if_pos ⟨hfirst.1, hdescribes⟩,
          hfirst.2]
        rfl
      · rw [if_neg hfirst] at hrendering
        rw [openTag_rendering_eq setting hrendering]
        cases hmetadata : session.metadata with
        | some metadata => rfl
        | none =>
          rw [if_neg fun h => hfirst ⟨h.1, hmetadata⟩]
          rfl
    · rw [if_neg fun h => hdescribes h.2]
      refine Eq.trans ?_ Option.or_none.symm
      cases hrendering : session.rendering? (.opened name attributes span) with
      | none =>
        rw [openTag_directive_eq setting hrendering,
          if_neg (mt TagKind.of_eq_metadata_iff.mp hdescribes)]
      | some rendering => rw [openTag_rendering_eq setting hrendering]

theorem metadata_feedAll (events : List Event) :
    (session.feedAll setting events).metadata =
      session.metadata.or
        ((Description.first? session.openTags events).map Description.metadata) := by
  induction events generalizing session with
  | nil => exact Option.or_none.symm
  | cons event events ih =>
    rw [feedAll_cons, ih, metadata_feed, openTags_feed, Option.or_assoc, Description.first?]
    cases Description.at? session.openTags event <;> rfl

/-- A tag that says something about the function is an ordinary element inside an open tag, and
    behind another description. -/
theorem feed_eq_openElement {name : String} {attributes : Attributes}
    (hdescribes : Describes name attributes)
    (hextra : session.frames ≠ [] ∨ session.metadata ≠ none) (span : Span) :
    session.feed setting (.opened name attributes span) =
      openElement setting (session.report [.extraMetadata] span) name attributes span := by
  rw [feed, openTag_of_describes setting hdescribes, if_neg (not_and_or.mpr hextra)]

end Described

section Frames

theorem directiveKind_ne_template {session : Session} {name : String} {attributes : Attributes}
    {span : Span} (hnone : session.rendering? (.opened name attributes span) = none)
    (hother : ¬(session.metadata = none ∧ session.frames = [] ∧ Describes name attributes)) :
    session.directiveKind name attributes ≠ .template := by
  unfold directiveKind
  simp only [rendering?] at hnone
  cases hkind : TagKind.of name attributes <;> rw [hkind] at hnone
  case element => cases hnone
  case metadata =>
    dsimp only at hnone
    split at hnone
    · rename_i hfirst
      exact (hother ⟨hfirst.2, hfirst.1, TagKind.of_eq_metadata_iff.mp hkind⟩).elim
    · cases hnone
  case elseIfTag | elseTag =>
    dsimp only
    split <;> simp
  all_goals simp

/-- A tag is the description of the function, or its frame is of another kind. The frames around it
    stay of their kinds. -/
theorem frames_openTag_cases (name : String) (attributes : Attributes) (span : Span) :
    (session.metadata = none ∧ session.frames = [] ∧ Describes name attributes ∧
        (openTag setting session name attributes span).frames = [⟨name, .template, span⟩]) ∨
      ¬(session.metadata = none ∧ session.frames = [] ∧ Describes name attributes) ∧
        ∃ kind outer, (openTag setting session name attributes span).frames =
            ⟨name, kind, span⟩ :: outer ∧
          kind ≠ .template ∧ outer.map Frame.isTemplate = session.frames.map Frame.isTemplate := by
  by_cases hfirst : session.metadata = none ∧ session.frames = [] ∧ Describes name attributes
  · obtain ⟨hmetadata, hframes, hdescribes⟩ := hfirst
    refine .inl ⟨hmetadata, hframes, hdescribes, ?_⟩
    rw [openTag_of_describes setting hdescribes, if_pos ⟨hframes, hmetadata⟩]
    exact congrArg (_ :: ·) hframes
  · refine .inr ⟨hfirst, ?_⟩
    cases hrendering : session.rendering? (.opened name attributes span) with
    | some rendering =>
      obtain rfl := session_of_rendering? hrendering
      rw [openTag_rendering_eq setting hrendering]
      exact ⟨_, _, rfl, by simp [Rendering.frameKind],
        map_counted setting rendering Frame.isTemplate_withChildren⟩
    | none =>
      rw [openTag_directive_eq setting hrendering]
      exact ⟨_, _, rfl, directiveKind_ne_template hrendering hfirst,
        session.map_directiveOuter name attributes Frame.isTemplate_withElseSeen⟩

/-- The frame that an event pushes. -/
def pushed? : Event → Option Frame
  | .opened name attributes span => (openTag setting session name attributes span).frames.head?
  | _ => none

/-- The frames that a list of events pushes, in order. -/
def pushed (setting : Setting) : Session → List Event → List Frame
  | _, [] => []
  | session, event :: events =>
    (session.pushed? setting event).toList ++ pushed setting (session.feed setting event) events

theorem templates_pushed? (event : Event) :
    (session.pushed? setting event).toList.filter Frame.isTemplate =
      if session.metadata = none then
        (Description.at? session.openTags event).toList.map Description.frame
      else [] := by
  cases event with
  | text content span => simp [pushed?, Description.at?]
  | closed name span => simp [pushed?, Description.at?]
  | opened name attributes span =>
    simp only [pushed?, Description.at?, openTags_eq_nil_iff]
    obtain ⟨hmetadata, hframes, hdescribes, hopened⟩ | ⟨hother, kind, outer, hopened, hkind, -⟩ :=
      frames_openTag_cases setting session name attributes span
    · rw [hopened, if_pos hmetadata, if_pos ⟨hframes, hdescribes⟩, hdescribes.1]
      rfl
    · rw [hopened]
      have hpushed : Frame.isTemplate ⟨name, kind, span⟩ = false := by
        simpa [Frame.isTemplate] using hkind
      grind

/-- The frame of the first description is pushed, and no other one of its kind. -/
theorem templates_pushed (events : List Event) :
    (session.pushed setting events).filter Frame.isTemplate =
      if session.metadata = none then
        (Description.first? session.openTags events).toList.map Description.frame
      else [] := by
  induction events generalizing session with
  | nil => simp [pushed, Description.first?]
  | cons event events ih =>
    rw [pushed, List.filter_append, ih, templates_pushed?, metadata_feed, openTags_feed,
      Description.first?]
    cases session.metadata <;> cases Description.at? session.openTags event <;> simp

end Frames

section Outermost

theorem templateOutermost_feed {session : Session} (h : TemplateOutermost session.frames)
    (event : Event) : TemplateOutermost (session.feed setting event).frames := by
  cases event with
  | text content span =>
    rw [feed, addText_eq]
    exact h
  | closed name span =>
    rw [← session.closedBy_append_frames name span] at h
    exact h.of_append
  | opened name attributes span =>
    rw [feed]
    obtain ⟨-, -, -, hopened⟩ | ⟨-, kind, outer, hopened, hkind, hsame⟩ :=
      frames_openTag_cases setting session name attributes span
    · rw [hopened]
      exact List.forall_mem_nil _
    · rw [hopened]
      exact (h.of_map_eq hsame).push hkind

theorem templateOutermost_feedAll {session : Session} (h : TemplateOutermost session.frames)
    (events : List Event) : TemplateOutermost (session.feedAll setting events).frames := by
  induction events generalizing session with
  | nil => exact h
  | cons event events ih => exact ih (templateOutermost_feed setting h event)

theorem templateOutermost_start : TemplateOutermost start.frames :=
  List.forall_mem_nil _

end Outermost

end Session

end TemplateCompiler.Template
