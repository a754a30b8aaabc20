import TemplateCompiler.Template.Frame

namespace TemplateCompiler.Template

section Reach

/-- The kind of the innermost open tag that is not passed through. -/
def reach (through : FrameKind → Bool) : List Frame → Option FrameKind
  | [] => none
  | frame :: frames => if through frame.kind then reach through frames else some frame.kind

/-- The open tags with a change to the innermost one that is not passed through. -/
def changeReached (through : FrameKind → Bool) (change : FrameKind → FrameKind) :
    List Frame → List Frame
  | [] => []
  | frame :: frames =>
    if through frame.kind then frame :: changeReached through change frames
    else { frame with kind := change frame.kind } :: frames

variable {through passing : FrameKind → Bool} {change other : FrameKind → FrameKind}

theorem map_changeReached {α : Type} {f : Frame → α}
    (hf : ∀ frame, f { frame with kind := change frame.kind } = f frame) (frames : List Frame) :
    (changeReached through change frames).map f = frames.map f := by
  induction frames with
  | nil => rfl
  | cons frame frames ih =>
    rw [changeReached]
    split
    · rw [List.map_cons, List.map_cons, ih]
    · rw [List.map_cons, List.map_cons, hf]

theorem reach_changeReached (hthrough : ∀ kind, through (change kind) = through kind)
    (frames : List Frame) :
    reach through (changeReached through change frames) = (reach through frames).map change := by
  induction frames with
  | nil => rfl
  | cons frame frames ih =>
    by_cases hpass : through frame.kind = true <;> simp [changeReached, reach, hpass, hthrough, ih]

/-- A change that another look does not see may be made anywhere. -/
theorem reach_changeReached_bind {α : Type} {look : FrameKind → Option α}
    (hpassing : ∀ kind, passing (change kind) = passing kind)
    (hlook : ∀ kind, look (change kind) = look kind) (frames : List Frame) :
    (reach passing (changeReached through change frames)).bind look =
      (reach passing frames).bind look := by
  induction frames with
  | nil => rfl
  | cons frame frames ih =>
    rw [changeReached]
    split
    · rw [reach, reach]
      split
      · exact ih
      · rfl
    · rw [reach, reach, hpassing]
      split
      · rfl
      · exact hlook frame.kind

theorem changeReached_changeReached (hthrough : ∀ kind, through (change kind) = through kind)
    (frames : List Frame) :
    changeReached through other (changeReached through change frames) =
      changeReached through (other ∘ change) frames := by
  induction frames with
  | nil => rfl
  | cons frame frames ih =>
    by_cases hpass : through frame.kind = true <;> simp [changeReached, hpass, hthrough, ih]

theorem changeReached_comm (hthrough : ∀ kind, through (other kind) = through kind)
    (hpassing : ∀ kind, passing (change kind) = passing kind)
    (hchange : ∀ kind, change (other kind) = other (change kind)) (frames : List Frame) :
    changeReached through change (changeReached passing other frames) =
      changeReached passing other (changeReached through change frames) := by
  induction frames with
  | nil => rfl
  | cons frame frames ih =>
    by_cases hpass : through frame.kind = true <;>
      by_cases hpass' : passing frame.kind = true <;>
      simp [changeReached, hpass, hpass', hthrough, hpassing, hchange, ih]

theorem changeReached_self {frames : List Frame}
    (hself : ∀ kind, reach through frames = some kind → change kind = kind) :
    changeReached through change frames = frames := by
  induction frames with
  | nil => rfl
  | cons frame frames ih =>
    rw [changeReached]
    split
    · rename_i hpass
      rw [ih]
      intro kind hreach
      exact hself kind (by rwa [reach, if_pos hpass])
    · rename_i hstop
      rw [hself frame.kind (by rw [reach, if_neg hstop])]

end Reach

namespace FrameKind

/-- Whether the content of a tag stands in the loop body around the tag. -/
def isTransparent : FrameKind → Bool
  | .conditional _ | .branch | .skip => true
  | _ => false

/-- Whether the content of a tag is a further branch of the conditional around the tag. -/
def isBranch : FrameKind → Bool
  | .branch => true
  | _ => false

/-- The number of the loop that a tag runs. -/
def loop? : FrameKind → Option Nat
  | .each loop => loop.map Loop.number
  | .element _ loop _ => loop
  | _ => none

/-- Whether a script is hoisted. -/
def script? : FrameKind → Option Bool
  | .literal hoisted => some hoisted
  | _ => none

/-- The loop of a tag whose content is a loop body. -/
def bodyLoop? : FrameKind → Option Loop
  | .each loop => loop
  | _ => none

/-- Whether a conditional has had its else. -/
def elseSeen? : FrameKind → Option Bool
  | .conditional elseSeen => some elseSeen
  | _ => none

/-- A tag after its loop body has given a key to `count` children. -/
def withChildren (count : Nat) : FrameKind → FrameKind
  | .each (some loop) => .each (some { loop with children := count })
  | kind => kind

/-- A conditional that has had its else, or not. -/
def withElseSeen (elseSeen : Bool) : FrameKind → FrameKind
  | .conditional _ => .conditional elseSeen
  | kind => kind

end FrameKind

/-- The loop whose body the content of the innermost open tag stands in. -/
def eachBody (frames : List Frame) : Option Loop :=
  (reach FrameKind.isTransparent frames).bind FrameKind.bodyLoop?

/-- The open tags after that loop has given a key to `count` children. -/
def setChildren (count : Nat) (frames : List Frame) : List Frame :=
  changeReached FrameKind.isTransparent (FrameKind.withChildren count) frames

/-- Whether the conditional that a branch would continue has had its else. -/
def openChain (frames : List Frame) : Option Bool :=
  (reach FrameKind.isBranch frames).bind FrameKind.elseSeen?

/-- The open tags after that conditional has had its else, or not. -/
def setElseSeen (elseSeen : Bool) (frames : List Frame) : List Frame :=
  changeReached FrameKind.isBranch (FrameKind.withElseSeen elseSeen) frames

/-- A child key is the next one of the loop whose body the child stands in, and nothing but the
    count of that loop changes. -/
theorem takeChildKey_eq (frames : List Frame) :
    takeChildKey frames = (eachBody frames).map fun loop =>
      (childKey (keyVariable loop.number) (loop.children + 1),
        setChildren (loop.children + 1) frames) := by
  induction frames with
  | nil => rfl
  | cons frame frames ih =>
    obtain ⟨name, kind, span⟩ := frame
    cases kind with
    | conditional | branch | skip =>
      change (takeChildKey frames).map _ = (eachBody frames).map _
      rw [ih, Option.map_map]
      rfl
    | each loop => cases loop <;> rfl
    | template | literal | element => rfl

/-- A branch continues the conditional that it finds without an else, and nothing but the memory of
    that else changes. -/
theorem continueChain_eq (isElse : Bool) (frames : List Frame) :
    continueChain isElse frames =
      match openChain frames with
      | none => .error .notInside
      | some true => .error .elseSeen
      | some false => .ok (setElseSeen isElse frames) := by
  induction frames with
  | nil => rfl
  | cons frame frames ih =>
    obtain ⟨name, kind, span⟩ := frame
    cases kind with
    | branch =>
      have hchain : openChain (⟨name, .branch, span⟩ :: frames) = openChain frames := rfl
      simp only [continueChain]
      rw [hchain, ih]
      split <;> rfl
    | conditional elseSeen => cases elseSeen <;> rfl
    | _ => rfl

section Windows

theorem isTransparent_withChildren (count : Nat) (kind : FrameKind) :
    (kind.withChildren count).isTransparent = kind.isTransparent := by
  rcases kind with _ | _ | _ | _ | _ | (_ | _) | _ <;> rfl

theorem isTransparent_withElseSeen (elseSeen : Bool) (kind : FrameKind) :
    (kind.withElseSeen elseSeen).isTransparent = kind.isTransparent := by
  cases kind <;> rfl

theorem isBranch_withChildren (count : Nat) (kind : FrameKind) :
    (kind.withChildren count).isBranch = kind.isBranch := by
  rcases kind with _ | _ | _ | _ | _ | (_ | _) | _ <;> rfl

theorem isBranch_withElseSeen (elseSeen : Bool) (kind : FrameKind) :
    (kind.withElseSeen elseSeen).isBranch = kind.isBranch := by
  cases kind <;> rfl

theorem script?_withChildren (count : Nat) (kind : FrameKind) :
    (kind.withChildren count).script? = kind.script? := by
  rcases kind with _ | _ | _ | _ | _ | (_ | _) | _ <;> rfl

theorem script?_withElseSeen (elseSeen : Bool) (kind : FrameKind) :
    (kind.withElseSeen elseSeen).script? = kind.script? := by
  cases kind <;> rfl

theorem loop?_withChildren (count : Nat) (frame : Frame) :
    Frame.loop? { frame with kind := frame.kind.withChildren count } = frame.loop? := by
  obtain ⟨name, kind, span⟩ := frame
  rcases kind with _ | _ | _ | _ | _ | (_ | _) | _ <;> rfl

theorem loop?_withElseSeen (elseSeen : Bool) (frame : Frame) :
    Frame.loop? { frame with kind := frame.kind.withElseSeen elseSeen } = frame.loop? := by
  obtain ⟨name, kind, span⟩ := frame
  cases kind <;> rfl

variable (count later : Nat) (elseSeen later' : Bool) (frame : Frame) (frames : List Frame)

theorem eachBody_cons :
    eachBody (frame :: frames) =
      if frame.kind.isTransparent then eachBody frames else frame.kind.bodyLoop? := by
  unfold eachBody
  rw [reach]
  split <;> rfl

theorem openChain_cons :
    openChain (frame :: frames) =
      if frame.kind.isBranch then openChain frames else frame.kind.elseSeen? := by
  unfold openChain
  rw [reach]
  split <;> rfl

theorem enclosingLoop_cons :
    enclosingLoop (frame :: frames) = frame.kind.loop?.or (enclosingLoop frames) := by
  have hloop : frame.loop? = frame.kind.loop? := by
    obtain ⟨name, kind, span⟩ := frame
    cases kind <;> rfl
  unfold enclosingLoop
  rw [List.findSome?_cons, hloop]
  cases frame.kind.loop? <;> rfl

theorem setChildren_cons :
    setChildren count (frame :: frames) =
      { frame with kind := frame.kind.withChildren count } ::
        if frame.kind.isTransparent then setChildren count frames else frames := by
  obtain ⟨name, kind, span⟩ := frame
  cases kind <;> rfl

theorem setElseSeen_cons :
    setElseSeen elseSeen (frame :: frames) =
      { frame with kind := frame.kind.withElseSeen elseSeen } ::
        if frame.kind.isBranch then setElseSeen elseSeen frames else frames := by
  obtain ⟨name, kind, span⟩ := frame
  cases kind <;> rfl

@[simp]
theorem eachBody_setChildren :
    eachBody (setChildren count frames) =
      (eachBody frames).map fun loop => { loop with children := count } := by
  unfold eachBody setChildren
  rw [reach_changeReached (isTransparent_withChildren count)]
  cases reach FrameKind.isTransparent frames with
  | none => rfl
  | some kind => rcases kind with _ | _ | _ | _ | _ | (_ | _) | _ <;> rfl

@[simp]
theorem eachBody_setElseSeen : eachBody (setElseSeen elseSeen frames) = eachBody frames :=
  reach_changeReached_bind (isTransparent_withElseSeen elseSeen)
    (fun kind => by cases kind <;> rfl) frames

@[simp]
theorem openChain_setChildren : openChain (setChildren count frames) = openChain frames :=
  reach_changeReached_bind (isBranch_withChildren count)
    (fun kind => by rcases kind with _ | _ | _ | _ | _ | (_ | _) | _ <;> rfl) frames

@[simp]
theorem openChain_setElseSeen :
    openChain (setElseSeen elseSeen frames) = (openChain frames).map fun _ => elseSeen := by
  unfold openChain setElseSeen
  rw [reach_changeReached (isBranch_withElseSeen elseSeen)]
  cases reach FrameKind.isBranch frames with
  | none => rfl
  | some kind => cases kind <;> rfl

@[simp]
theorem setChildren_setChildren :
    setChildren later (setChildren count frames) = setChildren later frames := by
  have hlast : FrameKind.withChildren later ∘ FrameKind.withChildren count =
      FrameKind.withChildren later := by
    funext kind
    rcases kind with _ | _ | _ | _ | _ | (_ | _) | _ <;> rfl
  unfold setChildren
  rw [changeReached_changeReached (isTransparent_withChildren count), hlast]

@[simp]
theorem setElseSeen_setElseSeen :
    setElseSeen later' (setElseSeen elseSeen frames) = setElseSeen later' frames := by
  have hlast : FrameKind.withElseSeen later' ∘ FrameKind.withElseSeen elseSeen =
      FrameKind.withElseSeen later' := by
    funext kind
    cases kind <;> rfl
  unfold setElseSeen
  rw [changeReached_changeReached (isBranch_withElseSeen elseSeen), hlast]

theorem setChildren_setElseSeen :
    setChildren count (setElseSeen elseSeen frames) =
      setElseSeen elseSeen (setChildren count frames) :=
  changeReached_comm (isTransparent_withElseSeen elseSeen) (isBranch_withChildren count)
    (fun kind => by rcases kind with _ | _ | _ | _ | _ | (_ | _) | _ <;> rfl) frames

theorem enclosingLoop_eq : enclosingLoop frames = (frames.map Frame.loop?).findSome? id := by
  rw [List.findSome?_map]
  rfl

@[simp]
theorem enclosingLoop_setChildren :
    enclosingLoop (setChildren count frames) = enclosingLoop frames := by
  rw [enclosingLoop_eq, enclosingLoop_eq, setChildren,
    map_changeReached (loop?_withChildren count)]

@[simp]
theorem enclosingLoop_setElseSeen :
    enclosingLoop (setElseSeen elseSeen frames) = enclosingLoop frames := by
  rw [enclosingLoop_eq, enclosingLoop_eq, setElseSeen,
    map_changeReached (loop?_withElseSeen elseSeen)]

end Windows

/-- Writing back the count that was read changes nothing. -/
theorem setChildren_self {count : Nat} {frames : List Frame}
    (hcount : ∀ loop, eachBody frames = some loop → loop.children = count) :
    setChildren count frames = frames := by
  apply changeReached_self
  intro kind hreach
  rcases kind with _ | _ | _ | _ | _ | (_ | loop) | _ <;> try rfl
  have hchildren := hcount loop (by rw [eachBody, hreach]; rfl)
  subst hchildren
  rfl

/-- Writing back what was read of the else changes nothing. -/
theorem setElseSeen_self {elseSeen : Bool} {frames : List Frame}
    (hseen : ∀ seen, openChain frames = some seen → seen = elseSeen) :
    setElseSeen elseSeen frames = frames := by
  apply changeReached_self
  intro kind hreach
  cases kind with
  | conditional seen =>
    have helse := hseen seen (by rw [openChain, hreach]; rfl)
    subst helse
    rfl
  | _ => rfl

end TemplateCompiler.Template
