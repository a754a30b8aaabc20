import TemplateCompiler.Script.Quoted

namespace TemplateCompiler.Template

/-- Generated ids: the id of every draw, counted from zero. -/
def IdSource : Type := Nat → String

namespace IdSource

/-- The ids `stem1`, `stem2`, and so on. -/
def sequential (stem : String) : IdSource :=
  fun drawn => stem ++ toString (drawn + 1)

/-- The ids of a nonempty list in turn, starting over at its end. -/
def cycle (ids : List String) : IdSource :=
  fun drawn => ids.getD (drawn % ids.length) ""

end IdSource

/-- The `key` attribute of an element. -/
inductive ExplicitKey where
  | absent
  | empty
  | literal (key : String)
deriving DecidableEq, Repr

/-- The explicit key given by the value of a `key` attribute. -/
def ExplicitKey.ofAttribute : Option String → ExplicitKey
  | none => absent
  | some key => if key = "" then empty else literal key

/-- Name of the variable with the iterated value of a loop. -/
def targetVariable (number : Nat) : String :=
  "__target" ++ toString number

/-- Name of the variable with the key of a loop's current item. -/
def keyVariable (number : Nat) : String :=
  "$key" ++ toString number

/-- The key of the child with that number, counted from one, in a loop's body. -/
def childKey (keyVariable : String) (ordinal : Nat) : String :=
  keyVariable ++ " + \"_" ++ toString ordinal ++ "\""

/-- The key of a loop's current item: the item's own key, told apart from other loops by an id and
    from other items of an enclosing loop by that loop's key. -/
def loopKey (outer itemKey : Option String) (id : String) : String :=
  let item :=
    match itemKey with
    | some expression => "(" ++ expression ++ ")"
    | none => "$item"
  let inner := item ++ " + " ++ Script.quote ("_" ++ id)
  match outer with
  | some outer => outer ++ " + \"_\" + " ++ inner
  | none => inner

end TemplateCompiler.Template
