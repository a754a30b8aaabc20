import TemplateCompiler.Text.Lines

namespace TemplateCompiler.Template

/-- The texts of the declared arrays in order of first use, and the pieces of script. -/
structure HoistPool where
  statics : List String
  literals : List String
deriving DecidableEq, Repr

namespace HoistPool

/-- Nothing hoisted. -/
def empty : HoistPool := ⟨[], []⟩

/-- The identifier of the array declared at an index. -/
def identifier (index : Nat) : String :=
  "hoisted" ++ toString (index + 1)

/-- Declares an array unless an equal one is declared already. -/
def addStatics (pool : HoistPool) (text : String) : HoistPool :=
  if text ∈ pool.statics then pool else { pool with statics := pool.statics ++ [text] }

/-- The identifier that refers to an array, which is the next free one if it is not declared yet. -/
def identifierOf (pool : HoistPool) (text : String) : String :=
  identifier (pool.statics.idxOf text)

/-- Adds a piece of script behind all others. -/
def addLiteral (pool : HoistPool) (text : String) : HoistPool :=
  { pool with literals := pool.literals ++ [text] }

/-- Takes everything out of a pool, so that it numbers its arrays from the start again. -/
def clear (_ : HoistPool) : HoistPool := empty

/-- The declaration of the array at an index. -/
def declaration (index : Nat) (text : String) : String :=
  "var " ++ identifier index ++ " = " ++ text

/-- The hoisted script: the declarations, then the pieces of script. -/
def render (pool : HoistPool) : String :=
  Text.joinLines (pool.statics.mapIdx declaration ++ pool.literals)

end HoistPool

end TemplateCompiler.Template
