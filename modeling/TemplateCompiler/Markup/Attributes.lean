namespace TemplateCompiler.Markup

/-- An attribute name and its value as written. -/
abbrev Attribute : Type := String × String

/-- Attributes in declaration order, with pairwise distinct names. -/
structure Attributes where
  entries : List Attribute
  nodup_names : (entries.map Prod.fst).Nodup
deriving DecidableEq, Repr

namespace Attributes

/-- No attributes. -/
def empty : Attributes := ⟨[], List.nodup_nil⟩

/-- Whether there is an attribute of that name. -/
def contains (attributes : Attributes) (name : String) : Bool :=
  attributes.entries.any (·.1 == name)

/-- The value of the attribute of that name. -/
def get? (attributes : Attributes) (name : String) : Option String :=
  (attributes.entries.find? (·.1 == name)).map Prod.snd

/-- Number of attributes. -/
def size (attributes : Attributes) : Nat :=
  attributes.entries.length

theorem contains_eq_true_iff (attributes : Attributes) (name : String) :
    attributes.contains name = true ↔ name ∈ attributes.entries.map Prod.fst := by
  simp [contains]

/-- Adds an attribute at the end, unless its name is already there. -/
def insert (attributes : Attributes) (name value : String) : Attributes :=
  if hknown : attributes.contains name = true then attributes
  else
    { entries := attributes.entries ++ [(name, value)]
      nodup_names := by
        rw [contains_eq_true_iff] at hknown
        rw [List.map_append, List.nodup_append]
        refine ⟨attributes.nodup_names, by simp, ?_⟩
        intro known hmem new hnew
        simp only [List.map_cons, List.map_nil, List.mem_singleton] at hnew
        subst hnew
        intro heq
        exact hknown (heq ▸ hmem) }

/-- Leaves out the attribute of that name. -/
def erase (attributes : Attributes) (name : String) : Attributes where
  entries := attributes.entries.filter (·.1 != name)
  nodup_names := attributes.nodup_names.sublist (List.filter_sublist.map Prod.fst)

/-- The attributes of a list, where a repeated name keeps its first value. -/
def ofList (pairs : List Attribute) : Attributes :=
  pairs.foldl (fun attributes (name, value) => attributes.insert name value) empty

end Attributes

end TemplateCompiler.Markup
