import Mathlib.Data.List.Induction
import Mathlib.Data.List.Nodup
import TemplateCompiler.Proofs.Numerals
import TemplateCompiler.Template.HoistPool

namespace TemplateCompiler.Template

namespace HoistPool

section Declarations

variable {pool : HoistPool} {text : String}

theorem mem_addStatics (pool : HoistPool) (text : String) :
    text ∈ (pool.addStatics text).statics := by
  unfold addStatics
  split
  · assumption
  · simp

theorem statics_prefix_addStatics (pool : HoistPool) (text : String) :
    pool.statics <+: (pool.addStatics text).statics := by
  unfold addStatics
  split
  · exact List.prefix_refl _
  · exact List.prefix_append _ _

/-- A declared array keeps its identifier. -/
theorem identifierOf_eq_of_prefix {later : HoistPool} (hleading : pool.statics <+: later.statics)
    (htext : text ∈ pool.statics) : later.identifierOf text = pool.identifierOf text := by
  obtain ⟨added, hadded⟩ := hleading
  unfold identifierOf
  rw [← hadded, List.idxOf_append, if_pos htext]

/-- An array gets the identifier that refers to it once it is declared. -/
theorem identifierOf_addStatics (pool : HoistPool) (text : String) :
    (pool.addStatics text).identifierOf text = pool.identifierOf text := by
  by_cases htext : text ∈ pool.statics
  · exact identifierOf_eq_of_prefix (statics_prefix_addStatics pool text) htext
  · unfold identifierOf addStatics
    rw [if_neg htext, List.idxOf_append, if_neg htext, List.idxOf_eq_length htext]
    simp

theorem identifier_inj {index other : Nat} (heq : identifier index = identifier other) :
    index = other := by
  have hlists := congrArg String.toList heq
  simp only [identifier, String.toList_append, List.append_cancel_left_eq] at hlists
  exact Nat.succ.inj (toString_inj (String.toList_inj.mp hlists))

/-- A declared array shares its identifier with no other text, declared or not. -/
theorem identifierOf_eq_iff_of_mem (htext : text ∈ pool.statics) (other : String) :
    pool.identifierOf text = pool.identifierOf other ↔ text = other := by
  constructor
  · intro heq
    exact (List.idxOf_inj htext).mp (identifier_inj heq)
  · rintro rfl
    rfl

end Declarations

/-- One thing done to a pool. -/
inductive Operation where
  | addStatics (text : String)
  | addLiteral (text : String)
  | clear
deriving DecidableEq, Repr

/-- The pool after an operation. -/
def proceed (pool : HoistPool) : Operation → HoistPool
  | .addStatics text => pool.addStatics text
  | .addLiteral text => pool.addLiteral text
  | .clear => pool.clear

/-- The identifier that an operation gives back. -/
def answer? (pool : HoistPool) : Operation → Option String
  | .addStatics text => some (pool.identifierOf text)
  | _ => none

/-- The pool after some operations. -/
def run (pool : HoistPool) (operations : List Operation) : HoistPool :=
  operations.foldl proceed pool

theorem statics_prefix_proceed (pool : HoistPool) {operation : Operation}
    (hclear : operation ≠ .clear) : pool.statics <+: (pool.proceed operation).statics := by
  cases operation with
  | addStatics text => exact statics_prefix_addStatics pool text
  | addLiteral text => exact List.prefix_refl _
  | clear => exact (hclear rfl).elim

/-- Without a clear no declaration is taken back. -/
theorem statics_prefix_run (pool : HoistPool) {operations : List Operation}
    (hclear : .clear ∉ operations) : pool.statics <+: (pool.run operations).statics := by
  induction operations generalizing pool with
  | nil => exact List.prefix_refl _
  | cons operation operations ih =>
    have hfirst : operation ≠ .clear := (List.ne_of_not_mem_cons hclear).symm
    exact (pool.statics_prefix_proceed hfirst).trans (ih _ (List.not_mem_of_not_mem_cons hclear))

/-- Between two clears, texts get the same identifier if and only if they are the same. -/
theorem identifierOf_run_eq_iff (pool : HoistPool) (text other : String)
    {between : List Operation} (hclear : .clear ∉ between) :
    pool.identifierOf text = ((pool.addStatics text).run between).identifierOf other ↔
      text = other := by
  have hkept := statics_prefix_run (pool.addStatics text) hclear
  have hadded := pool.mem_addStatics text
  rw [← pool.identifierOf_addStatics text, ← identifierOf_eq_of_prefix hkept hadded]
  exact identifierOf_eq_iff_of_mem (hkept.subset hadded) other

/-- A pool that keeps an index beside its declarations. An array is looked up in the index, and a
    new one is numbered by the count of the declarations. -/
structure Indexed where
  identifiers : List (String × String)
  declarations : List (String × String)
  literals : List String
deriving DecidableEq, Repr

namespace Indexed

/-- Nothing declared, and nothing in the index. -/
def empty : Indexed := ⟨[], [], []⟩

/-- The identifier of an array: the one in the index, or else the next one. -/
def identifierOf (pool : Indexed) (text : String) : String :=
  (pool.identifiers.lookup text).getD (identifier pool.declarations.length)

/-- The pool after an operation. -/
def proceed (pool : Indexed) : Operation → Indexed
  | .addStatics text =>
    match pool.identifiers.lookup text with
    | some _ => pool
    | none =>
      { pool with
        identifiers := (text, pool.identifierOf text) :: pool.identifiers
        declarations := pool.declarations ++ [(pool.identifierOf text, text)] }
  | .addLiteral text => { pool with literals := pool.literals ++ [text] }
  | .clear => empty

/-- The identifier that an operation gives back. -/
def answer? (pool : Indexed) : Operation → Option String
  | .addStatics text => some (pool.identifierOf text)
  | _ => none

/-- The pool after some operations. -/
def run (pool : Indexed) (operations : List Operation) : Indexed :=
  operations.foldl proceed pool

/-- The hoisted script: the declarations, then the pieces of script. -/
def render (pool : Indexed) : String :=
  Text.joinLines (pool.declarations.map (fun entry => "var " ++ entry.1 ++ " = " ++ entry.2) ++
    pool.literals)

/-- The index and the declarations are those of a plain pool. -/
structure Shows (indexed : Indexed) (pool : HoistPool) : Prop where
  declarations_eq : indexed.declarations = pool.statics.mapIdx fun index text =>
    (identifier index, text)
  lookup_eq : ∀ text, indexed.identifiers.lookup text =
    if text ∈ pool.statics then some (pool.identifierOf text) else none
  literals_eq : indexed.literals = pool.literals

theorem shows_empty : empty.Shows HoistPool.empty := by
  refine ⟨rfl, ?_, rfl⟩
  intro text
  rfl

namespace Shows

variable {indexed : Indexed} {pool : HoistPool}

theorem identifierOf_eq (h : indexed.Shows pool) (text : String) :
    indexed.identifierOf text = pool.identifierOf text := by
  unfold Indexed.identifierOf
  rw [h.lookup_eq text]
  split
  · rfl
  · rename_i hnew
    rw [h.declarations_eq, List.length_mapIdx, HoistPool.identifierOf, List.idxOf_eq_length hnew]
    rfl

/-- A new array is declared and put into the index under the identifier of its declaration. -/
theorem declare (h : indexed.Shows pool) {text : String} (hnew : text ∉ pool.statics) :
    Shows { indexed with
        identifiers := (text, indexed.identifierOf text) :: indexed.identifiers
        declarations := indexed.declarations ++ [(indexed.identifierOf text, text)] }
      (pool.addStatics text) := by
  have hstatics : (pool.addStatics text).statics = pool.statics ++ [text] := by
    rw [addStatics, if_neg hnew]
  refine ⟨?_, ?_, ?_⟩
  · rw [hstatics, List.mapIdx_concat, ← h.declarations_eq, h.identifierOf_eq,
      HoistPool.identifierOf, List.idxOf_eq_length hnew]
  · intro other
    rw [List.lookup_cons, h.lookup_eq other]
    by_cases hother : other = text
    · subst hother
      rw [if_pos (pool.mem_addStatics other), pool.identifierOf_addStatics, beq_self_eq_true,
        h.identifierOf_eq]
    · have hmem : other ∈ (pool.addStatics text).statics ↔ other ∈ pool.statics := by
        simp [hstatics, hother]
      rw [beq_false_of_ne hother]
      by_cases hdeclared : other ∈ pool.statics
      · rw [if_pos hdeclared, if_pos (hmem.mpr hdeclared),
          identifierOf_eq_of_prefix (pool.statics_prefix_addStatics text) hdeclared]
      · rw [if_neg hdeclared, if_neg (mt hmem.mp hdeclared)]
  · rw [addStatics, if_neg hnew]
    exact h.literals_eq

theorem proceed (h : indexed.Shows pool) (operation : Operation) :
    (indexed.proceed operation).Shows (pool.proceed operation) := by
  cases operation with
  | addLiteral text =>
    exact ⟨h.declarations_eq, h.lookup_eq, congrArg (· ++ [text]) h.literals_eq⟩
  | clear => exact shows_empty
  | addStatics text =>
    have hlookup := h.lookup_eq text
    simp only [Indexed.proceed, HoistPool.proceed]
    by_cases hdeclared : text ∈ pool.statics
    · rw [if_pos hdeclared] at hlookup
      rw [hlookup, addStatics, if_pos hdeclared]
      exact h
    · rw [if_neg hdeclared] at hlookup
      rw [hlookup]
      exact h.declare hdeclared

theorem run (h : indexed.Shows pool) (operations : List Operation) :
    (indexed.run operations).Shows (pool.run operations) := by
  induction operations generalizing indexed pool with
  | nil => exact h
  | cons operation operations ih => exact ih (h.proceed operation)

theorem answer?_eq (h : indexed.Shows pool) (operation : Operation) :
    indexed.answer? operation = pool.answer? operation := by
  cases operation with
  | addStatics text => exact congrArg some (h.identifierOf_eq text)
  | addLiteral | clear => rfl

theorem render_eq (h : indexed.Shows pool) : indexed.render = pool.render := by
  have hwritten : indexed.declarations.map (fun entry => "var " ++ entry.1 ++ " = " ++ entry.2) =
      pool.statics.mapIdx declaration := by
    rw [h.declarations_eq, List.mapIdx_eq_zipIdx_map, List.mapIdx_eq_zipIdx_map, List.map_map]
    rfl
  rw [Indexed.render, hwritten, h.literals_eq]
  rfl

end Shows

end Indexed

section Contents

/-- The array that an operation declares. -/
def Operation.array? : Operation → Option String
  | addStatics text => some text
  | _ => none

/-- The piece of script that an operation adds. -/
def Operation.literal? : Operation → Option String
  | addLiteral text => some text
  | _ => none

variable {operations : List Operation}

theorem arrays_operations (arrays literals : List String) :
    (arrays.map Operation.addStatics ++ literals.map Operation.addLiteral).filterMap
      Operation.array? = arrays := by
  simp [Function.comp_def, Operation.array?]

theorem literals_operations (arrays literals : List String) :
    (arrays.map Operation.addStatics ++ literals.map Operation.addLiteral).filterMap
      Operation.literal? = literals := by
  simp [Function.comp_def, Operation.literal?]

theorem run_append (pool : HoistPool) (operations later : List Operation) :
    pool.run (operations ++ later) = (pool.run operations).run later :=
  List.foldl_append

/-- Without a clear, arrays are declared in the order of their first use. -/
theorem statics_run_empty (hclear : .clear ∉ operations) :
    (empty.run operations).statics = (operations.filterMap Operation.array?).eraseDups := by
  -- From the end, since whether an array is new depends on all operations before it.
  induction operations using List.reverseRecOn with
  | nil => rfl
  | append_singleton operations operation ih =>
    rw [List.mem_append, not_or] at hclear
    have hbefore := ih hclear.1
    rw [run_append, List.filterMap_append, List.eraseDups_append, ← hbefore]
    cases operation with
    | clear => exact (hclear.2 List.mem_cons_self).elim
    | addLiteral text => exact (List.append_nil _).symm
    | addStatics text =>
      have hknown : text ∈ (empty.run operations).statics ↔
          text ∈ operations.filterMap Operation.array? := by
        rw [hbefore, List.mem_eraseDups]
      change ((empty.run operations).addStatics text).statics =
        _ ++ ([text].removeAll (operations.filterMap Operation.array?)).eraseDups
      rw [addStatics, List.cons_removeAll]
      by_cases hmem : text ∈ operations.filterMap Operation.array?
      · rw [if_pos (hknown.mpr hmem), if_neg (by simpa using hmem)]
        exact (List.append_nil _).symm
      · rw [if_neg (mt hknown.mp hmem), if_pos (by simpa using hmem)]
        rfl

theorem literals_run (pool : HoistPool) (hclear : .clear ∉ operations) :
    (pool.run operations).literals = pool.literals ++ operations.filterMap Operation.literal? := by
  induction operations generalizing pool with
  | nil => exact (List.append_nil _).symm
  | cons operation operations ih =>
    have hrun := ih (pool.proceed operation) (List.not_mem_of_not_mem_cons hclear)
    cases operation with
    | clear => exact (hclear List.mem_cons_self).elim
    | addLiteral text => exact hrun.trans (List.append_assoc _ _ _)
    | addStatics text =>
      refine hrun.trans (congrArg (· ++ _) ?_)
      simp only [proceed, addStatics]
      split <;> rfl

theorem nodup_proceed {pool : HoistPool} (h : pool.statics.Nodup) (operation : Operation) :
    (pool.proceed operation).statics.Nodup := by
  cases operation with
  | addLiteral text => exact h
  | clear => exact List.nodup_nil
  | addStatics text =>
    simp only [proceed, addStatics]
    split
    · exact h
    · rename_i hnew
      simpa using List.Nodup.concat hnew h

/-- No array is declared twice. -/
theorem nodup_run {pool : HoistPool} (h : pool.statics.Nodup) (operations : List Operation) :
    (pool.run operations).statics.Nodup := by
  induction operations generalizing pool with
  | nil => exact h
  | cons operation operations ih => exact ih (nodup_proceed h operation)

end Contents

end HoistPool

end TemplateCompiler.Template
