import TemplateCompiler.Package.Program
import TemplateCompiler.Proofs.IterationClauses

namespace TemplateCompiler.Package.Signature

/-- A text that can be a parameter: it is not empty, and nothing in it separates parameters. -/
structure IsParam (param : String) : Prop where
  ne_empty : param ≠ ""
  no_separator : ∀ c ∈ param.toList, isSeparator c = false

theorem isParam_of_mem_ofParams {name params param : String}
    (hparam : param ∈ (ofParams name params).params) : IsParam param := by
  obtain ⟨piece, hpiece, rfl⟩ := List.mem_map.mp hparam
  obtain ⟨hsplit, hne⟩ := List.mem_filter.mp hpiece
  refine ⟨by simpa using hne, ?_⟩
  rw [String.toList_ofList]
  exact Text.eq_false_of_mem_splitOnP hsplit

theorem splitParams_param {param : String} (h : IsParam param) :
    splitParams param.toList = [param.toList] := by
  rw [splitParams, List.splitOnP_eq_singleton h.no_separator]
  simp [h.ne_empty]

theorem splitParams_append {param : String} (h : IsParam param) (rest : List Char) :
    splitParams (param.toList ++ ", ".toList ++ rest) = param.toList :: splitParams rest := by
  have hcomma : (param.toList ++ ',' :: ' ' :: rest).splitOnP isSeparator =
      param.toList :: (' ' :: rest).splitOnP isSeparator :=
    List.splitOnP_append_cons_of_forall_mem h.no_separator ',' rfl (' ' :: rest)
  -- Between the comma and the space stands an empty text, which is left out.
  have hspace : (' ' :: rest).splitOnP isSeparator = [] :: rest.splitOnP isSeparator :=
    List.splitOnP_append_cons_of_forall_mem (List.forall_mem_nil _) ' ' rfl rest
  rw [List.append_assoc]
  change splitParams (param.toList ++ ',' :: ' ' :: rest) = _
  rw [splitParams, hcomma, hspace, splitParams]
  simp [h.ne_empty]

theorem splitParams_intercalate {params : List String} (h : ∀ param ∈ params, IsParam param) :
    splitParams (", ".intercalate params).toList = params.map String.toList := by
  induction params with
  | nil => rfl
  | cons param params ih =>
    obtain ⟨hparam, hparams⟩ := List.forall_mem_cons.mp h
    cases params with
    | nil =>
      rw [String.intercalate_singleton, splitParams_param hparam]
      rfl
    | cons next params =>
      rw [String.intercalate_cons_cons, String.toList_append, String.toList_append,
        splitParams_append hparam, ih hparams]
      rfl

/-- A signature is read back from its printed parameters if and only if each of them can be one. -/
theorem ofParams_intercalate_iff (signature : Signature) :
    ofParams signature.name (", ".intercalate signature.params) = signature ↔
      ∀ param ∈ signature.params, IsParam param := by
  constructor
  · intro h param hparam
    rw [← h] at hparam
    exact isParam_of_mem_ofParams hparam
  · intro h
    rw [ofParams, splitParams_intercalate h, List.map_map]
    simp [Function.comp_def]

end TemplateCompiler.Package.Signature

namespace TemplateCompiler

open Package (Signature)
open Template (EachClause)

/-- A clause is read back from its printed form if and only if it is well-formed and its bound
    names, with the `in` behind them, hold no ` in `; whatever is read is well-formed. A signature
    is read back from its printed parameters if and only if these can be parameters, and every
    signature that was read is. -/
theorem printed_forms_read_back :
    (∀ clause : EachClause, EachClause.parse? clause.render = some clause ↔
      clause.WellFormed ∧ ¬" in ".toList <:+: (clause.boundNames ++ " in").toList) ∧
    (∀ expression clause, EachClause.parse? expression = some clause → clause.WellFormed) ∧
    (∀ signature : Signature,
      .ofParams signature.name (", ".intercalate signature.params) = signature ↔
        ∀ param ∈ signature.params, Signature.IsParam param) ∧
    ∀ name params, Signature.ofParams name
      (", ".intercalate (Signature.ofParams name params).params) = .ofParams name params := by
  refine ⟨EachClause.parse?_render_iff, fun _ _ => EachClause.wellFormed_of_parse?,
    Signature.ofParams_intercalate_iff, ?_⟩
  intro name params
  exact (Signature.ofParams name params).ofParams_intercalate_iff.mpr
    fun _ => Signature.isParam_of_mem_ofParams

/-- The first clause is read back, with commas in its key and a second ` in ` in its target. The
    second one is not, since its key would be read as the `in` in front of the target. -/
theorem printed_forms_read_back_inner_in :
    let clause : EachClause := ⟨"in", some "in.a, in.b", "pick(c, d) in e"⟩
    let mistaken : EachClause := ⟨"row", some "in", "rows"⟩
    (EachClause.parse? "in ,\tin.a, in.b in  pick(c, d) in e\n" = some clause ∧
      clause.WellFormed ∧ EachClause.parse? "in, in.a, in.b in pick(c, d) in e" = some clause) ∧
    (EachClause.parse? "row,in in rows" = some mistaken ∧ mistaken.WellFormed ∧
      EachClause.parse? "row, in in rows" ≠ some mistaken) ∧
    Signature.ofParams "list" " a,\tb c,, " = ⟨"list", ["a", "b", "c"]⟩ ∧
      Signature.ofParams "list" "a, b, c" = ⟨"list", ["a", "b", "c"]⟩ := by
  intro clause mistaken
  obtain ⟨hclauses, hwellFormed, -, hsignatures⟩ := printed_forms_read_back
  have hclause : EachClause.parse? "in ,\tin.a, in.b in  pick(c, d) in e\n" = some clause := by
    decide
  have hmistaken : EachClause.parse? "row,in in rows" = some mistaken := by decide
  have hsignature : Signature.ofParams "list" " a,\tb c,, " = ⟨"list", ["a", "b", "c"]⟩ := by
    decide
  have hparams := hsignatures "list" " a,\tb c,, "
  rw [hsignature] at hparams
  refine ⟨⟨hclause, hwellFormed _ _ hclause, ?_⟩, ⟨hmistaken, hwellFormed _ _ hmistaken, ?_⟩,
    hsignature, hparams⟩
  · exact (hclauses clause).mpr ⟨hwellFormed _ _ hclause, by decide⟩
  · intro hread
    exact ((hclauses mistaken).mp hread).2 (by decide)

end TemplateCompiler
