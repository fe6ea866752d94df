import Gqlforge.ConstValueExecutor

namespace Gqlforge.PlanResolvers

open Json Document Resolvers Plan SelectionSets AuthPlanner PlannedAuth PlannedFields Skip InputResolver
open RelatedLists Request ConstValueExecutor

section

variable {Input Output : Type}

def resolvers (fields : List (Field Input)) : List IR :=
  (Field.dfsAll fields).filterMap (·.ir)

theorem resolvers_cons (field : Field Input) (rest : List (Field Input)) :
    resolvers (field :: rest) = field.ir.toList ++ (resolvers field.selection ++ resolvers rest) := by
  cases field with
  | mk id name outputName ir =>
    cases ir <;> simp [resolvers, Field.dfsAll, Field.dfs]

theorem mem_resolvers {fields : List (Field Input)} {ir : IR} :
    ir ∈ resolvers fields ↔ ∃ field ∈ Field.dfsAll fields, field.ir = some ir := by
  rw [resolvers, List.mem_filterMap]

section

variable (vars : Variables)

mutual

theorem resolvers_skipField (field : Field Input) :
    resolvers (skipField vars field).selection ⊆ resolvers field.selection := by
  match field with
  | { selection := fields, .. } => exact resolvers_skipFields fields

theorem resolvers_skipFields (fields : List (Field Input)) : resolvers (skipFields vars fields) ⊆ resolvers fields := by
  match fields with
  | [] => exact List.Subset.refl _
  | field :: rest =>
    have hir : (skipField vars field).ir = field.ir := by rw [skipField_eq]
    have hbelow := resolvers_skipField field
    have hrest := resolvers_skipFields rest
    intro ir h
    rw [skipFields] at h
    rw [resolvers_cons field rest]
    split at h
    · exact List.mem_append_right _ (List.mem_append_right _ (hrest h))
    · rw [resolvers_cons, hir] at h
      rcases List.mem_append.mp h with h | h
      · exact List.mem_append_left _ h
      · rcases List.mem_append.mp h with h | h
        · exact List.mem_append_right _ (List.mem_append_left _ (hbelow h))
        · exact List.mem_append_right _ (List.mem_append_right _ (hrest h))

end

end

theorem resolvers_updateFields (fields : List (Field Input)) (ir' : IR) (h : ir' ∈ resolvers (updateFields fields).1) :
    ∃ ir ∈ resolvers fields, Planned (· ∈ (updateFields fields).2) ir ir' := by
  obtain ⟨field', hf', hir'⟩ := mem_resolvers.mp h
  have hfields : FieldsPlanned (· ∈ (updateFields fields).2) fields (updateFields fields).1 :=
    updateFields_planned fields fun _ ha => ha
  obtain ⟨field, hf, hfield⟩ := exists_related (dfsAll_planned _ _ hfields) hf'
  have hrel := ir_planned hfield
  rw [hir'] at hrel
  cases hir : field.ir with
  | none =>
    rw [hir] at hrel
    cases hrel
  | some ir =>
    rw [hir] at hrel
    cases hrel with
    | some h => exact ⟨ir, mem_resolvers.mpr ⟨field, hf, hir⟩, h⟩

section

variable (printer : Printer Input) (interfaces : List String)

mutual

theorem resolvers_computeField (field : Field Input) : ∀ ir' ∈ resolvers (computeField printer interfaces field).selection,
    ∃ ir ∈ resolvers field.selection, ∃ text, ir' = modifyIo (setSelection text) ir := by
  match field with
  | { selection := fields, .. } => exact resolvers_computeSelectionSet fields

theorem resolvers_computeSelectionSet (fields : List (Field Input)) :
    ∀ ir' ∈ resolvers (computeSelectionSet printer interfaces fields),
      ∃ ir ∈ resolvers fields, ∃ text, ir' = modifyIo (setSelection text) ir := by
  match fields with
  | [] => exact nofun
  | field :: rest =>
    have hfield := resolvers_computeField field
    have hrest := resolvers_computeSelectionSet rest
    have hir : (computeField printer interfaces field).ir = field.ir.map (modifyIo (setSelection
        (formatSelectionSet printer interfaces field.selection (interfaces.contains field.typeOf.name)))) := by
      cases field
      rfl
    intro ir' h
    rw [computeSelectionSet, resolvers_cons, hir] at h
    rw [resolvers_cons]
    rcases List.mem_append.mp h with h | h
    · obtain ⟨ir, hi, rfl⟩ := Option.map_eq_some_iff.mp (Option.mem_toList.mp h)
      exact ⟨ir, List.mem_append_left _ (Option.mem_toList.mpr hi), _, rfl⟩
    · rcases List.mem_append.mp h with h | h
      · obtain ⟨ir, hi, text, rfl⟩ := hfield ir' h
        exact ⟨ir, List.mem_append_right _ (List.mem_append_left _ hi), text, rfl⟩
      · obtain ⟨ir, hi, text, rfl⟩ := hrest ir' h
        exact ⟨ir, List.mem_append_right _ (List.mem_append_right _ hi), text, rfl⟩

end

end

section

variable {ε : Type} {map : Input → Except ε Output}

mutual

theorem resolvers_tryMap (field : Field Input) (result : Field Output) (h : tryMap map field = .ok result) :
    result.ir = field.ir ∧ resolvers result.selection = resolvers field.selection := by
  match field with
  | { selection := fields, .. } =>
    simp only [tryMap, except_bind_eq_ok, pure, Except.pure, Except.ok.injEq] at h
    obtain ⟨selection, hs, args, -, directives, -, rfl⟩ := h
    exact ⟨rfl, resolvers_tryMapAll fields selection hs⟩

theorem resolvers_tryMapAll (fields : List (Field Input)) (results : List (Field Output))
    (h : tryMapAll map fields = .ok results) : resolvers results = resolvers fields := by
  match fields with
  | [] =>
    obtain rfl := Except.ok.inj h
    rfl
  | field :: rest =>
    simp only [tryMapAll, except_bind_eq_ok, pure, Except.pure, Except.ok.injEq] at h
    obtain ⟨first, hf, others, ho, rfl⟩ := h
    obtain ⟨hir, hselection⟩ := resolvers_tryMap field first hf
    rw [resolvers_cons, resolvers_cons, hir, hselection, resolvers_tryMapAll rest others ho]

end

end

section

variable (index : Schema.Index) (fuel : Nat)

mutual

theorem resolvers_resolveField (field result : Field ConstValue)
    (h : (resolveField index fuel field).run = some (.ok result)) :
    result.ir = field.ir ∧ resolvers result.selection = resolvers field.selection := by
  match field with
  | { selection := fields, .. } =>
    simp only [resolveField, bind_run_eq_ok, pure_run_eq_ok] at h
    obtain ⟨args, -, selection, hs, rfl⟩ := h
    exact ⟨rfl, resolvers_resolveSelection fields selection hs⟩

theorem resolvers_resolveSelection (fields results : List (Field ConstValue))
    (h : (resolveSelection index fuel fields).run = some (.ok results)) : resolvers results = resolvers fields := by
  match fields with
  | [] =>
    simp only [resolveSelection, pure_run_eq_ok] at h
    rw [← h]
  | field :: rest =>
    simp only [resolveSelection, bind_run_eq_ok, pure_run_eq_ok] at h
    obtain ⟨first, hf, others, ho, rfl⟩ := h
    obtain ⟨hir, hselection⟩ := resolvers_resolveField field first hf
    rw [resolvers_cons, resolvers_cons, hir, hselection, resolvers_resolveSelection rest others ho]

end

theorem resolvers_resolveRoots (vars : Variables) (fields : List (Field Value)) (results : List (Field ConstValue))
    (h : (resolveRoots index fuel vars fields).run = some (.ok results)) : resolvers results = resolvers fields := by
  induction fields generalizing results with
  | nil =>
    simp only [resolveRoots, pure_run_eq_ok] at h
    rw [← h]
    rfl
  | cons field rest ih =>
    simp only [resolveRoots, bind_run_eq_ok, pure_run_eq_ok] at h
    obtain ⟨mapped, hm, resolved, hr, others, ho, rfl⟩ := h
    obtain ⟨hir, hselection⟩ := resolvers_tryMap field mapped (Option.some.inj hm)
    obtain ⟨hir', hselection'⟩ := resolvers_resolveField index fuel mapped resolved hr
    rw [resolvers_cons, resolvers_cons, hir', hir, hselection', hselection, ih others ho]

end

section

variable (ctx : Templates.PathContext)

mutual

theorem resolvers_resolveGraphqlField (field : Field ConstValue) :
    resolvers (resolveGraphqlField ctx field).selection =
      (resolvers field.selection).map (modifyIo (resolveTemplate ctx)) := by
  match field with
  | { selection := fields, .. } => exact resolvers_resolveGraphqlSelectionSet fields

theorem resolvers_resolveGraphqlSelectionSet (fields : List (Field ConstValue)) :
    resolvers (resolveGraphqlSelectionSet ctx fields) = (resolvers fields).map (modifyIo (resolveTemplate ctx)) := by
  match fields with
  | [] => rfl
  | field :: rest =>
    have hir : (resolveGraphqlField ctx field).ir = field.ir.map (modifyIo (resolveTemplate ctx)) := by
      cases field
      rfl
    rw [resolveGraphqlSelectionSet, resolvers_cons, resolvers_cons, hir, resolvers_resolveGraphqlField field,
      resolvers_resolveGraphqlSelectionSet rest, List.map_append, List.map_append, Option.toList_map]

end

end

end

section

variable {Key σ : Type} {app : AppContext Key σ} {operation : Request}

theorem resolvers_resolved {plan : OperationPlan Value} {executed : OperationPlan ConstValue}
    (h : resolved app operation plan = some (.ok executed)) (ir' : IR) (hir' : ir' ∈ resolvers executed.selection) :
    ∃ ir ∈ resolvers plan.selection,
      ir' = modifyIo (resolveTemplate (variablesContext app.printer operation.vars)) ir := by
  simp only [resolved, resolveInput, bind_run_eq_ok, pure_run_eq_ok] at h
  obtain ⟨selection, hs, rfl⟩ := h
  rw [resolvers_resolveGraphqlSelectionSet, resolvers_resolveRoots _ _ _ _ _ hs] at hir'
  obtain ⟨ir, hir, rfl⟩ := List.mem_map.mp hir'
  exact ⟨ir, resolvers_skipFields operation.vars plan.selection hir, rfl⟩

theorem resolvers_executed {built : OperationPlan Value} {executed : OperationPlan ConstValue}
    (h : resolved app operation (planTransforms app.frontend.printer built) = some (.ok executed)) (ir' : IR)
    (hir' : ir' ∈ resolvers executed.selection) :
    ∃ ir ∈ resolvers built.selection, ∃ planned text, Planned (· ∈ (updateFields built.selection).2) ir planned ∧
      ir' = modifyIo (resolveTemplate (variablesContext app.printer operation.vars))
        (modifyIo (setSelection text) planned) := by
  obtain ⟨filled, hfilled, rfl⟩ := resolvers_resolved h ir' hir'
  obtain ⟨planned, hplanned, text, rfl⟩ := resolvers_computeSelectionSet _ _ _ filled hfilled
  obtain ⟨ir, hir, hrel⟩ := resolvers_updateFields built.selection planned hplanned
  exact ⟨ir, hir, planned, text, hrel, rfl⟩

end

end Gqlforge.PlanResolvers
