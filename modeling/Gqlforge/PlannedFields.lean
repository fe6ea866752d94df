import Gqlforge.PlannedEval

namespace Gqlforge.PlannedFields

open Json Errors Resolvers EvalContext Executor StateRules AuthPlanner PlannedAuth
open PlannedEval

section

variable {Input : Type} (removed : Auth → Prop)

mutual

def FieldPlanned : Field Input → Field Input → Prop
  | field@{ ir := ir, selection := fields, .. }, field' => ∃ ir' fields',
    field' = { field with ir := ir', selection := fields' } ∧ Option.Rel (Planned removed) ir ir' ∧
      FieldsPlanned fields fields'

def FieldsPlanned : List (Field Input) → List (Field Input) → Prop
  | [], fields' => fields' = []
  | field :: rest, fields' => ∃ field' rest', fields' = field' :: rest' ∧ FieldPlanned field field' ∧
    FieldsPlanned rest rest'

end

variable {removed}

mutual

theorem field_refl (field : Field Input) : FieldPlanned removed field field := by
  match field with
  | field@{ ir := ir, selection := fields, .. } =>
    refine ⟨ir, fields, rfl, ?_, fields_refl fields⟩
    cases ir with
    | none => exact .none
    | some ir => exact .some (planned_refl ir)

theorem fields_refl (fields : List (Field Input)) : FieldsPlanned removed fields fields := by
  match fields with
  | [] => rfl
  | field :: rest => exact ⟨field, rest, rfl, field_refl field, fields_refl rest⟩

end

mutual

theorem updateField_planned (field : Field Input) (h : ∀ auth ∈ (updateField field).2, removed auth) :
    FieldPlanned removed field (updateField field).1 := by
  match field with
  | { ir := none, .. } => exact field_refl _
  | field@{ ir := some ir, selection := fields, .. } =>
    rw [updateField] at h
    refine ⟨some (updateIr ir).1, (updateFields fields).1, rfl, .some (updateIr_planned ir ?_), ?_⟩
    · exact fun auth ha => h auth (List.mem_append_left _ ha)
    · exact updateFields_planned fields fun auth ha => h auth (List.mem_append_right _ ha)

theorem updateFields_planned (fields : List (Field Input)) (h : ∀ auth ∈ (updateFields fields).2, removed auth) :
    FieldsPlanned removed fields (updateFields fields).1 := by
  match fields with
  | [] => rfl
  | field :: rest =>
    rw [updateFields] at h
    refine ⟨(updateField field).1, (updateFields rest).1, rfl, updateField_planned field ?_, ?_⟩
    · exact fun auth ha => h auth (List.mem_append_left _ ha)
    · exact updateFields_planned rest fun auth ha => h auth (List.mem_append_right _ ha)

end

mutual

theorem dfs_planned (field field' : Field Input) (h : FieldPlanned removed field field') :
    List.Forall₂ (FieldPlanned removed) field.dfs field'.dfs := by
  match field with
  | field@{ selection := fields, .. } =>
    have hself := h
    obtain ⟨ir', fields', rfl, -, hfields⟩ := h
    exact .cons hself (dfsAll_planned fields fields' hfields)

theorem dfsAll_planned (fields fields' : List (Field Input)) (h : FieldsPlanned removed fields fields') :
    List.Forall₂ (FieldPlanned removed) (Field.dfsAll fields) (Field.dfsAll fields') := by
  match fields with
  | [] =>
    obtain rfl : fields' = [] := h
    exact .nil
  | field :: rest =>
    obtain ⟨field', rest', rfl, hfield, hrest⟩ := h
    exact List.rel_append (dfs_planned field field' hfield) (dfsAll_planned rest rest' hrest)

end

theorem ir_planned {field field' : Field Input} (h : FieldPlanned removed field field') :
    Option.Rel (Planned removed) field.ir field'.ir := by
  cases field with
  | mk =>
    obtain ⟨ir', fields', rfl, hir, -⟩ := h
    exact hir

end

section

variable {removed : Auth → Prop} (texts : Texts)

mutual

theorem fromJitField_planned (field field' : Field ConstValue) (h : FieldPlanned removed field field') :
    SelectionField.fromJitField texts field' = SelectionField.fromJitField texts field := by
  match field with
  | field@{ typeOf := typeOf, selection := fields, .. } =>
    obtain ⟨ir', fields', rfl, -, hfields⟩ := h
    rw [SelectionField.fromJitField, SelectionField.fromJitField, fromJitFields_planned typeOf.name fields fields' hfields]
    rfl

theorem fromJitFields_planned (typeName : String) (fields fields' : List (Field ConstValue))
    (h : FieldsPlanned removed fields fields') : fromJitFields texts typeName fields' = fromJitFields texts typeName fields := by
  match fields with
  | [] =>
    obtain rfl : fields' = [] := h
    rfl
  | field :: rest =>
    obtain ⟨field', rest', rfl, hfield, hrest⟩ := h
    have hcondition : field'.typeCondition = field.typeCondition := by
      cases field with
      | mk =>
        obtain ⟨ir', fields', rfl, -, -⟩ := hfield
        rfl
    rw [fromJitFields, fromJitFields, hcondition, fromJitField_planned field field' hfield,
      fromJitFields_planned typeName rest rest' hrest]

end

theorem sameField_planned {field field' : Field ConstValue} (h : FieldPlanned removed field field') :
    SameField texts (some field) (some field') := by
  constructor
  · intro relatedFields
    simp only [Option.bind_some, selectionSetOf, fromJitField_planned texts field field' h]
  · cases field with
    | mk =>
      obtain ⟨ir', fields', rfl, -, -⟩ := h
      rfl

end

section

variable {S T α β : Type} {rel : S → S → Prop}

theorem agree_stateT {run run' : StateT T (StateM S) α} {next next' : α → StateT T (StateM S) β}
    (h : ∀ store, Agree rel (run.run store) (run'.run store))
    (hnext : ∀ value store, Agree rel ((next value).run store) ((next' value).run store)) (store : T) :
    Agree rel ((run >>= next).run store) ((run' >>= next').run store) := by
  rw [StateT.run_bind, StateT.run_bind]
  exact agree_bind (h store) fun result => hnext result.1 result.2

theorem agree_lift {run run' : StateM S α} (h : Agree rel run run') (store : T) :
    Agree rel ((liftM run : StateT T (StateM S) α).run store) ((liftM run' : StateT T (StateM S) α).run store) := by
  have hpair : Agree rel (do let value ← run; pure (value, store)) (do let value ← run'; pure (value, store)) :=
    agree_bind h fun _ => agree_pure
  exact hpair

end

section

variable {S : Type} {rel : S → S → Prop} {removed : Auth → Prop}
variable {irExec irExec' : IR → Context → StateM S (Except Error ConstValue)}

mutual

theorem execute_planned
    (hexec : ∀ (field field' : Field ConstValue) ir ir' value, FieldPlanned removed field field' → Planned removed ir ir' →
      Agree rel (irExec ir ⟨value, buildArgs field, field⟩) (irExec' ir' ⟨value, buildArgs field', field'⟩))
    (value : Option ConstValue) (field field' : Field ConstValue) (h : FieldPlanned removed field field')
    (store : Store) :
    Agree rel ((execute irExec value field).run store) ((execute irExec' value field').run store) := by
  match field with
  | field@{ ir := some ir, selection := fields, .. } =>
    have hself := h
    obtain ⟨ir', fields', rfl, hir, hfields⟩ := h
    cases hir with
    | some hir =>
      rw [execute, execute]
      refine agree_stateT (agree_lift (hexec _ _ ir _ value hself hir)) ?_ store
      intro result store
      cases result with
      | ok stored =>
        refine agree_stateT (iterField_planned hexec stored fields fields' hfields) ?_ store
        exact fun _ _ => agree_pure
      | error error => exact agree_pure
  | { ir := none, outputName := outputName, selection := fields, .. } =>
    obtain ⟨ir', fields', rfl, hir, hfields⟩ := h
    cases hir with
    | none =>
      rw [execute, execute]
      exact iterField_planned hexec (entryOf outputName value) fields fields' hfields store

theorem iterField_planned
    (hexec : ∀ (field field' : Field ConstValue) ir ir' value, FieldPlanned removed field field' → Planned removed ir ir' →
      Agree rel (irExec ir ⟨value, buildArgs field, field⟩) (irExec' ir' ⟨value, buildArgs field', field'⟩))
    (value : ConstValue) (fields fields' : List (Field ConstValue)) (h : FieldsPlanned removed fields fields')
    (store : Store) :
    Agree rel ((iterField irExec value fields).run store) ((iterField irExec' value fields').run store) := by
  match fields with
  | [] =>
    obtain rfl : fields' = [] := h
    exact agree_pure
  | field :: rest =>
    obtain ⟨field', rest', rfl, hfield, hrest⟩ := h
    rw [iterField, iterField]
    refine agree_stateT (execute_planned hexec (some value) field field' hfield) ?_ store
    exact fun _ => iterField_planned hexec value rest rest' hrest

end

theorem roots_planned
    (hexec : ∀ (field field' : Field ConstValue) ir ir' value, FieldPlanned removed field field' → Planned removed ir ir' →
      Agree rel (irExec ir ⟨value, buildArgs field, field⟩) (irExec' ir' ⟨value, buildArgs field', field'⟩))
    (fields fields' : List (Field ConstValue)) (h : FieldsPlanned removed fields fields') (store : Store) :
    Agree rel ((fields.forM (execute irExec none)).run store) ((fields'.forM (execute irExec' none)).run store) := by
  induction fields generalizing fields' store with
  | nil =>
    obtain rfl : fields' = [] := h
    exact agree_pure
  | cons field rest ih =>
    obtain ⟨field', rest', rfl, hfield, hrest⟩ := h
    refine agree_stateT (execute_planned hexec none field field' hfield) ?_ store
    exact fun _ => ih rest' hrest

end

end Gqlforge.PlannedFields
