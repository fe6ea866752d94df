import Gqlforge.Plan

namespace Gqlforge.Skip

open Plan

section

variable {Input : Type} (vars : Variables)

mutual

def skipField : Field Input → Field Input
  | field@{ selection := fields, .. } => { field with selection := skipFields fields }

def skipFields : List (Field Input) → List (Field Input)
  | [] => []
  | field :: rest => if field.skip vars then skipFields rest else skipField field :: skipFields rest

end

def transform (plan : OperationPlan Input) : OperationPlan Input :=
  { plan with selection := skipFields vars plan.selection }

variable {vars}

theorem skipField_eq (field : Field Input) :
    skipField vars field = { field with selection := skipFields vars field.selection } := by
  cases field
  rfl

theorem skipFields_eq (fields : List (Field Input)) :
    skipFields vars fields = (fields.filter (!·.skip vars)).map (skipField vars) := by
  induction fields with
  | nil => rfl
  | cons field rest ih =>
    rw [skipFields]
    cases h : field.skip vars with
    | true => simp [h, ih]
    | false => simp [h, ih]

theorem mem_skipFields (fields : List (Field Input)) (field : Field Input) :
    field ∈ skipFields vars fields ↔
      ∃ original ∈ fields, original.skip vars = false ∧ skipField vars original = field := by
  simp [skipFields_eq, and_assoc]

end

end Gqlforge.Skip
