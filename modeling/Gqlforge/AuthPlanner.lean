import Gqlforge.Plan

namespace Gqlforge.AuthPlanner

open Resolvers Plan

mutual

def updateIr : IR → IR × List Auth
  | .path input path =>
    let (input, auth) := updateIr input
    (.path input path, auth)
  | .discriminate discriminator expr =>
    let (expr, auth) := updateIr expr
    (.discriminate discriminator expr, auth)
  | .protect auth none expr =>
    let (expr, inner) := updateIr expr
    (expr, auth :: inner)
  | .protect auth (some accessExpr) expr =>
    -- rules that read the request stay with their field
    let (expr, inner) := updateIr expr
    (.protect auth (some accessExpr) expr, inner)
  | .pipe first second =>
    let (first, auth) := updateIr first
    let (second, auth') := updateIr second
    (.pipe first second, auth ++ auth')
  | .merge irs =>
    let (irs, auth) := updateIrs irs
    (.merge irs, auth)
  | ir => (ir, [])

def updateIrs : List IR → List IR × List Auth
  | [] => ([], [])
  | ir :: rest =>
    let (ir, auth) := updateIr ir
    let (rest, auth') := updateIrs rest
    (ir :: rest, auth ++ auth')

end

section

variable {Input : Type}

mutual

def updateField : Field Input → Field Input × List Auth
  | field@{ ir := some ir, selection := fields, .. } =>
    let (ir, auth) := updateIr ir
    let (fields, auth') := updateFields fields
    ({ field with ir := some ir, selection := fields }, auth ++ auth')
  -- nothing below a field without a resolver is looked at
  | field => (field, [])

def updateFields : List (Field Input) → List (Field Input) × List Auth
  | [] => ([], [])
  | field :: rest =>
    let (field, auth) := updateField field
    let (rest, auth') := updateFields rest
    (field :: rest, auth ++ auth')

end

def reduceAuth : List Auth → Option Auth
  | [] => none
  | auth :: rest => some (rest.foldl Auth.and auth)

def beforeOf (auth : List Auth) : Option IR :=
  (reduceAuth auth).map fun auth => .protect auth none (.dynamic (.const .null))

def transform (plan : OperationPlan Input) : OperationPlan Input :=
  let (fields, auth) := updateFields plan.selection
  { plan with selection := fields, before := beforeOf auth }

end

end Gqlforge.AuthPlanner
