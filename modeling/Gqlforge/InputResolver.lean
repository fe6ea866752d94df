import Gqlforge.Errors
import Gqlforge.SelectionSets

namespace Gqlforge.InputResolver

open Json Document Errors Resolvers Schema Plan SelectionSets Templates

section

variable (vars : Variables)

mutual

def resolve : Value → Except ResolveInputError ConstValue
  | .variable name => match vars.getKey name with
    | some value => .ok value
    | none => .error (.variableIsNotFound name)
  | .null => .ok .null
  | .number value => .ok (.number value)
  | .string value => .ok (.string value)
  | .boolean value => .ok (.boolean value)
  | .enum name => .ok (.enum name)
  | .list items => do
    let items ← resolveItems items
    return .list items
  | .object fields => do
    let fields ← resolveFields fields
    return .object fields

def resolveItems : List Value → Except ResolveInputError (List ConstValue)
  | [] => .ok []
  | value :: rest => do
    let value ← resolve value
    let rest ← resolveItems rest
    return value :: rest

def resolveFields : List (String × Value) → Except ResolveInputError (List (String × ConstValue))
  | [] => .ok []
  | (key, value) :: rest => do
    let value ← resolve value
    let rest ← resolveFields rest
    return (key, value) :: rest

end

end

section

variable {Input Output ε : Type} (map : Input → Except ε Output)

def tryMapOption : Option Input → Except ε (Option Output)
  | none => .ok none
  | some input => do
    let output ← map input
    return some output

def Arg.tryMap (arg : Arg Input) : Except ε (Arg Output) := do
  let value ← tryMapOption map arg.value
  let defaultValue ← tryMapOption map arg.defaultValue
  return ⟨arg.id, arg.name, arg.typeOf, value, defaultValue⟩

def Directive.tryMap (directive : Plan.Directive Input) : Except ε (Plan.Directive Output) := do
  let arguments ← directive.arguments.mapM fun (name, value) => do
    let value ← map value
    return (name, value)
  return ⟨directive.name, arguments⟩

mutual

def tryMap : Field Input → Except ε (Field Output)
  | { id, name, outputName, ir, typeOf, typeCondition, skipVar, includeVar, args, selection, pos,
      directives, isEnum, scalar, .. } => do
    let selection ← tryMapAll selection
    let args ← args.mapM (Arg.tryMap map)
    let directives ← directives.mapM (Directive.tryMap map)
    return ⟨id, name, outputName, ir, typeOf, typeCondition, skipVar, includeVar, args, selection, none, pos,
      directives, isEnum, scalar⟩

def tryMapAll : List (Field Input) → Except ε (List (Field Output))
  | [] => .ok []
  | field :: rest => do
    let field ← tryMap field
    let rest ← tryMapAll rest
    return field :: rest

end

end

abbrev Resolving := ExceptT ResolveInputError Option

def required (argName parentName : String) (default : Option ConstValue) : Resolving ConstValue :=
  match default with
  | some value => return value
  | none => throw (.argumentIsRequired argName parentName)

def startValue (parentName argName : String) (typeOf : WrappingType)
    (default value : Option ConstValue) : Resolving (Option ConstValue) :=
  match value with
  | none => if typeOf.isNullable then return default else some <$> required argName parentName default
  | some value =>
    if !typeOf.isNullable && value.isNull then throw (.argumentIsRequired argName parentName)
    else return some value

section

variable (recur : String → String → WrappingType → Option ConstValue → Option ConstValue →
  Resolving (Option ConstValue))

def parseFields (parentName : String) :
    Object ConstValue → List InputFieldDefinition → Resolving (Object ConstValue)
  | object, [] => return object
  | object, field :: rest => do
    let value ← recur parentName field.name field.ofType field.defaultValue (object.getKey field.name)
    match value with
    | some value => parseFields parentName (object.insertKey field.name value) rest
    | none => parseFields parentName object rest

def parseItems (parentName : String) (typeOf : WrappingType) (index : Nat) :
    List ConstValue → Resolving (List ConstValue)
  | [] => return []
  | item :: rest => do
    let value ← recur (parentName ++ "." ++ toString index) (toString index) typeOf none (some item)
    let rest ← parseItems parentName typeOf (index + 1) rest
    -- a value that is there stays there
    return value.getD .null :: rest

end

def recursiveParseArg (index : Index) : Nat → String → String → WrappingType → Option ConstValue →
    Option ConstValue → Resolving (Option ConstValue)
  | 0, _, _, _, _, _ => ExceptT.mk none
  | fuel + 1, parentName, argName, typeOf, default, value => do
    match ← startValue parentName argName typeOf default value with
    | none => return none
    | some value => match index.getInputTypeDefinition typeOf.name, value with
      | some fields, .object object => do
        let object ← parseFields (recursiveParseArg index fuel) (parentName ++ "." ++ argName) object fields
        return some (.object object)
      | some _, .list items => do
        let items ← parseItems (recursiveParseArg index fuel) (parentName ++ "." ++ argName) typeOf 0 items
        return some (.list items)
      | _, value => return some value

def resolveArg (index : Index) (fuel : Nat) (fieldName : String) (arg : Arg ConstValue) :
    Resolving (Arg ConstValue) := do
  let value ← recursiveParseArg index fuel fieldName arg.name arg.typeOf arg.defaultValue arg.value
  return { arg with value := value }

section

variable (index : Index) (fuel : Nat)

mutual

def resolveField : Field ConstValue → Resolving (Field ConstValue)
  | field@{ selection := fields, .. } => do
    let args ← field.args.mapM (resolveArg index fuel field.name)
    let selection ← resolveSelection fields
    return { field with args := args, selection := selection }

def resolveSelection : List (Field ConstValue) → Resolving (List (Field ConstValue))
  | [] => return []
  | field :: rest => do
    let field ← resolveField field
    let rest ← resolveSelection rest
    return field :: rest

end

end

def variablesContext (printer : Printer ConstValue) (vars : Variables) : PathContext where
  pathString parts := (parts.head?.bind vars.getKey).map printer.value
  pathGraphql _ := none

def resolveTemplate (ctx : PathContext) : Io → Io
  | .graphQL reqTemplate fieldName dedupe =>
    let selection := reqTemplate.selection.map fun
      | .unResolved template => .resolved (template.render ctx)
      | .resolved text => .resolved text
    .graphQL { reqTemplate with selection := selection } fieldName dedupe
  | io => io

section

variable (ctx : PathContext)

mutual

def resolveGraphqlField : Field ConstValue → Field ConstValue
  | field@{ ir := ir, selection := fields, .. } =>
    { field with
      ir := ir.map (modifyIo (resolveTemplate ctx))
      selection := resolveGraphqlSelectionSet fields }

def resolveGraphqlSelectionSet : List (Field ConstValue) → List (Field ConstValue)
  | [] => []
  | field :: rest => resolveGraphqlField field :: resolveGraphqlSelectionSet rest

end

end

def resolveRoots (index : Index) (fuel : Nat) (vars : Variables) :
    List (Field Value) → Resolving (List (Field ConstValue))
  | [] => return []
  | field :: rest => do
    let field ← ExceptT.mk (some (tryMap (resolve vars) field))
    let field ← resolveField index fuel field
    let rest ← resolveRoots index fuel vars rest
    return field :: rest

def resolveInput (printer : Printer ConstValue) (fuel : Nat) (vars : Variables) (plan : OperationPlan Value) :
    Resolving (OperationPlan ConstValue) := do
  let selection ← resolveRoots plan.index fuel vars plan.selection
  return {
    rootName := plan.rootName, operationType := plan.operationType, index := plan.index,
    isIntrospectionQuery := plan.isIntrospectionQuery, isDedupe := plan.isDedupe, isConst := plan.isConst,
    isProtected := plan.isProtected, minCacheTtl := plan.minCacheTtl,
    selection := resolveGraphqlSelectionSet (variablesContext printer vars) selection,
    before := plan.before, interfaces := none }

section

variable {α β : Type}

theorem except_bind_eq_ok {ε : Type} (x : Except ε α) (f : α → Except ε β) (b : β) :
    (x >>= f) = .ok b ↔ ∃ a, x = .ok a ∧ f a = .ok b := by
  cases x with
  | error e => simp [bind, Except.bind]
  | ok a => simp [bind, Except.bind]

theorem pure_run_eq_ok (a b : α) : (pure a : Resolving α).run = some (.ok b) ↔ a = b := by
  simp [pure, ExceptT.pure, ExceptT.run, ExceptT.mk]

theorem bind_run_eq_ok (x : Resolving α) (f : α → Resolving β) (b : β) :
    (x >>= f).run = some (.ok b) ↔ ∃ a, x.run = some (.ok a) ∧ (f a).run = some (.ok b) := by
  rw [ExceptT.run_bind]
  constructor
  · intro h
    obtain ⟨result, hx, hf⟩ := Option.bind_eq_some_iff.mp h
    cases result with
    | error e => exact absurd hf (by simp [pure])
    | ok a => exact ⟨a, hx, hf⟩
  · rintro ⟨a, hx, hf⟩
    exact Option.bind_eq_some_iff.mpr ⟨.ok a, hx, hf⟩

end

section

variable {Input Output ε : Type} {map : Input → Except ε Output}

mutual

theorem tryMap_skeleton (field : Field Input) (result : Field Output) (h : tryMap map field = .ok result) :
    result.skeleton = field.skeleton := by
  match field with
  | { selection := fields, .. } =>
    simp only [tryMap, except_bind_eq_ok, pure, Except.pure, Except.ok.injEq] at h
    obtain ⟨selection, hs, args, -, directives, -, rfl⟩ := h
    simp only [Field.skeleton, tryMapAll_skeletons fields selection hs]

theorem tryMapAll_skeletons (fields : List (Field Input)) (results : List (Field Output))
    (h : tryMapAll map fields = .ok results) : Field.skeletons results = Field.skeletons fields := by
  match fields with
  | [] =>
    simp only [tryMapAll, Except.ok.injEq] at h
    rw [← h]
    rfl
  | field :: rest =>
    simp only [tryMapAll, except_bind_eq_ok, pure, Except.pure, Except.ok.injEq] at h
    obtain ⟨first, hf, others, ho, rfl⟩ := h
    simp only [Field.skeletons, tryMap_skeleton field first hf, tryMapAll_skeletons rest others ho]

end

end

section

variable (index : Index) (fuel : Nat)

mutual

theorem resolveField_skeleton (field result : Field ConstValue)
    (h : (resolveField index fuel field).run = some (.ok result)) : result.skeleton = field.skeleton := by
  match field with
  | { selection := fields, .. } =>
    simp only [resolveField, bind_run_eq_ok, pure_run_eq_ok] at h
    obtain ⟨args, -, selection, hs, rfl⟩ := h
    simp only [Field.skeleton, resolveSelection_skeletons fields selection hs]

theorem resolveSelection_skeletons (fields results : List (Field ConstValue))
    (h : (resolveSelection index fuel fields).run = some (.ok results)) :
    Field.skeletons results = Field.skeletons fields := by
  match fields with
  | [] =>
    simp only [resolveSelection, pure_run_eq_ok] at h
    rw [← h]
  | field :: rest =>
    simp only [resolveSelection, bind_run_eq_ok, pure_run_eq_ok] at h
    obtain ⟨first, hf, others, ho, rfl⟩ := h
    simp only [Field.skeletons, resolveField_skeleton field first hf, resolveSelection_skeletons rest others ho]

end

theorem resolveRoots_skeletons (vars : Variables) (fields : List (Field Value))
    (results : List (Field ConstValue)) (h : (resolveRoots index fuel vars fields).run = some (.ok results)) :
    Field.skeletons results = Field.skeletons fields := by
  induction fields generalizing results with
  | nil =>
    simp only [resolveRoots, pure_run_eq_ok] at h
    rw [← h]
    rfl
  | cons field rest ih =>
    simp only [resolveRoots, bind_run_eq_ok, pure_run_eq_ok] at h
    obtain ⟨mapped, hm, resolved, hr, others, ho, rfl⟩ := h
    have hm : tryMap (resolve vars) field = .ok mapped := Option.some.inj hm
    simp only [Field.skeletons, resolveField_skeleton index fuel mapped resolved hr,
      tryMap_skeleton field mapped hm, ih others ho]

end

section

variable (ctx : PathContext)

mutual

theorem resolveGraphqlField_skeleton (field : Field ConstValue) :
    (resolveGraphqlField ctx field).skeleton = field.skeleton := by
  match field with
  | { selection := fields, .. } =>
    simp only [resolveGraphqlField, Field.skeleton, resolveGraphqlSelectionSet_skeletons fields]

theorem resolveGraphqlSelectionSet_skeletons (fields : List (Field ConstValue)) :
    Field.skeletons (resolveGraphqlSelectionSet ctx fields) = Field.skeletons fields := by
  match fields with
  | [] => rfl
  | field :: rest =>
    simp only [resolveGraphqlSelectionSet, Field.skeletons, resolveGraphqlField_skeleton field,
      resolveGraphqlSelectionSet_skeletons rest]

end

end

theorem resolveInput_skeletons (printer : Printer ConstValue) (fuel : Nat) (vars : Variables)
    (plan : OperationPlan Value) (resolved : OperationPlan ConstValue)
    (h : (resolveInput printer fuel vars plan).run = some (.ok resolved)) :
    Field.skeletons resolved.selection = Field.skeletons plan.selection ∧ resolved.index = plan.index ∧
      resolved.rootName = plan.rootName := by
  simp only [resolveInput, bind_run_eq_ok, pure_run_eq_ok] at h
  obtain ⟨selection, hs, rfl⟩ := h
  refine ⟨?_, rfl, rfl⟩
  rw [resolveGraphqlSelectionSet_skeletons]
  exact resolveRoots_skeletons plan.index fuel vars plan.selection selection hs

end Gqlforge.InputResolver
