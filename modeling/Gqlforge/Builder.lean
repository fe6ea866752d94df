import Gqlforge.Errors
import Gqlforge.Plan
import Mathlib.Data.List.Sort

namespace Gqlforge.Builder

open Json Document Errors Resolvers Schema Plan

inductive Condition where
  | true
  | false
  | variable (name : String)

structure Conditions where
  skip : Condition
  incl : Condition

namespace Conditions

def isConstSkip (conditions : Conditions) : Bool :=
  match conditions.skip, conditions.incl with
  | .true, _ => Bool.true
  | .false, .false => Bool.true
  | _, _ => Bool.false

def variableOf : Condition → Option String
  | .variable name => some name
  | _ => none

def intoVariableTuple (conditions : Conditions) : Option String × Option String :=
  (variableOf conditions.incl, variableOf conditions.skip)

end Conditions

def getCondition (directive : Document.Directive) : Option Condition :=
  match directive.getArgument "if" with
  | some (.boolean true) => some .true
  | some (.boolean false) => some .false
  | some (.variable name) => some (.variable name)
  | _ => none

def conditionOf (directives : List Document.Directive) (name : String) (default : Condition) : Condition :=
  ((directives.find? (·.name == name)).bind getCondition).getD default

def includeOf (directives : List Document.Directive) : Conditions where
  skip := conditionOf directives "skip" .false
  incl := conditionOf directives "include" .true

structure Counters where
  argId : Nat
  fieldId : Nat

abbrev Counting := StateT Counters Option

def nextArgId : Counting Nat := fun counters =>
  some (counters.argId, { counters with argId := counters.argId + 1 })

def nextFieldId : Counting Nat := fun counters =>
  some (counters.fieldId, { counters with fieldId := counters.fieldId + 1 })

def collectArgs (requestArgs : List (String × Value)) :
    List (String × InputFieldDefinition) → Counting (List (Arg Value))
  | [] => pure []
  | (name, definition) :: rest => do
    let id ← nextArgId
    let args ← collectArgs requestArgs rest
    -- the map built from the request's arguments keeps the last one of a name
    return ⟨id, name, definition.ofType, requestArgs.reverse.lookup name,
      definition.defaultValue.map Value.ofConst⟩ :: args

def jitDirectives (directives : List Document.Directive) : List (Plan.Directive Value) :=
  (directives.filter fun d => !(d.name == "skip" || d.name == "include")).map
    fun d => ⟨d.name, d.arguments⟩

def QueryField.ofType : QueryField → WrappingType
  | .field definition _ => definition.ofType
  | .inputField definition => definition.ofType

def QueryField.args : QueryField → Object InputFieldDefinition
  | .field _ args => args
  | .inputField _ => []

def QueryField.resolver : QueryField → Option IR
  | .field definition _ => definition.resolver
  | .inputField _ => none

def scalarOf (index : Index) (typeName : String) : Option Scalar :=
  if index.typeIsScalar typeName then some ((Scalar.find typeName).getD .empty) else none

structure Call where
  parentFragment : Option String
  selectionSet : List Selection
  typeCondition : String

structure Collected where
  fields : List (Field Value)
  fragmentsFields : List (Field Value)
  visited : List String

def Collected.empty : Collected := ⟨[], [], []⟩

section

variable (index : Index) (fragments : Fragments) (recur : Call → Counting (List (Field Value)))

def collectField (call : Call) (pos : Pos) (outputName name : String)
    (arguments : List (String × Value)) (directives : List Document.Directive)
    (selectionSet : List Selection) : Counting (Option (Field Value)) :=
  let (includeVar, skipVar) := (includeOf directives).intoVariableTuple
  match index.getField call.typeCondition name with
  | some definition => do
    let args ← collectArgs arguments (QueryField.args definition)
    let typeOf := QueryField.ofType definition
    let id ← nextFieldId
    let children ← recur ⟨none, selectionSet, typeOf.name⟩
    return some {
      id := id, name := name, outputName := outputName, ir := QueryField.resolver definition,
      typeOf := typeOf, typeCondition := some call.typeCondition, skipVar := skipVar,
      includeVar := includeVar, args := args, selection := children,
      parentFragment := call.parentFragment, pos := pos, directives := jitDirectives directives,
      isEnum := index.typeIsEnum typeOf.name, scalar := scalarOf index typeOf.name }
  | none =>
    if name == "__typename" then do
      let id ← nextFieldId
      return some {
        id := id, name := name, outputName := outputName, ir := none, typeOf := .named "String" true,
        typeCondition := some call.typeCondition, skipVar := skipVar, includeVar := includeVar,
        args := [], selection := [], parentFragment := call.parentFragment, pos := pos,
        directives := jitDirectives directives, isEnum := false, scalar := some .empty }
    else return none

def collectItem (call : Call) (acc : Collected) : Selection → Counting Collected
  | .field pos alias' name arguments directives selectionSet =>
    let outputName := alias'.getD name
    if acc.visited.contains outputName then pure acc
    else
      let acc := { acc with visited := outputName :: acc.visited }
      if (includeOf directives).isConstSkip then pure acc
      else do
        let field ← collectField index recur call pos outputName name arguments directives selectionSet
        return { acc with fields := acc.fields ++ field.toList }
  | .fragmentSpread _ fragmentName _ =>
    match fragments.lookup fragmentName with
    | some fragment => do
      let fields ← recur ⟨some fragment.typeCondition, fragment.selectionSet, fragment.typeCondition⟩
      return { acc with fragmentsFields := acc.fragmentsFields ++ fields }
    | none => pure acc
  | .inlineFragment _ typeCondition _ selectionSet => do
    let typeOf := typeCondition.getD call.typeCondition
    let fields ← recur ⟨some typeOf, selectionSet, typeOf⟩
    return { acc with fragmentsFields := acc.fragmentsFields ++ fields }

def collectItems (call : Call) : Collected → List Selection → Counting Collected
  | acc, [] => pure acc
  | acc, item :: rest => do
    let acc ← collectItem index fragments recur call acc item
    collectItems call acc rest

def Collected.finish (acc : Collected) : List (Field Value) :=
  (acc.fields ++ acc.fragmentsFields.filter (!acc.visited.contains ·.outputName)).insertionSort
    (·.id ≤ ·.id)

def collectBody (call : Call) : Counting (List (Field Value)) := do
  let acc ← collectItems index fragments recur call Collected.empty call.selectionSet
  return acc.finish

end

def collectFields (index : Index) (fragments : Fragments) : Nat → Call → Counting (List (Field Value))
  | 0, _ => fun _ => none
  | fuel + 1, call => collectBody index fragments (collectFields index fragments fuel) call

def getType (index : Index) : OperationType → Option String
  | .query => some index.schema.query
  | .mutation => index.schema.mutation
  | .subscription => index.schema.subscription

def getOperation (document : ExecutableDocument) (operationName : Option String) :
    Except BuildError OperationDefinition :=
  match operationName, document.operations with
  | some name, .single _ => .error (.operationNotFound name)
  | some name, .multiple operations =>
    match operations.lookup name with
    | some operation => .ok operation
    | none => .error (.operationNotFound name)
  | none, .single operation => .ok operation
  | none, .multiple [(_, operation)] => .ok operation
  | none, .multiple _ => .error .operationNameRequired

def containsText (text pattern : String) : Bool :=
  text.toList.tails.any (pattern.toList.isPrefixOf ·)

def Selection.isIntrospection : Selection → Bool
  | .field _ _ name _ _ _ => containsText name "__schema" || containsText name "__type"
  | _ => false

def build (blueprint : Blueprint) (document : ExecutableDocument) (fuel : Nat)
    (operationName : Option String) : Option (Except BuildError (OperationPlan Value)) :=
  let index := blueprint.index
  match getOperation document operationName with
  | .error e => some (.error e)
  | .ok operation =>
    match getType index operation.ty with
    | none => some (.error (.rootOperationTypeNotDefined operation.ty))
    | some name =>
      (collectFields index document.fragments fuel ⟨none, operation.selectionSet, name⟩ ⟨0, 0⟩).map
        fun (fields, _) => .ok (OperationPlan.new name fields operation.ty index
          (operation.selectionSet.any Selection.isIntrospection) (some index.getInterfaces))

end Gqlforge.Builder
