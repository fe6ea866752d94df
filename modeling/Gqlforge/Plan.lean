import Gqlforge.Document
import Gqlforge.Schema

namespace Gqlforge.Plan

open Json Document Resolvers Schema

abbrev Variables := Object ConstValue

structure Arg (Input : Type) where
  id : Nat
  name : String
  typeOf : WrappingType
  value : Option Input
  defaultValue : Option Input

structure Directive (Input : Type) where
  name : String
  arguments : List (String × Input)

end Gqlforge.Plan

namespace Gqlforge

open Json Document Resolvers Schema Plan

structure Field (Input : Type) where
  id : Nat
  name : String
  outputName : String
  ir : Option IR
  typeOf : WrappingType
  typeCondition : Option String
  skipVar : Option String
  includeVar : Option String
  args : List (Arg Input)
  selection : List (Field Input)
  parentFragment : Option String
  pos : Pos
  directives : List (Plan.Directive Input)
  isEnum : Bool
  scalar : Option Scalar

namespace Plan

structure OperationPlan (Input : Type) where
  rootName : String
  operationType : OperationType
  index : Index
  isIntrospectionQuery : Bool
  isDedupe : Bool
  isConst : Bool
  isProtected : Bool
  minCacheTtl : Option NonZeroU64
  selection : List (Field Input)
  before : Option IR
  interfaces : Option (List String)

end Plan

namespace Field

variable {Input : Type}

def evalVariable (name : Option String) (vars : Variables) (default : Bool) : Bool :=
  ((name.bind vars.getKey).bind ConstValue.asBool).getD default

def skip (field : Field Input) (vars : Variables) : Bool :=
  evalVariable field.skipVar vars false == evalVariable field.includeVar vars true

def valueType (field : Field Input) (value : ConstValue) : String :=
  value.getTypeName.getD field.typeOf.name

mutual

def dfs : Field Input → List (Field Input)
  | field@{ selection := fields, .. } => field :: dfsAll fields

def dfsAll : List (Field Input) → List (Field Input)
  | [] => []
  | field :: rest => field.dfs ++ dfsAll rest

end

mutual

def skeleton : Field Input → Field Unit
  | { id, name, outputName, typeOf, typeCondition, skipVar, includeVar, selection, pos, isEnum, scalar, .. } =>
    { id := id, name := name, outputName := outputName, ir := none, typeOf := typeOf,
      typeCondition := typeCondition, skipVar := skipVar, includeVar := includeVar, args := [],
      selection := skeletons selection, parentFragment := none, pos := pos, directives := [],
      isEnum := isEnum, scalar := scalar }

def skeletons : List (Field Input) → List (Field Unit)
  | [] => []
  | field :: rest => field.skeleton :: skeletons rest

end

theorem skeleton_eq (field : Field Input) :
    field.skeleton = ⟨field.id, field.name, field.outputName, none, field.typeOf, field.typeCondition,
      field.skipVar, field.includeVar, [], skeletons field.selection, none, field.pos, [], field.isEnum,
      field.scalar⟩ := by
  cases field
  rfl

theorem mem_skeletons (fields : List (Field Input)) (skeleton : Field Unit) :
    skeleton ∈ skeletons fields ↔ ∃ field ∈ fields, field.skeleton = skeleton := by
  induction fields with
  | nil => simp [skeletons]
  | cons head rest ih => simp [skeletons, ih, eq_comm]

end Field

namespace Plan.OperationPlan

variable {Input : Type}

def new (rootName : String) (selection : List (Field Input)) (operationType : OperationType)
    (index : Index) (isIntrospectionQuery : Bool) (interfaces : Option (List String)) :
    OperationPlan Input where
  rootName := rootName
  operationType := operationType
  index := index
  isIntrospectionQuery := isIntrospectionQuery
  isDedupe := false
  isConst := false
  isProtected := false
  minCacheTtl := none
  selection := selection
  before := none
  interfaces := interfaces

def isQuery (plan : OperationPlan Input) : Bool :=
  plan.operationType == .query

def iterDfs (plan : OperationPlan Input) : List (Field Input) :=
  Field.dfsAll plan.selection

def fieldValidateEnumValue (plan : OperationPlan Input) (field : Field Input) (value : String) : Bool :=
  plan.index.validateEnumValue field.typeOf.name value

def fieldIsPartOfValue (plan : OperationPlan Input) (field : Field Input) (value : ConstValue) : Bool :=
  match field.typeCondition with
  | some typeCondition => match value.getTypeName with
    | some valueType => plan.index.isTypeImplements valueType typeCondition
    | none => true
  | none => true

def canDedupe (plan : OperationPlan Input) : Bool :=
  plan.isQuery && (plan.isDedupe || plan.isConst || plan.minCacheTtl.isSome)

end Plan.OperationPlan

end Gqlforge
