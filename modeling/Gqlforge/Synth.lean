import Gqlforge.Executor

namespace Gqlforge.Synth

open Json Errors Schema Plan Executor

inductive Failure where
  | error (error : Positioned)
  | indexOutOfBounds

abbrev Synthesis := StateT (List PathSegment) (Except Failure)

def push (segment : PathSegment) : Synthesis Unit :=
  modify (· ++ [segment])

def pop : Synthesis Unit :=
  modify List.dropLast

def failAt (node : Field ConstValue) (error : ValidationError) : Synthesis Output := do
  let path ← get
  throw (.error ((Positioned.new (.validation error) node.pos).withPath path))

def nodeNullableGuard (node : Field ConstValue) (rootName : Option String) : Synthesis Output :=
  match rootName, node.name == "__typename" with
  | some rootName, true => return .str rootName
  | _, _ =>
    if node.typeOf.isNullable then return .null
    else failAt node .valueRequired

inductive Indexed where
  | value (value : ConstValue)
  | notArray
  | outOfBounds

def indexValue : List Nat → ConstValue → Indexed
  | [], value => .value value
  | index :: path, .list items => match items[index]? with
    | some item => indexValue path item
    | none => .outOfBounds
  | _ :: _, _ => .notArray

def nullType : WrappingType → WrappingType
  | .named name nonNull => .named name nonNull
  | .list ofType _ => ofType

section

variable (formats : Scalar.Formats) (plan : OperationPlan ConstValue) (vars : Variables)

def isValidEnum (node : Field ConstValue) (value : ConstValue) : Bool :=
  let checkValidEnum := fun (value : ConstValue) => value.asStr.any (plan.fieldValidateEnumValue node)
  match value with
  | .list items => items.all checkValidEnum
  | value => checkValidEnum value

def checkLeaf (node : Field ConstValue) (value : ConstValue) : Option (Except ValidationError Output) :=
  if node.skip vars then some (.ok .null)
  else if value.isNull then
    some (if (nullType node.typeOf).isNullable then .ok .null else .error .valueRequired)
  else match node.scalar with
    | some scalar =>
      some (if scalar.validate formats value then .ok (.cloneFrom value)
        else .error (.scalarInvalid node.typeOf.name))
    | none =>
      if node.isEnum then
        some (if isValidEnum plan node value then .ok (.cloneFrom value)
          else .error (.enumInvalid node.typeOf.name))
      else none

section

variable (node : Field ConstValue)
variable (objectFields : List Nat → ConstValue → Synthesis (List (String × Output)))

mutual

def iterInner (dataPath : List Nat) : ConstValue → Synthesis Output
  | .list items => match checkLeaf formats plan vars node (.list items) with
    | some (.ok output) => return output
    | some (.error error) => failAt node error
    | none => do
      let items ← iterItems dataPath 0 items
      return .array items
  | value => match checkLeaf formats plan vars node value with
    | some (.ok output) => return output
    | some (.error error) => failAt node error
    | none => match value with
      | .object fields => do
        let fields ← objectFields dataPath (.object fields)
        return .object fields
      | value => return .cloneFrom value

def iterItems (dataPath : List Nat) (index : Nat) : List ConstValue → Synthesis (List Output)
  | [] => return []
  | value :: rest => do
    push (.index index)
    let output ← iterInner (dataPath ++ [index]) value
    pop
    let rest ← iterItems dataPath (index + 1) rest
    return output :: rest

end

end

variable (store : Store)

mutual

def processNode (value : Option ConstValue) (dataPath : List Nat) (rootName : Option String) :
    Field ConstValue → Synthesis Output
  | node@{ selection := fields, .. } => do
    push (.field node.outputName)
    let inner := iterInner formats plan vars node fun dataPath value =>
      processFields dataPath node value fields
    match store.get node.id with
    | some (.error error) => throw (.error error)
    | some (.ok stored) => match indexValue dataPath stored with
      | .outOfBounds => throw .indexOutOfBounds
      -- these two returns leave the segment of the node on the path
      | .notArray => return .null
      | .value value =>
        if node.scalar != some .json && node.typeOf.isList != value.asArray.isSome then
          nodeNullableGuard node none
        else do
          let output ← inner dataPath value
          pop
          return output
    | none => match value with
      | some value => do
        let output ← inner dataPath value
        pop
        return output
      | none => do
        let output ← nodeNullableGuard node rootName
        pop
        return output

def processFields (dataPath : List Nat) (node : Field ConstValue) (value : ConstValue) :
    List (Field ConstValue) → Synthesis (List (String × Output))
  | [] => return []
  | child :: rest => do
    if plan.fieldIsPartOfValue child value && !child.skip vars then
      let output ← (if child.name == "__typename" then pure (Output.str (node.valueType value))
        else processNode (value.getKey child.name) dataPath none child)
      let rest ← processFields dataPath node value rest
      return (child.outputName, output) :: rest
    else processFields dataPath node value rest

end

def synthesizeRoot : Object Output → List (Field ConstValue) → Synthesis (Object Output)
  | data, [] => return data
  | data, child :: rest =>
    if child.skip vars then synthesizeRoot data rest
    else do
      let output ← processNode formats plan vars store none [] (some plan.rootName) child
      synthesizeRoot (data.insertKey child.outputName output) rest

def synthesize : Except Failure Output :=
  ((synthesizeRoot formats plan vars store [] plan.selection).run []).map fun (data, _) => .object data

end

end Gqlforge.Synth
