import Gqlforge.Resolvers

namespace Gqlforge.Document

open Json Resolvers

structure Pos where
  line : Nat
  column : Nat
  deriving DecidableEq, Inhabited

inductive Value where
  | variable (name : String)
  | null
  | number (value : Number)
  | string (value : String)
  | boolean (value : Bool)
  | enum (name : String)
  | list (items : List Value)
  | object (fields : List (String × Value))

namespace Value

mutual

def ofConst : ConstValue → Value
  | .null => .null
  | .number value => .number value
  | .string value => .string value
  | .boolean value => .boolean value
  | .enum name => .enum name
  | .list items => .list (ofItems items)
  | .object fields => .object (ofFields fields)

def ofItems : List ConstValue → List Value
  | [] => []
  | value :: rest => ofConst value :: ofItems rest

def ofFields : List (String × ConstValue) → List (String × Value)
  | [] => []
  | (key, value) :: rest => (key, ofConst value) :: ofFields rest

end

end Value

structure Directive where
  name : String
  arguments : List (String × Value)
  deriving Inhabited

def Directive.getArgument (directive : Directive) (name : String) : Option Value :=
  directive.arguments.lookup name

inductive Selection where
  | field (pos : Pos) (alias' : Option String) (name : String) (arguments : List (String × Value))
      (directives : List Directive) (selectionSet : List Selection)
  | fragmentSpread (pos : Pos) (fragmentName : String) (directives : List Directive)
  | inlineFragment (pos : Pos) (typeCondition : Option String) (directives : List Directive)
      (selectionSet : List Selection)

structure FragmentDefinition where
  typeCondition : String
  directives : List Directive
  selectionSet : List Selection

structure OperationDefinition where
  ty : OperationType
  directives : List Directive
  selectionSet : List Selection

inductive DocumentOperations where
  | single (operation : OperationDefinition)
  | multiple (operations : List (String × OperationDefinition))

abbrev Fragments := List (String × FragmentDefinition)

structure ExecutableDocument where
  operations : DocumentOperations
  fragments : Fragments

end Gqlforge.Document
