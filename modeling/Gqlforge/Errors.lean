import Gqlforge.Document

namespace Gqlforge.Errors

open Document Resolvers

inductive ResolveInputError where
  | variableIsNotFound (name : String)
  | argumentIsRequired (argName fieldName : String)
  deriving DecidableEq

inductive BuildError where
  | rootOperationTypeNotDefined (operation : OperationType)
  | resolveInputError (error : ResolveInputError)
  | operationNotFound (name : String)
  | operationNameRequired
  deriving DecidableEq

inductive ValidationError where
  | scalarInvalid (typeOf : String)
  | enumInvalid (typeOf : String)
  | valueRequired
  deriving DecidableEq

inductive AuthError where
  | missing
  | parse (message : String)
  | invalid
  deriving DecidableEq

inductive EvalError where
  | io (message : String)
  | http (message body : String)
  | grpc (code : Int) (description statusMessage : String)
  | apiValidation (messages : List String)
  | exprEval (message : String)
  | deserialize (message : String)
  | auth (error : AuthError)
  | worker (message : String)
  | cache (message : String)
  | entity (message : String)
  deriving DecidableEq

inductive Error where
  | build (error : BuildError)
  | parse (message : String)
  | ir (error : EvalError)
  | validation (error : ValidationError)
  | server (message : String)
  | unknown
  deriving DecidableEq

inductive PathSegment where
  | field (name : String)
  | index (index : Nat)
  deriving DecidableEq

structure Positioned where
  value : Error
  pos : Pos
  path : List PathSegment
  deriving DecidableEq

def Positioned.new (value : Error) (pos : Pos) : Positioned :=
  ⟨value, pos, []⟩

def Positioned.withPath (error : Positioned) (path : List PathSegment) : Positioned :=
  { error with path := path }

end Gqlforge.Errors
