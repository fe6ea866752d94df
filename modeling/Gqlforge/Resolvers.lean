import Gqlforge.Templates

namespace Gqlforge.Resolvers

open Templates

inductive Provider where
  | basic (htpasswd : String)
  | jwt (issuer : Option String) (audiences : List String) (optionalKid : Bool) (jwks : String)
  deriving DecidableEq, Inhabited

inductive Auth where
  | provider (provider : Provider)
  | and (left right : Auth)
  | or (left right : Auth)

inductive Operand where
  | path (segments : List String)
  | stringLiteral (value : String)
  | numberLiteral (value : Int)
  | boolLiteral (value : Bool)
  deriving DecidableEq

inductive AccessExpr where
  | and (left right : AccessExpr)
  | or (left right : AccessExpr)
  | not (expr : AccessExpr)
  | eq (left right : Operand)
  | neq (left right : Operand)
  deriving DecidableEq

inductive Discriminator where
  | keyed (types : List String) (typeName : String)
  | typeField (typenameField : String) (types : List String) (typeName : String)

inductive OperationType where
  | query
  | mutation
  | subscription
  deriving DecidableEq, Inhabited

def OperationType.toString : OperationType → String
  | .query => "query"
  | .mutation => "mutation"
  | .subscription => "subscription"

abbrev MustacheHeaders := List (String × Mustache)

namespace Http

inductive Method where
  | get
  | post
  | put
  | patch
  | delete
  | head
  | options
  | connect
  | trace
  deriving DecidableEq, Inhabited

inductive Encoding where
  | applicationJson
  | applicationXWwwFormUrlencoded
  deriving Inhabited

inductive QueryEncoder where
  | commaSeparated
  | repeatedKey
  deriving Inhabited

structure Query where
  key : String
  value : Mustache
  skipEmpty : Bool

structure RequestTemplate where
  rootUrl : Mustache
  query : List Query
  method : Method
  headers : MustacheHeaders
  bodyPath : Option Mustache
  encoding : Encoding
  queryEncoder : QueryEncoder
  deriving Inhabited

end Http

namespace GraphQL

inductive RelatedFields where
  | mk (fields : List (String × (String × RelatedFields)))
  deriving Inhabited

inductive Selection where
  | resolved (text : String)
  | unResolved (template : Mustache)

structure RequestTemplate where
  url : String
  operationType : OperationType
  operationName : String
  operationArguments : Option (List (String × Mustache))
  headers : MustacheHeaders
  relatedFields : RelatedFields
  selection : Option Selection
  deriving Inhabited

end GraphQL

namespace Grpc

structure ProtobufOperation where
  method : String
  inputType : String
  outputType : String
  deriving Inhabited

structure RequestBody where
  mustache : Option Mustache
  value : String

structure RequestTemplate where
  url : Mustache
  headers : MustacheHeaders
  body : Option RequestBody
  operation : ProtobufOperation
  operationType : OperationType
  deriving Inhabited

end Grpc

inductive Backend where
  | postgres (connectionId : String)
  | redis (connectionId : String)
  | s3

inductive StreamSource where
  | grpc
  | graphQL
  | http
  | postgres
  | redis

inductive Io where
  | http (reqTemplate : Http.RequestTemplate) (dedupe : Bool)
  | graphQL (reqTemplate : GraphQL.RequestTemplate) (fieldName : String) (dedupe : Bool)
  | grpc (reqTemplate : Grpc.RequestTemplate) (dedupe : Bool)
  | stream (source : StreamSource)
  | js (name : String)
  | backend (backend : Backend) (reqTemplate : String) (dedupe : Bool)

def Io.dedupe : Io → Bool
  | .http _ dedupe => dedupe
  | .graphQL _ _ dedupe => dedupe
  | .grpc _ dedupe => dedupe
  | .backend _ _ dedupe => dedupe
  | .stream _ => false
  | .js _ => false

abbrev NonZeroU64 := { value : Nat // 0 < value ∧ value < 2 ^ 64 }

structure Cache where
  maxAge : NonZeroU64
  io : Io

inductive IR where
  | dynamic (value : DynamicValue)
  | io (io : Io)
  | cache (cache : Cache)
  | path (input : IR) (path : List String)
  | contextPath (path : List String)
  | protect (auth : Auth) (accessExpr : Option AccessExpr) (expr : IR)
  | map (input : IR) (map : List (String × String))
  | pipe (first second : IR)
  | merge (irs : List IR)
  | discriminate (discriminator : Discriminator) (expr : IR)
  | entity (map : List (String × IR))
  | service (sdl : String)

instance : Inhabited IR := ⟨.dynamic default⟩

end Gqlforge.Resolvers
