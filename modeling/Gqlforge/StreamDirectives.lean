import Gqlforge.FieldPasses

namespace Gqlforge.StreamDirectives

open Resolvers Templates Config Validation FieldCompiler

inductive PostgresOperation where
  | select | selectOne | insert | update | delete | listen
  deriving DecidableEq

inductive RedisOperation where
  | get | set | del | exists | incr | hget | hset | hgetall | lrange | lpush | rpush | sadd | smembers
  | publish | subscribe | xadd | xread
  deriving DecidableEq

def RedisOperation.keyword : RedisOperation → String
  | .get => "GET"
  | .set => "SET"
  | .del => "DEL"
  | .exists => "EXISTS"
  | .incr => "INCR"
  | .hget => "HGET"
  | .hset => "HSET"
  | .hgetall => "HGETALL"
  | .lpush => "LPUSH"
  | .rpush => "RPUSH"
  | .lrange => "LRANGE"
  | .sadd => "SADD"
  | .smembers => "SMEMBERS"
  | .publish => "PUBLISH"
  | .xadd => "XADD"
  | .subscribe => "SUBSCRIBE"
  | .xread => "XREAD"

structure Rest where
  Http : Type
  Grpc : Type
  GraphQL : Type
  Select : Type
  Database : Type
  Redis : Type
  S3 : Type

structure HttpDirective (R : Rest) where
  select : Option R.Select
  rest : R.Http

structure GrpcDirective (R : Rest) where
  select : Option R.Select
  rest : R.Grpc

structure PostgresDirective (R : Rest) where
  operation : PostgresOperation
  channel : Option String
  rest : R.Database

structure RedisDirective (R : Rest) where
  operation : RedisOperation
  channel : Option String
  key : Option String
  rest : R.Redis

inductive Directive (R : Rest) where
  | http (http : HttpDirective R)
  | graphql (graphql : R.GraphQL)
  | js (name : String)
  | postgres (postgres : PostgresDirective R)
  | greptimedb (operation : PostgresOperation) (database : R.Database)
  | redis (redis : RedisDirective R)
  | s3 (s3 : R.S3)

abbrev streamBackends (B : Backends) (R : Rest) : Backends :=
  { B with Grpc := GrpcDirective R, Other := Directive R }

section

variable (P : Payloads) (B : Backends) (R : Rest)

structure Templating where
  httpTemplate : Module P (streamBackends B R) → Config.Field (withResolvers P (streamBackends B R)) →
    OperationType → R.Http → Checked (streamBackends B R) (Http.RequestTemplate × Bool)
  grpcTemplate (size : ℕ) : OperationType → List String → R.Grpc → Operation size →
    Checked (streamBackends B R) (Grpc.RequestTemplate × Bool)
  graphqlTemplate : Module P (streamBackends B R) → Config.Field (withResolvers P (streamBackends B R)) →
    OperationType → R.GraphQL → Checked (streamBackends B R) (GraphQL.RequestTemplate × String × Bool)
  selectValue : R.Select → Checked (streamBackends B R) DynamicValue
  script : Bool
  postgresConnection : Module P (streamBackends B R) → R.Database → Checked (streamBackends B R) String
  greptimedbConnection : Module P (streamBackends B R) → R.Database → Checked (streamBackends B R) String
  redisConnection : Module P (streamBackends B R) → R.Redis → Checked (streamBackends B R) String
  postgresTemplate : Module P (streamBackends B R) → String → PostgresOperation → R.Database →
    Checked (streamBackends B R) (String × Bool)
  redisTemplate : RedisOperation → R.Redis → Checked (streamBackends B R) (String × Bool)
  s3Template : R.S3 → Checked (streamBackends B R) (String × Bool)
  alphanumeric : Char → Bool
  scriptIsRequired : B.Error
  cause : String → B.Error

end

variable {P : Payloads} {B : Backends} {R : Rest} (T : Templating P B R)

def Templating.failed {α : Type} (text : String) : Checked (streamBackends B R) α :=
  Valid.fail (.error (T.cause text))

mutual

def prepend (name : String) : DynamicValue → DynamicValue
  | .const value => .const value
  | .mustache template =>
    if template.isConst then .mustache template
    else match template.segments with
      | .expression parts :: rest => .mustache ⟨.expression (name :: parts) :: rest⟩
      | _ => .mustache template
  | .object fields => .object (prependFields name fields)
  | .array items => .array (prependItems name items)

def prependFields (name : String) : List (String × DynamicValue) → List (String × DynamicValue)
  | [] => []
  | (key, value) :: rest => (key, prepend name value) :: prependFields name rest

def prependItems (name : String) : List DynamicValue → List DynamicValue
  | [] => []
  | value :: rest => prepend name value :: prependItems name rest

end

def applySelect (ir : IR) (select : Option R.Select) : Checked (streamBackends B R) IR :=
  match select with
  | some select => (T.selectValue select).mapOk fun value => .pipe ir (.dynamic (prepend "args" value))
  | none => Valid.succeed ir

section Compile

variable (module : Module P (streamBackends B R)) (field : Config.Field (withResolvers P (streamBackends B R)))
variable (operationType : OperationType)

def compileHttp (http : HttpDirective R) : Checked (streamBackends B R) IR :=
  (T.httpTemplate module field operationType http.rest).andThen fun (template, dedupe) =>
    applySelect T
      (if operationType = .subscription then .io (.stream .http) else .io (.http template dedupe)) http.select

def compileGrpc (size : ℕ) (batchKey : List String) (grpc : GrpcDirective R) (operation : Operation size) :
    Checked (streamBackends B R) IR :=
  (T.grpcTemplate size operationType batchKey grpc.rest operation).andThen fun (template, dedupe) =>
    applySelect T
      (if operationType = .subscription then .io (.stream .grpc) else .io (.grpc template dedupe)) grpc.select

def compileGraphql (graphql : R.GraphQL) : Checked (streamBackends B R) IR :=
  (T.graphqlTemplate module field operationType graphql).mapOk fun (template, fieldName, dedupe) =>
    if operationType = .subscription then .io (.stream .graphQL) else .io (.graphQL template fieldName dedupe)

def compileJs (name : String) : Checked (streamBackends B R) IR :=
  if T.script then Valid.succeed (.io (.js name)) else Valid.fail (.error T.scriptIsRequired)

def listen (directiveName : String) (channel : Option String) : Checked (streamBackends B R) IR :=
  match channel with
  | none => T.failed (directiveName ++ "(operation: LISTEN) requires a non-empty 'channel'")
  | some channel =>
    if operationType ≠ .subscription then
      T.failed (directiveName ++ "(operation: LISTEN) is only allowed on Subscription fields")
    else if channel.isEmpty then
      T.failed (directiveName ++ "(operation: LISTEN) requires a non-empty 'channel'")
    else if !channel.toList.all fun c => T.alphanumeric c || c == '_' then
      T.failed ("Invalid channel name '" ++ channel ++ "': only alphanumeric and underscore allowed")
    else Valid.succeed (.io (.stream .postgres))

def compilePostgres (directiveName : String) (connection : Checked (streamBackends B R) String)
    (operation : PostgresOperation) (channel : Option String) (rest : R.Database) :
    Checked (streamBackends B R) IR :=
  connection.andThen fun connectionId =>
    if operation = .listen then listen T operationType directiveName channel
    else if operationType = .subscription then
      T.failed (directiveName ++ " on Subscription requires operation: LISTEN")
    else
      (T.postgresTemplate module connectionId operation rest).mapOk fun (template, dedupe) =>
        .io (.backend (.postgres connectionId) template dedupe)

def subscribe (redis : RedisDirective R) : Checked (streamBackends B R) IR :=
  if operationType ≠ .subscription then
    T.failed ("@redis(operation: " ++ redis.operation.keyword ++ ") is only allowed on Subscription fields")
  else
    let source := if redis.operation = .subscribe then redis.channel else redis.key
    let name := if redis.operation = .subscribe then "'channel'" else "'key'"
    if source.all String.isEmpty then
      T.failed ("@redis(operation: " ++ redis.operation.keyword ++ ") requires a non-empty " ++ name)
    else Valid.succeed (.io (.stream .redis))

def compileRedis (redis : RedisDirective R) : Checked (streamBackends B R) IR :=
  (T.redisConnection module redis.rest).andThen fun connectionId =>
    if redis.operation = .subscribe ∨ redis.operation = .xread then subscribe T operationType redis
    else if operationType = .subscription then
      T.failed "@redis on Subscription requires operation: SUBSCRIBE or XREAD"
    else
      (T.redisTemplate redis.operation redis.rest).mapOk fun (template, dedupe) =>
        .io (.backend (.redis connectionId) template dedupe)

def compileS3 (s3 : R.S3) : Checked (streamBackends B R) IR :=
  (T.s3Template s3).mapOk fun (template, dedupe) => .io (.backend .s3 template dedupe)

def compileDirective : Directive R → Checked (streamBackends B R) IR
  | .http http => (compileHttp T module field operationType http).trace "@http"
  | .graphql graphql => (compileGraphql T module field operationType graphql).trace "@graphQL"
  | .js name => (compileJs T name).trace "@js"
  | .postgres postgres =>
    (compilePostgres T module operationType "@postgres" (T.postgresConnection module postgres.rest)
      postgres.operation postgres.channel postgres.rest).trace "@postgres"
  | .greptimedb operation database =>
    (compilePostgres T module operationType "@greptimedb" (T.greptimedbConnection module database) operation none
      database).trace "@greptimedb"
  | .redis redis => (compileRedis T module operationType redis).trace "@redis"
  | .s3 s3 => (compileS3 T s3).trace "@s3"

end Compile

def streamCompiler (C : Compiler P (streamBackends B R)) : Compiler P (streamBackends B R) :=
  { C with
    otherResolver := fun module directive field operationType =>
      compileDirective T module field operationType directive
    grpcResolver := fun operationType batchKey grpc operation =>
      compileGrpc T operationType C.pool.size batchKey grpc operation }

def openStream : Option IR → Except String Io
  | some (.io io) =>
    match io with
    | .stream source => .ok (.stream source)
    | _ => .error "Subscription field does not have a streaming resolver"
  | _ => .error "Subscription field missing resolver"

end Gqlforge.StreamDirectives
