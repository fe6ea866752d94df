import Gqlforge.SchemaUsage
import Gqlforge.Validation

namespace Gqlforge.ServiceDocuments

open Json Schema Validation Config

inductive DocumentType where
  | named (name : String) (nullable : Bool)
  | list (ofType : DocumentType) (nullable : Bool)

namespace DocumentType

def toWrapping : DocumentType → WrappingType
  | .named name nullable => .named name !nullable
  | .list ofType nullable => .list ofType.toWrapping !nullable

def fromWrapping : WrappingType → DocumentType
  | .named name nonNull => .named name !nonNull
  | .list ofType nonNull => .list (fromWrapping ofType) !nonNull

@[simp]
theorem toWrapping_fromWrapping (type : WrappingType) : (fromWrapping type).toWrapping = type := by
  induction type with
  | named name nonNull => simp [fromWrapping, toWrapping]
  | list ofType nonNull ih => simp [fromWrapping, toWrapping, ih]

end DocumentType

structure ConstDirective where
  name : String
  arguments : List (String × ConstValue)

structure InputValueDefinition where
  description : Option String
  name : String
  ty : DocumentType
  defaultValue : Option ConstValue
  directives : List ConstDirective

structure FieldDefinition where
  description : Option String
  name : String
  arguments : List InputValueDefinition
  ty : DocumentType
  directives : List ConstDirective

structure EnumValueDefinition where
  description : Option String
  value : String
  directives : List ConstDirective

inductive TypeKind where
  | scalar
  | object (implements : List String) (fields : List FieldDefinition)
  | interface (implements : List String) (fields : List FieldDefinition)
  | union (members : List String)
  | enum (values : List EnumValueDefinition)
  | inputObject (fields : List InputValueDefinition)

structure TypeDefinition where
  extend : Bool
  description : Option String
  name : String
  directives : List ConstDirective
  kind : TypeKind

structure SchemaDefinition where
  extend : Bool
  directives : List ConstDirective
  query : Option String
  mutation : Option String
  subscription : Option String

inductive TypeSystemDefinition where
  | schema (definition : SchemaDefinition)
  | type (definition : TypeDefinition)
  | directive (name : String)

structure ServiceDocument where
  definitions : List TypeSystemDefinition

structure DirectiveCodec (directiveName : String) (α : Type) where
  fromDirective : ConstDirective → Valid α String
  arguments : α → List (String × ConstValue)

namespace DirectiveCodec

variable {name : String} {α : Type} (codec : DirectiveCodec name α)

def toDirective (value : α) : ConstDirective := ⟨name, codec.arguments value⟩

def fromDirectives : List ConstDirective → Valid (Option α) String
  | [] => .succeed none
  | directive :: rest =>
    if directive.name = name then (codec.fromDirective directive).mapOk some else fromDirectives rest

def Lawful : Prop :=
  ∀ value, codec.fromDirective (codec.toDirective value) = .ok value

end DirectiveCodec

inductive ResolverKind where
  | http | grpc | graphql | call | js | expr | postgres | greptimedb | redis | s3
  deriving DecidableEq

namespace ResolverKind

def all : List ResolverKind :=
  [.http, .grpc, .graphql, .call, .js, .expr, .postgres, .greptimedb, .redis, .s3]

def directiveName : ResolverKind → String
  | .http => "http"
  | .grpc => "grpc"
  | .graphql => "graphQL"
  | .call => "call"
  | .js => "js"
  | .expr => "expr"
  | .postgres => "postgres"
  | .greptimedb => "greptimedb"
  | .redis => "redis"
  | .s3 => "s3"

end ResolverKind

inductive Resolver (R : ResolverKind → Type) (F : Type) where
  | ofKind (kind : ResolverKind) (value : R kind)
  | apolloFederation (value : F)

structure Directive (J : Type) where
  name : String
  arguments : Dict J

abbrev documented (P : Payloads) (R : ResolverKind → Type) (F : Type) : Payloads :=
  { P with Resolver := Resolver R F, Directive := Directive P.Json }

structure JsonCodec (J : Type) where
  fromJson : J → Except String ConstValue
  intoJson : ConstValue → Except String J

def JsonCodec.Lawful {J : Type} (codec : JsonCodec J) : Prop :=
  ∀ json, ∃ value, codec.fromJson json = .ok value ∧ codec.intoJson value = .ok json

structure Codecs (P : Payloads) (R : ResolverKind → Type) where
  json : JsonCodec P.Json
  server : DirectiveCodec "server" P.Server
  defaultServer : P.Server
  upstream : DirectiveCodec "upstream" P.Upstream
  defaultUpstream : P.Upstream
  link : DirectiveCodec "link" P.Link
  linkType : P.Link → String
  telemetry : DirectiveCodec "telemetry" P.Telemetry
  defaultTelemetry : P.Telemetry
  cache : DirectiveCodec "cache" P.Cache
  protectedBy : DirectiveCodec "protected" P.Protected
  addField : DirectiveCodec "addField" P.AddField
  modify : DirectiveCodec "modify" P.Modify
  omission : DirectiveCodec "omit" P.Omit
  discriminate : DirectiveCodec "discriminate" P.Discriminate
  aliases : DirectiveCodec "alias" Alias
  resolver : (kind : ResolverKind) → DirectiveCodec kind.directiveName (R kind)

def federationDirectives : List String :=
  ["authenticated", "context", "cost", "fromContext", "link", "key", "tag", "shareable", "inaccessible",
    "override", "extends", "external", "provides", "requires", "requiresScope", "composeDirective",
    "interfaceObject", "listSize", "policy"]

end Gqlforge.ServiceDocuments
