import Gqlforge.Dict
import Gqlforge.Schema
import Mathlib.Data.Finset.Dedup

namespace Gqlforge.Config

open Schema

structure Distinct (α : Type) where
  items : List α
  nodup : items.Nodup

structure Payloads where
  Json : Type
  Server : Type
  Upstream : Type
  Link : Type
  Telemetry : Type
  Cache : Type
  Protected : Type
  AddField : Type
  Modify : Type
  Omit : Type
  Discriminate : Type
  Resolver : Type
  Directive : Type

def plain : Payloads :=
  ⟨Unit, Unit, Unit, Unit, Unit, Unit, Unit, Unit, Unit, Unit, Unit, Unit, Unit⟩

structure Alias where
  options : Finset String
  deriving DecidableEq

structure Variant where
  name : String
  aliases : Option Alias
  deriving DecidableEq

structure Enum where
  variants : Distinct Variant
  doc : Option String

structure Union where
  types : Distinct String
  doc : Option String

structure RootSchema where
  query : Option String
  mutation : Option String
  subscription : Option String

structure Arg (P : Payloads) where
  typeOf : WrappingType
  doc : Option String
  modify : Option P.Modify
  defaultValue : Option P.Json

structure Field (P : Payloads) where
  typeOf : WrappingType
  args : Dict (Arg P)
  doc : Option String
  modify : Option P.Modify
  omission : Option P.Omit
  cache : Option P.Cache
  defaultValue : Option P.Json
  protectedBy : Option P.Protected
  discriminate : Option P.Discriminate
  resolvers : List P.Resolver
  directives : List P.Directive

structure TypeDef (P : Payloads) where
  fields : Dict (Field P)
  addedFields : List P.AddField
  doc : Option String
  implements : Distinct String
  cache : Option P.Cache
  protectedBy : Option P.Protected
  resolvers : List P.Resolver
  directives : List P.Directive

def TypeDef.scalar {P : Payloads} (type : TypeDef P) : Bool :=
  type.fields.entries.isEmpty

end Gqlforge.Config

namespace Gqlforge

open Config Schema

structure Config (P : Payloads) where
  server : P.Server
  upstream : P.Upstream
  schema : RootSchema
  types : Dict (TypeDef P)
  unions : Dict Union
  enums : Dict Enum
  links : List P.Link
  telemetry : P.Telemetry

namespace Config

variable {P : Payloads} (config : Config P)

def findType (name : String) : Option (TypeDef P) := config.types.get? name

def findUnion (name : String) : Option Union := config.unions.get? name

def findEnum (name : String) : Option Enum := config.enums.get? name

def isScalar (typeName : String) : Bool :=
  match config.types.get? typeName with
  | some type => type.scalar
  | none => Scalar.isPredefined typeName

def contains (name : String) : Bool :=
  config.types.contains name || config.unions.contains name || config.enums.contains name

def arguments : List (String × Arg P) :=
  config.types.values.flatMap fun type => type.fields.entries.flatMap fun field => field.2.args.entries

end Config

end Gqlforge
