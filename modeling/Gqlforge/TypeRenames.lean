import Gqlforge.DictMoves
import Gqlforge.FromDocument

namespace Gqlforge

open Json Schema Validation

def Schema.WrappingType.withName (type : WrappingType) (name : String) : WrappingType :=
  match type with
  | .named _ nonNull => .named name nonNull
  | .list ofType nonNull => .list (ofType.withName name) nonNull

namespace TypeRenames

open Config

variable {P : Payloads}

structure Renaming (P : Payloads) where
  config : Config P
  lookup : Dict String

def renameRoots (schema : RootSchema) (existingName suggestedName : String) : RootSchema :=
  if schema.query = some existingName then { schema with query := some suggestedName }
  else if schema.mutation = some existingName then { schema with mutation := some suggestedName }
  else schema

def renameType (state : Renaming P) (existingName suggestedName : String) : Renaming P :=
  match state.config.types.get? existingName with
  | some type =>
    { config :=
        { state.config with
          types := (state.config.types.without [existingName]).insert suggestedName type
          schema := renameRoots state.config.schema existingName suggestedName }
      lookup := state.lookup.insert existingName suggestedName }
  | none => state

def renameEnum (state : Renaming P) (existingName suggestedName : String) : Renaming P :=
  match state.config.enums.get? existingName with
  | some type =>
    { config :=
        { state.config with
          enums := (state.config.enums.without [existingName]).insert suggestedName type }
      lookup := state.lookup.insert existingName suggestedName }
  | none => state

def renameUnion (state : Renaming P) (existingName suggestedName : String) : Renaming P :=
  match state.config.unions.get? existingName with
  | some type =>
    { config :=
        { state.config with
          unions := (state.config.unions.without [existingName]).insert suggestedName type }
      lookup := state.lookup.insert existingName suggestedName }
  | none => state

def renameEntry (state : Renaming P) (existingName suggestedName : String) : Renaming P × Valid Unit String :=
  if state.config.contains existingName then
    (renameUnion (renameEnum (renameType state existingName suggestedName) existingName suggestedName)
      existingName suggestedName, .succeed ())
  else (state, .fail ("Type '" ++ existingName ++ "' not found in configuration."))

def renameEntries (state : Renaming P) : Object String → Renaming P × Valid (List Unit) String
  | [] => (state, .succeed [])
  | (existingName, suggestedName) :: rest =>
    let (renamed, valid) := renameEntry state existingName suggestedName
    let (last, valids) := renameEntries renamed rest
    (last, (valid.zip valids).mapOk fun (renamed, rest) => renamed :: rest)

def replaceName (lookup : Dict String) (name : String) : String :=
  (lookup.get? name).getD name

def replaceTypeOf (lookup : Dict String) (typeOf : WrappingType) : WrappingType :=
  match lookup.get? typeOf.name with
  | some suggestedName => typeOf.withName suggestedName
  | none => typeOf

def replaceField (lookup : Dict String) (field : Config.Field P) : Config.Field P :=
  { field with
    typeOf := replaceTypeOf lookup field.typeOf
    args := field.args.map fun _ arg => { arg with typeOf := replaceTypeOf lookup arg.typeOf } }

def replaceType (lookup : Dict String) (type : TypeDef P) : TypeDef P :=
  { type with
    fields := type.fields.map fun _ field => replaceField lookup field
    implements := Distinct.collect (type.implements.items.map (replaceName lookup)) }

def replaceChanged (lookup : Dict String) (union : Union) : Union :=
  let kept := union.types.items.filter fun name => (lookup.get? name).isNone
  { union with types := Distinct.collect (kept ++ union.types.items.filterMap lookup.get?) }

def replaceMembers (lookup : Dict String) (union : Union) : Union :=
  { union with types := Distinct.collect (union.types.items.map (replaceName lookup)) }

def replaceNames (lookup : Dict String) (config : Config P) : Config P :=
  { config with
    types := config.types.map fun _ type => replaceType lookup type
    unions := (config.unions.map fun _ union => replaceChanged lookup union).map fun _ union =>
      replaceMembers lookup union }

def transform (renames : Dict String) (config : Config P) : Valid (Config P) String :=
  let (state, valid) := renameEntries ⟨config, .empty⟩ renames.entries
  valid.mapOk fun _ => replaceNames state.lookup state.config

end TypeRenames

end Gqlforge
