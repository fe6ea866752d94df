import Gqlforge.JsonSchemas

namespace Gqlforge.JsonSamples

open Json Schema Config

variable {P : Payloads}

def isValidFieldName (propertyName : String) : Bool :=
  match propertyName.toList with
  | [] => false
  | first :: rest => first.isAlpha && rest.all fun c => c.isAlpha || c.isDigit || c == '_'

def toGqlType : Output → String
  | .null => "JSON"
  | .bool _ => "Boolean"
  | .number _ => "Int"
  | .str _ => "String"
  | .array _ => "List"
  | .object _ => "Object"

def isPrimitive (value : Output) : Bool :=
  toGqlType value != "List" && toGqlType value != "Object"

def isGraphqlCompatible : Output → Bool
  | .array items => !items.isEmpty
  | .object fields => !fields.isEmpty && fields.all fun entry => isValidFieldName entry.1
  | _ => true

def fieldOf (typeOf : WrappingType) : Config.Field P where
  typeOf := typeOf
  args := .empty
  doc := none
  modify := none
  omission := none
  cache := none
  defaultValue := none
  protectedBy := none
  discriminate := none
  resolvers := []
  directives := []

def typeWith (fields : Dict (Config.Field P)) : TypeDef P where
  fields := fields
  addedFields := []
  doc := none
  implements := ⟨[], .nil⟩
  cache := none
  protectedBy := none
  resolvers := []
  directives := []

def mergeField (fields : Dict (Config.Field P)) (entry : String × Config.Field P) : Dict (Config.Field P) :=
  match fields.get? entry.1 with
  | some existingField =>
    if existingField.typeOf.name = "" ∨ existingField.typeOf.name = "Empty" ∨
        (existingField.typeOf.name = "JSON" ∧ entry.2.typeOf.name ≠ "Empty") then
      fields.insert entry.1 entry.2
    else fields
  | none => fields.insert entry.1 entry.2

def mergeFields (types : List (TypeDef P)) : TypeDef P :=
  typeWith (types.foldl (fun fields type => type.fields.entries.foldl mergeField fields) .empty)

structure Generation (P : Payloads) where
  types : Dict (TypeDef P)
  counter : ℕ

variable (namePrefix : String)

def nameOf (id : ℕ) : String := namePrefix ++ toString id

def Generation.add (generation : Generation P) (type : TypeDef P) : String × Generation P :=
  (nameOf namePrefix generation.counter,
    ⟨generation.types.insert (nameOf namePrefix generation.counter) type, generation.counter + 1⟩)

def listOf (value : Output) (typeOf : WrappingType) : WrappingType :=
  match value with
  | .array _ => .list typeOf false
  | _ => typeOf

mutual

def generateTypes : Output → Generation P → String × Generation P
  | .array items, generation => generateItems items [] generation
  | .object fields, generation =>
    if isGraphqlCompatible (.object fields) then
      let (fields, generation) := createFields fields .empty generation
      generation.add namePrefix (typeWith fields)
    else ("JSON", generation)
  | value, generation => (toGqlType value, generation)

def generateItems : List Output → List (TypeDef P) → Generation P → String × Generation P
  | [], objectTypes, generation =>
    if objectTypes.isEmpty then ("JSON", generation)
    else generation.add namePrefix (mergeFields objectTypes)
  | .object fields :: rest, objectTypes, generation =>
    if isGraphqlCompatible (.object fields) then
      let (fields, generation) := createFields fields .empty generation
      generateItems rest (objectTypes ++ [typeWith fields]) generation
    else ("JSON", generation)
  | item :: _, _, generation => generateTypes item generation

def createFields : Object Output → Dict (Config.Field P) → Generation P → Dict (Config.Field P) × Generation P
  | [], created, generation => (created, generation)
  | (property, value) :: rest, created, generation =>
    let (name, generation) :=
      if isGraphqlCompatible value then
        if isPrimitive value then (toGqlType value, generation) else generateTypes value generation
      else ("JSON", generation)
    createFields rest (created.insert property (fieldOf (listOf value (.named name false)))) generation

end

end Gqlforge.JsonSamples
