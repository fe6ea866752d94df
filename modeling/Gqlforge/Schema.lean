import Gqlforge.Resolvers

namespace Gqlforge.Schema

open Json Resolvers

inductive WrappingType where
  | named (name : String) (nonNull : Bool)
  | list (ofType : WrappingType) (nonNull : Bool)
  deriving DecidableEq, Inhabited

namespace WrappingType

def name : WrappingType → String
  | .named name _ => name
  | .list ofType _ => ofType.name

def isNullable : WrappingType → Bool
  | .named _ nonNull => !nonNull
  | .list _ nonNull => !nonNull

def isList : WrappingType → Bool
  | .named _ _ => false
  | .list _ _ => true

end WrappingType

inductive Scalar where
  | empty | email | phoneNumber | date | dateTime | url | json
  | int8 | int16 | int32 | int64 | int128
  | uint8 | uint16 | uint32 | uint64 | uint128
  | bytes
  deriving DecidableEq

namespace Scalar

def all : List Scalar :=
  [.empty, .email, .phoneNumber, .date, .dateTime, .url, .json, .int8, .int16, .int32, .int64,
    .int128, .uint8, .uint16, .uint32, .uint64, .uint128, .bytes]

def name : Scalar → String
  | .empty => "Empty"
  | .email => "Email"
  | .phoneNumber => "PhoneNumber"
  | .date => "Date"
  | .dateTime => "DateTime"
  | .url => "Url"
  | .json => "JSON"
  | .int8 => "Int8"
  | .int16 => "Int16"
  | .int32 => "Int32"
  | .int64 => "Int64"
  | .int128 => "Int128"
  | .uint8 => "UInt8"
  | .uint16 => "UInt16"
  | .uint32 => "UInt32"
  | .uint64 => "UInt64"
  | .uint128 => "UInt128"
  | .bytes => "Bytes"

def predefinedScalars : List String :=
  ["Boolean", "Float", "ID", "Int", "String"]

def find (name : String) : Option Scalar :=
  all.find? (·.name == name)

def isPredefined (typeName : String) : Bool :=
  predefinedScalars.contains typeName || (find typeName).isSome

structure Formats where
  email : String → Bool
  phoneNumber : String → Bool
  rfc3339 : String → Bool
  url : String → Bool

def digitsValue (digits : List Char) : Option Nat :=
  if digits.isEmpty ∨ ¬ digits.all Char.isDigit then none
  else some (digits.foldl (fun acc digit => acc * 10 + (digit.toNat - '0'.toNat)) 0)

def parseInt (low high : Int) (text : String) : Option Int :=
  let parsed : Option Int := match text.toList with
    | '-' :: digits => if low < 0 then (digitsValue digits).map fun n => -(n : Int) else none
    | '+' :: digits => (digitsValue digits).map fun n => (n : Int)
    | digits => (digitsValue digits).map fun n => (n : Int)
  parsed.filter fun n => decide (low ≤ n ∧ n ≤ high)

def evalStr (value : ConstValue) (check : String → Bool) : Bool :=
  value.asStr.any check

def evalInt (value : ConstValue) (low high : Int) : Bool :=
  value.asInt.any fun n => decide (low ≤ n ∧ n ≤ high)

def validate (formats : Formats) (scalar : Scalar) (value : ConstValue) : Bool :=
  match scalar with
  | .json | .empty => true
  | .email => evalStr value formats.email
  | .phoneNumber => evalStr value formats.phoneNumber
  | .date | .dateTime => evalStr value formats.rfc3339
  | .url => evalStr value formats.url
  | .bytes => value.asStr.isSome
  | .int64 => evalStr value fun s => (parseInt (-2 ^ 63) (2 ^ 63 - 1) s).isSome
  | .uint64 => evalStr value fun s => (parseInt 0 (2 ^ 64 - 1) s).isSome
  | .int128 => evalStr value fun s => (parseInt (-2 ^ 127) (2 ^ 127 - 1) s).isSome
  | .uint128 => evalStr value fun s => (parseInt 0 (2 ^ 128 - 1) s).isSome
  | .int8 => evalInt value (-2 ^ 7) (2 ^ 7 - 1)
  | .int16 => evalInt value (-2 ^ 15) (2 ^ 15 - 1)
  | .int32 => evalInt value (-2 ^ 31) (2 ^ 31 - 1)
  | .uint8 => evalInt value 0 (2 ^ 8 - 1)
  | .uint16 => evalInt value 0 (2 ^ 16 - 1)
  | .uint32 => evalInt value 0 (2 ^ 32 - 1)

end Scalar

structure InputFieldDefinition where
  name : String
  ofType : WrappingType
  defaultValue : Option ConstValue

structure FieldDefinition where
  name : String
  args : List InputFieldDefinition
  ofType : WrappingType
  resolver : Option IR
  deriving Inhabited

structure EnumValueDefinition where
  name : String
  aliases : List String

inductive Definition where
  | interface (name : String) (fields : List FieldDefinition) (implements : List String)
  | object (name : String) (fields : List FieldDefinition) (implements : List String)
  | inputObject (name : String) (fields : List InputFieldDefinition)
  | scalar (name : String) (scalar : Scalar)
  | enum (name : String) (enumValues : List EnumValueDefinition)
  | union (name : String) (types : List String)

structure SchemaDefinition where
  query : String
  mutation : Option String
  subscription : Option String

structure Blueprint where
  definitions : List Definition
  schema : SchemaDefinition

inductive QueryField where
  | field (definition : FieldDefinition) (args : Object InputFieldDefinition)
  | inputField (definition : InputFieldDefinition)

structure Index where
  map : Object (Definition × Object QueryField)
  schema : SchemaDefinition

namespace Index

def definition (index : Index) (typeName : String) : Option Definition :=
  (index.map.getKey typeName).map Prod.fst

def typeIsScalar (index : Index) (typeName : String) : Bool :=
  match index.definition typeName with
  | some (.scalar _ _) => true
  | _ => Scalar.isPredefined typeName

def typeIsEnum (index : Index) (typeName : String) : Bool :=
  match index.definition typeName with
  | some (.enum _ _) => true
  | _ => false

def validateEnumValue (index : Index) (typeName value : String) : Bool :=
  match index.definition typeName with
  | some (.enum _ enumValues) => enumValues.any fun v => v.name == value || v.aliases.contains value
  | _ => false

def getField (index : Index) (typeName fieldName : String) : Option QueryField :=
  (index.map.getKey typeName).bind fun (_, fields) => fields.getKey fieldName

def getInputTypeDefinition (index : Index) (typeName : String) : Option (List InputFieldDefinition) :=
  match index.definition typeName with
  | some (.inputObject _ fields) => some fields
  | _ => none

def getInterfaces (index : Index) : List String :=
  index.map.filterMap fun (_, definition, _) =>
    match definition with
    | .interface name _ _ => some name
    | _ => none

def isTypeImplements (index : Index) (typeName typeOrInterface : String) : Bool :=
  if typeName == typeOrInterface then true
  else match index.definition typeName with
    | some (.object _ _ implements) =>
      if implements.contains typeOrInterface then true
      else match index.definition typeOrInterface with
        | some (.union _ types) => types.contains typeName
        | _ => false
    | _ => false

end Index

def indexMap {V : Type} (entries : List (String × V)) : Object V :=
  entries.foldl (fun map (key, value) => map.insertKey key value) []

def queryFields (fields : List FieldDefinition) : Object QueryField :=
  indexMap (fields.map fun field =>
    (field.name, .field field (indexMap (field.args.map fun arg => (arg.name, arg)))))

def Definition.entry : Definition → String × (Definition × Object QueryField)
  | .object name fields implements => (name, .object name fields implements, queryFields fields)
  | .interface name fields implements => (name, .interface name fields implements, queryFields fields)
  | .inputObject name fields =>
    (name, .inputObject name fields, indexMap (fields.map fun field => (field.name, .inputField field)))
  | .scalar name kind => (name, .scalar name kind, [])
  | .enum name enumValues => (name, .enum name enumValues, [])
  | .union name types => (name, .union name types, [])

def Blueprint.index (blueprint : Blueprint) : Index where
  map := indexMap (blueprint.definitions.map Definition.entry)
  schema := blueprint.schema

end Gqlforge.Schema
