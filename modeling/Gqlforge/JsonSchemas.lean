import Gqlforge.Config
import Gqlforge.Validation

namespace Gqlforge.JsonSchemas

open Config Schema Validation

inductive JsonSchema where
  | obj (fields : List (String × JsonSchema))
  | arr (schema : JsonSchema)
  | opt (schema : JsonSchema)
  | enum (values : List String)
  | str
  | num
  | bool
  | empty
  | any
  deriving Inhabited

def fromScalarType (typeName : String) : JsonSchema :=
  match typeName with
  | "String" => .str
  | "Int" => .num
  | "Boolean" => .bool
  | "Empty" => .empty
  | _ => .any

section Types

variable {P : Payloads}

def wrap (named : JsonSchema) : WrappingType → JsonSchema
  | .named _ nonNull => if nonNull then named else .opt named
  | .list ofType nonNull => if nonNull then .arr (wrap named ofType) else .opt (.arr (wrap named ofType))

def plainFields (type : TypeDef P) : List (String × Config.Field P) :=
  type.fields.entries.filter fun field => field.2.resolvers.isEmpty

def namedSchema (config : Config P) : ℕ → String → Option JsonSchema
  | 0, _ => none
  | fuel + 1, name =>
    match config.findType name, config.findEnum name with
    | some type, _ =>
      (Validation.sequence ((plainFields type).map fun field =>
        (namedSchema config fuel field.2.typeOf.name).map fun schema =>
          (field.1, wrap schema field.2.typeOf))).map .obj
    | none, some enum => some (.enum (enum.variants.items.map Variant.name))
    | none, none => some (fromScalarType name)

def toJsonSchema (config : Config P) (fuel : ℕ) (typeOf : WrappingType) : Option JsonSchema :=
  (namedSchema config fuel typeOf.name).map fun schema => wrap schema typeOf

def toJsonSchemaForArgs (config : Config P) (fuel : ℕ) (args : Dict (Arg P)) : Option JsonSchema :=
  (Validation.sequence (args.entries.map fun arg =>
    (toJsonSchema config fuel arg.2.typeOf).map fun schema => (arg.1, schema))).map .obj

def schemaNames (config : Config P) (name : String) : List String :=
  match config.findType name with
  | some type => (plainFields type).map fun field => field.2.typeOf.name
  | none => []

theorem namedSchema_isSome (config : Config P) (fuel : ℕ) (name : String) :
    (namedSchema config (fuel + 1) name).isSome = true ↔
      ∀ other ∈ schemaNames config name, (namedSchema config fuel other).isSome = true := by
  rw [namedSchema, schemaNames]
  cases config.findType name with
  | some type => simp only [Option.isSome_map, sequence_map_isSome, List.forall_mem_map]
  | none => cases config.findEnum name <;> simp

theorem toJsonSchema_isSome (config : Config P) (fuel : ℕ) (typeOf : WrappingType) :
    (toJsonSchema config fuel typeOf).isSome = (namedSchema config fuel typeOf.name).isSome :=
  Option.isSome_map

theorem toJsonSchemaForArgs_isSome (config : Config P) (fuel : ℕ) (args : Dict (Arg P)) :
    (toJsonSchemaForArgs config fuel args).isSome = true ↔
      ∀ arg ∈ args.values, (namedSchema config fuel arg.typeOf.name).isSome = true := by
  simp only [toJsonSchemaForArgs, Option.isSome_map, sequence_map_isSome, toJsonSchema_isSome, Dict.values,
    List.forall_mem_map]

end Types

section Messages

inductive Kind (n : ℕ) where
  | double | float
  | int32 | int64 | uint32 | uint64 | sint32 | sint64
  | fixed32 | fixed64 | sfixed32 | sfixed64
  | bool | string | bytes
  | message (message : Fin n)
  | enum (values : List String)

structure FieldDescriptor (n : ℕ) where
  name : String
  jsonName : String
  kind : Kind n
  supportsPresence : Bool
  required : Bool
  isList : Bool

structure MessageDescriptor (n : ℕ) where
  isMapEntry : Bool
  fields : List (FieldDescriptor n)

structure DescriptorPool where
  size : ℕ
  messages : Fin size → MessageDescriptor size

variable (toCamel : String → String) (pool : DescriptorPool)

def wrapField (field : FieldDescriptor pool.size) (schema : JsonSchema) : JsonSchema :=
  let schema := if field.supportsPresence && !field.required then .opt schema else schema
  if field.isList then .arr schema else schema

def fieldSchema (message : Fin pool.size → Option JsonSchema) (field : FieldDescriptor pool.size) :
    Option JsonSchema :=
  let schema : Option JsonSchema := match field.kind with
    | .double | .float | .int32 | .int64 | .uint32 | .uint64 | .sint32 | .sint64
    | .fixed32 | .fixed64 | .sfixed32 | .sfixed64 => some .num
    | .bool => some .bool
    | .string | .bytes => some .str
    | .message msg => message msg
    | .enum values => some (.enum values)
  schema.map (wrapField pool field)

def messageSchema : ℕ → Fin pool.size → Option JsonSchema
  | 0, _ => none
  | fuel + 1, message =>
    if (pool.messages message).isMapEntry then some .any
    else
      (Validation.sequence ((pool.messages message).fields.map fun field =>
        (fieldSchema pool (messageSchema fuel) field).map fun schema => (toCamel field.name, schema))).map
        fun fields => if fields.isEmpty then .empty else .obj fields

def Kind.messages {n : ℕ} : Kind n → List (Fin n)
  | .message msg => [msg]
  | _ => []

def schemaMessages (message : Fin pool.size) : List (Fin pool.size) :=
  if (pool.messages message).isMapEntry then []
  else (pool.messages message).fields.flatMap fun field => field.kind.messages

theorem fieldSchema_isSome (message : Fin pool.size → Option JsonSchema) (field : FieldDescriptor pool.size) :
    (fieldSchema pool message field).isSome = true ↔ ∀ msg ∈ field.kind.messages, (message msg).isSome = true := by
  rw [fieldSchema, Option.isSome_map]
  cases field.kind <;> simp [Kind.messages]

theorem messageSchema_isSome (fuel : ℕ) (message : Fin pool.size) :
    (messageSchema toCamel pool (fuel + 1) message).isSome = true ↔
      ∀ other ∈ schemaMessages pool message, (messageSchema toCamel pool fuel other).isSome = true := by
  rw [messageSchema, schemaMessages]
  split
  · simp
  · simp only [Option.isSome_map, sequence_map_isSome, fieldSchema_isSome, List.mem_flatMap,
      forall_exists_index, and_imp]
    constructor
    · exact fun h other field hf ho => h field hf other ho
    · exact fun h field hf other ho => h other field hf ho

end Messages

end Gqlforge.JsonSchemas
