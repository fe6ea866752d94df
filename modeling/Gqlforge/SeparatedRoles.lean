import Gqlforge.TypeRenames
import Gqlforge.UsageExactness

namespace Gqlforge.AmbiguousTypes

open Json Schema Validation Config

variable {P : Payloads}

structure Resolution where
  input : String
  output : String

def Resolution.isUnique (resolution : Resolution) : Bool :=
  resolution.input != resolution.output

abbrev Resolver := String → Resolution

def defaultResolver : Resolver := fun v => ⟨v ++ "Input", v⟩

structure HashOrder where
  listing : Finset String → List String
  nodup : ∀ names, (listing names).Nodup
  mem_listing : ∀ names name, name ∈ listing names ↔ name ∈ names

def insertResolution (map : Dict Resolution) (currentName : String) (resolution : Resolution) : Dict Resolution :=
  if map.contains currentName then map else map.insert currentName resolution

variable (resolver : Resolver)

def insertArg (outputTypes : Finset String) (map : Dict Resolution) (arg : Arg P) : Dict Resolution :=
  if arg.typeOf.name ∈ outputTypes ∧ map.contains arg.typeOf.name = false then
    insertResolution map arg.typeOf.name (resolver arg.typeOf.name)
  else map

def argsOf (type : TypeDef P) : List (Arg P) :=
  type.fields.values.flatMap fun field => field.args.values

def resolve (config : Config P) (outputTypes : Finset String) (currentName : String) :
    Valid (Dict Resolution) String :=
  let resolution := resolver currentName
  if resolution.isUnique then
    match config.types.get? currentName with
    | some type =>
      .succeed ((argsOf type).foldl (insertArg resolver outputTypes)
        (insertResolution Dict.empty currentName resolution))
    | none => .succeed Dict.empty
  else
    (Valid.fail ("Unable to auto resolve Input: " ++ resolution.input ++ " and Output: " ++ resolution.output ++
      " are same")).trace currentName

structure Doubling (P : Payloads) where
  types : Dict (TypeDef P)
  inputTypes : Finset String
  outputTypes : Finset String

def Doubling.double (state : Doubling P) (currentName : String) (resolution : Resolution) : Doubling P :=
  let types := state.types.without [currentName]
  let inputTypes := state.inputTypes.erase currentName
  let outputTypes := state.outputTypes.erase currentName
  match state.types.get? currentName with
  | some type =>
    { types := (types.insert resolution.input type).insert resolution.output type
      inputTypes := insert resolution.input inputTypes
      outputTypes := insert resolution.output outputTypes }
  | none => ⟨types, inputTypes, outputTypes⟩

variable (resolutions : Dict Resolution)

def doubleAll (names : List String) (state : Doubling P) : Doubling P :=
  names.foldl
    (fun state name => match resolutions.get? name with
      | some resolution => state.double name resolution
      | none => state) state

def rewriteArg (arg : Arg P) : Arg P :=
  match resolutions.get? arg.typeOf.name with
  | some resolution => { arg with typeOf := arg.typeOf.withName resolution.input }
  | none => arg

def rewriteField (state : Doubling P) (name : String) (field : Config.Field P) : Config.Field P :=
  { field with
    typeOf := match resolutions.get? field.typeOf.name with
      | some resolution =>
        if name ∈ state.outputTypes then field.typeOf.withName resolution.output
        else if name ∈ state.inputTypes then field.typeOf.withName resolution.input
        else field.typeOf
      | none => field.typeOf
    args := field.args.map fun _ arg => rewriteArg resolutions arg }

def rewriteType (state : Doubling P) (name : String) (type : TypeDef P) : TypeDef P :=
  { type with fields := type.fields.map fun _ field => rewriteField resolutions state name field }

def applyResolutions (order : HashOrder) (config : Config P) (inputTypes outputTypes : Finset String) : Config P :=
  let state := doubleAll resolutions (order.listing resolutions.keys.toFinset)
    ⟨config.types, inputTypes, outputTypes⟩
  { config with types := state.types.map (rewriteType resolutions state) }

def transform (order : HashOrder) (fuel : ℕ) (config : Config P) : Option (Valid (Config P) String) := do
  let inputTypes ← config.inputTypes fuel
  let outputTypes ← config.outputTypes fuel
  some ((Valid.fromIter (order.listing (inputTypes ∩ outputTypes)) (resolve resolver config outputTypes)).mapOk
    fun maps => applyResolutions (Dict.ofEntries (maps.flatMap fun map => map.entries)) order config inputTypes
      outputTypes)

end Gqlforge.AmbiguousTypes

namespace Gqlforge.AmbiguousTypes

open Json Schema Config GuardedSearch SchemaUsage

variable {P : Payloads}

inductive PathStep where
  | field (name : String)
  | member (name : String)

/-- The path of fields and members leads from the first type to the last. Nothing leads on from a scalar. -/
inductive Leads (config : Config P) : WrappingType → List PathStep → WrappingType → Prop where
  | here (typeOf : WrappingType) : Leads config typeOf [] typeOf
  | field {typeOf last : WrappingType} {path : List PathStep} {name : String} {type : TypeDef P} {field : Config.Field P}
      (hunion : config.findUnion typeOf.name = none) (htype : config.findType typeOf.name = some type)
      (hfield : type.fields.get? name = some field) (hrest : Leads config field.typeOf path last) :
      Leads config typeOf (.field name :: path) last
  | member {typeOf last : WrappingType} {path : List PathStep} {name : String} {union : Union}
      (hscalar : config.isScalar typeOf.name = false) (hunion : config.findUnion typeOf.name = some union)
      (hmember : name ∈ union.types.items) (hrest : Leads config (.named name false) path last) :
      Leads config typeOf (.member name :: path) last

section Roles

variable (config : Config P)

def InputReached (name : String) : Prop :=
  ∃ arg ∈ config.arguments, ∃ path last, Leads config arg.2.typeOf path last ∧ last.name = name

def OutputReached (name : String) : Prop :=
  ∃ root ∈ config.outputRoots, ∃ path last, Leads config (.named root false) path last ∧ last.name = name

def IsObject (name : String) : Prop :=
  config.findUnion name = none ∧ ∃ type, config.findType name = some type ∧ type.scalar = false

end Roles

def SameArg (arg arg' : Arg P) : Prop :=
  arg' = { arg with typeOf := arg.typeOf.withName arg'.typeOf.name }

structure SameField (field field' : Config.Field P) : Prop where
  typeOf : field'.typeOf = field.typeOf.withName field'.typeOf.name
  args : Dict.Renamed id SameArg field.args field'.args
  rest : field' = { field with typeOf := field'.typeOf, args := field'.args }

structure SameType (type type' : TypeDef P) : Prop where
  fields : Dict.Renamed id SameField type.fields type'.fields
  rest : type' = { type with fields := type'.fields }

structure Alike (config config' : Config P) (typeOf typeOf' : WrappingType) : Prop where
  wrapped : typeOf' = typeOf.withName typeOf'.name
  type : ∀ type, config.findType typeOf.name = some type →
    ∃ type', config'.findType typeOf'.name = some type' ∧ SameType type type'
  leaf : ¬ IsObject config typeOf.name → typeOf'.name = typeOf.name

/-- No object type of the second config is both an input and an output, each type of the first has one of its own
there, and all paths of the first lead in it to the same. -/
structure Separated (place : String → String) (config config' : Config P) : Prop where
  apart : ∀ name, IsObject config' name → ¬ (InputReached config' name ∧ OutputReached config' name)
  own : ∀ name other, config.types.contains name = true → config.types.contains other = true →
    place name = place other → name = other
  kept : ∀ name type, config.types.get? name = some type →
    ∃ type', config'.types.get? (place name) = some type' ∧ SameType type type'
  arguments : ∀ typeName type fieldName field argName arg, config.types.get? typeName = some type →
    type.fields.get? fieldName = some field → field.args.get? argName = some arg →
      ∃ type' field' arg', config'.types.get? (place typeName) = some type' ∧
        type'.fields.get? fieldName = some field' ∧ field'.args.get? argName = some arg' ∧
        ∀ path last, Leads config arg.typeOf path last →
          ∃ last', Leads config' arg'.typeOf path last' ∧ Alike config config' last last'
  outputs : config'.schema = config.schema ∧ ∀ root ∈ config.outputRoots, ∀ path last,
    Leads config (.named root false) path last →
      ∃ last', Leads config' (.named root false) path last' ∧ Alike config config' last last'

inductive Side where
  | input
  | output

def Resolution.on (resolution : Resolution) : Side → String
  | .input => resolution.input
  | .output => resolution.output

section Conditions

variable (resolver : Resolver) (config : Config P)

def rootsOf : Side → List String
  | .input => config.inputRoots
  | .output => config.outputRoots

def Found (side : Side) (name : String) : Prop :=
  config.contains name = true ∧ Reached (node config) config.isScalar (rootsOf config side) name

def Ambiguous (name : String) : Prop :=
  Found config .input name ∧ Found config .output name

def mentions : List String :=
  config.types.keys ++ config.unions.keys ++ config.enums.keys ++ config.outputRoots ++
    (config.types.values.flatMap fun type => type.fields.values.map fun field => field.typeOf.name) ++
    (config.arguments.map fun arg => arg.2.typeOf.name) ++
    config.unions.values.flatMap fun union => union.types.items

structure Splittable : Prop where
  acyclic : ∀ side name, Found config side name → ¬ Relation.TransGen (UnionMember config) name name
  unique : ∀ name, Ambiguous config name → (resolver name).isUnique = true
  objects : ∀ name, Ambiguous config name → config.types.contains name = true → IsObject config name
  args : ∀ name type, Ambiguous config name → config.types.get? name = some type → ∀ arg ∈ argsOf type,
    Found config .output arg.typeOf.name → IsObject config arg.typeOf.name
  free : ∀ name, Ambiguous config name → config.types.contains name = true → ∀ side,
    (resolver name).on side ∈ mentions config → (resolver name).on side = name
  apart : ∀ name other, Ambiguous config name → config.types.contains name = true → Ambiguous config other →
    config.types.contains other = true → ∀ side side', (resolver name).on side = (resolver other).on side' →
      name = other
  roots : ∀ root ∈ config.outputRoots, Ambiguous config root → config.types.contains root = true →
    (resolver root).output = root
  members : ∀ side name union, Found config side name → config.findUnion name = some union →
    ∀ member ∈ union.types.items, Ambiguous config member → config.types.contains member = true →
      (resolver member).on side = member

end Conditions

end Gqlforge.AmbiguousTypes
