import Gqlforge.NameCandidates
import Gqlforge.SeparatedRoles

namespace Gqlforge.UnionInputs

open Config GuardedSearch TypeRenames

variable {P : Payloads}

inductive UnionPresence where
  | noUnion
  | union (types : List String)

def UnionPresence.types : UnionPresence → Option (List String)
  | .noUnion => none
  | .union types => some types

structure Visitor (P : Payloads) where
  newTypes : Dict (TypeDef P)
  unionPresence : Dict UnionPresence
  visitedTypes : Finset String

def Visitor.new : Visitor P := ⟨Dict.empty, Dict.empty, ∅⟩

def Visitor.unionTypes (visitor : Visitor P) (typeName : String) : Option (List String) :=
  (visitor.unionPresence.get? typeName).bind UnionPresence.types

def sortedSet (names : List String) : List String :=
  (SortedMap.ofPairs (names.map fun name => (name, ()))).entries.map Prod.fst

def withFieldType (type : TypeDef P) (fieldName unionType : String) : TypeDef P :=
  match type.fields.get? fieldName with
  | some field =>
    { type with fields := type.fields.insert fieldName { field with typeOf := field.typeOf.withName unionType } }
  | none => type

def createTypesFromUnion (typeName : String) (baseType : TypeDef P) :
    List (String × List String) → List (String × TypeDef P)
  | [] => [(typeName, baseType)]
  | (fieldName, unionTypes) :: rest =>
    unionTypes.zipIdx.flatMap fun (unionType, i) =>
      createTypesFromUnion (typeName ++ "__" ++ fieldName ++ toString i) (withFieldType baseType fieldName unionType) rest

def unionFieldsOf (unionTypes : String → Option (List String)) (type : TypeDef P) : List (String × List String) :=
  (sortedEntries type.fields).filterMap fun (fieldName, field) =>
    (unionTypes field.typeOf.name).map fun types => (fieldName, types)

def unionMembers (unionTypes : String → Option (List String)) (union : Union) : List String :=
  sortedSet ((sortedSet union.types.items).flatMap fun typeName => (unionTypes typeName).getD [typeName])

variable (config : Config P)

def collectNestedUnionsForType : ℕ → String → Visitor P → Option (Visitor P)
  | 0, _, _ => none
  | fuel + 1, typeName, visitor =>
    if visitor.unionPresence.contains typeName ∨ typeName ∈ visitor.visitedTypes then some visitor
    else
      let visitor := { visitor with visitedTypes := insert typeName visitor.visitedTypes }
      match config.unions.get? typeName with
      | some union =>
        (visitAll (collectNestedUnionsForType fuel) (sortedSet union.types.items) visitor).map fun visitor =>
          { visitor with
            unionPresence := visitor.unionPresence.insert typeName (.union (unionMembers visitor.unionTypes union)) }
      | none =>
        match config.types.get? typeName with
        | some type =>
          (visitAll (collectNestedUnionsForType fuel)
            ((sortedEntries type.fields).map fun (_, field) => field.typeOf.name) visitor).map fun visitor =>
            let unionFields := unionFieldsOf visitor.unionTypes type
            if unionFields.isEmpty then
              { visitor with unionPresence := visitor.unionPresence.insert typeName .noUnion }
            else
              let unionTypes := createTypesFromUnion typeName type unionFields
              { visitor with
                unionPresence := visitor.unionPresence.insert typeName (.union (unionTypes.map Prod.fst))
                newTypes := visitor.newTypes.extend unionTypes }
        | none => some visitor

def collectNestedUnionsForArgs (fuel : ℕ) (field : Config.Field P) (visitor : Visitor P) : Option (Visitor P) :=
  visitAll (collectNestedUnionsForType config fuel) (field.args.values.map fun arg => arg.typeOf.name) visitor

def walkArguments (unionTypes : String → Option (List String)) :
    List (String × Arg P) → String → Config.Field P → List (String × Config.Field P)
  | [], fieldName, currentField => [(fieldName, currentField)]
  | (argName, arg) :: args, fieldName, currentField =>
    match unionTypes arg.typeOf.name with
    | some types =>
      types.zipIdx.flatMap fun (type, i) =>
        let newArg := { arg with typeOf := arg.typeOf.withName type }
        walkArguments unionTypes args (fieldName ++ "Var" ++ toString i)
          { currentField with args := currentField.args.insert argName newArg }
    | none => walkArguments unionTypes args fieldName currentField

def mapArgsToFields (unionTypes : String → Option (List String)) (name : String) (field : Config.Field P) :
    List (String × Config.Field P) :=
  walkArguments unionTypes field.args.entries name field

def visitFields (fuel : ℕ) : List (String × Config.Field P) → Visitor P → Option (List (String × Config.Field P) × Visitor P)
  | [], visitor => some ([], visitor)
  | (fieldName, field) :: rest, visitor =>
    (collectNestedUnionsForArgs config fuel field visitor).bind fun visitor =>
      (visitFields fuel rest visitor).map fun (fields, last) =>
        (mapArgsToFields visitor.unionTypes fieldName field ++ fields, last)

def visitType (fuel : ℕ) (entry : String × TypeDef P) (visitor : Visitor P) : Option (Visitor P) :=
  (visitFields config fuel (sortedEntries entry.2.fields) visitor).map fun (fields, visitor) =>
    { visitor with
      newTypes := visitor.newTypes.insert entry.1 { entry.2 with fields := Dict.ofEntries fields } }

def visit (fuel : ℕ) : Option (Dict (TypeDef P)) :=
  (visitAll (visitType config fuel) (sortedEntries config.types) .new).map fun visitor => visitor.newTypes

def transform (fuel : ℕ) : Option (Config P) :=
  (visit config fuel).map fun types => { config with types := types }

end Gqlforge.UnionInputs

namespace Gqlforge.UnionInputs

open Config SchemaUsage TypeRenames Relation

variable {P : Payloads} (config : Config P)

inductive HasUnion : String → Prop where
  | union {name : String} {union : Union} (hunion : config.findUnion name = some union) : HasUnion name
  | field {name fieldName : String} {type : TypeDef P} {field : Config.Field P} (hunion : config.findUnion name = none)
      (htype : config.findType name = some type) (hfield : type.fields.get? fieldName = some field)
      (h : HasUnion field.typeOf.name) : HasUnion name

def ArgReached (name : String) : Prop :=
  ∃ arg ∈ config.arguments, ReflTransGen (Refers config) arg.2.typeOf.name name

section Variants

variable (variants : String → Option (List String))

def created (name : String) : List (String × TypeDef P) :=
  match config.findUnion name, config.findType name with
  | none, some type =>
    if (unionFieldsOf variants type).isEmpty then []
    else createTypesFromUnion name type (unionFieldsOf variants type)
  | _, _ => []

/-- The variants of a union are those of its members, a type with nested unions has one for each way to choose
variants of its fields, and other types have none. -/
structure Settled : Prop where
  plain : ∀ name, ¬ HasUnion config name → variants name = none
  nested : ∀ name, HasUnion config name → ArgReached config name →
    variants name = match config.findUnion name with
      | some union => some (unionMembers variants union)
      | none => some ((created config variants name).map Prod.fst)

def Made (typeName name : String) : Prop :=
  ArgReached config name ∧ typeName ∈ (created config variants name).map Prod.fst

def mappedFields (type : TypeDef P) : List (String × Config.Field P) :=
  (sortedEntries type.fields).flatMap fun (fieldName, field) => mapArgsToFields variants fieldName field

/-- No type with nested unions contains itself, and none has fields whose arguments have unions. The names made for
types and fields are no others'. -/
structure Expandable : Prop where
  settled : Settled config variants
  acyclic : ∀ name, ArgReached config name → HasUnion config name → ¬ TransGen (Refers config) name name
  clean : ∀ name type, ArgReached config name → HasUnion config name → config.findUnion name = none →
    config.findType name = some type → ∀ field ∈ type.fields.values, ∀ arg ∈ field.args.values,
      ¬ HasUnion config arg.typeOf.name
  own : ∀ typeName name, Made config variants typeName name → typeName ∉ AmbiguousTypes.mentions config
  apart : ∀ typeName name other, Made config variants typeName name → Made config variants typeName other →
    name = other
  distinct : ∀ name, ArgReached config name → ((created config variants name).map Prod.fst).Nodup
  fields : ∀ type ∈ config.types.values, ((mappedFields variants type).map Prod.fst).Nodup

end Variants

inductive Concrete where
  | plain (name : String)
  | object (name : String) (fields : List (String × Concrete))

mutual

inductive Choice : String → Concrete → Prop where
  | plain {name : String} (h : ¬ HasUnion config name) : Choice name (.plain name)
  | member {name member : String} {union : Union} {concrete : Concrete} (hunion : config.findUnion name = some union)
      (hmember : member ∈ union.types.items) (h : Choice member concrete) : Choice name concrete
  | object {name : String} {type : TypeDef P} {fields : List (String × Concrete)}
      (hunion : config.findUnion name = none) (htype : config.findType name = some type)
      (hnested : HasUnion config name) (hfields : Choices (sortedEntries type.fields) fields) :
      Choice name (.object name fields)

inductive Choices : List (String × Config.Field P) → List (String × Concrete) → Prop where
  | nil : Choices [] []
  | cons {fieldName : String} {field : Config.Field P} {rest : List (String × Config.Field P)} {concrete : Concrete}
      {chosen : List (String × Concrete)} (h : Choice field.typeOf.name concrete) (hrest : Choices rest chosen) :
      Choices ((fieldName, field) :: rest) ((fieldName, concrete) :: chosen)

end

section Stands

variable (variants : String → Option (List String)) (types : Dict (TypeDef P))

mutual

/-- What a type of the new config is: a type that was there before, or one made for a concrete type, with its
fields. -/
inductive Stands : String → Concrete → Prop where
  | plain {name : String} (h : ∀ other, ¬ Made config variants name other) : Stands name (.plain name)
  | object {typeName name : String} {type type' : TypeDef P} {fields : List (String × Concrete)}
      (hmade : Made config variants typeName name) (htype : config.findType name = some type)
      (htype' : types.get? typeName = some type') (hrest : type' = { type with fields := type'.fields })
      (hkeys : ∀ fieldName, type'.fields.contains fieldName = type.fields.contains fieldName)
      (hfields : StandsAll type' (sortedEntries type.fields) fields) : Stands typeName (.object name fields)

inductive StandsAll : TypeDef P → List (String × Config.Field P) → List (String × Concrete) → Prop where
  | nil {type' : TypeDef P} : StandsAll type' [] []
  | cons {type' : TypeDef P} {fieldName typeName : String} {field : Config.Field P} {rest : List (String × Config.Field P)}
      {concrete : Concrete} {chosen : List (String × Concrete)}
      (hfield : type'.fields.get? fieldName = some { field with typeOf := field.typeOf.withName typeName })
      (h : Stands typeName concrete) (hrest : StandsAll type' rest chosen) :
      StandsAll type' ((fieldName, field) :: rest) ((fieldName, concrete) :: chosen)

end

def Chooses (field : Config.Field P) (choose : String → Concrete) : Prop :=
  ∀ argName arg, field.args.get? argName = some arg → Choice config arg.typeOf.name (choose argName)

structure Picks (field : Config.Field P) (choose : String → Concrete) (field' : Config.Field P) : Prop where
  rest : field' = { field with args := field'.args }
  keys : ∀ argName, field'.args.contains argName = field.args.contains argName
  args : ∀ argName arg, field.args.get? argName = some arg → ∃ typeName,
    field'.args.get? argName = some { arg with typeOf := arg.typeOf.withName typeName } ∧
      Stands config variants types typeName (choose argName)

structure Covers (field : Config.Field P) (made : List (String × Config.Field P)) : Prop where
  sound : ∀ entry ∈ made, ∃ choose, Chooses config field choose ∧ Picks config variants types field choose entry.2
  complete : ∀ choose, Chooses config field choose →
    ∃! entry, entry ∈ made ∧ Picks config variants types field choose entry.2

end Stands

/-- No argument leads to a union any more, all types have names of their own, and the fields are those for all choices
of members. -/
structure Expanded (variants : String → Option (List String)) (result : Config P) : Prop where
  rest : result = { config with types := result.types }
  unionFree : ∀ name, AmbiguousTypes.InputReached result name → result.findUnion name = none
  types : ∀ name, result.types.contains name = true ↔
    config.types.contains name = true ∨ ∃ other, Made config variants name other
  own : ∀ name other, Made config variants name other → config.contains name = false
  fields : ∀ name type, config.types.get? name = some type → ∃ type' made,
    result.types.get? name = some type' ∧ type' = { type with fields := type'.fields } ∧
      type'.fields.entries.Perm (type.fields.keys.flatMap made) ∧
      ∀ fieldName field, type.fields.get? fieldName = some field →
        Covers config variants result.types field (made fieldName)

end Gqlforge.UnionInputs
