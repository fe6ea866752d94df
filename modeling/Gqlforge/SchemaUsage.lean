import Gqlforge.Config
import Gqlforge.GuardedSearch
import Mathlib.Data.String.Basic

namespace Gqlforge

open Config GuardedSearch

section Sorting

instance names_trans : IsTrans String fun name name' => name ≤ name' := inferInstance

instance names_antisymm : Std.Antisymm fun name name' : String => name ≤ name' := inferInstance

instance names_total : Std.Total fun name name' : String => name ≤ name' := inferInstance

end Sorting

namespace Config

variable {P : Payloads} (config : Config P)

def findConnections : ℕ → String → Finset String → Option (Finset String)
  | 0, _, _ => none
  | fuel + 1, typeOf, types =>
    match config.findUnion typeOf with
    | some union =>
      union.types.items.foldlM (fun types type => findConnections fuel type types) (insert typeOf types)
    | none =>
      match config.findType typeOf with
      | some type =>
        type.fields.values.foldlM
          (fun types field =>
            if field.typeOf.name ∉ types ∧ config.isScalar field.typeOf.name = false then
              findConnections fuel field.typeOf.name types
            else some types)
          (insert typeOf types)
      | none =>
        match config.findEnum typeOf with
        | some _ => some (insert typeOf types)
        | none => some types

def inputRoots : List String :=
  (config.arguments.filter fun arg => !config.isScalar arg.2.typeOf.name).map fun arg => arg.2.typeOf.name

def outputRoots : List String :=
  config.schema.query.toList ++ config.schema.mutation.toList ++ config.schema.subscription.toList

def inputTypes (fuel : ℕ) : Option (Finset String) :=
  config.inputRoots.foldlM (fun types typeOf => config.findConnections fuel typeOf types) ∅

def outputTypes (fuel : ℕ) : Option (Finset String) := do
  let types : Finset String := ∅
  let types ← match config.schema.query with
    | some query => config.findConnections fuel query types
    | none => some types
  let types ← match config.schema.mutation with
    | some mutation => config.findConnections fuel mutation types
    | none => some types
  match config.schema.subscription with
    | some subscription => config.findConnections fuel subscription types
    | none => some types

end Config

namespace SchemaUsage

abbrev InterfaceTypes := Dict (List String)

def addType (interfacesTypes : InterfaceTypes) (typeName implementName : String) : InterfaceTypes :=
  interfacesTypes.insert implementName (((interfacesTypes.get? implementName).getD []).insert typeName)

def interfacesTypes {P : Payloads} (config : Config P) : InterfaceTypes :=
  config.types.entries.foldl
    (fun interfaces entry => entry.2.implements.items.foldl (addType · entry.1) interfaces) Dict.empty

abbrev TypesMap := Dict (Finset String)

def mergeType (interfacesTypes : InterfaceTypes)
    (merging : List String → TypesMap → Option (Finset String × TypesMap)) (typeName : String)
    (state : Finset String × TypesMap) : Option (Finset String × TypesMap) :=
  match interfacesTypes.get? typeName, state.2.get? typeName with
  | some typesSetInner, none =>
    (merging typesSetInner state.2).map fun (typesSetInner, temp) =>
      (state.1 ∪ typesSetInner, temp.insert typeName typesSetInner)
  | some _, some typesSetInner => some (state.1 ∪ typesSetInner, state.2)
  | none, _ => some (insert typeName state.1, state.2)

def recursiveInterfaceTypeMerging (interfacesTypes : InterfaceTypes) :
    ℕ → List String → TypesMap → Option (Finset String × TypesMap)
  | 0, _, _ => none
  | fuel + 1, typesSet, temp =>
    visitAll (mergeType interfacesTypes (recursiveInterfaceTypeMerging interfacesTypes fuel)) typesSet (∅, temp)

def mapInterface (interfacesTypes : InterfaceTypes) (fuel : ℕ) (entry : String × List String)
    (state : TypesMap × TypesMap) : Option (TypesMap × TypesMap) :=
  (recursiveInterfaceTypeMerging interfacesTypes fuel entry.2 state.2).map fun (typesSet, temp) =>
    (state.1.insert entry.1 typesSet, temp)

def interfacesTypesMap {P : Payloads} (config : Config P) (fuel : ℕ) : Option TypesMap :=
  (visitAll (mapInterface (interfacesTypes config) fuel) (interfacesTypes config).entries
    (Dict.empty, Dict.empty)).map Prod.fst

structure Cache (P : Payloads) where
  config : Config P
  inputTypes : Finset String
  outputTypes : Finset String
  interfacesTypesMap : TypesMap

def cacheFrom {P : Payloads} (fuel : ℕ) (value : Config P) : Option (Cache P) := do
  let inputTypes ← value.inputTypes fuel
  let outputTypes ← value.outputTypes fuel
  let interfacesTypesMap ← interfacesTypesMap value fuel
  some ⟨value, inputTypes, outputTypes, interfacesTypesMap⟩

section Search

variable {P : Payloads} (config : Config P)

def node (typeName : String) : Node String :=
  match config.findUnion typeName with
  | some union => .branch union.types.items
  | none =>
    match config.findType typeName with
    | some type => .guarded (type.fields.values.map fun field => field.typeOf.name)
    | none => if (config.findEnum typeName).isSome then .leaf else .missing

theorem findConnections_eq (fuel : ℕ) : config.findConnections fuel = search (node config) config.isScalar fuel := by
  induction fuel with
  | zero => rfl
  | succ fuel ih =>
    funext typeOf types
    rw [Config.findConnections, search, node, ih]
    cases config.findUnion typeOf with
    | some union => rfl
    | none =>
      cases config.findType typeOf with
      | some type =>
        simp only [visitAll, List.foldlM_map]
        congr 1
        funext seen field
        rw [unlessSeen]
        by_cases hs : field.typeOf.name ∈ seen <;> cases config.isScalar field.typeOf.name <;> simp [hs]
      | none =>
        cases config.findEnum typeOf <;> rfl

theorem inputTypes_eq (fuel : ℕ) :
    config.inputTypes fuel = visitAll (search (node config) config.isScalar fuel) config.inputRoots ∅ := by
  rw [Config.inputTypes, findConnections_eq]
  rfl

theorem outputTypes_eq (fuel : ℕ) :
    config.outputTypes fuel = visitAll (search (node config) config.isScalar fuel) config.outputRoots ∅ := by
  rw [Config.outputTypes, findConnections_eq, Config.outputRoots]
  cases config.schema.query <;> cases config.schema.mutation <;> cases config.schema.subscription <;>
    simp [visitAll]

end Search

end SchemaUsage

end Gqlforge
