import Gqlforge.CompileCalls

namespace Gqlforge.CompileTermination

open Resolvers Schema Config Validation FieldCompiler CompileCalls
open Relation

variable {P : Payloads} {B : Backends} (C : Compiler P B) (module : Module P B)

section Starts

def compiledTypes : List (TypeDef (withResolvers P B)) :=
  module.config.types.values.filter fun type => !type.scalar

def addedNodes (typeOf : TypeDef (withResolvers P B)) (added : P.AddField) : List (Node C) :=
  match (C.addField added).path with
  | [] => []
  | first :: _ =>
    match typeOf.fields.get? first with
    | some sourceField => fieldNodes C sourceField
    | none => []

def typeNodes (typeOf : TypeDef (withResolvers P B)) : List (Node C) :=
  (typeOf.fields.values.filter fun field => !isOmitted C field).flatMap (fieldNodes C) ++
    typeOf.addedFields.flatMap (addedNodes C typeOf)

def definitionNodes : List (Node C) :=
  (compiledTypes module).flatMap (typeNodes C)

def PathsGiven : Prop :=
  ∀ type ∈ compiledTypes module, ∀ added ∈ type.addedFields, (C.addField added).path ≠ []

mutual

def entityNodes : List (String × Resolver P.Json B) → List (Node C)
  | [] => []
  | (typeName, resolver) :: rest => entityNode typeName resolver ++ entityNodes rest

def entityNode (typeName : String) (resolver : Resolver P.Json B) : List (Node C) :=
  match resolver with
  | .entityResolver resolverByType => entityNodes resolverByType
  | .service => []
  | resolver => [.resolver (fakeField typeName) resolver]

end

def federationNodes : List (Node C) :=
  if C.enableFederation module.config.server then
    module.config.types.values.flatMap fun type => type.fields.values.flatMap fun field =>
      field.resolvers.flatMap fun
        | .entityResolver resolverByType => entityNodes C resolverByType
        | _ => []
  else []

end Starts

section Definitions

abbrev NodeReturns (fuel : ℕ) (node : Node C) : Prop :=
  Returns C module .query "" fuel node

theorem returns_iff_nodeReturns (operationType : OperationType) (objectName : String) (fuel : ℕ) (node : Node C) :
    Returns C module operationType objectName fuel node ↔ NodeReturns C module fuel node :=
  (returns_unfolds C module operationType objectName).unique (returns_unfolds C module .query "") fuel node

theorem field_isSome (fuel : ℕ) (operationType : OperationType) (objectName : String)
    (field : Config.Field (withResolvers P B)) (typeOf : TypeDef (withResolvers P B)) (name : String) :
    (toFieldDefinition C module objectName (compileResolver C module operationType objectName fuel) field typeOf
      name).isSome = true ↔ ∀ node ∈ fieldNodes C field, NodeReturns C module fuel node := by
  rw [toFieldDefinition_isSome, fieldNodes, List.forall_mem_map]
  simp only [← returns_iff_nodeReturns C module operationType objectName, Returns]

theorem toAddedField_isSome (fuel : ℕ) (objectName : String) (typeOf : TypeDef (withResolvers P B))
    (added : P.AddField) :
    (toAddedField C module fuel objectName typeOf added).isSome = true ↔
      (C.addField added).path ≠ [] ∧ ∀ node ∈ addedNodes C typeOf added, NodeReturns C module fuel node := by
  rw [toAddedField, addedNodes]
  cases (C.addField added).path with
  | nil => simp
  | cons first rest =>
    dsimp only
    cases typeOf.fields.get? first with
    | none => simp
    | some sourceField =>
      rw [Option.isSome_map, field_isSome]
      simp

theorem toFields_isSome (fuel : ℕ) (objectName : String) (typeOf : TypeDef (withResolvers P B)) :
    (toFields C module fuel objectName typeOf).isSome = true ↔
      (∀ added ∈ typeOf.addedFields, (C.addField added).path ≠ []) ∧
        ∀ node ∈ typeNodes C typeOf, NodeReturns C module fuel node := by
  have hfields : (Validation.sequence ((typeOf.fields.entries.filter fun field => !isOmitted C field.2).map
      (toField C module fuel objectName typeOf))).isSome = true ↔
        ∀ node ∈ (typeOf.fields.values.filter fun field => !isOmitted C field).flatMap (fieldNodes C),
          NodeReturns C module fuel node := by
    simp only [sequence_map_isSome, toField, Option.isSome_map, field_isSome, List.mem_filter,
      List.mem_flatMap, Dict.values, List.mem_map, forall_exists_index, and_imp]
    constructor
    · rintro h node field entry he rfl ho hn
      exact h entry he ho node hn
    · exact fun h entry he ho node hn => h node entry.2 entry he rfl ho hn
  have hadded : (Validation.sequence (typeOf.addedFields.map (toAddedField C module fuel objectName typeOf))).isSome = true ↔
      (∀ added ∈ typeOf.addedFields, (C.addField added).path ≠ []) ∧
        ∀ node ∈ typeOf.addedFields.flatMap (addedNodes C typeOf), NodeReturns C module fuel node := by
    simp only [sequence_map_isSome, toAddedField_isSome, List.mem_flatMap, forall_exists_index, and_imp]
    constructor
    · exact fun h => ⟨fun added ha => (h added ha).1, fun node added ha hn => (h added ha).2 node hn⟩
    · exact fun h added ha => ⟨h.1 added ha, fun node hn => h.2 node added ha hn⟩
  rw [toFields, typeNodes, List.forall_mem_append, ← hfields, and_left_comm, ← hadded]
  cases Validation.sequence ((typeOf.fields.entries.filter fun field => !isOmitted C field.2).map
    (toField C module fuel objectName typeOf)) <;> simp

theorem toDefinitions_isSome (fuel : ℕ) :
    (toDefinitions C module fuel).isSome = true ↔
      PathsGiven C module ∧ ∀ node ∈ definitionNodes C module, NodeReturns C module fuel node := by
  simp only [toDefinitions, Option.isSome_map, sequence_map_isSome, toDefinition, PathsGiven, definitionNodes,
    List.mem_flatMap, compiledTypes, List.mem_filter, Dict.values, List.mem_map, Bool.not_eq_true',
    forall_exists_index, and_imp]
  constructor
  · intro h
    have hall (entry : String × TypeDef (withResolvers P B)) (he : entry ∈ module.config.types.entries)
        (hs : entry.2.scalar = false) := (toFields_isSome C module fuel entry.1 entry.2).mp (by
          simpa [hs] using h entry he)
    constructor
    · rintro type entry he rfl hs
      exact (hall entry he hs).1
    · rintro node type entry he rfl hs hn
      exact (hall entry he hs).2 node hn
  · intro h entry he
    cases hs : entry.2.scalar with
    | true => simp
    | false =>
      simp only [Bool.false_eq_true, ↓reduceIte, Option.isSome_map, toFields_isSome]
      exact ⟨h.1 entry.2 entry he rfl hs, fun node hn => h.2 node entry.2 entry he rfl hs hn⟩

end Definitions

section Federation

mutual

theorem compileEntityResolver_isSome (fuel : ℕ) (resolverByType : List (String × Resolver P.Json B)) :
    (compileEntityResolver C module fuel resolverByType).isSome = true ↔
      ∀ node ∈ entityNodes C resolverByType, NodeReturns C module fuel node := by
  cases resolverByType with
  | nil => simp [compileEntityResolver, entityNodes]
  | cons entry rest =>
    obtain ⟨typeName, resolver⟩ := entry
    rw [compileEntityResolver, entityNodes, List.forall_mem_append, ← compileEntity_isSome fuel typeName resolver,
      ← compileEntityResolver_isSome fuel rest]
    cases compileEntity C module fuel typeName resolver <;> simp

theorem compileEntity_isSome (fuel : ℕ) (typeName : String) (resolver : Resolver P.Json B) :
    (compileEntity C module fuel typeName resolver).isSome = true ↔
      ∀ node ∈ entityNode C typeName resolver, NodeReturns C module fuel node := by
  have hcompile (resolver : Resolver P.Json B) :
      ((compileResolver C module .query typeName fuel (fakeField typeName) resolver).isSome = true) ↔
        ∀ node ∈ [Node.resolver (C := C) (fakeField typeName) resolver], NodeReturns C module fuel node := by
    rw [List.forall_mem_singleton, ← returns_iff_nodeReturns C module .query typeName]
    rfl
  cases resolver with
  | entityResolver resolverByType =>
    rw [compileEntity, entityNode, Option.isSome_map]
    exact compileEntityResolver_isSome fuel resolverByType
  | service => simp [compileEntity, entityNode]
  | call call => simp only [compileEntity, entityNode, Option.isSome_map, hcompile]
  | grpc batchKey grpc => simp only [compileEntity, entityNode, Option.isSome_map, hcompile]
  | expr expr => simp only [compileEntity, entityNode, Option.isSome_map, hcompile]
  | other directive => simp only [compileEntity, entityNode, Option.isSome_map, hcompile]

end

theorem federationField_isSome (fuel : ℕ) (sdl : String) (configType : TypeDef (withResolvers P B))
    (bField : FieldDefinition) (hf : C.enableFederation module.config.server = true)
    (ht : configType ∈ module.config.types.values)
    (h : ∀ node ∈ federationNodes C module, NodeReturns C module fuel node) :
    (federationField C module fuel sdl configType bField).isSome = true := by
  rw [federationField]
  cases hg : configType.fields.get? bField.name with
  | none => rfl
  | some field =>
    dsimp only
    cases hr : field.resolvers.find? isFederation with
    | none => rfl
    | some resolver =>
      cases resolver with
      | entityResolver resolverByType =>
        rw [Option.isSome_map, compileEntityResolver_isSome]
        intro node hn
        refine h node ?_
        rw [federationNodes, if_pos hf]
        refine List.mem_flatMap.mpr ⟨configType, ht, List.mem_flatMap.mpr ⟨field, ?_, ?_⟩⟩
        · exact (Dict.mem_values_iff _ _).mpr ⟨_, hg⟩
        · exact List.mem_flatMap.mpr ⟨_, List.mem_of_find?_eq_some hr, hn⟩
      | service => rfl
      | call call => rfl
      | grpc batchKey grpc => rfl
      | expr expr => rfl
      | other directive => rfl

theorem federationDefinition_isSome (fuel : ℕ) (sdl queryName : String) (definition : Definition)
    (hf : C.enableFederation module.config.server = true)
    (h : ∀ node ∈ federationNodes C module, NodeReturns C module fuel node) :
    (federationDefinition C module fuel sdl queryName definition).isSome = true := by
  unfold federationDefinition
  by_cases hn : definitionName definition ≠ queryName
  · rw [if_pos hn]
    rfl
  · rw [if_neg hn]
    cases definition with
    | object name fields implements =>
      dsimp only
      cases ht : module.config.findType queryName with
      | none => rfl
      | some configType =>
        rw [Option.isSome_map, sequence_map_isSome]
        intro bField _
        exact federationField_isSome C module fuel sdl configType bField hf
          ((Dict.mem_values_iff _ _).mpr ⟨_, ht⟩) h
    | interface name fields implements => rfl
    | inputObject name fields => rfl
    | scalar name scalar => rfl
    | enum name enumValues => rfl
    | union name types => rfl

theorem updateFederation_isSome (fuel : ℕ) (draft : Draft B)
    (h : ∀ node ∈ federationNodes C module, NodeReturns C module fuel node) :
    (updateFederation C module fuel draft).isSome = true := by
  rw [updateFederation]
  split
  · next hf =>
    rw [Option.isSome_map, sequence_map_isSome]
    exact fun definition _ => federationDefinition_isSome C module fuel _ _ definition hf h
  · rfl

end Federation

structure Compilable : Prop where
  paths : PathsGiven C module
  definitions : Acyclic C module (definitionNodes C module)
  federation : Acyclic C module (federationNodes C module)

theorem configBlueprint_returns (h : Compilable C module) : ∃ fuel, (configBlueprint C fuel module).isSome = true := by
  have hnodes : Acyclic C module (definitionNodes C module ++ federationNodes C module) := by
    intro start hs
    rcases List.mem_append.mp hs with hd | hf
    · exact h.definitions start hd
    · exact h.federation start hf
  obtain ⟨fuel, hr⟩ := (returns_iff_acyclic C module .query "" _).mpr hnodes
  rw [List.forall_mem_append] at hr
  have hdefinitions := (toDefinitions_isSome C module fuel).mpr ⟨h.paths, hr.1⟩
  obtain ⟨definitions, hd⟩ := Option.isSome_iff_exists.mp hdefinitions
  refine ⟨fuel, ?_⟩
  rw [configBlueprint, hd, Option.bind_some]
  dsimp only
  split
  · rw [Option.isSome_map]
    exact updateFederation_isSome C module fuel _ hr.2
  · rw [Option.isSome_map]
    exact updateFederation_isSome C module fuel _ hr.2

theorem definitions_of_returns (fuel : ℕ) (h : (configBlueprint C fuel module).isSome = true) :
    PathsGiven C module ∧ Acyclic C module (definitionNodes C module) := by
  have hd : (toDefinitions C module fuel).isSome = true := by
    rw [configBlueprint] at h
    cases hd : toDefinitions C module fuel with
    | none =>
      rw [hd] at h
      cases h
    | some definitions => rfl
  obtain ⟨hpaths, hnodes⟩ := (toDefinitions_isSome C module fuel).mp hd
  exact ⟨hpaths, (returns_iff_acyclic C module .query "" _).mp ⟨fuel, hnodes⟩⟩

theorem tryFrom_returns_iff (required : Module P B) (h : C.required module = .ok required) :
    (∃ fuel result, tryFrom C fuel module = some result) ↔ ∃ fuel, (configBlueprint C fuel required).isSome = true := by
  simp only [tryFrom, h, ← Option.isSome_iff_exists, Option.isSome_map]

section SelfCalling

def bare : Backends := ⟨Unit, Unit, Unit, Unit, Unit⟩

def simple : Compiler plain bare where
  pool := ⟨0, Fin.elim0⟩
  toCamel name := name
  defaultOf _ := .null
  modifyOmits _ := false
  authId _ := none
  addField _ := ⟨"", []⟩
  enableFederation _ := false
  required := .ok
  stepArgs _ := .ok default
  grpcOperation _ := Valid.fail (.error ())
  isA _ _ _ := .ok ()
  grpcResolver _ _ _ _ := .ok default
  exprValue _ := .ok default
  toConst _ := .ok .null
  validate _ _ := .ok ()
  otherResolver _ _ _ _ := .ok default
  validateField _ _ _ := .ok ()
  finishField _ _ _ _ _ := .ok
  resolverFromPath _ _ _ _ _ := .ok
  before _ := .ok
  after _ := .ok
  serviceSdl _ := ""
  finish draft := draft
  schemaBuilder _ := .ok ()
  emptyRest := ()

def selfCall : Resolver Unit bare :=
  .call ⟨[⟨some "a", none, Dict.empty⟩]⟩

def selfCallField : Config.Field (withResolvers plain bare) :=
  { fakeField "Int" with resolvers := [selfCall] }

def queryType : TypeDef (withResolvers plain bare) where
  fields := ⟨[("a", selfCallField)], by simp⟩
  addedFields := []
  doc := none
  implements := ⟨[], List.nodup_nil⟩
  cache := none
  protectedBy := none
  resolvers := []
  directives := []

def selfCalling : Module plain bare where
  config :=
    { server := ()
      upstream := ()
      schema := ⟨some "Query", none, none⟩
      types := ⟨[("Query", queryType)], by simp⟩
      unions := Dict.empty
      enums := Dict.empty
      links := []
      telemetry := () }
  inputTypes := ∅
  outputTypes := {"Query"}
  interfacesTypesMap := Dict.empty

end SelfCalling

end Gqlforge.CompileTermination
