import Gqlforge.FieldCompiler
import Mathlib.Data.Set.Finite.Basic

namespace Gqlforge.CompileCalls

open Resolvers Config Validation JsonSchemas FieldCompiler FuelRecursion
open Relation

variable {P : Payloads} {B : Backends} (C : Compiler P B) (module : Module P B)

inductive Node (C : Compiler P B) where
  | resolver (field : Config.Field (withResolvers P B)) (resolver : Resolver P.Json B)
  | type (name : String)
  | message (message : Fin C.pool.size)

def stepCallees (step : Step P.Json) : List (Node C) :=
  match getFieldAndFieldName module.config step with
  | .error _ => []
  | .ok (field, _, _) =>
    if (empties field step).isEmpty then field.resolvers.map (.resolver field) else []

def operationMessages (operation : Operation C.pool.size) : List String → List (Fin C.pool.size)
  | [] => [operation.inputType, operation.outputType]
  | first :: rest =>
    operation.inputType ::
      match groupByDescriptor C operation first rest with
      | .error _ => []
      | .ok descriptor => descriptor.kind.messages

def grpcCallees (field : Config.Field (withResolvers P B)) (batchKey : List String) (grpc : B.Grpc) : List (Node C) :=
  match C.grpcOperation grpc with
  | .error _ => []
  | .ok operation =>
    .type field.typeOf.name :: field.args.values.map (fun arg => .type arg.typeOf.name) ++
      (operationMessages C operation batchKey).map .message

def exprCallees (field : Config.Field (withResolvers P B)) (expr : B.Expr) : List (Node C) :=
  match C.exprValue expr with
  | .error _ => []
  | .ok value =>
    if value.isConst then
      match C.toConst value with
      | .error _ => []
      | .ok _ => [.type field.typeOf.name]
    else []

def callees : Node C → List (Node C)
  | .resolver _ (.call call) => call.steps.flatMap (stepCallees C module)
  | .resolver field (.grpc batchKey grpc) => grpcCallees C field batchKey grpc
  | .resolver field (.expr expr) => exprCallees C field expr
  | .resolver _ (.entityResolver _) | .resolver _ .service | .resolver _ (.other _) => []
  | .type name => (schemaNames module.config name).map .type
  | .message message => (schemaMessages C.pool message).map .message

def Calls (callee caller : Node C) : Prop :=
  callee ∈ callees C module caller

section Returns

variable (operationType : OperationType) (objectName : String)

def Returns (fuel : ℕ) : Node C → Prop
  | .resolver field resolver =>
    (compileResolver C module operationType objectName fuel field resolver).isSome = true
  | .type name => (namedSchema module.config fuel name).isSome = true
  | .message message => (messageSchema C.toCamel C.pool fuel message).isSome = true

theorem toFieldDefinition_isSome
    (compile : Config.Field (withResolvers P B) → Resolver P.Json B → Option (Checked B (Option IR)))
    (field : Config.Field (withResolvers P B)) (typeOf : TypeDef (withResolvers P B)) (name : String) :
    (toFieldDefinition C module objectName compile field typeOf name).isSome = true ↔
      ∀ resolver ∈ field.resolvers, (compile field resolver).isSome = true := by
  rw [toFieldDefinition, Option.isSome_map, sequence_map_isSome]

theorem compileStep_isSome (fuel : ℕ) (step : Step P.Json) :
    (compileStep C module (toFieldDefinition C module objectName
      (compileResolver C module operationType objectName fuel)) step).isSome = true ↔
      ∀ node ∈ stepCallees C module step, Returns C module operationType objectName fuel node := by
  rw [compileStep, stepCallees]
  cases getFieldAndFieldName module.config step with
  | error e => simp
  | ok found =>
    obtain ⟨field, fieldName, typeOf⟩ := found
    dsimp only
    split
    · rw [Option.isSome_map, toFieldDefinition_isSome, List.forall_mem_map]
      rfl
    · simp

theorem validateSchema_isSome (fuel : ℕ) (fieldSchema : FieldSchema) (operation : Operation C.pool.size)
    (name : String) :
    (validateSchema C fuel fieldSchema operation name).isSome = true ↔
      ∀ message ∈ operationMessages C operation [],
        (messageSchema C.toCamel C.pool fuel message).isSome = true := by
  rw [validateSchema, operationMessages, List.forall_mem_cons, List.forall_mem_singleton]
  cases messageSchema C.toCamel C.pool fuel operation.inputType <;> simp

theorem validateGroupBy_isSome (fuel : ℕ) (fieldSchema : FieldSchema) (operation : Operation C.pool.size)
    (first : String) (rest : List String) :
    (validateGroupBy C fuel fieldSchema operation first rest).isSome = true ↔
      ∀ message ∈ operationMessages C operation (first :: rest),
        (messageSchema C.toCamel C.pool fuel message).isSome = true := by
  rw [validateGroupBy, operationMessages, List.forall_mem_cons]
  cases groupByDescriptor C operation first rest with
  | error e => cases messageSchema C.toCamel C.pool fuel operation.inputType <;> simp
  | ok descriptor =>
    dsimp only
    rw [← fieldSchema_isSome C.pool]
    cases JsonSchemas.fieldSchema C.pool (messageSchema C.toCamel C.pool fuel) descriptor <;>
      cases messageSchema C.toCamel C.pool fuel operation.inputType <;> simp

theorem jsonSchemaFromField_isSome (fuel : ℕ) (field : Config.Field (withResolvers P B)) :
    (jsonSchemaFromField module fuel field).isSome = true ↔
      (namedSchema module.config fuel field.typeOf.name).isSome = true ∧
        ∀ arg ∈ field.args.values, (namedSchema module.config fuel arg.typeOf.name).isSome = true := by
  rw [jsonSchemaFromField, ← toJsonSchema_isSome, ← toJsonSchemaForArgs_isSome]
  cases toJsonSchema module.config fuel field.typeOf <;> simp

theorem compileGrpc_isSome (fuel : ℕ) (field : Config.Field (withResolvers P B)) (batchKey : List String)
    (grpc : B.Grpc) :
    (compileGrpc C module fuel operationType field batchKey grpc).isSome = true ↔
      ∀ node ∈ grpcCallees C field batchKey grpc, Returns C module operationType objectName fuel node := by
  rw [compileGrpc, grpcCallees]
  cases C.grpcOperation grpc with
  | error e => simp
  | ok operation =>
    have hvalid (fieldSchema : FieldSchema) :
        (validateOperation C fuel fieldSchema operation field.typeOf.name batchKey).isSome = true ↔
          ∀ message ∈ operationMessages C operation batchKey,
            (messageSchema C.toCamel C.pool fuel message).isSome = true := by
      cases batchKey with
      | nil => exact validateSchema_isSome C fuel fieldSchema operation _
      | cons first rest => exact validateGroupBy_isSome C fuel fieldSchema operation first rest
    have hfield := jsonSchemaFromField_isSome module fuel field
    simp only [List.cons_append, List.forall_mem_cons, List.forall_mem_append, List.forall_mem_map, Returns,
      ← and_assoc]
    rw [← hfield]
    cases jsonSchemaFromField module fuel field with
    | none => simp
    | some fieldSchema =>
      rw [Option.bind_some, Option.isSome_map, hvalid fieldSchema]
      simp

theorem compileExpr_isSome (fuel : ℕ) (field : Config.Field (withResolvers P B)) (expr : B.Expr) :
    (compileExpr C module fuel field expr).isSome = true ↔
      ∀ node ∈ exprCallees C field expr, Returns C module operationType objectName fuel node := by
  rw [compileExpr, exprCallees]
  cases C.exprValue expr with
  | error e => simp
  | ok value =>
    dsimp only
    split
    · cases C.toConst value with
      | error e => simp
      | ok gql => simp [Returns, toJsonSchema_isSome]
    · simp

theorem returns_unfolds :
    Unfolds (callees C module) (Returns C module operationType objectName) where
  zero node := by cases node <;> simp [Returns, compileResolver, namedSchema, messageSchema]
  succ fuel node := by
    cases node with
    | resolver field resolver =>
      cases resolver with
      | call call =>
        simp only [Returns, compileResolver, callees, compileCall, Option.isSome_map, sequence_map_isSome,
          compileStep_isSome, List.mem_flatMap, forall_exists_index, and_imp]
        exact ⟨fun h node step hs hn => h step hs node hn, fun h step hs node hn => h node step hs hn⟩
      | grpc batchKey grpc =>
        rw [Returns, compileResolver, Option.isSome_map]
        exact compileGrpc_isSome C module operationType objectName fuel field batchKey grpc
      | expr expr =>
        rw [Returns, compileResolver, Option.isSome_map]
        exact compileExpr_isSome C module operationType objectName fuel field expr
      | entityResolver resolverByType => simp [Returns, compileResolver, callees]
      | service => simp [Returns, compileResolver, callees]
      | other directive => simp [Returns, compileResolver, callees]
    | type name =>
      simp only [Returns, callees, List.forall_mem_map]
      exact namedSchema_isSome module.config fuel name
    | message message =>
      simp only [Returns, callees, List.forall_mem_map]
      exact messageSchema_isSome C.toCamel C.pool fuel message

end Returns

def Acyclic (starts : List (Node C)) : Prop :=
  ∀ start ∈ starts, ∀ node, ReflTransGen (Calls C module) node start → ¬ TransGen (Calls C module) node node

def fieldNodes (field : Config.Field (withResolvers P B)) : List (Node C) :=
  field.resolvers.map (.resolver field)

def targets : List (Node C) :=
  (module.config.types.values.flatMap fun type => type.fields.values.flatMap (fieldNodes C)) ++
    module.config.types.keys.map .type ++ (List.finRange C.pool.size).map .message

def size : Node C → ℕ
  | .type name => if module.config.types.contains name then 1 else 0
  | .resolver _ _ | .message _ => 1

theorem message_mem_targets (message : Fin C.pool.size) : .message message ∈ targets C module := by
  simp [targets]

theorem type_mem_targets (name : String) (h : module.config.types.contains name = true) :
    .type name ∈ targets C module := by
  rw [Dict.contains_iff] at h
  simp [targets, h]

theorem stepCallees_mem (step : Step P.Json) (node : Node C) (h : node ∈ stepCallees C module step) :
    node ∈ targets C module := by
  rw [stepCallees] at h
  cases hf : getFieldAndFieldName module.config step with
  | error e =>
    rw [hf] at h
    exact absurd h List.not_mem_nil
  | ok found =>
    obtain ⟨field, fieldName, typeOf⟩ := found
    rw [hf] at h
    dsimp only at h
    split at h
    · have hdeclared : ∃ type ∈ module.config.types.values, field ∈ type.fields.values := by
        rw [getFieldAndFieldName] at hf
        cases ht : getTypeAndField step with
        | none =>
          rw [ht] at hf
          cases hf
        | some names =>
          obtain ⟨typeName, name⟩ := names
          rw [ht] at hf
          simp only [Valid.fromOption, Valid.andThen, Valid.succeed] at hf
          cases hq : module.config.findType typeName with
          | none =>
            rw [hq] at hf
            cases hf
          | some type =>
            rw [hq] at hf
            obtain ⟨hfield, -⟩ := (Valid.zip_eq_ok _ _ _).mp hf
            cases hg : type.fields.get? name with
            | none =>
              rw [hg] at hfield
              cases hfield
            | some found =>
              rw [hg] at hfield
              obtain rfl := Except.ok.inj hfield
              exact ⟨type, (Dict.mem_values_iff _ _).mpr ⟨typeName, hq⟩, (Dict.mem_values_iff _ _).mpr ⟨name, hg⟩⟩
      obtain ⟨type, htype, hfield⟩ := hdeclared
      refine List.mem_append_left _ (List.mem_append_left _ ?_)
      exact List.mem_flatMap.mpr ⟨type, htype, List.mem_flatMap.mpr ⟨field, hfield, h⟩⟩
    · exact absurd h List.not_mem_nil

theorem calls_step (caller callee : Node C) (h : Calls C module callee caller) :
    (∃ target : {node // node ∈ targets C module}, callee = target.1) ∨ size C module callee < size C module caller := by
  cases callee with
  | message message => exact .inl ⟨⟨_, message_mem_targets C module message⟩, rfl⟩
  | type name =>
    by_cases hd : module.config.types.contains name = true
    · exact .inl ⟨⟨_, type_mem_targets C module name hd⟩, rfl⟩
    · refine .inr ?_
      have hcaller : size C module caller = 1 := by
        cases caller with
        | resolver field resolver => rfl
        | message message => rfl
        | type other =>
          obtain ⟨_, hn, _⟩ := List.mem_map.mp h
          rw [schemaNames] at hn
          cases ht : module.config.findType other with
          | none =>
            rw [ht] at hn
            exact absurd hn List.not_mem_nil
          | some type =>
            rw [Config.findType] at ht
            simp [size, Dict.contains, ht]
      rw [hcaller, size, if_neg hd]
      exact Nat.zero_lt_one
  | resolver field resolver =>
    refine .inl ⟨⟨_, ?_⟩, rfl⟩
    cases caller with
    | message message => simp [Calls, callees] at h
    | type name => simp [Calls, callees] at h
    | resolver callerField callerResolver =>
      cases callerResolver with
      | call call =>
        obtain ⟨step, _, hs⟩ := List.mem_flatMap.mp h
        exact stepCallees_mem C module step _ hs
      | grpc batchKey grpc =>
        rw [Calls, callees, grpcCallees] at h
        cases hg : C.grpcOperation grpc <;> simp [hg] at h
      | expr expr =>
        rw [Calls, callees, exprCallees] at h
        cases hv : C.exprValue expr with
        | error e =>
          rw [hv] at h
          exact absurd h List.not_mem_nil
        | ok value =>
          rw [hv] at h
          dsimp only at h
          split at h
          · cases hc : C.toConst value <;> simp [hc] at h
          · exact absurd h List.not_mem_nil
      | entityResolver resolverByType => exact absurd h List.not_mem_nil
      | service => exact absurd h List.not_mem_nil
      | other directive => exact absurd h List.not_mem_nil

theorem returns_iff_acyclic (operationType : OperationType) (objectName : String) (starts : List (Node C)) :
    (∃ fuel, ∀ node ∈ starts, Returns C module operationType objectName fuel node) ↔ Acyclic C module starts := by
  have hunfolds := returns_unfolds C module operationType objectName
  have : Finite {node // node ∈ targets C module} := (List.finite_toSet (targets C module)).to_subtype
  have hacc (start : Node C) : Acc (Calls C module) start ↔
      ∀ node, ReflTransGen (Calls C module) node start → ¬ TransGen (Calls C module) node node := by
    constructor
    · exact fun h node hn => not_transGen_self_of_acc node (acc_of_reflTransGen start node h hn)
    · exact fun h => (acc_iff_no_cycle (calls_step C module) start).mpr fun target ht => h target.1 ht
  constructor
  · rintro ⟨fuel, h⟩ start hs
    exact (hacc start).mp ((hunfolds.exists_iff_acc start).mp ⟨fuel, h start hs⟩)
  · intro h
    exact hunfolds.common starts fun start hs => (hunfolds.exists_iff_acc start).mpr ((hacc start).mpr (h start hs))

end Gqlforge.CompileCalls
