import Gqlforge.JsonSchemas
import Gqlforge.SchemaUsage
import Mathlib.Data.Finset.Sort

namespace Gqlforge.FieldCompiler

open Json Resolvers Templates Schema Config Validation JsonSchemas SchemaUsage

structure Step (J : Type) where
  query : Option String
  mutation : Option String
  args : Dict J

structure Call (J : Type) where
  steps : List (Step J)

structure Backends where
  Grpc : Type
  Expr : Type
  Other : Type
  Error : Type
  Rest : Type

inductive Resolver (J : Type) (B : Backends) where
  | call (call : Call J)
  | grpc (batchKey : List String) (grpc : B.Grpc)
  | expr (expr : B.Expr)
  | entityResolver (resolverByType : List (String × Resolver J B))
  | service
  | other (directive : B.Other)

abbrev withResolvers (P : Payloads) (B : Backends) : Payloads :=
  { P with Resolver := Resolver P.Json B }

inductive BlueprintError (B : Backends) where
  | argumentNotFound (names : String)
  | fieldHasNoResolver (fieldName : String)
  | stepsCanNotBeEmpty
  | resultResolverCanNotBeEmpty
  | callMustHaveQueryOrMutation
  | typeNotFoundInConfig (typeName : String)
  | fieldNotFoundInType (fieldName : String)
  | fieldNotFound (fieldName : String)
  | fieldNotFoundInPath (fieldName path : String)
  | scalarTypeIsPredefined (name : String)
  | undeclaredTypeFound (name : String)
  | noVariantsFoundForEnum
  | queryTypeNotObject
  | noResolverFoundInSchema
  | apolloFederationResolversNoPartOfEntityResolver
  | error (error : B.Error)

structure AddField where
  name : String
  path : List String

structure Operation (size : ℕ) where
  inputType : Fin size
  outputType : Fin size

structure CompiledField extends FieldDefinition where
  defaultValue : Option ConstValue

def CompiledField.withResolver (field : CompiledField) (resolver : Option IR) : CompiledField :=
  { field with resolver := resolver }

def CompiledField.mapExpr (field : CompiledField) (wrapper : IR → IR) : CompiledField :=
  { field with resolver := field.resolver.map wrapper }

structure Draft (B : Backends) where
  blueprint : Blueprint
  rest : B.Rest

section

variable (P : Payloads) (B : Backends)

abbrev Module := Cache (withResolvers P B)

abbrev Checked (B : Backends) (α : Type) := Valid α (BlueprintError B)

structure Compiler where
  pool : DescriptorPool
  toCamel : String → String
  defaultOf : P.Json → ConstValue
  modifyOmits : P.Modify → Bool
  authId : P.Protected → Option (Finset String)
  addField : P.AddField → AddField
  enableFederation : P.Server → Bool
  required : Module P B → Checked B (Module P B)
  stepArgs : Dict P.Json → Checked B IR
  grpcOperation : B.Grpc → Checked B (Operation pool.size)
  isA : JsonSchema → JsonSchema → String → Checked B Unit
  grpcResolver : OperationType → List String → B.Grpc → Operation pool.size → Checked B IR
  exprValue : B.Expr → Checked B DynamicValue
  toConst : DynamicValue → Checked B ConstValue
  validate : JsonSchema → ConstValue → Checked B Unit
  otherResolver : Module P B → B.Other → Config.Field (withResolvers P B) → OperationType → Checked B IR
  validateField : Module P B → TypeDef (withResolvers P B) → CompiledField → Checked B Unit
  finishField : Module P B → Config.Field (withResolvers P B) → TypeDef (withResolvers P B) → String → String →
    CompiledField → Checked B CompiledField
  resolverFromPath : Module P B → List String → Config.Field (withResolvers P B) → TypeDef (withResolvers P B) →
    List String → CompiledField → Checked B CompiledField
  before : Module P B → Draft B → Checked B (Draft B)
  after : Module P B → Draft B → Checked B (Draft B)
  serviceSdl : Draft B → String
  finish : Draft B → Draft B
  schemaBuilder : Draft B → Checked B Unit
  emptyRest : B.Rest

end

variable {P : Payloads} {B : Backends} (C : Compiler P B) (module : Module P B)

section Call

def getTypeAndField (step : Step P.Json) : Option (String × String) :=
  match step.query with
  | some query => some ("Query", query)
  | none => step.mutation.map fun mutation => ("Mutation", mutation)

def getFieldAndFieldName (config : Config (withResolvers P B)) (step : Step P.Json) :
    Checked B (Config.Field (withResolvers P B) × String × TypeDef (withResolvers P B)) :=
  (Valid.fromOption (getTypeAndField step) .callMustHaveQueryOrMutation).andThen fun (typeName, fieldName) =>
    (Valid.fromOption (config.findType typeName) (.typeNotFoundInConfig typeName)).andThen fun queryType =>
      (Valid.fromOption (queryType.fields.get? fieldName) (.fieldNotFoundInType fieldName)).zip
        (Valid.succeed (fieldName, queryType))

def empties (field : Config.Field (withResolvers P B)) (step : Step P.Json) : List String :=
  (field.args.entries.filter fun arg => !arg.2.typeOf.isNullable && !step.args.contains arg.1).map Prod.fst

def compileStep
    (toFieldDefinition : Config.Field (withResolvers P B) → TypeDef (withResolvers P B) → String →
      Option (Checked B CompiledField))
    (step : Step P.Json) : Option (Checked B CompiledField) :=
  match getFieldAndFieldName module.config step with
  | .error e => some (.error e)
  | .ok (field, fieldName, typeOf) =>
    if (empties field step).isEmpty then
      (toFieldDefinition field typeOf field.typeOf.name).map fun bField =>
        ((bField.andThen fun bField =>
          if bField.resolver.isNone then Valid.fail (.fieldHasNoResolver fieldName) else Valid.succeed bField).zip
          (C.stepArgs step.args)).mapOk fun (bField, argsExpr) =>
            if step.args.entries.isEmpty then bField else bField.mapExpr fun expr => .pipe argsExpr expr
    else
      some ((Valid.fail (.argumentNotFound
        (", ".intercalate ((empties field step).map fun k => "'" ++ k ++ "'")))).trace fieldName)

def pipeField (bField bFieldNext : CompiledField) : CompiledField :=
  bField.mapExpr fun expr =>
    match bFieldNext.resolver with
    | some otherExpr => .pipe expr otherExpr
    | none => expr

def reduceFields : List CompiledField → Option CompiledField
  | [] => none
  | bField :: rest => some (rest.foldl pipeField bField)

def compileCall
    (toFieldDefinition : Config.Field (withResolvers P B) → TypeDef (withResolvers P B) → String →
      Option (Checked B CompiledField))
    (call : Call P.Json) : Option (Checked B IR) :=
  (Validation.sequence (call.steps.map (compileStep C module toFieldDefinition))).map fun bFields =>
    ((Valid.collect bFields).andThen fun bFields =>
      Valid.fromOption (reduceFields bFields) .stepsCanNotBeEmpty).andThen fun field =>
        Valid.fromOption field.resolver .resultResolverCanNotBeEmpty

end Call

section Schemas

structure FieldSchema where
  args : JsonSchema
  field : JsonSchema

def jsonSchemaFromField (fuel : ℕ) (field : Config.Field (withResolvers P B)) : Option FieldSchema :=
  (toJsonSchema module.config fuel field.typeOf).bind fun fieldSchema =>
    (toJsonSchemaForArgs module.config fuel field.args).map fun argsSchema => ⟨argsSchema, fieldSchema⟩

def validateSchema (fuel : ℕ) (fieldSchema : FieldSchema) (operation : Operation C.pool.size) (name : String) :
    Option (Checked B Unit) :=
  (messageSchema C.toCamel C.pool fuel operation.inputType).bind fun _ =>
    (messageSchema C.toCamel C.pool fuel operation.outputType).map fun subType =>
      C.isA subType fieldSchema.field name

def groupByDescriptor (operation : Operation C.pool.size) (first : String) (rest : List String) :
    Checked B (FieldDescriptor C.pool.size) :=
  (first :: rest).dropLast.foldl
    (fun _ item =>
      Valid.fromOption ((C.pool.messages operation.outputType).fields.find? fun field => field.jsonName == item)
        (.fieldNotFound item))
    (Valid.fail (.fieldNotFound first))

def validateGroupBy (fuel : ℕ) (fieldSchema : FieldSchema) (operation : Operation C.pool.size) (first : String)
    (rest : List String) : Option (Checked B Unit) :=
  let outputType : Option (Checked B JsonSchema) :=
    match groupByDescriptor C operation first rest with
    | .error e => some (.error e)
    | .ok descriptor =>
      (JsonSchemas.fieldSchema C.pool (messageSchema C.toCamel C.pool fuel) descriptor).map .ok
  outputType.bind fun outputSchema =>
    (messageSchema C.toCamel C.pool fuel operation.inputType).map fun _ =>
      outputSchema.andThen fun outputSchema => C.isA outputSchema (.arr fieldSchema.field) first

def validateOperation (fuel : ℕ) (fieldSchema : FieldSchema) (operation : Operation C.pool.size) (name : String) :
    List String → Option (Checked B Unit)
  | [] => validateSchema C fuel fieldSchema operation name
  | first :: rest => validateGroupBy C fuel fieldSchema operation first rest

def compileGrpc (fuel : ℕ) (operationType : OperationType) (field : Config.Field (withResolvers P B))
    (batchKey : List String) (grpc : B.Grpc) : Option (Checked B IR) :=
  match C.grpcOperation grpc with
  | .error e => some (.error e)
  | .ok operation =>
    (jsonSchemaFromField module fuel field).bind fun fieldSchema =>
      (validateOperation C fuel fieldSchema operation field.typeOf.name batchKey).map fun validation =>
        validation.andThen fun _ => C.grpcResolver operationType batchKey grpc operation

def compileExpr (fuel : ℕ) (field : Config.Field (withResolvers P B)) (expr : B.Expr) : Option (Checked B IR) :=
  match C.exprValue expr with
  | .error e => some (.error e)
  | .ok value =>
    if value.isConst then
      match C.toConst value with
      | .error e => some (.error e)
      | .ok gql =>
        (toJsonSchema module.config fuel field.typeOf).map fun schema =>
          (C.validate schema gql).mapOk fun _ => .dynamic value
    else some (Valid.succeed (.dynamic value))

end Schemas

section Config.Field

variable (operationType : OperationType) (objectName : String)

def updateArgs (field : Config.Field (withResolvers P B)) (name : String) (_ : CompiledField) :
    Checked B CompiledField :=
  Valid.succeed
    { name := name
      args := field.args.entries.map fun arg => ⟨arg.1, arg.2.typeOf, arg.2.defaultValue.map C.defaultOf⟩
      ofType := field.typeOf
      resolver := none
      defaultValue := field.defaultValue.map C.defaultOf }

def mergedResolver : List (Option IR) → Option IR
  | [] => none
  | [resolver] => resolver
  | resolvers => some (.merge (resolvers.filterMap id))

def updateResolver (resolvers : List (Checked B (Option IR))) (typeOf : TypeDef (withResolvers P B))
    (bField : CompiledField) : Checked B CompiledField :=
  ((Valid.collect resolvers).mapOk fun resolvers => bField.withResolver (mergedResolver resolvers)).andThen
    fun bField => (C.validateField module typeOf bField).mapOk fun _ => bField

def toFieldDefinition
    (compileResolver : Config.Field (withResolvers P B) → Resolver P.Json B → Option (Checked B (Option IR)))
    (field : Config.Field (withResolvers P B)) (typeOf : TypeDef (withResolvers P B)) (name : String) :
    Option (Checked B CompiledField) :=
  (Validation.sequence (field.resolvers.map (compileResolver field))).map fun resolvers =>
    Valid.tryFoldAnd
      (Valid.tryFoldAnd (updateArgs C field name) (updateResolver C module resolvers typeOf))
      (C.finishField module field typeOf name objectName)
      ⟨default, none⟩

def compileResolver : ℕ → Config.Field (withResolvers P B) → Resolver P.Json B → Option (Checked B (Option IR))
  | 0, _, _ => none
  | fuel + 1, field, resolver =>
    match resolver with
    | .call call =>
      (compileCall C module (toFieldDefinition C module objectName (compileResolver fuel)) call).map fun ir =>
        (ir.trace "@call").mapOk some
    | .grpc batchKey grpc =>
      (compileGrpc C module fuel operationType field batchKey grpc).map fun ir => (ir.trace "@grpc").mapOk some
    | .expr expr => (compileExpr C module fuel field expr).map fun ir => (ir.trace "@expr").mapOk some
    | .entityResolver _ | .service => some (Valid.succeed none)
    | .other directive => some ((C.otherResolver module directive field operationType).mapOk some)

end Config.Field

section Definitions

def isOmitted (field : Config.Field (withResolvers P B)) : Bool :=
  field.omission.isSome || field.modify.any C.modifyOmits

def validateFieldTypeExist (field : Config.Field (withResolvers P B)) : Checked B Unit :=
  if !Scalar.isPredefined field.typeOf.name && !module.config.contains field.typeOf.name then
    Valid.fail (.undeclaredTypeFound field.typeOf.name)
  else Valid.succeed ()

def operationTypeOf (objectName : String) : OperationType :=
  if module.config.schema.mutation = some objectName then .mutation
  else if module.config.schema.subscription = some objectName then .subscription
  else .query

def parentAuthId (typeOf : TypeDef (withResolvers P B)) : Option (Finset String) :=
  typeOf.protectedBy.bind C.authId

def tracesName (typeOf : TypeDef (withResolvers P B)) (field : Config.Field (withResolvers P B)) : Bool :=
  field.protectedBy.any (fun p => C.authId p ≠ parentAuthId C typeOf) || (parentAuthId C typeOf).isNone

def toField (fuel : ℕ) (objectName : String) (typeOf : TypeDef (withResolvers P B))
    (field : String × Config.Field (withResolvers P B)) : Option (Checked B CompiledField) :=
  (toFieldDefinition C module objectName
    (compileResolver C module (operationTypeOf module objectName) objectName fuel) field.2 typeOf field.1).map
    fun bField =>
      let result := (validateFieldTypeExist module field.2).and bField
      if tracesName C typeOf field.2 then result.trace field.1 else result

def toAddedField (fuel : ℕ) (objectName : String) (typeOf : TypeDef (withResolvers P B)) (added : P.AddField) :
    Option (Checked B CompiledField) :=
  match (C.addField added).path with
  | [] => none
  | first :: rest =>
    match typeOf.fields.get? first with
    | some sourceField =>
      (toFieldDefinition C module objectName
        (compileResolver C module (operationTypeOf module objectName) objectName fuel) sourceField typeOf
        (C.addField added).name).map fun bField =>
          let path := if sourceField.resolvers.isEmpty then first :: rest else rest
          (bField.andThen (C.resolverFromPath module path sourceField typeOf (first :: rest))).trace "@addField"
    | none => some (Valid.fail (.fieldNotFoundInPath first (",".intercalate (first :: rest))))

def toFields (fuel : ℕ) (objectName : String) (typeOf : TypeDef (withResolvers P B)) :
    Option (Checked B (List CompiledField)) :=
  (Validation.sequence ((typeOf.fields.entries.filter fun field => !isOmitted C field.2).map
    (toField C module fuel objectName typeOf))).bind fun fields =>
      (Validation.sequence (typeOf.addedFields.map (toAddedField C module fuel objectName typeOf))).map fun addedFields =>
        ((Valid.collect fields).zip (Valid.collect addedFields)).mapOk fun (fields, addedFields) =>
          fields ++ addedFields

def toScalarTypeDefinition (name : String) : Checked B Definition :=
  if Scalar.isPredefined name then Valid.fail (.scalarTypeIsPredefined name)
  else Valid.succeed (.scalar name ((Scalar.find name).getD .empty))

def toTypeDefinition (name : String) (typeOf : TypeDef (withResolvers P B)) (fields : List CompiledField) :
    Definition :=
  if name ∈ module.inputTypes then
    .inputObject name (fields.map fun field => ⟨field.name, field.ofType, field.defaultValue⟩)
  else if module.interfacesTypesMap.contains name then
    .interface name (fields.map CompiledField.toFieldDefinition) typeOf.implements.items
  else .object name (fields.map CompiledField.toFieldDefinition) typeOf.implements.items

def toDefinition (fuel : ℕ) (entry : String × TypeDef (withResolvers P B)) : Option (Checked B Definition) :=
  if entry.2.scalar then some ((toScalarTypeDefinition entry.1).trace entry.1)
  else
    (toFields C module fuel entry.1 entry.2).map fun fields =>
      (fields.mapOk (toTypeDefinition module entry.1 entry.2)).trace entry.1

def toUnionTypeDefinition (entry : String × Union) : Definition :=
  .union entry.1 entry.2.types.items

def toEnumTypeDefinition (entry : String × Enum) : Checked B Definition :=
  if entry.2.variants.items.isEmpty then Valid.fail .noVariantsFoundForEnum
  else
    Valid.succeed (.enum entry.1 (entry.2.variants.items.map fun variant =>
      ⟨variant.name, (variant.aliases.map fun a => a.options.sort (· ≤ ·)).getD []⟩))

def toDefinitions (fuel : ℕ) : Option (Checked B (List Definition)) :=
  (Validation.sequence (module.config.types.entries.map (toDefinition C module fuel))).map fun types =>
    (((Valid.collect types).mapOk fun types =>
      types ++ module.config.unions.entries.map toUnionTypeDefinition).zip
      (Valid.fromIter module.config.enums.entries toEnumTypeDefinition)).mapOk fun (types, enums) => types ++ enums

end Definitions

section Federation

def fakeField (typeName : String) : Config.Field (withResolvers P B) where
  typeOf := .named typeName false
  args := Dict.empty
  doc := none
  modify := none
  omission := none
  cache := none
  defaultValue := none
  protectedBy := none
  discriminate := none
  resolvers := []
  directives := []

mutual

def compileEntityResolver (fuel : ℕ) : List (String × Resolver P.Json B) → Option (Checked B (List (String × IR)))
  | [] => some (Valid.succeed [])
  | (typeName, resolver) :: rest =>
    (compileEntity fuel typeName resolver).bind fun ir =>
      (compileEntityResolver fuel rest).map fun irs =>
        (ir.zip irs).mapOk fun (ir, irs) => (typeName, ir) :: irs

def compileEntity (fuel : ℕ) (typeName : String) (resolver : Resolver P.Json B) : Option (Checked B IR) :=
  match resolver with
  | .entityResolver resolverByType =>
    (compileEntityResolver fuel resolverByType).map fun irs => irs.mapOk .entity
  | .service => some (Valid.fail .apolloFederationResolversNoPartOfEntityResolver)
  | resolver =>
    (compileResolver C module .query typeName fuel (fakeField typeName) resolver).map fun ir =>
      ir.andThen fun ir => Valid.fromOption ir .noResolverFoundInSchema

end

def isFederation : Resolver P.Json B → Bool
  | .entityResolver _ | .service => true
  | _ => false

def federationField (fuel : ℕ) (sdl : String) (configType : TypeDef (withResolvers P B))
    (bField : FieldDefinition) : Option (Checked B FieldDefinition) :=
  match configType.fields.get? bField.name with
  | none => some (Valid.fail (.fieldNotFoundInType bField.name))
  | some field =>
    match field.resolvers.find? isFederation with
    | some (.entityResolver resolverByType) =>
      (compileEntityResolver C module fuel resolverByType).map fun irs =>
        irs.mapOk fun irs => { bField with resolver := some (.entity irs) }
    | some .service => some (Valid.succeed { bField with resolver := some (.service sdl) })
    | _ => some (Valid.succeed bField)

def definitionName : Definition → String
  | .interface name _ _ | .object name _ _ | .inputObject name _ | .scalar name _ | .enum name _
  | .union name _ => name

def federationDefinition (fuel : ℕ) (sdl queryName : String) (definition : Definition) :
    Option (Checked B Definition) :=
  if definitionName definition ≠ queryName then some (Valid.succeed definition)
  else
    match definition with
    | .object name fields implements =>
      match module.config.findType queryName with
      | none => some (Valid.fail (.typeNotFoundInConfig queryName))
      | some configType =>
        (Validation.sequence (fields.map (federationField C module fuel sdl configType))).map fun fields =>
          (Valid.collect fields).mapOk fun fields => .object name fields implements
    | _ => some (Valid.fail .queryTypeNotObject)

def updateFederation (fuel : ℕ) (draft : Draft B) : Option (Checked B (Draft B)) :=
  if C.enableFederation module.config.server then
    (Validation.sequence (draft.blueprint.definitions.map
      (federationDefinition C module fuel (C.serviceSdl draft) draft.blueprint.schema.query))).map fun definitions =>
        ((Valid.collect definitions).mapOk fun definitions =>
          { draft with blueprint := { draft.blueprint with definitions := definitions } }).trace "federation"
  else some (Valid.succeed draft)

end Federation

def emptyDraft : Draft B :=
  ⟨⟨[], ⟨"", none, none⟩⟩, C.emptyRest⟩

def configBlueprint (fuel : ℕ) (module : Module P B) : Option (Checked B (Draft B)) :=
  (toDefinitions C module fuel).bind fun definitions =>
    let setDefinitions (draft : Draft B) : Checked B (Draft B) :=
      definitions.mapOk fun definitions =>
        { draft with blueprint := { draft.blueprint with definitions := definitions } }
    let compiled := Valid.tryFoldAnd (Valid.tryFoldAnd (C.before module) setDefinitions) (C.after module)
      (emptyDraft C)
    match compiled with
    | .ok draft => (updateFederation C module fuel draft).map fun draft => draft.mapOk C.finish
    | .error e =>
      (updateFederation C module fuel (emptyDraft C)).map fun draft =>
        (Valid.and (Except.error e : Checked B (Draft B)) draft).mapOk C.finish

def tryFrom (fuel : ℕ) (module : Module P B) : Option (Checked B (Draft B)) :=
  match C.required module with
  | .error e => some (.error e)
  | .ok module =>
    (configBlueprint C fuel module).map fun draft =>
      draft.andThen fun draft => (C.schemaBuilder draft).mapOk fun _ => draft

end Gqlforge.FieldCompiler
