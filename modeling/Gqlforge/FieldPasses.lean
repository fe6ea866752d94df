import Gqlforge.FieldCompiler
import Gqlforge.IrCaching

namespace Gqlforge.FieldPasses

open Resolvers Schema Config Validation FieldCompiler

structure Protected where
  id : Option (List String)
  expr : Option String

structure Content (α : Type) where
  id : Option String
  content : α

inductive PassError where
  | fieldExistsInInterface
  | inputTypesCannotBeProtected
  | protectedOperatorNoAuthProviders
  | invalidAccessExpression (text : String)
  | authProviderNotFound (id : String)
  | emptyDiscriminator (text : String)
  | cannotAddField
  | pathDoesNotExist (path : String)
  | pathContainsResolver (path resolverName fieldType fieldName : String)

section

variable (P : Payloads) (B : Backends)

structure Passes where
  maxAge : P.Cache → NonZeroU64
  protection : P.Protected → Protected
  modifyName : P.Modify → Option String
  discriminateField : P.Discriminate → String
  parse : String → Except String AccessExpr
  htpasswd : List (Content String)
  jwks : List (Content String)
  directiveName : Resolver P.Json B → String
  isDigit : Char → Bool
  error : PassError → B.Error

end

variable {P : Payloads} {B : Backends} (passes : Passes P B) (module : Module P B)

def Passes.fail {α : Type} (error : PassError) : Checked B α :=
  Valid.fail (.error (passes.error error))

def Passes.failWith {α : Type} (message description : PassError) : Checked B α :=
  Valid.failWith (.error (passes.error message)) (.error (passes.error description))

section Modify

def existsInInterface (typeOf : TypeDef (withResolvers P B)) (newName : String) : Bool :=
  typeOf.implements.items.any fun name =>
    (module.config.findType name).any fun interface => interface.fields.contains newName

def CompiledField.orContextPath (bField : CompiledField) : IR :=
  bField.resolver.getD (.contextPath [bField.name])

def updateModify (field : Config.Field (withResolvers P B)) (typeOf : TypeDef (withResolvers P B)) (bField : CompiledField) :
    Checked B CompiledField :=
  match field.modify.bind passes.modifyName with
  | some newName =>
    if existsInInterface module typeOf newName then passes.fail .fieldExistsInInterface
    else Valid.succeed
      { bField with resolver := some (CompiledField.orContextPath bField), name := newName }
  | none => Valid.succeed bField

end Modify

section Dangling

def fieldHasResolver (typeHasResolvers : String → TypeDef (withResolvers P B) → List String → Bool × List String)
    (field : Config.Field (withResolvers P B)) (visited : List String) : Bool × List String :=
  if !field.resolvers.isEmpty then (true, visited)
  else match module.config.findType field.typeOf.name with
    | some type => typeHasResolvers field.typeOf.name type visited
    | none => (false, visited)

def typeHasResolvers : ℕ → String → TypeDef (withResolvers P B) → List String → Bool × List String
  | 0, _, _, visited => (true, visited)
  | fuel + 1, name, type, visited =>
    if type.scalar || visited.contains name then (true, visited)
    else
      type.fields.values.foldl
        (fun (found, visited) field =>
          let (found', visited) := fieldHasResolver module (typeHasResolvers fuel) field visited
          (found && found', visited))
        (true, name :: visited)

def resolvesBelow (field : Config.Field (withResolvers P B)) : Bool :=
  (fieldHasResolver module (typeHasResolvers module (module.config.types.entries.length + 1)) field []).1

def fixDanglingResolvers (field : Config.Field (withResolvers P B)) (bField : CompiledField) : Checked B CompiledField :=
  if field.resolvers.isEmpty && resolvesBelow module field then
    Valid.succeed (bField.withResolver (some (.dynamic (.const (.object [])))))
  else Valid.succeed bField

end Dangling

section Cache

def cacheOf (field : Config.Field (withResolvers P B)) (typeOf : TypeDef (withResolvers P B)) : Option NonZeroU64 :=
  (field.cache.or typeOf.cache).map passes.maxAge

def updateCacheResolvers (field : Config.Field (withResolvers P B)) (typeOf : TypeDef (withResolvers P B))
    (bField : CompiledField) : Checked B CompiledField :=
  match cacheOf passes field typeOf with
  | some maxAge => Valid.succeed (bField.mapExpr (IrCaching.wrap maxAge))
  | none => Valid.succeed bField

end Cache

section Protect

def fromConfig : List (Content Provider) :=
  (passes.htpasswd.map fun htpasswd => ⟨htpasswd.id, .basic htpasswd.content⟩) ++
    passes.jwks.map fun jwks => ⟨jwks.id, .jwt none [] false jwks.content⟩

def hasAuth : Bool :=
  !passes.htpasswd.isEmpty || !passes.jwks.isEmpty

def providers : Dict Provider :=
  Dict.ofEntries ((fromConfig passes).filterMap fun provider => provider.id.map fun id => (id, provider.content))

def reduceAnd : List Auth → Option Auth
  | [] => none
  | auth :: rest => some (rest.foldl .and auth)

def authFromConfig : Option Auth :=
  reduceAnd ((fromConfig passes).map fun provider => .provider provider.content)

def typeProtection (typeOf : TypeDef (withResolvers P B)) : Option Protected :=
  typeOf.protectedBy.map passes.protection

def fieldProtection (field : Config.Field (withResolvers P B)) : Option Protected :=
  field.protectedBy.map passes.protection

def outputProtection (field : Config.Field (withResolvers P B)) : Option Protected :=
  (module.config.findType field.typeOf.name).bind (typeProtection passes)

def isProtected (field : Config.Field (withResolvers P B)) (typeOf : TypeDef (withResolvers P B)) : Bool :=
  (fieldProtection passes field).isSome || (typeProtection passes typeOf).isSome ||
    (outputProtection passes module field).isSome

def idsOf (protection : Option Protected) : List String :=
  (protection.bind (·.id)).getD []

def guardIds (field : Config.Field (withResolvers P B)) (typeOf : TypeDef (withResolvers P B)) : List String :=
  idsOf (typeProtection passes typeOf) ++ idsOf (fieldProtection passes field)

def guardExpr (field : Config.Field (withResolvers P B)) (typeOf : TypeDef (withResolvers P B)) : Option String :=
  ((fieldProtection passes field).bind (·.expr)).or ((typeProtection passes typeOf).bind (·.expr))

def parseExpr : Option String → Checked B (Option AccessExpr)
  | some text => match passes.parse text with
    | .ok expr => Valid.succeed (some expr)
    | .error error => passes.fail (.invalidAccessExpression error)
  | none => Valid.succeed none

def providerOf (id : String) : Checked B Auth :=
  match (providers passes).get? id with
  | some provider => Valid.succeed (.provider provider)
  | none => passes.fail (.authProviderNotFound id)

def protectWith (auth : Option Auth) (accessExpr : Option AccessExpr) (bField : CompiledField) : CompiledField :=
  match auth with
  | some auth => bField.withResolver (some (.protect auth accessExpr (CompiledField.orContextPath bField)))
  | none => bField

def updateProtected (objectName : String) (field : Config.Field (withResolvers P B)) (typeOf : TypeDef (withResolvers P B))
    (bField : CompiledField) : Checked B CompiledField :=
  if isProtected passes module field typeOf then
    if objectName ∈ module.inputTypes then passes.fail .inputTypesCannotBeProtected
    else if !hasAuth passes then passes.fail .protectedOperatorNoAuthProviders
    else (parseExpr passes (guardExpr passes field typeOf)).andThen fun accessExpr =>
      (Valid.fromIter (guardIds passes field typeOf) (providerOf passes)).mapOk fun auths =>
        -- a protection without ids asks for all providers
        protectWith ((reduceAnd auths).or (authFromConfig passes)) accessExpr bField
  else Valid.succeed bField

end Protect

section Types

def aliasEntries (variant : Variant) : List (String × String) :=
  (variant.name, variant.name) ::
    ((variant.aliases.map fun a => a.options.sort (· ≤ ·)).getD []).map fun option => (option, variant.name)

def aliasMap (enum : Enum) : Dict String :=
  Dict.ofEntries (enum.variants.items.flatMap aliasEntries)

def updateEnumAlias (field : Config.Field (withResolvers P B)) (bField : CompiledField) : Checked B CompiledField :=
  match module.config.findEnum field.typeOf.name with
  | some enum =>
    if enum.variants.items.any fun variant => variant.aliases.isSome then
      Valid.succeed (bField.mapExpr fun expr => .map expr (aliasMap enum).entries)
    else Valid.succeed bField
  | none => Valid.succeed bField

def newDiscriminator (typeName : String) (types : List String) (typenameField : Option String) :
    Checked B Discriminator :=
  match typenameField with
  | some field =>
    if field.isEmpty then
      passes.fail (.emptyDiscriminator
        ("The `field` cannot be an empty string for the `@discriminate` of type " ++ typeName))
    else Valid.succeed (.typeField field types typeName)
  | none => Valid.succeed (.keyed types typeName)

def discriminateWith (discriminator : Discriminator) (bField : CompiledField) : CompiledField :=
  bField.withResolver (some (.discriminate discriminator (CompiledField.orContextPath bField)))

def updateUnionResolver (field : Config.Field (withResolvers P B)) (bField : CompiledField) : Checked B CompiledField :=
  match module.config.findUnion field.typeOf.name with
  | some union =>
    (newDiscriminator passes field.typeOf.name union.types.items (field.discriminate.map passes.discriminateField)).mapOk
      (discriminateWith · bField)
  | none => Valid.succeed bField

def updateInterfaceResolver (field : Config.Field (withResolvers P B)) (bField : CompiledField) : Checked B CompiledField :=
  match module.interfacesTypesMap.get? field.typeOf.name with
  | some types =>
    (newDiscriminator passes field.typeOf.name (types.sort (· ≤ ·))
      (field.discriminate.map passes.discriminateField)).mapOk (discriminateWith · bField)
  | none => Valid.succeed bField

end Types

section Chain

variable (field : Config.Field (withResolvers P B)) (typeOf : TypeDef (withResolvers P B)) (objectName : String)

def prepareField : CompiledField → Checked B CompiledField :=
  Valid.tryFoldAnd
    (Valid.tryFoldAnd (fun bField => (updateModify passes module field typeOf bField).trace "@modify")
      (fixDanglingResolvers module field))
    (updateCacheResolvers passes field typeOf)

def discriminateField : CompiledField → Checked B CompiledField :=
  Valid.tryFoldAnd
    (Valid.tryFoldAnd (updateEnumAlias module field) (updateUnionResolver passes module field))
    (updateInterfaceResolver passes module field)

def finishField : CompiledField → Checked B CompiledField :=
  Valid.tryFoldAnd
    (Valid.tryFoldAnd (prepareField passes module field typeOf)
      (fun bField => (updateProtected passes module objectName field typeOf bField).trace "@protected"))
    (discriminateField passes module field)

end Chain

section Paths

def intoNullable : WrappingType → WrappingType
  | .named name _ => .named name false
  | .list ofType _ => .list ofType false

def intoSingle : WrappingType → WrappingType
  | .named name nonNull => .named name nonNull
  | .list ofType _ => intoSingle ofType

def invalidPath {α : Type} (fieldName : String) (originalPath : List String) : Checked B α :=
  (passes.failWith .cannotAddField (.pathDoesNotExist (", ".intercalate originalPath))).trace fieldName

def pathResolverError (resolver : Resolver P.Json B) (fieldType fieldName : String) (originalPath : List String) :
    Checked B WrappingType :=
  passes.failWith .cannotAddField
    (.pathContainsResolver (", ".intercalate originalPath) (passes.directiveName resolver) fieldType fieldName)

def isUsize (segment : String) : Bool :=
  (Scalar.parseInt 0 (2 ^ 64 - 1) segment).isSome

def targetType (field : Config.Field (withResolvers P B)) (typeInfo : TypeDef (withResolvers P B)) (fieldName : String) :
    Option (TypeDef (withResolvers P B)) :=
  if typeInfo.fields.contains fieldName then some typeInfo else module.config.findType field.typeOf.name

def processPath (originalPath : List String) :
    List String → Config.Field (withResolvers P B) → TypeDef (withResolvers P B) → Checked B WrappingType
  | [], field, _ => Valid.succeed (intoNullable field.typeOf)
  | fieldName :: remainingPath, field, typeInfo =>
    if isUsize fieldName then
      processPath originalPath remainingPath { field with typeOf := intoSingle field.typeOf } typeInfo
    else match targetType module field typeInfo fieldName with
      | none => invalidPath passes fieldName originalPath
      | some typeInfo => match typeInfo.fields.get? fieldName with
        | some nextField =>
          if !nextField.resolvers.isEmpty then
            (nextField.resolvers.foldl
              (fun valid resolver =>
                valid.and (pathResolverError passes resolver field.typeOf.name fieldName originalPath))
              (Valid.succeed field.typeOf)).and (processPath originalPath remainingPath nextField typeInfo)
          else if Scalar.isPredefined nextField.typeOf.name then
            processPath originalPath remainingPath nextField typeInfo
          else match module.config.findType nextField.typeOf.name with
            | some nextTypeInfo =>
              (processPath originalPath remainingPath nextField nextTypeInfo).mapOk fun ofType =>
                if nextField.typeOf.isList then .list ofType false else ofType
            | none => invalidPath passes fieldName originalPath
        | none => match remainingPath with
          | head :: tail => match typeInfo.fields.get? head with
            | some field => processPath originalPath tail field typeInfo
            | none => invalidPath passes fieldName originalPath
          | [] => invalidPath passes fieldName originalPath

def itemIsNumeric (path : List String) : Bool :=
  path.any fun segment => !segment.isEmpty && segment.toList.all passes.isDigit

def updateResolverFromPath (path : List String) (field : Config.Field (withResolvers P B))
    (typeInfo : TypeDef (withResolvers P B)) (originalPath : List String) (baseField : CompiledField) :
    Checked B CompiledField :=
  (processPath passes module originalPath path field typeInfo).mapOk fun ofType =>
    { baseField with
      ofType := if itemIsNumeric passes path then .named ofType.name false else ofType
      resolver := some (match baseField.resolver with
        | none => .contextPath path
        | some resolver => .path resolver path) }

end Paths

def compiler (C : Compiler P B) : Compiler P B :=
  { C with
    finishField := fun module field typeOf _ objectName => finishField passes module field typeOf objectName
    resolverFromPath := fun module path field typeInfo originalPath =>
      updateResolverFromPath passes module path field typeInfo originalPath }

end Gqlforge.FieldPasses
