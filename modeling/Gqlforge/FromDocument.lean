import Gqlforge.ServiceDocuments
import Mathlib.Data.List.ReduceOption

namespace Gqlforge.Config.Distinct

variable {α : Type} [DecidableEq α]

def collect (items : List α) : Distinct α := ⟨items.dedup, items.nodup_dedup⟩

@[simp]
theorem collect_items (set : Distinct α) : collect set.items = set := by
  obtain ⟨items, hn⟩ := set
  simp [collect, hn.dedup]

end Gqlforge.Config.Distinct

namespace Gqlforge.ServiceDocuments

open Json Schema Validation Config

def fromIterSome {α β : Type} (items : List α) (f : α → Valid (Option β) String) : Valid (List β) String :=
  (Valid.fromIter items f).mapOk List.reduceOption

variable {P : Payloads} {R : ResolverKind → Type} {F : Type} (codecs : Codecs P R)

def toDirective {J : Type} (json : JsonCodec J) (constDirective : ConstDirective) : Valid (Directive J) String :=
  match constDirective.arguments.mapM fun (key, value) => (json.intoJson value).map fun value => (key, value) with
  | .ok arguments => .succeed ⟨constDirective.name, Dict.ofEntries arguments⟩
  | .error error => .fail error

def toFederationDirectives {J : Type} (json : JsonCodec J) (directives : List ConstDirective) :
    Valid (List (Directive J)) String :=
  fromIterSome directives fun directive =>
    if directive.name ∈ federationDirectives then (toDirective json directive).mapOk some
    else .succeed none

def resolversFromDirectives (directives : List ConstDirective) : Valid (List (Resolver R F)) String :=
  fromIterSome directives fun directive =>
    match ResolverKind.all.find? fun kind => kind.directiveName == directive.name with
    | some kind => ((codecs.resolver kind).fromDirective directive).mapOk fun value => some (.ofKind kind value)
    | none => .succeed none

def toAddFieldsFromDirectives (directives : List ConstDirective) : Valid (List P.AddField) String :=
  Valid.fromIter (directives.filter fun directive => directive.name == "addField") codecs.addField.fromDirective

section Schema

def schemaDefinition (doc : ServiceDocument) : SchemaDefinition :=
  (doc.definitions.findSome? fun definition =>
    match definition with
    | .schema definition => some definition
    | _ => none).getD ⟨false, [], none, none, none⟩

def processSchemaDirectives {name : String} {α : Type} (codec : DirectiveCodec name α) (default : α)
    (definition : SchemaDefinition) : Valid α String :=
  definition.directives.foldl
    (fun res directive => if directive.name = name then codec.fromDirective directive else res)
    (.succeed default)

def processSchemaMultipleDirectives {name : String} {α : Type} (codec : DirectiveCodec name α)
    (definition : SchemaDefinition) : Valid (List α) String :=
  Valid.fromIter (definition.directives.filter fun directive => directive.name == name) codec.fromDirective

def toRootSchema (definition : SchemaDefinition) : RootSchema :=
  ⟨definition.query, definition.mutation, definition.subscription⟩

end Schema

section Fields

def toArg (definition : InputValueDefinition) : Arg (documented P R F) where
  typeOf := definition.ty.toWrapping
  doc := definition.description
  modify :=
    match codecs.modify.fromDirectives definition.directives with
    | .ok modify => modify
    | .error _ => none
  defaultValue := definition.defaultValue.bind fun value => (codecs.json.intoJson value).toOption

def toArgs (definition : FieldDefinition) : Dict (Arg (documented P R F)) :=
  Dict.ofEntries (definition.arguments.map fun arg => (arg.name, toArg codecs arg))

def toDefaultValue {J : Type} (json : JsonCodec J) : Option ConstValue → Valid (Option J) String
  | none => .succeed none
  | some value =>
    match json.intoJson value with
    | .ok json => .succeed (some json)
    | .error error => .fail error

def toCommonField (name : String) (typeOf : DocumentType) (description : Option String)
    (directives : List ConstDirective) (args : Dict (Arg (documented P R F))) (defaultValue : Option ConstValue) :
    Valid (Config.Field (documented P R F)) String :=
  (((resolversFromDirectives codecs directives : Valid (List (Resolver R F)) String).zip
    (codecs.cache.fromDirectives directives) |>.zip
    (codecs.omission.fromDirectives directives) |>.zip
    (codecs.modify.fromDirectives directives) |>.zip
    (codecs.protectedBy.fromDirectives directives) |>.zip
    (codecs.discriminate.fromDirectives directives) |>.zip
    (toDefaultValue codecs.json defaultValue) |>.zip
    (toFederationDirectives codecs.json directives)).mapOk
      fun (((((((resolvers, cache), omission), modify), protectedBy), discriminate), defaultValue), directives) =>
        { typeOf := typeOf.toWrapping
          args := args
          doc := description
          modify := modify
          omission := omission
          cache := cache
          defaultValue := defaultValue
          protectedBy := protectedBy
          discriminate := discriminate
          resolvers := resolvers
          directives := directives }).trace name

def toField (definition : FieldDefinition) : Valid (Config.Field (documented P R F)) String :=
  toCommonField codecs definition.name definition.ty definition.description definition.directives
    (toArgs codecs definition) none

def toInputObjectField (definition : InputValueDefinition) : Valid (Config.Field (documented P R F)) String :=
  toCommonField codecs definition.name definition.ty definition.description definition.directives
    Dict.empty definition.defaultValue

def toFieldsInner {T V : Type} (fields : List T) (name : T → String) (transform : T → Valid V String) :
    Valid (Dict V) String :=
  (Valid.fromIter fields fun field => (transform field).mapOk fun value => (name field, value)).mapOk Dict.ofEntries

def toFields (fields : List FieldDefinition) : Valid (Dict (Config.Field (documented P R F))) String :=
  toFieldsInner fields FieldDefinition.name (toField codecs)

def toInputObjectFields (fields : List InputValueDefinition) : Valid (Dict (Config.Field (documented P R F))) String :=
  toFieldsInner fields InputValueDefinition.name (toInputObjectField codecs)

end Fields

section Types

def defaultType : TypeDef (documented P R F) :=
  ⟨Dict.empty, [], none, ⟨[], List.nodup_nil⟩, none, none, [], []⟩

def toObjectType (implements : List String) (fields : List FieldDefinition) (description : Option String)
    (directives : List ConstDirective) : Valid (TypeDef (documented P R F)) String :=
  ((resolversFromDirectives codecs directives : Valid (List (Resolver R F)) String).zip
    (codecs.cache.fromDirectives directives) |>.zip
    (toFields codecs fields : Valid (Dict (Config.Field (documented P R F))) String) |>.zip
    (codecs.protectedBy.fromDirectives directives) |>.zip
    (toAddFieldsFromDirectives codecs directives) |>.zip
    (toFederationDirectives codecs.json directives)).mapOk
      fun (((((resolvers, cache), fields), protectedBy), addedFields), unknownDirectives) =>
        { fields := fields
          addedFields := addedFields
          doc := description
          implements := Distinct.collect implements
          cache := cache
          protectedBy := protectedBy
          resolvers := resolvers
          directives := unknownDirectives }

def toInputObject (fields : List InputValueDefinition) (description : Option String)
    (directives : List ConstDirective) : Valid (TypeDef (documented P R F)) String :=
  ((toInputObjectFields codecs fields : Valid (Dict (Config.Field (documented P R F))) String).zip
    (codecs.protectedBy.fromDirectives directives)).mapOk fun (fields, protectedBy) =>
      { (defaultType : TypeDef (documented P R F)) with
          fields := fields
          doc := description
          protectedBy := protectedBy }

def toUnion (members : List String) (doc : Option String) : Union :=
  ⟨Distinct.collect members, doc⟩

def toVariant (member : EnumValueDefinition) : Valid Variant String :=
  match member.directives.find? fun directive => directive.name == "alias" with
  | some directive => (codecs.aliases.fromDirective directive).mapOk fun options => ⟨member.value, some options⟩
  | none => .succeed ⟨member.value, none⟩

def toEnum (values : List EnumValueDefinition) (doc : Option String) : Valid Config.Enum String :=
  (Valid.fromIter values (toVariant codecs)).mapOk fun variants => ⟨Distinct.collect variants, doc⟩

def toType (definition : TypeDefinition) : Valid (Option (String × TypeDef (documented P R F))) String :=
  (match definition.kind with
    | .object implements fields | .interface implements fields =>
      ((toObjectType codecs implements fields definition.description definition.directives).trace
        definition.name).mapOk some
    | .enum _ | .union _ => .succeed none
    | .inputObject fields =>
      ((toInputObject codecs fields definition.description definition.directives).trace definition.name).mapOk some
    | .scalar => .succeed (some defaultType)).mapOk fun option => option.map fun type => (definition.name, type)

def toUnionType (definition : TypeDefinition) : Valid (Option (String × Union)) String :=
  match definition.kind with
  | .union members => .succeed (some (definition.name, toUnion members definition.description))
  | _ => .succeed none

def toEnumType (definition : TypeDefinition) : Valid (Option (String × Config.Enum)) String :=
  match definition.kind with
  | .enum values => (toEnum codecs values definition.description).mapOk fun type => some (definition.name, type)
  | _ => .succeed none

def toDict {V : Type} (definitions : List TypeDefinition)
    (transform : TypeDefinition → Valid (Option (String × V)) String) : Valid (Dict V) String :=
  (fromIterSome definitions transform).mapOk Dict.ofEntries

end Types

def typeDefinitions (doc : ServiceDocument) : List TypeDefinition :=
  doc.definitions.filterMap fun definition =>
    match definition with
    | .type definition => some definition
    | _ => none

def fromDocument (doc : ServiceDocument) : Valid (Config (documented P R F)) String :=
  let definition := schemaDefinition doc
  ((processSchemaDirectives codecs.server codecs.defaultServer definition).zip
    (processSchemaDirectives codecs.upstream codecs.defaultUpstream definition) |>.zip
    (toDict (typeDefinitions doc) (toType codecs) : Valid (Dict (TypeDef (documented P R F))) String) |>.zip
    (toDict (typeDefinitions doc) toUnionType) |>.zip
    (toDict (typeDefinitions doc) (toEnumType codecs)) |>.zip
    (.succeed (toRootSchema definition)) |>.zip
    (processSchemaMultipleDirectives codecs.link definition) |>.zip
    (processSchemaDirectives codecs.telemetry codecs.defaultTelemetry definition)).mapOk
      fun (((((((server, upstream), types), unions), enums), schema), links), telemetry) =>
        { server := server
          upstream := upstream
          schema := schema
          types := types
          unions := unions
          enums := enums
          links := links
          telemetry := telemetry }

end Gqlforge.ServiceDocuments
