import Gqlforge.DirectiveLists
import Gqlforge.UsageExactness

namespace Gqlforge.ServiceDocuments

open Json Schema Validation Config

variable {P : Payloads} {R : ResolverKind → Type} {F : Type} {codecs : Codecs P R}

def restoredArg (arg : Arg (documented P R F)) : Arg (documented P R F) :=
  { arg with modify := none }

def restoredField (kind : Kind) (field : Config.Field (documented P R F)) : Config.Field (documented P R F) :=
  { field with
    args :=
      match kind with
      | .object => field.args.map fun _ => restoredArg
      | _ => Dict.empty
    defaultValue :=
      match kind with
      | .inputObject => field.defaultValue
      | _ => none
    discriminate := none }

theorem transformDefaultValue_bind {J : Type} (json : JsonCodec J) (lawful : json.Lawful) (value : Option J) :
    ((transformDefaultValue json value).bind fun value => (json.intoJson value).toOption) = value := by
  cases value with
  | none => rfl
  | some value =>
    obtain ⟨written, hw, hr⟩ := lawful value
    simp [transformDefaultValue, hw, hr, Except.toOption]

theorem toDefaultValue_transformDefaultValue {J : Type} (json : JsonCodec J) (lawful : json.Lawful)
    (value : Option J) : toDefaultValue json (transformDefaultValue json value) = .ok value := by
  cases value with
  | none => rfl
  | some value =>
    obtain ⟨written, hw, hr⟩ := lawful value
    simp [transformDefaultValue, hw, hr, Except.toOption, toDefaultValue, Valid.succeed]

theorem toArg_argumentDefinition (laws : codecs.Lawful) (name : String) (arg : Arg (documented P R F)) :
    toArg codecs (argumentDefinition codecs name arg) = restoredArg arg := by
  simp [toArg, argumentDefinition, restoredArg, DirectiveCodec.fromDirectives, Valid.succeed,
    transformDefaultValue_bind codecs.json laws.json]

theorem toArgs_objectField (laws : codecs.Lawful) (name : String) (field : Config.Field (documented P R F)) :
    toArgs codecs (objectField codecs name field) = field.args.map fun _ => restoredArg := by
  have hentries : (objectField codecs name field).arguments.map (fun arg =>
      (arg.name, (toArg codecs arg : Arg (documented P R F)))) = (field.args.map fun _ => restoredArg).entries := by
    change ((field.args.entries.map _).map _ : List _) = _
    rw [List.map_map]
    exact List.map_congr_left fun entry _ => Prod.ext rfl (toArg_argumentDefinition laws entry.1 entry.2)
  rw [toArgs, hentries, Dict.ofEntries_entries]

section Fields

variable (field : Config.Field (documented P R F))

theorem toCommonField_ok (laws : codecs.Lawful) (h : Readable field.resolvers field.directives) (name : String)
    (args : Dict (Arg (documented P R F))) (value : Option ConstValue) (json : Option P.Json)
    (hd : toDefaultValue codecs.json value = .ok json) :
    toCommonField codecs name (.fromWrapping field.typeOf) field.doc (fieldDirectives codecs field) args value =
      .ok { field with args := args, defaultValue := json, discriminate := none } := by
  have hresolvers : resolversFromDirectives codecs (fieldDirectives codecs field) = .ok field.resolvers := by
    refine resolversFromDirectives_ok codecs laws _ _ h.directed ?_
    rw [named_fieldDirectives codecs field h _ true false (by decide) (by decide)]
    simp [resolverNames, ResolverKind.all, ResolverKind.directiveName]
  have hfederation : toFederationDirectives codecs.json (fieldDirectives codecs field) = .ok field.directives := by
    refine toFederationDirectives_ok codecs.json laws.json _ _ h.federated ?_
    rw [named_fieldDirectives codecs field h _ false true (by decide) (by decide)]
    simp [federationDirectives]
  have hmodify : codecs.modify.fromDirectives (fieldDirectives codecs field) = .ok field.modify := by
    rw [fromDirectives_named, named_fieldDirectives codecs field h _ false false (by decide) (by decide)]
    simp [laws.modify]
  have homission : codecs.omission.fromDirectives (fieldDirectives codecs field) = .ok field.omission := by
    rw [fromDirectives_named, named_fieldDirectives codecs field h _ false false (by decide) (by decide)]
    simp [laws.omission]
  have hcache : codecs.cache.fromDirectives (fieldDirectives codecs field) = .ok field.cache := by
    rw [fromDirectives_named, named_fieldDirectives codecs field h _ false false (by decide) (by decide)]
    simp [laws.cache]
  have hprotected : codecs.protectedBy.fromDirectives (fieldDirectives codecs field) = .ok field.protectedBy := by
    rw [fromDirectives_named, named_fieldDirectives codecs field h _ false false (by decide) (by decide)]
    simp [laws.protectedBy]
  have hdiscriminate : codecs.discriminate.fromDirectives (fieldDirectives codecs field) = .ok none := by
    rw [fromDirectives_named, named_fieldDirectives codecs field h _ false false (by decide) (by decide)]
    rfl
  rw [toCommonField, hresolvers, hfederation, hmodify, homission, hcache, hprotected, hdiscriminate, hd]
  simp [Valid.zip, Valid.mapOk, Valid.andThen, Valid.succeed, Valid.trace]

theorem toField_interfaceField (laws : codecs.Lawful) (h : Readable field.resolvers field.directives)
    (name : String) : toField codecs (interfaceField codecs name field) = .ok (restoredField .interface field) :=
  toCommonField_ok field laws h name Dict.empty none none rfl

theorem toField_objectField (laws : codecs.Lawful) (h : Readable field.resolvers field.directives)
    (name : String) : toField codecs (objectField codecs name field) = .ok (restoredField .object field) := by
  rw [toField, toArgs_objectField laws]
  exact toCommonField_ok field laws h name _ none none rfl

theorem toInputObjectField_inputField (laws : codecs.Lawful) (h : Readable field.resolvers field.directives)
    (name : String) :
    toInputObjectField codecs (inputField codecs name field) = .ok (restoredField .inputObject field) :=
  toCommonField_ok field laws h name Dict.empty _ _
    (toDefaultValue_transformDefaultValue codecs.json laws.json field.defaultValue)

end Fields

theorem toFieldsInner_ok {T V W : Type} (dict : Dict V) (write : String → V → T) (name : T → String)
    (transform : T → Valid W String) (read : String → V → W) (hname : ∀ key value, name (write key value) = key)
    (h : ∀ entry ∈ dict.entries, transform (write entry.1 entry.2) = .ok (read entry.1 entry.2)) :
    toFieldsInner (dict.entries.map fun entry => write entry.1 entry.2) name transform = .ok (dict.map read) := by
  refine (Valid.mapOk_eq_ok ..).mpr ⟨(dict.map read).entries, ?_, Dict.ofEntries_entries _⟩
  refine (Valid.fromIter_eq_ok ..).mpr ?_
  change _ = (dict.entries.map _).map _
  rw [List.map_map, List.map_map]
  refine List.map_congr_left fun entry he => ?_
  change (transform (write entry.1 entry.2)).mapOk _ = _
  rw [h entry he]
  change Except.ok (name (write entry.1 entry.2), read entry.1 entry.2) = _
  rw [hname]
  rfl

section Types

structure ReadableType (type : TypeDef (documented P R F)) : Prop where
  own : Readable type.resolvers type.directives
  fields : ∀ entry ∈ type.fields.entries, Readable entry.2.resolvers entry.2.directives

def restoredType (kind : Kind) (type : TypeDef (documented P R F)) : TypeDef (documented P R F) :=
  match kind with
  | .interface | .object => { type with fields := type.fields.map fun _ => restoredField kind }
  | .inputObject =>
    { (defaultType : TypeDef (documented P R F)) with
      fields := type.fields.map fun _ => restoredField kind
      doc := type.doc
      protectedBy := type.protectedBy }
  | .scalar => defaultType

variable (type : TypeDef (documented P R F))

theorem protectedBy_typeDirectives (laws : codecs.Lawful) (h : Readable type.resolvers type.directives) :
    codecs.protectedBy.fromDirectives (typeDirectives codecs type) = .ok type.protectedBy := by
  rw [fromDirectives_named, named_typeDirectives codecs type h _ false false (by decide) (by decide)]
  simp [laws.protectedBy]

theorem toObjectType_ok (laws : codecs.Lawful) (h : Readable type.resolvers type.directives)
    (fields : List FieldDefinition) (found : Dict (Config.Field (documented P R F)))
    (hf : toFields codecs fields = .ok found) :
    toObjectType codecs type.implements.items fields type.doc (typeDirectives codecs type) =
      .ok { type with fields := found } := by
  have hresolvers : resolversFromDirectives codecs (typeDirectives codecs type) = .ok type.resolvers := by
    refine resolversFromDirectives_ok codecs laws _ _ h.directed ?_
    rw [named_typeDirectives codecs type h _ true false (by decide) (by decide)]
    simp [resolverNames, ResolverKind.all, ResolverKind.directiveName]
  have hfederation : toFederationDirectives codecs.json (typeDirectives codecs type) = .ok type.directives := by
    refine toFederationDirectives_ok codecs.json laws.json _ _ h.federated ?_
    rw [named_typeDirectives codecs type h _ false true (by decide) (by decide)]
    simp [federationDirectives]
  have hcache : codecs.cache.fromDirectives (typeDirectives codecs type) = .ok type.cache := by
    rw [fromDirectives_named, named_typeDirectives codecs type h _ false false (by decide) (by decide)]
    simp [laws.cache]
  have hadded : toAddFieldsFromDirectives codecs (typeDirectives codecs type) = .ok type.addedFields := by
    change Valid.fromIter (named (· == "addField") (typeDirectives codecs type)) _ = _
    rw [named_typeDirectives codecs type h _ false false (by decide) (by decide)]
    refine (Valid.fromIter_eq_ok ..).mpr ?_
    simpa using fun value _ => laws.addField value
  rw [toObjectType, hresolvers, hfederation, hcache, hadded, protectedBy_typeDirectives type laws h, hf]
  simp [Valid.zip, Valid.mapOk, Valid.andThen, Valid.succeed]

theorem toInputObject_ok (laws : codecs.Lawful) (h : ReadableType type) (fields : List InputValueDefinition)
    (found : Dict (Config.Field (documented P R F))) (hf : toInputObjectFields codecs fields = .ok found) :
    toInputObject codecs fields type.doc (typeDirectives codecs type) =
      .ok { (defaultType : TypeDef (documented P R F)) with
        fields := found, doc := type.doc, protectedBy := type.protectedBy } := by
  rw [toInputObject, protectedBy_typeDirectives type laws h.own, hf]
  rfl

theorem toType_typeDefinition (laws : codecs.Lawful) (h : ReadableType type) (kind : Kind) (name : String) :
    toType codecs (typeDefinition codecs kind name type) = .ok (some (name, restoredType kind type)) := by
  have hobject : ∀ fields found, toFields codecs fields = .ok found →
      toObjectType codecs type.implements.items fields type.doc (typeDirectives codecs type) =
        .ok { type with fields := found } := toObjectType_ok type laws h.own
  cases kind with
  | interface =>
    have hf : toFields codecs (type.fields.entries.map fun entry => interfaceField codecs entry.1 entry.2) =
        .ok (type.fields.map fun _ => restoredField .interface) :=
      toFieldsInner_ok type.fields (interfaceField codecs) _ _ _ (fun _ _ => rfl) fun entry he =>
        toField_interfaceField entry.2 laws (h.fields entry he) entry.1
    simp only [toType, typeDefinition, typeKind]
    rw [hobject _ _ hf]
    rfl
  | inputObject =>
    have hf : toInputObjectFields codecs (type.fields.entries.map fun entry => inputField codecs entry.1 entry.2) =
        .ok (type.fields.map fun _ => restoredField .inputObject) :=
      toFieldsInner_ok type.fields (inputField codecs) _ _ _ (fun _ _ => rfl) fun entry he =>
        toInputObjectField_inputField entry.2 laws (h.fields entry he) entry.1
    simp only [toType, typeDefinition, typeKind]
    rw [toInputObject_ok type laws h _ _ hf]
    rfl
  | scalar => rfl
  | object =>
    have hf : toFields codecs (type.fields.entries.map fun entry => objectField codecs entry.1 entry.2) =
        .ok (type.fields.map fun _ => restoredField .object) :=
      toFieldsInner_ok type.fields (objectField codecs) _ _ _ (fun _ _ => rfl) fun entry he =>
        toField_objectField entry.2 laws (h.fields entry he) entry.1
    simp only [toType, typeDefinition, typeKind]
    rw [hobject _ _ hf]
    rfl

theorem toEnumType_enumDefinition (laws : codecs.Lawful) (name : String) (type : Config.Enum) :
    toEnumType codecs (enumDefinition codecs name type) = .ok (some (name, type)) := by
  have hvariants : Valid.fromIter (type.variants.items.map (variantDefinition codecs)) (toVariant codecs) =
      .ok type.variants.items := by
    refine (Valid.fromIter_eq_ok ..).mpr ?_
    rw [List.map_map]
    refine List.map_congr_left fun variant _ => ?_
    obtain ⟨name, aliases⟩ := variant
    cases aliases with
    | none => rfl
    | some aliases =>
      change (codecs.aliases.fromDirective (codecs.aliases.toDirective aliases)).mapOk _ = _
      rw [laws.aliases aliases]
      rfl
  simp only [toEnumType, enumDefinition, toEnum]
  rw [hvariants]
  simp [Valid.mapOk, Valid.andThen, Valid.succeed]

end Types

section Documents

variable (interfaceTypes : SchemaUsage.TypesMap) (inputTypes : Finset String) (config : Config (documented P R F))

def ReadableConfig : Prop :=
  ∀ entry ∈ config.types.entries, ReadableType entry.2

variable (codecs) in
def restored : Config (documented P R F) :=
  { config with
    types := config.types.map fun name type => restoredType (kindOf interfaceTypes inputTypes name type) type
    unions := config.unions.map fun _ union => ⟨union.types, none⟩
    telemetry := codecs.defaultTelemetry }

theorem foldl_of_absent {name : String} {α : Type} (codec : DirectiveCodec name α)
    (directives : List ConstDirective) (res : Valid α String) (h : ∀ directive ∈ directives, directive.name ≠ name) :
    directives.foldl (fun res directive => if directive.name = name then codec.fromDirective directive else res) res =
      res := by
  induction directives with
  | nil => rfl
  | cons directive rest ih =>
    rw [List.forall_mem_cons] at h
    rw [List.foldl_cons, if_neg h.1, ih h.2]

variable (codecs) in
theorem linkDirective_name (name : String) (h : "link" ≠ name) (links : List P.Link) :
    ∀ directive ∈ links.map (linkDirective codecs), directive.name ≠ name := by
  rintro _ hd rfl
  obtain ⟨link, _, rfl⟩ := List.mem_map.mp hd
  exact h rfl

theorem server_schemaOf (laws : codecs.Lawful) :
    processSchemaDirectives codecs.server codecs.defaultServer (schemaOf codecs config) = .ok config.server := by
  rw [processSchemaDirectives, schemaOf, List.foldl_append,
    foldl_of_absent codecs.server _ _ (linkDirective_name codecs "server" (by decide) config.links)]
  simp [DirectiveCodec.toDirective]
  exact laws.server config.server

theorem upstream_schemaOf (laws : codecs.Lawful) :
    processSchemaDirectives codecs.upstream codecs.defaultUpstream (schemaOf codecs config) = .ok config.upstream := by
  rw [processSchemaDirectives, schemaOf, List.foldl_append,
    foldl_of_absent codecs.upstream _ _ (linkDirective_name codecs "upstream" (by decide) config.links)]
  simp [DirectiveCodec.toDirective]
  exact laws.upstream config.upstream

theorem telemetry_schemaOf :
    processSchemaDirectives codecs.telemetry codecs.defaultTelemetry (schemaOf codecs config) =
      .ok codecs.defaultTelemetry := by
  rw [processSchemaDirectives, schemaOf, List.foldl_append,
    foldl_of_absent codecs.telemetry _ _ (linkDirective_name codecs "telemetry" (by decide) config.links)]
  simp [DirectiveCodec.toDirective, Valid.succeed]

theorem links_schemaOf (laws : codecs.Lawful) :
    processSchemaMultipleDirectives codecs.link (schemaOf codecs config) = .ok config.links := by
  have hlinks : named (· == "link") (config.links.map (linkDirective codecs)) =
      config.links.map (linkDirective codecs) := by
    refine named_const _ _ true fun directive hd => ?_
    obtain ⟨link, _, rfl⟩ := List.mem_map.mp hd
    rfl
  change Valid.fromIter (named (· == "link") (schemaOf codecs config).directives) _ = _
  rw [schemaOf, named_append, hlinks]
  refine (Valid.fromIter_eq_ok ..).mpr ?_
  simpa [named, DirectiveCodec.toDirective] using fun link _ => laws.link link

theorem toDict_ok {V W : Type} (dict : Dict V) (write : String → V → TypeDefinition) (read : String → V → W)
    (transform : TypeDefinition → Valid (Option (String × W)) String) (before after : List TypeDefinition)
    (hb : ∀ definition ∈ before, transform definition = .ok none)
    (ha : ∀ definition ∈ after, transform definition = .ok none)
    (h : ∀ entry ∈ dict.entries, transform (write entry.1 entry.2) = .ok (some (entry.1, read entry.1 entry.2))) :
    toDict (before ++ (dict.entries.map fun entry => write entry.1 entry.2) ++ after) transform =
      .ok (dict.map read) := by
  have hmap := fromIterSome_map transform dict.entries (fun entry => write entry.1 entry.2)
    (fun entry => (entry.1, read entry.1 entry.2)) h
  have hall := fromIterSome_append transform _ after _ _
    (fromIterSome_append transform before _ _ _ (fromIterSome_none transform before hb) hmap)
    (fromIterSome_none transform after ha)
  rw [toDict, hall, List.nil_append, List.append_nil]
  change Except.ok (Dict.ofEntries (dict.map read).entries) = _
  rw [Dict.ofEntries_entries]

theorem typeDefinitions_document :
    typeDefinitions (document codecs interfaceTypes inputTypes config) =
      (config.types.entries.map fun entry =>
        typeDefinition codecs (kindOf interfaceTypes inputTypes entry.1 entry.2) entry.1 entry.2) ++
      (config.unions.entries.map fun entry => unionDefinition entry.1 entry.2) ++
      (config.enums.entries.map fun entry => enumDefinition codecs entry.1 entry.2) := by
  simp [typeDefinitions, document, List.filterMap_append, List.filterMap_map]

theorem fromDocument_document (laws : codecs.Lawful) (h : ReadableConfig config) :
    fromDocument codecs (document codecs interfaceTypes inputTypes config) =
      .ok (restored codecs interfaceTypes inputTypes config) := by
  have htypes : toDict (typeDefinitions (document codecs interfaceTypes inputTypes config)) (toType codecs) =
      .ok (restored codecs interfaceTypes inputTypes config).types := by
    rw [typeDefinitions_document, List.append_assoc]
    refine toDict_ok config.types
      (fun name type => typeDefinition codecs (kindOf interfaceTypes inputTypes name type) name type)
      (fun name type => restoredType (kindOf interfaceTypes inputTypes name type) type) (toType codecs) [] _
      (fun _ hd => absurd hd List.not_mem_nil)
      (fun definition hd => ?_) fun entry he => toType_typeDefinition entry.2 laws (h entry he) _ entry.1
    rcases List.mem_append.mp hd with hd | hd
    · obtain ⟨entry, _, rfl⟩ := List.mem_map.mp hd
      rfl
    · obtain ⟨entry, _, rfl⟩ := List.mem_map.mp hd
      rfl
  have hunions : toDict (typeDefinitions (document codecs interfaceTypes inputTypes config)) toUnionType =
      .ok (restored codecs interfaceTypes inputTypes config).unions := by
    rw [typeDefinitions_document]
    refine toDict_ok config.unions unionDefinition (fun _ union => ⟨union.types, none⟩) toUnionType _ _
      (fun definition hd => ?_) (fun definition hd => ?_) fun entry _ => ?_
    · obtain ⟨entry, _, rfl⟩ := List.mem_map.mp hd
      simp only [toUnionType, typeDefinition]
      cases kindOf interfaceTypes inputTypes entry.1 entry.2 <;> rfl
    · obtain ⟨entry, _, rfl⟩ := List.mem_map.mp hd
      rfl
    · simp [toUnionType, unionDefinition, toUnion, Valid.succeed]
  have henums : toDict (typeDefinitions (document codecs interfaceTypes inputTypes config)) (toEnumType codecs) =
      .ok config.enums := by
    have hid : config.enums.map (fun _ type => type) = config.enums :=
      (Dict.map_eq_self_iff _ _).mpr fun _ _ => rfl
    rw [typeDefinitions_document, ← List.append_nil (_ ++ _)]
    refine (toDict_ok config.enums (enumDefinition codecs) (fun _ type => type) (toEnumType codecs) _ []
      (fun definition hd => ?_) (fun _ hd => absurd hd List.not_mem_nil) fun entry _ =>
        toEnumType_enumDefinition laws entry.1 entry.2).trans (congrArg Except.ok hid)
    rcases List.mem_append.mp hd with hd | hd
    · obtain ⟨entry, _, rfl⟩ := List.mem_map.mp hd
      simp only [toEnumType, typeDefinition]
      cases kindOf interfaceTypes inputTypes entry.1 entry.2 <;> rfl
    · obtain ⟨entry, _, rfl⟩ := List.mem_map.mp hd
      rfl
  have hschema : schemaDefinition (document codecs interfaceTypes inputTypes config) = schemaOf codecs config := rfl
  rw [fromDocument, htypes, hunions, henums, hschema, server_schemaOf config laws, upstream_schemaOf config laws,
    telemetry_schemaOf config, links_schemaOf config laws]
  rfl

end Documents

end Gqlforge.ServiceDocuments
