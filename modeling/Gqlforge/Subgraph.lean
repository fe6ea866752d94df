import Gqlforge.Config
import Gqlforge.EntityKeys

namespace Gqlforge.Subgraph

open Json Schema Config Templates Validation EntityKeys SelectionTexts

inductive Argument (J : Type) where
  | string (text : String)
  | other (value : J)
  deriving DecidableEq

structure Directive (J : Type) where
  name : String
  arguments : Object (Argument J)

abbrev federated (P : Payloads) : Payloads :=
  { P with Resolver := Resolver, Directive := Directive P.Json }

def entitiesFieldName : String := "_entities"

def serviceFieldName : String := "_service"

def serviceTypeName : String := "_Service"

def unionEntitiesName : String := "_Entity"

def entitiesArgName : String := "representations"

def entitiesTypeName : String := "_Any"

variable {P : Payloads} [DecidableEq P.Json]

def defaultType : TypeDef (federated P) where
  fields := .empty
  addedFields := []
  doc := none
  implements := ⟨[], List.nodup_nil⟩
  cache := none
  protectedBy := none
  resolvers := []
  directives := []

def fieldOf (typeOf : WrappingType) : Config.Field (federated P) where
  typeOf
  args := .empty
  doc := none
  modify := none
  omission := none
  cache := none
  defaultValue := none
  protectedBy := none
  discriminate := none
  resolvers := []
  directives := []

def serviceType : TypeDef (federated P) :=
  { defaultType with fields := Dict.empty.insert "sdl" (fieldOf (.named "String" false)) }

def serviceField : Config.Field (federated P) :=
  { fieldOf (.named serviceTypeName true) with
    doc := some "Apollo federation Query._service resolver"
    resolvers := [.service] }

def entitiesField (resolverByType : Object Resolver) : Config.Field (federated P) :=
  { fieldOf (.list (.named unionEntitiesName false) true) with
    args := Dict.empty.insert entitiesArgName
      ⟨.list (.named entitiesTypeName true) true, none, none, none⟩
    doc := some "Apollo federation Query._entities resolver"
    resolvers := [.entities resolverByType] }

namespace KeysExtractor

def validateKeys (types : Dict (TypeDef (federated P))) : String → Nat → List String → List (Valid Unit String)
  | _, _, [] => []
  | currentType, index, key :: rest => match types.get? currentType with
    | some type => match type.fields.get? key with
      | some field => .succeed () :: validateKeys types field.typeOf.name (index + 1) rest
      | none => .fail ("Invalid key at index " ++ toString index ++ ": '" ++ key ++ "' is not a field of '" ++
          currentType ++ "'") :: validateKeys types currentType (index + 1) rest
    | none => .fail ("Type '" ++ currentType ++ "' not found in config") ::
        validateKeys types currentType (index + 1) rest

def validateIter (types : Dict (TypeDef (federated P))) (currentType : String) (fields : List String) :
    Valid Unit String :=
  (Valid.collect (validateKeys types currentType 0 fields)).mapOk fun _ => ()

def validateExpressions (typeName : String) (types : Dict (TypeDef (federated P))) (segments : List Segment) :
    Valid Unit String :=
  (Valid.fromIter segments fun
    | .expression ("value" :: part :: path) => validateIter types typeName (part :: path)
    | _ => .succeed ()).mapOk fun _ => ()

def validate (types : Dict (TypeDef (federated P))) (resolver : Resolver) (typeName : String) : Valid Unit String :=
  match resolver with
  | .http spec =>
    (Valid.fromIter spec.query fun query =>
      validateExpressions typeName types (Mustache.parse query.value).segments).and
      (validateExpressions typeName types (Mustache.parse spec.url).segments)
  | _ => .succeed ()

end KeysExtractor

def addKey (type : TypeDef (federated P)) (fields : String) : TypeDef (federated P) :=
  let directive : Directive P.Json := ⟨"key", [("fields", .string fields)]⟩
  if type.directives.any fun present =>
      present.name = directive.name ∧ present.arguments = directive.arguments then type
  else { type with directives := type.directives ++ [directive] }

def insertField (type : TypeDef (federated P)) (name : String) (field : Config.Field (federated P)) :
    TypeDef (federated P) :=
  { type with fields := type.fields.insert name field }

section

variable (jsonText : ConstValue → String)

def withKey (types : Dict (TypeDef (federated P))) (typeName : String) (type : TypeDef (federated P)) :
    Valid (TypeDef (federated P)) String :=
  if 1 < type.resolvers.length then .fail "Only single resolver for entity is currently supported"
  else match type.resolvers.head? with
    | some resolver => (KeysExtractor.validate types resolver typeName).andThen fun _ =>
        (KeysExtractor.extractKeys jsonText resolver).mapOk fun
          | some fields => addKey type fields
          | none => type
    | none => .succeed type

def resolverByType (types : Object (TypeDef (federated P))) : Object Resolver :=
  types.filterMap fun (name, type) => type.resolvers.head?.map (name, ·)

def queryName (config : Config (federated P)) : String :=
  config.schema.query.getD "Query"

def updateType (types : Dict (TypeDef (federated P))) (name : String)
    (update : TypeDef (federated P) → TypeDef (federated P)) : Dict (TypeDef (federated P)) :=
  types.insert name (update ((types.get? name).getD defaultType))

def withService (config : Config (federated P)) : Config (federated P) :=
  { config with
    schema := { config.schema with query := some (queryName config) }
    types := updateType (config.types.insert serviceTypeName serviceType) (queryName config) fun type =>
      insertField type serviceFieldName serviceField }

def withEntities (resolvers : Object Resolver) (config : Config (federated P)) : Config (federated P) :=
  if resolvers.isEmpty then config
  else
    { config with
      unions := config.unions.insert unionEntitiesName ⟨⟨(resolvers.map Prod.fst).dedup, List.nodup_dedup _⟩, none⟩
      types := updateType (config.types.insert entitiesTypeName defaultType) (queryName config) fun type =>
        insertField type entitiesFieldName (entitiesField resolvers) }

def transform (enableFederation : P.Server → Bool) (config : Config (federated P)) :
    Valid (Config (federated P)) String :=
  if enableFederation config.server then
    (Valid.fromIter config.types.entries fun (name, type) =>
      ((withKey jsonText config.types name type).trace name).mapOk fun type => (name, type)).mapOk fun types =>
        withEntities (resolverByType config.types.entries) (withService { config with types := .ofEntries types })
  else .succeed config

end

def fieldTypeOf (types : Dict (TypeDef (federated P))) (typeName key : String) : Option String :=
  (types.get? typeName).bind fun type => (type.fields.get? key).map fun field => field.typeOf.name

def Leads (fieldType : String → String → Option String) : String → List String → Prop
  | _, [] => True
  | current, key :: rest => ∃ next, fieldType current key = some next ∧ Leads fieldType next rest

def checked : Resolver → List (List String)
  | .http spec => spec.query.flatMap (fun query => pathsOf query.value) ++ pathsOf spec.url
  | _ => []

section Checks

variable {types : Dict (TypeDef (federated P))}

omit [DecidableEq P.Json]

theorem validateKeys_ok_iff (current : String) (index : Nat) (path : List String) :
    (∃ units, Valid.collect (KeysExtractor.validateKeys types current index path) = .ok units) ↔
      Leads (fieldTypeOf types) current path := by
  induction path generalizing current index with
  | nil => exact iff_of_true ⟨[], rfl⟩ trivial
  | cons key rest ih =>
    rw [KeysExtractor.validateKeys, Leads, fieldTypeOf]
    cases htype : types.get? current with
    | none => simp [Valid.collect_cons, Valid.mapOk_eq_ok, Valid.zip_eq_ok, Valid.fail]
    | some type =>
      cases hfield : type.fields.get? key with
      | none => simp [Valid.collect_cons, Valid.mapOk_eq_ok, Valid.zip_eq_ok, Valid.fail, hfield]
      | some field =>
        simp only [Valid.collect_cons, Valid.mapOk_succeeds_iff, Valid.zip_succeeds_iff, Option.bind_some, hfield,
          Option.map_some, Option.some.injEq, exists_eq_left']
        rw [ih]
        exact and_iff_right ⟨(), rfl⟩

theorem validateExpressions_ok_iff (typeName template : String) :
    (∃ u, KeysExtractor.validateExpressions typeName types (Mustache.parse template).segments = .ok u) ↔
      ∀ path ∈ pathsOf template, Leads (fieldTypeOf types) typeName path := by
  rw [KeysExtractor.validateExpressions, Valid.mapOk_succeeds_iff, Valid.fromIter_succeeds_iff, pathsOf]
  simp only [List.mem_filterMap, forall_exists_index, and_imp]
  constructor
  · intro h path segment hsegment hpath
    have hsucceeds := h segment hsegment
    split at hpath
    next path' =>
      obtain rfl := Option.some.inj hpath
      cases path' with
      | nil => trivial
      | cons part rest =>
        change ∃ u, KeysExtractor.validateIter types typeName (part :: rest) = .ok u at hsucceeds
        rw [KeysExtractor.validateIter, Valid.mapOk_succeeds_iff] at hsucceeds
        exact (validateKeys_ok_iff typeName 0 (part :: rest)).mp hsucceeds
    next => cases hpath
  · intro h segment hsegment
    split
    next part rest =>
      rw [KeysExtractor.validateIter, Valid.mapOk_succeeds_iff]
      exact (validateKeys_ok_iff typeName 0 (part :: rest)).mpr (h _ _ hsegment rfl)
    next => exact ⟨(), rfl⟩

theorem validate_ok_iff (resolver : Resolver) (typeName : String) :
    (∃ u, KeysExtractor.validate types resolver typeName = .ok u) ↔
      ∀ path ∈ checked resolver, Leads (fieldTypeOf types) typeName path := by
  cases resolver with
  | http spec =>
    simp only [KeysExtractor.validate, checked, List.mem_append, List.mem_flatMap, or_imp, forall_and]
    rw [← validateExpressions_ok_iff]
    have hquery : (∃ units, (Valid.fromIter spec.query fun query => KeysExtractor.validateExpressions typeName types
        (Mustache.parse query.value).segments) = .ok units) ↔
          ∀ path, (∃ query ∈ spec.query, path ∈ pathsOf query.value) → Leads (fieldTypeOf types) typeName path := by
      rw [Valid.fromIter_succeeds_iff]
      simp only [validateExpressions_ok_iff]
      constructor
      · rintro h path ⟨query, hquery, hpath⟩
        exact h query hquery path hpath
      · exact fun h query hquery path hpath => h path ⟨query, hquery, hpath⟩
    rw [← hquery]
    simp only [Valid.and_eq_ok]
    constructor
    · rintro ⟨u, hunits, hu⟩
      exact ⟨hunits, u, hu⟩
    · rintro ⟨hunits, u, hu⟩
      exact ⟨u, hunits, hu⟩
  | _ => exact iff_of_true ⟨(), rfl⟩ (by simp [checked])

end Checks

section

variable (jsonText : ConstValue → String)

def keyed (type : TypeDef (federated P)) : TypeDef (federated P) :=
  match type.resolvers.head? with
  | some resolver => match KeysExtractor.extractKeys jsonText resolver with
    | .ok (some fields) => addKey type fields
    | _ => type
  | none => type

structure Admissible (fieldType : String → String → Option String) (typeName : String) (type : TypeDef (federated P)) :
    Prop where
  single : type.resolvers.length ≤ 1
  leads : ∀ resolver ∈ type.resolvers, ∀ path ∈ checked resolver, Leads fieldType typeName path
  extracts : ∀ resolver ∈ type.resolvers, ∃ fields, KeysExtractor.extractKeys jsonText resolver = .ok fields

theorem withKey_eq_ok (types : Dict (TypeDef (federated P))) (typeName : String)
    (type type' : TypeDef (federated P)) : withKey jsonText types typeName type = .ok type' ↔
      Admissible jsonText (fieldTypeOf types) typeName type ∧ type' = keyed jsonText type := by
  rw [withKey, keyed]
  cases hresolvers : type.resolvers with
  | nil =>
    constructor
    · intro h
      refine ⟨⟨?_, ?_, ?_⟩, (Except.ok.inj h).symm⟩ <;> simp [hresolvers]
    · rintro ⟨_, rfl⟩
      rfl
  | cons resolver rest =>
    cases rest with
    | cons second rest =>
      constructor
      · intro h
        cases h
      · rintro ⟨⟨hsingle, _, _⟩, _⟩
        simp [hresolvers] at hsingle
    | nil =>
      simp only [List.length_singleton, lt_self_iff_false, if_false, List.head?_cons, Valid.andThen_eq_ok,
        Valid.mapOk_eq_ok]
      constructor
      · rintro ⟨u, hvalidate, fields, hfields, rfl⟩
        refine ⟨⟨?_, ?_, ?_⟩, ?_⟩
        · simp [hresolvers]
        · simpa [hresolvers] using (validate_ok_iff resolver typeName).mp ⟨u, hvalidate⟩
        · simpa [hresolvers] using ⟨fields, hfields⟩
        · rw [hfields]
          cases fields <;> rfl
      · rintro ⟨hadmissible, rfl⟩
        have hmem : resolver ∈ type.resolvers := by simp [hresolvers]
        obtain ⟨u, hvalidate⟩ := (validate_ok_iff resolver typeName).mpr (hadmissible.leads resolver hmem)
        obtain ⟨fields, hfields⟩ := hadmissible.extracts resolver hmem
        refine ⟨u, hvalidate, fields, hfields, ?_⟩
        rw [hfields]
        cases fields <;> rfl

def subgraphOf (config : Config (federated P)) : Config (federated P) :=
  withEntities (resolverByType config.types.entries)
    (withService { config with types := config.types.map fun _ type => keyed jsonText type })

theorem transform_eq_ok {enableFederation : P.Server → Bool} {config : Config (federated P)}
    (henabled : enableFederation config.server = true) (out : Config (federated P)) :
    transform jsonText enableFederation config = .ok out ↔
      (∀ entry ∈ config.types.entries, Admissible jsonText (fieldTypeOf config.types) entry.1 entry.2) ∧
        out = subgraphOf jsonText config := by
  rw [transform, if_pos henabled, Valid.mapOk_eq_ok]
  have hiter (types : Object (TypeDef (federated P))) : (Valid.fromIter config.types.entries fun (name, type) =>
      ((withKey jsonText config.types name type).trace name).mapOk fun type => (name, type)) = .ok types ↔
        (∀ entry ∈ config.types.entries, Admissible jsonText (fieldTypeOf config.types) entry.1 entry.2) ∧
          types = config.types.entries.map fun entry => (entry.1, keyed jsonText entry.2) := by
    induction config.types.entries generalizing types with
    | nil => simp [Valid.fromIter, Valid.collect, Valid.succeed, eq_comm]
    | cons entry entries ih =>
      simp only [Valid.fromIter_cons_eq_ok, ih, Valid.mapOk_eq_ok, Valid.trace_eq_ok, withKey_eq_ok,
        List.forall_mem_cons, List.map_cons]
      constructor
      · rintro ⟨_, _, rfl, ⟨type, ⟨hadmissible, rfl⟩, rfl⟩, hrest, rfl⟩
        exact ⟨⟨hadmissible, hrest⟩, rfl⟩
      · rintro ⟨⟨hadmissible, hrest⟩, rfl⟩
        exact ⟨_, _, rfl, ⟨_, ⟨hadmissible, rfl⟩, rfl⟩, hrest, rfl⟩
  have hdict : Dict.ofEntries (config.types.entries.map fun entry => (entry.1, keyed jsonText entry.2)) =
      config.types.map fun _ type => keyed jsonText type :=
    Dict.ofEntries_entries (config.types.map fun _ type => keyed jsonText type)
  simp only [hiter]
  constructor
  · rintro ⟨types, ⟨hadmissible, rfl⟩, rfl⟩
    rw [hdict]
    exact ⟨hadmissible, rfl⟩
  · rintro ⟨hadmissible, rfl⟩
    refine ⟨_, ⟨hadmissible, rfl⟩, ?_⟩
    rw [hdict]
    rfl

theorem addKey_resolvers (type : TypeDef (federated P)) (fields : String) :
    (addKey type fields).resolvers = type.resolvers := by
  rw [addKey]
  split <;> rfl

theorem addKey_addKey (type : TypeDef (federated P)) (fields : String) :
    addKey (addKey type fields) fields = addKey type fields := by
  simp only [addKey]
  split
  next => rfl
  next => rw [if_pos (by simp)]

theorem keyed_resolvers (type : TypeDef (federated P)) : (keyed jsonText type).resolvers = type.resolvers := by
  rw [keyed]
  split
  · split
    · exact addKey_resolvers _ _
    · rfl
  · rfl

theorem keyed_keyed (type : TypeDef (federated P)) : keyed jsonText (keyed jsonText type) = keyed jsonText type := by
  rw [keyed, keyed_resolvers]
  cases hhead : type.resolvers.head? with
  | none => rfl
  | some resolver =>
    simp only
    split
    next fields hfields =>
      rw [keyed, hhead]
      simp only [hfields]
      exact addKey_addKey type fields
    next => rfl

theorem keyed_insertField (type : TypeDef (federated P)) (name : String) (field : Config.Field (federated P)) :
    keyed jsonText (insertField type name field) = insertField (keyed jsonText type) name field := by
  have hadd (fields : String) :
      addKey (insertField type name field) fields = insertField (addKey type fields) name field := by
    rw [addKey, addKey, apply_ite (insertField · name field)]
    rfl
  rw [keyed, keyed, show (insertField type name field).resolvers = type.resolvers from rfl]
  split
  · split
    · exact hadd _
    · rfl
  · rfl

end

section Types

omit [DecidableEq P.Json]

variable (types : Dict (TypeDef (federated P)))

theorem get?_updateType (name : String) (update : TypeDef (federated P) → TypeDef (federated P)) (other : String) :
    (updateType types name update).get? other =
      if other = name then some (update ((types.get? name).getD defaultType)) else types.get? other :=
  Dict.get?_insert types name _ other

theorem resolverByType_cons (name : String) (type : TypeDef (federated P)) (rest : Object (TypeDef (federated P))) :
    resolverByType ((name, type) :: rest) = (type.resolvers.head?.map (name, ·)).toList ++ resolverByType rest := by
  cases hhead : type.resolvers.head? <;> simp [resolverByType, hhead]

theorem mem_resolverByType {entries : Object (TypeDef (federated P))} {entity : String × Resolver} :
    entity ∈ resolverByType entries ↔ ∃ type, (entity.1, type) ∈ entries ∧ type.resolvers.head? = some entity.2 := by
  obtain ⟨name, resolver⟩ := entity
  simp only [resolverByType, List.mem_filterMap, Option.map_eq_some_iff, Prod.mk.injEq]
  constructor
  · rintro ⟨⟨_, type⟩, hentry, _, hhead, rfl, rfl⟩
    exact ⟨type, hentry, hhead⟩
  · rintro ⟨type, hentry, hhead⟩
    exact ⟨(name, type), hentry, resolver, hhead, rfl, rfl⟩

theorem resolverByType_insertKey (entries : Object (TypeDef (federated P))) (hn : (entries.map Prod.fst).Nodup)
    (name : String) (type : TypeDef (federated P)) (h : type.resolvers = []) :
    resolverByType (entries.insertKey name type) =
      (resolverByType entries).filter fun entity => decide (entity.1 ≠ name) := by
  induction entries with
  | nil => simp [Object.insertKey, resolverByType, h]
  | cons entry rest ih =>
    obtain ⟨key, stored⟩ := entry
    rw [List.map_cons, List.nodup_cons] at hn
    rw [Object.insertKey, resolverByType_cons key stored, List.filter_append]
    split
    next he =>
      subst he
      have hstored : ((stored.resolvers.head?.map (key, ·)).toList.filter fun entity =>
          decide (entity.1 ≠ key)) = [] := by
        cases stored.resolvers.head? <;> simp
      have hrest : (resolverByType rest).filter (fun entity => decide (entity.1 ≠ key)) = resolverByType rest := by
        rw [List.filter_eq_self]
        rintro entity hentity
        obtain ⟨type, hentry, _⟩ := mem_resolverByType.mp hentity
        have hne : entity.1 ≠ key := by
          rintro rfl
          exact hn.1 (List.mem_map.mpr ⟨_, hentry, rfl⟩)
        exact decide_eq_true hne
      rw [resolverByType_cons, h, hstored, hrest]
      rfl
    next hne =>
      have hstored : ((stored.resolvers.head?.map (key, ·)).toList.filter fun entity =>
          decide (entity.1 ≠ name)) = (stored.resolvers.head?.map (key, ·)).toList := by
        cases stored.resolvers.head? <;> simp [hne]
      rw [resolverByType_cons, ih hn.2, hstored]

theorem resolverByType_insertKey_same (entries : Object (TypeDef (federated P))) (name : String)
    (type : TypeDef (federated P)) (h : type.resolvers = ((entries.lookup name).getD defaultType).resolvers) :
    resolverByType (entries.insertKey name type) = resolverByType entries := by
  induction entries with
  | nil =>
    have hnone : type.resolvers = [] := h
    simp [Object.insertKey, resolverByType, hnone]
  | cons entry rest ih =>
    obtain ⟨key, stored⟩ := entry
    rw [List.lookup_cons] at h
    rw [Object.insertKey]
    split
    next he =>
      subst he
      rw [beq_self_eq_true] at h
      rw [resolverByType_cons, resolverByType_cons, show type.resolvers = stored.resolvers from h]
    next hne =>
      have hbeq : (name == key) = false := beq_eq_false_iff_ne.mpr (Ne.symm hne)
      rw [hbeq] at h
      rw [resolverByType_cons, resolverByType_cons, ih h]

theorem resolverByType_updateType (name : String) (update : TypeDef (federated P) → TypeDef (federated P))
    (h : ∀ type, (update type).resolvers = type.resolvers) :
    resolverByType (updateType types name update).entries = resolverByType types.entries :=
  resolverByType_insertKey_same types.entries name _ (h _)

theorem resolverByType_insert (name : String) {type : TypeDef (federated P)} (h : type.resolvers = []) :
    resolverByType (types.insert name type).entries =
      (resolverByType types.entries).filter fun entity => decide (entity.1 ≠ name) :=
  resolverByType_insertKey types.entries types.nodup name type h

end Types

section Again

omit [DecidableEq P.Json]

variable (config : Config (federated P)) (resolvers : Object Resolver)

def addService (type : TypeDef (federated P)) : TypeDef (federated P) :=
  insertField type serviceFieldName serviceField

def addEntities (type : TypeDef (federated P)) : TypeDef (federated P) :=
  insertField type entitiesFieldName (entitiesField resolvers)

def serviceTypes (query : String) (types : Dict (TypeDef (federated P))) : Dict (TypeDef (federated P)) :=
  updateType (types.insert serviceTypeName serviceType) query addService

def entitiesTypes (query : String) (types : Dict (TypeDef (federated P))) : Dict (TypeDef (federated P)) :=
  updateType (types.insert entitiesTypeName defaultType) query (addEntities resolvers)

theorem addService_addService (type : TypeDef (federated P)) : addService (addService type) = addService type := by
  have hfields : (type.fields.insert serviceFieldName serviceField).insert serviceFieldName serviceField =
      type.fields.insert serviceFieldName serviceField := Dict.insert_self (by rw [Dict.get?_insert, if_pos rfl])
  simp only [addService, insertField, hfields]

theorem addEntities_addEntities (type : TypeDef (federated P)) :
    addEntities resolvers (addEntities resolvers type) = addEntities resolvers type := by
  have hfields : (type.fields.insert entitiesFieldName (entitiesField resolvers)).insert entitiesFieldName
      (entitiesField resolvers) = type.fields.insert entitiesFieldName (entitiesField resolvers) :=
    Dict.insert_self (by rw [Dict.get?_insert, if_pos rfl])
  simp only [addEntities, insertField, hfields]

theorem addService_addEntities (type : TypeDef (federated P)) :
    addService (addEntities resolvers (addService type)) = addEntities resolvers (addService type) := by
  have hfields : ((type.fields.insert serviceFieldName serviceField).insert entitiesFieldName
      (entitiesField resolvers)).insert serviceFieldName serviceField =
        (type.fields.insert serviceFieldName serviceField).insert entitiesFieldName (entitiesField resolvers) := by
    apply Dict.insert_self
    rw [Dict.get?_insert, if_neg (by decide), Dict.get?_insert, if_pos rfl]
  simp only [addService, addEntities, insertField, hfields]

variable {resolvers} (query : String) (types : Dict (TypeDef (federated P)))

theorem get?_serviceTypes (name : String) : (serviceTypes query types).get? name =
    if name = query then
      some (addService (if query = serviceTypeName then serviceType else (types.get? query).getD defaultType))
    else if name = serviceTypeName then some serviceType else types.get? name := by
  rw [serviceTypes, get?_updateType, Dict.get?_insert, Dict.get?_insert]
  by_cases h : query = serviceTypeName <;> simp [h]

theorem get?_entitiesTypes (name : String) : (entitiesTypes resolvers query types).get? name =
    if name = query then
      some (addEntities resolvers
        (if query = entitiesTypeName then defaultType else (types.get? query).getD defaultType))
    else if name = entitiesTypeName then some defaultType else types.get? name := by
  rw [entitiesTypes, get?_updateType, Dict.get?_insert, Dict.get?_insert]
  by_cases h : query = entitiesTypeName <;> simp [h]

theorem keys_updateType {name : String} {types : Dict (TypeDef (federated P))} (h : name ∈ types.keys)
    (update : TypeDef (federated P) → TypeDef (federated P)) : (updateType types name update).keys = types.keys :=
  Dict.keys_insert_of_mem types h _

theorem mem_keys_iff (name : String) : name ∈ types.keys ↔ (types.get? name).isSome := by
  rw [← Dict.contains_iff]
  rfl

theorem keys_serviceTypes {types : Dict (TypeDef (federated P))} (hservice : (types.get? serviceTypeName).isSome)
    (hquery : (types.get? query).isSome) : (serviceTypes query types).keys = types.keys := by
  rw [← mem_keys_iff] at hservice hquery
  have hinsert := Dict.keys_insert_of_mem types hservice serviceType
  rw [serviceTypes, keys_updateType (by rw [hinsert]; exact hquery), hinsert]

theorem keys_entitiesTypes {types : Dict (TypeDef (federated P))} (hentities : (types.get? entitiesTypeName).isSome)
    (hquery : (types.get? query).isSome) : (entitiesTypes resolvers query types).keys = types.keys := by
  rw [← mem_keys_iff] at hentities hquery
  have hinsert := Dict.keys_insert_of_mem types hentities defaultType
  rw [entitiesTypes, keys_updateType (by rw [hinsert]; exact hquery), hinsert]

theorem serviceTypes_isSome : ((serviceTypes query types).get? serviceTypeName).isSome ∧
    ((serviceTypes query types).get? query).isSome := by
  simp only [get?_serviceTypes]
  constructor
  · split <;> rfl
  · rfl

theorem entitiesTypes_isSome : ((entitiesTypes resolvers query types).get? entitiesTypeName).isSome ∧
    ((entitiesTypes resolvers query types).get? query).isSome := by
  simp only [get?_entitiesTypes]
  constructor
  · split <;> rfl
  · rfl

theorem isSome_entitiesTypes {name : String} (h : (types.get? name).isSome) :
    ((entitiesTypes resolvers query types).get? name).isSome := by
  rw [get?_entitiesTypes]
  split
  · rfl
  · split
    · rfl
    · exact h

theorem serviceTypes_again : serviceTypes query (serviceTypes query types) = serviceTypes query types := by
  obtain ⟨hservice, hquery⟩ := serviceTypes_isSome query types
  apply Dict.eq_of_get? (keys_serviceTypes query hservice hquery)
  intro name
  by_cases hname : name = query
  · by_cases h : query = serviceTypeName <;> simp [get?_serviceTypes, hname, h, addService_addService]
  · simp only [get?_serviceTypes, if_neg hname]
    by_cases h : name = serviceTypeName <;> simp [h]

variable (resolvers) in
theorem serviceTypes_entitiesTypes (hservice : query ≠ serviceTypeName) (hentities : query ≠ entitiesTypeName) :
    serviceTypes query (entitiesTypes resolvers query (serviceTypes query types)) =
      entitiesTypes resolvers query (serviceTypes query types) := by
  apply Dict.eq_of_get? (keys_serviceTypes query (isSome_entitiesTypes query _ (serviceTypes_isSome query types).1)
    (entitiesTypes_isSome query _).2)
  intro name
  by_cases hname : name = query
  · subst hname
    simp [get?_serviceTypes, get?_entitiesTypes, hservice, hentities, addService_addEntities]
  · simp only [get?_serviceTypes, get?_entitiesTypes, if_neg hname]
    by_cases h : name = serviceTypeName
    · have hne : serviceTypeName ≠ entitiesTypeName := by decide
      simp [h, hne]
    · simp [h]

variable (resolvers) in
theorem entitiesTypes_again :
    entitiesTypes resolvers query (serviceTypes query (entitiesTypes resolvers query (serviceTypes query types))) =
      entitiesTypes resolvers query (serviceTypes query types) := by
  let served := entitiesTypes resolvers query (serviceTypes query types)
  have hservice : (served.get? serviceTypeName).isSome :=
    isSome_entitiesTypes query _ (serviceTypes_isSome query types).1
  obtain ⟨hentities, hquery⟩ : (served.get? entitiesTypeName).isSome ∧ (served.get? query).isSome :=
    entitiesTypes_isSome query (serviceTypes query types)
  have hkeys : (serviceTypes query served).keys = served.keys := keys_serviceTypes query hservice hquery
  rw [← mem_keys_iff, ← hkeys, mem_keys_iff] at hentities
  rw [← mem_keys_iff, ← hkeys, mem_keys_iff] at hquery
  apply Dict.eq_of_get? ((keys_entitiesTypes query hentities hquery).trans hkeys)
  intro name
  simp only [served]
  by_cases hname : name = query
  · subst hname
    by_cases hany : name = entitiesTypeName
    · simp [get?_entitiesTypes, hany]
    · by_cases h : name = serviceTypeName
      · have hne : serviceTypeName ≠ entitiesTypeName := by decide
        simp [get?_entitiesTypes, get?_serviceTypes, h, hne]
      · simp [get?_entitiesTypes, get?_serviceTypes, h, hany, addService_addEntities, addEntities_addEntities]
  · simp only [get?_serviceTypes, get?_entitiesTypes, if_neg hname]
    by_cases hany : name = entitiesTypeName
    · simp [hany]
    · by_cases h : name = serviceTypeName <;> simp [h, hany]

theorem withService_again (config : Config (federated P)) : withService (withService config) = withService config := by
  have htypes := serviceTypes_again (queryName config) config.types
  change { withService config with
    schema := { config.schema with query := some (queryName config) }
    types := serviceTypes (queryName config) (serviceTypes (queryName config) config.types) } = withService config
  rw [htypes]
  rfl

variable (resolvers)

theorem withEntities_nil (config : Config (federated P)) : withEntities [] config = config := rfl

theorem withEntities_eq {resolvers : Object Resolver} (h : resolvers ≠ []) (config : Config (federated P)) :
    withEntities resolvers config = { config with
      unions := config.unions.insert unionEntitiesName ⟨⟨(resolvers.map Prod.fst).dedup, List.nodup_dedup _⟩, none⟩
      types := entitiesTypes resolvers (queryName config) config.types } := by
  rw [withEntities, if_neg (by simpa using h)]
  rfl

theorem withService_withEntities {resolvers : Object Resolver} (h : resolvers ≠ []) (config : Config (federated P)) :
    withService (withEntities resolvers (withService config)) = { withEntities resolvers (withService config) with
      types := serviceTypes (queryName config)
        (entitiesTypes resolvers (queryName config) (serviceTypes (queryName config) config.types)) } := by
  rw [withEntities_eq h]
  rfl

theorem withEntities_again (config : Config (federated P)) :
    withEntities resolvers (withService (withEntities resolvers (withService config))) =
      withEntities resolvers (withService config) := by
  by_cases h : resolvers = []
  · subst h
    exact withService_again config
  · let union : Union := ⟨⟨(resolvers.map Prod.fst).dedup, List.nodup_dedup _⟩, none⟩
    have hunions : (config.unions.insert unionEntitiesName union).insert unionEntitiesName union =
        config.unions.insert unionEntitiesName union := Dict.insert_self (by rw [Dict.get?_insert, if_pos rfl])
    have htypes := entitiesTypes_again resolvers (queryName config) config.types
    rw [withService_withEntities h, withEntities_eq h, withEntities_eq h]
    change { withService config with
      unions := (config.unions.insert unionEntitiesName union).insert unionEntitiesName union
      types := entitiesTypes resolvers (queryName config) (serviceTypes (queryName config)
        (entitiesTypes resolvers (queryName config) (serviceTypes (queryName config) config.types))) } =
      { withService config with
        unions := config.unions.insert unionEntitiesName union
        types := entitiesTypes resolvers (queryName config) (serviceTypes (queryName config) config.types) }
    rw [hunions, htypes]

theorem withEntities_again_iff (config : Config (federated P)) {resolvers' : Object Resolver}
    (hsome : resolvers' ≠ [] → resolvers ≠ []) :
    withEntities resolvers' (withService (withEntities resolvers (withService config))) =
      withEntities resolvers (withService config) ↔ resolvers' = resolvers ∨
        resolvers' = [] ∧ queryName config ≠ serviceTypeName ∧ queryName config ≠ entitiesTypeName := by
  have hfields (type : TypeDef (federated P)) (found : Object Resolver) :
      (addEntities found type).fields.get? entitiesFieldName = some (entitiesField found) := by
    rw [addEntities, insertField, Dict.get?_insert, if_pos rfl]
  constructor
  · intro h
    by_cases hsame : resolvers' = resolvers
    · exact .inl hsame
    have hne : resolvers ≠ [] := by
      intro hnil
      exact hsame (by_contra fun hne => hsome (fun hnil' => hne (hnil'.trans hnil.symm)) hnil)
    have htypes := congrArg (fun config => config.types.get? (queryName config)) h
    by_cases hnil : resolvers' = []
    · subst hnil
      rw [withEntities_nil, withService_withEntities hne, withEntities_eq hne] at htypes
      change (serviceTypes (queryName config) (entitiesTypes resolvers (queryName config)
        (serviceTypes (queryName config) config.types))).get? (queryName config) = (entitiesTypes resolvers
          (queryName config) (serviceTypes (queryName config) config.types)).get? (queryName config) at htypes
      rw [get?_serviceTypes, get?_entitiesTypes, if_pos rfl, if_pos rfl] at htypes
      refine .inr ⟨rfl, fun hquery => ?_, fun hquery => ?_⟩
      · have hfield := congrArg (fun type => type.fields.get? entitiesFieldName) (Option.some.inj htypes)
        simp only [hfields] at hfield
        rw [if_pos hquery, addService, insertField, Dict.get?_insert, if_neg (by decide)] at hfield
        cases hfield
      · have hne : queryName config ≠ serviceTypeName := by
          rw [hquery]
          decide
        have hfield := congrArg (fun type => type.fields.get? serviceFieldName) (Option.some.inj htypes)
        rw [if_neg hne, if_pos hquery] at hfield
        simp only [addService, addEntities, insertField, Dict.get?_insert, if_true] at hfield
        cases hfield
    · rw [withEntities_eq hnil, withService_withEntities hne, withEntities_eq hne] at htypes
      change (entitiesTypes resolvers' (queryName config) _).get? (queryName config) =
        (entitiesTypes resolvers (queryName config) _).get? (queryName config) at htypes
      rw [get?_entitiesTypes, get?_entitiesTypes, if_pos rfl, if_pos rfl] at htypes
      have hfield := congrArg (fun type => type.fields.get? entitiesFieldName) (Option.some.inj htypes)
      simp only [hfields] at hfield
      have hresolvers := congrArg Config.Field.resolvers (Option.some.inj hfield)
      exact absurd (Resolver.entities.inj (List.cons.inj hresolvers).1) hsame
  · rintro (rfl | ⟨rfl, hservice, hentities⟩)
    · exact withEntities_again resolvers' config
    · by_cases hne : resolvers = []
      · subst hne
        exact withEntities_again [] config
      · rw [withEntities_nil, withService_withEntities hne, serviceTypes_entitiesTypes resolvers _ _ hservice hentities,
          withEntities_eq hne]
        rfl

end Again

section Served

variable (jsonText : ConstValue → String) (query : String) (types : Dict (TypeDef (federated P)))

def keyedTypes : Dict (TypeDef (federated P)) :=
  types.map fun _ => keyed jsonText

theorem get?_keyedTypes (name : String) :
    (keyedTypes jsonText types).get? name = (types.get? name).map (keyed jsonText) :=
  Dict.get?_map types (fun _ => keyed jsonText) name

theorem resolverByType_keyedTypes :
    resolverByType (keyedTypes jsonText types).entries = resolverByType types.entries := by
  simp only [resolverByType, keyedTypes, Dict.map, List.filterMap_map]
  refine List.filterMap_congr fun entry _ => ?_
  simp only [Function.comp, keyed_resolvers]

theorem keyed_fields (type : TypeDef (federated P)) : (keyed jsonText type).fields = type.fields := by
  have hadd (fields : String) : (addKey type fields).fields = type.fields := by
    rw [addKey]
    split <;> rfl
  rw [keyed]
  split
  · split
    · exact hadd _
    · rfl
  · rfl

theorem fieldTypeOf_keyedTypes : fieldTypeOf (keyedTypes jsonText types) = fieldTypeOf types := by
  funext name key
  rw [fieldTypeOf, fieldTypeOf, get?_keyedTypes]
  cases types.get? name with
  | none => rfl
  | some type => rw [Option.map_some, Option.bind_some, Option.bind_some, keyed_fields]

variable {type : TypeDef (federated P)}

theorem keyed_of_nil (h : type.resolvers = []) : keyed jsonText type = type := by
  rw [keyed, h]
  rfl

theorem keyed_addService (h : keyed jsonText type = type) : keyed jsonText (addService type) = addService type := by
  rw [addService, keyed_insertField, h]

theorem keyed_addEntities (resolvers : Object Resolver) (h : keyed jsonText type = type) :
    keyed jsonText (addEntities resolvers type) = addEntities resolvers type := by
  rw [addEntities, keyed_insertField, h]

def AllKeyed : Prop :=
  ∀ name type, types.get? name = some type → keyed jsonText type = type

theorem allKeyed_keyedTypes : AllKeyed jsonText (keyedTypes jsonText types) := by
  intro name type htype
  rw [get?_keyedTypes, Option.map_eq_some_iff] at htype
  obtain ⟨type, _, rfl⟩ := htype
  exact keyed_keyed jsonText type

variable {jsonText types}

theorem AllKeyed.getD (h : AllKeyed jsonText types) (name : String) :
    keyed jsonText ((types.get? name).getD defaultType) = (types.get? name).getD defaultType := by
  cases htype : types.get? name with
  | none => exact keyed_of_nil jsonText rfl
  | some type => exact h name type htype

theorem AllKeyed.serviceTypes (h : AllKeyed jsonText types) : AllKeyed jsonText (serviceTypes query types) := by
  intro name type htype
  rw [get?_serviceTypes] at htype
  split at htype
  · obtain rfl := Option.some.inj htype
    apply keyed_addService
    split
    · exact keyed_of_nil jsonText rfl
    · exact h.getD query
  · split at htype
    · obtain rfl := Option.some.inj htype
      exact keyed_of_nil jsonText rfl
    · exact h name type htype

theorem AllKeyed.entitiesTypes (h : AllKeyed jsonText types) (resolvers : Object Resolver) :
    AllKeyed jsonText (entitiesTypes resolvers query types) := by
  intro name type htype
  rw [get?_entitiesTypes] at htype
  split at htype
  · obtain rfl := Option.some.inj htype
    apply keyed_addEntities
    split
    · exact keyed_of_nil jsonText rfl
    · exact h.getD query
  · split at htype
    · obtain rfl := Option.some.inj htype
      exact keyed_of_nil jsonText rfl
    · exact h name type htype

theorem AllKeyed.keyedTypes_eq (h : AllKeyed jsonText types) : keyedTypes jsonText types = types := by
  rw [keyedTypes, Dict.map_eq_self_iff]
  exact fun entry hentry => h entry.1 entry.2 ((types.get?_eq_some_iff _ _).mpr hentry)

variable (types)

omit [DecidableEq P.Json]

theorem resolverByType_serviceTypes : resolverByType (serviceTypes query types).entries =
    (resolverByType types.entries).filter fun entity => decide (entity.1 ≠ serviceTypeName) := by
  rw [serviceTypes, resolverByType_updateType _ query addService fun _ => rfl, resolverByType_insert types _ rfl]

theorem resolverByType_entitiesTypes (resolvers : Object Resolver) :
    resolverByType (entitiesTypes resolvers query types).entries =
      (resolverByType types.entries).filter fun entity => decide (entity.1 ≠ entitiesTypeName) := by
  rw [entitiesTypes, resolverByType_updateType _ query (addEntities resolvers) fun _ => rfl,
    resolverByType_insert types _ rfl]

def servedFieldType (typeName key : String) : Option String :=
  if typeName = query ∧ key = entitiesFieldName then some unionEntitiesName
  else if typeName = entitiesTypeName then none
  else if typeName = query ∧ key = serviceFieldName then some serviceTypeName
  else if typeName = serviceTypeName then if key = "sdl" then some "String" else none
  else fieldTypeOf types typeName key

theorem fieldTypeOf_served (resolvers : Object Resolver) :
    fieldTypeOf (entitiesTypes resolvers query (serviceTypes query types)) = servedFieldType query types := by
  funext name key
  have hinsert (type : TypeDef (federated P)) (name : String) (field : Config.Field (federated P)) :
      ((insertField type name field).fields.get? key).map (fun field => field.typeOf.name) =
        if key = name then some field.typeOf.name
        else (type.fields.get? key).map fun field => field.typeOf.name := by
    rw [insertField, Dict.get?_insert]
    split <;> rfl
  have hservice : ((serviceType : TypeDef (federated P)).fields.get? key).map (fun field => field.typeOf.name) =
      if key = "sdl" then some "String" else none := by
    rw [serviceType, Dict.get?_insert]
    split <;> rfl
  have hdefault : ((defaultType : TypeDef (federated P)).fields.get? key).map (fun field => field.typeOf.name) = none :=
    rfl
  have hne : serviceTypeName ≠ entitiesTypeName := by decide
  rw [fieldTypeOf, get?_entitiesTypes, get?_serviceTypes, get?_serviceTypes, servedFieldType]
  by_cases hquery : name = query
  · subst hquery
    rw [if_pos rfl, if_pos rfl, Option.bind_some, Option.getD_some, addEntities, hinsert]
    by_cases hkey : key = entitiesFieldName
    · simp [hkey, entitiesField, fieldOf, WrappingType.name]
    by_cases hany : name = entitiesTypeName
    · simp [hkey, hany, hdefault]
    rw [if_neg hany, addService, hinsert]
    by_cases hkey' : key = serviceFieldName
    · have hfield : serviceFieldName ≠ entitiesFieldName := by decide
      simp [hkey', hfield, hany, serviceField, fieldOf, WrappingType.name]
    by_cases hname : name = serviceTypeName
    · simp [hkey, hkey', hname, hne, hservice]
    · simp only [hkey, hkey', hname, hany, and_false, if_false, fieldTypeOf]
      cases types.get? name with
      | none => exact hdefault
      | some type => rfl
  · simp only [hquery, false_and, if_false]
    by_cases hany : name = entitiesTypeName
    · rw [if_pos hany, if_pos hany]
      exact hdefault
    · rw [if_neg hany, if_neg hany]
      by_cases hname : name = serviceTypeName
      · rw [if_pos hname, if_pos hname]
        exact hservice
      · rw [if_neg hname, if_neg hname, fieldTypeOf]

end Served

def HasKey {J : Type} (directives : List (Directive J)) (paths : List (List String)) : Prop :=
  ∃ directive ∈ directives, directive.name = "key" ∧ ∃ text selections,
    directive.arguments.getKey "fields" = some (.string text) ∧ readSelections text = some selections ∧
      Exact (Selects selections) paths

section Keys

variable (jsonText : ConstValue → String)

def MissesNothing : Resolver → Prop
  | .call spec => ∀ path ∈ (spec.steps.tail.flatMap Step.templates).flatMap pathsOf, path ≠ [] →
      ∃ first ∈ (spec.steps.head?.toList.flatMap Step.templates).flatMap pathsOf, path <+: first
  | .postgres spec => ∀ path ∈ (Resolver.postgres spec).reads jsonText, path = []
  | .greptimedb spec => ∀ path ∈ (Resolver.greptimedb spec).reads jsonText, path = []
  | .redis spec => ∀ path ∈ (Resolver.redis spec).reads jsonText, path = []
  | .s3 spec => ∀ path ∈ (Resolver.s3 spec).reads jsonText, path = []
  | _ => True

theorem missesNothing_iff (resolver : Resolver) : MissesNothing jsonText resolver ↔
    ∀ path ∈ resolver.reads jsonText, path ≠ [] →
      ∃ path' ∈ KeysExtractor.collected jsonText resolver, path <+: path' := by
  cases resolver with
  | call spec =>
    rw [MissesNothing, KeysExtractor.collected, Resolver.reads, Resolver.templates]
    cases hsteps : spec.steps with
    | nil => simp
    | cons first steps =>
      simp only [List.tail_cons, List.head?_cons, Option.toList_some, List.flatMap_cons, List.flatMap_append,
        List.flatMap_nil, List.append_nil, List.mem_append, or_imp, forall_and]
      exact (and_iff_right fun path hpath _ => ⟨path, hpath, List.prefix_rfl⟩).symm
  | postgres spec | greptimedb spec | redis spec | s3 spec =>
    simp only [MissesNothing, KeysExtractor.collected, List.not_mem_nil, false_and, exists_false, imp_false, not_not]
  | http spec | grpc spec | graphql spec | expr spec | js name | service | entities map =>
    exact iff_of_true trivial fun path hpath _ => ⟨path, hpath, List.prefix_rfl⟩

theorem collected_subset (resolver : Resolver) :
    KeysExtractor.collected jsonText resolver ⊆ resolver.reads jsonText := by
  cases resolver with
  | call spec =>
    rw [KeysExtractor.collected, Resolver.reads, Resolver.templates]
    cases hsteps : spec.steps with
    | nil => simp
    | cons first steps =>
      intro path hpath
      simp only [List.head?_cons, Option.toList_some, List.flatMap_singleton] at hpath
      rw [List.flatMap_cons, List.flatMap_append]
      exact List.mem_append_left _ hpath
  | postgres spec | greptimedb spec | redis spec | s3 spec => exact List.nil_subset _
  | http spec | grpc spec | graphql spec | expr spec | js name | service | entities map => exact List.Subset.refl _

variable {jsonText} {resolver : Resolver} {keys : Keys}

theorem exact_reads_iff (hkeys : Exact keys.Has (KeysExtractor.collected jsonText resolver)) :
    Exact keys.Has (resolver.reads jsonText) ↔ MissesNothing jsonText resolver := by
  rw [missesNothing_iff]
  constructor
  · intro h path hpath hne
    obtain ⟨name, rest, rfl⟩ := List.exists_cons_of_ne_nil hne
    exact (hkeys name rest).mp ((h name rest).mpr ⟨_, hpath, List.prefix_rfl⟩)
  · intro h name rest
    rw [hkeys name rest]
    constructor
    · rintro ⟨path, hpath, hprefix⟩
      exact ⟨path, collected_subset jsonText resolver hpath, hprefix⟩
    · rintro ⟨path, hpath, hprefix⟩
      obtain ⟨path', hpath', hprefix'⟩ := h path hpath fun hnil => by simp [hnil] at hprefix
      exact ⟨path', hpath', hprefix.trans hprefix'⟩

def NamesFields (paths : List (List String)) : Prop :=
  ∀ path ∈ paths, ∀ part ∈ path, IsName part

theorem named_of_exact {has : List String → Prop} {paths : List (List String)} (h : Exact has paths)
    (hnames : NamesFields paths) : ∀ path, has path → ∀ part ∈ path, IsName part := by
  intro path hpath part hpart
  cases path with
  | nil => cases hpart
  | cons name rest =>
    obtain ⟨path', hpath', hprefix⟩ := (h name rest).mp hpath
    exact hnames path' hpath' part (List.IsPrefix.subset hprefix hpart)

theorem namesFields_of_exact {has : List String → Prop} {paths : List (List String)} (h : Exact has paths)
    (hnames : ∀ path, has path → ∀ part ∈ path, IsName part) : NamesFields paths := by
  intro path hpath part hpart
  cases path with
  | nil => cases hpart
  | cons name rest => exact hnames _ ((h name rest).mpr ⟨_, hpath, List.prefix_rfl⟩) part hpart

theorem selects_iff (hkeys : Exact keys.Has (KeysExtractor.collected jsonText resolver)) :
    (∃ selections, readSelections keys.toString = some selections ∧
        Exact (Selects selections) (resolver.reads jsonText)) ↔
      NamesFields (resolver.reads jsonText) ∧ MissesNothing jsonText resolver := by
  have hselects : Selects keys.selections = keys.Has := funext fun path => propext (selects_selections keys path)
  have hnamed (hnames : NamesFields (resolver.reads jsonText)) : keys.Named :=
    named_of_exact hkeys fun path hpath => hnames path (collected_subset jsonText resolver hpath)
  constructor
  · rintro ⟨selections, hread, hexact⟩
    have hnames : NamesFields (resolver.reads jsonText) :=
      namesFields_of_exact hexact fun path hpath => isName_of_selects hread hpath
    rw [readSelections_toString (hnamed hnames)] at hread
    obtain rfl := Option.some.inj hread
    rw [hselects] at hexact
    exact ⟨hnames, (exact_reads_iff hkeys).mp hexact⟩
  · rintro ⟨hnames, hmisses⟩
    refine ⟨_, readSelections_toString (hnamed hnames), ?_⟩
    rw [hselects]
    exact (exact_reads_iff hkeys).mpr hmisses

theorem hasKey_addKey_iff (type : TypeDef (federated P)) (text : String) (paths : List (List String)) :
    HasKey (addKey type text).directives paths ↔ HasKey type.directives paths ∨
      ∃ selections, readSelections text = some selections ∧ Exact (Selects selections) paths := by
  have hpresent {directive : Directive P.Json} {directives : List (Directive P.Json)} (hmem : directive ∈ directives)
      (hname : directive.name = "key") (harguments : directive.arguments = [("fields", .string text)]) :
      (∃ selections, readSelections text = some selections ∧ Exact (Selects selections) paths) →
        HasKey directives paths := by
    rintro ⟨selections, hread, hexact⟩
    exact ⟨directive, hmem, hname, text, selections, by rw [harguments]; rfl, hread, hexact⟩
  simp only [addKey]
  split
  next hany =>
    obtain ⟨directive, hmem, hsame⟩ := List.any_eq_true.mp hany
    obtain ⟨hname, harguments⟩ := of_decide_eq_true hsame
    exact ⟨.inl, fun h => h.elim id (hpresent hmem hname harguments)⟩
  next =>
    constructor
    · rintro ⟨directive, hmem, hname, text', selections, harguments, hread, hexact⟩
      rcases List.mem_append.mp hmem with hmem | hmem
      · exact .inl ⟨directive, hmem, hname, text', selections, harguments, hread, hexact⟩
      · obtain rfl := List.mem_singleton.mp hmem
        obtain rfl := Argument.string.inj (Option.some.inj harguments)
        exact .inr ⟨selections, hread, hexact⟩
    · rintro (⟨directive, hmem, hkey⟩ | hselects)
      · exact ⟨directive, List.mem_append_left _ hmem, hkey⟩
      · exact hpresent (List.mem_append_right _ (List.mem_singleton_self _)) rfl rfl hselects

theorem hasKey_keyed_iff {type : TypeDef (federated P)} (hresolvers : type.resolvers = [resolver])
    (hextracts : ∃ fields, KeysExtractor.extractKeys jsonText resolver = .ok fields)
    (hreads : ∃ path ∈ resolver.reads jsonText, path ≠ []) :
    HasKey (keyed jsonText type).directives (resolver.reads jsonText) ↔
      HasKey type.directives (resolver.reads jsonText) ∨
        NamesFields (resolver.reads jsonText) ∧ MissesNothing jsonText resolver := by
  obtain ⟨fields, hfields⟩ := hextracts
  obtain ⟨keys, hkeys, rfl⟩ := KeysExtractor.exact_extractKeys jsonText hfields
  rw [keyed, hresolvers]
  simp only [List.head?_cons, hfields]
  cases hempty : keys.isEmpty with
  | false =>
    simp only [Bool.false_eq_true, if_false]
    rw [hasKey_addKey_iff, selects_iff hkeys]
  | true =>
    simp only [if_true]
    refine (or_iff_left fun ⟨_, hmisses⟩ => ?_).symm
    obtain ⟨path, hpath, hne⟩ := hreads
    obtain ⟨path', hpath', hprefix⟩ := (missesNothing_iff jsonText resolver).mp hmisses path hpath hne
    obtain ⟨name, rest, rfl⟩ := List.exists_cons_of_ne_nil hne
    have hhas := (hkeys name rest).mpr ⟨path', hpath', hprefix⟩
    obtain ⟨fields⟩ := keys
    obtain ⟨child, hmem, _⟩ := hhas
    have hnil : fields = [] := List.isEmpty_iff.mp hempty
    rw [hnil] at hmem
    cases hmem

end Keys

section Exactness

variable (jsonText : ConstValue → String)

def IsEntity (config : Config (federated P)) (name : String) (type : TypeDef (federated P)) (resolver : Resolver) :
    Prop :=
  config.types.get? name = some type ∧ type.resolvers = [resolver]

def ReadsFields (resolver : Resolver) : Prop :=
  ∃ path ∈ resolver.reads jsonText, path ≠ []

def KeysExact (config out : Config (federated P)) : Prop :=
  ∀ name type resolver, IsEntity config name type resolver → ReadsFields jsonText resolver →
    ∃ served, out.types.get? name = some served ∧ HasKey served.directives (resolver.reads jsonText)

def IsReserved (name : String) : Prop :=
  name = serviceTypeName ∨ name = entitiesTypeName

structure Sound (config : Config (federated P)) : Prop where
  /-- What an entity of a reserved name would need for its key is lost. -/
  reserved : ∀ name type resolver, IsEntity config name type resolver → ReadsFields jsonText resolver → ¬IsReserved name
  keys : ∀ name type resolver, IsEntity config name type resolver → ReadsFields jsonText resolver →
    HasKey type.directives (resolver.reads jsonText) ∨
      NamesFields (resolver.reads jsonText) ∧ MissesNothing jsonText resolver
  stable : (∀ name type resolver, IsEntity config name type resolver → ¬IsReserved name) ∨
    (∀ name type resolver, IsEntity config name type resolver → IsReserved name) ∧ ¬IsReserved (queryName config)
  leads : ∀ name type resolver, IsEntity config name type resolver → ¬IsReserved name →
    ∀ path ∈ checked resolver, Leads (servedFieldType (queryName config) config.types) name path

variable {jsonText}

variable {config : Config (federated P)}

theorem subgraphOf_types (h : resolverByType config.types.entries ≠ []) :
    (subgraphOf jsonText config).types = entitiesTypes (resolverByType config.types.entries) (queryName config)
      (serviceTypes (queryName config) (keyedTypes jsonText config.types)) := by
  rw [subgraphOf, withEntities_eq h]
  rfl

theorem subgraphOf_types_nil (h : resolverByType config.types.entries = []) :
    (subgraphOf jsonText config).types = serviceTypes (queryName config) (keyedTypes jsonText config.types) := by
  rw [subgraphOf, h]
  rfl

theorem allKeyed_subgraphOf (config : Config (federated P)) : AllKeyed jsonText (subgraphOf jsonText config).types := by
  have hservice := (allKeyed_keyedTypes jsonText config.types).serviceTypes (queryName config)
  by_cases h : resolverByType config.types.entries = []
  · rw [subgraphOf_types_nil h]
    exact hservice
  · rw [subgraphOf_types h]
    exact hservice.entitiesTypes _ _

theorem resolverByType_subgraphOf (config : Config (federated P)) :
    resolverByType (subgraphOf jsonText config).types.entries =
      (resolverByType config.types.entries).filter fun entity =>
        decide (entity.1 ≠ serviceTypeName) && decide (entity.1 ≠ entitiesTypeName) := by
  by_cases h : resolverByType config.types.entries = []
  · rw [subgraphOf_types_nil h, resolverByType_serviceTypes, resolverByType_keyedTypes, h]
    rfl
  · rw [subgraphOf_types h, resolverByType_entitiesTypes, resolverByType_serviceTypes, resolverByType_keyedTypes,
      List.filter_filter]
    exact List.filter_congr fun entity _ => Bool.and_comm _ _

theorem subgraphOf_subgraphOf (config : Config (federated P)) : subgraphOf jsonText (subgraphOf jsonText config) =
    withEntities (resolverByType (subgraphOf jsonText config).types.entries)
      (withService (subgraphOf jsonText config)) := by
  have htypes := (@allKeyed_subgraphOf _ _ jsonText config).keyedTypes_eq
  rw [subgraphOf]
  congr 2
  exact congrArg (fun types => { subgraphOf jsonText config with types := types }) htypes

omit [DecidableEq P.Json] in
theorem mem_entities_iff
    (hadmissible : ∀ entry ∈ config.types.entries, Admissible jsonText (fieldTypeOf config.types) entry.1 entry.2)
    (name : String) (resolver : Resolver) :
    (name, resolver) ∈ resolverByType config.types.entries ↔ ∃ type, IsEntity config name type resolver := by
  rw [mem_resolverByType]
  constructor
  · rintro ⟨type, hentry, hhead⟩
    refine ⟨type, (config.types.get?_eq_some_iff _ _).mpr hentry, ?_⟩
    have hsingle := (hadmissible _ hentry).single
    cases hresolvers : type.resolvers with
    | nil =>
      rw [hresolvers] at hhead
      cases hhead
    | cons first rest =>
      rw [hresolvers] at hhead hsingle
      obtain rfl := Option.some.inj hhead
      rw [List.length_cons] at hsingle
      rw [List.eq_nil_of_length_eq_zero (by omega : rest.length = 0)]
  · rintro ⟨type, htype, hresolvers⟩
    exact ⟨type, (config.types.get?_eq_some_iff _ _).mp htype, by rw [hresolvers]; rfl⟩

omit [DecidableEq P.Json] in
theorem entities_ne_nil {name : String} {type : TypeDef (federated P)}
    {resolver : Resolver} (h : IsEntity config name type resolver) : resolverByType config.types.entries ≠ [] := by
  have hmem : (name, resolver) ∈ resolverByType config.types.entries :=
    mem_resolverByType.mpr ⟨type, (config.types.get?_eq_some_iff _ _).mp h.1, by rw [h.2]; rfl⟩
  exact List.ne_nil_of_mem hmem

theorem served_of_entity {config : Config (federated P)} {name : String} {type : TypeDef (federated P)}
    {resolver : Resolver} (h : IsEntity config name type resolver) : ∃ served,
      (subgraphOf jsonText config).types.get? name = some served ∧ (IsReserved name → served.directives = []) ∧
        (¬IsReserved name → served.resolvers = [resolver] ∧ served.directives = (keyed jsonText type).directives) := by
  rw [subgraphOf_types (entities_ne_nil h), get?_entitiesTypes, get?_serviceTypes, get?_serviceTypes, get?_keyedTypes,
    get?_keyedTypes]
  have hne : serviceTypeName ≠ entitiesTypeName := by decide
  have hresolvers : (keyed jsonText type).resolvers = [resolver] := (keyed_resolvers jsonText type).trans h.2
  rw [IsReserved, not_or]
  by_cases hquery : name = queryName config
  · rw [if_pos hquery, ← hquery, if_pos rfl, h.1]
    refine ⟨_, rfl, ?_⟩
    by_cases hany : name = entitiesTypeName
    · simp [hany, addEntities, insertField, defaultType]
    · by_cases hservice : name = serviceTypeName
      · simp [hservice, hne, addEntities, addService, insertField, serviceType, defaultType]
      · simp [hany, hservice, addEntities, addService, insertField, hresolvers]
  · rw [if_neg hquery]
    by_cases hany : name = entitiesTypeName
    · exact ⟨defaultType, by rw [if_pos hany], by simp [hany, defaultType]⟩
    · by_cases hservice : name = serviceTypeName
      · exact ⟨serviceType, by rw [if_neg hany, if_neg hquery, if_pos hservice],
          by simp [hservice, serviceType, defaultType]⟩
      · exact ⟨keyed jsonText type, by rw [if_neg hany, if_neg hquery, if_neg hservice, h.1, Option.map_some],
          by simp [hany, hservice, hresolvers]⟩

theorem fieldTypeOf_subgraphOf (h : resolverByType config.types.entries ≠ []) :
    fieldTypeOf (subgraphOf jsonText config).types = servedFieldType (queryName config) config.types := by
  rw [subgraphOf_types h, fieldTypeOf_served]
  funext name key
  rw [servedFieldType, servedFieldType, fieldTypeOf_keyedTypes]

theorem admissible_again_iff
    (hadmissible : ∀ entry ∈ config.types.entries, Admissible jsonText (fieldTypeOf config.types) entry.1 entry.2) :
    (∀ entry ∈ (subgraphOf jsonText config).types.entries,
      Admissible jsonText (fieldTypeOf (subgraphOf jsonText config).types) entry.1 entry.2) ↔
      ∀ name type resolver, IsEntity config name type resolver → ¬IsReserved name →
        ∀ path ∈ checked resolver, Leads (servedFieldType (queryName config) config.types) name path := by
  constructor
  · intro h name type resolver hentity hreserved path hpath
    obtain ⟨served, hserved, hkept⟩ := @served_of_entity _ _ jsonText _ _ _ _ hentity
    have hkept := hkept.2 hreserved
    have hleads := (h _ ((Dict.get?_eq_some_iff _ _ _).mp hserved)).leads resolver (by simp [hkept.1]) path hpath
    rwa [fieldTypeOf_subgraphOf (entities_ne_nil hentity)] at hleads
  · rintro h ⟨name, served⟩ hentry
    cases hhead : served.resolvers.head? with
    | none =>
      have hnil : served.resolvers = [] := List.head?_eq_none_iff.mp hhead
      exact ⟨by simp [hnil], by simp [hnil], by simp [hnil]⟩
    | some resolver =>
      -- what is served for an entity is what the config has for it
      have hmem : (name, resolver) ∈ resolverByType (subgraphOf jsonText config).types.entries :=
        mem_resolverByType.mpr ⟨served, hentry, hhead⟩
      rw [resolverByType_subgraphOf, List.mem_filter, mem_entities_iff hadmissible] at hmem
      obtain ⟨⟨type, hentity⟩, hkeep⟩ := hmem
      have hreserved : ¬IsReserved name := by simpa [IsReserved, not_or] using hkeep
      obtain ⟨served', hserved', hkept⟩ := @served_of_entity _ _ jsonText _ _ _ _ hentity
      have hkept := hkept.2 hreserved
      obtain rfl := Option.some.inj (((Dict.get?_eq_some_iff _ _ _).mpr hentry).symm.trans hserved')
      have hextracts := (hadmissible _ ((Dict.get?_eq_some_iff _ _ _).mp hentity.1)).extracts resolver
        (by simp [hentity.2])
      refine ⟨by simp [hkept.1], ?_, ?_⟩
      · rw [fieldTypeOf_subgraphOf (entities_ne_nil hentity)]
        simpa [hkept.1] using h name type resolver hentity hreserved
      · simpa [hkept.1] using hextracts

theorem stable_iff
    (hadmissible : ∀ entry ∈ config.types.entries, Admissible jsonText (fieldTypeOf config.types) entry.1 entry.2) :
    subgraphOf jsonText (subgraphOf jsonText config) = subgraphOf jsonText config ↔
      (∀ name type resolver, IsEntity config name type resolver → ¬IsReserved name) ∨
        (∀ name type resolver, IsEntity config name type resolver → IsReserved name) ∧
          ¬IsReserved (queryName config) := by
  have hforall (p : String → Prop) : (∀ entity ∈ resolverByType config.types.entries, p entity.1) ↔
      ∀ name type resolver, IsEntity config name type resolver → p name := by
    constructor
    · intro h name type resolver hentity
      exact h (name, resolver) ((mem_entities_iff hadmissible name resolver).mpr ⟨type, hentity⟩)
    · rintro h ⟨name, resolver⟩ hmem
      obtain ⟨type, hentity⟩ := (mem_entities_iff hadmissible name resolver).mp hmem
      exact h name type resolver hentity
  have hsome : resolverByType (subgraphOf jsonText config).types.entries ≠ [] →
      resolverByType config.types.entries ≠ [] := by
    intro hne hnil
    rw [resolverByType_subgraphOf, hnil] at hne
    exact hne rfl
  rw [subgraphOf_subgraphOf]
  refine (withEntities_again_iff (resolverByType config.types.entries)
    { config with types := config.types.map fun _ type => keyed jsonText type } hsome).trans ?_
  rw [resolverByType_subgraphOf, List.filter_eq_self, List.filter_eq_nil_iff, ← hforall, ← hforall]
  simp only [IsReserved, not_or, Bool.and_eq_true, decide_eq_true_eq, not_and_or, not_not]
  rfl

/-- A subgraph stays what it is and has the keys of its entities, exactly where no path is missed or has a part that is
no name, and the names that federation has for itself are free. -/
theorem keys_exact_iff (jsonText : ConstValue → String) (enableFederation : P.Server → Bool)
    (config out : Config (federated P)) (henabled : enableFederation config.server = true)
    (h : transform jsonText enableFederation config = .ok out) :
    transform jsonText enableFederation out = .ok out ∧ KeysExact jsonText config out ↔ Sound jsonText config := by
  obtain ⟨hadmissible, rfl⟩ := (transform_eq_ok jsonText henabled out).mp h
  have hserver : enableFederation (subgraphOf jsonText config).server = true := by
    rw [subgraphOf, withEntities]
    split <;> exact henabled
  rw [transform_eq_ok jsonText hserver, admissible_again_iff hadmissible, eq_comm, stable_iff hadmissible]
  have hkeys {name : String} {type : TypeDef (federated P)} {resolver : Resolver}
      (hentity : IsEntity config name type resolver) (hreads : ReadsFields jsonText resolver) :
      (∃ served, (subgraphOf jsonText config).types.get? name = some served ∧
        HasKey served.directives (resolver.reads jsonText)) ↔ ¬IsReserved name ∧
          (HasKey type.directives (resolver.reads jsonText) ∨
            NamesFields (resolver.reads jsonText) ∧ MissesNothing jsonText resolver) := by
    obtain ⟨served, hserved, hkept⟩ := @served_of_entity _ _ jsonText _ _ _ _ hentity
    have hextracts := (hadmissible _ ((Dict.get?_eq_some_iff _ _ _).mp hentity.1)).extracts resolver
      (by simp [hentity.2])
    rw [← hasKey_keyed_iff hentity.2 hextracts hreads, hserved]
    by_cases hreserved : IsReserved name
    · simp [hreserved, hkept.1 hreserved, HasKey]
    · simp [hreserved, (hkept.2 hreserved).2]
  constructor
  · rintro ⟨⟨hleads, hstable⟩, hexact⟩
    refine ⟨fun name type resolver hentity hreads => ?_, fun name type resolver hentity hreads => ?_, hstable, hleads⟩
    · exact ((hkeys hentity hreads).mp (hexact name type resolver hentity hreads)).1
    · exact ((hkeys hentity hreads).mp (hexact name type resolver hentity hreads)).2
  · intro hsound
    refine ⟨⟨hsound.leads, hsound.stable⟩, fun name type resolver hentity hreads => (hkeys hentity hreads).mpr ?_⟩
    exact ⟨hsound.reserved name type resolver hentity hreads, hsound.keys name type resolver hentity hreads⟩

end Exactness

instance : DecidableEq plain.Json :=
  inferInstanceAs (DecidableEq Unit)

def scalarField : Config.Field (federated plain) :=
  fieldOf (.named "String" false)

def userType (resolver : Resolver) : TypeDef (federated plain) :=
  { defaultType with
    fields := (Dict.empty.insert "id" scalarField).insert "name" scalarField
    resolvers := [resolver] }

def users (resolver : Resolver) : Config (federated plain) where
  server := ()
  upstream := ()
  schema := ⟨some "Query", none, none⟩
  types := Dict.empty.insert "User" (userType resolver)
  unions := .empty
  enums := .empty
  links := []
  telemetry := ()

def userById : Resolver :=
  .http ⟨"http://users/\x7b\x7b.value.id\x7d\x7d", none, [], []⟩

def userInSteps : Resolver :=
  .call ⟨[⟨[("id", .string "\x7b\x7b.value.id\x7d\x7d")]⟩, ⟨[("name", .string "\x7b\x7b.value.name\x7d\x7d")]⟩]⟩

theorem keys_exact_users :
    transform (fun _ => "") (fun _ => true) (subgraphOf (fun _ => "") (users userById)) =
        .ok (subgraphOf (fun _ => "") (users userById)) ∧
      KeysExact (fun _ => "") (users userById) (subgraphOf (fun _ => "") (users userById)) ↔
    Sound (fun _ => "") (users userById) :=
  keys_exact_iff (fun _ => "") (fun _ => true) (users userById) _ rfl (by rfl)

theorem second_step_missed :
    transform (fun _ => "") (fun _ => true) (users userInSteps) = .ok (subgraphOf (fun _ => "") (users userInSteps)) ∧
      ¬KeysExact (fun _ => "") (users userInSteps) (subgraphOf (fun _ => "") (users userInSteps)) := by
  refine ⟨by rfl, fun h => ?_⟩
  have hreads : userInSteps.reads (fun _ => "") = [["id"], ["name"]] := by rfl
  have hentity : IsEntity (users userInSteps) "User" (userType userInSteps) userInSteps := ⟨rfl, rfl⟩
  obtain ⟨served, hserved, hkey⟩ := h "User" _ _ hentity ⟨["id"], by simp [hreads], by simp⟩
  obtain ⟨served', hserved', hkept⟩ := @served_of_entity _ _ (fun _ => "") _ _ _ _ hentity
  obtain rfl := Option.some.inj (hserved.symm.trans hserved')
  have hdirectives := (hkept.2 (by simp [IsReserved, serviceTypeName, entitiesTypeName])).2
  rw [hdirectives, hasKey_keyed_iff rfl ⟨some "id", by rfl⟩ ⟨["id"], by simp [hreads], by simp⟩] at hkey
  rcases hkey with ⟨directive, hmem, -⟩ | ⟨-, hmisses⟩
  · cases hmem
  · obtain ⟨first, hmem, hprefix⟩ := hmisses ["name"] (List.mem_singleton.mpr rfl) (by simp)
    obtain rfl := List.mem_singleton.mp hmem
    exact absurd hprefix (by decide)

end Gqlforge.Subgraph
