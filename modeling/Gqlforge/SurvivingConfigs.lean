import Gqlforge.DocumentRoundTrip
import Mathlib.Data.Finset.Sort

namespace Gqlforge.ServiceDocuments

open Json Schema Validation Config SchemaUsage GuardedSearch FuelRecursion
open Relation

variable {P : Payloads} {R : ResolverKind → Type} {F : Type} {codecs : Codecs P R}

section Image

theorem mem_fromIterSome {α β : Type} (items : List α) (f : α → Valid (Option β) String) (results : List β)
    (h : fromIterSome items f = .ok results) (b : β) (hb : b ∈ results) : ∃ item ∈ items, f item = .ok (some b) := by
  induction items generalizing results with
  | nil =>
    obtain rfl := Except.ok.inj h
    cases hb
  | cons item rest ih =>
    obtain ⟨option, results', ho, hr, rfl⟩ := (fromIterSome_cons_eq_ok f item rest results).mp h
    rcases List.mem_append.mp hb with hb | hb
    · obtain rfl := Option.mem_toList.mp hb
      exact ⟨item, List.mem_cons_self, ho⟩
    · obtain ⟨found, hf, hfound⟩ := ih results' hr hb
      exact ⟨found, List.mem_cons_of_mem item hf, hfound⟩

theorem directed_of_resolversFromDirectives (directives : List ConstDirective) (resolvers : List (Resolver R F))
    (h : resolversFromDirectives codecs directives = .ok resolvers) : ∀ resolver ∈ resolvers, Directed resolver := by
  intro resolver hr
  obtain ⟨directive, _, hd⟩ := mem_fromIterSome directives _ resolvers h resolver hr
  split at hd
  · next kind _ =>
    obtain ⟨value, _, he⟩ := (Valid.mapOk_eq_ok ..).mp hd
    exact ⟨kind, value, (Option.some.inj he).symm⟩
  · cases hd

theorem federated_of_toFederationDirectives {J : Type} (json : JsonCodec J) (constDirectives : List ConstDirective)
    (directives : List (Directive J)) (h : toFederationDirectives json constDirectives = .ok directives) :
    ∀ directive ∈ directives, Federated directive := by
  intro directive hd
  obtain ⟨constDirective, _, hc⟩ := mem_fromIterSome constDirectives _ directives h directive hd
  split at hc
  · next hname =>
    obtain ⟨found, hf, he⟩ := (Valid.mapOk_eq_ok ..).mp hc
    obtain rfl := Option.some.inj he
    rw [toDirective] at hf
    split at hf
    · obtain rfl := Except.ok.inj hf
      exact hname
    · cases hf
  · cases hc

theorem readable_of_toCommonField (name : String) (typeOf : DocumentType) (description : Option String)
    (directives : List ConstDirective) (args : Dict (Arg (documented P R F))) (value : Option ConstValue)
    (field : Config.Field (documented P R F))
    (h : toCommonField codecs name typeOf description directives args value = .ok field) :
    Readable field.resolvers field.directives := by
  rw [toCommonField, Valid.trace_eq_ok, Valid.mapOk_eq_ok] at h
  obtain ⟨_, hzip, rfl⟩ := h
  simp only [Valid.zip_eq_ok] at hzip
  obtain ⟨⟨⟨⟨⟨⟨⟨hresolvers, _⟩, _⟩, _⟩, _⟩, _⟩, _⟩, hfederation⟩ := hzip
  exact ⟨directed_of_resolversFromDirectives _ _ hresolvers, federated_of_toFederationDirectives _ _ _ hfederation⟩

theorem mem_toFieldsInner {T V : Type} (fields : List T) (name : T → String) (transform : T → Valid V String)
    (dict : Dict V) (h : toFieldsInner fields name transform = .ok dict) (entry : String × V)
    (he : entry ∈ dict.entries) : ∃ field ∈ fields, transform field = .ok entry.2 := by
  obtain ⟨entries, hi, rfl⟩ := (Valid.mapOk_eq_ok ..).mp h
  have hmap := (Valid.fromIter_eq_ok ..).mp hi
  have hmem : (Except.ok entry : Valid (String × V) String) ∈ entries.map .ok :=
    List.mem_map_of_mem (Dict.mem_ofEntries entries entry he)
  rw [← hmap] at hmem
  obtain ⟨field, hf, hfield⟩ := List.mem_map.mp hmem
  obtain ⟨value, hv, rfl⟩ := (Valid.mapOk_eq_ok ..).mp hfield
  exact ⟨field, hf, hv⟩

theorem readable_of_toObjectType (implements : List String) (fields : List FieldDefinition)
    (description : Option String) (directives : List ConstDirective) (type : TypeDef (documented P R F))
    (h : toObjectType codecs implements fields description directives = .ok type) : ReadableType type := by
  rw [toObjectType, Valid.mapOk_eq_ok] at h
  obtain ⟨_, hzip, rfl⟩ := h
  simp only [Valid.zip_eq_ok] at hzip
  obtain ⟨⟨⟨⟨⟨hresolvers, _⟩, hfields⟩, _⟩, _⟩, hfederation⟩ := hzip
  refine ⟨⟨directed_of_resolversFromDirectives _ _ hresolvers, federated_of_toFederationDirectives _ _ _ hfederation⟩,
    fun entry he => ?_⟩
  obtain ⟨definition, _, hd⟩ := mem_toFieldsInner _ _ _ _ hfields entry he
  exact readable_of_toCommonField _ _ _ _ _ _ _ hd

theorem readable_of_toInputObject (fields : List InputValueDefinition) (description : Option String)
    (directives : List ConstDirective) (type : TypeDef (documented P R F))
    (h : toInputObject codecs fields description directives = .ok type) : ReadableType type := by
  rw [toInputObject, Valid.mapOk_eq_ok] at h
  obtain ⟨_, hzip, rfl⟩ := h
  simp only [Valid.zip_eq_ok] at hzip
  refine ⟨⟨fun _ h => absurd h List.not_mem_nil, fun _ h => absurd h List.not_mem_nil⟩,
    fun entry he => ?_⟩
  obtain ⟨definition, _, hd⟩ := mem_toFieldsInner _ _ _ _ hzip.1 entry he
  exact readable_of_toCommonField _ _ _ _ _ _ _ hd

theorem readable_of_toType (definition : TypeDefinition) (entry : String × TypeDef (documented P R F))
    (h : toType codecs definition = .ok (some entry)) : ReadableType entry.2 := by
  obtain ⟨option, ho, he⟩ := (Valid.mapOk_eq_ok ..).mp h
  obtain ⟨type, rfl, rfl⟩ := Option.map_eq_some_iff.mp he
  split at ho
  · obtain ⟨found, hf, he⟩ := (Valid.mapOk_eq_ok ..).mp ho
    obtain rfl := Option.some.inj he
    exact readable_of_toObjectType _ _ _ _ _ ((Valid.trace_eq_ok ..).mp hf)
  · obtain ⟨found, hf, he⟩ := (Valid.mapOk_eq_ok ..).mp ho
    obtain rfl := Option.some.inj he
    exact readable_of_toObjectType _ _ _ _ _ ((Valid.trace_eq_ok ..).mp hf)
  · cases ho
  · cases ho
  · obtain ⟨found, hf, he⟩ := (Valid.mapOk_eq_ok ..).mp ho
    obtain rfl := Option.some.inj he
    exact readable_of_toInputObject _ _ _ _ ((Valid.trace_eq_ok ..).mp hf)
  · obtain rfl := Option.some.inj (Except.ok.inj ho)
    exact ⟨⟨nofun, nofun⟩, nofun⟩

theorem readable_of_fromDocument (doc : ServiceDocument) (config : Config (documented P R F))
    (h : fromDocument codecs doc = .ok config) : ReadableConfig config := by
  rw [fromDocument, Valid.mapOk_eq_ok] at h
  obtain ⟨⟨⟨⟨⟨⟨⟨⟨_, _⟩, types⟩, _⟩, _⟩, _⟩, _⟩, _⟩, hzip, rfl⟩ := h
  simp only [Valid.zip_eq_ok] at hzip
  obtain ⟨⟨⟨⟨⟨⟨⟨_, _⟩, htypes⟩, _⟩, _⟩, _⟩, _⟩, _⟩ := hzip
  intro entry he
  obtain ⟨entries, hi, hdict⟩ := (Valid.mapOk_eq_ok ..).mp htypes
  change entry ∈ types.entries at he
  rw [← hdict] at he
  obtain ⟨definition, _, hd⟩ := mem_fromIterSome _ _ entries hi entry (Dict.mem_ofEntries entries entry he)
  exact readable_of_toType definition entry hd

end Image

section Kept

/-- A field of a type that is written as `kind` has nothing that is not written or not read there. -/
structure KeepsField (kind : Kind) (field : Config.Field (documented P R F)) : Prop where
  discriminate : field.discriminate = none
  defaultValue : kind ≠ .inputObject → field.defaultValue = none
  args : kind ≠ .object → field.args.entries = []
  modify : ∀ entry ∈ field.args.entries, entry.2.modify = none

structure KeepsType (kind : Kind) (type : TypeDef (documented P R F)) : Prop where
  fields : ∀ entry ∈ type.fields.entries, KeepsField kind entry.2
  described : kind = .scalar → type.doc = none ∧ type.protectedBy = none
  plain : kind = .scalar ∨ kind = .inputObject →
    type.addedFields = [] ∧ type.implements.items = [] ∧ type.cache = none ∧ type.resolvers = [] ∧
      type.directives = []

theorem restoredArg_eq_self_iff (arg : Arg (documented P R F)) : restoredArg arg = arg ↔ arg.modify = none := by
  obtain ⟨typeOf, doc, modify, defaultValue⟩ := arg
  simp [restoredArg, eq_comm]

theorem dict_eq_empty_iff {V : Type} (dict : Dict V) : Dict.empty = dict ↔ dict.entries = [] := by
  obtain ⟨entries, hn⟩ := dict
  simp [Dict.empty, eq_comm]

theorem restoredField_args_iff (kind : Kind) (field : Config.Field (documented P R F)) :
    (restoredField kind field).args = field.args ↔
      (kind ≠ .object → field.args.entries = []) ∧ ∀ entry ∈ field.args.entries, entry.2.modify = none := by
  have hobject : (field.args.map fun _ => restoredArg) = field.args ↔
      ∀ entry ∈ field.args.entries, entry.2.modify = none := by
    simp only [Dict.map_eq_self_iff, restoredArg_eq_self_iff]
  have hempty : Dict.empty = field.args ↔
      field.args.entries = [] ∧ ∀ entry ∈ field.args.entries, entry.2.modify = none := by
    rw [dict_eq_empty_iff]
    exact ⟨fun h => ⟨h, by simp [h]⟩, And.left⟩
  cases kind with
  | object => simpa [restoredField] using hobject
  | interface => simpa [restoredField] using hempty
  | inputObject => simpa [restoredField] using hempty
  | scalar => simpa [restoredField] using hempty

theorem restoredField_defaultValue_iff (kind : Kind) (field : Config.Field (documented P R F)) :
    (restoredField kind field).defaultValue = field.defaultValue ↔
      (kind ≠ .inputObject → field.defaultValue = none) := by
  cases kind <;> simp [restoredField, eq_comm]

theorem restoredField_eq_self_iff (kind : Kind) (field : Config.Field (documented P R F)) :
    restoredField kind field = field ↔ KeepsField kind field := by
  have hargs := restoredField_args_iff kind field
  have hdefault := restoredField_defaultValue_iff kind field
  constructor
  · intro h
    have ha := hargs.mp (congrArg Config.Field.args h)
    exact ⟨(congrArg Config.Field.discriminate h).symm, hdefault.mp (congrArg Config.Field.defaultValue h), ha.1, ha.2⟩
  · intro h
    have ha := hargs.mpr ⟨h.args, h.modify⟩
    have hd := hdefault.mpr h.defaultValue
    have hn := h.discriminate
    obtain ⟨typeOf, args, doc, modify, omission, cache, defaultValue, protectedBy, discriminate, resolvers,
      directives⟩ := field
    simp only [restoredField, Config.Field.mk.injEq, true_and, and_true] at ha hd hn ⊢
    exact ⟨ha, hd, hn.symm⟩

theorem restoredFields_eq_self_iff (kind : Kind) (fields : Dict (Config.Field (documented P R F))) :
    (fields.map fun _ => restoredField kind) = fields ↔ ∀ entry ∈ fields.entries, KeepsField kind entry.2 := by
  simp only [Dict.map_eq_self_iff, restoredField_eq_self_iff]

theorem distinct_nil_eq_iff {α : Type} (set : Distinct α) : (⟨[], List.nodup_nil⟩ : Distinct α) = set ↔ set.items = [] := by
  obtain ⟨items, hn⟩ := set
  simp [eq_comm]

theorem restoredType_eq_self_iff (kind : Kind) (type : TypeDef (documented P R F))
    (h : kind = .scalar → type.fields.entries = []) : restoredType kind type = type ↔ KeepsType kind type := by
  obtain ⟨fields, addedFields, doc, implements, cache, protectedBy, resolvers, directives⟩ := type
  cases kind with
  | interface =>
    simp only [restoredType, TypeDef.mk.injEq, and_true, restoredFields_eq_self_iff]
    exact ⟨fun hf => ⟨hf, nofun, nofun⟩, KeepsType.fields⟩
  | object =>
    simp only [restoredType, TypeDef.mk.injEq, and_true, restoredFields_eq_self_iff]
    exact ⟨fun hf => ⟨hf, nofun, nofun⟩, KeepsType.fields⟩
  | inputObject =>
    simp only [restoredType, defaultType, TypeDef.mk.injEq, restoredFields_eq_self_iff, distinct_nil_eq_iff, true_and]
    constructor
    · rintro ⟨hf, rfl, hi, rfl, rfl, rfl⟩
      exact ⟨hf, nofun, fun _ => ⟨rfl, hi, rfl, rfl, rfl⟩⟩
    · intro hk
      obtain ⟨rfl, hi, rfl, rfl, rfl⟩ := hk.plain (.inr rfl)
      exact ⟨hk.fields, rfl, hi, rfl, rfl, rfl⟩
  | scalar =>
    have hfields : fields.entries = [] := h rfl
    simp only [restoredType, defaultType, TypeDef.mk.injEq, distinct_nil_eq_iff, dict_eq_empty_iff]
    constructor
    · rintro ⟨_, rfl, rfl, hi, rfl, rfl, rfl, rfl⟩
      exact ⟨by simp [hfields], fun _ => ⟨rfl, rfl⟩, fun _ => ⟨rfl, hi, rfl, rfl, rfl⟩⟩
    · intro hk
      obtain ⟨rfl, hi, rfl, rfl, rfl⟩ := hk.plain (.inl rfl)
      obtain ⟨rfl, rfl⟩ := hk.described rfl
      exact ⟨hfields, rfl, rfl, hi, rfl, rfl, rfl, rfl⟩

end Kept

section Written

variable (config : Config (documented P R F))

def UsedAsInput (name : String) : Prop :=
  Reached (node config) config.isScalar config.inputRoots name

inductive WrittenAs (name : String) (type : TypeDef (documented P R F)) : Kind → Prop where
  | interface (h : IsInterface config name) : WrittenAs name type .interface
  | inputObject (hi : ¬ IsInterface config name) (h : UsedAsInput config name) : WrittenAs name type .inputObject
  | scalar (hi : ¬ IsInterface config name) (hu : ¬ UsedAsInput config name) (h : type.fields.entries = []) :
    WrittenAs name type .scalar
  | object (hi : ¬ IsInterface config name) (hu : ¬ UsedAsInput config name) (h : type.fields.entries ≠ []) :
    WrittenAs name type .object

variable (codecs) in
structure Survives : Prop where
  interfaces : ∀ name, ¬ TransGen (Implements config) name name
  inputs : ∀ name, UsedAsInput config name → ¬ TransGen (UnionMember config) name name
  telemetry : config.telemetry = codecs.defaultTelemetry
  unions : ∀ entry ∈ config.unions.entries, entry.2.doc = none
  types : ∀ entry ∈ config.types.entries, ∀ kind, WrittenAs config entry.1 entry.2 kind → KeepsType kind entry.2

theorem inputTypes_returns_iff :
    (∃ fuel inputTypes, config.inputTypes fuel = some inputTypes) ↔
      ∀ name, UsedAsInput config name → ¬ TransGen (UnionMember config) name name := by
  have hreturns : (∃ fuel result, visitAll (search (node config) config.isScalar fuel) config.inputRoots ∅ =
      some result) ↔ ∀ name, Reached (node config) config.isScalar config.inputRoots name →
        Acc (Member (node config)) name := searchAll_returns_iff config.inputRoots (declared config) mem_declared
  simp only [inputTypes_eq, hreturns, acc_member_iff config.inputRoots (declared config) mem_declared,
    transGen_member_iff]
  rfl

theorem interfacesTypesMap_acyclic (fuel : ℕ) (map : TypesMap) (h : interfacesTypesMap config fuel = some map) :
    ∀ name, ¬ TransGen (Implements config) name name := by
  intro name hcycle
  obtain ⟨m, _, hm⟩ := TransGen.tail'_iff.mp hcycle
  exact not_transGen_self_of_acc name ((interfacesTypesMap_spec fuel map h).1 name ⟨m, hm⟩) hcycle

variable {config}

theorem writtenAs_iff (fuel : ℕ) (interfaceTypes : TypesMap) (inputTypes : Finset String)
    (hi : interfacesTypesMap config fuel = some interfaceTypes) (hu : config.inputTypes fuel = some inputTypes)
    (entry : String × TypeDef (documented P R F)) (he : entry ∈ config.types.entries) (kind : Kind) :
    WrittenAs config entry.1 entry.2 kind ↔ kindOf interfaceTypes inputTypes entry.1 entry.2 = kind := by
  have hinterface : interfaceTypes.contains entry.1 = true ↔ IsInterface config entry.1 :=
    (interfacesTypesMap_spec fuel interfaceTypes hi).2.1 entry.1
  have hdefined : Defined (node config) entry.1 := by
    have hkey : config.types.contains entry.1 = true :=
      (Dict.contains_iff _ _).mpr (List.mem_map.mpr ⟨entry, he, rfl⟩)
    rw [defined_iff, Config.contains, hkey, Bool.true_or, Bool.true_or]
  have hused : entry.1 ∈ inputTypes ↔ UsedAsInput config entry.1 := by
    rw [inputTypes_eq] at hu
    rw [searchAll_exact config.inputRoots fuel inputTypes hu]
    exact and_iff_right hdefined
  have hempty : entry.2.fields.entries.isEmpty = true ↔ entry.2.fields.entries = [] := List.isEmpty_iff
  rw [kindOf]
  constructor
  · rintro (h | ⟨hi, h⟩ | ⟨hi, hu, h⟩ | ⟨hi, hu, h⟩)
    · rw [if_pos (hinterface.mpr h)]
    · rw [if_neg (hinterface.not.mpr hi), if_pos (hused.mpr h)]
    · rw [if_neg (hinterface.not.mpr hi), if_neg (hused.not.mpr hu), if_pos (hempty.mpr h)]
    · rw [if_neg (hinterface.not.mpr hi), if_neg (hused.not.mpr hu), if_neg (hempty.not.mpr h)]
  · rintro rfl
    split
    · next h => exact .interface (hinterface.mp h)
    · next hi =>
      split
      · next h => exact .inputObject (hinterface.not.mp hi) (hused.mp h)
      · next hu =>
        split
        · next h => exact .scalar (hinterface.not.mp hi) (hused.not.mp hu) (hempty.mp h)
        · next h => exact .object (hinterface.not.mp hi) (hused.not.mp hu) (hempty.not.mp h)

theorem restored_eq_self_iff (fuel : ℕ) (interfaceTypes : TypesMap) (inputTypes : Finset String)
    (hi : interfacesTypesMap config fuel = some interfaceTypes) (hu : config.inputTypes fuel = some inputTypes) :
    restored codecs interfaceTypes inputTypes config = config ↔
      config.telemetry = codecs.defaultTelemetry ∧ (∀ entry ∈ config.unions.entries, entry.2.doc = none) ∧
        ∀ entry ∈ config.types.entries, ∀ kind, WrittenAs config entry.1 entry.2 kind →
          KeepsType kind entry.2 := by
  have hunions : (config.unions.map fun _ union => ⟨union.types, none⟩) = config.unions ↔
      ∀ entry ∈ config.unions.entries, entry.2.doc = none := by
    rw [Dict.map_eq_self_iff]
    refine forall₂_congr fun entry _ => ?_
    obtain ⟨name, types, doc⟩ := entry
    simp [eq_comm]
  have htypes : (config.types.map fun name type => restoredType (kindOf interfaceTypes inputTypes name type) type) =
      config.types ↔ ∀ entry ∈ config.types.entries, ∀ kind, WrittenAs config entry.1 entry.2 kind →
        KeepsType kind entry.2 := by
    rw [Dict.map_eq_self_iff]
    refine forall₂_congr fun entry he => ?_
    simp only [writtenAs_iff fuel interfaceTypes inputTypes hi hu entry he, forall_eq']
    refine restoredType_eq_self_iff _ _ fun hk => ?_
    rcases (writtenAs_iff fuel interfaceTypes inputTypes hi hu entry he .scalar).mpr hk with _ | _ | ⟨_, _, h⟩
    exact h
  rw [← hunions, ← htypes]
  obtain ⟨server, upstream, schema, types, unions, enums, links, telemetry⟩ := config
  simp only [restored, Config.mk.injEq, true_and]
  constructor
  · rintro ⟨ht, hu, ht'⟩
    exact ⟨ht'.symm, hu, ht⟩
  · rintro ⟨ht', hu, ht⟩
    exact ⟨ht, hu, ht'.symm⟩

end Written

theorem config_survives_iff (laws : codecs.Lawful) (doc : ServiceDocument) (config : Config (documented P R F))
    (h : fromDocument codecs doc = .ok config) :
    (∃ fuel written, configDocument codecs fuel config = some written ∧
      fromDocument codecs written = .ok config) ↔ Survives codecs config := by
  have hreadable := readable_of_fromDocument doc config h
  constructor
  · rintro ⟨fuel, written, hw, hr⟩
    simp only [configDocument, Option.bind_eq_bind, Option.bind_eq_some_iff, Option.some.injEq] at hw
    obtain ⟨interfaceTypes, hi, inputTypes, hu, rfl⟩ := hw
    rw [fromDocument_document interfaceTypes inputTypes config laws hreadable] at hr
    obtain ⟨htelemetry, hunions, htypes⟩ :=
      (restored_eq_self_iff fuel interfaceTypes inputTypes hi hu).mp (Except.ok.inj hr)
    exact ⟨interfacesTypesMap_acyclic config fuel interfaceTypes hi,
      (inputTypes_returns_iff config).mp ⟨fuel, inputTypes, hu⟩, htelemetry, hunions, htypes⟩
  · intro hs
    obtain ⟨m, interfaceTypes, hi⟩ := interfacesTypesMap_returns (acc_implements_iff.mpr hs.interfaces)
    obtain ⟨n, inputTypes, hu⟩ := (inputTypes_returns_iff config).mpr hs.inputs
    have hi' := interfacesTypesMap_le (Nat.le_max_left m n) interfaceTypes hi
    have hu' : config.inputTypes (max m n) = some inputTypes := by
      rw [inputTypes_eq] at hu ⊢
      exact visitAll_mono _ _ (search_le (Nat.le_max_right m n)) _ _ _ hu
    refine ⟨max m n, document codecs interfaceTypes inputTypes config, ?_, ?_⟩
    · rw [configDocument, hi', hu']
      rfl
    · rw [fromDocument_document interfaceTypes inputTypes config laws hreadable,
        (restored_eq_self_iff (max m n) interfaceTypes inputTypes hi' hu').mpr ⟨hs.telemetry, hs.unions, hs.types⟩]

section Described

def unitCodec (name : String) : DirectiveCodec name Unit := ⟨fun _ => .succeed (), fun _ => []⟩

def aliasCodec : DirectiveCodec "alias" Alias where
  fromDirective directive :=
    match directive.arguments with
    | [("options", .list items)] => .succeed ⟨(items.filterMap ConstValue.asStr).toFinset⟩
    | _ => .fail "missing field"
  arguments value := [("options", .list ((value.options.sort (· ≤ ·)).map .string))]

def textCodec : JsonCodec String where
  fromJson text := .ok (.string text)
  intoJson
    | .string text => .ok text
    | _ => .error "not a text"

def plainCodecs : Codecs { plain with Json := String } fun _ => Unit where
  json := textCodec
  server := unitCodec _
  defaultServer := ()
  upstream := unitCodec _
  defaultUpstream := ()
  link := unitCodec _
  linkType _ := "Config"
  telemetry := unitCodec _
  defaultTelemetry := ()
  cache := unitCodec _
  protectedBy := unitCodec _
  addField := unitCodec _
  modify := unitCodec _
  omission := unitCodec _
  discriminate := unitCodec _
  aliases := aliasCodec
  resolver _ := unitCodec _

theorem plainCodecs_lawful : plainCodecs.Lawful where
  json json := ⟨.string json, rfl, rfl⟩
  server _ := rfl
  upstream _ := rfl
  link _ := rfl
  telemetry _ := rfl
  cache _ := rfl
  protectedBy _ := rfl
  addField _ := rfl
  modify _ := rfl
  omission _ := rfl
  discriminate _ := rfl
  aliases value := by
    have hstrings (texts : List String) : (texts.map ConstValue.string).filterMap ConstValue.asStr = texts := by
      rw [List.filterMap_map]
      exact List.filterMap_some
    change Except.ok (Alias.mk (List.filterMap ConstValue.asStr _).toFinset) = _
    rw [hstrings, Finset.sort_toFinset]
  resolver _ _ := rfl

def describedUnion : ServiceDocument where
  definitions :=
    [.type ⟨false, none, "Book", [], .object [] [⟨none, "title", [], .named "String" true, []⟩]⟩,
      .type ⟨false, some "Anything found.", "Found", [], .union ["Book"]⟩]

def describedConfig : Config (documented { plain with Json := String } (fun _ => Unit) Unit) where
  server := ()
  upstream := ()
  schema := ⟨none, none, none⟩
  types := ⟨[("Book", { (defaultType : TypeDef (documented { plain with Json := String } (fun _ => Unit) Unit)) with
    fields := ⟨[("title", ⟨.named "String" false, Dict.empty, none, none, none, none, none, none, none, [], []⟩)],
      by simp⟩ })], by simp⟩
  unions := ⟨[("Found", ⟨⟨["Book"], by simp⟩, some "Anything found."⟩)], by simp⟩
  enums := Dict.empty
  links := []
  telemetry := ()

theorem config_survives_described :
    (∃ fuel written, configDocument plainCodecs fuel describedConfig = some written ∧
      fromDocument plainCodecs written = .ok describedConfig) ↔ Survives plainCodecs describedConfig :=
  config_survives_iff plainCodecs_lawful describedUnion describedConfig rfl

theorem describedUnion_not_kept :
    ¬ ∀ (doc : ServiceDocument) (config : Config (documented { plain with Json := String } (fun _ => Unit) Unit)),
      fromDocument plainCodecs doc = .ok config →
        ∃ fuel written, configDocument plainCodecs fuel config = some written ∧
          fromDocument plainCodecs written = .ok config := by
  intro h
  have hread : fromDocument plainCodecs describedUnion = .ok describedConfig := rfl
  obtain ⟨fuel, written, hw, hr⟩ := h describedUnion describedConfig hread
  simp only [configDocument, Option.bind_eq_bind, Option.bind_eq_some_iff, Option.some.injEq] at hw
  obtain ⟨interfaceTypes, _, inputTypes, _, rfl⟩ := hw
  rw [fromDocument_document interfaceTypes inputTypes describedConfig plainCodecs_lawful
    (readable_of_fromDocument describedUnion describedConfig hread)] at hr
  have hdocs := congrArg (fun config => config.unions.entries.map fun entry => entry.2.doc) (Except.ok.inj hr)
  have hlost : [none] = [some "Anything found."] := hdocs
  exact absurd hlost (by decide)

end Described

end Gqlforge.ServiceDocuments
