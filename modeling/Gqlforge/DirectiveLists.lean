import Gqlforge.FromDocument

namespace Gqlforge.ServiceDocuments

open Json Schema Validation Config

variable {P : Payloads} {R : ResolverKind → Type} {F : Type} (codecs : Codecs P R)

def transformDefaultValue {J : Type} (json : JsonCodec J) (value : Option J) : Option ConstValue :=
  value.bind fun value => (json.fromJson value).toOption

def toConstArgument {J : Type} (json : JsonCodec J) (directiveName : String) (argument : String × J) :
    Valid (String × ConstValue) String :=
  match json.fromJson argument.2 with
  | .ok value => .succeed (argument.1, value)
  | .error error => (Valid.fail error).trace ("@" ++ directiveName)

def toConstDirective {J : Type} (json : JsonCodec J) (directive : Directive J) : Valid ConstDirective String :=
  (Valid.fromIter directive.arguments.entries (toConstArgument json directive.name)).mapOk fun arguments =>
    ⟨directive.name, arguments⟩

def intoDirectives {J : Type} (json : JsonCodec J) (directives : List (Directive J)) : List ConstDirective :=
  directives.filterMap fun directive => (toConstDirective json directive).toOption

def resolverToDirective : Resolver R F → Option ConstDirective
  | .ofKind kind value => some ((codecs.resolver kind).toDirective value)
  | .apolloFederation _ => none

def fieldDirectives (field : Config.Field (documented P R F)) : List ConstDirective :=
  field.resolvers.filterMap (resolverToDirective codecs) ++
    (field.modify.map codecs.modify.toDirective).toList ++
    (field.omission.map codecs.omission.toDirective).toList ++
    (field.cache.map codecs.cache.toDirective).toList ++
    (field.protectedBy.map codecs.protectedBy.toDirective).toList ++
    intoDirectives codecs.json field.directives

def typeDirectives (type : TypeDef (documented P R F)) : List ConstDirective :=
  type.addedFields.map codecs.addField.toDirective ++
    (type.cache.map codecs.cache.toDirective).toList ++
    (type.protectedBy.map codecs.protectedBy.toDirective).toList ++
    type.resolvers.filterMap (resolverToDirective codecs) ++
    intoDirectives codecs.json type.directives

def linkDirective (link : P.Link) : ConstDirective :=
  ⟨"link", ((codecs.link.toDirective link).arguments.filter fun argument => argument.1 != "type") ++
    [("type", .enum (codecs.linkType link))]⟩

def argumentDefinition (name : String) (arg : Arg (documented P R F)) : InputValueDefinition where
  description := arg.doc
  name := name
  ty := .fromWrapping arg.typeOf
  defaultValue := transformDefaultValue codecs.json arg.defaultValue
  directives := []

def fieldDefinition (arguments : List InputValueDefinition) (name : String) (field : Config.Field (documented P R F)) :
    FieldDefinition where
  description := field.doc
  name := name
  arguments := arguments
  ty := .fromWrapping field.typeOf
  directives := fieldDirectives codecs field

def interfaceField (name : String) (field : Config.Field (documented P R F)) : FieldDefinition :=
  fieldDefinition codecs [] name field

def objectField (name : String) (field : Config.Field (documented P R F)) : FieldDefinition :=
  fieldDefinition codecs (field.args.entries.map fun entry => argumentDefinition codecs entry.1 entry.2) name field

def inputField (name : String) (field : Config.Field (documented P R F)) : InputValueDefinition where
  description := field.doc
  name := name
  ty := .fromWrapping field.typeOf
  defaultValue := transformDefaultValue codecs.json field.defaultValue
  directives := fieldDirectives codecs field

def schemaOf (config : Config (documented P R F)) : SchemaDefinition where
  extend := false
  directives :=
    [codecs.server.toDirective config.server, codecs.upstream.toDirective config.upstream] ++
      config.links.map (linkDirective codecs)
  query := config.schema.query
  mutation := config.schema.mutation
  subscription := config.schema.subscription

inductive Kind where
  | interface
  | inputObject
  | scalar
  | object

def kindOf (interfaceTypes : SchemaUsage.TypesMap) (inputTypes : Finset String) (name : String)
    (type : TypeDef (documented P R F)) : Kind :=
  if interfaceTypes.contains name then .interface
  else if name ∈ inputTypes then .inputObject
  else if type.fields.entries.isEmpty then .scalar
  else .object

def typeKind (type : TypeDef (documented P R F)) : Kind → TypeKind
  | .interface =>
    .interface type.implements.items
      (type.fields.entries.map fun entry => interfaceField codecs entry.1 entry.2)
  | .inputObject => .inputObject (type.fields.entries.map fun entry => inputField codecs entry.1 entry.2)
  | .scalar => .scalar
  | .object =>
    .object type.implements.items
      (type.fields.entries.map fun entry => objectField codecs entry.1 entry.2)

def typeDefinition (kind : Kind) (name : String) (type : TypeDef (documented P R F)) : TypeDefinition where
  extend := false
  description := type.doc
  name := name
  directives := typeDirectives codecs type
  kind := typeKind codecs type kind

def unionDefinition (name : String) (union : Union) : TypeDefinition where
  extend := false
  description := none
  name := name
  directives := []
  kind := .union union.types.items

def variantDefinition (variant : Variant) : EnumValueDefinition where
  description := none
  value := variant.name
  directives := (variant.aliases.map codecs.aliases.toDirective).toList

def enumDefinition (name : String) (type : Config.Enum) : TypeDefinition where
  extend := false
  description := type.doc
  name := name
  directives := []
  kind := .enum (type.variants.items.map (variantDefinition codecs))

def document (interfaceTypes : SchemaUsage.TypesMap) (inputTypes : Finset String)
    (config : Config (documented P R F)) : ServiceDocument where
  definitions :=
    .schema (schemaOf codecs config) ::
      (config.types.entries.map fun entry =>
        .type (typeDefinition codecs (kindOf interfaceTypes inputTypes entry.1 entry.2) entry.1 entry.2)) ++
      (config.unions.entries.map fun entry => .type (unionDefinition entry.1 entry.2)) ++
      (config.enums.entries.map fun entry => .type (enumDefinition codecs entry.1 entry.2))

def configDocument (fuel : ℕ) (config : Config (documented P R F)) : Option ServiceDocument := do
  let interfaceTypes ← SchemaUsage.interfacesTypesMap config fuel
  let inputTypes ← config.inputTypes fuel
  some (document codecs interfaceTypes inputTypes config)

end Gqlforge.ServiceDocuments

namespace Gqlforge.ServiceDocuments

open Json Schema Validation Config

section Collected

variable {α β γ : Type} (f : α → Valid (Option β) String)

theorem fromIterSome_cons_eq_ok (item : α) (rest : List α) (results : List β) :
    fromIterSome (item :: rest) f = .ok results ↔
      ∃ option results', f item = .ok option ∧ fromIterSome rest f = .ok results' ∧
        results = option.toList ++ results' := by
  simp only [fromIterSome, Valid.mapOk_eq_ok, Valid.fromIter_cons_eq_ok]
  constructor
  · rintro ⟨_, ⟨option, options, rfl, ho, hr⟩, rfl⟩
    refine ⟨option, options.reduceOption, ho, ⟨options, hr, rfl⟩, ?_⟩
    cases option <;> rfl
  · rintro ⟨option, _, ho, ⟨options, hr, rfl⟩, rfl⟩
    refine ⟨option :: options, ⟨option, options, rfl, ho, hr⟩, ?_⟩
    cases option <;> rfl

theorem fromIterSome_append (items others : List α) (results rest : List β) (h : fromIterSome items f = .ok results)
    (hr : fromIterSome others f = .ok rest) : fromIterSome (items ++ others) f = .ok (results ++ rest) := by
  induction items generalizing results with
  | nil =>
    obtain rfl := Except.ok.inj h
    exact hr
  | cons item items ih =>
    obtain ⟨option, results', ho, h', rfl⟩ := (fromIterSome_cons_eq_ok f item items results).mp h
    exact (fromIterSome_cons_eq_ok f item _ _).mpr
      ⟨option, results' ++ rest, ho, ih results' h', List.append_assoc _ _ _⟩

theorem fromIterSome_none (items : List α) (h : ∀ item ∈ items, f item = .ok none) : fromIterSome items f = .ok [] := by
  induction items with
  | nil => rfl
  | cons item rest ih =>
    rw [List.forall_mem_cons] at h
    exact (fromIterSome_cons_eq_ok f item rest []).mpr ⟨none, [], h.1, ih h.2, rfl⟩

theorem fromIterSome_filterMap (items : List γ) (write : γ → Option α) (read : γ → β)
    (h : ∀ item ∈ items, ∃ written, write item = some written ∧ f written = .ok (some (read item))) :
    fromIterSome (items.filterMap write) f = .ok (items.map read) := by
  induction items with
  | nil => rfl
  | cons item rest ih =>
    rw [List.forall_mem_cons] at h
    obtain ⟨⟨written, hw, hf⟩, hrest⟩ := h
    rw [List.filterMap_cons_some hw]
    exact (fromIterSome_cons_eq_ok f written _ _).mpr ⟨some (read item), _, hf, ih hrest, rfl⟩

theorem fromIterSome_map (items : List γ) (write : γ → α) (read : γ → β)
    (h : ∀ item ∈ items, f (write item) = .ok (some (read item))) :
    fromIterSome (items.map write) f = .ok (items.map read) := by
  rw [← List.filterMap_eq_map]
  exact fromIterSome_filterMap f items _ read fun item hi => ⟨write item, rfl, h item hi⟩

theorem fromIterSome_filter (items : List α) (keep : α → Bool)
    (h : ∀ item, keep item = false → f item = .ok none) (results : List β)
    (hr : fromIterSome (items.filter keep) f = .ok results) : fromIterSome items f = .ok results := by
  induction items generalizing results with
  | nil => exact hr
  | cons item rest ih =>
    by_cases hk : keep item = true
    · rw [List.filter_cons_of_pos hk, fromIterSome_cons_eq_ok] at hr
      obtain ⟨option, results', ho, hr, rfl⟩ := hr
      exact (fromIterSome_cons_eq_ok f item rest _).mpr ⟨option, results', ho, ih results' hr, rfl⟩
    · rw [List.filter_cons_of_neg hk] at hr
      rw [Bool.not_eq_true] at hk
      exact (fromIterSome_cons_eq_ok f item rest _).mpr ⟨none, results, h item hk, ih results hr, rfl⟩

end Collected

section Named

def named (keep : String → Bool) (directives : List ConstDirective) : List ConstDirective :=
  directives.filter fun directive => keep directive.name

variable (keep : String → Bool)

@[simp]
theorem named_nil : named keep [] = [] := rfl

@[simp]
theorem named_append (directives others : List ConstDirective) :
    named keep (directives ++ others) = named keep directives ++ named keep others :=
  List.filter_append ..

theorem named_const (directives : List ConstDirective) (b : Bool)
    (h : ∀ directive ∈ directives, keep directive.name = b) : named keep directives = if b then directives else [] := by
  cases b with
  | true => exact List.filter_eq_self.mpr h
  | false => exact List.filter_eq_nil_iff.mpr fun directive hd => by simp [h directive hd]

variable {name : String} {α : Type} (codec : DirectiveCodec name α)

@[simp]
theorem named_toList (value : Option α) :
    named keep (value.map codec.toDirective).toList =
      if keep name then (value.map codec.toDirective).toList else [] := by
  refine named_const keep _ (keep name) fun directive hd => ?_
  simp only [Option.mem_toList, Option.map_eq_some_iff] at hd
  obtain ⟨value, _, rfl⟩ := hd
  rfl

@[simp]
theorem named_map (values : List α) :
    named keep (values.map codec.toDirective) = if keep name then values.map codec.toDirective else [] := by
  refine named_const keep _ (keep name) fun directive hd => ?_
  obtain ⟨value, _, rfl⟩ := List.mem_map.mp hd
  rfl

theorem fromDirectives_named (directives : List ConstDirective) :
    codec.fromDirectives directives = codec.fromDirectives (named (· == name) directives) := by
  induction directives with
  | nil => rfl
  | cons directive rest ih =>
    by_cases h : directive.name = name
    · have hb : (directive.name == name) = true := by simpa using h
      rw [named, List.filter_cons_of_pos (by exact hb), DirectiveCodec.fromDirectives, if_pos h,
        DirectiveCodec.fromDirectives, if_pos h]
    · have hb : ¬ (directive.name == name) = true := by simpa using h
      rw [named, List.filter_cons_of_neg (by exact hb), DirectiveCodec.fromDirectives, if_neg h]
      exact ih

@[simp]
theorem fromDirectives_toList (lawful : codec.Lawful) (value : Option α) :
    codec.fromDirectives (value.map codec.toDirective).toList = .ok value := by
  cases value with
  | none => rfl
  | some value =>
    change (if name = name then _ else _) = _
    rw [if_pos rfl, lawful value]
    rfl

end Named

section Groups

variable {P : Payloads} {R : ResolverKind → Type} {F : Type} (codecs : Codecs P R)

def Directed (resolver : Resolver R F) : Prop :=
  ∃ kind value, resolver = .ofKind kind value

def Federated {J : Type} (directive : Directive J) : Prop :=
  directive.name ∈ federationDirectives

def resolverNames : List String := ResolverKind.all.map ResolverKind.directiveName

theorem directiveName_mem (kind : ResolverKind) : kind.directiveName ∈ resolverNames := by
  cases kind <;> decide

theorem find_directiveName (kind : ResolverKind) :
    ResolverKind.all.find? (fun other => other.directiveName == kind.directiveName) = some kind := by
  cases kind <;> decide

theorem named_resolvers (keep : String → Bool) (b : Bool) (h : ∀ name ∈ resolverNames, keep name = b)
    (resolvers : List (Resolver R F)) :
    named keep (resolvers.filterMap (resolverToDirective codecs)) =
      if b then resolvers.filterMap (resolverToDirective codecs) else [] := by
  refine named_const keep _ b fun directive hd => ?_
  obtain ⟨resolver, _, hr⟩ := List.mem_filterMap.mp hd
  cases resolver with
  | ofKind kind value =>
    obtain rfl := Option.some.inj hr
    exact h kind.directiveName (directiveName_mem kind)
  | apolloFederation value => cases hr

theorem named_intoDirectives {J : Type} (json : JsonCodec J) (keep : String → Bool) (b : Bool)
    (h : ∀ name ∈ federationDirectives, keep name = b) (directives : List (Directive J))
    (hf : ∀ directive ∈ directives, Federated directive) :
    named keep (intoDirectives json directives) = if b then intoDirectives json directives else [] := by
  refine named_const keep _ b fun constDirective hd => ?_
  obtain ⟨directive, hm, hr⟩ := List.mem_filterMap.mp hd
  have hname : constDirective.name = directive.name := by
    cases hc : toConstDirective json directive with
    | error e =>
      rw [hc] at hr
      cases hr
    | ok written =>
      rw [hc] at hr
      obtain rfl := Option.some.inj hr
      obtain ⟨_, _, rfl⟩ := (Valid.mapOk_eq_ok ..).mp hc
      rfl
  rw [hname]
  exact h directive.name (hf directive hm)

theorem toConstDirective_returns {J : Type} (json : JsonCodec J) (lawful : json.Lawful) (directive : Directive J) :
    ∃ written, toConstDirective json directive = .ok written ∧ toDirective json written = .ok directive := by
  obtain ⟨name, arguments⟩ := directive
  have hargs : ∀ entries : Object J, ∃ written, Valid.fromIter entries (toConstArgument json name) = .ok written ∧
      (written.mapM fun (argument : String × ConstValue) =>
        (json.intoJson argument.2).map fun value => (argument.1, value)) = .ok entries := by
    intro entries
    induction entries with
    | nil => exact ⟨[], rfl, rfl⟩
    | cons entry rest ih =>
      obtain ⟨written, hw, hr⟩ := ih
      obtain ⟨value, hv, hi⟩ := lawful entry.2
      refine ⟨(entry.1, value) :: written, ?_, ?_⟩
      · refine (Valid.fromIter_cons_eq_ok ..).mpr ⟨_, _, rfl, ?_, hw⟩
        simp [toConstArgument, hv, Valid.succeed]
      · simp only [List.mapM_cons, hi, hr]
        rfl
  obtain ⟨written, hw, hr⟩ := hargs arguments.entries
  refine ⟨⟨name, written⟩, ?_, ?_⟩
  · simp [toConstDirective, hw, Valid.mapOk, Valid.andThen, Valid.succeed]
  · simp only [toDirective, hr]
    rw [Dict.ofEntries_entries]
    rfl

structure Codecs.Lawful : Prop where
  json : codecs.json.Lawful
  server : codecs.server.Lawful
  upstream : codecs.upstream.Lawful
  link : ∀ link, codecs.link.fromDirective (linkDirective codecs link) = .ok link
  telemetry : codecs.telemetry.Lawful
  cache : codecs.cache.Lawful
  protectedBy : codecs.protectedBy.Lawful
  addField : codecs.addField.Lawful
  modify : codecs.modify.Lawful
  omission : codecs.omission.Lawful
  discriminate : codecs.discriminate.Lawful
  aliases : codecs.aliases.Lawful
  resolver : ∀ kind, (codecs.resolver kind).Lawful

theorem resolversFromDirectives_ok (laws : codecs.Lawful) (directives : List ConstDirective)
    (resolvers : List (Resolver R F)) (hr : ∀ resolver ∈ resolvers, Directed resolver)
    (hn : named (· ∈ resolverNames) directives = resolvers.filterMap (resolverToDirective codecs)) :
    resolversFromDirectives codecs directives = .ok resolvers := by
  refine fromIterSome_filter _ directives (fun directive => directive.name ∈ resolverNames) (fun directive hd => ?_)
    resolvers ?_
  · have hnone : ResolverKind.all.find? (fun kind => kind.directiveName == directive.name) = none := by
      refine List.find?_eq_none.mpr fun kind _ hk => of_decide_eq_false hd ?_
      rw [← eq_of_beq hk]
      exact directiveName_mem kind
    rw [hnone]
    rfl
  · change fromIterSome (named (· ∈ resolverNames) directives) _ = _
    rw [hn]
    refine (fromIterSome_filterMap _ resolvers _ id fun resolver hm => ?_).trans (by rw [List.map_id])
    obtain ⟨kind, value, rfl⟩ := hr resolver hm
    refine ⟨_, rfl, ?_⟩
    have hfind : ResolverKind.all.find? (fun other =>
        other.directiveName == ((codecs.resolver kind).toDirective value).name) = some kind :=
      find_directiveName kind
    rw [hfind]
    change ((codecs.resolver kind).fromDirective ((codecs.resolver kind).toDirective value)).mapOk _ = _
    rw [laws.resolver kind value]
    rfl

theorem toFederationDirectives_ok {J : Type} (json : JsonCodec J) (lawful : json.Lawful)
    (constDirectives : List ConstDirective) (directives : List (Directive J))
    (hf : ∀ directive ∈ directives, Federated directive)
    (hn : named (· ∈ federationDirectives) constDirectives = intoDirectives json directives) :
    toFederationDirectives json constDirectives = .ok directives := by
  refine fromIterSome_filter _ constDirectives (fun directive => directive.name ∈ federationDirectives)
    (fun directive hd => if_neg (of_decide_eq_false hd)) directives ?_
  change fromIterSome (named (· ∈ federationDirectives) constDirectives) _ = _
  rw [hn]
  refine (fromIterSome_filterMap _ directives _ id fun directive hm => ?_).trans (by rw [List.map_id])
  obtain ⟨written, hw, hr⟩ := toConstDirective_returns json lawful directive
  have hname : written.name = directive.name := by
    obtain ⟨_, _, rfl⟩ := (Valid.mapOk_eq_ok ..).mp hw
    rfl
  refine ⟨written, by rw [hw]; rfl, ?_⟩
  rw [if_pos (by rw [hname]; exact hf directive hm), hr]
  rfl

section Written

variable (field : Config.Field (documented P R F)) (type : TypeDef (documented P R F))

/-- What the resolvers and the further directives of a config that comes from a document are. -/
structure Readable {J : Type} (resolvers : List (Resolver R F)) (directives : List (Directive J)) : Prop where
  directed : ∀ resolver ∈ resolvers, Directed resolver
  federated : ∀ directive ∈ directives, Federated directive

theorem named_fieldDirectives (h : Readable field.resolvers field.directives) (keep : String → Bool) (b c : Bool)
    (hb : ∀ name ∈ resolverNames, keep name = b) (hc : ∀ name ∈ federationDirectives, keep name = c) :
    named keep (fieldDirectives codecs field) =
      (if b then field.resolvers.filterMap (resolverToDirective codecs) else []) ++
        (if keep "modify" then (field.modify.map codecs.modify.toDirective).toList else []) ++
        (if keep "omit" then (field.omission.map codecs.omission.toDirective).toList else []) ++
        (if keep "cache" then (field.cache.map codecs.cache.toDirective).toList else []) ++
        (if keep "protected" then (field.protectedBy.map codecs.protectedBy.toDirective).toList else []) ++
        (if c then intoDirectives codecs.json field.directives else []) := by
  rw [fieldDirectives]
  simp only [named_append, named_toList]
  rw [named_resolvers codecs keep b hb, named_intoDirectives codecs.json keep c hc _ h.federated]

theorem named_typeDirectives (h : Readable type.resolvers type.directives) (keep : String → Bool) (b c : Bool)
    (hb : ∀ name ∈ resolverNames, keep name = b) (hc : ∀ name ∈ federationDirectives, keep name = c) :
    named keep (typeDirectives codecs type) =
      (if keep "addField" then type.addedFields.map codecs.addField.toDirective else []) ++
        (if keep "cache" then (type.cache.map codecs.cache.toDirective).toList else []) ++
        (if keep "protected" then (type.protectedBy.map codecs.protectedBy.toDirective).toList else []) ++
        (if b then type.resolvers.filterMap (resolverToDirective codecs) else []) ++
        (if c then intoDirectives codecs.json type.directives else []) := by
  rw [typeDirectives]
  simp only [named_append, named_toList, named_map]
  rw [named_resolvers codecs keep b hb, named_intoDirectives codecs.json keep c hc _ h.federated]

end Written

end Groups

end Gqlforge.ServiceDocuments
