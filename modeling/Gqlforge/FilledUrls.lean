import Gqlforge.ServedStreams
import Gqlforge.TemplatePaths

namespace Gqlforge.FilledUrls

open Json Resolvers Templates Mustache Schema Config Validation FieldCompiler StreamDirectives TemplateValidation
open EvalContext ConformingValues TemplatePaths

section Contexts

variable {P : Payloads} {B : Backends} (config : Config (withResolvers P B)) (formats : Scalar.Formats)
variable (typeOf : TypeDef (withResolvers P B)) (field : Config.Field (withResolvers P B))

abbrev Parent (value : Object ConstValue) : Prop :=
  Members config formats false (declaredType typeOf) value

def argType (key : String) : Option WrappingType :=
  (field.args.get? key).map (·.typeOf)

structure Arguments (args : Object ConstValue) : Prop where
  members : Members config formats true (argType field) args
  defaults : ∀ {key : String} {arg : Arg (withResolvers P B)}, field.args.get? key = some arg →
    arg.defaultValue.isSome = true → (args.getKey key).isSome = true

structure Moment where
  texts : Texts
  requestCtx : RequestContext
  selected : Option (Field ConstValue)
  isQuery : Bool
  claims : Option ConstValue

def Moment.context (moment : Moment) (value args : Object ConstValue) : EvalContext :=
  EvalContext.new moment.requestCtx ⟨some (.object value), some args, moment.selected, moment.isQuery⟩

def Moment.text (moment : Moment) (value args : Object ConstValue) (parts : List String) : Option String :=
  (pathContext moment.texts (moment.context value args) moment.claims).pathString parts

def Moment.raw (moment : Moment) (value args : Object ConstValue) (parts : List String) :
    Option RequestTemplates.ValueString :=
  toRawValue moment.texts (moment.context value args) moment.claims parts

/-- No hole is left in the URL, and the parent's values in it are those of scalar fields. -/
structure Filled (moment : Moment) (value args : Object ConstValue) (url : Mustache) : Prop where
  values : ∀ {path : List String}, "value" :: path ∈ expressionSegments url →
    (moment.text value args ("value" :: path)).isSome = true ∧ ∃ scalar nonNull found,
      typeAt config (declaredType typeOf) path = some (.named scalar nonNull) ∧
        Scalar.isPredefined scalar = true ∧
        moment.raw value args ("value" :: path) = some (.value found false) ∧
        Conforms config formats false (.named scalar true) found
  args : ∀ {path : List String}, "args" :: path ∈ expressionSegments url →
    (moment.text value args ("args" :: path)).isSome = true

def Validated {R : Rest} (http : HttpDirective R) (operationType : OperationType) : Prop :=
  http.select = none ∧ operationType ≠ .subscription

/-- What makes up for the lists, for the arguments and for the wrappings that the checker does not look into. -/
structure Steady (validated : Prop) (url : Mustache) : Prop where
  values : ∀ {path : List String}, "value" :: path ∈ expressionSegments url →
    unlisted config (declaredType typeOf) path = true
  unchecked : ¬ validated → ∀ {path : List String}, "value" :: path ∈ expressionSegments url →
    path ≠ [] ∧ validateType config false path typeOf [] path = .ok ()
  args : ∀ {path : List String}, "args" :: path ∈ expressionSegments url → leads config (argType field) path = true

/-- What the parameters of the query are filled with is of scalar types, or is taken from a scalar or an enum. -/
structure QueryTyped (moment : Moment) (value args : Object ConstValue) (validated : Prop) (query : Mustache) :
    Prop where
  values : validated → ∀ {path : List String} {found : ConstValue} {owned : Bool},
    "value" :: path ∈ expressionSegments query →
    moment.raw value args ("value" :: path) = some (.value found owned) →
    ∃ type, typeAt config (declaredType typeOf) path = some type ∧ Scalar.isPredefined type.name = true ∧
      Conforms config formats false type found
  args : ∀ {path : List String} {found : ConstValue} {owned : Bool}, "args" :: path ∈ expressionSegments query →
    moment.raw value args ("args" :: path) = some (.value found owned) →
    ∃ front type, front <+: path ∧ typeAt config (argType field) front = some type ∧
      isLeaf config type.name = true

end Contexts

section Lookups

variable {moment : Moment} {value args : Object ConstValue} {key : String} {path : List String}

theorem raw_value : moment.raw value args ("value" :: path) = (getPath (.object value) path).map (.value · false) := by
  cases path <;> rfl

theorem raw_args (hkey : IsName key) : moment.raw value args ("args" :: key :: path) =
    (getPath (.object args) (key :: path)).map (.value · false) := by
  rw [getPath_cons hkey]
  change (args.getKey key).bind (fun arg => (getPath arg path).map (RequestTemplates.ValueString.value · false)) =
    ((args.getKey key).bind (getPath · path)).map (RequestTemplates.ValueString.value · false)
  cases args.getKey key <;> rfl

theorem convertValue_isSome (texts : Texts) {found : ConstValue} (h : found ≠ .null) :
    (convertValue texts found false).isSome = true := by
  cases found with
  | null => exact absurd rfl h
  | number number => cases number <;> rfl
  | _ => rfl

theorem text_isSome {parts : List String} {found : ConstValue}
    (h : moment.raw value args parts = some (.value found false)) :
    (moment.text value args parts).isSome = true ↔ found ≠ .null := by
  have heq : moment.text value args parts = convertValue moment.texts found false := by
    change (moment.raw value args parts).bind _ = _
    rw [h]
    rfl
  rw [heq]
  constructor
  · rintro hsome rfl
    cases hsome
  · exact convertValue_isSome moment.texts

theorem text_eq_none {parts : List String} (h : moment.raw value args parts = none) :
    moment.text value args parts = none := by
  change (moment.raw value args parts).bind _ = none
  rw [h]
  rfl

theorem text_args : (moment.text value args ["args"]).isSome = true := rfl

end Lookups

section Accepted

variable {P : Payloads} {B : Backends} {R : Rest} {settings : Settings P (streamBackends B (httpRest R))}
variable {T : Templating P B (httpRest R)} {C : Compiler P (streamBackends B (httpRest R))}
variable {module : Module P (streamBackends B (httpRest R))}
variable {field : Config.Field (withResolvers P (streamBackends B (httpRest R)))}
variable {typeOf : TypeDef (withResolvers P (streamBackends B (httpRest R)))} {http : HttpDirective (httpRest R)}
variable {operationType : OperationType} {objectName name : String} {bField : CompiledField} {fuel : ℕ}

variable {config : Config (withResolvers P (streamBackends B (httpRest R)))}

theorem validateResolvers_mem {args : List InputFieldDefinition} {resolvers : List IR}
    (h : validateResolvers settings config typeOf args resolvers = .ok ()) {resolver : IR}
    (hmem : resolver ∈ resolvers) : validateResolver settings config typeOf args resolver = .ok () := by
  induction resolvers with
  | nil => cases hmem
  | cons first rest ih =>
    obtain ⟨⟨⟨⟩, ⟨⟩⟩, hzip, -⟩ := (Valid.mapOk_eq_ok _ _ _).mp h
    obtain ⟨hfirst, hrest⟩ := (Valid.zip_eq_ok _ _ _).mp hzip
    rcases List.mem_cons.mp hmem with rfl | hmem
    · exact hfirst
    · exact ih hrest hmem

theorem validateResolver_of_merged {bField : CompiledField} {irs : List (Option IR)} {ir : IR}
    (h : validateField settings config typeOf (bField.withResolver (mergedResolver irs)) = .ok ())
    (hmem : some ir ∈ irs) : validateResolver settings config typeOf bField.args ir = .ok () := by
  match irs with
  | [resolver] =>
    obtain rfl := List.mem_singleton.mp hmem
    exact h
  | first :: second :: rest => exact validateResolvers_mem h (List.mem_filterMap.mpr ⟨some ir, hmem, rfl⟩)

theorem compiled_of_accepted
    (h : toFieldDefinition (templateCompiler settings T C) module objectName
      (compileResolver (templateCompiler settings T C) module operationType objectName fuel) field typeOf name =
        some (.ok bField))
    (hmem : .other (.http http) ∈ field.resolvers) :
    ∃ ir args, compileHttp { T with httpTemplate := compileTemplate settings } module field operationType http =
        .ok ir ∧ validateResolver settings module.config typeOf args ir = .ok () := by
  obtain ⟨resolvers, hresolvers, h⟩ := Option.map_eq_some_iff.mp h
  obtain ⟨_, hresolved, -⟩ := (Valid.tryFoldAnd_eq_ok _ _ _ _).mp h
  obtain ⟨start, -, hupdate⟩ := (Valid.tryFoldAnd_eq_ok _ _ _ _).mp hresolved
  obtain ⟨_, hmerged, hvalid⟩ := (Valid.andThen_eq_ok _ _ _).mp hupdate
  obtain ⟨irs, hirs, rfl⟩ := (Valid.mapOk_eq_ok _ _ _).mp hmerged
  obtain ⟨⟨⟩, hvalid, -⟩ := (Valid.mapOk_eq_ok _ _ _).mp hvalid
  obtain ⟨ir, hir, hcompiled⟩ := GuardedFields.collected hresolvers hirs hmem
  cases fuel with
  | zero => cases hcompiled
  | succ fuel =>
    obtain ⟨ir', hdirective, rfl⟩ := (Valid.mapOk_eq_ok _ _ _).mp (Option.some.inj hcompiled)
    exact ⟨ir', start.args, (Valid.trace_eq_ok _ _ _).mp hdirective, validateResolver_of_merged hvalid hir⟩

theorem requestTemplate_of_compiled {template : Http.RequestTemplate} {dedupe : Bool}
    (h : compileTemplate settings module field operationType http.rest = .ok (template, dedupe)) :
    (∃ headers, template = requestTemplate settings http.rest headers) ∧
      ∀ query ∈ http.rest.query,
        validateArgument settings module.config (parse query.value) field = .ok () := by
  obtain ⟨template', hchecked, heq⟩ := (Valid.mapOk_eq_ok _ _ _).mp h
  obtain ⟨rfl, -⟩ := Prod.mk.inj heq
  obtain ⟨⟨⟨⟩, headers⟩, hzip, hbatching⟩ := (Valid.andThen_eq_ok _ _ _).mp hchecked
  obtain ⟨hbefore, -⟩ := (Valid.zip_eq_ok _ _ _).mp hzip
  constructor
  · refine ⟨headers, ?_⟩
    change checkBatching settings http.rest (requestTemplate settings http.rest headers) = .ok template' at hbatching
    unfold checkBatching at hbatching
    split at hbatching
    · split at hbatching
      · exact (Except.ok.inj hbatching).symm
      · cases hbatching
    · exact (Except.ok.inj hbatching).symm
  · obtain ⟨⟨_, hbefore⟩, -⟩ := (Valid.and_eq_ok _ _ _).mp hbefore
    obtain ⟨-, hqueries⟩ := (Valid.and_eq_ok _ _ _).mp hbefore
    rw [Valid.trace_eq_ok] at hqueries
    intro query hquery
    obtain ⟨⟨⟩, hvalid⟩ := (Valid.fromIter_succeeds_iff _ _).mp ⟨_, hqueries⟩ query hquery
    exact hvalid

theorem validateTemplate_mem {args : List InputFieldDefinition} {isQuery : Bool} {label : String} {template : Mustache}
    {parts : List String} (h : validateTemplate settings config typeOf args isQuery label template = .ok ())
    (hparts : parts ∈ expressionSegments template) : validate settings config typeOf args isQuery parts = .ok () := by
  obtain ⟨results, hresults, -⟩ := (Valid.mapOk_eq_ok _ _ _).mp h
  obtain ⟨⟨⟩, hvalid⟩ := (Valid.fromIter_succeeds_iff _ _).mp ⟨_, hresults⟩ parts hparts
  exact (Valid.trace_eq_ok _ _ _).mp hvalid

variable {path : List String}

theorem validate_value {args : List InputFieldDefinition} {isQuery : Bool}
    (h : validate settings config typeOf args isQuery ("value" :: path) = .ok ()) :
    path ≠ [] ∧ validateType config isQuery path typeOf [] path = .ok () := by
  cases path with
  | nil => cases h
  | cons item path =>
    refine ⟨List.cons_ne_nil item path, ?_⟩
    change validateValue settings config typeOf isQuery (item :: path) = .ok () at h
    unfold validateValue at h
    split at h
    · next hvalid => exact hvalid
    · cases h

theorem values_validated
    (h : toFieldDefinition (templateCompiler settings T C) module objectName
      (compileResolver (templateCompiler settings T C) module operationType objectName fuel) field typeOf name =
        some (.ok bField))
    (hmem : .other (.http http) ∈ field.resolvers) (hvalidated : Validated http operationType) :
    (∀ path, "value" :: path ∈ expressionSegments (parse http.rest.url) →
        path ≠ [] ∧ validateType module.config false path typeOf [] path = .ok ()) ∧
      ∀ query ∈ http.rest.query, ∀ path, "value" :: path ∈ expressionSegments (parse query.value) →
        path ≠ [] ∧ validateType module.config true path typeOf [] path = .ok () := by
  obtain ⟨ir, args, hcompiled, hvalid⟩ := compiled_of_accepted h hmem
  obtain ⟨⟨template, dedupe⟩, htemplate, hselect⟩ := (Valid.andThen_eq_ok _ _ _).mp hcompiled
  obtain ⟨⟨headers, rfl⟩, -⟩ := requestTemplate_of_compiled htemplate
  obtain ⟨hselected, hoperation⟩ := hvalidated
  simp only [hselected, if_neg hoperation] at hselect
  obtain rfl := Except.ok.inj hselect
  rw [validateResolver, validateIo, Valid.trace_eq_ok] at hvalid
  obtain ⟨⟨⟨⟩, hurl⟩, hqueries⟩ := (Valid.and_eq_ok _ _ _).mp hvalid
  constructor
  · exact fun path hpath => validate_value (validateTemplate_mem hurl hpath)
  · intro query hquery path hpath
    obtain ⟨results, hresults, -⟩ := (Valid.mapOk_eq_ok _ _ _).mp hqueries
    have hmem' : parse query.value ∈ ((requestTemplate settings http.rest headers).query.map Http.Query.value) :=
      List.mem_map.mpr ⟨_, List.mem_map_of_mem hquery, rfl⟩
    obtain ⟨⟨⟩, htemplate⟩ := (Valid.fromIter_succeeds_iff _ _).mp ⟨_, hresults⟩ _ hmem'
    exact validate_value (validateTemplate_mem htemplate hpath)

theorem validateExpression_of_accepted
    (h : toFieldDefinition (templateCompiler settings T C) module objectName
      (compileResolver (templateCompiler settings T C) module operationType objectName fuel) field typeOf name =
        some (.ok bField))
    (hmem : .other (.http http) ∈ field.resolvers) {query : URLQuery} (hquery : query ∈ http.rest.query)
    {parts : List String} (hparts : parts ∈ expressionSegments (parse query.value)) :
    validateExpression settings module.config field parts = .ok () := by
  obtain ⟨ir, args, hcompiled, -⟩ := compiled_of_accepted h hmem
  obtain ⟨⟨template, dedupe⟩, htemplate, -⟩ := (Valid.andThen_eq_ok _ _ _).mp hcompiled
  obtain ⟨results, hresults, -⟩ := (Valid.mapOk_eq_ok _ _ _).mp ((requestTemplate_of_compiled htemplate).2 query hquery)
  obtain ⟨⟨⟩, hvalid⟩ := (Valid.fromIter_succeeds_iff _ _).mp ⟨_, hresults⟩ parts hparts
  exact hvalid

variable {formats : Scalar.Formats} {moment : Moment}

theorem Conforms.nonNull {config : Config P} {closed nonNull : Bool} {type : String} {found : ConstValue}
    (h : Conforms config formats closed (.named type nonNull) found) (hne : found ≠ .null) :
    Conforms config formats closed (.named type true) found := by
  cases h with
  | null => exact absurd rfl hne
  | object hfound hscalar hpresent habsent hknown => exact .object hfound hscalar hpresent habsent hknown
  | custom hfound hscalar _ => exact .custom hfound hscalar hne
  | scalar hfound hvalue _ => exact .scalar hfound hvalue hne
  | enum hfound henum hvariant hvalue => exact .enum hfound henum hvariant hvalue
  | union hclosed hfound hunion hmember hvalue => exact .union hclosed hfound hunion hmember hvalue

variable {args value : Object ConstValue}

theorem value_filled
 {scalar : String} {nonNull : Bool}
    (hparent : Parent config formats typeOf value) (hnames : ∀ name ∈ path, IsName name)
    (hleads : leads config (declaredType typeOf) path = true)
    (htype : typeAt config (declaredType typeOf) path = some (.named scalar nonNull)) :
    (moment.text value args ("value" :: path)).isSome = true ∧ ∃ found,
      moment.raw value args ("value" :: path) = some (.value found false) ∧
        Conforms config formats false (.named scalar true) found := by
  obtain ⟨found, hfound, hne⟩ := leads_getPath hparent hleads hnames
  have hraw : moment.raw value args ("value" :: path) = some (.value found false) := by
    rw [raw_value, hfound]
    rfl
  exact ⟨(text_isSome hraw).mpr hne, found, hraw, Conforms.nonNull (getPath_conforms hparent htype hnames hfound) hne⟩

theorem args_filled
 (hargs : Arguments config formats field args)
    (hnames : ∀ name ∈ path, IsName name) (hleads : leads config (argType field) path = true) :
    (moment.text value args ("args" :: path)).isSome = true := by
  cases path with
  | nil => exact text_args
  | cons key path =>
    obtain ⟨found, hfound, hne⟩ := leads_getPath hargs.members hleads hnames
    refine (text_isSome ?_).mpr hne
    rw [raw_args (hnames key List.mem_cons_self), hfound]
    rfl

theorem args_lead
 (hargs : Arguments config formats field args)
    (hnames : ∀ name ∈ path, IsName name)
    (hfilled : ∀ args, Arguments config formats field args →
      (moment.text value args ("args" :: path)).isSome = true) : leads config (argType field) path = true := by
  cases path with
  | nil => rfl
  | cons key path =>
    by_contra hnot
    obtain ⟨args', hmembers, hkept, hhole⟩ :=
      exists_hole hargs.members (Bool.eq_false_iff.mpr hnot) hnames (.inl rfl)
    have htext := hfilled args' ⟨hmembers, fun harg hdefault => hkept _ (hargs.defaults harg hdefault)⟩
    have hraw : moment.raw value args' ("args" :: key :: path) = _ := raw_args (hnames key List.mem_cons_self)
    cases hfound : getPath (.object args') (key :: path) with
    | none =>
      rw [hfound] at hraw
      rw [text_eq_none hraw] at htext
      cases htext
    | some found =>
      rw [hfound] at hraw
      exact (text_isSome hraw).mp htext (hhole found hfound)

theorem value_leads
 {scalar : String} {nonNull : Bool}
    (hparent : Parent config formats typeOf value) (hnames : ∀ name ∈ path, IsName name)
    (htype : typeAt config (declaredType typeOf) path = some (.named scalar nonNull))
    (hfilled : ∀ value, Parent config formats typeOf value →
      (moment.text value args ("value" :: path)).isSome = true) : leads config (declaredType typeOf) path = true := by
  by_contra hnot
  obtain ⟨value', hmembers, -, hhole⟩ :=
    exists_hole hparent (Bool.eq_false_iff.mpr hnot) hnames (.inr (by rw [htype]; rfl))
  have htext := hfilled value' hmembers
  have hraw : moment.raw value' args ("value" :: path) = _ := raw_value
  cases hfound : getPath (.object value') path with
  | none =>
    rw [hfound] at hraw
    rw [text_eq_none hraw] at htext
    cases htext
  | some found =>
    rw [hfound] at hraw
    exact (text_isSome hraw).mp htext (hhole found hfound)

/-- The URL of an accepted field is without holes for all parent values and arguments if and only if what the checker
leaves out is steady. The parameters of the query are of the types that are asked for. -/
theorem url_filled_iff (formats : Scalar.Formats) (moment : Moment)
    (h : toFieldDefinition (templateCompiler settings T C) module objectName
      (compileResolver (templateCompiler settings T C) module operationType objectName fuel) field typeOf name =
        some (.ok bField))
    (hmem : .other (.http http) ∈ field.resolvers) :
    ((∀ value args, Parent module.config formats typeOf value → Arguments module.config formats field args →
        Filled module.config formats typeOf moment value args (parse http.rest.url)) ↔
      ((∃ value, Parent module.config formats typeOf value) → (∃ args, Arguments module.config formats field args) →
        Steady module.config typeOf field (Validated http operationType) (parse http.rest.url))) ∧
    ∀ value args, Parent module.config formats typeOf value → Arguments module.config formats field args →
      ∀ query ∈ http.rest.query,
        QueryTyped module.config formats typeOf field moment value args (Validated http operationType)
          (parse query.value) := by
  have hnames {text head : String} {path : List String} (hpath : head :: path ∈ expressionSegments (parse text)) :
      ∀ name ∈ path, IsName name := fun name hname => parse_isName hpath name (List.mem_cons_of_mem _ hname)
  refine ⟨⟨?_, ?_⟩, ?_⟩
  · rintro hfilled ⟨value, hvalue⟩ ⟨args, hargs⟩
    have hleads {path : List String} (hpath : "value" :: path ∈ expressionSegments (parse http.rest.url)) :
        path ≠ [] ∧ validateType module.config false path typeOf [] path = .ok () ∧
          unlisted module.config (declaredType typeOf) path = true := by
      obtain ⟨-, scalar, nonNull, found, htype, hpredefined, -⟩ := (hfilled value args hvalue hargs).values hpath
      have hne : path ≠ [] := by
        rintro rfl
        cases htype
      refine ⟨hne, (validateType_iff hne).mpr ⟨?_, scalar, nonNull, htype, hpredefined⟩⟩
      exact value_leads hvalue (hnames hpath) htype fun value' hvalue' =>
        ((hfilled value' args hvalue' hargs).values hpath).1
    exact
      { values := fun hpath => (hleads hpath).2.2
        unchecked := fun _ _ hpath => ⟨(hleads hpath).1, (hleads hpath).2.1⟩
        args := fun hpath => args_lead hargs (hnames hpath) fun args' hargs' =>
          (hfilled value args' hvalue hargs').args hpath }
  · intro hsteady value args hvalue hargs
    obtain ⟨hunlisted, hunchecked, hleads⟩ := hsteady ⟨value, hvalue⟩ ⟨args, hargs⟩
    refine ⟨fun {path} hpath => ?_, fun hpath => args_filled hargs (hnames hpath) (hleads hpath)⟩
    have hvalid : path ≠ [] ∧ validateType module.config false path typeOf [] path = .ok () := by
      by_cases hvalidated : Validated http operationType
      · exact (values_validated h hmem hvalidated).1 path hpath
      · exact hunchecked hvalidated hpath
    obtain ⟨hlead, scalar, nonNull, htype, hpredefined⟩ :=
      (validateType_iff hvalid.1).mp ⟨hvalid.2, hunlisted hpath⟩
    obtain ⟨htext, found, hraw, hfound⟩ := value_filled hvalue (hnames hpath) hlead htype
    exact ⟨htext, scalar, nonNull, found, htype, hpredefined, hraw, hfound⟩
  · intro value args hvalue hargs query hquery
    constructor
    · intro hvalidated path found owned hpath hraw
      obtain ⟨hne, hvalid⟩ := (values_validated h hmem hvalidated).2 query hquery path hpath
      rw [raw_value] at hraw
      obtain ⟨found', hfound, heq⟩ := Option.map_eq_some_iff.mp hraw
      obtain ⟨rfl, -⟩ := RequestTemplates.ValueString.value.inj heq
      obtain ⟨type, htype, hpredefined⟩ := validateType_query hne hvalue hvalid (hnames hpath) hfound
      exact ⟨type, htype, hpredefined, getPath_conforms hvalue htype (hnames hpath) hfound⟩
    · intro path found owned hpath hraw
      have hvalid := validateExpression_of_accepted h hmem hquery hpath
      cases path with
      | nil => simp [validateExpression, containsArgs, Settings.fail, Valid.fail] at hvalid
      | cons key path =>
        rw [raw_args (hnames hpath key List.mem_cons_self)] at hraw
        obtain ⟨found', hfound, -⟩ := Option.map_eq_some_iff.mp hraw
        have hhead : containsArgs "args" = true := by decide
        rw [validateExpression, if_pos hhead] at hvalid
        simp only [Valid.trace_eq_ok] at hvalid
        split at hvalid
        · next arg harg =>
          refine pathValidator_query hargs.members ?_ hvalid (hnames hpath) hfound
          rw [argType, harg]
          rfl
        · cases hvalid

end Accepted

section Users

open GuardedFields ServedStreams

def userRest : Rest :=
  httpRest tickRest

abbrev userBackends : Backends :=
  streamBackends bare userRest

def userTemplating : Templating secretPayloads bare userRest where
  httpTemplate _ _ _ _ := .ok default
  grpcTemplate _ _ _ _ _ := .ok default
  graphqlTemplate _ _ _ _ := .ok default
  selectValue := .ok
  script := false
  postgresConnection _ _ := .ok "default"
  greptimedbConnection _ _ := .ok "default"
  redisConnection _ _ := .ok "default"
  postgresTemplate _ _ _ _ := .ok default
  redisTemplate _ _ := .ok default
  s3Template _ := .ok default
  alphanumeric := Char.isAlphanum
  scriptIsRequired := .cannotAddField
  cause _ := .cannotAddField

def userSettings : Settings secretPayloads userBackends where
  vars _ := []
  delay _ := 1
  maxSize _ := 100
  headerName := .ok
  json _ := ""
  error _ := .cannotAddField

def userCompiler : Compiler secretPayloads userBackends :=
  templateCompiler userSettings userTemplating (simpleCompiler userBackends ())

def postsHttp (select : Option DynamicValue) : HttpDirective userRest :=
  ⟨select, ⟨"http://upstream/users/\x7b\x7b.value.id\x7d\x7d", none, .applicationJson, [], [], .get, [], none⟩⟩

def postsField (select : Option DynamicValue) : Config.Field (withResolvers secretPayloads userBackends) :=
  { (fakeField "JSON" : Config.Field (withResolvers secretPayloads userBackends)) with
    resolvers := [.other (.http (postsHttp select))] }

def idField (nonNull : Bool) : Config.Field (withResolvers secretPayloads userBackends) :=
  { (fakeField "Int" : Config.Field (withResolvers secretPayloads userBackends)) with
    typeOf := .named "Int" nonNull }

def userType (nonNull : Bool) (select : Option DynamicValue) : TypeDef (withResolvers secretPayloads userBackends) where
  fields := ⟨[("id", idField nonNull), ("posts", postsField select)], by simp⟩
  addedFields := []
  doc := none
  implements := ⟨[], List.nodup_nil⟩
  cache := none
  protectedBy := none
  resolvers := []
  directives := []

def users (nonNull : Bool) (select : Option DynamicValue) : Module secretPayloads userBackends where
  config :=
    { server := ()
      upstream := ()
      schema := ⟨none, none, none⟩
      types := ⟨[("User", userType nonNull select)], by simp⟩
      unions := Dict.empty
      enums := Dict.empty
      links := []
      telemetry := () }
  inputTypes := ∅
  outputTypes := {"User"}
  interfacesTypesMap := Dict.empty

def compilePosts (nonNull : Bool) (select : Option DynamicValue) :
    Option (Checked userBackends CompiledField) :=
  toFieldDefinition userCompiler (users nonNull select) "User"
    (compileResolver userCompiler (users nonNull select) .query "User" 1) (postsField select) (userType nonNull select)
    "posts"

def userFormats : Scalar.Formats :=
  ⟨fun _ => false, fun _ => false, fun _ => false, fun _ => false⟩

def userMoment : Moment :=
  ⟨⟨fun _ => "", fun _ => ""⟩, ⟨[], [], fun _ => none, fun _ => .succeed none⟩, none, true, none⟩

theorem exists_compiled {nonNull : Bool} {select : Option DynamicValue}
    (h : (compilePosts nonNull select).any Except.isOk = true) :
    ∃ bField, compilePosts nonNull select = some (.ok bField) := by
  obtain ⟨result, hresult, hok⟩ := (Option.any_eq_true _ _).mp h
  cases result with
  | error => cases hok
  | ok bField => exact ⟨bField, hresult⟩

theorem posts_filled :
    ∃ bField, compilePosts true none = some (.ok bField) ∧
      ((∀ value args, Parent (users true none).config userFormats (userType true none) value →
          Arguments (users true none).config userFormats (postsField none) args →
            Filled (users true none).config userFormats (userType true none) userMoment value args
              (parse (postsHttp none).rest.url)) ↔
        ((∃ value, Parent (users true none).config userFormats (userType true none) value) →
          (∃ args, Arguments (users true none).config userFormats (postsField none) args) →
            Steady (users true none).config (userType true none) (postsField none)
              (Validated (postsHttp none) .query) (parse (postsHttp none).rest.url))) ∧
      ∀ value args, Parent (users true none).config userFormats (userType true none) value →
        Arguments (users true none).config userFormats (postsField none) args → ∀ query ∈ (postsHttp none).rest.query,
          QueryTyped (users true none).config userFormats (userType true none) (postsField none) userMoment value args
            (Validated (postsHttp none) .query) (parse query.value) := by
  have hok : (compilePosts true none).any Except.isOk = true := by decide +kernel
  obtain ⟨bField, hcompiled⟩ := exists_compiled hok
  exact ⟨bField, hcompiled, url_filled_iff userFormats userMoment hcompiled (List.mem_singleton_self _)⟩

theorem posts_expression (select : Option DynamicValue) :
    ["value", "id"] ∈ expressionSegments (parse (postsHttp select).rest.url) := by
  have hparse : parse (postsHttp select).rest.url =
      ⟨[.literal "http://upstream/users/", .expression ["value", "id"]]⟩ := by
    change parse "http://upstream/users/\x7b\x7b.value.id\x7d\x7d" = _
    decide +kernel
  rw [hparse]
  exact List.mem_singleton_self _

theorem userType_nullable {select : Option DynamicValue} {key : String} {type : WrappingType}
    (h : declaredType (userType false select) key = some type) : type.isNullable = true := by
  obtain ⟨field, hfield, rfl⟩ := declaredType_eq_some.mp h
  obtain hid | hposts : (key, field) = ("id", idField false) ∨ (key, field) = ("posts", postsField select) := by
    simpa [userType] using (Dict.get?_eq_some_iff _ _ _).mp hfield
  · rw [(Prod.mk.inj hid).2]
    rfl
  · rw [(Prod.mk.inj hposts).2]
    rfl

theorem selected_posts_unfilled :
    (∃ bField, compilePosts false (some selectData) = some (.ok bField)) ∧
      ∃ value args,
        Parent (users false (some selectData)).config userFormats (userType false (some selectData)) value ∧
        Arguments (users false (some selectData)).config userFormats (postsField (some selectData)) args ∧
        ¬ Filled (users false (some selectData)).config userFormats (userType false (some selectData)) userMoment value
          args (parse (postsHttp (some selectData)).rest.url) := by
  refine ⟨exists_compiled (by decide +kernel), [("id", .null)], [], ?_, ?_, ?_⟩
  · constructor
    · intro key type value hdeclared hget
      obtain ⟨-, rfl⟩ : key = "id" ∧ value = .null := by
        simpa using (Dict.lookup_eq_some_iff [("id", ConstValue.null)] (by simp) key value).mp hget
      exact .null (userType_nullable hdeclared)
    · exact fun hdeclared _ => userType_nullable hdeclared
    · intro hclosed
      cases hclosed
  · constructor
    · constructor
      · intro key type value hdeclared hget
        cases hget
      · intro key type hdeclared hget
        cases hdeclared
      · exact fun _ _ _ => rfl
    · intro key arg harg hdefault
      cases harg
  · intro hfilled
    cases (hfilled.values (posts_expression _)).1

end Users

end Gqlforge.FilledUrls
