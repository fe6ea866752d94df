import Gqlforge.GuardedFields
import Gqlforge.StreamDirectives

namespace Gqlforge.ServedStreams

open Json Resolvers Config Validation FieldCompiler FieldPasses PassEffects StreamDirectives
open Eval EvalStarts GuardedFields

section Passes

variable {P : Payloads} {B : Backends} {passes : Passes P B} {module : Module P B}
variable {field : Config.Field (withResolvers P B)} {typeOf : TypeDef (withResolvers P B)} {objectName : String}
variable {bField bField' : CompiledField}

def aliased (enum : Enum) : Bool :=
  enum.variants.items.any fun variant => variant.aliases.isSome

variable (passes module field typeOf) in
structure Untouched : Prop where
  unprotected : isProtected passes module field typeOf = false
  uncached : cacheOf passes field typeOf = none
  unaliased : ∀ enum, module.config.findEnum field.typeOf.name = some enum → aliased enum = false
  noUnion : module.config.findUnion field.typeOf.name = none
  noInterface : module.interfacesTypesMap.get? field.typeOf.name = none

/-- The resolver is the request before the pass if and only if it is so after it, and the pass has nothing to do. -/
def KeepsRequest (idle : Prop) (bField bField' : CompiledField) : Prop :=
  ∀ io, bField'.resolver = some (.io io) ↔ bField.resolver = some (.io io) ∧ idle

theorem keeps_updateModify (h : updateModify passes module field typeOf bField = .ok bField') :
    KeepsRequest True bField bField' := by
  intro io
  unfold updateModify at h
  split at h
  · split at h
    · cases h
    · obtain rfl := Except.ok.inj h
      cases hres : bField.resolver <;> simp [CompiledField.orContextPath, hres]
  · obtain rfl := Except.ok.inj h
    simp

theorem wrap_ne_io (maxAge : NonZeroU64) (ir : IR) (io : Io) : IrCaching.wrap maxAge ir ≠ .io io := by
  cases ir <;> simp

theorem keeps_updateCacheResolvers (h : updateCacheResolvers passes field typeOf bField = .ok bField') :
    KeepsRequest (cacheOf passes field typeOf = none) bField bField' := by
  intro io
  unfold updateCacheResolvers at h
  split at h
  next maxAge hage =>
    obtain rfl := Except.ok.inj h
    cases hres : bField.resolver <;> simp [CompiledField.mapExpr, hres, hage, wrap_ne_io]
  next hnone =>
    obtain rfl := Except.ok.inj h
    simp [hnone]

theorem keeps_updateProtected (h : updateProtected passes module objectName field typeOf bField = .ok bField') :
    KeepsRequest (isProtected passes module field typeOf = false) bField bField' := by
  intro io
  rcases updateProtected_cases h with ⟨hfree, rfl⟩ | ⟨hprotected, _, auth, accessExpr, -, rfl⟩
  · simp [hfree]
  · simp [CompiledField.withResolver, hprotected]

theorem keeps_updateEnumAlias (h : updateEnumAlias module field bField = .ok bField') :
    KeepsRequest (∀ enum, module.config.findEnum field.typeOf.name = some enum → aliased enum = false)
      bField bField' := by
  intro io
  unfold updateEnumAlias at h
  split at h
  next enum henum =>
    split at h
    next haliased =>
      obtain rfl := Except.ok.inj h
      have haliased : aliased enum = true := haliased
      cases hres : bField.resolver <;> simp [CompiledField.mapExpr, hres, henum, haliased]
    next haliased =>
      obtain rfl := Except.ok.inj h
      have haliased : aliased enum = false := Bool.eq_false_iff.mpr haliased
      simp [henum, haliased]
  next hnone =>
    obtain rfl := Except.ok.inj h
    simp [hnone]

theorem keeps_discriminate {discriminator : Checked B Discriminator}
    (h : discriminator.mapOk (discriminateWith · bField) = .ok bField') : ∀ io, bField'.resolver ≠ some (.io io) := by
  obtain ⟨_, -, rfl⟩ := (Valid.mapOk_eq_ok _ _ _).mp h
  intro io hres
  simp [discriminateWith, CompiledField.withResolver] at hres

theorem keeps_updateUnionResolver (h : updateUnionResolver passes module field bField = .ok bField') :
    KeepsRequest (module.config.findUnion field.typeOf.name = none) bField bField' := by
  intro io
  unfold updateUnionResolver at h
  split at h
  next union hunion => simp [hunion, keeps_discriminate h io]
  next hnone =>
    obtain rfl := Except.ok.inj h
    simp [hnone]

theorem keeps_updateInterfaceResolver (h : updateInterfaceResolver passes module field bField = .ok bField') :
    KeepsRequest (module.interfacesTypesMap.get? field.typeOf.name = none) bField bField' := by
  intro io
  unfold updateInterfaceResolver at h
  split at h
  next types htypes => simp [htypes, keeps_discriminate h io]
  next hnone =>
    obtain rfl := Except.ok.inj h
    simp [hnone]

theorem fixDanglingResolvers_eq (h : fixDanglingResolvers module field bField = .ok bField') :
    bField' = bField ∨ field.resolvers = [] ∧ ∀ io, bField'.resolver ≠ some (.io io) := by
  unfold fixDanglingResolvers at h
  split at h
  next hdangling =>
    obtain rfl := Except.ok.inj h
    rw [Bool.and_eq_true, List.isEmpty_iff] at hdangling
    exact .inr ⟨hdangling.1, by simp [CompiledField.withResolver]⟩
  next => exact .inl (Except.ok.inj h).symm

theorem finishField_request (h : finishField passes module field typeOf objectName bField = .ok bField') (io : Io) :
    (bField'.resolver = some (.io io) → bField.resolver = some (.io io) ∧ Untouched passes module field typeOf) ∧
      (field.resolvers ≠ [] → bField.resolver = some (.io io) → Untouched passes module field typeOf →
        bField'.resolver = some (.io io)) := by
  obtain ⟨prepared, guarded, hprepared, hguarded, hdiscriminated⟩ := finishField_eq_ok.mp h
  obtain ⟨fixed, hfixed, hcached⟩ := (Valid.tryFoldAnd_eq_ok _ _ _ _).mp hprepared
  obtain ⟨modified, hmodified, hdangling⟩ := (Valid.tryFoldAnd_eq_ok _ _ _ _).mp hfixed
  rw [Valid.trace_eq_ok] at hmodified
  obtain ⟨united, hunited, hinterface⟩ := (Valid.tryFoldAnd_eq_ok _ _ _ _).mp hdiscriminated
  obtain ⟨renamed, henum, hunion⟩ := (Valid.tryFoldAnd_eq_ok _ _ _ _).mp hunited
  have hall : bField'.resolver = some (.io io) ↔
      fixed.resolver = some (.io io) ∧ Untouched passes module field typeOf := by
    rw [keeps_updateInterfaceResolver hinterface, keeps_updateUnionResolver hunion, keeps_updateEnumAlias henum,
      keeps_updateProtected hguarded, keeps_updateCacheResolvers hcached]
    constructor
    · rintro ⟨⟨⟨⟨⟨hio, huncached⟩, hunprotected⟩, hunaliased⟩, hnoUnion⟩, hnoInterface⟩
      exact ⟨hio, hunprotected, huncached, hunaliased, hnoUnion, hnoInterface⟩
    · rintro ⟨hio, huntouched⟩
      exact ⟨⟨⟨⟨⟨hio, huntouched.uncached⟩, huntouched.unprotected⟩, huntouched.unaliased⟩, huntouched.noUnion⟩,
        huntouched.noInterface⟩
  have hmodify : modified.resolver = some (.io io) ↔ bField.resolver = some (.io io) := by
    rw [keeps_updateModify hmodified, and_iff_left trivial]
  rw [hall, ← hmodify]
  rcases fixDanglingResolvers_eq hdangling with rfl | ⟨hempty, hother⟩
  · exact ⟨id, fun _ hio huntouched => ⟨hio, huntouched⟩⟩
  · exact ⟨fun hio => absurd hio.1 (hother io), fun hne => absurd hempty hne⟩

end Passes

section Directives

variable {P : Payloads} {B : Backends} {R : Rest} {T : Templating P B R}
variable {module : Module P (streamBackends B R)} {field : Config.Field (withResolvers P (streamBackends B R))}
variable {operationType : OperationType} {ir : IR} {source : StreamSource}

def directiveStream : Resolver P.Json (streamBackends B R) → Option StreamSource
  | .grpc _ grpc => if grpc.select.isNone then some .grpc else none
  | .other (.http http) => if http.select.isNone then some .http else none
  | .other (.graphql _) => some .graphQL
  | .other (.postgres postgres) => if postgres.operation = .listen then some .postgres else none
  | .other (.redis redis) => if redis.operation = .subscribe ∨ redis.operation = .xread then some .redis else none
  | _ => none

theorem applySelect_stream {request : IR} {select : Option R.Select} (h : applySelect T request select = .ok ir) :
    ir = .io (.stream source) ↔ request = .io (.stream source) ∧ select.isNone = true := by
  unfold applySelect at h
  cases select with
  | none =>
    obtain rfl := Except.ok.inj h
    simp
  | some select =>
    obtain ⟨value, -, rfl⟩ := (Valid.mapOk_eq_ok _ _ _).mp h
    simp

theorem ite_stream {opened own : StreamSource} (request : Io) (hrequest : ∀ source, request ≠ .stream source) :
    (if operationType = .subscription then IR.io (.stream own) else .io request) = .io (.stream opened) ↔
      operationType = .subscription ∧ own = opened := by
  by_cases hop : operationType = .subscription <;> simp [hop, hrequest]

theorem compileHttp_stream {http : HttpDirective R}
    (h : compileHttp T module field operationType http = .ok ir) : ir = .io (.stream source) ↔
      operationType = .subscription ∧ (if http.select.isNone then some .http else none) = some source := by
  obtain ⟨⟨template, dedupe⟩, -, hselect⟩ := (Valid.andThen_eq_ok _ _ _).mp h
  rw [applySelect_stream hselect, ite_stream (.http template dedupe) nofun]
  cases http.select <;> simp

theorem compileGrpc_stream {size : ℕ} {batchKey : List String} {grpc : GrpcDirective R} {operation : Operation size}
    (h : compileGrpc T operationType size batchKey grpc operation = .ok ir) : ir = .io (.stream source) ↔
      operationType = .subscription ∧ (if grpc.select.isNone then some .grpc else none) = some source := by
  obtain ⟨⟨template, dedupe⟩, -, hselect⟩ := (Valid.andThen_eq_ok _ _ _).mp h
  rw [applySelect_stream hselect, ite_stream (.grpc template dedupe) nofun]
  cases grpc.select <;> simp

theorem compilePostgres_stream {directiveName : String} {connection : Checked (streamBackends B R) String}
    {operation : PostgresOperation} {channel : Option String} {rest : R.Database}
    (h : compilePostgres T module operationType directiveName connection operation channel rest = .ok ir) :
    ir = .io (.stream source) ↔
      operationType = .subscription ∧ (if operation = .listen then some .postgres else none) = some source := by
  obtain ⟨connectionId, -, h⟩ := (Valid.andThen_eq_ok _ _ _).mp h
  by_cases hlisten : operation = .listen
  · simp only [hlisten, if_true] at h
    unfold StreamDirectives.listen at h
    split at h
    · cases h
    · split at h
      · cases h
      next hop =>
        split at h
        · cases h
        · split at h
          · cases h
          · obtain rfl := Except.ok.inj h
            simp [hlisten, not_not.mp hop]
  · simp only [hlisten, if_false] at h
    split at h
    · cases h
    · obtain ⟨⟨template, dedupe⟩, -, rfl⟩ := (Valid.mapOk_eq_ok _ _ _).mp h
      simp [hlisten]

theorem compileRedis_stream {redis : RedisDirective R} (h : compileRedis T module operationType redis = .ok ir) :
    ir = .io (.stream source) ↔ operationType = .subscription ∧
      (if redis.operation = .subscribe ∨ redis.operation = .xread then some .redis else none) = some source := by
  obtain ⟨connectionId, -, h⟩ := (Valid.andThen_eq_ok _ _ _).mp h
  by_cases hstream : redis.operation = .subscribe ∨ redis.operation = .xread
  · simp only [hstream, if_true] at h
    unfold subscribe at h
    split at h
    · cases h
    next hop =>
      by_cases hempty : (if redis.operation = .subscribe then redis.channel else redis.key).all String.isEmpty = true
      · simp only [hempty, if_true] at h
        cases h
      · simp only [hempty] at h
        obtain rfl := Except.ok.inj h
        simp [hstream, not_not.mp hop]
  · simp only [hstream, if_false] at h
    split at h
    · cases h
    · obtain ⟨⟨template, dedupe⟩, -, rfl⟩ := (Valid.mapOk_eq_ok _ _ _).mp h
      simp [hstream]

theorem compileDirective_stream {directive : Directive R}
    (h : compileDirective T module field operationType directive = .ok ir) :
    ir = .io (.stream source) ↔ operationType = .subscription ∧
      directiveStream (.other directive : Resolver P.Json (streamBackends B R)) = some source := by
  cases directive with
  | http http => exact compileHttp_stream ((Valid.trace_eq_ok _ _ _).mp h)
  | graphql graphql =>
    obtain ⟨⟨template, fieldName, dedupe⟩, -, rfl⟩ := (Valid.mapOk_eq_ok _ _ _).mp ((Valid.trace_eq_ok _ _ _).mp h)
    rw [ite_stream (.graphQL template fieldName dedupe) nofun]
    simp [directiveStream]
  | js name =>
    have h := (Valid.trace_eq_ok _ _ _).mp h
    unfold compileJs at h
    split at h
    · obtain rfl := Except.ok.inj h
      simp [directiveStream]
    · cases h
  | postgres postgres => exact compilePostgres_stream ((Valid.trace_eq_ok _ _ _).mp h)
  | greptimedb operation database =>
    have h := (Valid.trace_eq_ok _ _ _).mp h
    rw [compilePostgres_stream h]
    obtain ⟨connectionId, -, h⟩ := (Valid.andThen_eq_ok _ _ _).mp h
    by_cases hlisten : operation = .listen
    · simp only [hlisten, if_true, StreamDirectives.listen] at h
      cases h
    · simp [hlisten, directiveStream]
  | redis redis => exact compileRedis_stream ((Valid.trace_eq_ok _ _ _).mp h)
  | s3 s3 =>
    obtain ⟨⟨template, dedupe⟩, -, rfl⟩ := (Valid.mapOk_eq_ok _ _ _).mp ((Valid.trace_eq_ok _ _ _).mp h)
    simp [directiveStream]

end Directives

section Calls

variable {P : Payloads} {B : Backends} {R : Rest} {T : Templating P B R} {passes : Passes P (streamBackends B R)}
variable {C : Compiler P (streamBackends B R)} {module : Module P (streamBackends B R)}
variable {operationType : OperationType} {objectName : String} {source : StreamSource}

variable (passes module) in
/-- The fields that are nothing but a stream: by a directive of their own, or by a call of one such field. -/
inductive Streams : Config.Field (withResolvers P (streamBackends B R)) →
    TypeDef (withResolvers P (streamBackends B R)) → StreamSource → Prop where
  | directive {field : Config.Field (withResolvers P (streamBackends B R))}
      {typeOf : TypeDef (withResolvers P (streamBackends B R))} {resolver : Resolver P.Json (streamBackends B R)}
      {source : StreamSource} : field.resolvers = [resolver] → Untouched passes module field typeOf →
      directiveStream resolver = some source → Streams field typeOf source
  | call {field called : Config.Field (withResolvers P (streamBackends B R))}
      {typeOf calledType : TypeDef (withResolvers P (streamBackends B R))} {step : Step P.Json} {fieldName : String}
      {source : StreamSource} : field.resolvers = [.call ⟨[step]⟩] → Untouched passes module field typeOf →
      step.args.entries = [] → getFieldAndFieldName module.config step = .ok (called, fieldName, calledType) →
      Streams called calledType source → Streams field typeOf source

abbrev full (passes : Passes P (streamBackends B R)) (T : Templating P B R) (C : Compiler P (streamBackends B R)) :
    Compiler P (streamBackends B R) :=
  compiler passes (streamCompiler T C)

variable {io : Io}

theorem mergedResolver_request {resolvers : List (Option IR)} :
    mergedResolver resolvers = some (.io io) ↔ resolvers = [some (.io io)] := by
  unfold mergedResolver
  split
  · simp
  · simp
  next h1 h2 =>
    constructor
    · simp
    · intro h
      exact absurd h (h2 _)

variable {field : Config.Field (withResolvers P (streamBackends B R))}
variable {typeOf : TypeDef (withResolvers P (streamBackends B R))} {name : String} {bField : CompiledField}

theorem toFieldDefinition_request {compileResolver : Config.Field (withResolvers P (streamBackends B R)) →
      Resolver P.Json (streamBackends B R) → Option (Checked (streamBackends B R) (Option IR))}


    (h : toFieldDefinition (full passes T C) module objectName compileResolver field typeOf name =
      some (.ok bField)) :
    bField.resolver = some (.io io) ↔ Untouched passes module field typeOf ∧ ∃ resolver,
      field.resolvers = [resolver] ∧ compileResolver field resolver = some (.ok (some (.io io))) := by
  obtain ⟨resolvers, hresolvers, h⟩ := Option.map_eq_some_iff.mp h
  obtain ⟨resolved, hresolved, hfinish⟩ := (Valid.tryFoldAnd_eq_ok _ _ _ _).mp h
  obtain ⟨start, -, hupdate⟩ := (Valid.tryFoldAnd_eq_ok _ _ _ _).mp hresolved
  obtain ⟨merged, hmerged, hvalid⟩ := (Valid.andThen_eq_ok _ _ _).mp hupdate
  obtain ⟨irs, hirs, rfl⟩ := (Valid.mapOk_eq_ok _ _ _).mp hmerged
  obtain ⟨_, -, rfl⟩ := (Valid.mapOk_eq_ok _ _ _).mp hvalid
  have hcompiled : field.resolvers.map (compileResolver field) = (irs.map Except.ok).map some := by
    rw [← (Valid.collect_eq_ok _ _).mp hirs]
    exact (sequence_eq_some _ _).mp hresolvers
  have hmerge : (start.withResolver (mergedResolver irs)).resolver = some (.io io) ↔ irs = [some (.io io)] :=
    mergedResolver_request
  obtain ⟨hof, hto⟩ := finishField_request hfinish io
  constructor
  · intro hio
    obtain ⟨hio, huntouched⟩ := hof hio
    rw [hmerge] at hio
    subst hio
    obtain ⟨resolver, hresolver⟩ : ∃ resolver, field.resolvers = [resolver] := by
      apply List.length_eq_one_iff.mp
      simpa using congrArg List.length hcompiled
    rw [hresolver] at hcompiled
    exact ⟨huntouched, resolver, hresolver, (List.cons.inj hcompiled).1⟩
  · rintro ⟨huntouched, resolver, hresolver, hcompile⟩
    rw [hresolver, List.map_singleton, hcompile] at hcompiled
    refine hto (by simp [hresolver]) (hmerge.mpr ?_) huntouched
    cases irs with
    | nil => cases hcompiled
    | cons ir rest =>
      obtain ⟨hhead, htail⟩ := List.cons.inj hcompiled
      obtain rfl := Except.ok.inj (Option.some.inj hhead)
      rw [eq_comm, List.map_eq_nil_iff, List.map_eq_nil_iff] at htail
      rw [htail]

variable {toField : Config.Field (withResolvers P (streamBackends B R)) →
  TypeDef (withResolvers P (streamBackends B R)) → String → Option (Checked (streamBackends B R) CompiledField)}

variable {step : Step P.Json}

theorem compileStep_parts (h : compileStep C module toField step = some (.ok bField)) :
    ∃ called fieldName calledType compiled argsExpr,
      getFieldAndFieldName module.config step = .ok (called, fieldName, calledType) ∧
        toField called calledType called.typeOf.name = some (.ok compiled) ∧ compiled.resolver.isSome = true ∧
          bField = if step.args.entries.isEmpty then compiled else compiled.mapExpr fun expr => .pipe argsExpr expr := by
  unfold compileStep at h
  split at h
  · cases h
  next called fieldName calledType hfound =>
    split at h
    · obtain ⟨result, hresult, h⟩ := Option.map_eq_some_iff.mp h
      obtain ⟨⟨compiled, argsExpr⟩, hzip, rfl⟩ := (Valid.mapOk_eq_ok _ _ _).mp h
      obtain ⟨hcompiled, -⟩ := (Valid.zip_eq_ok _ _ _).mp hzip
      obtain ⟨found, rfl, hsome⟩ := (Valid.andThen_eq_ok _ _ _).mp hcompiled
      simp only at hsome
      split at hsome
      · cases hsome
      next hresolver =>
        obtain rfl := Except.ok.inj hsome
        refine ⟨called, fieldName, calledType, found, argsExpr, hfound, hresult, ?_, rfl⟩
        cases hres : found.resolver <;> simp [hres] at hresolver ⊢
    · cases h

theorem compileStep_isSome
    (h : compileStep C module toField step = some (.ok bField)) : bField.resolver.isSome = true := by
  obtain ⟨_, _, _, compiled, argsExpr, -, -, hsome, rfl⟩ := compileStep_parts h
  split
  · exact hsome
  · simpa [CompiledField.mapExpr] using hsome

theorem foldl_pipeField {rest : List CompiledField} {bField : CompiledField} {first second : IR}
    (h : bField.resolver = some (.pipe first second)) :
    ∃ first' second', (rest.foldl pipeField bField).resolver = some (.pipe first' second') := by
  induction rest generalizing bField first second with
  | nil => exact ⟨first, second, h⟩
  | cons next rest ih =>
    rw [List.foldl_cons]
    cases hnext : next.resolver with
    | none =>
      have hstep : (pipeField bField next).resolver = some (.pipe first second) := by
        simp [pipeField, CompiledField.mapExpr, h, hnext]
      exact ih hstep
    | some other =>
      have hstep : (pipeField bField next).resolver = some (.pipe (.pipe first second) other) := by
        simp [pipeField, CompiledField.mapExpr, h, hnext]
      exact ih hstep

theorem pipeline_request {rest : List CompiledField}
    (hsome : ∀ next ∈ rest, next.resolver.isSome = true) (hfirst : bField.resolver.isSome = true)
    (h : (rest.foldl pipeField bField).resolver = some (.io io)) : rest = [] := by
  cases rest with
  | nil => rfl
  | cons next rest =>
    obtain ⟨other, hother⟩ := Option.isSome_iff_exists.mp (hsome next List.mem_cons_self)
    obtain ⟨own, hown⟩ := Option.isSome_iff_exists.mp hfirst
    have hstep : (pipeField bField next).resolver = some (.pipe own other) := by
      simp [pipeField, CompiledField.mapExpr, hown, hother]
    obtain ⟨first, second, hpipe⟩ := @foldl_pipeField rest _ _ _ hstep
    rw [List.foldl_cons, hpipe] at h
    cases h

theorem compileCall_request {call : Call P.Json} {ir : IR} (h : compileCall C module toField call = some (.ok ir)) :
    ir = .io io ↔ ∃ step called fieldName calledType compiled, call.steps = [step] ∧ step.args.entries = [] ∧
      getFieldAndFieldName module.config step = .ok (called, fieldName, calledType) ∧
      toField called calledType called.typeOf.name = some (.ok compiled) ∧ compiled.resolver = some (.io io) := by
  obtain ⟨results, hresults, h⟩ := Option.map_eq_some_iff.mp h
  obtain ⟨reduced, hreduced, hir⟩ := (Valid.andThen_eq_ok _ _ _).mp h
  obtain ⟨bFields, hbFields, hreduced⟩ := (Valid.andThen_eq_ok _ _ _).mp hreduced
  have hsteps : call.steps.map (compileStep C module toField) = (bFields.map Except.ok).map some := by
    rw [← (Valid.collect_eq_ok _ _).mp hbFields]
    exact (sequence_eq_some _ _).mp hresults
  have hresolver : reduced.resolver = some ir := by
    unfold Valid.fromOption at hir
    split at hir
    next found hfound =>
      obtain rfl := Except.ok.inj hir
      exact hfound
    · cases hir
  cases hcall : call.steps with
  | nil =>
    rw [hcall, List.map_nil, eq_comm, List.map_eq_nil_iff, List.map_eq_nil_iff] at hsteps
    subst hsteps
    cases hreduced
  | cons step rest =>
    rw [hcall] at hsteps
    cases bFields with
    | nil => cases hsteps
    | cons bField others =>
      obtain ⟨hstep, hrest⟩ := List.cons.inj hsteps
      obtain rfl : others.foldl pipeField bField = reduced := Except.ok.inj hreduced
      have hothers : ∀ next ∈ others, next.resolver.isSome = true := by
        intro next hnext
        have hmem : (some (.ok next) : Option (Checked (streamBackends B R) CompiledField)) ∈
            (others.map Except.ok).map some :=
          List.mem_map_of_mem (List.mem_map_of_mem hnext)
        obtain ⟨step', -, hstep'⟩ := List.mem_map.mp (hrest ▸ hmem)
        exact compileStep_isSome hstep'
      have hfirst := compileStep_isSome hstep
      obtain ⟨called, fieldName, calledType, compiled, argsExpr, hfound, hcompiled, hsome, rfl⟩ := compileStep_parts hstep
      obtain ⟨own, hown⟩ := Option.isSome_iff_exists.mp hsome
      constructor
      · rintro rfl
        obtain rfl := pipeline_request hothers hfirst hresolver
        rw [List.map_nil, List.map_nil, List.map_eq_nil_iff] at hrest
        subst hrest
        rw [List.foldl_nil] at hresolver
        split at hresolver
        next hargs => exact ⟨step, called, fieldName, calledType, compiled, rfl, List.isEmpty_iff.mp hargs, hfound,
            hcompiled, hresolver⟩
        next => simp [CompiledField.mapExpr, hown] at hresolver
      · rintro ⟨step', called', fieldName', calledType', compiled', heq, hargs, hfound', hcompiled', hio⟩
        obtain ⟨rfl, rfl⟩ := List.cons.inj heq
        rw [List.map_nil, eq_comm, List.map_eq_nil_iff, List.map_eq_nil_iff] at hrest
        subst hrest
        rw [hfound'] at hfound
        obtain ⟨rfl, rfl, rfl⟩ : called' = called ∧ fieldName' = fieldName ∧ calledType' = calledType := by
          simpa using hfound
        rw [hcompiled'] at hcompiled
        obtain rfl := Except.ok.inj (Option.some.inj hcompiled)
        rw [List.foldl_nil, if_pos (List.isEmpty_iff.mpr hargs), hio] at hresolver
        exact (Option.some.inj hresolver).symm

theorem compileCall_compiles {ir : IR} {fieldName : String}
    {called : Config.Field (withResolvers P (streamBackends B R))}
    {calledType : TypeDef (withResolvers P (streamBackends B R))}
    (h : compileCall C module toField ⟨[step]⟩ = some (.ok ir))
    (hfound : getFieldAndFieldName module.config step = .ok (called, fieldName, calledType)) :
    ∃ compiled, toField called calledType called.typeOf.name = some (.ok compiled) := by
  obtain ⟨results, hresults, h⟩ := Option.map_eq_some_iff.mp h
  obtain ⟨reduced, hreduced, -⟩ := (Valid.andThen_eq_ok _ _ _).mp h
  obtain ⟨bFields, hbFields, -⟩ := (Valid.andThen_eq_ok _ _ _).mp hreduced
  obtain ⟨bField, -, hstep⟩ := collected hresults hbFields (List.mem_singleton_self step)
  obtain ⟨called', _, calledType', compiled, _, hfound', hcompiled, -, -⟩ := compileStep_parts hstep
  rw [hfound] at hfound'
  obtain ⟨rfl, -, rfl⟩ : called = called' ∧ _ ∧ calledType = calledType' := by simpa using hfound'
  exact ⟨compiled, hcompiled⟩

theorem toFieldDefinition_compiles {compileResolver : Config.Field (withResolvers P (streamBackends B R)) →
      Resolver P.Json (streamBackends B R) → Option (Checked (streamBackends B R) (Option IR))}


    (h : toFieldDefinition C module objectName compileResolver field typeOf name = some (.ok bField))
    {resolver : Resolver P.Json (streamBackends B R)} (hmem : resolver ∈ field.resolvers) :
    ∃ ir, compileResolver field resolver = some (.ok ir) := by
  obtain ⟨resolvers, hresolvers, h⟩ := Option.map_eq_some_iff.mp h
  obtain ⟨_, hresolved, -⟩ := (Valid.tryFoldAnd_eq_ok _ _ _ _).mp h
  obtain ⟨_, -, hupdate⟩ := (Valid.tryFoldAnd_eq_ok _ _ _ _).mp hresolved
  obtain ⟨_, hmerged, -⟩ := (Valid.andThen_eq_ok _ _ _).mp hupdate
  obtain ⟨irs, hirs, -⟩ := (Valid.mapOk_eq_ok _ _ _).mp hmerged
  obtain ⟨ir, -, hir⟩ := collected hresolvers hirs hmem
  exact ⟨ir, hir⟩

theorem traced {compiled : Option (Checked B IR)} {message : String} {ir : Option IR}
    (h : compiled.map (fun ir => (ir.trace message).mapOk some) = some (.ok ir)) :
    ∃ ir', ir = some ir' ∧ compiled = some (.ok ir') := by
  obtain ⟨result, hresult, h⟩ := Option.map_eq_some_iff.mp h
  obtain ⟨ir', htrace, rfl⟩ := (Valid.mapOk_eq_ok _ _ _).mp h
  rw [Valid.trace_eq_ok] at htrace
  subst htrace
  exact ⟨ir', rfl, hresult⟩

theorem compileResolver_stream {fuel : ℕ} {resolver : Resolver P.Json (streamBackends B R)} {ir : Option IR}
    (hcall : ∀ call, resolver ≠ .call call)
    (h : compileResolver (full passes T C) module operationType objectName (fuel + 1) field resolver = some (.ok ir)) :
    ir = some (.io (.stream source)) ↔ operationType = .subscription ∧ directiveStream resolver = some source := by
  cases resolver with
  | call call => exact absurd rfl (hcall call)
  | grpc batchKey grpc =>
    obtain ⟨ir', rfl, hresult⟩ := traced h
    unfold FieldCompiler.compileGrpc at hresult
    split at hresult
    · cases hresult
    next operation hoperation =>
      obtain ⟨fieldSchema, -, hresult⟩ := Option.bind_eq_some_iff.mp hresult
      obtain ⟨validation, -, hresult⟩ := Option.map_eq_some_iff.mp hresult
      obtain ⟨_, -, hgrpc⟩ := (Valid.andThen_eq_ok _ _ _).mp hresult
      rw [Option.some.injEq, directiveStream]
      exact compileGrpc_stream hgrpc
  | expr expr =>
    obtain ⟨ir', rfl, hresult⟩ := traced h
    have hdynamic : ∃ value, ir' = .dynamic value := by
      unfold compileExpr at hresult
      split at hresult
      · cases hresult
      next value _ =>
        split at hresult
        · split at hresult
          · cases hresult
          · obtain ⟨schema, -, hvalidate⟩ := Option.map_eq_some_iff.mp hresult
            obtain ⟨_, -, rfl⟩ := (Valid.mapOk_eq_ok _ _ _).mp hvalidate
            exact ⟨value, rfl⟩
        · exact ⟨value, (Except.ok.inj (Option.some.inj hresult)).symm⟩
    obtain ⟨value, rfl⟩ := hdynamic
    simp [directiveStream]
  | entityResolver resolvers =>
    obtain rfl : none = ir := Except.ok.inj (Option.some.inj h)
    simp [directiveStream]
  | service =>
    obtain rfl : none = ir := Except.ok.inj (Option.some.inj h)
    simp [directiveStream]
  | other directive =>
    obtain ⟨ir', hdirective, rfl⟩ := (Valid.mapOk_eq_ok _ _ _).mp (Option.some.inj h)
    rw [Option.some.injEq]
    exact compileDirective_stream hdirective

theorem compileResolver_call {fuel : ℕ} {call : Call P.Json} {ir : Option IR}
    (h : compileResolver (full passes T C) module operationType objectName (fuel + 1) field (.call call) =
      some (.ok ir)) :
    ∃ ir', ir = some ir' ∧ compileCall (full passes T C) module
      (toFieldDefinition (full passes T C) module objectName
        (compileResolver (full passes T C) module operationType objectName fuel)) call = some (.ok ir') := by
  exact traced h

theorem streams_iff (fuel : ℕ)

    (h : toFieldDefinition (full passes T C) module objectName
      (compileResolver (full passes T C) module operationType objectName fuel) field typeOf name = some (.ok bField)) :
    bField.resolver = some (.io (.stream source)) ↔
      operationType = .subscription ∧ Streams passes module field typeOf source := by
  induction fuel generalizing field typeOf name bField with
  | zero =>
    rw [toFieldDefinition_request h]
    constructor
    · rintro ⟨-, resolver, -, hcompile⟩
      cases hcompile
    · rintro ⟨-, hstreams⟩
      obtain ⟨resolvers, hresolvers, -⟩ := Option.map_eq_some_iff.mp h
      cases hstreams with
      | directive hfield _ _ =>
        rw [hfield] at hresolvers
        cases hresolvers
      | call hfield _ _ _ _ =>
        rw [hfield] at hresolvers
        cases hresolvers
  | succ fuel ih =>
    rw [toFieldDefinition_request h]
    constructor
    · rintro ⟨huntouched, resolver, hfield, hcompile⟩
      by_cases hcall : ∃ call, resolver = .call call
      · obtain ⟨⟨steps⟩, rfl⟩ := hcall
        obtain ⟨ir, heq, hcompile⟩ := compileResolver_call hcompile
        obtain rfl := Option.some.inj heq
        obtain ⟨step, called, fieldName, calledType, compiled, rfl, hargs, hfound, hcompiled, hio⟩ :=
          (compileCall_request hcompile).mp rfl
        obtain ⟨hop, hcalled⟩ := (ih hcompiled).mp hio
        exact ⟨hop, .call hfield huntouched hargs hfound hcalled⟩
      · obtain ⟨hop, hstream⟩ := (compileResolver_stream (not_exists.mp hcall) hcompile).mp rfl
        exact ⟨hop, .directive hfield huntouched hstream⟩
    · rintro ⟨hop, hstreams⟩
      cases hstreams with
      | @directive _ _ resolver _ hfield huntouched hstream =>
        obtain ⟨ir, hcompile⟩ := toFieldDefinition_compiles h (hfield ▸ List.mem_singleton_self resolver)
        have hcall (call : Call P.Json) : resolver ≠ .call call := by
          rintro rfl
          cases hstream
        obtain rfl := (compileResolver_stream hcall hcompile).mpr ⟨hop, hstream⟩
        exact ⟨huntouched, resolver, hfield, hcompile⟩
      | @call _ called _ calledType step fieldName _ hfield huntouched hargs hfound hcalled =>
        obtain ⟨ir, hcompile⟩ := toFieldDefinition_compiles h (hfield ▸ List.mem_singleton_self _)
        obtain ⟨ir, rfl, hcompiledCall⟩ := compileResolver_call hcompile
        obtain ⟨compiled, hcompiled⟩ := compileCall_compiles hcompiledCall hfound
        have hio := (ih hcompiled).mpr ⟨hop, hcalled⟩
        obtain rfl := (compileCall_request hcompiledCall).mpr
          ⟨step, called, fieldName, calledType, compiled, rfl, hargs, hfound, hcompiled, hio⟩
        exact ⟨huntouched, _, hfield, hcompile⟩

end Calls

section Served

/-- The stream is opened for the field, and each of its events comes out as the whole resolver makes it. -/
structure Served (resolver : Option IR) (source : StreamSource) : Prop where
  opened : openStream resolver = .ok (.stream source)
  evaluated : ∀ (Key σ : Type) [DecidableEq Key] (runtime : Runtime Key σ) (way : Way) (ctx : EvalContext)
    (state : RequestState Key σ) (ir : IR) (event : ConstValue), resolver = some ir →
      (∀ context value, runtime.evalIoInner (.stream source) context value = pure (.ok event)) →
        (Evaluation.run runtime ⟨way, ir, ctx, state⟩).1 = .ok event

theorem openStream_eq_ok {resolver : Option IR} {source : StreamSource} :
    openStream resolver = .ok (.stream source) ↔ resolver = some (.io (.stream source)) := by
  constructor
  · intro h
    unfold openStream at h
    split at h
    · split at h
      · obtain rfl := Io.stream.inj (Except.ok.inj h)
        rfl
      · cases h
    · cases h
  · rintro rfl
    rfl

theorem served_iff {resolver : Option IR} {source : StreamSource} :
    Served resolver source ↔ resolver = some (.io (.stream source)) := by
  constructor
  · exact fun h => openStream_eq_ok.mp h.opened
  · rintro rfl
    refine ⟨rfl, ?_⟩
    intro Key σ _ runtime way ctx state ir event hir hevent
    obtain rfl := Option.some.inj hir
    have hrun : Eval.evalIoInner runtime (.stream source) ctx = (do
        let _ ← authClaims
        Eval.outside (pure (.ok event)) : EvalM Key σ ConstValue) := by
      unfold Eval.evalIoInner
      simp only [hevent]
    simp only [Evaluation.run, eval, evalIo, Io.dedupe, Bool.not_false, Bool.true_or, if_true, hrun]
    rfl

variable {P : Payloads} {B : Backends} {R : Rest} {T : Templating P B R} {passes : Passes P (streamBackends B R)}
variable {C : Compiler P (streamBackends B R)} {module required : Module P (streamBackends B R)}
variable {field : Config.Field (withResolvers P (streamBackends B R))}
variable {typeOf : TypeDef (withResolvers P (streamBackends B R))}
variable {objectName name : String} {fuel : ℕ} {draft : Draft (streamBackends B R)}

def tickRest : Rest :=
  ⟨Unit, Unit, Unit, Templates.DynamicValue, Unit, Unit, Unit⟩

abbrev tickBackends : Backends :=
  streamBackends bare tickRest

def tickTemplating : Templating secretPayloads bare tickRest where
  httpTemplate _ _ _ _ := .ok default
  grpcTemplate _ _ _ _ _ := .ok default
  graphqlTemplate _ _ _ _ := .ok default
  selectValue := .ok
  script := false
  postgresConnection _ _ := .ok "default"
  greptimedbConnection _ _ := .ok "default"
  redisConnection _ _ := .ok "default"
  postgresTemplate _ _ _ _ := .ok default
  redisTemplate _ _ := .ok default
  s3Template _ := .ok default
  alphanumeric := Char.isAlphanum
  scriptIsRequired := .cannotAddField
  cause _ := .cannotAddField

def tickCompiler : Compiler secretPayloads tickBackends :=
  simpleCompiler tickBackends ()

def tickPasses : Passes secretPayloads tickBackends :=
  simplePasses tickBackends id

def tickField (select : Option Templates.DynamicValue) : Config.Field (withResolvers secretPayloads tickBackends) :=
  { (fakeField "JSON" : Config.Field (withResolvers secretPayloads tickBackends)) with
    resolvers := [.other (.http ⟨select, ()⟩)] }

def tickType (select : Option Templates.DynamicValue) : TypeDef (withResolvers secretPayloads tickBackends) where
  fields := ⟨[("ticks", tickField select)], by simp⟩
  addedFields := []
  doc := none
  implements := ⟨[], List.nodup_nil⟩
  cache := none
  protectedBy := none
  resolvers := []
  directives := []

def ticking (select : Option Templates.DynamicValue) : Module secretPayloads tickBackends where
  config :=
    { server := ()
      upstream := ()
      schema := ⟨none, none, some "Subscription"⟩
      types := ⟨[("Subscription", tickType select)], by simp⟩
      unions := Dict.empty
      enums := Dict.empty
      links := []
      telemetry := () }
  inputTypes := ∅
  outputTypes := {"Subscription"}
  interfacesTypesMap := Dict.empty

theorem ticking_accepted (select : Option Templates.DynamicValue) :
    ∃ draft, tryFrom (full tickPasses tickTemplating tickCompiler) 1 (ticking select) = some (.ok draft) := by
  cases select with
  | none => exact ⟨⟨⟨_, ⟨"", none, none⟩⟩, ()⟩, rfl⟩
  | some select => exact ⟨⟨⟨_, ⟨"", none, none⟩⟩, ()⟩, rfl⟩

def selectData : Templates.DynamicValue :=
  .mustache ⟨[.expression ["data"]]⟩

end Served

end Gqlforge.ServedStreams
