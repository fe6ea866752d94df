import Gqlforge.AddedFields
import Gqlforge.FollowedPaths

namespace Gqlforge.AddedReads

open Json Resolvers Schema Config Validation FieldCompiler FieldPasses PassEffects EvalContext Eval EvalStarts
open GuardedFields AddedFields ConformingValues FollowedPaths

theorem isNullable_wrapped {type : WrappingType} (h : type.isNullable = true) (lists : ℕ) :
    (wrapped type lists).isNullable = true := by
  cases lists with
  | zero => exact h
  | succ => rfl

def Loosens (ending result : WrappingType) : Prop :=
  ∃ lists, result = wrapped (intoNullable ending) lists ∨ result = wrapped (.named ending.name false) lists

variable {ending result : WrappingType}

theorem Loosens.isNullable (h : Loosens ending result) : result.isNullable = true := by
  obtain ⟨lists, rfl | rfl⟩ := h
  · exact isNullable_wrapped (by cases ending <;> rfl) lists
  · exact isNullable_wrapped rfl lists

theorem Loosens.name (h : Loosens ending result) : result.name = ending.name := by
  obtain ⟨lists, rfl | rfl⟩ := h
  · rw [name_wrapped, name_intoNullable]
  · rw [name_wrapped, WrappingType.name]

theorem Loosens.conforms {P : Payloads} {config : Config P} {formats : Scalar.Formats}
    {value : ConstValue} (h : Loosens ending result) (hdepth : depth result = depth ending)
    (hvalue : Conforms config formats false ending value) : Conforms config formats false result value := by
  obtain ⟨lists, rfl | rfl⟩ := h
  · rw [depth_wrapped, depth_intoNullable] at hdepth
    obtain rfl : lists = 0 := by omega
    exact conforms_intoNullable hvalue
  · rw [depth_wrapped, depth, Nat.add_zero] at hdepth
    rw [hdepth]
    exact conforms_wrapped hvalue

theorem Loosens.list (h : Loosens ending result) : Loosens ending (.list result false) := by
  obtain ⟨lists, rfl | rfl⟩ := h
  · exact ⟨lists + 1, .inl rfl⟩
  · exact ⟨lists + 1, .inr rfl⟩

theorem isUsize_eq_false_iff {key : String} : isUsize key = false ↔ IsName key := by
  rw [isUsize, IsName]
  cases Scalar.parseInt 0 (2 ^ 64 - 1) key <;> simp

section Types

variable {P : Payloads} {B : Backends} (module : Module P B)

def wraps (field : Config.Field (withResolvers P B)) : Bool :=
  field.typeOf.isList && !Scalar.isPredefined field.typeOf.name

def atHand (owner : TypeDef (withResolvers P B)) (field : Config.Field (withResolvers P B)) :
    TypeDef (withResolvers P B) :=
  if Scalar.isPredefined field.typeOf.name then owner else (module.config.findType field.typeOf.name).getD owner

/-- The type at hand has a field of a name on the path only if it is the type that the name is of. -/
def Straight : List String → String → TypeDef (withResolvers P B) → Prop
  | [], _, _ => True
  | key :: path, typeName, typeInfo =>
    if IsName key then
      (typeInfo.fields.contains key = true → module.config.findType typeName = some typeInfo) ∧
        ∀ owner field, fieldAt module.config typeName key = some (owner, field) →
          Straight path field.typeOf.name (atHand module owner field)
    else Straight path typeName typeInfo

def listsOf : List String → WrappingType → ℕ
  | [], type => depth type
  | key :: path, type =>
    if IsName key then ((fieldAt module.config type.name key).map fun (_, field) =>
      (if wraps field then 1 else 0) + listsOf path field.typeOf).getD 0
    else listsOf path (intoSingle type)

variable {module} {passes : Passes P B}

theorem depth_intoSingle (type : WrappingType) : depth (intoSingle type) = 0 := by
  induction type with
  | named => rfl
  | list ofType nonNull ih => exact ih

theorem name_intoSingle (type : WrappingType) : (intoSingle type).name = type.name := by
  induction type with
  | named => rfl
  | list ofType nonNull ih => exact ih

variable {type : WrappingType}

theorem name_itemType {ofType : WrappingType} (h : itemType type = some ofType) : ofType.name = type.name := by
  cases type with
  | named => cases h
  | list item nonNull =>
    obtain rfl := Option.some.inj h
    rfl

theorem pathResolverErrors_ne_ok {resolvers : List (Resolver P.Json B)} (hne : resolvers ≠ []) (fieldType fieldName : String)
    (originalPath : List String) (first : Checked B WrappingType) (type : WrappingType) :
    resolvers.foldl (fun valid resolver =>
      valid.and (pathResolverError passes resolver fieldType fieldName originalPath)) first ≠ .ok type := by
  intro h
  obtain ⟨front, last, rfl⟩ := List.eq_nil_or_concat' resolvers |>.resolve_left hne
  rw [List.foldl_append, List.foldl_cons, List.foldl_nil] at h
  cases ((Valid.and_eq_ok _ _ _).mp h).2

variable {field : Config.Field (withResolvers P B)} {typeInfo : TypeDef (withResolvers P B)}

theorem targetType_eq {owner : TypeDef (withResolvers P B)}
    {typeName key : String} (hname : field.typeOf.name = typeName) (howner : module.config.findType typeName = some owner)
    (hstraight : typeInfo.fields.contains key = true → module.config.findType typeName = some typeInfo) :
    targetType module field typeInfo key = some owner := by
  rw [targetType]
  split
  next hcontains => exact (hstraight hcontains).symm.trans howner
  next => rw [hname, howner]

theorem processPath_name {originalPath path : List String} {key : String} {next : Config.Field (withResolvers P B)}
    {owner : TypeDef (withResolvers P B)} (hname : IsName key)
    (htarget : targetType module field typeInfo key = some owner) (hnext : owner.fields.get? key = some next)
    (h : processPath passes module originalPath (key :: path) field typeInfo = .ok type) :
    ∃ below, processPath passes module originalPath path next (atHand module owner next) = .ok below ∧
      type = if wraps next then .list below false else below := by
  rw [processPath, if_neg (by rw [isUsize_eq_false_iff.mpr hname]; decide), htarget] at h
  simp only [hnext] at h
  rw [atHand, wraps]
  cases hresolvers : next.resolvers.isEmpty with
  | false =>
    rw [hresolvers] at h
    obtain ⟨⟨found, hfound⟩, -⟩ := (Valid.and_eq_ok _ _ _).mp h
    have hne : next.resolvers ≠ [] := fun hnil => by rw [hnil] at hresolvers; cases hresolvers
    exact absurd hfound (pathResolverErrors_ne_ok hne _ _ _ _ _)
  | true =>
    rw [hresolvers] at h
    simp only [Bool.not_true, Bool.false_eq_true, if_false] at h
    split at h
    next hpredefined =>
      rw [if_pos hpredefined]
      exact ⟨type, h, by simp [hpredefined]⟩
    next hpredefined =>
      rw [if_neg hpredefined]
      cases hinfo : module.config.findType next.typeOf.name with
      | none =>
        rw [hinfo] at h
        cases h
      | some info =>
        rw [hinfo] at h
        obtain ⟨below, hbelow, rfl⟩ := (Valid.mapOk_eq_ok _ _ _).mp h
        exact ⟨below, hbelow, by simp [hpredefined]⟩

theorem wraps_shape {ending below : WrappingType} (h : Loosens ending below) :
    depth (if wraps field then .list below false else below) = (if wraps field then 1 else 0) + depth below ∧
      Loosens ending (if wraps field then .list below false else below) := by
  split
  · exact ⟨Nat.add_comm _ _, h.list⟩
  · exact ⟨(Nat.zero_add _).symm, h⟩

theorem processPath_shape {originalPath path : List String}
 {ending result : WrappingType}
    (htype : endType module.config path type = some ending) (hname : field.typeOf.name = type.name)
    (hshape : field.typeOf = type ∨ depth field.typeOf = 0) (hstraight : Straight module path type.name typeInfo)
    (h : processPath passes module originalPath path field typeInfo = .ok result) :
    depth result = listsOf module path field.typeOf ∧ Loosens ending result := by
  induction path generalizing field typeInfo type result with
  | nil =>
    obtain rfl := Option.some.inj htype
    obtain rfl := Except.ok.inj h
    refine ⟨depth_intoNullable _, 0, ?_⟩
    rcases hshape with heq | hdepth
    · exact .inl (by rw [heq]; rfl)
    · refine .inr ?_
      rw [← hname]
      cases hfield : field.typeOf with
      | named => rfl
      | list =>
        rw [hfield] at hdepth
        cases hdepth
  | cons key path ih =>
    obtain ⟨nextType, hnextType, htype⟩ := Option.bind_eq_some_iff.mp htype
    rw [Straight] at hstraight
    rw [listsOf]
    split at hnextType
    next hkey =>
      rw [if_pos hkey] at hstraight ⊢
      obtain ⟨⟨owner, next⟩, hfield, rfl⟩ := Option.map_eq_some_iff.mp hnextType
      obtain ⟨howner, hget⟩ := fieldAt_eq_some.mp hfield
      obtain ⟨below, hbelow, rfl⟩ :=
        processPath_name hkey (targetType_eq hname howner hstraight.1) hget h
      obtain ⟨hdepth, hloosens⟩ := ih htype rfl (.inl rfl) (hstraight.2 owner next hfield) hbelow
      rw [hname, hfield, Option.map_some, Option.getD_some]
      simp only [← hdepth]
      exact wraps_shape hloosens
    next hkey =>
      have husize : isUsize key = true := Bool.not_eq_false _ ▸ fun h => hkey (isUsize_eq_false_iff.mp h)
      rw [if_neg hkey] at hstraight ⊢
      rw [processPath, if_pos husize] at h
      have hitem := name_itemType hnextType
      refine ih htype ?_ (.inr (depth_intoSingle _)) (hitem ▸ hstraight) h
      rw [name_intoSingle, hname, hitem]

end Types

section Resolvers

variable {P : Payloads} {B : Backends} (passes : Passes P B) (module : Module P B)

/-- The field is read from the value of its parent as it stands there, or it has a resolver of its own. -/
def Direct (field : Config.Field (withResolvers P B)) (typeOf : TypeDef (withResolvers P B)) : Prop :=
  match field.resolvers with
  | [] => field.modify.bind passes.modifyName = none ∧ resolvesBelow module field = false ∧
      isProtected passes module field typeOf = false ∧ module.config.findUnion field.typeOf.name = none ∧
        module.interfacesTypesMap.get? field.typeOf.name = none
  | [resolver] => isFederation resolver = false
  | _ => True

variable {passes module} {C : Compiler P B} {field : Config.Field (withResolvers P B)}
variable {typeOf : TypeDef (withResolvers P B)} {objectName name : String} {bField bField' : CompiledField}

theorem updateCacheResolvers_resolver (h : updateCacheResolvers passes field typeOf bField = .ok bField') :
    bField'.resolver.isSome = bField.resolver.isSome := by
  unfold updateCacheResolvers at h
  split at h <;> obtain rfl := Except.ok.inj h
  · exact Option.isSome_map
  · rfl

theorem prepareField_isSome (h : prepareField passes module field typeOf bField = .ok bField')
    (hsome : bField.resolver.isSome = true) : bField'.resolver.isSome = true := by
  obtain ⟨fixed, hfixed, hcached⟩ := (Valid.tryFoldAnd_eq_ok _ _ _ _).mp h
  obtain ⟨renamed, hmodify, hdangling⟩ := (Valid.tryFoldAnd_eq_ok _ _ _ _).mp hfixed
  rw [Valid.trace_eq_ok] at hmodify
  rw [updateCacheResolvers_resolver hcached]
  have hrenamed : renamed.resolver.isSome = true := by
    unfold updateModify at hmodify
    split at hmodify
    · split at hmodify
      · cases hmodify
      · obtain rfl := Except.ok.inj hmodify
        rfl
    · obtain rfl := Except.ok.inj hmodify
      exact hsome
  unfold fixDanglingResolvers at hdangling
  split at hdangling <;> obtain rfl := Except.ok.inj hdangling
  · rfl
  · exact hrenamed

theorem prepareField_eq_none (h : prepareField passes module field typeOf bField = .ok bField')
    (hmodify : field.modify.bind passes.modifyName = none) (hbelow : resolvesBelow module field = false)
    (hnone : bField.resolver = none) : bField'.resolver = none := by
  obtain ⟨fixed, hfixed, hcached⟩ := (Valid.tryFoldAnd_eq_ok _ _ _ _).mp h
  obtain ⟨renamed, hrenamed, hdangling⟩ := (Valid.tryFoldAnd_eq_ok _ _ _ _).mp hfixed
  rw [Valid.trace_eq_ok, updateModify, hmodify] at hrenamed
  obtain rfl := Except.ok.inj hrenamed
  rw [fixDanglingResolvers, hbelow, Bool.and_false] at hdangling
  obtain rfl := Except.ok.inj hdangling
  have hcached := updateCacheResolvers_resolver hcached
  rw [hnone, Option.isSome_none] at hcached
  exact Option.isNone_iff_eq_none.mp (by rw [← Option.not_isSome, hcached]; rfl)

theorem discriminateField_eq_none (h : discriminateField passes module field bField = .ok bField')
    (hunion : module.config.findUnion field.typeOf.name = none)
    (hinterface : module.interfacesTypesMap.get? field.typeOf.name = none) (hnone : bField.resolver = none) :
    bField'.resolver = none := by
  obtain ⟨second, hsecond, h⟩ := (Valid.tryFoldAnd_eq_ok _ _ _ _).mp h
  obtain ⟨first, henum, hsecond⟩ := (Valid.tryFoldAnd_eq_ok _ _ _ _).mp hsecond
  rw [updateInterfaceResolver, hinterface] at h
  obtain rfl := Except.ok.inj h
  rw [updateUnionResolver, hunion] at hsecond
  obtain rfl := Except.ok.inj hsecond
  unfold updateEnumAlias at henum
  split at henum
  · split at henum
    · obtain rfl := Except.ok.inj henum
      rw [CompiledField.mapExpr, hnone]
      rfl
    · obtain rfl := Except.ok.inj henum
      exact hnone
  · obtain rfl := Except.ok.inj henum
    exact hnone

theorem finishField_isSome (h : finishField passes module field typeOf objectName bField = .ok bField')
    (hsome : bField.resolver.isSome = true) : bField'.resolver.isSome = true := by
  obtain ⟨prepared, guarded, hprepared, hguarded, hdressed⟩ := finishField_eq_ok.mp h
  have hprepared := prepareField_isSome hprepared hsome
  have hguarded : guarded.resolver.isSome = true := by
    rcases updateProtected_cases hguarded with ⟨-, rfl⟩ | ⟨-, _, _, _, -, rfl⟩
    · exact hprepared
    · rfl
  obtain ⟨ir, hir⟩ := Option.isSome_iff_exists.mp hguarded
  obtain ⟨ir', hir', -⟩ := (discriminateField_dresses hdressed).resolved ir hir
  rw [hir']
  rfl

theorem compileResolver_isSome {operationType : OperationType} {fuel : ℕ} {resolver : Resolver P.Json B}
    {result : Option IR} (h : compileResolver C module operationType objectName fuel field resolver = some (.ok result))
    (hplain : isFederation resolver = false) : result.isSome = true := by
  cases fuel with
  | zero => cases h
  | succ fuel =>
    have hsome {valid : Checked B IR} (h : valid.mapOk some = .ok result) : result.isSome = true := by
      obtain ⟨ir, -, rfl⟩ := (Valid.mapOk_eq_ok _ _ _).mp h
      rfl
    cases resolver with
    | call call =>
      rw [compileResolver] at h
      obtain ⟨ir, -, h⟩ := Option.map_eq_some_iff.mp h
      exact hsome h
    | grpc batchKey grpc =>
      rw [compileResolver] at h
      obtain ⟨ir, -, h⟩ := Option.map_eq_some_iff.mp h
      exact hsome h
    | expr expr =>
      rw [compileResolver] at h
      obtain ⟨ir, -, h⟩ := Option.map_eq_some_iff.mp h
      exact hsome h
    | entityResolver => cases hplain
    | service => cases hplain
    | other directive => exact hsome (Option.some.inj h)

theorem mergedResolver_isSome {resolvers : List (Option IR)} (hne : resolvers ≠ [])
    (hsingle : ∀ resolver, resolvers = [resolver] → resolver.isSome = true) :
    (mergedResolver resolvers).isSome = true := by
  match resolvers with
  | [] => exact absurd rfl hne
  | [resolver] => exact hsingle resolver rfl
  | _ :: _ :: _ => rfl

theorem updateResolver_resolver {resolvers : List (Checked B (Option IR))}
    (h : updateResolver C module resolvers typeOf bField = .ok bField') :
    ∃ results, Valid.collect resolvers = .ok results ∧ bField'.resolver = mergedResolver results := by
  obtain ⟨resolved, hresolved, hvalid⟩ := (Valid.andThen_eq_ok _ _ _).mp h
  obtain ⟨results, hresults, rfl⟩ := (Valid.mapOk_eq_ok _ _ _).mp hresolved
  obtain ⟨_, -, rfl⟩ := (Valid.mapOk_eq_ok _ _ _).mp hvalid
  exact ⟨results, hresults, rfl⟩

theorem toFieldDefinition_resolver {fuel : ℕ} {operationType : OperationType} (hdirect : Direct passes module field typeOf)
    (h : toFieldDefinition (compiler passes C) module objectName
      (compileResolver (compiler passes C) module operationType objectName fuel) field typeOf name = some (.ok bField)) :
    bField.resolver.isSome = !field.resolvers.isEmpty := by
  obtain ⟨resolvers, hresolvers, h⟩ := Option.map_eq_some_iff.mp h
  obtain ⟨resolved, hresolved, hfinish⟩ := (Valid.tryFoldAnd_eq_ok _ _ _ _).mp h
  obtain ⟨start, -, hresolver⟩ := (Valid.tryFoldAnd_eq_ok _ _ _ _).mp hresolved
  obtain ⟨results, hresults, hmerged⟩ := updateResolver_resolver hresolver
  rw [(Valid.collect_eq_ok _ _).mp hresults, sequence_eq_some] at hresolvers
  have hlength := congrArg List.length hresolvers
  simp only [List.length_map] at hlength
  rw [Direct] at hdirect
  cases hfield : field.resolvers with
  | nil =>
    rw [hfield] at hdirect hlength
    obtain ⟨hmodify, hbelow, hprotected, hunion, hinterface⟩ := hdirect
    obtain rfl := List.eq_nil_of_length_eq_zero hlength.symm
    obtain ⟨prepared, guarded, hprepared, hguarded, hdressed⟩ := finishField_eq_ok.mp hfinish
    have hnone := prepareField_eq_none hprepared hmodify hbelow hmerged
    rw [updateProtected, hprotected] at hguarded
    obtain rfl := Except.ok.inj hguarded
    rw [discriminateField_eq_none hdressed hunion hinterface hnone]
    rfl
  | cons first rest =>
    rw [List.isEmpty_cons, Bool.not_false]
    refine finishField_isSome hfinish ?_
    rw [hmerged]
    refine mergedResolver_isSome (fun hnil => by simp [hnil, hfield] at hlength) ?_
    rintro result rfl
    rw [hfield] at hdirect hlength hresolvers
    obtain rfl : rest = [] := List.eq_nil_of_length_eq_zero (by simpa using hlength)
    exact compileResolver_isSome (List.singleton_inj.mp hresolvers) hdirect

end Resolvers

section Runs

def parentValue (ctx : EvalContext) : Option ConstValue :=
  ctx.graphqlCtxValue.or ctx.graphqlCtx.value

variable {Key : Type}

theorem run_contextPath_eq {σ : Type} [DecidableEq Key] (runtime : Runtime Key σ) (way : Way) (path : List String)
    (ctx : EvalContext) (state : RequestState Key σ) :
    (Evaluation.run runtime ⟨way, .contextPath path, ctx, state⟩).1 =
      .ok (match pathValue ctx path with
        | some (.value value _) => value
        | _ => .null) := by
  rw [Evaluation.run, eval]
  cases pathValue ctx path with
  | none => rfl
  | some found => cases found <;> rfl

theorem run_contextPath {σ : Type} [DecidableEq Key] (runtime : Runtime Key σ) (way : Way) (path : List String)
    (ctx : EvalContext) (state : RequestState Key σ) :
    (Evaluation.run runtime ⟨way, .contextPath path, ctx, state⟩).1 =
      .ok (((parentValue ctx).bind (getPath · path)).getD .null) := by
  rw [run_contextPath_eq, pathValue, parentValue]
  cases ctx.graphqlCtxValue with
  | some value =>
    rw [Option.some_or, Option.bind_some]
    simp only
    cases getPath value path <;> rfl
  | none =>
    rw [Option.none_or]
    simp only
    cases ctx.graphqlCtx.value with
    | none => rfl
    | some value =>
      simp only [Option.bind_eq_bind, Option.bind_some]
      cases getPath value path <;> rfl

theorem run_path {σ : Type} [DecidableEq Key] (runtime : Runtime Key σ) (way : Way) (input : IR) (path : List String)
    (ctx : EvalContext) (state : RequestState Key σ) :
    (Evaluation.run runtime ⟨way, .path input path, ctx, state⟩).1 =
      (Evaluation.run runtime ⟨way.down .below, input, ctx, entering way (.path input path) state⟩).1 >>=
        fun value => .ok ((getPath value path).getD .null) :=
  congrArg Prod.fst (run_below runtime rfl)

/-- Whenever the source has one value, be it the parent that has it or the resolver, the added field has the other. -/
def Reads (first : String) (resolver : Option IR) (value result : ConstValue) : Prop :=
  ∀ {Key σ : Type} [DecidableEq Key] (runtime : Runtime Key σ) (way : Way) (ctx : EvalContext)
    (state : RequestState Key σ),
    match resolver with
    | some (.contextPath path) =>
      (Evaluation.run runtime ⟨way, .contextPath [first], ctx, state⟩).1 = .ok value →
        (Evaluation.run runtime ⟨way, .contextPath path, ctx, state⟩).1 = .ok result
    | some (.path _ path) => ∀ input,
      (Evaluation.run runtime ⟨way.down .below, input, ctx, entering way (.path input path) state⟩).1 = .ok value →
        (Evaluation.run runtime ⟨way, .path input path, ctx, state⟩).1 = .ok result
    | _ => False

def emptyRequest : RequestState Unit Unit :=
  ⟨none, [], (), []⟩

def requestOn (value : ConstValue) : EvalContext :=
  withValue (EvalContext.new ⟨[], [], fun _ => none, fun _ => .succeed none⟩ .empty) value

variable {first : String} {rest : List String} {value result : ConstValue}

theorem getPath_first (parent : ConstValue) :
    (getPath parent (first :: rest)).getD .null = (getPath ((getPath parent [first]).getD .null) rest).getD .null := by
  rw [getPath_step, getPath_step]
  cases step parent first with
  | none => cases rest <;> rfl
  | some next => rfl

theorem reads_contextPath_iff :
    Reads first (some (.contextPath (first :: rest))) value result ↔ result = (getPath value rest).getD .null := by
  constructor
  · intro h
    have hsource : getPath (.object [(first, value)]) [first] = some value := by
      rw [getPath_step]
      simp [step, ConstValue.getKey, ConstValue.asObject, Object.getKey, getPath]
    have hrun := h (idle ⟨fun _ => "", fun _ => ""⟩) .start (requestOn (.object [(first, value)])) emptyRequest
    simp only [run_contextPath] at hrun
    have hread := hrun (congrArg (fun found => Except.ok (found.getD .null)) hsource)
    have hfirst := @getPath_first first rest (.object [(first, value)])
    rw [hsource, Option.getD_some] at hfirst
    exact (Except.ok.inj hread).symm.trans hfirst
  · rintro rfl Key σ _ runtime way ctx state hvalue
    rw [run_contextPath] at hvalue ⊢
    obtain rfl := Except.ok.inj hvalue
    cases parentValue ctx with
    | none => cases rest <;> rfl
    | some parent => exact congrArg Except.ok (getPath_first parent)

theorem reads_path_iff {input : IR} :
    Reads first (some (.path input rest)) value result ↔ result = (getPath value rest).getD .null := by
  constructor
  · intro h
    have hrun := h (idle ⟨fun _ => "", fun _ => ""⟩) .start (requestOn .null) emptyRequest (.dynamic (.const value)) rfl
    rw [run_path] at hrun
    exact (Except.ok.inj hrun).symm
  · rintro rfl Key σ _ runtime way ctx state input hvalue
    rw [run_path, hvalue]
    rfl

end Runs

section Exactness

variable {P : Payloads} {B : Backends} (passes : Passes P B) (module : Module P B) (formats : Scalar.Formats)

def pathFrom (source : Config.Field (withResolvers P B)) (first : String) (rest : List String) : List String :=
  if source.resolvers.isEmpty then first :: rest else rest

def startOf (objectName : String) (source : Config.Field (withResolvers P B)) : WrappingType :=
  if source.resolvers.isEmpty then .named objectName false else source.typeOf

def listsGiven (objectName : String) (source : Config.Field (withResolvers P B)) (first : String) (rest : List String) :
    ℕ :=
  if itemIsNumeric passes (pathFrom source first rest) then 0
  else listsOf module (pathFrom source first rest) (startOf objectName source)

/-- For a value of the source the added field has what the path leads to, which has the type it is given. -/
structure RightFor (first : String) (rest : List String) (ending : WrappingType) (bField : CompiledField)
    (value : ConstValue) : Prop where
  reads : Reads first bField.resolver value (follow rest value)
  conforms : Conforms module.config formats false bField.ofType (follow rest value)
  nesting : ∀ found, getPath value rest = some found → depth bField.ofType = depth ending

/-- No value of the source has a list where the path goes on with a name, and where a value has something at the end
of the path the lists are counted right. -/
structure Sound (objectName : String) (source : Config.Field (withResolvers P B)) (first : String) (rest : List String)
    (ending : WrappingType) : Prop where
  unmapped : ∀ value, Conforms module.config formats false source.typeOf value → Unmapped rest value
  counted : ∀ value found, Conforms module.config formats false source.typeOf value → getPath value rest = some found →
    listsGiven passes module objectName source first rest = depth ending

variable {passes module formats} {C : Compiler P B} {typeOf : TypeDef (withResolvers P B)}
variable {source : Config.Field (withResolvers P B)} {objectName first : String} {rest : List String} {fuel : ℕ}
variable {ending : WrappingType} {bField : CompiledField}

theorem toAddedField_shape {added : P.AddField} (hpath : (C.addField added).path = first :: rest)
    (hsource : typeOf.fields.get? first = some source) (hdirect : Direct passes module source typeOf)
    (h : toAddedField (compiler passes C) module fuel objectName typeOf added = some (.ok bField)) :
    ∃ result, processPath passes module (first :: rest) (pathFrom source first rest) source typeOf = .ok result ∧
      bField.ofType = (if itemIsNumeric passes (pathFrom source first rest) then .named result.name false else result) ∧
        (bField.resolver = some (.contextPath (first :: rest)) ∨ ∃ input, bField.resolver = some (.path input rest)) := by
  have hpath' : ((compiler passes C).addField added).path = first :: rest := hpath
  rw [toAddedField, hpath'] at h
  simp only [hsource] at h
  obtain ⟨compiled, hcompiled, htrace⟩ := Option.map_eq_some_iff.mp h
  obtain ⟨base, rfl, hbase⟩ := (Valid.andThen_eq_ok _ _ _).mp ((Valid.trace_eq_ok _ _ _).mp htrace)
  obtain ⟨result, hresult, rfl⟩ := (Valid.mapOk_eq_ok _ _ _).mp hbase
  refine ⟨result, hresult, rfl, ?_⟩
  have hresolver := toFieldDefinition_resolver hdirect hcompiled
  cases hempty : source.resolvers.isEmpty with
  | true =>
    rw [hempty] at hresolver
    have hnone : base.resolver = none := Option.not_isSome_iff_eq_none.mp (by rw [hresolver]; decide)
    rw [hnone]
    exact .inl (by simp)
  | false =>
    rw [hempty] at hresolver
    obtain ⟨ir, hir⟩ := Option.isSome_iff_exists.mp hresolver
    rw [hir]
    exact .inr ⟨ir, by simp⟩

theorem processPath_added {result : WrappingType} (htype : module.config.findType objectName = some typeOf)
    (hsource : typeOf.fields.get? first = some source) (hname : IsName first)
    (hend : endType module.config rest source.typeOf = some ending)
    (hstraight : Straight module (pathFrom source first rest) (startOf objectName source).name typeOf)
    (h : processPath passes module (first :: rest) (pathFrom source first rest) source typeOf = .ok result) :
    depth result = listsOf module (pathFrom source first rest) (startOf objectName source) ∧ Loosens ending result := by
  rw [pathFrom, startOf] at hstraight ⊢
  rw [pathFrom] at h
  cases hempty : source.resolvers.isEmpty with
  | false =>
    simp only [hempty, Bool.false_eq_true, if_false] at hstraight h ⊢
    exact processPath_shape hend rfl (.inl rfl) hstraight h
  | true =>
    simp only [hempty, if_true] at hstraight h ⊢
    have hfield : fieldAt module.config objectName first = some (typeOf, source) := fieldAt_eq_some.mpr ⟨htype, hsource⟩
    have htarget : targetType module source typeOf first = some typeOf := by
      rw [targetType, if_pos]
      rw [Dict.contains, hsource]
      rfl
    rw [WrappingType.name, Straight, if_pos hname] at hstraight
    obtain ⟨below, hbelow, rfl⟩ := processPath_name hname htarget hsource h
    obtain ⟨hdepth, hloosens⟩ := processPath_shape hend rfl (.inl rfl) (hstraight.2 typeOf source hfield) hbelow
    rw [listsOf, if_pos hname, WrappingType.name, hfield, Option.map_some, Option.getD_some]
    simp only [← hdepth]
    exact wraps_shape hloosens

theorem rightFor_iff (hend : endType module.config rest source.typeOf = some ending)
    (hreads : ∀ value result, Reads first bField.resolver value result ↔ result = (getPath value rest).getD .null)
    (hloosens : Loosens ending bField.ofType)
    (hdepth : depth bField.ofType = listsGiven passes module objectName source first rest) :
    (∀ value, Conforms module.config formats false source.typeOf value →
      RightFor module formats first rest ending bField value) ↔
        Sound passes module formats objectName source first rest ending := by
  constructor
  · intro h
    refine ⟨fun value hvalue => ?_, fun value found hvalue hfound => ?_⟩
    · exact (getPath_eq_follow_iff rest value).mp ((hreads _ _).mp (h value hvalue).reads).symm
    · exact hdepth.symm.trans ((h value hvalue).nesting found hfound)
  · intro h value hvalue
    have hfollow : (getPath value rest).getD .null = follow rest value :=
      (getPath_eq_follow_iff rest value).mpr (h.unmapped value hvalue)
    have hnesting (found : ConstValue) (hfound : getPath value rest = some found) :
        depth bField.ofType = depth ending := hdepth.trans (h.counted value found hvalue hfound)
    refine ⟨(hreads _ _).mpr hfollow.symm, ?_, hnesting⟩
    rw [← hfollow]
    cases hfound : getPath value rest with
    | none => exact .null hloosens.isNullable
    | some found => exact hloosens.conforms (hnesting found hfound) (getPath_endType hend hvalue hfound)

/-- An added field, on a path of names and of indices of lists, that is read off its source and whose names are looked
up in the types they are of. -/
theorem added_reads_iff {module required : Module P B} {draft : Draft B} {added : P.AddField} (formats : Scalar.Formats)
    (hrequired : C.required module = .ok required) (h : tryFrom (compiler passes C) fuel module = some (.ok draft))
    (htype : (objectName, typeOf) ∈ required.config.types.entries) (hscalar : typeOf.scalar = false)
    (hadded : added ∈ typeOf.addedFields)
    (hpath : endType required.config (C.addField added).path (.named objectName false) = some ending) :
    ∃ first rest source bField, (C.addField added).path = first :: rest ∧ typeOf.fields.get? first = some source ∧
      toAddedField (compiler passes C) required fuel objectName typeOf added = some (.ok bField) ∧
        (Direct passes required source typeOf →
          Straight required (pathFrom source first rest) (startOf objectName source).name typeOf →
            ((∀ value, Conforms required.config formats false source.typeOf value →
              RightFor required formats first rest ending bField value) ↔
                Sound passes required formats objectName source first rest ending)) := by
  obtain ⟨_, addedFields, -, haddedFields, -, values, hvalues⟩ :=
    toFields_of_accepted (C := compiler passes C) hrequired h htype hscalar
  obtain ⟨bField, -, hbField⟩ := collected haddedFields hvalues hadded
  have hfind : required.config.findType objectName = some typeOf := (Dict.get?_eq_some_iff _ _ _).mpr htype
  cases hparts : (C.addField added).path with
  | nil =>
    have hparts' : ((compiler passes C).addField added).path = [] := hparts
    rw [toAddedField, hparts'] at hbField
    cases hbField
  | cons first rest =>
    rw [hparts] at hpath
    obtain ⟨nextType, hnextType, hend⟩ := Option.bind_eq_some_iff.mp hpath
    split at hnextType
    next hname =>
      obtain ⟨⟨owner, source⟩, hfield, rfl⟩ := Option.map_eq_some_iff.mp hnextType
      obtain ⟨howner, hsource⟩ := fieldAt_eq_some.mp hfield
      obtain rfl := Option.some.inj (hfind.symm.trans howner)
      refine ⟨first, rest, source, bField, rfl, hsource, hbField, fun hdirect hstraight => ?_⟩
      obtain ⟨result, hresult, hofType, hresolver⟩ := toAddedField_shape hparts hsource hdirect hbField
      obtain ⟨hdepth, hloosens⟩ := processPath_added hfind hsource hname hend hstraight hresult
      refine rightFor_iff hend (fun value found => ?_) ?_ ?_
      · rcases hresolver with hresolver | ⟨input, hresolver⟩
        · rw [hresolver, reads_contextPath_iff]
        · rw [hresolver, reads_path_iff]
      · rw [hofType]
        split
        · exact ⟨0, .inr (by rw [hloosens.name]; rfl)⟩
        · exact hloosens
      · rw [hofType, listsGiven]
        split
        · rfl
        · exact hdepth
    next => cases hnextType

end Exactness

def noFormats : Scalar.Formats :=
  ⟨fun _ => false, fun _ => false, fun _ => false, fun _ => false⟩

def namesField : AddField :=
  ⟨"names", ["users", "name"]⟩

def usersField : Config.Field (withResolvers secretPayloads bare) :=
  { plainField "User" [.other ()] none with typeOf := .list (.named "User" false) false }

def listedQuery : TypeDef (withResolvers secretPayloads bare) :=
  { secretType ⟨[("users", usersField)], by simp⟩ none with addedFields := [namesField] }

def listedUser : TypeDef (withResolvers secretPayloads bare) :=
  secretType ⟨[("name", plainField "String" [] none)], by simp⟩ none

def listed : Module secretPayloads bare where
  config :=
    { server := ()
      upstream := ()
      schema := ⟨some "Query", none, none⟩
      types := ⟨[("Query", listedQuery), ("User", listedUser)], by simp⟩
      unions := Dict.empty
      enums := Dict.empty
      links := []
      telemetry := () }
  inputTypes := ∅
  outputTypes := {"Query", "User"}
  interfacesTypesMap := Dict.empty

theorem listed_accepted : ∃ draft, tryFrom (compiler secretPasses secretCompiler) 1 listed = some (.ok draft) :=
  ⟨⟨⟨_, ⟨"", none, none⟩⟩, ()⟩, rfl⟩

theorem listed_ending :
    endType listed.config namesField.path (.named "Query" false) = some (.named "String" false) := by
  decide +kernel

theorem added_reads_listed :
    ∃ first rest source bField, namesField.path = first :: rest ∧ listedQuery.fields.get? first = some source ∧
      toAddedField (compiler secretPasses secretCompiler) listed 1 "Query" listedQuery namesField =
        some (.ok bField) ∧
        (Direct secretPasses listed source listedQuery →
          Straight listed (pathFrom source first rest) (startOf "Query" source).name listedQuery →
            ((∀ value, Conforms listed.config noFormats false source.typeOf value →
              RightFor listed noFormats first rest (.named "String" false) bField value) ↔
                Sound secretPasses listed noFormats "Query" source first rest (.named "String" false))) := by
  have hrequired : secretCompiler.required listed = .ok listed := rfl
  obtain ⟨draft, haccepted⟩ := listed_accepted
  exact added_reads_iff noFormats hrequired haccepted (by simp [listed]) rfl (List.mem_singleton_self _) listed_ending

def oneUser : ConstValue :=
  .list [.object [("name", .string "Ann")]]

theorem oneUser_conforms : Conforms listed.config noFormats false usersField.typeOf oneUser := by
  refine .list fun item hitem => ?_
  obtain rfl := List.mem_singleton.mp hitem
  have hdeclared {key : String} {type : WrappingType} (h : declaredType listedUser key = some type) :
      key = "name" ∧ type = .named "String" false := by
    obtain ⟨field, hfield, rfl⟩ := Option.map_eq_some_iff.mp h
    obtain ⟨rfl, rfl⟩ : key = "name" ∧ field = plainField "String" [] none := by
      simpa [listedUser, secretType] using (Dict.get?_eq_some_iff _ _ _).mp hfield
    exact ⟨rfl, rfl⟩
  have hfound : listed.config.findType "User" = some listedUser := rfl
  refine .object hfound rfl ?_ ?_ ?_
  · intro key type value htype hget
    obtain ⟨rfl, rfl⟩ := hdeclared htype
    obtain rfl : ConstValue.string "Ann" = value := Option.some.inj hget
    exact .scalar rfl (by decide) ConstValue.noConfusion
  · intro key type htype _
    obtain ⟨-, rfl⟩ := hdeclared htype
    rfl
  · intros
    contradiction

theorem names_lost :
    (∃ draft, tryFrom (compiler secretPasses secretCompiler) 1 listed = some (.ok draft)) ∧
      endType listed.config namesField.path (.named "Query" false) = some (.named "String" false) ∧
        ∃ bField, toAddedField (compiler secretPasses secretCompiler) listed 1 "Query" listedQuery namesField =
          some (.ok bField) ∧
            ¬ ∀ value, Conforms listed.config noFormats false usersField.typeOf value →
              RightFor listed noFormats "users" ["name"] (.named "String" false) bField value := by
  refine ⟨listed_accepted, listed_ending,
    ⟨⟨"names", [], .named "String" false, some (.path (.io (.js "secret")) ["name"])⟩, none⟩, rfl, fun h => ?_⟩
  have hread := (@reads_path_iff "users" ["name"] oneUser _ (.io (.js "secret"))).mp (h oneUser oneUser_conforms).reads
  cases hread

end Gqlforge.AddedReads
