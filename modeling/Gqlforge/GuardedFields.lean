import Gqlforge.AuthExecution
import Gqlforge.EvalStarts
import Gqlforge.PassEffects

namespace Gqlforge.GuardedFields

open Json Resolvers Schema Config Validation FieldCompiler FieldPasses PassEffects EvalContext Eval EvalStarts
open PlannedEval AuthExecution

section Requirements

variable {P : Payloads} {B : Backends} (passes : Passes P B) (module : Module P B)
variable (field : Config.Field (withResolvers P B)) (typeOf : TypeDef (withResolvers P B))

def requirements : List Protected :=
  (fieldProtection passes field).toList ++ (typeProtection passes typeOf).toList ++
    (outputProtection passes module field).toList

def requiredProviders (protection : Protected) : List (Option Provider) :=
  match protection.id with
  | some (id :: ids) => (id :: ids).map (providers passes).get?
  | _ => (fromConfig passes).map fun provider => some provider.content

def ruleHolds (texts : Texts) (ctx : EvalContext) (claims : Option ConstValue) (text : String) : Prop :=
  ∃ expr, passes.parse text = .ok expr ∧ evaluate texts ctx claims expr = true

structure Satisfies (texts : Texts) (ctx : EvalContext) (claims : Option ConstValue) (protection : Protected) :
    Prop where
  verified : ∀ required ∈ requiredProviders passes protection, ∃ provider own,
    required = some provider ∧ ctx.requestCtx.verify provider = .succeed own
  allowed : ∀ text, protection.expr = some text → ruleHolds passes texts ctx claims text

/-- The resolver `core` is run for a field only if the request meets the requirements. -/
def GuardedBy (requirements : List Protected) (resolver : Option IR) (core : IR) : Prop :=
  ∀ (Key σ : Type) (runtime : Runtime Key σ) (way way' : Way) (ctx ctx' : EvalContext)
    (state state' : RequestState Key σ) (ir : IR), resolver = some ir →
      Starts runtime ⟨way, ir, ctx, state⟩ ⟨way', core, ctx', state'⟩ →
        ∀ protection ∈ requirements, Satisfies passes runtime.texts ctx' state'.authClaims protection

def guardProviders : List Provider :=
  match guardIds passes field typeOf with
  | [] => (fromConfig passes).map Content.content
  | ids => ids.filterMap (providers passes).get?

def guardAccess : Option AccessExpr :=
  (guardExpr passes field typeOf).bind fun text => (passes.parse text).toOption

/-- Every request that a rule lets through meets the protection if it is verified by the providers. -/
def Covers (guard : List Provider) (rule : Option AccessExpr) (protection : Protected) : Prop :=
  ∀ texts ctx claims, rule.all (evaluate texts ctx claims) = true →
    (∀ required ∈ requiredProviders passes protection, ∃ provider ∈ guard, required = some provider) ∧
      ∀ text, protection.expr = some text → ruleHolds passes texts ctx claims text

end Requirements

section Federation

variable {P : Payloads} {B : Backends} (C : Compiler P B) (passes : Passes P B) (module : Module P B)

def blueprintName (field : Config.Field (withResolvers P B)) (name : String) : String :=
  (field.modify.bind passes.modifyName).getD name

def federationOf (queryName objectName name : String) : Option (Resolver P.Json B) :=
  if C.enableFederation module.config.server && objectName == queryName then
    ((module.config.findType queryName).bind fun configType => configType.fields.get? name).bind fun field =>
      field.resolvers.find? isFederation
  else none

def finalField (fuel : ℕ) (sdl queryName objectName : String) (bField : FieldDefinition) :
    Option (Checked B FieldDefinition) :=
  if C.enableFederation module.config.server && objectName == queryName then
    match module.config.findType queryName with
    | none => some (Valid.fail (.typeNotFoundInConfig queryName))
    | some configType => federationField C module fuel sdl configType bField
  else some (Valid.succeed bField)

def preparedField
    (compileResolver : Config.Field (withResolvers P B) → Resolver P.Json B → Option (Checked B (Option IR)))
    (field : Config.Field (withResolvers P B)) (typeOf : TypeDef (withResolvers P B)) (name : String) :
    Option (Checked B CompiledField) :=
  (Validation.sequence (field.resolvers.map (compileResolver field))).map fun resolvers =>
    Valid.tryFoldAnd
      (Valid.tryFoldAnd (updateArgs C field name) (updateResolver C module resolvers typeOf))
      (prepareField passes module field typeOf)
      ⟨default, none⟩

/-- What the checks of a field are there for: the resolver that the federation has put in, or the field's own. -/
def IsCore (fuel : ℕ) (queryName objectName : String) (typeOf : TypeDef (withResolvers P B))
    (field : String × Config.Field (withResolvers P B)) (final : FieldDefinition) (core : IR) : Prop :=
  if (federationOf C module queryName objectName (blueprintName passes field.2 field.1)).isSome then
    final.resolver = some core
  else
    ∃ prepared, preparedField C passes module
      (compileResolver C module (operationTypeOf module objectName) objectName fuel) field.2 typeOf field.1 =
        some (.ok prepared) ∧ core = CompiledField.orContextPath prepared

end Federation

section Guard

variable {P : Payloads} {B : Backends} {passes : Passes P B} {module : Module P B}
variable {field : Config.Field (withResolvers P B)} {typeOf : TypeDef (withResolvers P B)}

theorem isProtected_iff : isProtected passes module field typeOf = true ↔ requirements passes module field typeOf ≠ [] := by
  unfold isProtected requirements
  cases fieldProtection passes field <;> cases typeProtection passes typeOf <;>
    cases outputProtection passes module field <;> simp

variable {auths : List Auth} {auth : Auth}

theorem verified_reduceAnd {request : RequestContext}
    (h : reduceAnd auths = some auth) : Verified request auth ↔ ∀ other ∈ auths, Verified request other := by
  apply verified_reduceAuth
  cases auths with
  | nil => cases h
  | cons first rest => exact h

theorem providerOf_eq_ok {id : String} :
    providerOf passes id = .ok auth ↔ ∃ provider, (providers passes).get? id = some provider ∧ auth = .provider provider := by
  unfold providerOf
  cases (providers passes).get? id with
  | none => simp [Passes.fail, Valid.fail]
  | some provider => simp [Valid.succeed, eq_comm]

theorem auths_eq {ids : List String} (h : Valid.fromIter ids (providerOf passes) = .ok auths) :
    auths = (ids.filterMap (providers passes).get?).map .provider := by
  induction ids generalizing auths with
  | nil => simpa [Valid.fromIter, Valid.collect, Valid.succeed, eq_comm] using h
  | cons id ids ih =>
    obtain ⟨auth, rest, rfl, hauth, hrest⟩ := (Valid.fromIter_cons_eq_ok _ _ _ _).mp h
    obtain ⟨provider, hprovider, rfl⟩ := providerOf_eq_ok.mp hauth
    rw [List.filterMap_cons_some hprovider, List.map_cons, ih hrest]

theorem verified_guard {request : RequestContext} {accessExpr : Option AccessExpr}
    (h : Guarded passes field typeOf auths auth accessExpr) :
    Verified request auth ↔
      ∀ provider ∈ guardProviders passes field typeOf, ∃ own, request.verify provider = .succeed own := by
  have hauths := auths_eq h.found
  cases hids : guardIds passes field typeOf with
  | nil =>
    have hnone : auths = [] := by rw [hauths, hids]; rfl
    have hreduced : reduceAnd ((fromConfig passes).map fun provider => .provider provider.content) = some auth := by
      have := h.reduced
      rw [hnone, reduceAnd, Option.none_or, authFromConfig] at this
      exact this
    rw [verified_reduceAnd hreduced, guardProviders, hids]
    simp [Verified, AuthVerifier.verify]
  | cons id ids =>
    have hreduced : reduceAnd auths = some auth := by
      obtain ⟨auth', rest, rfl, -, -⟩ := (Valid.fromIter_cons_eq_ok _ _ _ _).mp (hids ▸ h.found)
      simpa [reduceAnd] using h.reduced
    rw [verified_reduceAnd hreduced, hauths, guardProviders, hids]
    simp [Verified, AuthVerifier.verify]

theorem guardAccess_eq {accessExpr : Option AccessExpr}
    (h : Guarded passes field typeOf auths auth accessExpr) : accessExpr = guardAccess passes field typeOf := by
  have hparsed := h.parsed
  unfold guardAccess
  cases hexpr : guardExpr passes field typeOf with
  | none =>
    rw [hexpr] at hparsed
    exact (Except.ok.inj hparsed).symm
  | some text =>
    rw [hexpr, parseExpr] at hparsed
    cases hparse : passes.parse text with
    | error error => simp [hparse, Passes.fail, Valid.fail] at hparsed
    | ok expr =>
      simp only [hparse, Valid.succeed, Except.ok.injEq] at hparsed
      simp [hparse, ← hparsed, Except.toOption]

end Guard

section Shells

variable {Key σ : Type} {runtime : Runtime Key σ}

theorem size_dressed {ir ir' : IR} (h : Dressed ir ir') : sizeOf ir ≤ sizeOf ir' := by
  induction h with
  | here => exact le_refl _
  | path _ ih => simp only [IR.path.sizeOf_spec]; omega
  | map _ ih => simp only [IR.map.sizeOf_spec]; omega
  | discriminate _ ih => simp only [IR.discriminate.sizeOf_spec]; omega

variable (runtime) in
theorem dressed_starts {ir ir' : IR} (h : Dressed ir ir') (way : Way) (ctx : EvalContext)
    (state : RequestState Key σ) : ∃ way' state', Starts runtime ⟨way, ir', ctx, state⟩ ⟨way', ir, ctx, state'⟩ ∧
      state'.authClaims = state.authClaims := by
  induction h generalizing way state with
  | here => exact ⟨way, state, .here _, rfl⟩
  | @path ir' path _ ih =>
    obtain ⟨way', state', hstarts, hclaims⟩ := ih (way.down .below) (entering way (.path ir' path) state)
    exact ⟨way', state', .path hstarts, hclaims⟩
  | @map ir' map _ ih =>
    obtain ⟨way', state', hstarts, hclaims⟩ := ih (way.down .below) (entering way (.map ir' map) state)
    exact ⟨way', state', .map hstarts, hclaims⟩
  | @discriminate ir' discriminator _ ih =>
    obtain ⟨way', state', hstarts, hclaims⟩ := ih (way.down .below) (entering way (.discriminate discriminator ir') state)
    exact ⟨way', state', .discriminate hstarts, hclaims⟩

theorem starts_core {auth : Auth} {accessExpr : Option AccessExpr} {core ir : IR}
    (hdressed : Dressed (.protect auth accessExpr core) ir) {way way' : Way} {ctx ctx' : EvalContext}
    {state state' : RequestState Key σ} (h : Starts runtime ⟨way, ir, ctx, state⟩ ⟨way', core, ctx', state'⟩) :
    ctx' = ctx ∧ ∃ before claims, runCheck runtime auth accessExpr ctx before = (.ok claims, state') := by
  induction hdressed generalizing way state with
  | here =>
    generalize hir : IR.protect auth accessExpr core = ir at h
    cases h with
    | here => have := congrArg sizeOf hir; simp at this
    | protect hcheck hrest =>
      obtain ⟨rfl, rfl, rfl⟩ := IR.protect.inj hir
      rcases hrest.smaller with heq | hsize
      · obtain ⟨-, -, rfl, rfl⟩ := Evaluation.mk.inj heq
        exact ⟨rfl, state, _, hcheck⟩
      · exact absurd hsize (lt_irrefl _)
    | path _ => cases hir
    | map _ => cases hir
    | discriminate _ => cases hir
  | @path ir' path hd ih =>
    have hsize := size_dressed hd
    generalize hir : IR.path ir' path = ir at h
    cases h with
    | here => have := congrArg sizeOf hir; simp at this hsize; omega
    | protect _ _ => cases hir
    | path hrest =>
      obtain ⟨rfl, rfl⟩ := IR.path.inj hir
      exact ih hrest
    | map _ => cases hir
    | discriminate _ => cases hir
  | @map ir' map hd ih =>
    have hsize := size_dressed hd
    generalize hir : IR.map ir' map = ir at h
    cases h with
    | here => have := congrArg sizeOf hir; simp at this hsize; omega
    | protect _ _ => cases hir
    | path _ => cases hir
    | map hrest =>
      obtain ⟨rfl, rfl⟩ := IR.map.inj hir
      exact ih hrest
    | discriminate _ => cases hir
  | @discriminate ir' discriminator hd ih =>
    have hsize := size_dressed hd
    generalize hir : IR.discriminate discriminator ir' = ir at h
    cases h with
    | here => have := congrArg sizeOf hir; simp at this hsize; omega
    | protect _ _ => cases hir
    | path _ => cases hir
    | map _ => cases hir
    | discriminate hrest =>
      obtain ⟨rfl, rfl⟩ := IR.discriminate.inj hir
      exact ih hrest

end Shells

section Chain

variable {P : Payloads} {B : Backends} {passes : Passes P B} {C : Compiler P B} {module : Module P B}
variable {field : Config.Field (withResolvers P B)} {typeOf : TypeDef (withResolvers P B)}
variable {objectName name : String} {bField : CompiledField}

variable {bField' : CompiledField}

theorem updateModify_name {bField : CompiledField} (h : updateModify passes module field typeOf bField = .ok bField') :
    bField'.name = (field.modify.bind passes.modifyName).getD bField.name := by
  unfold updateModify at h
  cases hname : field.modify.bind passes.modifyName with
  | none =>
    simp only [hname] at h
    obtain rfl := Except.ok.inj h
    rfl
  | some newName =>
    simp only [hname] at h
    split at h
    · cases h
    · obtain rfl := Except.ok.inj h
      rfl

theorem prepareField_name {bField : CompiledField} (h : prepareField passes module field typeOf bField = .ok bField') :
    bField'.name = (field.modify.bind passes.modifyName).getD bField.name := by
  obtain ⟨fixed, hfixed, hcached⟩ := (Valid.tryFoldAnd_eq_ok _ _ _ _).mp h
  obtain ⟨renamed, hmodify, hdangling⟩ := (Valid.tryFoldAnd_eq_ok _ _ _ _).mp hfixed
  rw [Valid.trace_eq_ok] at hmodify
  have hcachedName : bField'.name = fixed.name := by
    unfold updateCacheResolvers at hcached
    split at hcached <;> obtain rfl := Except.ok.inj hcached <;> rfl
  have hfixedName : fixed.name = renamed.name := by
    unfold fixDanglingResolvers at hdangling
    split at hdangling <;> obtain rfl := Except.ok.inj hdangling <;> rfl
  rw [hcachedName, hfixedName, updateModify_name hmodify]

theorem updateResolver_name {resolvers : List (Checked B (Option IR))} {bField : CompiledField}
    (h : updateResolver C module resolvers typeOf bField = .ok bField') : bField'.name = bField.name := by
  obtain ⟨resolved, hresolved, hvalid⟩ := (Valid.andThen_eq_ok _ _ _).mp h
  obtain ⟨_, -, rfl⟩ := (Valid.mapOk_eq_ok _ _ _).mp hresolved
  obtain ⟨_, -, rfl⟩ := (Valid.mapOk_eq_ok _ _ _).mp hvalid
  rfl

variable {compileResolver : Config.Field (withResolvers P B) → Resolver P.Json B → Option (Checked B (Option IR))}

theorem preparedField_name {prepared : CompiledField}
    (h : preparedField C passes module compileResolver field typeOf name = some (.ok prepared)) :
    prepared.name = blueprintName passes field name := by
  obtain ⟨resolvers, -, h⟩ := Option.map_eq_some_iff.mp h
  obtain ⟨resolved, hresolved, hprepared⟩ := (Valid.tryFoldAnd_eq_ok _ _ _ _).mp h
  obtain ⟨start, hargs, hresolver⟩ := (Valid.tryFoldAnd_eq_ok _ _ _ _).mp hresolved
  have hstart : start.name = name := by
    obtain rfl := Except.ok.inj hargs
    rfl
  rw [prepareField_name hprepared, updateResolver_name hresolver, hstart, blueprintName]

theorem toFieldDefinition_parts
    (h : toFieldDefinition (compiler passes C) module objectName compileResolver field typeOf name =
      some (.ok bField)) :
    ∃ prepared guarded,
      preparedField (compiler passes C) passes module compileResolver field typeOf name = some (.ok prepared) ∧
        updateProtected passes module objectName field typeOf prepared = .ok guarded ∧ Dresses guarded bField := by
  obtain ⟨resolvers, hresolvers, h⟩ := Option.map_eq_some_iff.mp h
  obtain ⟨resolved, hresolved, hfinish⟩ := (Valid.tryFoldAnd_eq_ok _ _ _ _).mp h
  obtain ⟨prepared, guarded, hprepared, hguarded, hdressed⟩ := finishField_eq_ok.mp hfinish
  refine ⟨prepared, guarded, ?_, hguarded, discriminateField_dresses hdressed⟩
  rw [preparedField, hresolvers, Option.map_some]
  exact congrArg some ((Valid.tryFoldAnd_eq_ok _ _ _ _).mpr ⟨resolved, hresolved, hprepared⟩)

theorem toField_compiled {C : Compiler P B} {fuel : ℕ}
    (h : toField C module fuel objectName typeOf (name, field) = some (.ok bField)) :
    toFieldDefinition C module objectName
      (FieldCompiler.compileResolver C module (operationTypeOf module objectName) objectName fuel) field typeOf name =
        some (.ok bField) := by
  obtain ⟨result, hresult, h⟩ := Option.map_eq_some_iff.mp h
  have hand : (validateFieldTypeExist module field).and result = .ok bField := by
    simp only at h
    split at h
    · exact (Valid.trace_eq_ok _ _ _).mp h
    · exact h
  obtain ⟨⟨_, found⟩, hzip, rfl⟩ := (Valid.mapOk_eq_ok _ _ _).mp hand
  obtain rfl := ((Valid.zip_eq_ok _ _ _).mp hzip).2
  exact hresult

end Chain

section Strength

variable {P : Payloads} {B : Backends} {passes : Passes P B} {C : Compiler P B} {module : Module P B}
variable {field : Config.Field (withResolvers P B)} {typeOf : TypeDef (withResolvers P B)}
variable {objectName name : String}

theorem finalField_kept {fuel : ℕ} {sdl queryName : String} {bField final : FieldDefinition}
    (hnone : federationOf C module queryName objectName bField.name = none)
    (h : finalField C module fuel sdl queryName objectName bField = some (.ok final)) : final = bField := by
  unfold finalField at h
  unfold federationOf at hnone
  split at h
  next henabled =>
    rw [if_pos henabled] at hnone
    cases htype : module.config.findType queryName with
    | none =>
      rw [htype] at h
      cases h
    | some configType =>
      simp only [htype, Option.bind_some] at h hnone
      unfold federationField at h
      cases hfield : configType.fields.get? bField.name with
      | none =>
        rw [hfield] at h
        cases h
      | some found =>
        simp only [hfield, Option.bind_some] at h hnone
        rw [hnone] at h
        exact (Except.ok.inj (Option.some.inj h)).symm
  next => exact (Except.ok.inj (Option.some.inj h)).symm

variable {auth : Auth} {protection : Protected}

theorem satisfies_of_check {Key σ : Type} {runtime : Runtime Key σ} {auths : List Auth}
    {accessExpr : Option AccessExpr} (hguard : Guarded passes field typeOf auths auth accessExpr)

    (hcovers : Covers passes (guardProviders passes field typeOf) (guardAccess passes field typeOf) protection)
    {ctx : EvalContext} {state state' : RequestState Key σ} {claims : Option ConstValue}
    (hcheck : runCheck runtime auth accessExpr ctx state = (.ok claims, state')) :
    Satisfies passes runtime.texts ctx state'.authClaims protection := by
  obtain ⟨own, hverify, -, -, hrule⟩ := (check_passes_iff _ _ _ _ _ _ _).mp hcheck
  rw [guardAccess_eq hguard] at hrule
  obtain ⟨hrequired, hallowed⟩ := hcovers runtime.texts ctx state'.authClaims hrule
  refine ⟨fun required hr => ?_, hallowed⟩
  obtain ⟨provider, hprovider, rfl⟩ := hrequired required hr
  obtain ⟨own', hown⟩ := (verified_guard hguard).mp ⟨own, hverify⟩ provider hprovider
  exact ⟨provider, own', rfl, hown⟩

def idle (texts : Texts) : Runtime Unit Unit where
  texts := texts
  wire := ⟨fun _ => none, fun _ => [], fun url _ => url, fun _ => none, fun _ => none, fun _ _ => none⟩
  hash _ := ()
  backendKey _ _ _ := none
  cacheGet _ := pure (.ok none)
  cacheSet _ _ _ := pure (.ok ())
  evalIoInner _ _ _ := pure (.ok .null)

def verifiedBy (guard : List Provider) (ctx : EvalContext) : EvalContext :=
  { ctx with requestCtx.verify := fun provider => if provider ∈ guard then .succeed none else .fail .missing }

theorem verify_verifiedBy {guard : List Provider} {ctx : EvalContext} {provider : Provider} {own : Option ConstValue} :
    (verifiedBy guard ctx).requestCtx.verify provider = .succeed own ↔ provider ∈ guard ∧ own = none := by
  by_cases h : provider ∈ guard <;> simp [verifiedBy, h, eq_comm]

theorem evaluate_verifiedBy (texts : Texts) (guard : List Provider) (ctx : EvalContext) (claims : Option ConstValue)
    (expr : AccessExpr) : evaluate texts (verifiedBy guard ctx) claims expr = evaluate texts ctx claims expr := by
  apply evaluate_congr
  rfl

theorem verify_without_claims {request : RequestContext}
    (hnone : ∀ provider own, request.verify provider = .succeed own → own = none) {own : Option ConstValue}
    (h : AuthVerifier.verify request.verify auth = .succeed own) : own = none := by
  induction auth generalizing own with
  | provider provider => exact hnone provider own h
  | and left right ihl ihr =>
    obtain ⟨first, second, hl, hr, rfl⟩ := Verification.and_eq_succeed.mp h
    rw [ihl hl, ihr hr]
    rfl
  | or left right ihl ihr =>
    rcases Verification.or_eq_succeed h with h | h
    · exact ihl h
    · exact ihr h

variable {core : IR}

theorem covers_of_reached {requirements : List Protected} {guard : List Provider} {rule : Option AccessExpr}
    {ir : IR} (h : GuardedBy passes requirements (some ir) core)
    (hreach : ∀ texts ctx claims, rule.all (evaluate texts ctx claims) = true →
      ∃ way way' state state', Starts (idle texts) ⟨way, ir, verifiedBy guard ctx, state⟩
        ⟨way', core, verifiedBy guard ctx, state'⟩ ∧ state'.authClaims = claims)
 (hmem : protection ∈ requirements) : Covers passes guard rule protection := by
  intro texts ctx claims hrule
  obtain ⟨way, way', state, state', hstarts, rfl⟩ := hreach texts ctx claims hrule
  obtain ⟨hverified, hallowed⟩ := h Unit Unit (idle texts) _ _ _ _ _ _ ir rfl hstarts protection hmem
  refine ⟨fun required hr => ?_, fun text ht => ?_⟩
  · obtain ⟨provider, own, rfl, hown⟩ := hverified required hr
    exact ⟨provider, (verify_verifiedBy.mp hown).1, rfl⟩
  · obtain ⟨expr, hparse, heval⟩ := hallowed text ht
    exact ⟨expr, hparse, (evaluate_verifiedBy texts guard ctx state'.authClaims expr) ▸ heval⟩

theorem covers_of_guardedBy {requirements : List Protected} {auths : List Auth}
    {accessExpr : Option AccessExpr} (hguard : Guarded passes field typeOf auths auth accessExpr) {ir : IR}
    (hdressed : Dressed (.protect auth accessExpr core) ir)
    (h : GuardedBy passes requirements (some ir) core) (hmem : protection ∈ requirements) :
    Covers passes (guardProviders passes field typeOf) (guardAccess passes field typeOf) protection := by
  refine covers_of_reached h (fun texts ctx claims hrule => ?_) hmem
  let guard := guardProviders passes field typeOf
  let state : RequestState Unit Unit := ⟨claims, [], (), []⟩
  obtain ⟨way, before, hstarts, hclaims⟩ :=
    dressed_starts (idle texts) hdressed Way.start (verifiedBy guard ctx) state
  obtain ⟨own, hverify⟩ : Verified (verifiedBy guard ctx).requestCtx auth :=
    (verified_guard hguard).mpr fun provider hp => ⟨none, verify_verifiedBy.mpr ⟨hp, rfl⟩⟩
  obtain rfl := verify_without_claims (fun provider own h => (verify_verifiedBy.mp h).2) hverify
  have hcheck : runCheck (idle texts) auth accessExpr (verifiedBy guard ctx) before =
      (.ok before.authClaims, before) := by
    refine (check_passes_iff _ _ _ _ _ _ _).mpr ⟨none, hverify, rfl, rfl, ?_⟩
    have hsame : evaluate (idle texts).texts (verifiedBy guard ctx) state.authClaims = evaluate texts ctx claims :=
      funext (evaluate_verifiedBy texts guard ctx claims)
    rw [guardAccess_eq hguard, hclaims, hsame]
    exact hrule
  exact ⟨Way.start, _, state, before, hstarts.trans (.protect hcheck (.here _)), hclaims⟩

theorem covers_of_unguarded {requirements : List Protected} {ir : IR} (hdressed : Dressed core ir)
    (h : GuardedBy passes requirements (some ir) core) (hmem : protection ∈ requirements) :
    Covers passes [] none protection := by
  refine covers_of_reached h (fun texts ctx claims _ => ?_) hmem
  obtain ⟨way, state', hstarts, hclaims⟩ :=
    dressed_starts (idle texts) hdressed Way.start (verifiedBy [] ctx) ⟨claims, [], (), []⟩
  exact ⟨Way.start, way, _, state', hstarts, hclaims⟩

theorem satisfies_unguarded (h : Covers passes [] none protection) (texts : Texts)
    (ctx : EvalContext) (claims : Option ConstValue) : Satisfies passes texts ctx claims protection := by
  obtain ⟨hrequired, hallowed⟩ := h texts ctx claims rfl
  refine ⟨fun required hr => ?_, hallowed⟩
  obtain ⟨provider, hp, -⟩ := hrequired required hr
  cases hp

theorem requiredProviders_ne_nil (hauth : hasAuth passes = true) (protection : Protected) :
    ∃ required, required ∈ requiredProviders passes protection := by
  unfold requiredProviders
  split
  · exact ⟨_, List.mem_cons_self⟩
  · obtain ⟨provider, hp⟩ := List.exists_mem_of_ne_nil _ (hasAuth_iff.mp hauth)
    exact ⟨_, List.mem_map_of_mem hp⟩

theorem not_covers_unguarded (hauth : hasAuth passes = true) (protection : Protected) :
    ¬ Covers passes [] none protection := by
  intro h
  obtain ⟨required, hr⟩ := requiredProviders_ne_nil hauth protection
  obtain ⟨provider, hp, -⟩ := (h ⟨fun _ => "", fun _ => ""⟩
    (.new ⟨[], [], fun _ => none, fun _ => .fail .missing⟩ .empty) none rfl).1 required hr
  cases hp

theorem guardedBy_iff {fuel : ℕ} {sdl queryName : String} {bField : CompiledField} {final : FieldDefinition}

    (hfield : toField (compiler passes C) module fuel objectName typeOf (name, field) = some (.ok bField))
    (hfinal : finalField (compiler passes C) module fuel sdl queryName objectName bField.toFieldDefinition =
      some (.ok final))
    (hcore : IsCore (compiler passes C) passes module fuel queryName objectName typeOf (name, field) final core) :
    GuardedBy passes (requirements passes module field typeOf) final.resolver core ↔
      ∀ protection ∈ requirements passes module field typeOf,
        federationOf (compiler passes C) module queryName objectName (blueprintName passes field name) = none ∧
          Covers passes (guardProviders passes field typeOf) (guardAccess passes field typeOf) protection := by
  obtain ⟨prepared, guarded, hprepared, hguarded, hdresses⟩ := toFieldDefinition_parts (toField_compiled hfield)
  rcases updateProtected_cases hguarded with ⟨hfree, -⟩ | ⟨hprotected, auths, auth, accessExpr, hguard, rfl⟩
  · have hnil : requirements passes module field typeOf = [] := by
      by_contra hne
      rw [isProtected_iff.mpr hne] at hfree
      cases hfree
    simp [hnil, GuardedBy]
  unfold IsCore at hcore
  cases hfed : federationOf (compiler passes C) module queryName objectName (blueprintName passes field name) with
  | some federation =>
    rw [hfed] at hcore
    simp only [Option.isSome_some, if_true] at hcore
    rw [hcore]
    constructor
    · intro h protection hmem
      exact absurd (covers_of_unguarded (.here core) h hmem) (not_covers_unguarded hguard.hasAuth protection)
    · intro h Key σ runtime way way' ctx ctx' state state' ir hir hstarts protection hmem
      cases (h protection hmem).1
  | none =>
    rw [hfed] at hcore
    simp only [Option.isSome_none, Bool.false_eq_true, if_false] at hcore
    obtain ⟨prepared', hprepared', rfl⟩ := hcore
    obtain rfl : prepared' = prepared := by
      rw [hprepared] at hprepared'
      exact (Except.ok.inj (Option.some.inj hprepared')).symm
    obtain ⟨ir, hir, hdressed⟩ := hdresses.resolved _ rfl
    have hname : bField.name = blueprintName passes field name := by
      rw [hdresses.name, ← preparedField_name hprepared]
      rfl
    have hkept : final.resolver = some ir := by
      rw [finalField_kept (by rw [← hname] at hfed; exact hfed) hfinal]
      exact hir
    rw [hkept]
    constructor
    · exact fun h protection hmem => ⟨rfl, covers_of_guardedBy hguard hdressed h hmem⟩
    · intro h Key σ runtime way way' ctx ctx' state state' ir' hir' hstarts protection hmem
      obtain rfl := Option.some.inj hir'
      obtain ⟨rfl, before, claims, hcheck⟩ := starts_core hdressed hstarts
      exact satisfies_of_check hguard (h protection hmem).2 hcheck

end Strength

section Accepted

variable {P : Payloads} {B : Backends} {passes : Passes P B} {C : Compiler P B} {module required : Module P B}
variable {typeOf : TypeDef (withResolvers P B)} {field : Config.Field (withResolvers P B)}
variable {objectName name : String} {fuel : ℕ} {draft : Draft B}

theorem collected {α β : Type} {items : List α} {f : α → Option (Checked B β)} {results : List (Checked B β)}
    {values : List β} (hresults : Validation.sequence (items.map f) = some results) (hvalues : Valid.collect results = .ok values)
    {item : α} (hitem : item ∈ items) : ∃ value ∈ values, f item = some (.ok value) := by
  rw [(Valid.collect_eq_ok _ _).mp hvalues, sequence_eq_some] at hresults
  have hmem : f item ∈ (values.map Except.ok).map some := hresults ▸ List.mem_map_of_mem hitem
  obtain ⟨_, hok, heq⟩ := List.mem_map.mp hmem
  obtain ⟨value, hvalue, rfl⟩ := List.mem_map.mp hok
  exact ⟨value, hvalue, heq.symm⟩

theorem definitions_of_accepted (hrequired : C.required module = .ok required)
    (h : tryFrom C fuel module = some (.ok draft)) :
    ∃ definitions, toDefinitions C required fuel = some (.ok definitions) := by
  rw [tryFrom, hrequired] at h
  obtain ⟨result, hresult, hok⟩ := Option.map_eq_some_iff.mp h
  obtain ⟨blueprint, rfl, -⟩ := (Valid.andThen_eq_ok _ _ _).mp hok
  obtain ⟨definitions, hdefinitions, hcompiled⟩ := Option.bind_eq_some_iff.mp hresult
  cases hfold : Valid.tryFoldAnd (Valid.tryFoldAnd (C.before required)
    (fun draft => definitions.mapOk fun definitions =>
      { draft with blueprint := { draft.blueprint with definitions := definitions } })) (C.after required)
    (emptyDraft C) with
  | error e =>
    simp only [hfold] at hcompiled
    obtain ⟨federated, -, hfederated⟩ := Option.map_eq_some_iff.mp hcompiled
    obtain ⟨_, hand, -⟩ := (Valid.mapOk_eq_ok _ _ _).mp hfederated
    obtain ⟨_, hzip, -⟩ := (Valid.mapOk_eq_ok _ _ _).mp hand
    cases ((Valid.zip_eq_ok _ _ _).mp hzip).1
  | ok compiled =>
    obtain ⟨_, hset, -⟩ := (Valid.tryFoldAnd_eq_ok _ _ _ _).mp hfold
    obtain ⟨_, -, hset⟩ := (Valid.tryFoldAnd_eq_ok _ _ _ _).mp hset
    obtain ⟨values, rfl, -⟩ := (Valid.mapOk_eq_ok _ _ _).mp hset
    exact ⟨values, hdefinitions⟩

theorem toFields_of_accepted (hrequired : C.required module = .ok required)
    (h : tryFrom C fuel module = some (.ok draft)) (htype : (objectName, typeOf) ∈ required.config.types.entries)
    (hscalar : typeOf.scalar = false) :
    ∃ fields addedFields, Validation.sequence ((typeOf.fields.entries.filter fun field => !isOmitted C field.2).map
        (toField C required fuel objectName typeOf)) = some fields ∧
      Validation.sequence (typeOf.addedFields.map (toAddedField C required fuel objectName typeOf)) = some addedFields ∧
      (∃ values, Valid.collect fields = .ok values) ∧ ∃ values, Valid.collect addedFields = .ok values := by
  obtain ⟨definitions, hdefinitions⟩ := definitions_of_accepted hrequired h
  obtain ⟨types, htypes, hzip⟩ := Option.map_eq_some_iff.mp hdefinitions
  obtain ⟨⟨_, _⟩, hzip, -⟩ := (Valid.mapOk_eq_ok _ _ _).mp hzip
  obtain ⟨values, hvalues, -⟩ := (Valid.mapOk_eq_ok _ _ _).mp ((Valid.zip_eq_ok _ _ _).mp hzip).1
  obtain ⟨definition, -, hdefinition⟩ := collected htypes hvalues htype
  rw [toDefinition, hscalar] at hdefinition
  obtain ⟨result, hresult, htrace⟩ := Option.map_eq_some_iff.mp hdefinition
  obtain ⟨fields, hfields, -⟩ := (Valid.mapOk_eq_ok _ _ _).mp ((Valid.trace_eq_ok _ _ _).mp htrace)
  obtain ⟨own, hown, hrest⟩ := Option.bind_eq_some_iff.mp hresult
  obtain ⟨added, hadded, rfl⟩ := Option.map_eq_some_iff.mp hrest
  obtain ⟨⟨ownValues, addedValues⟩, hboth, -⟩ := (Valid.mapOk_eq_ok _ _ _).mp hfields
  obtain ⟨hownValues, haddedValues⟩ := (Valid.zip_eq_ok _ _ _).mp hboth
  exact ⟨own, added, hown, hadded, ⟨ownValues, hownValues⟩, addedValues, haddedValues⟩

theorem toField_of_accepted (hrequired : C.required module = .ok required)
    (h : tryFrom C fuel module = some (.ok draft)) (htype : (objectName, typeOf) ∈ required.config.types.entries)
    (hscalar : typeOf.scalar = false) (hfield : (name, field) ∈ typeOf.fields.entries)
    (homitted : isOmitted C field = false) :
    ∃ bField, toField C required fuel objectName typeOf (name, field) = some (.ok bField) := by
  obtain ⟨fields, _, hfields, -, ⟨values, hvalues⟩, -⟩ := toFields_of_accepted hrequired h htype hscalar
  have hmem : (name, field) ∈ typeOf.fields.entries.filter fun field => !isOmitted C field.2 :=
    List.mem_filter.mpr ⟨hfield, by simp [homitted]⟩
  obtain ⟨bField, -, hbField⟩ := collected hfields hvalues hmem
  exact ⟨bField, hbField⟩

/-- The checks of a field keep out every request that does not meet all of its protections if and only if
the providers and the rule that the field's own check takes from them cover each of the protections, and no
federation resolver takes the place of the checked one. -/
theorem guard_strong_iff (hrequired : C.required module = .ok required)
    (h : tryFrom (compiler passes C) fuel module = some (.ok draft))
    (htype : (objectName, typeOf) ∈ required.config.types.entries) (hscalar : typeOf.scalar = false)
    (hfield : (name, field) ∈ typeOf.fields.entries) (homitted : isOmitted C field = false) :
    ∃ bField, toField (compiler passes C) required fuel objectName typeOf (name, field) = some (.ok bField) ∧
      ∀ sdl queryName final core,
        finalField (compiler passes C) required fuel sdl queryName objectName bField.toFieldDefinition =
          some (.ok final) →
        IsCore (compiler passes C) passes required fuel queryName objectName typeOf (name, field) final core →
          (GuardedBy passes (requirements passes required field typeOf) final.resolver core ↔
            ∀ protection ∈ requirements passes required field typeOf,
              federationOf (compiler passes C) required queryName objectName (blueprintName passes field name) =
                none ∧
              Covers passes (guardProviders passes field typeOf) (guardAccess passes field typeOf) protection) := by
  obtain ⟨bField, hbField⟩ := toField_of_accepted (C := compiler passes C) hrequired h htype hscalar hfield homitted
  exact ⟨bField, hbField, fun _ _ _ _ hfinal hcore => guardedBy_iff hbField hfinal hcore⟩

end Accepted

def secretPayloads : Payloads :=
  { plain with Protected := Protected, AddField := AddField }

def bare : Backends := ⟨Unit, Unit, Unit, PassError, Unit⟩

def simpleCompiler (B : Backends) (emptyRest : B.Rest) : Compiler secretPayloads B where
  pool := ⟨0, Fin.elim0⟩
  toCamel name := name
  defaultOf _ := .null
  modifyOmits _ := false
  authId p := p.id.map List.toFinset
  addField added := added
  enableFederation _ := false
  required := .ok
  stepArgs _ := .ok default
  grpcOperation _ := Valid.fail .queryTypeNotObject
  isA _ _ _ := .ok ()
  grpcResolver _ _ _ _ := .ok default
  exprValue _ := .ok default
  toConst _ := .ok .null
  validate _ _ := .ok ()
  otherResolver _ _ _ _ := .ok (.io (.js "secret"))
  validateField _ _ _ := .ok ()
  finishField _ _ _ _ _ := .ok
  resolverFromPath _ _ _ _ _ := .ok
  before _ := .ok
  after _ := .ok
  serviceSdl _ := ""
  finish draft := draft
  schemaBuilder _ := .ok ()
  emptyRest := emptyRest

def secretCompiler : Compiler secretPayloads bare :=
  simpleCompiler bare ()

def simplePasses (B : Backends) (error : PassError → B.Error) : Passes secretPayloads B where
  maxAge _ := ⟨1, by decide⟩
  protection p := p
  modifyName _ := none
  discriminateField _ := "type"
  parse _ := .error ""
  htpasswd := [⟨some "staff", "staff.htpasswd"⟩, ⟨some "admin", "admin.htpasswd"⟩]
  jwks := []
  directiveName _ := "js"
  isDigit := Char.isDigit
  error := error

def secretPasses : Passes secretPayloads bare :=
  simplePasses bare id

def secretField (id : Option (List String)) : Config.Field (withResolvers secretPayloads bare) :=
  { (fakeField "Secret" : Config.Field (withResolvers secretPayloads bare)) with
    protectedBy := id.map fun id => ⟨some id, none⟩
    resolvers := [.other ()] }

def secretType (fields : Dict (Config.Field (withResolvers secretPayloads bare))) (id : Option (List String)) :
    TypeDef (withResolvers secretPayloads bare) where
  fields := fields
  addedFields := []
  doc := none
  implements := ⟨[], List.nodup_nil⟩
  cache := none
  protectedBy := id.map fun id => ⟨some id, none⟩
  resolvers := []
  directives := []

def queryOf (id : Option (List String)) : TypeDef (withResolvers secretPayloads bare) :=
  secretType ⟨[("secret", secretField id)], by simp⟩ none

def secrets (id : Option (List String)) : Module secretPayloads bare where
  config :=
    { server := ()
      upstream := ()
      schema := ⟨some "Query", none, none⟩
      types := ⟨[("Query", queryOf id),
        ("Secret", secretType ⟨[("text", fakeField "String")], by simp⟩ (some ["admin"]))], by simp⟩
      unions := Dict.empty
      enums := Dict.empty
      links := []
      telemetry := () }
  inputTypes := ∅
  outputTypes := {"Query", "Secret"}
  interfacesTypesMap := Dict.empty

theorem guard_strong_admin :
    ∃ bField, toField (compiler secretPasses secretCompiler) (secrets none) 1 "Query" (queryOf none)
        ("secret", secretField none) = some (.ok bField) ∧
      ∀ sdl queryName final core,
        finalField (compiler secretPasses secretCompiler) (secrets none) 1 sdl queryName "Query"
          bField.toFieldDefinition = some (.ok final) →
        IsCore (compiler secretPasses secretCompiler) secretPasses (secrets none) 1 queryName "Query" (queryOf none)
          ("secret", secretField none) final core →
          (GuardedBy secretPasses (requirements secretPasses (secrets none) (secretField none) (queryOf none))
              final.resolver core ↔
            ∀ protection ∈ requirements secretPasses (secrets none) (secretField none) (queryOf none),
              federationOf (compiler secretPasses secretCompiler) (secrets none) queryName "Query"
                (blueprintName secretPasses (secretField none) "secret") = none ∧
              Covers secretPasses (guardProviders secretPasses (secretField none) (queryOf none))
                (guardAccess secretPasses (secretField none) (queryOf none)) protection) := by
  have hrequired : secretCompiler.required (secrets none) = .ok (secrets none) := rfl
  obtain ⟨draft, haccepted⟩ : ∃ draft, tryFrom (compiler secretPasses secretCompiler) 1 (secrets none) =
      some (.ok draft) := ⟨⟨⟨_, ⟨"", none, none⟩⟩, ()⟩, rfl⟩
  exact guard_strong_iff hrequired haccepted (by simp [secrets]) rfl (by simp [queryOf, secretType]) rfl

theorem outputProtection_dropped :
    (∃ draft, tryFrom (compiler secretPasses secretCompiler) 1 (secrets (some ["staff"])) = some (.ok draft)) ∧
      ∃ bField core, toField (compiler secretPasses secretCompiler) (secrets (some ["staff"])) 1 "Query"
          (queryOf (some ["staff"])) ("secret", secretField (some ["staff"])) = some (.ok bField) ∧
        IsCore (compiler secretPasses secretCompiler) secretPasses (secrets (some ["staff"])) 1 "Query" "Query"
          (queryOf (some ["staff"])) ("secret", secretField (some ["staff"])) bField.toFieldDefinition core ∧
        ¬ GuardedBy secretPasses
          (requirements secretPasses (secrets (some ["staff"])) (secretField (some ["staff"]))
            (queryOf (some ["staff"]))) bField.resolver core := by
  refine ⟨⟨⟨⟨_, ⟨"", none, none⟩⟩, ()⟩, rfl⟩, _, .io (.js "secret"), rfl, ?_, ?_⟩
  · rw [IsCore, if_neg (by decide)]
    exact ⟨_, rfl, rfl⟩
  · intro h
    have hguard : Guarded secretPasses (secretField (some ["staff"])) (queryOf (some ["staff"]))
        [.provider (.basic "staff.htpasswd")] (.provider (.basic "staff.htpasswd")) none := ⟨rfl, rfl, rfl, rfl⟩
    have hmem : (⟨some ["admin"], none⟩ : Protected) ∈ requirements secretPasses (secrets (some ["staff"]))
        (secretField (some ["staff"])) (queryOf (some ["staff"])) :=
      List.mem_append_right _ (List.mem_singleton_self _)
    have hcovers := covers_of_guardedBy hguard (.here _) h hmem
    obtain ⟨hrequired, -⟩ := hcovers ⟨fun _ => "", fun _ => ""⟩
      (.new ⟨[], [], fun _ => none, fun _ => .fail .missing⟩ .empty) none rfl
    obtain ⟨provider, hprovider, heq⟩ := hrequired (some (.basic "admin.htpasswd")) (List.mem_singleton_self _)
    obtain rfl := Option.some.inj heq
    have honly : guardProviders secretPasses (secretField (some ["staff"])) (queryOf (some ["staff"])) =
        [.basic "staff.htpasswd"] := rfl
    rw [honly] at hprovider
    exact absurd hprovider (by decide)

end Gqlforge.GuardedFields
