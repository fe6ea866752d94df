import Gqlforge.AddedReads

namespace Gqlforge.KeptValues

open Json Errors Resolvers Schema Config Validation FieldCompiler FieldPasses PassEffects EvalContext Eval EvalStarts
open GuardedFields AddedFields FollowedPaths AddedReads
open PlannedAuth (erase)

section Changes

variable {P : Payloads} {B : Backends} (passes : Passes P B) (module : Module P B)
variable (field : Config.Field (withResolvers P B))

def IsMembers (types : List String) : Prop :=
  (∃ union, module.config.findUnion field.typeOf.name = some union ∧ types = union.types.items) ∨
    ∃ members, module.interfacesTypesMap.get? field.typeOf.name = some members ∧ types = members.sort (· ≤ ·)

inductive Declared : (ConstValue → Except EvalError ConstValue) → Prop where
  | kept : Declared .ok
  | mapped {change : ConstValue → Except EvalError ConstValue} {enum : Enum} :
      Declared change → module.config.findEnum field.typeOf.name = some enum →
      Declared fun value => change value >>= mapEnum (aliasMap enum).entries
  | discriminated {change : ConstValue → Except EvalError ConstValue} {types : List String}
      {discriminator : Discriminator} :
      Declared change → IsMembers module field types →
      newDiscriminator passes field.typeOf.name types (field.discriminate.map passes.discriminateField) =
        .ok discriminator →
      Declared fun value => change value >>= fun value => (resolveType discriminator value).mapError EvalError.io

def yielded {Key σ : Type} [DecidableEq Key] (runtime : Runtime Key σ) (way : Way) (ctx : EvalContext)
    (state : RequestState Key σ) (bField : FieldDefinition) : Except EvalError ConstValue :=
  match bField.resolver with
  | none => .ok (((parentValue ctx).bind (·.getKey bField.name)).getD .null)
  | some ir => (Evaluation.run runtime ⟨way, erase ir, ctx, state⟩).1

/-- Whatever object the parent is, the field has the value that the parent holds under a name. -/
def Keeps (name : String) (bField : FieldDefinition) : Prop :=
  ∃ change, Declared passes module field change ∧
    ∀ {Key σ : Type} [DecidableEq Key] (runtime : Runtime Key σ) (way : Way) (ctx : EvalContext)
      (state : RequestState Key σ) (members : Object ConstValue), parentValue ctx = some (.object members) →
        yielded runtime way ctx state bField = change ((members.getKey name).getD .null)

/-- Without its guards the field is a change of what some source gives in the context. -/
def Shows (source : EvalContext → ConstValue) (bField : CompiledField) : Prop :=
  ∃ change, Declared passes module field change ∧
    ∀ {Key σ : Type} [DecidableEq Key] (runtime : Runtime Key σ) (way : Way) (ctx : EvalContext)
      (state : RequestState Key σ),
        (Evaluation.run runtime ⟨way, erase (CompiledField.orContextPath bField), ctx, state⟩).1 = change (source ctx)

def held (name : String) (ctx : EvalContext) : ConstValue :=
  ((parentValue ctx).bind (getPath · [name])).getD .null

variable {passes module field} {change : ConstValue → Except EvalError ConstValue}

theorem Declared.null (h : Declared passes module field change) : change .null = .ok .null := by
  induction h with
  | kept => rfl
  | mapped _ _ ih =>
    simp only [ih]
    rfl
  | discriminated _ _ _ ih =>
    simp only [ih]
    rfl

theorem resolveType_empty (discriminator : Discriminator) :
    ∃ error, resolveType discriminator (.object []) = .error error := by
  cases discriminator <;> exact ⟨_, rfl⟩

/-- An object without members is in the way of every change. -/
theorem Declared.empty {value : ConstValue} (h : Declared passes module field change)
    (hvalue : change (.object []) = .ok value) : value = .object [] := by
  induction h generalizing value with
  | kept => exact (Except.ok.inj hvalue).symm
  | @mapped change _ _ _ ih =>
    cases hfirst : change (.object []) with
    | error error =>
      simp only [hfirst] at hvalue
      cases hvalue
    | ok first =>
      simp only [hfirst, ih hfirst] at hvalue
      cases hvalue
  | @discriminated change _ discriminator _ _ _ ih =>
    cases hfirst : change (.object []) with
    | error error =>
      simp only [hfirst] at hvalue
      cases hvalue
    | ok first =>
      obtain ⟨error, herror⟩ := resolveType_empty discriminator
      simp only [hfirst, ih hfirst] at hvalue
      change (resolveType discriminator (.object [])).mapError EvalError.io = .ok value at hvalue
      rw [herror] at hvalue
      cases hvalue

end Changes

section Passes

variable {P : Payloads} {B : Backends} {passes : Passes P B} {module : Module P B} {C : Compiler P B}
variable {field : Config.Field (withResolvers P B)} {typeOf : TypeDef (withResolvers P B)}
variable {objectName name : String} {bField bField' : CompiledField} {source : EvalContext → ConstValue}

theorem shows_contextPath (h : CompiledField.orContextPath bField = .contextPath [name]) :
    Shows passes module field (held name) bField := by
  refine ⟨.ok, .kept, fun runtime way ctx state => ?_⟩
  rw [h]
  exact run_contextPath runtime way [name] ctx state

theorem shows_const {value : ConstValue} (h : CompiledField.orContextPath bField = .dynamic (.const value)) :
    Shows passes module field (fun _ => value) bField := by
  refine ⟨.ok, .kept, fun runtime way ctx state => ?_⟩
  rw [h]
  rfl

theorem updateProtected_shows (hshows : Shows passes module field source bField)
    (h : updateProtected passes module objectName field typeOf bField = .ok bField') :
    Shows passes module field source bField' := by
  rcases updateProtected_cases h with ⟨-, rfl⟩ | ⟨-, _, _, _, -, rfl⟩
  · exact hshows
  · exact hshows

theorem shows_discriminate {types : List String} {discriminator : Discriminator}
    (hshows : Shows passes module field source bField) (htypes : IsMembers module field types)
    (h : newDiscriminator passes field.typeOf.name types (field.discriminate.map passes.discriminateField) =
      .ok discriminator) : Shows passes module field source (discriminateWith discriminator bField) := by
  obtain ⟨change, hchange, hrun⟩ := hshows
  refine ⟨_, .discriminated hchange htypes h, fun runtime way ctx state => ?_⟩
  rw [← hrun runtime (way.down .below) ctx
    (entering way (.discriminate discriminator (erase (CompiledField.orContextPath bField))) state)]
  exact congrArg Prod.fst (run_below runtime rfl)

theorem updateEnumAlias_shows (hshows : Shows passes module field source bField)
    (h : updateEnumAlias module field bField = .ok bField') : Shows passes module field source bField' := by
  unfold updateEnumAlias at h
  split at h
  next enum henum =>
    split at h
    · obtain rfl := Except.ok.inj h
      cases hresolver : bField.resolver with
      | none =>
        have hnone : bField.mapExpr (fun expr => .map expr (aliasMap enum).entries) = bField := by
          rw [CompiledField.mapExpr, hresolver, Option.map_none, ← hresolver]
        rwa [hnone]
      | some ir =>
        obtain ⟨change, hchange, hrun⟩ := hshows
        refine ⟨_, .mapped hchange henum, fun runtime way ctx state => ?_⟩
        rw [← hrun runtime (way.down .below) ctx (entering way (.map (erase ir) (aliasMap enum).entries) state),
          CompiledField.orContextPath, CompiledField.orContextPath, CompiledField.mapExpr, hresolver]
        exact congrArg Prod.fst (run_below runtime rfl)
    · obtain rfl := Except.ok.inj h
      exact hshows
  next =>
    obtain rfl := Except.ok.inj h
    exact hshows

theorem discriminateField_shows (hshows : Shows passes module field source bField)
    (h : discriminateField passes module field bField = .ok bField') : Shows passes module field source bField' := by
  obtain ⟨second, hsecond, hinterface⟩ := (Valid.tryFoldAnd_eq_ok _ _ _ _).mp h
  obtain ⟨first, henum, hunion⟩ := (Valid.tryFoldAnd_eq_ok _ _ _ _).mp hsecond
  have hfirst := updateEnumAlias_shows hshows henum
  have hsecond : Shows passes module field source second := by
    unfold updateUnionResolver at hunion
    split at hunion
    next union hfound =>
      obtain ⟨discriminator, hnew, rfl⟩ := (Valid.mapOk_eq_ok _ _ _).mp hunion
      exact shows_discriminate hfirst (.inl ⟨union, hfound, rfl⟩) hnew
    next =>
      obtain rfl := Except.ok.inj hunion
      exact hfirst
  unfold updateInterfaceResolver at hinterface
  split at hinterface
  next members hfound =>
    obtain ⟨discriminator, hnew, rfl⟩ := (Valid.mapOk_eq_ok _ _ _).mp hinterface
    exact shows_discriminate hsecond (.inr ⟨members, hfound, rfl⟩) hnew
  next =>
    obtain rfl := Except.ok.inj hinterface
    exact hsecond

theorem orContextPath_wrap (maxAge : NonZeroU64) (bField : CompiledField) :
    CompiledField.orContextPath (bField.mapExpr (IrCaching.wrap maxAge)) =
      IrCaching.wrap maxAge (CompiledField.orContextPath bField) := by
  unfold CompiledField.orContextPath CompiledField.mapExpr
  cases bField.resolver with
  | none => exact (IrCaching.wrap_contextPath maxAge _).symm
  | some ir => rfl

def plainCore (module : Module P B) (field : Config.Field (withResolvers P B)) (name : String) : IR :=
  if resolvesBelow module field then .dynamic (.const (.object [])) else .contextPath [name]

theorem prepareField_core (hplain : field.resolvers = []) (hnone : bField.resolver = none)
    (h : prepareField passes module field typeOf bField = .ok bField') :
    CompiledField.orContextPath bField' = plainCore module field bField.name := by
  obtain ⟨fixed, hfixed, hcached⟩ := (Valid.tryFoldAnd_eq_ok _ _ _ _).mp h
  obtain ⟨renamed, hrenamed, hdangling⟩ := (Valid.tryFoldAnd_eq_ok _ _ _ _).mp hfixed
  have hrenamed : CompiledField.orContextPath renamed = .contextPath [bField.name] := by
    have hstart : CompiledField.orContextPath bField = .contextPath [bField.name] := by
      rw [CompiledField.orContextPath, hnone, Option.getD_none]
    rw [Valid.trace_eq_ok, updateModify] at hrenamed
    split at hrenamed
    · split at hrenamed
      · cases hrenamed
      · obtain rfl := Except.ok.inj hrenamed
        exact hstart
    · obtain rfl := Except.ok.inj hrenamed
      exact hstart
  have hfixed : CompiledField.orContextPath fixed = plainCore module field bField.name := by
    rw [fixDanglingResolvers, hplain, List.isEmpty_nil, Bool.true_and] at hdangling
    rw [plainCore]
    split at hdangling
    next hbelow =>
      obtain rfl := Except.ok.inj hdangling
      rw [if_pos hbelow]
      rfl
    next hbelow =>
      obtain rfl := Except.ok.inj hdangling
      rw [if_neg hbelow, hrenamed]
  unfold updateCacheResolvers at hcached
  split at hcached <;> obtain rfl := Except.ok.inj hcached
  · rw [orContextPath_wrap, hfixed, plainCore]
    split
    · exact IrCaching.wrap_dynamic _ _
    · exact IrCaching.wrap_contextPath _ _
  · exact hfixed

theorem toFieldDefinition_shows {fuel : ℕ} {operationType : OperationType} (hplain : field.resolvers = [])
    (h : toFieldDefinition (compiler passes C) module objectName
      (compileResolver (compiler passes C) module operationType objectName fuel) field typeOf name = some (.ok bField)) :
    Shows passes module field (if resolvesBelow module field then fun _ => .object [] else held name) bField := by
  obtain ⟨resolvers, hresolvers, h⟩ := Option.map_eq_some_iff.mp h
  obtain ⟨resolved, hresolved, hfinish⟩ := (Valid.tryFoldAnd_eq_ok _ _ _ _).mp h
  obtain ⟨start, hstart, hresolver⟩ := (Valid.tryFoldAnd_eq_ok _ _ _ _).mp hresolved
  obtain ⟨prepared, guarded, hprepared, hguarded, hdressed⟩ := finishField_eq_ok.mp hfinish
  have hnone : resolved.resolver = none := by
    obtain ⟨results, hresults, hmerged⟩ := updateResolver_resolver hresolver
    rw [hplain] at hresolvers
    obtain rfl := Option.some.inj hresolvers
    obtain rfl := Except.ok.inj hresults
    exact hmerged
  have hname : resolved.name = name := by
    rw [updateResolver_name hresolver]
    obtain rfl := Except.ok.inj hstart
    rfl
  have hcore := prepareField_core hplain hnone hprepared
  rw [hname, plainCore] at hcore
  refine discriminateField_shows (updateProtected_shows ?_ hguarded) hdressed
  split at hcore <;> rename_i hbelow
  · rw [if_pos hbelow]
    exact shows_const hcore
  · rw [if_neg hbelow]
    exact shows_contextPath hcore

theorem parentValue_requestOn (value : ConstValue) : parentValue (requestOn value) = some value := rfl

theorem yielded_eq {Key σ : Type} [DecidableEq Key] (runtime : Runtime Key σ) (way : Way) (ctx : EvalContext)
    (state : RequestState Key σ) (bField : CompiledField) {members : Object ConstValue}
    (h : parentValue ctx = some (.object members)) :
    yielded runtime way ctx state bField.toFieldDefinition =
      (Evaluation.run runtime ⟨way, erase (CompiledField.orContextPath bField), ctx, state⟩).1 := by
  rw [yielded, CompiledField.orContextPath]
  cases bField.resolver with
  | none =>
    refine Eq.trans ?_ (run_contextPath runtime way [bField.name] ctx state).symm
    rw [h, Option.bind_some, Option.bind_some, getPath_step, step]
    · cases (ConstValue.object members).getKey bField.name <;> rfl
    · intros
      contradiction
  | some ir => rfl

theorem held_eq {ctx : EvalContext} {members : Object ConstValue} (h : parentValue ctx = some (.object members)) :
    held name ctx = (members.getKey name).getD .null := by
  rw [held, h, Option.bind_some, getPath_step, step]
  · change (((members.getKey name).bind (getPath · [])).getD .null) = _
    cases members.getKey name <;> rfl
  · intros
    contradiction

theorem keeps_iff {fuel : ℕ} {operationType : OperationType} (hplain : field.resolvers = [])
    (h : toFieldDefinition (compiler passes C) module objectName
      (compileResolver (compiler passes C) module operationType objectName fuel) field typeOf name = some (.ok bField)) :
    Keeps passes module field name bField.toFieldDefinition ↔ resolvesBelow module field = false := by
  have hshows := toFieldDefinition_shows hplain h
  constructor
  · rintro ⟨change, hchange, hkeeps⟩
    by_contra hbelow
    rw [if_pos (Bool.not_eq_false _ ▸ hbelow)] at hshows
    obtain ⟨other, hother, hrun⟩ := hshows
    have hyielded := hkeeps (idle ⟨fun _ => "", fun _ => ""⟩) .start (requestOn (.object [])) emptyRequest []
      (parentValue_requestOn _)
    rw [yielded_eq _ _ _ _ _ (parentValue_requestOn _), hrun] at hyielded
    cases hother.empty (hyielded.trans hchange.null)
  · intro hbelow
    rw [hbelow, if_neg (by decide)] at hshows
    obtain ⟨change, hchange, hrun⟩ := hshows
    refine ⟨change, hchange, fun runtime way ctx state members hparent => ?_⟩
    rw [yielded_eq _ _ _ _ _ hparent, hrun, held_eq hparent]

/-- A field without a resolver has the value of its parent, whatever it is renamed to and guarded by, unless all
fields below it have resolvers. -/
theorem plain_kept_iff {module required : Module P B} {draft : Draft B} {fuel : ℕ}
    (hrequired : C.required module = .ok required) (h : tryFrom (compiler passes C) fuel module = some (.ok draft))
    (htype : (objectName, typeOf) ∈ required.config.types.entries) (hscalar : typeOf.scalar = false)
    (hfield : (name, field) ∈ typeOf.fields.entries) (homitted : isOmitted C field = false)
    (hplain : field.resolvers = []) :
    ∃ bField, toField (compiler passes C) required fuel objectName typeOf (name, field) = some (.ok bField) ∧
      ∀ sdl queryName final, objectName ≠ queryName →
        finalField (compiler passes C) required fuel sdl queryName objectName bField.toFieldDefinition =
          some (.ok final) →
        (Keeps passes required field name final ↔ resolvesBelow required field = false) := by
  obtain ⟨bField, hbField⟩ := toField_of_accepted (C := compiler passes C) hrequired h htype hscalar hfield homitted
  refine ⟨bField, hbField, fun sdl queryName final hroot hfinal => ?_⟩
  have hnone : federationOf (compiler passes C) required queryName objectName bField.name = none := by
    rw [federationOf, if_neg]
    simp [hroot]
  rw [finalField_kept hnone hfinal]
  exact keeps_iff hplain (toField_compiled hbField)

end Passes

def profileType : TypeDef (withResolvers secretPayloads bare) :=
  secretType ⟨[("profile", plainField "Profile" [] none)], by simp⟩ none

def profiles : Module secretPayloads bare where
  config :=
    { server := ()
      upstream := ()
      schema := ⟨some "Query", none, none⟩
      types := ⟨[
        ("Query", secretType ⟨[("user", plainField "User" [.other ()] none)], (by simp : ["user"].Nodup)⟩ none),
        ("User", profileType),
        ("Profile", secretType ⟨[("bio", plainField "String" [.other ()] none)], by simp⟩ none)], by simp⟩
      unions := Dict.empty
      enums := Dict.empty
      links := []
      telemetry := () }
  inputTypes := ∅
  outputTypes := {"Query", "User", "Profile"}
  interfacesTypesMap := Dict.empty

theorem profiles_accepted : ∃ draft, tryFrom (compiler secretPasses secretCompiler) 1 profiles = some (.ok draft) :=
  ⟨⟨⟨_, ⟨"", none, none⟩⟩, ()⟩, rfl⟩

theorem plain_kept_profile :
    ∃ bField, toField (compiler secretPasses secretCompiler) profiles 1 "User" profileType
        ("profile", plainField "Profile" [] none) = some (.ok bField) ∧
      ∀ sdl queryName final, "User" ≠ queryName →
        finalField (compiler secretPasses secretCompiler) profiles 1 sdl queryName "User" bField.toFieldDefinition =
          some (.ok final) →
        (Keeps secretPasses profiles (plainField "Profile" [] none) "profile" final ↔
          resolvesBelow profiles (plainField "Profile" [] none) = false) := by
  have hrequired : secretCompiler.required profiles = .ok profiles := rfl
  obtain ⟨draft, haccepted⟩ := profiles_accepted
  exact plain_kept_iff hrequired haccepted (by simp [profiles]) rfl (List.mem_singleton_self _) rfl rfl

theorem profile_replaced :
    (∃ draft, tryFrom (compiler secretPasses secretCompiler) 1 profiles = some (.ok draft)) ∧
      ∃ bField, toField (compiler secretPasses secretCompiler) profiles 1 "User" profileType
          ("profile", plainField "Profile" [] none) = some (.ok bField) ∧
        bField.resolver = some (.dynamic (.const (.object []))) ∧
          ¬ Keeps secretPasses profiles (plainField "Profile" [] none) "profile" bField.toFieldDefinition := by
  obtain ⟨bField, hbField, hresolver⟩ : ∃ bField, toField (compiler secretPasses secretCompiler) profiles 1 "User"
      profileType ("profile", plainField "Profile" [] none) = some (.ok bField) ∧
        bField.resolver = some (.dynamic (.const (.object []))) := ⟨_, rfl, rfl⟩
  refine ⟨profiles_accepted, bField, hbField, hresolver, fun hkeeps => ?_⟩
  have hbelow := (keeps_iff rfl (toField_compiled hbField)).mp hkeeps
  exact absurd hbelow (by decide)

end Gqlforge.KeptValues
