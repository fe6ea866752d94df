import Gqlforge.GuardedFields

namespace Gqlforge.CachedFields

open Resolvers Schema Config Validation FieldCompiler FieldPasses IrCaching PassEffects

def fieldsOf : Definition → List FieldDefinition
  | .object _ fields _ => fields
  | .interface _ fields _ => fields
  | _ => []

section Fields

variable {P : Payloads} {B : Backends} {passes : Passes P B} {module : Module P B}
variable {field : Config.Field (withResolvers P B)} {typeOf : TypeDef (withResolvers P B)} {objectName : String}

def CachedFor (maxAge : NonZeroU64) (resolver : Option IR) : Prop :=
  ∀ ir, resolver = some ir → ∀ request ∈ requests ir, request.1 = [maxAge]

theorem cachedFor_wrap (maxAge : NonZeroU64) (resolver : Option IR) :
    CachedFor maxAge (resolver.map (wrap maxAge)) := by
  intro ir hir request hrequest
  obtain ⟨expr, -, rfl⟩ := Option.map_eq_some_iff.mp hir
  rw [requests_wrap, List.mem_map] at hrequest
  obtain ⟨_, -, rfl⟩ := hrequest
  rfl

variable {maxAge : NonZeroU64} {bField : CompiledField}

theorem cachedFor_orContextPath
    (h : CachedFor maxAge bField.resolver) : CachedFor maxAge (some (CompiledField.orContextPath bField)) := by
  intro ir hir request hrequest
  obtain rfl := Option.some.inj hir
  cases hres : bField.resolver with
  | none => simp [CompiledField.orContextPath, hres, requests] at hrequest
  | some ir =>
    simp only [CompiledField.orContextPath, hres, Option.getD_some] at hrequest
    exact h ir hres request hrequest

variable {bField' : CompiledField}

theorem cachedFor_updateProtected (hcached : CachedFor maxAge bField.resolver)
    (h : updateProtected passes module objectName field typeOf bField = .ok bField') :
    CachedFor maxAge bField'.resolver := by
  rcases updateProtected_cases h with ⟨-, rfl⟩ | ⟨-, auths, auth, accessExpr, -, rfl⟩
  · exact hcached
  · intro ir hir request hrequest
    obtain rfl : IR.protect auth accessExpr (CompiledField.orContextPath bField) = ir := by
      simpa [CompiledField.withResolver] using hir
    rw [requests] at hrequest
    exact cachedFor_orContextPath hcached _ rfl request hrequest

theorem cachedFor_dresses (hcached : CachedFor maxAge bField.resolver) (h : Dresses bField bField') :
    CachedFor maxAge bField'.resolver := by
  intro ir' hir' request hrequest
  cases hres : bField.resolver with
  | none =>
    rw [requests_dressed (h.unresolved hres ir' hir'), requests] at hrequest
    cases hrequest
  | some ir =>
    obtain ⟨found, hfound, hdressed⟩ := h.resolved ir hres
    obtain rfl : found = ir' := Option.some.inj (hfound.symm.trans hir')
    rw [requests_dressed hdressed] at hrequest
    exact hcached ir hres request hrequest

/-- In what is compiled for a field under a cache directive every request is cached for just its max age. -/
theorem finishField_cached (hage : cacheOf passes field typeOf = some maxAge)
    (h : finishField passes module field typeOf objectName bField = .ok bField') :
    CachedFor maxAge bField'.resolver := by
  obtain ⟨prepared, guarded, hprepared, hguarded, hdressed⟩ := finishField_eq_ok.mp h
  obtain ⟨fixed, -, hcached⟩ := (Valid.tryFoldAnd_eq_ok _ _ _ _).mp hprepared
  have hwrapped : CachedFor maxAge prepared.resolver := by
    rw [updateCacheResolvers, hage] at hcached
    obtain rfl := Except.ok.inj hcached
    exact cachedFor_wrap maxAge fixed.resolver
  exact cachedFor_dresses (cachedFor_updateProtected hwrapped hguarded) (discriminateField_dresses hdressed)

end Fields

open GuardedFields in
theorem finishField_cached_secret : ∃ bField', finishField secretPasses (secrets none)
    { secretField none with cache := some () } (queryOf none) "Query"
      ⟨⟨"secret", [], .named "Secret" false, some (.io (.js "secret"))⟩, none⟩ = .ok bField' ∧
    CachedFor (secretPasses.maxAge ()) bField'.resolver :=
  Exists.imp (fun _ h => ⟨h, finishField_cached rfl h⟩) ⟨_, rfl⟩

theorem caches_enclose_no_check (maxAge : NonZeroU64) (expr : IR) :
    (∀ (P : Payloads) (B : Backends) (passes : Passes P B) (C : Compiler P B) (module : Module P B) (fuel : ℕ)
      (draft : Draft B), tryFrom (compiler passes C) fuel module = some (.ok draft) →
        ∀ definition ∈ draft.blueprint.definitions, ∀ bField ∈ fieldsOf definition, ∀ ir ∈ bField.resolver,
          ∀ cache auth accessExpr protectedExpr, Within (.cache cache) ir →
            ¬ Within (.protect auth accessExpr protectedExpr) (.cache cache)) ∧
      requests (wrap maxAge expr) = (requests expr).map (under maxAge) ∧
      uncached (wrap maxAge expr) = uncached expr ∧
      ∀ earlier, wrap maxAge (wrap earlier expr) = wrap maxAge expr := by
  refine ⟨?_, requests_wrap maxAge expr, uncached_wrap maxAge expr, fun earlier => wrap_wrap maxAge earlier expr⟩
  intro _ _ _ _ _ _ _ _ _ _ _ _ _ _ cache auth accessExpr protectedExpr _
  exact not_within_cache auth accessExpr protectedExpr cache

end Gqlforge.CachedFields
