import Gqlforge.FieldPasses

namespace Gqlforge.PassEffects

open Resolvers Config Validation FieldCompiler FieldPasses IrCaching

/-- `Dressed ir ir'`: the second resolver is the first one with steps after it that only change its value. -/
inductive Dressed : IR → IR → Prop where
  | here (ir : IR) : Dressed ir ir
  | path {ir ir' : IR} {path : List String} : Dressed ir ir' → Dressed ir (.path ir' path)
  | map {ir ir' : IR} {map : List (String × String)} : Dressed ir ir' → Dressed ir (.map ir' map)
  | discriminate {ir ir' : IR} {discriminator : Discriminator} :
      Dressed ir ir' → Dressed ir (.discriminate discriminator ir')

theorem Dressed.trans {ir ir' ir'' : IR} (h : Dressed ir ir') (h' : Dressed ir' ir'') : Dressed ir ir'' := by
  induction h' with
  | here => exact h
  | path _ ih => exact .path ih
  | map _ ih => exact .map ih
  | discriminate _ ih => exact .discriminate ih

theorem requests_dressed {ir ir' : IR} (h : Dressed ir ir') : requests ir' = requests ir := by
  induction h with
  | here => rfl
  | path _ ih => rw [requests, ih]
  | map _ ih => rw [requests, ih]
  | discriminate _ ih => rw [requests, ih]

structure Dresses (bField bField' : CompiledField) : Prop where
  name : bField'.name = bField.name
  resolved : ∀ ir, bField.resolver = some ir → ∃ ir', bField'.resolver = some ir' ∧ Dressed ir ir'
  unresolved : bField.resolver = none → ∀ ir', bField'.resolver = some ir' → Dressed (.contextPath [bField.name]) ir'

theorem Dresses.rfl (bField : CompiledField) : Dresses bField bField where
  name := Eq.refl _
  resolved := fun ir h => ⟨ir, h, .here ir⟩
  unresolved := fun hnone ir' h => by rw [hnone] at h; cases h

theorem Dresses.trans {bField bField' bField'' : CompiledField} (h : Dresses bField bField')
    (h' : Dresses bField' bField'') : Dresses bField bField'' where
  name := h'.name.trans h.name
  resolved := by
    intro ir hir
    obtain ⟨ir', hir', hd⟩ := h.resolved ir hir
    obtain ⟨ir'', hir'', hd'⟩ := h'.resolved ir' hir'
    exact ⟨ir'', hir'', hd.trans hd'⟩
  unresolved := by
    intro hnone ir'' hir''
    cases hres : bField'.resolver with
    | none => exact h.name ▸ h'.unresolved hres ir'' hir''
    | some ir' =>
      obtain ⟨found, hfound, hd'⟩ := h'.resolved ir' hres
      obtain rfl : found = ir'' := Option.some.inj (hfound.symm.trans hir'')
      exact (h.unresolved hnone ir' hres).trans hd'

theorem Dresses.orContextPath {bField bField' : CompiledField} (h : Dresses bField bField') {ir : IR}
    (hir : bField'.resolver = some ir) : Dressed (CompiledField.orContextPath bField) ir := by
  unfold CompiledField.orContextPath
  cases hres : bField.resolver with
  | none => exact h.unresolved hres ir hir
  | some resolver =>
    obtain ⟨found, hfound, hdressed⟩ := h.resolved resolver hres
    obtain rfl : found = ir := Option.some.inj (hfound.symm.trans hir)
    exact hdressed

theorem dresses_map (bField : CompiledField) (map : List (String × String)) :
    Dresses bField (bField.mapExpr fun expr => .map expr map) where
  name := Eq.refl _
  resolved := fun ir h => ⟨.map ir map, by simp [CompiledField.mapExpr, h], .map (.here ir)⟩
  unresolved := fun hnone ir' h => by simp [CompiledField.mapExpr, hnone] at h

theorem dresses_discriminate (bField : CompiledField) (discriminator : Discriminator) :
    Dresses bField (discriminateWith discriminator bField) where
  name := Eq.refl _
  resolved := fun ir h =>
    ⟨.discriminate discriminator ir,
      by simp [discriminateWith, CompiledField.withResolver, CompiledField.orContextPath, h],
      .discriminate (.here ir)⟩
  unresolved := fun hnone ir' h => by
    obtain rfl : IR.discriminate discriminator (.contextPath [bField.name]) = ir' := by
      simpa [discriminateWith, CompiledField.withResolver, CompiledField.orContextPath, hnone] using h
    exact .discriminate (.here _)

variable {P : Payloads} {B : Backends} {passes : Passes P B} {module : Module P B}
variable {field : Config.Field (withResolvers P B)} {typeOf : TypeDef (withResolvers P B)} {objectName : String}
variable {bField bField' : CompiledField}

theorem updateEnumAlias_dresses (h : updateEnumAlias module field bField = .ok bField') : Dresses bField bField' := by
  unfold updateEnumAlias at h
  split at h
  · split at h
    · obtain rfl := Except.ok.inj h
      exact dresses_map bField _
    · obtain rfl := Except.ok.inj h
      exact .rfl bField
  · obtain rfl := Except.ok.inj h
    exact .rfl bField

theorem updateUnionResolver_dresses (h : updateUnionResolver passes module field bField = .ok bField') :
    Dresses bField bField' := by
  unfold updateUnionResolver at h
  split at h
  · obtain ⟨discriminator, -, rfl⟩ := (Valid.mapOk_eq_ok _ _ _).mp h
    exact dresses_discriminate bField discriminator
  · obtain rfl := Except.ok.inj h
    exact .rfl bField

theorem updateInterfaceResolver_dresses (h : updateInterfaceResolver passes module field bField = .ok bField') :
    Dresses bField bField' := by
  unfold updateInterfaceResolver at h
  split at h
  · obtain ⟨discriminator, -, rfl⟩ := (Valid.mapOk_eq_ok _ _ _).mp h
    exact dresses_discriminate bField discriminator
  · obtain rfl := Except.ok.inj h
    exact .rfl bField

theorem discriminateField_dresses (h : discriminateField passes module field bField = .ok bField') :
    Dresses bField bField' := by
  obtain ⟨second, hsecond, hinterface⟩ := (Valid.tryFoldAnd_eq_ok _ _ _ _).mp h
  obtain ⟨first, henum, hunion⟩ := (Valid.tryFoldAnd_eq_ok _ _ _ _).mp hsecond
  have hdressed := (updateEnumAlias_dresses henum).trans (updateUnionResolver_dresses hunion)
  exact hdressed.trans (updateInterfaceResolver_dresses hinterface)

theorem finishField_eq_ok :
    finishField passes module field typeOf objectName bField = .ok bField' ↔
      ∃ prepared guarded, prepareField passes module field typeOf bField = .ok prepared ∧
        updateProtected passes module objectName field typeOf prepared = .ok guarded ∧
        discriminateField passes module field guarded = .ok bField' := by
  simp only [finishField, Valid.tryFoldAnd_eq_ok, Valid.trace_eq_ok]
  constructor
  · rintro ⟨guarded, ⟨prepared, hprepared, hguarded⟩, h⟩
    exact ⟨prepared, guarded, hprepared, hguarded, h⟩
  · rintro ⟨prepared, guarded, hprepared, hguarded, h⟩
    exact ⟨guarded, ⟨prepared, hprepared, hguarded⟩, h⟩

theorem hasAuth_iff : hasAuth passes = true ↔ fromConfig passes ≠ [] := by
  unfold hasAuth fromConfig
  cases passes.htpasswd <;> cases passes.jwks <;> simp

theorem reduceAnd_isSome {auths : List Auth} (h : auths ≠ []) : ∃ auth, reduceAnd auths = some auth := by
  cases auths with
  | nil => exact absurd rfl h
  | cons auth rest => exact ⟨_, rfl⟩

theorem authFromConfig_isSome (h : hasAuth passes = true) : ∃ auth, authFromConfig passes = some auth := by
  apply reduceAnd_isSome
  simpa using hasAuth_iff.mp h

structure Guarded (passes : Passes P B) (field : Config.Field (withResolvers P B)) (typeOf : TypeDef (withResolvers P B))
    (auths : List Auth) (auth : Auth) (accessExpr : Option AccessExpr) : Prop where
  hasAuth : hasAuth passes = true
  parsed : parseExpr passes (guardExpr passes field typeOf) = .ok accessExpr
  found : Valid.fromIter (guardIds passes field typeOf) (providerOf passes) = .ok auths
  reduced : (reduceAnd auths).or (authFromConfig passes) = some auth

theorem updateProtected_cases (h : updateProtected passes module objectName field typeOf bField = .ok bField') :
    (isProtected passes module field typeOf = false ∧ bField' = bField) ∨
      (isProtected passes module field typeOf = true ∧ ∃ auths auth accessExpr,
        Guarded passes field typeOf auths auth accessExpr ∧
          bField' = bField.withResolver
            (some (.protect auth accessExpr (CompiledField.orContextPath bField)))) := by
  unfold updateProtected at h
  cases hprotected : isProtected passes module field typeOf with
  | false =>
    rw [if_neg (by simp [hprotected])] at h
    exact .inl ⟨rfl, (Except.ok.inj h).symm⟩
  | true =>
    rw [if_pos hprotected] at h
    split at h
    · cases h
    · cases hauth : hasAuth passes with
      | false => simp [hauth, Passes.fail, Valid.fail] at h
      | true =>
        rw [if_neg (by simp [hauth])] at h
        obtain ⟨accessExpr, hexpr, h⟩ := (Valid.andThen_eq_ok _ _ _).mp h
        obtain ⟨auths, hauths, rfl⟩ := (Valid.mapOk_eq_ok _ _ _).mp h
        obtain ⟨all, hall⟩ := authFromConfig_isSome hauth
        have hsome : ∃ auth, (reduceAnd auths).or (authFromConfig passes) = some auth := by
          cases reduceAnd auths with
          | none => exact ⟨all, by simp [hall]⟩
          | some auth => exact ⟨auth, by simp⟩
        obtain ⟨auth, hauth'⟩ := hsome
        refine .inr ⟨rfl, auths, auth, accessExpr, ⟨hauth, hexpr, hauths, hauth'⟩, ?_⟩
        rw [hauth', protectWith]

end Gqlforge.PassEffects
