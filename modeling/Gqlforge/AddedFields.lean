import Gqlforge.GuardedFields

namespace Gqlforge.AddedFields

open Resolvers Config Validation FieldCompiler FieldPasses PassEffects
open GuardedFields

section Paths

variable {P : Payloads} {B : Backends} (passes : Passes P B) (module : Module P B)

def hopsFrom (field : Config.Field (withResolvers P B)) :
    List String → List (Config.Field (withResolvers P B) × TypeDef (withResolvers P B))
  | [] => []
  | segment :: rest =>
    if isUsize segment then hopsFrom field rest
    else match module.config.findType field.typeOf.name with
      | none => []
      | some type => match type.fields.get? segment with
        | none => []
        | some next => (next, type) :: hopsFrom next rest

def hopProtections (hop : Config.Field (withResolvers P B) × TypeDef (withResolvers P B)) : List Protected :=
  (fieldProtection passes hop.1).toList ++ (typeProtection passes hop.2).toList

def pathRequirements (source : Config.Field (withResolvers P B)) (typeOf : TypeDef (withResolvers P B))
    (rest : List String) : List Protected :=
  ((source, typeOf) :: hopsFrom module source rest).flatMap (hopProtections passes)

def sourceGuard (source : Config.Field (withResolvers P B)) (typeOf : TypeDef (withResolvers P B)) :
    List Provider × Option AccessExpr :=
  if isProtected passes module source typeOf then
    (guardProviders passes source typeOf, guardAccess passes source typeOf)
  else ([], none)

/-- What the path of an added field is read from: the value of the parent, or the resolver of its first field. -/
inductive ReadsFrom (C : Compiler P B) (fuel : ℕ) (objectName : String) (typeOf : TypeDef (withResolvers P B))
    (source : Config.Field (withResolvers P B)) (name : String) (resolver : Option IR) : IR → Prop where
  | parent (path : List String) : resolver = some (.contextPath path) →
      ReadsFrom C fuel objectName typeOf source name resolver (.contextPath path)
  | source (prepared : CompiledField) : (∀ path, resolver ≠ some (.contextPath path)) →
      preparedField C passes module (compileResolver C module (operationTypeOf module objectName) objectName fuel)
        source typeOf name = some (.ok prepared) →
      ReadsFrom C fuel objectName typeOf source name resolver (CompiledField.orContextPath prepared)

end Paths

variable {P : Payloads} {B : Backends} {passes : Passes P B} {C : Compiler P B} {module required : Module P B}
variable {typeOf : TypeDef (withResolvers P B)} {source : Config.Field (withResolvers P B)}
variable {objectName first : String} {rest : List String} {fuel : ℕ} {draft : Draft B}

theorem updateResolverFromPath_resolver {path originalPath : List String} {base bField : CompiledField}
    (h : updateResolverFromPath passes module path source typeOf originalPath base = .ok bField) :
    bField.resolver = some (match base.resolver with
      | none => .contextPath path
      | some resolver => .path resolver path) := by
  obtain ⟨_, -, rfl⟩ := (Valid.mapOk_eq_ok _ _ _).mp h
  rfl

theorem toAddedField_parts {added : P.AddField} {bField : CompiledField} (hpath : (C.addField added).path = first :: rest)
    (hsource : typeOf.fields.get? first = some source)
    (h : toAddedField (compiler passes C) module fuel objectName typeOf added = some (.ok bField)) :
    ∃ prepared guarded base path,
      preparedField (compiler passes C) passes module
        (compileResolver (compiler passes C) module (operationTypeOf module objectName) objectName fuel)
        source typeOf (C.addField added).name = some (.ok prepared) ∧
        updateProtected passes module objectName source typeOf prepared = .ok guarded ∧ Dresses guarded base ∧
        bField.resolver = some (match base.resolver with
          | none => .contextPath path
          | some resolver => .path resolver path) := by
  have hpath' : ((compiler passes C).addField added).path = first :: rest := hpath
  rw [toAddedField, hpath'] at h
  simp only [hsource] at h
  obtain ⟨result, hresult, htrace⟩ := Option.map_eq_some_iff.mp h
  obtain ⟨base, rfl, hbase⟩ := (Valid.andThen_eq_ok _ _ _).mp ((Valid.trace_eq_ok _ _ _).mp htrace)
  obtain ⟨prepared, guarded, hprepared, hguarded, hdresses⟩ := toFieldDefinition_parts hresult
  exact ⟨prepared, guarded, base, _, hprepared, hguarded, hdresses, updateResolverFromPath_resolver hbase⟩

theorem guardedBy_path_iff {added : P.AddField} {bField : CompiledField} {core : IR}
    (hpath : (C.addField added).path = first :: rest) (hsource : typeOf.fields.get? first = some source)
    (h : toAddedField (compiler passes C) module fuel objectName typeOf added = some (.ok bField))
    (hcore : ReadsFrom passes module (compiler passes C) fuel objectName typeOf source (C.addField added).name
      bField.resolver core) (requirements : List Protected) :
    GuardedBy passes requirements bField.resolver core ↔
      ∀ protection ∈ requirements,
        Covers passes (sourceGuard passes module source typeOf).1 (sourceGuard passes module source typeOf).2
          protection := by
  obtain ⟨prepared, guarded, base, path, hprepared, hguarded, hdresses, hresolver⟩ := toAddedField_parts hpath hsource h
  unfold sourceGuard
  rcases updateProtected_cases hguarded with ⟨hfree, rfl⟩ | ⟨hprotected, auths, auth, accessExpr, hguard, rfl⟩
  · have hdressed : ∃ ir, bField.resolver = some ir ∧ Dressed core ir := by
      refine ⟨_, hresolver, ?_⟩
      cases hbase : base.resolver with
      | none =>
        rw [hbase] at hresolver
        cases hcore with
        | parent path' hparent =>
          obtain rfl : path = path' := by simpa [hresolver] using hparent
          exact .here _
        | source _ hne _ => exact absurd hresolver (hne path)
      | some resolver =>
        rw [hbase] at hresolver
        cases hcore with
        | parent path' hparent => simp [hresolver] at hparent
        | source prepared' _ hprepared' =>
          obtain rfl : prepared' = guarded := by
            rw [hprepared] at hprepared'
            exact (Except.ok.inj (Option.some.inj hprepared')).symm
          exact .path (hdresses.orContextPath hbase)
    obtain ⟨ir, hir, hdressed⟩ := hdressed
    rw [hir, if_neg (by simp [hfree])]
    constructor
    · exact fun h protection hmem => covers_of_unguarded hdressed h hmem
    · intro h Key σ runtime way way' ctx ctx' state state' _ _ _ protection hmem
      exact satisfies_unguarded (h protection hmem) runtime.texts ctx' state'.authClaims
  · obtain ⟨ir, hbase, hdressed⟩ := hdresses.resolved _ rfl
    rw [hbase] at hresolver
    cases hcore with
    | parent path' hparent => simp [hresolver] at hparent
    | source prepared' _ hprepared' =>
      obtain rfl : prepared' = prepared := by
        rw [hprepared] at hprepared'
        exact (Except.ok.inj (Option.some.inj hprepared')).symm
      rw [hresolver, if_pos hprotected]
      constructor
      · exact fun h protection hmem => covers_of_guardedBy hguard (.path hdressed) h hmem
      · intro h Key σ runtime way way' ctx ctx' state state' ir' hir' hstarts protection hmem
        obtain rfl := Option.some.inj hir'
        obtain ⟨rfl, before, claims, hcheck⟩ := starts_core (.path hdressed) hstarts
        exact satisfies_of_check hguard (h protection hmem) hcheck

/-- An added field keeps out every request that does not meet all protections on its path if and only if the check
of the field that the path starts at covers each of them. -/
theorem added_guarded_iff (hrequired : C.required module = .ok required)
    (h : tryFrom (compiler passes C) fuel module = some (.ok draft))
    (htype : (objectName, typeOf) ∈ required.config.types.entries) (hscalar : typeOf.scalar = false)
    {added : P.AddField} (hadded : added ∈ typeOf.addedFields) :
    ∃ first rest source bField, (C.addField added).path = first :: rest ∧ typeOf.fields.get? first = some source ∧
      toAddedField (compiler passes C) required fuel objectName typeOf added = some (.ok bField) ∧
      ∀ core, ReadsFrom passes required (compiler passes C) fuel objectName typeOf source (C.addField added).name
        bField.resolver core →
        (GuardedBy passes (pathRequirements passes required source typeOf rest) bField.resolver core ↔
          ∀ protection ∈ pathRequirements passes required source typeOf rest,
            Covers passes (sourceGuard passes required source typeOf).1
              (sourceGuard passes required source typeOf).2 protection) := by
  obtain ⟨_, addedFields, -, haddedFields, -, values, hvalues⟩ :=
    toFields_of_accepted (C := compiler passes C) hrequired h htype hscalar
  obtain ⟨bField, -, hbField⟩ := collected haddedFields hvalues hadded
  cases hpath : (C.addField added).path with
  | nil =>
    have hpath' : ((compiler passes C).addField added).path = [] := hpath
    rw [toAddedField, hpath'] at hbField
    cases hbField
  | cons first rest =>
    cases hsource : typeOf.fields.get? first with
    | none =>
      have hpath' : ((compiler passes C).addField added).path = first :: rest := hpath
      rw [toAddedField, hpath'] at hbField
      simp only [hsource] at hbField
      cases hbField
    | some source =>
      exact ⟨first, rest, source, bField, rfl, hsource, hbField, fun core hcore =>
        guardedBy_path_iff hpath hsource hbField hcore _⟩

def plainField (typeName : String) (resolvers : List (Resolver Unit bare)) (id : Option (List String)) :
    Config.Field (withResolvers secretPayloads bare) :=
  { (fakeField typeName : Config.Field (withResolvers secretPayloads bare)) with
    protectedBy := id.map fun id => ⟨some id, none⟩
    resolvers := resolvers }

def shortcut : AddField :=
  ⟨"secret", ["user", "secret"]⟩

def shortcutType : TypeDef (withResolvers secretPayloads bare) :=
  { secretType ⟨[("user", plainField "User" [.other ()] none)], by simp⟩ none with addedFields := [shortcut] }

def shortcuts : Module secretPayloads bare where
  config :=
    { server := ()
      upstream := ()
      schema := ⟨some "Query", none, none⟩
      types := ⟨[("Query", shortcutType),
        ("User", secretType ⟨[("secret", plainField "String" [] (some ["admin"]))], by simp⟩ none)], by simp⟩
      unions := Dict.empty
      enums := Dict.empty
      links := []
      telemetry := () }
  inputTypes := ∅
  outputTypes := {"Query", "User"}
  interfacesTypesMap := Dict.empty

theorem shortcuts_accepted : ∃ draft, tryFrom (compiler secretPasses secretCompiler) 1 shortcuts = some (.ok draft) :=
  ⟨⟨⟨_, ⟨"", none, none⟩⟩, ()⟩, rfl⟩

theorem added_guarded_shortcut :
    ∃ first rest source bField, shortcut.path = first :: rest ∧ shortcutType.fields.get? first = some source ∧
      toAddedField (compiler secretPasses secretCompiler) shortcuts 1 "Query" shortcutType shortcut =
        some (.ok bField) ∧
      ∀ core, ReadsFrom secretPasses shortcuts (compiler secretPasses secretCompiler) 1 "Query" shortcutType source
        "secret" bField.resolver core →
        (GuardedBy secretPasses (pathRequirements secretPasses shortcuts source shortcutType rest) bField.resolver
            core ↔
          ∀ protection ∈ pathRequirements secretPasses shortcuts source shortcutType rest,
            Covers secretPasses (sourceGuard secretPasses shortcuts source shortcutType).1
              (sourceGuard secretPasses shortcuts source shortcutType).2 protection) := by
  have hrequired : secretCompiler.required shortcuts = .ok shortcuts := rfl
  obtain ⟨draft, haccepted⟩ := shortcuts_accepted
  exact added_guarded_iff hrequired haccepted (by simp [shortcuts]) rfl (List.mem_singleton_self _)

theorem shortcut_unguarded :
    (∃ draft, tryFrom (compiler secretPasses secretCompiler) 1 shortcuts = some (.ok draft)) ∧
      ∃ bField core, toAddedField (compiler secretPasses secretCompiler) shortcuts 1 "Query" shortcutType shortcut =
          some (.ok bField) ∧
        ReadsFrom secretPasses shortcuts (compiler secretPasses secretCompiler) 1 "Query" shortcutType
          (plainField "User" [.other ()] none) "secret" bField.resolver core ∧
        ¬ GuardedBy secretPasses
          (pathRequirements secretPasses shortcuts (plainField "User" [.other ()] none) shortcutType ["secret"])
          bField.resolver core := by
  refine ⟨shortcuts_accepted, _, .io (.js "secret"), rfl, ?_, ?_⟩
  · refine ReadsFrom.source ⟨⟨"secret", [], .named "User" false, some (.io (.js "secret"))⟩, none⟩ ?_ rfl
    intro path hpath
    cases hpath
  intro h
  have hmem : (⟨some ["admin"], none⟩ : Protected) ∈ pathRequirements secretPasses shortcuts
      (plainField "User" [.other ()] none) shortcutType ["secret"] := List.mem_singleton_self _
  have hcovers := covers_of_unguarded (.path (.here _)) h hmem
  exact not_covers_unguarded (by decide) _ hcovers

end Gqlforge.AddedFields
