import Gqlforge.FieldPasses

namespace Gqlforge.ServedLeaves

open Schema Config Validation FieldCompiler FieldPasses

variable {P : Payloads} {B : Backends}

section Model

inductive SchemaError where
  | queryRootIsMissing
  | queryTypeNotDefined
  | mutationTypeNotDefined
  | subscriptionTypeNotDefined
  | noResolverFoundInSchema

abbrev Outcome := Valid Unit SchemaError × List String

variable (module : Module P B)

def validateFieldHasResolver (validateType : String → TypeDef (withResolvers P B) → List String → Outcome)
    (name : String) (field : Config.Field (withResolvers P B)) (visited : List String) : Outcome :=
  if !field.resolvers.isEmpty then (Valid.succeed (), visited)
  else match module.config.findType field.typeOf.name with
    | some type =>
      let (res, visited) := validateType field.typeOf.name type visited
      ((if res.isOk then Valid.succeed () else Valid.fail .noResolverFoundInSchema).trace name, visited)
    | none => ((Valid.fail .noResolverFoundInSchema).trace name, visited)

def validateFields (validate : String → Config.Field (withResolvers P B) → List String → Outcome) :
    List (String × Config.Field (withResolvers P B)) → List String → List (Valid Unit SchemaError) × List String
  | [], visited => ([], visited)
  | (name, field) :: rest, visited =>
    let (valid, visited) := validate name field visited
    let (valids, visited) := validateFields validate rest visited
    (valid :: valids, visited)

def validateTypeHasResolvers : ℕ → String → TypeDef (withResolvers P B) → List String → Outcome
  | 0, _, _, visited => (Valid.succeed (), visited)
  | fuel + 1, name, type, visited =>
    if type.scalar || visited.contains name then (Valid.succeed (), visited)
    else
      let (valids, visited) := validateFields (validateFieldHasResolver module (validateTypeHasResolvers fuel))
        type.fields.entries (name :: visited)
      (((Valid.collect valids).trace name).mapOk fun _ => (), visited)

def steps : ℕ := module.config.types.entries.length + 1

def validateRoot (notDefined : SchemaError) (name : String) : Valid Unit SchemaError :=
  match module.config.findType name with
  | some type => (validateTypeHasResolvers module (steps module) name type []).1
  | none => (Valid.fail notDefined).trace name

def validateQuery : Valid Unit SchemaError :=
  (Valid.fromOption module.config.schema.query .queryRootIsMissing).andThen
    (validateRoot module .queryTypeNotDefined)

def validateMutation : Valid Unit SchemaError :=
  match module.config.schema.mutation with
  | some name => validateRoot module .mutationTypeNotDefined name
  | none => Valid.succeed ()

def validateSubscription : Valid Unit SchemaError :=
  match module.config.schema.subscription with
  | some name => validateRoot module .subscriptionTypeNotDefined name
  | none => Valid.succeed ()

end Model

section Success

variable {module : Module P B}

theorem isOk_trace {α ε : Type} (valid : Valid α ε) (name : String) : (valid.trace name).isOk = valid.isOk := by
  cases valid <;> rfl

theorem isOk_collect {α ε : Type} (valids : List (Valid α ε)) :
    (Valid.collect valids).isOk = valids.all fun valid => valid.isOk := by
  induction valids with
  | nil => rfl
  | cons valid rest ih =>
    rw [List.all_cons, ← ih, Valid.collect_cons]
    cases valid <;> cases Valid.collect rest <;> rfl

theorem isOk_mapOk {α β ε : Type} (valid : Valid α ε) (f : α → β) : (valid.mapOk f).isOk = valid.isOk := by
  cases valid <;> rfl

theorem validateFields_eq (validate : String → Config.Field (withResolvers P B) → List String → Outcome)
    (check : Config.Field (withResolvers P B) → List String → Bool × List String)
    (h : ∀ name field visited, check field visited =
      ((validate name field visited).1.isOk, (validate name field visited).2))
    (fields : List (String × Config.Field (withResolvers P B))) (found : Bool) (visited : List String) :
    (fields.map Prod.snd).foldl (fun (found, visited) field =>
        let (found', visited) := check field visited
        (found && found', visited)) (found, visited) =
      (found && (validateFields validate fields visited).1.all fun valid => valid.isOk,
        (validateFields validate fields visited).2) := by
  induction fields generalizing found visited with
  | nil => simp [validateFields]
  | cons entry rest ih =>
    obtain ⟨name, field⟩ := entry
    rw [List.map_cons, List.foldl_cons, validateFields]
    dsimp only
    rw [h name field visited, ih]
    simp [Bool.and_assoc]

theorem typeHasResolvers_eq (fuel : ℕ) (name : String) (type : TypeDef (withResolvers P B)) (visited : List String) :
    typeHasResolvers module fuel name type visited =
      ((validateTypeHasResolvers module fuel name type visited).1.isOk,
        (validateTypeHasResolvers module fuel name type visited).2) := by
  induction fuel generalizing name type visited with
  | zero => rfl
  | succ fuel ih =>
    rw [typeHasResolvers, validateTypeHasResolvers]
    split
    · rfl
    · rw [Dict.values, validateFields_eq (validateFieldHasResolver module (validateTypeHasResolvers module fuel))]
      · rw [Bool.true_and, isOk_mapOk, isOk_trace, isOk_collect]
      · intro name field visited
        rw [fieldHasResolver, validateFieldHasResolver]
        split
        · rfl
        · cases module.config.findType field.typeOf.name with
          | some type =>
            dsimp only
            rw [ih, isOk_trace]
            cases (validateTypeHasResolvers module fuel field.typeOf.name type visited).1 <;> rfl
          | none => rfl

end Success

section Reached

variable (module : Module P B)

/-- The second field is the first or stands below it, and no field on the way has a resolver. `into` says which types
a type name leads into. -/
inductive Reaches (into : String → TypeDef (withResolvers P B) → Prop) :
    Config.Field (withResolvers P B) → Config.Field (withResolvers P B) → Prop where
  | here {field : Config.Field (withResolvers P B)} (hnone : field.resolvers = []) : Reaches into field field
  | deeper {field next last : Config.Field (withResolvers P B)} {type : TypeDef (withResolvers P B)}
      (hnone : field.resolvers = []) (hinto : into field.typeOf.name type) (hnext : next ∈ type.fields.values)
      (hrest : Reaches into next last) : Reaches into field last

def Declared (name : String) (type : TypeDef (withResolvers P B)) : Prop :=
  module.config.findType name = some type

def Unresolved (field : Config.Field (withResolvers P B)) : Prop :=
  ∃ last, Reaches (Declared module) field last ∧ module.config.findType last.typeOf.name = none

/-- What is known of a field once it is found to be resolved: below it are visited types only. -/
def Covered (visited : List String) (field : Config.Field (withResolvers P B)) : Prop :=
  field.resolvers = [] → ∃ type, module.config.findType field.typeOf.name = some type ∧
    (type.scalar = true ∨ field.typeOf.name ∈ visited)

def Clean (visited : List String) (name : String) : Prop :=
  ∀ type, module.config.findType name = some type → ∀ field ∈ type.fields.values, Covered module visited field

def unvisited (visited : List String) : Finset String :=
  module.config.types.keys.toFinset \ visited.toFinset

/-- What a check has found: if all is well, whatever was visited leads to visited types only. -/
structure Found (visited : List String) (good : Prop) (bad : Prop) (result : Bool × List String) : Prop where
  grows : visited ⊆ result.2
  clean : result.1 = true → good ∧ ∀ name ∈ result.2, name ∈ visited ∨ Clean module result.2 name
  failed : result.1 = false → bad

variable {module}

variable {visited visited' : List String}

theorem Covered.mono (hsub : visited ⊆ visited') {field : Config.Field (withResolvers P B)}
    (h : Covered module visited field) : Covered module visited' field := by
  intro hnone
  obtain ⟨type, htype, hvisited⟩ := h hnone
  exact ⟨type, htype, hvisited.imp_right fun hmem => hsub hmem⟩

variable {name : String}

theorem Clean.mono (hsub : visited ⊆ visited') (h : Clean module visited name) : Clean module visited' name :=
  fun type htype field hfield => (h type htype field hfield).mono hsub

theorem card_unvisited_lt {type : TypeDef (withResolvers P B)} (htype : module.config.findType name = some type)
    (hname : name ∉ visited) : (unvisited module (name :: visited)).card < (unvisited module visited).card := by
  have hkey : name ∈ module.config.types.keys :=
    (Dict.contains_iff _ name).mp (by rw [Dict.contains, ← Config.findType, htype]; rfl)
  rw [unvisited, List.toFinset_cons, Finset.sdiff_insert]
  refine Finset.card_erase_lt_of_mem ?_
  rw [Finset.mem_sdiff, List.mem_toFinset, List.mem_toFinset]
  exact ⟨hkey, hname⟩

theorem card_unvisited_le (hsub : visited ⊆ visited') :
    (unvisited module visited').card ≤ (unvisited module visited).card := by
  refine Finset.card_le_card (Finset.sdiff_subset_sdiff subset_rfl ?_)
  intro name hname
  exact List.mem_toFinset.mpr (hsub (List.mem_toFinset.mp hname))

theorem fields_found (check : Config.Field (withResolvers P B) → List String → Bool × List String) (fuel : ℕ)
    (hcheck : ∀ field visited, (unvisited module visited).card < fuel →
      Found module visited (Covered module (check field visited).2 field) (Unresolved module field)
        (check field visited))
    (fields : List (Config.Field (withResolvers P B))) (found : Bool) (visited : List String)
    (hfuel : (unvisited module visited).card < fuel) :
    let result := fields.foldl (fun (found, visited) field =>
        let (found', visited) := check field visited
        (found && found', visited)) (found, visited)
    Found module visited (found = true ∧ ∀ field ∈ fields, Covered module result.2 field)
      (found = false ∨ ∃ field ∈ fields, Unresolved module field) result := by
  induction fields generalizing found visited with
  | nil =>
    refine ⟨List.Subset.refl _, fun h => ⟨⟨h, fun field hfield => ?_⟩, fun name hname => .inl hname⟩, .inl⟩
    cases hfield
  | cons field rest ih =>
    have hfirst := hcheck field visited hfuel
    have hrest := ih (found && (check field visited).1) (check field visited).2
      ((card_unvisited_le hfirst.grows).trans_lt hfuel)
    refine ⟨List.Subset.trans hfirst.grows hrest.grows, fun hok => ?_, fun hfailed => ?_⟩
    · obtain ⟨⟨hboth, hcovered⟩, hclean⟩ := hrest.clean hok
      obtain ⟨hfound, hthis⟩ := Bool.and_eq_true_iff.mp hboth
      obtain ⟨hcover, hcleanFirst⟩ := hfirst.clean hthis
      refine ⟨⟨hfound, fun other hother => ?_⟩, fun name hname => ?_⟩
      · rcases List.mem_cons.mp hother with rfl | hother
        · exact hcover.mono hrest.grows
        · exact hcovered other hother
      · rcases hclean name hname with hname | hclean
        · exact (hcleanFirst name hname).imp_right fun h => h.mono hrest.grows
        · exact .inr hclean
    · rcases hrest.failed hfailed with hfound | ⟨other, hother, hbad⟩
      · rcases Bool.and_eq_false_iff.mp hfound with hfound | hthis
        · exact .inl hfound
        · exact .inr ⟨field, List.mem_cons_self, hfirst.failed hthis⟩
      · exact .inr ⟨other, List.mem_cons_of_mem field hother, hbad⟩

theorem fieldHasResolver_found
    (validateType : String → TypeDef (withResolvers P B) → List String → Bool × List String) (fuel : ℕ)
    (htypes : ∀ name type visited, module.config.findType name = some type →
      (unvisited module visited).card < fuel →
      Found module visited (type.scalar = true ∨ name ∈ (validateType name type visited).2)
        (∃ field ∈ type.fields.values, Unresolved module field) (validateType name type visited))
    (field : Config.Field (withResolvers P B)) (visited : List String) (hfuel : (unvisited module visited).card < fuel) :
    Found module visited
      (Covered module (fieldHasResolver module validateType field visited).2 field) (Unresolved module field)
      (fieldHasResolver module validateType field visited) := by
  rw [fieldHasResolver]
  split
  next hres =>
    have hne : field.resolvers ≠ [] := by simpa using hres
    refine ⟨List.Subset.refl _, fun _ => ⟨?_, fun name hname => .inl hname⟩, fun h => nomatch h⟩
    exact fun hnone => absurd hnone hne
  next hres =>
    have hnone : field.resolvers = [] := by simpa using hres
    cases htype : module.config.findType field.typeOf.name with
    | none => exact ⟨List.Subset.refl _, (fun h => nomatch h), fun _ => ⟨field, .here hnone, htype⟩⟩
    | some type =>
      have h := htypes field.typeOf.name type visited htype hfuel
      refine ⟨h.grows, fun hok => ?_, fun hfailed => ?_⟩
      · obtain ⟨hgood, hclean⟩ := h.clean hok
        exact ⟨fun _ => ⟨type, htype, hgood⟩, hclean⟩
      · obtain ⟨next, hnext, last, hlast, hundeclared⟩ := h.failed hfailed
        exact ⟨last, .deeper hnone htype hnext hlast, hundeclared⟩

theorem typeHasResolvers_found (fuel : ℕ) (name : String) (type : TypeDef (withResolvers P B)) (visited : List String)
    (htype : module.config.findType name = some type) (hfuel : (unvisited module visited).card < fuel) :
    Found module visited
      (type.scalar = true ∨ name ∈ (typeHasResolvers module fuel name type visited).2)
      (∃ field ∈ type.fields.values, Unresolved module field) (typeHasResolvers module fuel name type visited) := by
  induction fuel generalizing name type visited with
  | zero => exact absurd hfuel (Nat.not_lt_zero _)
  | succ fuel ih =>
    rw [typeHasResolvers]
    split
    next hdone =>
      refine ⟨List.Subset.refl _, fun _ => ⟨?_, fun name hname => .inl hname⟩, fun h => nomatch h⟩
      simpa using hdone
    next hdone =>
      have hname : name ∉ visited := by
        intro hmem
        exact hdone (by simp [hmem])
      have hless := card_unvisited_lt htype hname
      have h := fields_found _ fuel (fieldHasResolver_found _ fuel ih) type.fields.values true (name :: visited)
        (by omega)
      have hsub := List.Subset.trans (List.subset_cons_self name visited) h.grows
      refine ⟨hsub, fun hok => ?_, fun hfailed => ?_⟩
      · obtain ⟨⟨-, hcovered⟩, hclean⟩ := h.clean hok
        refine ⟨.inr (h.grows List.mem_cons_self), fun other hother => ?_⟩
        rcases hclean other hother with hother | hother
        · rcases List.mem_cons.mp hother with rfl | hother
          · refine .inr fun found hfound => ?_
            cases htype.symm.trans hfound
            exact hcovered
          · exact .inl hother
        · exact .inr hother
      · exact (h.failed hfailed).resolve_left (by simp)

theorem declared_of_clean (hclean : ∀ name ∈ visited, Clean module visited name)
    {field last : Config.Field (withResolvers P B)} (hcovered : Covered module visited field)
    (h : Reaches (Declared module) field last) : module.config.findType last.typeOf.name ≠ none := by
  induction h with
  | here hnone =>
    obtain ⟨type, htype, -⟩ := hcovered hnone
    simp [htype]
  | @deeper field next last type hnone hinto hnext _ ih =>
    obtain ⟨found, hfound, hvisited⟩ := hcovered hnone
    rw [Option.some.inj (hfound.symm.trans hinto)] at hvisited
    rcases hvisited with hscalar | hvisited
    · rw [TypeDef.scalar, List.isEmpty_iff] at hscalar
      rw [Dict.values, hscalar] at hnext
      exact absurd hnext List.not_mem_nil
    · exact ih (hclean _ hvisited type hinto next hnext)

theorem card_unvisited_nil : (unvisited module []).card < steps module := by
  have hle := List.toFinset_card_le module.config.types.keys
  rw [Dict.keys, List.length_map] at hle
  rw [unvisited, List.toFinset_nil, Finset.sdiff_empty, steps]
  exact Nat.lt_succ_of_le hle

theorem typeHasResolvers_iff {type : TypeDef (withResolvers P B)} (htype : module.config.findType name = some type) :
    (typeHasResolvers module (steps module) name type []).1 = true ↔
      ∀ field ∈ type.fields.values, ¬ Unresolved module field := by
  have h := typeHasResolvers_found (steps module) name type [] htype card_unvisited_nil
  cases hok : (typeHasResolvers module (steps module) name type []).1 with
  | false =>
    obtain ⟨field, hfield, hbad⟩ := h.failed hok
    exact iff_of_false (by simp) fun hall => hall field hfield hbad
  | true =>
    obtain ⟨hname, hclean⟩ := h.clean hok
    have hclosed : ∀ other ∈ (typeHasResolvers module (steps module) name type []).2, Clean module _ other :=
      fun other hother => (hclean other hother).resolve_left List.not_mem_nil
    refine iff_of_true rfl fun field hfield ⟨last, hlast, hnone⟩ => ?_
    rcases hname with hscalar | hname
    · rw [TypeDef.scalar, List.isEmpty_iff] at hscalar
      rw [Dict.values, hscalar] at hfield
      exact absurd hfield List.not_mem_nil
    · exact declared_of_clean hclosed (hclosed name hname type htype field hfield) hlast hnone

theorem resolvesBelow_iff (field : Config.Field (withResolvers P B)) :
    resolvesBelow module field = true ↔ ¬ Unresolved module field := by
  have h := fieldHasResolver_found _ (steps module) (typeHasResolvers_found (steps module)) field []
    card_unvisited_nil
  change (fieldHasResolver module (typeHasResolvers module (steps module)) field []).1 = true ↔ _
  cases hok : (fieldHasResolver module (typeHasResolvers module (steps module)) field []).1 with
  | false => exact iff_of_false (by simp) fun hall => hall (h.failed hok)
  | true =>
    obtain ⟨hcovered, hclean⟩ := h.clean hok
    refine iff_of_true rfl fun ⟨last, hlast, hnone⟩ => ?_
    exact declared_of_clean (fun name hname => (hclean name hname).resolve_left List.not_mem_nil) hcovered hlast hnone

end Reached

section Paths

variable (module : Module P B)

def IsLeaf (name : String) : Prop :=
  match module.config.findType name with
  | some type => type.scalar = true
  | none => Scalar.isPredefined name = true ∨ (module.config.findEnum name).isSome = true

/-- The types that a value of the type may have: itself, or those of the members of a union. -/
inductive Inside : String → TypeDef (withResolvers P B) → Prop where
  | declared {name : String} {type : TypeDef (withResolvers P B)} (htype : module.config.findType name = some type) :
      Inside name type
  | member {name member : String} {union : Union} {type : TypeDef (withResolvers P B)}
      (hnone : module.config.findType name = none) (hunion : module.config.findUnion name = some union)
      (hmember : member ∈ union.types.items) (h : Inside member type) : Inside name type

inductive LeafPath : Config.Field (withResolvers P B) → List (Config.Field (withResolvers P B)) → Prop where
  | leaf {field : Config.Field (withResolvers P B)} (hleaf : IsLeaf module field.typeOf.name) : LeafPath field [field]
  | step {field next : Config.Field (withResolvers P B)} {type : TypeDef (withResolvers P B)}
      {path : List (Config.Field (withResolvers P B))} (hinside : Inside module field.typeOf.name type)
      (hnext : next ∈ type.fields.values) (h : LeafPath next path) : LeafPath field (field :: path)

def Served (field : Config.Field (withResolvers P B)) : Prop :=
  ∀ path, LeafPath module field path → ∃ found ∈ path, found.resolvers ≠ []

def ServedAll (type : TypeDef (withResolvers P B)) : Prop :=
  ∀ field ∈ type.fields.values, Served module field

/-- The roots are accepted exactly when all leaves below them are served, and a field gets the empty object only if all
leaves below it are. -/
structure Exact : Prop where
  query : ∀ name type, module.config.schema.query = some name → module.config.findType name = some type →
    ((∃ done, validateQuery module = .ok done) ↔ ServedAll module type)
  mutation : ∀ name type, module.config.schema.mutation = some name → module.config.findType name = some type →
    ((∃ done, validateMutation module = .ok done) ↔ ServedAll module type)
  subscription : ∀ name type, module.config.schema.subscription = some name →
    module.config.findType name = some type →
    ((∃ done, validateSubscription module = .ok done) ↔ ServedAll module type)
  dangling : ∀ type ∈ module.config.types.values, ∀ field ∈ type.fields.values, ∀ bField,
    fixDanglingResolvers module field bField ≠ Valid.succeed bField → Served module field

/-- A field without a resolver is reached that is a leaf, also through the members of unions. -/
def UnservedLeaf (field : Config.Field (withResolvers P B)) : Prop :=
  ∃ last, Reaches (Inside module) field last ∧ IsLeaf module last.typeOf.name

/-- Fields without resolvers that are reached are of declared scalars only where some are of types that are not
declared, and of unions or unknown types only where some are leaves. -/
structure Decided : Prop where
  scalars : ∀ type ∈ module.config.types.values, ∀ field ∈ type.fields.values, ∀ last scalar,
    Reaches (Declared module) field last → module.config.findType last.typeOf.name = some scalar →
    scalar.scalar = true → Unresolved module field
  others : ∀ root ∈ module.config.outputRoots, ∀ type, module.config.findType root = some type →
    ∀ field ∈ type.fields.values, ∀ last, Reaches (Declared module) field last →
    module.config.findType last.typeOf.name = none → ¬ IsLeaf module last.typeOf.name →
    ∃ other ∈ type.fields.values, UnservedLeaf module other

variable {module}

theorem served_iff (field : Config.Field (withResolvers P B)) : Served module field ↔ ¬ UnservedLeaf module field := by
  constructor
  · rintro hserved ⟨last, hreaches, hleaf⟩
    have hpath : ∃ path, LeafPath module field path ∧ ∀ found ∈ path, found.resolvers = [] := by
      clear hserved
      induction hreaches with
      | here hnone => exact ⟨_, .leaf hleaf, by simpa using hnone⟩
      | deeper hnone hinto hnext _ ih =>
        obtain ⟨path, hpath, hall⟩ := ih hleaf
        exact ⟨_, .step hinto hnext hpath, List.forall_mem_cons.mpr ⟨hnone, hall⟩⟩
    obtain ⟨path, hpath, hall⟩ := hpath
    obtain ⟨found, hfound, hne⟩ := hserved path hpath
    exact hne (hall found hfound)
  · intro hnone path hpath
    by_contra hserved
    have hall : ∀ found ∈ path, found.resolvers = [] := by simpa using hserved
    refine hnone ?_
    clear hnone hserved
    induction hpath with
    | leaf hleaf => exact ⟨_, .here (hall _ List.mem_cons_self), hleaf⟩
    | step hinside hnext _ ih =>
      obtain ⟨hfirst, hrest⟩ := List.forall_mem_cons.mp hall
      obtain ⟨last, hreaches, hleaf⟩ := ih hrest
      exact ⟨last, .deeper hfirst hinside hnext hreaches, hleaf⟩

variable {field last : Config.Field (withResolvers P B)}

theorem reaches_inside (h : Reaches (Declared module) field last) : Reaches (Inside module) field last := by
  induction h with
  | here hnone => exact .here hnone
  | deeper hnone hinto hnext _ ih => exact .deeper hnone (.declared hinto) hnext ih

theorem reaches_declared (hall : ¬ Unresolved module field)
    (h : Reaches (Inside module) field last) : Reaches (Declared module) field last := by
  induction h with
  | here hnone => exact .here hnone
  | @deeper field next last type hnone hinto hnext _ ih =>
    have hdeclared : Declared module field.typeOf.name type := by
      cases hinto with
      | declared htype => exact htype
      | member htype => exact absurd ⟨field, .here hnone, htype⟩ hall
    refine .deeper hnone hdeclared hnext (ih fun ⟨last, hlast, htype⟩ => ?_)
    exact hall ⟨last, .deeper hnone hdeclared hnext hlast, htype⟩

theorem leaf_of_unserved (hall : ¬ Unresolved module field)
    (h : UnservedLeaf module field) : ∃ last scalar, Reaches (Declared module) field last ∧
      module.config.findType last.typeOf.name = some scalar ∧ scalar.scalar = true := by
  obtain ⟨last, hreaches, hleaf⟩ := h
  have hreaches := reaches_declared hall hreaches
  rw [IsLeaf] at hleaf
  cases htype : module.config.findType last.typeOf.name with
  | none => exact absurd ⟨last, hreaches, htype⟩ hall
  | some scalar =>
    rw [htype] at hleaf
    exact ⟨last, scalar, hreaches, htype, hleaf⟩

theorem validateRoot_succeeds_iff {name : String} {type : TypeDef (withResolvers P B)} (notDefined : SchemaError)
    (htype : module.config.findType name = some type) :
    (∃ done, validateRoot module notDefined name = .ok done) ↔
      ∀ field ∈ type.fields.values, ¬ Unresolved module field := by
  have hroot : validateRoot module notDefined name =
      (validateTypeHasResolvers module (steps module) name type []).1 := by
    rw [validateRoot, htype]
  rw [← typeHasResolvers_iff htype, typeHasResolvers_eq, hroot]
  cases (validateTypeHasResolvers module (steps module) name type []).1 with
  | ok done => exact iff_of_true ⟨done, rfl⟩ rfl
  | error error => exact iff_of_false (fun ⟨done, h⟩ => nomatch h) (fun h => nomatch h)

theorem Decided.root (hd : Decided module) {name : String} {type : TypeDef (withResolvers P B)}
    (hroot : name ∈ module.config.outputRoots) (htype : module.config.findType name = some type) :
    (∀ field ∈ type.fields.values, ¬ Unresolved module field) ↔ ServedAll module type := by
  have hvalues : type ∈ module.config.types.values := (Dict.mem_values_iff _ type).mpr ⟨name, htype⟩
  constructor
  · intro hall field hfield
    rw [served_iff]
    intro hunserved
    obtain ⟨last, scalar, hreaches, hscalarType, hscalar⟩ := leaf_of_unserved (hall field hfield) hunserved
    exact hall field hfield (hd.scalars type hvalues field hfield last scalar hreaches hscalarType hscalar)
  · rintro hserved field hfield ⟨last, hreaches, hnone⟩
    by_cases hleaf : IsLeaf module last.typeOf.name
    · exact (served_iff field).mp (hserved field hfield) ⟨last, reaches_inside hreaches, hleaf⟩
    · obtain ⟨other, hother, hunserved⟩ := hd.others name hroot type htype field hfield last hreaches hnone hleaf
      exact (served_iff other).mp (hserved other hother) hunserved

theorem fixDanglingResolvers_changes (field : Config.Field (withResolvers P B)) (hnone : field.resolvers = [])
    (hall : ¬ Unresolved module field) : ∃ bField, fixDanglingResolvers module field bField ≠ Valid.succeed bField := by
  refine ⟨⟨⟨"", [], .named "" false, none⟩, none⟩, fun h => ?_⟩
  rw [fixDanglingResolvers, (resolvesBelow_iff field).mpr hall, hnone] at h
  exact nomatch congrArg (fun valid => valid.toOption.bind fun field => field.resolver) h

theorem unresolved_of_unchanged (field : Config.Field (withResolvers P B)) (bField : CompiledField)
    (h : fixDanglingResolvers module field bField ≠ Valid.succeed bField) : ¬ Unresolved module field := by
  rw [fixDanglingResolvers] at h
  split at h
  next hfixed => exact (resolvesBelow_iff field).mp (Bool.and_eq_true_iff.mp hfixed).2
  next => exact absurd rfl h

theorem Reaches.none {into : String → TypeDef (withResolvers P B) → Prop}
    (h : Reaches into field last) : field.resolvers = [] := by
  cases h with
  | here hnone => exact hnone
  | deeper hnone => exact hnone

theorem validations_iff {name : String} {type : TypeDef (withResolvers P B)}
    (htype : module.config.findType name = some type) :
    (module.config.schema.query = some name → ((∃ done, validateQuery module = .ok done) ↔
      ∀ field ∈ type.fields.values, ¬ Unresolved module field)) ∧
    (module.config.schema.mutation = some name → ((∃ done, validateMutation module = .ok done) ↔
      ∀ field ∈ type.fields.values, ¬ Unresolved module field)) ∧
    (module.config.schema.subscription = some name → ((∃ done, validateSubscription module = .ok done) ↔
      ∀ field ∈ type.fields.values, ¬ Unresolved module field)) := by
  refine ⟨fun hname => ?_, fun hname => ?_, fun hname => ?_⟩
  · rw [validateQuery, hname]
    exact validateRoot_succeeds_iff .queryTypeNotDefined htype
  · rw [validateMutation, hname]
    exact validateRoot_succeeds_iff .mutationTypeNotDefined htype
  · rw [validateSubscription, hname]
    exact validateRoot_succeeds_iff .subscriptionTypeNotDefined htype

theorem Decided.exact (hd : Decided module) : Exact module where
  query name type hname htype :=
    ((validations_iff htype).1 hname).trans (hd.root (by simp [Config.outputRoots, hname]) htype)
  mutation name type hname htype :=
    ((validations_iff htype).2.1 hname).trans (hd.root (by simp [Config.outputRoots, hname]) htype)
  subscription name type hname htype :=
    ((validations_iff htype).2.2 hname).trans (hd.root (by simp [Config.outputRoots, hname]) htype)
  dangling type htype field hfield bField hchanged := by
    have hall := unresolved_of_unchanged field bField hchanged
    rw [served_iff]
    intro hunserved
    obtain ⟨last, scalar, hreaches, hscalarType, hscalar⟩ := leaf_of_unserved hall hunserved
    exact hall (hd.scalars type htype field hfield last scalar hreaches hscalarType hscalar)

theorem Exact.decided (he : Exact module) : Decided module where
  scalars type htype field hfield last scalar hreaches hscalarType hscalar := by
    by_contra hall
    obtain ⟨bField, hchanged⟩ := fixDanglingResolvers_changes field hreaches.none hall
    have hleaf : IsLeaf module last.typeOf.name := by
      rw [IsLeaf, hscalarType]
      exact hscalar
    have hserved := he.dangling type htype field hfield bField hchanged
    exact (served_iff field).mp hserved ⟨last, reaches_inside hreaches, hleaf⟩
  others root hroot type htype field hfield last hreaches hnone _ := by
    have hiff : (∀ field ∈ type.fields.values, ¬ Unresolved module field) ↔ ServedAll module type := by
      obtain ⟨hquery, hmutation, hsubscription⟩ := validations_iff htype
      rw [Config.outputRoots, List.mem_append, List.mem_append, Option.mem_toList, Option.mem_toList,
        Option.mem_toList] at hroot
      rcases hroot with (hname | hname) | hname
      · exact (hquery hname).symm.trans (he.query root type hname htype)
      · exact (hmutation hname).symm.trans (he.mutation root type hname htype)
      · exact (hsubscription hname).symm.trans (he.subscription root type hname htype)
    by_contra hunserved
    have hserved : ServedAll module type := fun other hother =>
      (served_iff other).mpr fun h => hunserved ⟨other, hother, h⟩
    exact hiff.mpr hserved field hfield ⟨last, hreaches, hnone⟩

end Paths

/-- The checks are exact when declared scalars, unions and unknown types do not decide about them. -/
theorem validation_exact_iff {P : Payloads} {B : Backends} (module : Module P B) : Exact module ↔ Decided module :=
  ⟨Exact.decided, Decided.exact⟩

def quiet : Backends := ⟨Unit, Unit, Unit, Unit, Unit⟩

def typeWith (fields : List (String × Config.Field (withResolvers plain quiet))) (hn : (fields.map Prod.fst).Nodup) :
    TypeDef (withResolvers plain quiet) :=
  ⟨⟨fields, hn⟩, [], none, ⟨[], List.nodup_nil⟩, none, none, [], []⟩

def now : Config.Field (withResolvers plain quiet) :=
  ⟨.named "Date" false, Dict.empty, none, none, none, none, none, none, none, [], []⟩

def clock : Module plain quiet where
  config :=
    { server := ()
      upstream := ()
      schema := ⟨some "Query", none, none⟩
      types := ⟨[("Query", typeWith [("now", now)] (by decide)), ("Date", typeWith [] (by decide))], by decide⟩
      unions := Dict.empty
      enums := Dict.empty
      links := []
      telemetry := () }
  inputTypes := ∅
  outputTypes := {"Query", "Date"}
  interfacesTypesMap := Dict.empty

theorem clock_accepted : (∃ done, validateQuery clock = .ok done) ∧ ¬ Exact clock := by
  have haccepted : validateQuery clock = .ok () := rfl
  refine ⟨⟨(), haccepted⟩, fun h => ?_⟩
  have hserved := (h.query "Query" _ rfl rfl).mp ⟨(), haccepted⟩ now List.mem_cons_self [now] (.leaf rfl)
  obtain ⟨field, hfield, hne⟩ := hserved
  cases List.mem_singleton.mp hfield
  exact hne rfl

end Gqlforge.ServedLeaves
