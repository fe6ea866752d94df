import Gqlforge.TypeRenames

namespace Gqlforge.TypeRenames

open Json Schema Config Dict

inductive Resolver (R : Type) where
  | own (resolver : R)
  | service
  | entityResolver (resolverByType : List (String × Resolver R))

def withEntities (P : Payloads) : Payloads := { P with Resolver := Resolver P.Resolver }

namespace Resolver

variable {R : Type} (f : String → String)

mutual

def names : Resolver R → List String
  | .own _ => []
  | .service => []
  | .entityResolver resolverByType => namesByType resolverByType

def namesByType : List (String × Resolver R) → List String
  | [] => []
  | (name, resolver) :: rest => name :: (resolver.names ++ namesByType rest)

end

mutual

def Substituted : Resolver R → Resolver R → Prop
  | .own resolver, resolver' => resolver' = .own resolver
  | .service, resolver' => resolver' = .service
  | .entityResolver resolverByType, resolver' =>
    ∃ entries entries', SubstitutedByType resolverByType entries ∧ entries.Perm entries' ∧
      resolver' = .entityResolver entries'

def SubstitutedByType : List (String × Resolver R) → List (String × Resolver R) → Prop
  | [], entries => entries = []
  | (name, resolver) :: rest, entries =>
    ∃ resolver' rest', resolver.Substituted resolver' ∧ SubstitutedByType rest rest' ∧
      entries = (f name, resolver') :: rest'

end

end Resolver

variable {P : Payloads} (f : String → String)

def SubstitutedNames (names names' : Distinct String) : Prop :=
  ∀ name, name ∈ names'.items ↔ ∃ old ∈ names.items, f old = name

def substituteTypeOf (typeOf : WrappingType) : WrappingType := typeOf.withName (f typeOf.name)

structure SubstitutedField (field field' : Config.Field (withEntities P)) : Prop where
  typeOf : field'.typeOf = substituteTypeOf f field.typeOf
  args : Renamed id (fun arg arg' => arg' = { arg with typeOf := substituteTypeOf f arg.typeOf }) field.args field'.args
  resolvers : List.Forall₂ (Resolver.Substituted f) field.resolvers field'.resolvers
  rest : field' = { field with typeOf := field'.typeOf, args := field'.args, resolvers := field'.resolvers }

structure SubstitutedType (type type' : TypeDef (withEntities P)) : Prop where
  fields : Renamed id (SubstitutedField f) type.fields type'.fields
  implements : SubstitutedNames f type.implements type'.implements
  resolvers : List.Forall₂ (Resolver.Substituted f) type.resolvers type'.resolvers
  rest : type' =
    { type with fields := type'.fields, implements := type'.implements, resolvers := type'.resolvers }

structure SubstitutedUnion (union union' : Union) : Prop where
  types : SubstitutedNames f union.types union'.types
  doc : union'.doc = union.doc

structure Substituted (config config' : Config (withEntities P)) : Prop where
  types : Renamed f (SubstitutedType f) config.types config'.types
  unions : Renamed f (SubstitutedUnion f) config.unions config'.unions
  enums : Renamed f (fun enum enum' => enum' = enum) config.enums config'.enums
  schema : config'.schema =
    ⟨config.schema.query.map f, config.schema.mutation.map f, config.schema.subscription.map f⟩
  rest : config' =
    { config with
      types := config'.types
      unions := config'.unions
      enums := config'.enums
      schema := config'.schema }

def resolversOf (type : TypeDef (withEntities P)) : List (Resolver P.Resolver) :=
  type.resolvers ++ type.fields.values.flatMap fun field => field.resolvers

structure Sequential (renames : Dict String) (config : Config (withEntities P)) : Prop where
  order : InOrder renames.entries
  query : ∀ name, config.schema.query = some name → relabel renames.entries name ≠ name →
    config.types.contains name = true
  mutation : ∀ name, config.schema.mutation = some name → relabel renames.entries name ≠ name →
    config.types.contains name = true ∧ config.schema.query ≠ some name
  subscription : ∀ name, config.schema.subscription = some name → relabel renames.entries name = name
  members : ∀ union ∈ config.unions.values, ∀ name ∈ union.types.items,
    relabel renames.entries (relabel renames.entries name) = relabel renames.entries name
  resolvers : ∀ type ∈ config.types.values, ∀ resolver ∈ resolversOf type, ∀ name ∈ resolver.names,
    relabel renames.entries name = name

/-- The renames are of types that exist, and their new names are different and free or renamed themselves. -/
structure Permitted (renames : Dict String) (config : Config P) : Prop where
  existing : ∀ name ∈ renames.keys, config.contains name = true
  distinct : renames.values.Nodup
  free : ∀ name ∈ renames.values, config.contains name = true → name ∈ renames.keys

variable {P : Payloads}

def renameRootsIn (types : Dict (TypeDef P)) (schema : RootSchema) : Object String → RootSchema
  | [] => schema
  | (existingName, suggestedName) :: rest =>
    renameRootsIn (types.moveKey existingName suggestedName)
      (if types.contains existingName then renameRoots schema existingName suggestedName else schema) rest

def moveNames (config : Config P) (moves : Object String) : Config P :=
  { config with
    types := config.types.moveKeys moves
    unions := config.unions.moveKeys moves
    enums := config.enums.moveKeys moves
    schema := renameRootsIn config.types config.schema moves }

theorem renameEntry_config (state : Renaming P) (existingName suggestedName : String)
    (h : state.config.contains existingName = true) :
    (renameEntry state existingName suggestedName).1.config =
      moveNames state.config [(existingName, suggestedName)] := by
  rw [renameEntry, if_pos h]
  cases htype : state.config.types.get? existingName <;>
    cases henum : state.config.enums.get? existingName <;>
    cases hunion : state.config.unions.get? existingName <;>
    simp [renameUnion, renameEnum, renameType, moveNames, moveKeys, moveKey, renameRootsIn, Dict.contains,
      htype, henum, hunion]

theorem get?_insert_insert {V : Type} (dict : Dict V) (name : String) (value : V) (other : String) :
    ((dict.insert name value).insert name value).get? other = (dict.insert name value).get? other := by
  rw [get?_insert, get?_insert]
  split <;> rfl

theorem renameEntry_lookup (state : Renaming P) (existingName suggestedName : String)
    (h : state.config.contains existingName = true) (name : String) :
    (renameEntry state existingName suggestedName).1.lookup.get? name =
      (state.lookup.insert existingName suggestedName).get? name := by
  have hcontains : state.config.contains existingName = ((state.config.types.get? existingName).isSome ||
      (state.config.unions.get? existingName).isSome || (state.config.enums.get? existingName).isSome) := rfl
  rw [renameEntry, if_pos h]
  cases htype : state.config.types.get? existingName <;>
    cases henum : state.config.enums.get? existingName <;>
    cases hunion : state.config.unions.get? existingName <;>
    simp [renameUnion, renameEnum, renameType, htype, henum, hunion, get?_insert_insert, hcontains] at h ⊢

theorem renameEntry_valid (state : Renaming P) (existingName suggestedName : String)
    (h : state.config.contains existingName = true) : (renameEntry state existingName suggestedName).2 = .ok () := by
  rw [renameEntry, if_pos h]
  rfl

theorem contains_moveNames (config : Config P) (moves : Object String) (name : String) (h : name ∉ moves.map Prod.fst)
    (hc : config.contains name = true) : (moveNames config moves).contains name = true := by
  simp only [Config.contains, Bool.or_eq_true, moveNames] at hc ⊢
  rcases hc with (hc | hc) | hc
  · exact .inl (.inl (contains_moveKeys _ moves name h hc))
  · exact .inl (.inr (contains_moveKeys _ moves name h hc))
  · exact .inr (contains_moveKeys _ moves name h hc)

theorem renameEntries_cons (state : Renaming P) (existingName suggestedName : String) (rest : Object String) :
    (renameEntries state ((existingName, suggestedName) :: rest)).2 =
      ((renameEntry state existingName suggestedName).2.zip
        (renameEntries (renameEntry state existingName suggestedName).1 rest).2).mapOk
          fun (renamed, rest) => renamed :: rest :=
  rfl

theorem renameEntries_spec (state : Renaming P) (moves : Object String) (hn : (moves.map Prod.fst).Nodup)
    (h : ∀ name ∈ moves.map Prod.fst, state.config.contains name = true) :
    (renameEntries state moves).1.config = moveNames state.config moves ∧
      (∀ name, (renameEntries state moves).1.lookup.get? name = (moves.lookup name).or (state.lookup.get? name)) ∧
      ∃ units, (renameEntries state moves).2 = .ok units := by
  induction moves generalizing state with
  | nil => exact ⟨rfl, fun _ => rfl, [], rfl⟩
  | cons entry rest ih =>
    obtain ⟨existingName, suggestedName⟩ := entry
    obtain ⟨hfresh, hrest⟩ := List.nodup_cons.mp hn
    have hfirst := h existingName List.mem_cons_self
    have hconfig := renameEntry_config state existingName suggestedName hfirst
    have hleft : ∀ name ∈ rest.map Prod.fst,
        (renameEntry state existingName suggestedName).1.config.contains name = true := by
      intro name hname
      rw [hconfig]
      refine contains_moveNames _ _ name ?_ (h name (List.mem_cons_of_mem _ hname))
      rw [List.map_singleton, List.mem_singleton]
      rintro rfl
      exact hfresh hname
    obtain ⟨hc, hl, units, hu⟩ := ih (renameEntry state existingName suggestedName).1 hrest hleft
    refine ⟨?_, ?_, () :: units, ?_⟩
    · rw [renameEntries, hc, hconfig]
      rfl
    · intro name
      rw [renameEntries, hl, renameEntry_lookup state existingName suggestedName hfirst, get?_insert,
        List.lookup_cons]
      by_cases hname : name = existingName
      · subst hname
        simp [(lookup_eq_none_iff rest name).mpr hfresh]
      · have hb : (name == existingName) = false := by simpa using hname
        rw [hb, if_neg hname]
    · rw [renameEntries_cons, hu, renameEntry_valid state existingName suggestedName hfirst]
      rfl

theorem renameRoots_query (schema : RootSchema) (existingName suggestedName : String) :
    (renameRoots schema existingName suggestedName).query =
      if schema.query = some existingName then some suggestedName else schema.query := by
  unfold renameRoots
  split
  · rfl
  · split <;> rfl

theorem renameRoots_mutation (schema : RootSchema) (existingName suggestedName : String) :
    (renameRoots schema existingName suggestedName).mutation =
      if schema.query = some existingName then schema.mutation
      else if schema.mutation = some existingName then some suggestedName else schema.mutation := by
  unfold renameRoots
  split
  · rfl
  · split <;> rfl

theorem renameRoots_subscription (schema : RootSchema) (existingName suggestedName : String) :
    (renameRoots schema existingName suggestedName).subscription = schema.subscription := by
  unfold renameRoots
  split
  · rfl
  · split <;> rfl

variable {moves : Object String} {name : String}

theorem relabel_self_or (h : name ∉ moves.map Prod.fst) (p : Prop)
    [Decidable p] : (if p then relabel moves name else name) = name := by
  rw [relabel_of_notMem h, ite_self]

theorem contains_moveKey_of_ne {V : Type} (dict : Dict V) {newName other : String} (hname : other ≠ name)
    (hnew : other ≠ newName) : (dict.moveKey name newName).contains other = dict.contains other := by
  rw [Dict.contains, get?_moveKey, if_neg hnew, if_neg hname, ite_self]
  rfl

theorem relabel_step (types : Dict (TypeDef P)) {existingName suggestedName : String} {rest : Object String}
    (ho : InOrder ((existingName, suggestedName) :: rest)) (h : name ≠ existingName) (p : Prop) [Decidable p] :
    (if (types.moveKey existingName suggestedName).contains name ∧ p then relabel rest name else name) =
      if types.contains name ∧ p then relabel ((existingName, suggestedName) :: rest) name else name := by
  rw [relabel_cons, if_neg h]
  by_cases hnew : name = suggestedName
  · rw [relabel_self_or (hnew ▸ ho.stays), relabel_self_or (hnew ▸ ho.stays)]
  · rw [contains_moveKey_of_ne types h hnew]

theorem renameRootsIn_subscription (types : Dict (TypeDef P)) (schema : RootSchema) (moves : Object String) :
    (renameRootsIn types schema moves).subscription = schema.subscription := by
  induction moves generalizing types schema with
  | nil => rfl
  | cons entry rest ih =>
    rw [renameRootsIn, ih]
    split
    · exact renameRoots_subscription _ _ _
    · rfl

theorem renameRootsIn_query (types : Dict (TypeDef P)) (schema : RootSchema) (moves : Object String)
    (hn : (moves.map Prod.fst).Nodup) (ho : InOrder moves) :
    (renameRootsIn types schema moves).query =
      schema.query.map fun name => if types.contains name then relabel moves name else name := by
  induction moves generalizing types schema with
  | nil => simp [renameRootsIn, relabel]
  | cons entry rest ih =>
    obtain ⟨existingName, suggestedName⟩ := entry
    obtain ⟨hfresh, hrest⟩ := List.nodup_cons.mp hn
    rw [renameRootsIn, ih _ _ hrest (List.pairwise_cons.mp ho).2]
    cases hquery : schema.query with
    | none => split <;> simp [renameRoots_query, hquery]
    | some name =>
      by_cases hname : name = existingName
      · subst hname
        by_cases hc : types.contains name = true
        · simp [hc, renameRoots_query, hquery, relabel_of_notMem ho.stays, relabel_cons]
        · simp [hc, hquery, relabel_of_notMem hfresh]
      · have hkept : (if types.contains existingName = true then renameRoots schema existingName suggestedName
            else schema).query = some name := by
          split
          · simp [renameRoots_query, hquery, hname]
          · exact hquery
        have hstep := relabel_step types ho hname True
        simp only [and_true] at hstep
        rw [hkept, Option.map_some, hstep]
        rfl

theorem renameRootsIn_mutation (types : Dict (TypeDef P)) (schema : RootSchema) (moves : Object String)
    (hn : (moves.map Prod.fst).Nodup) (ho : InOrder moves) :
    (renameRootsIn types schema moves).mutation =
      schema.mutation.map fun name =>
        if types.contains name ∧ schema.query ≠ some name then relabel moves name else name := by
  induction moves generalizing types schema with
  | nil => simp [renameRootsIn, relabel]
  | cons entry rest ih =>
    obtain ⟨existingName, suggestedName⟩ := entry
    obtain ⟨hfresh, hrest⟩ := List.nodup_cons.mp hn
    rw [renameRootsIn, ih _ _ hrest (List.pairwise_cons.mp ho).2]
    cases hmutation : schema.mutation with
    | none => split <;> simp [renameRoots_mutation, hmutation]
    | some name =>
      by_cases hname : name = existingName
      · subst hname
        by_cases hc : types.contains name = true
        · by_cases hquery : schema.query = some name
          · simp [hc, renameRoots_mutation, renameRoots_query, hquery, hmutation, relabel_of_notMem hfresh]
          · simp [hc, renameRoots_mutation, hquery, hmutation, relabel_of_notMem ho.stays, relabel_cons]
        · simp [hc, hmutation, relabel_of_notMem hfresh]
      · let left := if types.contains existingName = true then renameRoots schema existingName suggestedName
            else schema
        have hkept : left.mutation = some name := by
          simp only [left]
          split
          · simp [renameRoots_mutation, hmutation, hname]
          · exact hmutation
        by_cases hnew : name = suggestedName
        · change left.mutation.map _ = _
          rw [hkept, Option.map_some, Option.map_some, relabel_cons, if_neg hname,
            relabel_self_or (hnew ▸ ho.stays), relabel_self_or (hnew ▸ ho.stays)]
        · have hquery : left.query ≠ some name ↔ schema.query ≠ some name := by
            simp only [left]
            split
            · rw [renameRoots_query]
              split
              next heq => simp [heq, Ne.symm hnew, Ne.symm hname]
              next => rfl
            · rfl
          change left.mutation.map (fun name => if _ ∧ left.query ≠ some name then _ else name) = _
          rw [hkept, Option.map_some, Option.map_some, relabel_step types ho hname]
          simp only [hquery]

variable {lookup : Dict String}

theorem replaceName_eq (h : ∀ name, lookup.get? name = moves.lookup name) (name : String) :
    replaceName lookup name = relabel moves name := by
  rw [replaceName, relabel, h]

@[simp]
theorem withName_name (typeOf : WrappingType) : typeOf.withName typeOf.name = typeOf := by
  induction typeOf with
  | named name nonNull => rfl
  | list ofType nonNull ih => rw [WrappingType.name, WrappingType.withName, ih]

theorem replaceTypeOf_eq (h : ∀ name, lookup.get? name = moves.lookup name) (typeOf : WrappingType) :
    replaceTypeOf lookup typeOf = substituteTypeOf (relabel moves) typeOf := by
  rw [replaceTypeOf, substituteTypeOf, relabel, h]
  cases moves.lookup typeOf.name with
  | none => exact (withName_name typeOf).symm
  | some suggestedName => rfl

namespace Resolver

variable {R : Type} {f : String → String}

mutual

theorem substituted_self {resolver : Resolver R} (h : ∀ name ∈ resolver.names, f name = name) :
    resolver.Substituted f resolver := by
  cases resolver with
  | own resolver => rfl
  | service => rfl
  | entityResolver resolverByType => exact ⟨resolverByType, resolverByType, substitutedByType_self h, .refl _, rfl⟩

theorem substitutedByType_self {entries : List (String × Resolver R)}
    (h : ∀ name ∈ namesByType entries, f name = name) : SubstitutedByType f entries entries := by
  cases entries with
  | nil => rfl
  | cons entry rest =>
    obtain ⟨name, resolver⟩ := entry
    refine ⟨resolver, rest, substituted_self fun other hother => ?_, substitutedByType_self fun other hother => ?_, ?_⟩
    · exact h other (List.mem_cons_of_mem _ (List.mem_append_left _ hother))
    · exact h other (List.mem_cons_of_mem _ (List.mem_append_right _ hother))
    · rw [h name List.mem_cons_self]

end

theorem namesByType_perm {entries entries' : List (String × Resolver R)} (h : entries.Perm entries') :
    (namesByType entries).Perm (namesByType entries') := by
  induction h with
  | nil => exact .refl _
  | cons entry _ ih => exact (ih.append_left _).cons _
  | swap entry entry' rest =>
    simp only [namesByType]
    rw [List.perm_iff_count]
    intro name
    simp only [List.count_cons, List.count_append]
    omega
  | trans _ _ ih ih' => exact ih.trans ih'

mutual

theorem names_of_substituted {resolver resolver' : Resolver R} (h : resolver.Substituted f resolver') :
    (resolver.names.map f).Perm resolver'.names := by
  cases resolver with
  | own resolver => cases h; exact .refl _
  | service => cases h; exact .refl _
  | entityResolver resolverByType =>
    obtain ⟨entries, entries', hentries, hperm, rfl⟩ := h
    exact (names_of_substitutedByType hentries).trans (namesByType_perm hperm)

theorem names_of_substitutedByType {entries entries' : List (String × Resolver R)}
    (h : SubstitutedByType f entries entries') : ((namesByType entries).map f).Perm (namesByType entries') := by
  cases entries with
  | nil => cases h; exact .refl _
  | cons entry rest =>
    obtain ⟨name, resolver⟩ := entry
    obtain ⟨resolver', rest', hresolver, hrest, rfl⟩ := h
    simp only [namesByType, List.map_cons, List.map_append]
    exact ((names_of_substituted hresolver).append (names_of_substitutedByType hrest)).cons _

end

theorem substituted_self_iff {moves : Object String} (ho : InOrder moves) (resolver : Resolver R) :
    resolver.Substituted (relabel moves) resolver ↔ ∀ name ∈ resolver.names, relabel moves name = name := by
  constructor
  · intro h
    have hperm := names_of_substituted h
    have hfixed := ho.fixed resolver.names.toFinset fun name hname => by
      have hmem := hperm.mem_iff.mpr (List.mem_toFinset.mp hname)
      obtain ⟨old, hold, heq⟩ := List.mem_map.mp hmem
      exact ⟨old, List.mem_toFinset.mpr hold, heq⟩
    exact fun name hname => hfixed name (List.mem_toFinset.mpr hname)
  · exact substituted_self

end Resolver

theorem mem_collect {α : Type} [DecidableEq α] (items : List α) (a : α) :
    a ∈ (Distinct.collect items).items ↔ a ∈ items := List.mem_dedup

theorem forall₂_same_iff {α : Type} {R : α → α → Prop} (items : List α) (p : α → Prop) (h : ∀ a, R a a ↔ p a) :
    List.Forall₂ R items items ↔ ∀ a ∈ items, p a := by
  rw [List.forall₂_same]
  exact forall₂_congr fun a _ => h a

section References

variable {lookup : Dict String} {moves : Object String} (hl : ∀ name, lookup.get? name = moves.lookup name)

include hl

theorem substitutedField_iff (ho : InOrder moves) (field : Config.Field (withEntities P)) :
    SubstitutedField (relabel moves) field (replaceField lookup field) ↔
      ∀ resolver ∈ field.resolvers, ∀ name ∈ resolver.names, relabel moves name = name := by
  rw [← forall₂_same_iff field.resolvers _ (Resolver.substituted_self_iff ho)]
  constructor
  · exact fun h => h.resolvers
  · intro h
    refine ⟨replaceTypeOf_eq hl field.typeOf, ?_, h, rfl⟩
    refine renamed_map field.args (fun arg => { arg with typeOf := replaceTypeOf lookup arg.typeOf }) fun arg _ => ?_
    rw [replaceTypeOf_eq hl]

theorem substitutedType_iff (ho : InOrder moves) (type : TypeDef (withEntities P)) :
    SubstitutedType (relabel moves) type (replaceType lookup type) ↔
      ∀ resolver ∈ resolversOf type, ∀ name ∈ resolver.names, relabel moves name = name := by
  have hfields : Renamed id (fun field field' => field' = replaceField lookup field) type.fields
      (replaceType lookup type).fields := renamed_map type.fields _ fun _ _ => rfl
  have hresolvers := forall₂_same_iff type.resolvers _ (Resolver.substituted_self_iff ho)
  constructor
  · intro h resolver hresolver
    rcases List.mem_append.mp hresolver with hresolver | hresolver
    · exact hresolvers.mp h.resolvers resolver hresolver
    · obtain ⟨field, hfield, hmem⟩ := List.mem_flatMap.mp hresolver
      exact (substitutedField_iff hl ho field).mp ((hfields.iff_of_graph _).mp h.fields field hfield) resolver hmem
  · intro h
    refine ⟨(hfields.iff_of_graph _).mpr fun field hfield => ?_, fun name => ?_, ?_, rfl⟩
    · refine (substitutedField_iff hl ho field).mpr fun resolver hresolver => ?_
      exact h resolver (List.mem_append_right _ (List.mem_flatMap.mpr ⟨field, hfield, hresolver⟩))
    · rw [replaceType, mem_collect, List.mem_map]
      simp only [replaceName_eq hl]
    · exact hresolvers.mpr fun resolver hresolver => h resolver (List.mem_append_left _ hresolver)

theorem mem_replaceChanged (union : Union) (name : String) :
    name ∈ (replaceChanged lookup union).types.items ↔ ∃ old ∈ union.types.items, relabel moves old = name := by
  rw [replaceChanged, mem_collect, List.mem_append, List.mem_filter, List.mem_filterMap]
  simp only [relabel, hl, Option.isNone_iff_eq_none]
  constructor
  · rintro (⟨hmem, hnone⟩ | ⟨old, hmem, hsome⟩)
    · exact ⟨name, hmem, by rw [hnone, Option.getD_none]⟩
    · exact ⟨old, hmem, by rw [hsome, Option.getD_some]⟩
  · rintro ⟨old, hmem, rfl⟩
    cases hold : moves.lookup old with
    | none => exact .inl ⟨hmem, hold⟩
    | some newName => exact .inr ⟨old, hmem, hold⟩

theorem substitutedUnion_iff (ho : InOrder moves) (union : Union) :
    SubstitutedUnion (relabel moves) union (replaceMembers lookup (replaceChanged lookup union)) ↔
      ∀ name ∈ union.types.items, relabel moves (relabel moves name) = relabel moves name := by
  have hmem : ∀ name, name ∈ (replaceMembers lookup (replaceChanged lookup union)).types.items ↔
      ∃ old ∈ union.types.items, relabel moves (relabel moves old) = name := by
    intro name
    rw [replaceMembers, mem_collect, List.mem_map]
    simp only [mem_replaceChanged hl, replaceName_eq hl]
    constructor
    · rintro ⟨_, ⟨old, hold, rfl⟩, rfl⟩
      exact ⟨old, hold, rfl⟩
    · rintro ⟨old, hold, rfl⟩
      exact ⟨_, ⟨old, hold, rfl⟩, rfl⟩
  constructor
  · intro h name hname
    have hfixed := ho.fixed (union.types.items.map (relabel moves)).toFinset fun other hother => by
      obtain ⟨old, hold, rfl⟩ := List.mem_map.mp (List.mem_toFinset.mp hother)
      obtain ⟨first, hfirst, heq⟩ := (hmem _).mp ((h.types _).mpr ⟨old, hold, rfl⟩)
      exact ⟨relabel moves first, List.mem_toFinset.mpr (List.mem_map.mpr ⟨first, hfirst, rfl⟩), heq⟩
    exact hfixed _ (List.mem_toFinset.mpr (List.mem_map.mpr ⟨name, hname, rfl⟩))
  · intro h
    refine ⟨fun name => (hmem name).trans ?_, rfl⟩
    constructor <;> rintro ⟨old, hold, heq⟩
    · exact ⟨old, hold, h old hold ▸ heq⟩
    · exact ⟨old, hold, (h old hold).trans heq⟩

end References

variable {renames : Dict String}

theorem Permitted.apart {config : Config P} (h : Permitted renames config) :
    Apart renames.entries config.types ∧ Apart renames.entries config.unions ∧ Apart renames.entries config.enums := by
  refine ⟨⟨renames.nodup, h.distinct, ?_⟩, ⟨renames.nodup, h.distinct, ?_⟩, ⟨renames.nodup, h.distinct, ?_⟩⟩ <;>
  · intro name hname hc
    refine h.free name hname ?_
    simp [Config.contains, hc]

theorem transform_eq {config : Config P} (h : Permitted renames config) :
    ∃ lookup, (∀ name, lookup.get? name = renames.entries.lookup name) ∧
      transform renames config = .ok (replaceNames lookup (moveNames config renames.entries)) := by
  obtain ⟨hconfig, hlookup, units, hunits⟩ :=
    renameEntries_spec ⟨config, .empty⟩ renames.entries renames.nodup h.existing
  refine ⟨_, fun name => (hlookup name).trans ?_, ?_⟩
  · rw [get?_empty, Option.or_none]
  · rw [← hconfig]
    change ((renameEntries ⟨config, .empty⟩ renames.entries).2.mapOk fun _ => _) = _
    rw [hunits]
    rfl

theorem inOrder_of_substituted {config : Config (withEntities P)} (h : Permitted renames config)
    (hs : Substituted (relabel renames.entries) config (replaceNames lookup (moveNames config renames.entries))) :
    InOrder renames.entries := by
  rw [InOrder, List.pairwise_iff_forall_sublist]
  rintro ⟨name, newName⟩ ⟨other, last⟩ hsub rfl
  have hlost : ∀ {V : Type} (dict : Dict V), ¬ (dict.moveKeys renames.entries).contains other = true :=
    fun dict => not_contains_of_sublist dict renames.entries h.distinct hsub
  have hname : (name, other) ∈ renames.entries := hsub.subset List.mem_cons_self
  have hnew : relabel renames.entries name = other := relabel_of_mem renames.nodup hname
  have hc := h.existing name (List.mem_map.mpr ⟨_, hname, rfl⟩)
  simp only [Config.contains, Bool.or_eq_true] at hc
  rcases hc with (hc | hc) | hc
  · have hkept := hs.types.contains hc
    rw [hnew, replaceNames, contains_map] at hkept
    exact hlost _ hkept
  · have hkept := hs.unions.contains hc
    rw [hnew, replaceNames, contains_map, contains_map] at hkept
    exact hlost _ hkept
  · have hkept := hs.enums.contains hc
    rw [hnew] at hkept
    exact hlost _ hkept

theorem map_root_iff (root : Option String) (p : String → Prop) [DecidablePred p] (moves : Object String) :
    (root.map fun name => if p name then relabel moves name else name) = root.map (relabel moves) ↔
      ∀ name, root = some name → relabel moves name ≠ name → p name := by
  cases root with
  | none => simp
  | some name =>
    simp only [Option.map_some, Option.some.injEq]
    constructor
    · rintro h _ rfl hne
      by_contra hp
      rw [if_neg hp] at h
      exact hne h.symm
    · intro h
      split
      · rfl
      next hp => exact (not_not.mp fun hne => hp (h name rfl hne)).symm

/-- One rename after another is the renames at once where the renames are in order, the roots are found where they
are looked for, and no union member, subscription root or entity has its name in the way. -/
theorem transform_substitutes_iff (renames : Dict String) (config : Config (withEntities P))
    (h : Permitted renames config) :
    (∃ result, transform renames config = .ok result ∧ Substituted (relabel renames.entries) config result) ↔
      Sequential renames config := by
  obtain ⟨lookup, hl, hresult⟩ := transform_eq h
  obtain ⟨htypes, hunions, henums⟩ := h.apart
  have htypesTo (ho : InOrder renames.entries) :=
    (renamed_moveKeys config.types renames.entries htypes ho).map (replaceType lookup)
      (S := fun type type' => type' = replaceType lookup type) fun _ _ _ heq => congrArg _ heq
  have hunionsTo (ho : InOrder renames.entries) :=
    ((renamed_moveKeys config.unions renames.entries hunions ho).map (replaceChanged lookup)
      (S := fun union union' => union' = replaceChanged lookup union) fun _ _ _ heq => congrArg _ heq).map
      (replaceMembers lookup) (S := fun union union' => union' = replaceMembers lookup (replaceChanged lookup union))
      fun _ _ _ heq => congrArg _ heq
  have hquery (ho : InOrder renames.entries) := (renameRootsIn_query config.types config.schema _ renames.nodup ho)
  have hmutation (ho : InOrder renames.entries) :=
    (renameRootsIn_mutation config.types config.schema _ renames.nodup ho)
  have hsubscription := renameRootsIn_subscription config.types config.schema renames.entries
  constructor
  · rintro ⟨result, hok, hs⟩
    rw [hresult] at hok
    cases hok
    have ho := inOrder_of_substituted h hs
    have hschema := hs.schema
    change renameRootsIn config.types config.schema renames.entries = _ at hschema
    rw [hschema] at hquery hmutation hsubscription
    refine ⟨ho, ?_, ?_, ?_, ?_, ?_⟩
    · exact (map_root_iff config.schema.query _ renames.entries).mp (hquery ho).symm
    · exact (map_root_iff config.schema.mutation _ renames.entries).mp (hmutation ho).symm
    · intro name hname
      simpa [hname] using hsubscription
    · intro union hunion
      exact (substitutedUnion_iff hl ho union).mp (((hunionsTo ho).iff_of_graph _).mp hs.unions union hunion)
    · intro type htype
      exact (substitutedType_iff hl ho type).mp (((htypesTo ho).iff_of_graph _).mp hs.types type htype)
  · intro hs
    have ho := hs.order
    refine ⟨_, hresult, ?_, ?_, ?_, ?_, rfl⟩
    · exact ((htypesTo ho).iff_of_graph _).mpr fun type htype =>
        (substitutedType_iff hl ho type).mpr (hs.resolvers type htype)
    · exact ((hunionsTo ho).iff_of_graph _).mpr fun union hunion =>
        (substitutedUnion_iff hl ho union).mpr (hs.members union hunion)
    · exact renamed_moveKeys config.enums renames.entries henums ho
    · change renameRootsIn config.types config.schema renames.entries = _
      have hq := (hquery ho).trans ((map_root_iff config.schema.query _ renames.entries).mpr hs.query)
      have hm := (hmutation ho).trans ((map_root_iff config.schema.mutation _ renames.entries).mpr hs.mutation)
      have hsub : config.schema.subscription = config.schema.subscription.map (relabel renames.entries) := by
        cases hname : config.schema.subscription with
        | none => rfl
        | some name => rw [Option.map_some, hs.subscription name hname]
      rw [← hq, ← hm, ← hsub, ← hsubscription]

def fieldOf (name : String) : Config.Field (withEntities plain) where
  typeOf := .named name false
  args := .empty
  doc := none
  modify := none
  omission := none
  cache := none
  defaultValue := none
  protectedBy := none
  discriminate := none
  resolvers := []
  directives := []

def objectOf (fields : Dict (Config.Field (withEntities plain))) : TypeDef (withEntities plain) where
  fields := fields
  addedFields := []
  doc := none
  implements := .collect []
  cache := none
  protectedBy := none
  resolvers := []
  directives := []

def postFields : Dict (Config.Field (withEntities plain)) := ⟨[("title", fieldOf "String")], by decide⟩

def blog : Config (withEntities plain) where
  server := ()
  upstream := ()
  schema := ⟨some "Query", none, none⟩
  types := ⟨[("Query", objectOf ⟨[("user", fieldOf "User"), ("post", fieldOf "Post")], by decide⟩),
    ("User", objectOf ⟨[("name", fieldOf "String")], by decide⟩),
    ("Post", objectOf postFields)], by decide⟩
  unions := .empty
  enums := .empty
  links := []
  telemetry := ()

def swap : Dict String := ⟨[("User", "Post"), ("Post", "User")], by decide⟩

def chain : Dict String := ⟨[("Post", "Article"), ("User", "Post"), ("Query", "Root")], by decide⟩

theorem permitted_chain : Permitted chain blog := ⟨by decide, by decide, by decide⟩

theorem chain_substitutes :
    ∃ result, transform chain blog = .ok result ∧ Substituted (relabel chain.entries) blog result := by
  refine (transform_substitutes_iff chain blog permitted_chain).mpr ⟨?_, ?_, ?_, ?_, ?_, ?_⟩
  · decide
  · rintro _ ⟨⟩ -
    decide
  · rintro _ ⟨⟩
  · rintro _ ⟨⟩
  · decide
  · decide

theorem swap_loses_type : Permitted swap blog ∧
    ¬ ∃ result, transform swap blog = .ok result ∧ Substituted (relabel swap.entries) blog result := by
  have h : Permitted swap blog := ⟨by decide, by decide, by decide⟩
  refine ⟨h, ?_⟩
  rintro ⟨result, hresult, hs⟩
  obtain ⟨lookup, -, hok⟩ := transform_eq h
  rw [hresult] at hok
  cases hok
  exact absurd (inOrder_of_substituted h hs) (by decide)

end Gqlforge.TypeRenames
