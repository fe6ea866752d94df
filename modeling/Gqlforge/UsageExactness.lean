import Gqlforge.ImplementedTypes

namespace Gqlforge.SchemaUsage

open Config GuardedSearch FuelRecursion
open Relation

section Interfaces

variable {P : Payloads} {config : Config P}

theorem mapInterface_spec (fuel : ℕ) (entry : String × List String) (state result : TypesMap × TypesMap)
    (he : (interfacesTypes config).get? entry.1 = some entry.2) (hs : MergedRight config state.2)
    (h : mapInterface (interfacesTypes config) fuel entry state = some result) :
    MergedRight config result.2 ∧ Acc (Implements config) entry.1 ∧
      ∃ set, result.1 = state.1.insert entry.1 set ∧ ∀ t, t ∈ set ↔ Leaf config entry.1 t := by
  obtain ⟨⟨set, temp⟩, hmerge, rfl⟩ := Option.map_eq_some_iff.mp h
  obtain ⟨hmerges, hright⟩ := recursiveInterfaceTypeMerging_spec fuel entry.2 state.2 _ hs hmerge
  obtain ⟨hacc, hset⟩ := merges_interface entry.1 entry.2 set he hmerges
  exact ⟨hright, hacc, set, rfl, hset⟩

theorem visitAll_mapInterface (fuel : ℕ) (entries : List (String × List String))
    (he : ∀ entry ∈ entries, (interfacesTypes config).get? entry.1 = some entry.2)
    (state result : TypesMap × TypesMap) (hs : MergedRight config state.2)
    (h : visitAll (mapInterface (interfacesTypes config) fuel) entries state = some result) :
    (∀ entry ∈ entries, Acc (Implements config) entry.1) ∧
      (∀ name, (result.1.get? name).isSome = true ↔
        name ∈ entries.map Prod.fst ∨ (state.1.get? name).isSome = true) ∧
      ∀ name set, result.1.get? name = some set →
        state.1.get? name = some set ∨ ∀ t, t ∈ set ↔ Leaf config name t := by
  induction entries generalizing state with
  | nil =>
    obtain rfl := Option.some.inj h
    exact ⟨nofun, by simp, fun _ _ hset => .inl hset⟩
  | cons entry rest ih =>
    rw [visitAll_cons] at h
    obtain ⟨middle, hm, h⟩ := Option.bind_eq_some_iff.mp h
    obtain ⟨hright, hacc, set, hmiddle, hset⟩ :=
      mapInterface_spec fuel entry state middle (he entry List.mem_cons_self) hs hm
    obtain ⟨haccs, hkeys, hsets⟩ := ih (fun e hr => he e (List.mem_cons_of_mem entry hr)) middle hright h
    refine ⟨List.forall_mem_cons.mpr ⟨hacc, haccs⟩, fun name => ?_, fun name set' hget => ?_⟩
    · rw [hkeys, hmiddle, Dict.get?_insert, List.map_cons, List.mem_cons]
      by_cases hn : name = entry.1 <;> simp [hn]
    · rcases hsets name set' hget with hget' | hleaf
      · rw [hmiddle, Dict.get?_insert] at hget'
        split at hget'
        · next hn =>
          subst hn
          obtain rfl := Option.some.inj hget'
          exact .inr hset
        · exact .inl hget'
      · exact .inr hleaf

/-- The map has the interfaces, each with the types that are no interfaces and reach it. -/
def MapsInterfaces (config : Config P) (map : TypesMap) : Prop :=
  (∀ name, map.contains name = true ↔ IsInterface config name) ∧
    ∀ name set, map.get? name = some set →
      ∀ t, t ∈ set ↔ TransGen (Implements config) t name ∧ ¬ IsInterface config t

theorem get?_of_mem_entries (entry : String × List String) (h : entry ∈ (interfacesTypes config).entries) :
    (interfacesTypes config).get? entry.1 = some entry.2 :=
  (Dict.get?_eq_some_iff _ _ _).mpr h

theorem isInterface_iff_mem (name : String) :
    IsInterface config name ↔ name ∈ (interfacesTypes config).entries.map Prod.fst := by
  rw [← isSome_interfacesTypes]
  exact Dict.contains_iff _ name

theorem interfacesTypesMap_spec (fuel : ℕ) (map : TypesMap) (h : interfacesTypesMap config fuel = some map) :
    (∀ name, IsInterface config name → Acc (Implements config) name) ∧ MapsInterfaces config map := by
  obtain ⟨result, hr, rfl⟩ := Option.map_eq_some_iff.mp h
  obtain ⟨hacc, hkeys, hsets⟩ := visitAll_mapInterface fuel _ get?_of_mem_entries _ result mergedRight_empty hr
  have hnames (name : String) : result.1.contains name = true ↔ IsInterface config name := by
    rw [isInterface_iff_mem, Dict.contains, hkeys]
    simp
  refine ⟨fun name hn => ?_, hnames, fun name set hget t => ?_⟩
  · obtain ⟨entry, he, rfl⟩ := List.mem_map.mp ((isInterface_iff_mem name).mp hn)
    exact hacc entry he
  · have hi : IsInterface config name := (hnames name).mp (by rw [Dict.contains, hget, Option.isSome_some])
    rcases hsets name set hget with hnone | hleaf
    · cases hnone
    · rw [hleaf, leaf_iff_transGen name t hi]

theorem mapInterface_le {fuel fuel' : ℕ} (hf : fuel ≤ fuel') (entry : String × List String)
    (state result : TypesMap × TypesMap) (h : mapInterface (interfacesTypes config) fuel entry state = some result) :
    mapInterface (interfacesTypes config) fuel' entry state = some result := by
  obtain ⟨merged, hm, rfl⟩ := Option.map_eq_some_iff.mp h
  exact Option.map_eq_some_iff.mpr ⟨merged, merging_le _ hf _ _ _ hm, rfl⟩

theorem interfacesTypesMap_returns (hacc : ∀ name, Acc (Implements config) name) :
    ∃ fuel map, interfacesTypesMap config fuel = some map := by
  obtain ⟨fuel, result, hr⟩ := visitAll_returns (mapInterface (interfacesTypes config)) (fun _ => True) mapInterface_le
    (fun _ _ _ _ _ _ => trivial) (interfacesTypes config).entries
    (fun entry _ state _ => by
      obtain ⟨fuel, merged, hm⟩ :=
        recursiveInterfaceTypeMerging_returns entry.2 (fun name _ => hacc name) state.2
      exact ⟨fuel, _, Option.map_eq_some_iff.mpr ⟨merged, hm, rfl⟩⟩)
    (Dict.empty, Dict.empty) trivial
  exact ⟨fuel, result.1, by rw [interfacesTypesMap, hr, Option.map_some]⟩

theorem acc_implements_iff :
    (∀ name, Acc (Implements config) name) ↔ ∀ name, ¬ TransGen (Implements config) name name := by
  constructor
  · exact fun h name => not_transGen_self_of_acc name (h name)
  · intro h name
    have hstep (a b : String) (hb : Implements config b a) :
        (∃ k : config.types.keys.toFinset, b = k.1) ∨ (fun _ : String => 0) b < (fun _ => 0) a := by
      obtain ⟨type, ht, _⟩ := hb
      have hc : config.types.contains b = true := by rw [Dict.contains, ht, Option.isSome_some]
      exact .inl ⟨⟨b, List.mem_toFinset.mpr ((Dict.contains_iff _ b).mp hc)⟩, rfl⟩
    exact (acc_iff_no_cycle hstep name).mpr fun k _ => h k.1

end Interfaces

section Used

variable {P : Payloads} (config : Config P)

def UnionMember (member name : String) : Prop :=
  ∃ union, config.findUnion name = some union ∧ member ∈ union.types.items

def Refers (name other : String) : Prop :=
  UnionMember config other name ∨
    config.findUnion name = none ∧ ∃ type, config.findType name = some type ∧
      ∃ field ∈ type.fields.values, field.typeOf.name = other

/-- The types, unions and enums that are no scalars and can be reached from the names in `starts`. A
scalar has neither fields nor members. -/
def Used (starts : List String) (name : String) : Prop :=
  config.contains name = true ∧
    ∃ start ∈ starts, config.isScalar start = false ∧
      ReflTransGen (fun a b => Refers config a b ∧ config.isScalar b = false) start name

def argumentTypes : List String :=
  config.arguments.map fun arg => arg.2.typeOf.name

structure Exact (cache : Cache P) : Prop where
  config_eq : cache.config = config
  inputTypes : ∀ name, name ∈ cache.inputTypes ↔ Used config (argumentTypes config) name
  outputTypes : ∀ name, name ∈ cache.outputTypes ↔ Used config config.outputRoots name
  interfacesTypesMap : MapsInterfaces config cache.interfacesTypesMap

structure SearchableFrom (starts : List String) : Prop where
  roots : ∀ start ∈ starts, config.contains start = true → config.isScalar start = false
  members : ∀ name, Used config starts name → ∀ member, UnionMember config member name →
    config.contains member = true → config.isScalar member = false
  unions : ∀ name, Used config starts name → ¬ TransGen (UnionMember config) name name

structure Searchable : Prop where
  inputs : SearchableFrom config config.inputRoots
  outputs : SearchableFrom config config.outputRoots
  interfaces : ∀ name, ¬ TransGen (Implements config) name name

end Used

section Reached

variable {P : Payloads} {config : Config P}

theorem member_iff (member name : String) : Member (node config) member name ↔ UnionMember config member name := by
  rw [Member, UnionMember, node]
  cases config.findUnion name with
  | some union => simp [eq_comm]
  | none =>
    cases config.findType name with
    | some type => simp
    | none => cases (config.findEnum name).isSome <;> simp

theorem defined_iff (name : String) : Defined (node config) name ↔ config.contains name = true := by
  rw [Defined, node, Config.contains, Dict.contains, Dict.contains, Dict.contains, Config.findUnion,
    Config.findType, Config.findEnum]
  cases config.unions.get? name with
  | some union => simp
  | none =>
    cases config.types.get? name with
    | some type => simp
    | none => cases (config.enums.get? name).isSome <;> simp

theorem steps_iff (name other : String) :
    Steps (node config) config.isScalar name other ↔
      UnionMember config other name ∨ Refers config name other ∧ config.isScalar other = false := by
  have hguarded : (∃ next, node config name = .guarded next ∧ other ∈ next ∧ config.isScalar other = false) ↔
      (config.findUnion name = none ∧ ∃ type, config.findType name = some type ∧
        ∃ field ∈ type.fields.values, field.typeOf.name = other) ∧ config.isScalar other = false := by
    rw [node]
    cases config.findUnion name with
    | some union => simp
    | none =>
      cases config.findType name with
      | some type => simp
      | none => cases (config.findEnum name).isSome <;> simp
  rw [Steps, member_iff, hguarded, Refers]
  tauto

def declared (config : Config P) : Finset String :=
  (config.types.keys ++ config.unions.keys ++ config.enums.keys).toFinset

theorem mem_declared (name : String) (h : Defined (node config) name) : name ∈ declared config := by
  rw [defined_iff, Config.contains, Bool.or_eq_true, Bool.or_eq_true, Dict.contains_iff, Dict.contains_iff,
    Dict.contains_iff] at h
  simpa [declared, or_assoc] using h

theorem reached_of_used (starts : List String) (name : String) (h : Used config starts name) :
    Reached (node config) config.isScalar starts name := by
  obtain ⟨_, start, hs, _, hr⟩ := h
  refine ⟨start, hs, ?_⟩
  exact ReflTransGen.mono (fun a b hab => (steps_iff a b).mpr (.inr hab)) _ _ hr

theorem Used.not_isScalar (starts : List String) (name : String) (h : Used config starts name) :
    config.isScalar name = false := by
  obtain ⟨_, start, _, hscalar, hr⟩ := h
  rcases ReflTransGen.cases_tail hr with rfl | ⟨_, _, _, hname⟩
  · exact hscalar
  · exact hname

theorem Used.refers (starts : List String) (name other : String) (h : Used config starts name)
    (hr : Refers config name other) (hs : config.isScalar other = false) (hc : config.contains other = true) :
    Used config starts other := by
  obtain ⟨_, start, hstart, hscalar, hpath⟩ := h
  exact ⟨hc, start, hstart, hscalar, hpath.tail ⟨hr, hs⟩⟩

theorem SearchableFrom.used_of_reached (starts : List String) (h : SearchableFrom config starts)
    (name : String) (hd : config.contains name = true)
    (hr : Reached (node config) config.isScalar starts name) : Used config starts name := by
  obtain ⟨start, hs, hr⟩ := hr
  induction hr with
  | refl => exact ⟨hd, start, hs, h.roots start hs hd, .refl⟩
  | @tail y z _ hyz ih =>
    have hy : config.contains y = true := by
      rw [← defined_iff]
      rcases hyz with ⟨_, hn, _⟩ | ⟨_, hn, _⟩ <;> simp [Defined, hn]
    have hused := ih hy
    rcases (steps_iff y z).mp hyz with hm | ⟨hrefers, hscalar⟩
    · exact hused.refers starts y z (.inl hm) (h.members y hused z hm hd) hd
    · exact hused.refers starts y z hrefers hscalar hd

theorem transGen_member_iff (name other : String) :
    TransGen (Member (node config)) name other ↔ TransGen (UnionMember config) name other := by
  have hmember : Member (node config) = UnionMember config := by
    funext a b
    exact propext (member_iff a b)
  rw [hmember]

theorem SearchableFrom.acc (starts : List String) (h : SearchableFrom config starts) :
    ∀ name, Reached (node config) config.isScalar starts name → Acc (Member (node config)) name := by
  refine (acc_member_iff starts (declared config) mem_declared).mpr fun name hr hc => ?_
  have hd : Defined (node config) name := by
    obtain ⟨m, _, next, hn, _⟩ := TransGen.tail'_iff.mp hc
    simp [Defined, hn]
  rw [transGen_member_iff] at hc
  exact h.unions name (h.used_of_reached starts name ((defined_iff name).mp hd) hr) hc

theorem SearchableFrom.search_exact (starts : List String) (h : SearchableFrom config starts) (fuel : ℕ)
    (result : Finset String) (hr : visitAll (search (node config) config.isScalar fuel) starts ∅ = some result)
    (name : String) : name ∈ result ↔ Used config starts name := by
  rw [searchAll_exact starts fuel result hr, defined_iff]
  constructor
  · exact fun hn => h.used_of_reached starts name hn.1 hn.2
  · exact fun hn => ⟨hn.1, reached_of_used starts name hn⟩

theorem searchableFrom_of_exact (starts : List String) (fuel : ℕ) (result : Finset String)
    (hr : visitAll (search (node config) config.isScalar fuel) starts ∅ = some result)
    (hexact : ∀ name, name ∈ result ↔ Used config starts name) : SearchableFrom config starts := by
  have hused (name : String) (hd : config.contains name = true)
      (hn : Reached (node config) config.isScalar starts name) : Used config starts name :=
    (hexact name).mp ((searchAll_exact starts fuel result hr name).mpr ⟨(defined_iff name).mpr hd, hn⟩)
  refine ⟨fun start hs hd => ?_, fun name hn member hm hd => ?_, fun name hn => ?_⟩
  · exact (hused start hd ⟨start, hs, .refl⟩).not_isScalar
  · obtain ⟨start, hs, hpath⟩ := reached_of_used starts name hn
    have hstep : Steps (node config) config.isScalar name member := (steps_iff name member).mpr (.inl hm)
    exact (hused member hd ⟨start, hs, hpath.tail hstep⟩).not_isScalar
  · have hacc := (searchAll_returns_iff starts (declared config) mem_declared).mp ⟨fuel, result, hr⟩
    rw [← transGen_member_iff]
    exact not_transGen_self_of_acc name (hacc name (reached_of_used starts name hn))

theorem used_inputRoots_iff (name : String) :
    Used config config.inputRoots name ↔ Used config (argumentTypes config) name := by
  have hroots (start : String) : (start ∈ config.inputRoots ∧ config.isScalar start = false) ↔
      start ∈ argumentTypes config ∧ config.isScalar start = false := by
    simp only [Config.inputRoots, argumentTypes, List.mem_map, List.mem_filter, Bool.not_eq_true']
    constructor
    · rintro ⟨⟨arg, ⟨harg, _⟩, rfl⟩, hs⟩
      exact ⟨⟨arg, harg, rfl⟩, hs⟩
    · rintro ⟨⟨arg, harg, rfl⟩, hs⟩
      exact ⟨⟨arg, ⟨harg, hs⟩, rfl⟩, hs⟩
  simp only [Used, ← and_assoc, hroots]

theorem cacheFrom_eq_some (fuel : ℕ) (cache : Cache P) :
    cacheFrom fuel config = some cache ↔
      cache.config = config ∧
      visitAll (search (node config) config.isScalar fuel) config.inputRoots ∅ = some cache.inputTypes ∧
      visitAll (search (node config) config.isScalar fuel) config.outputRoots ∅ = some cache.outputTypes ∧
      interfacesTypesMap config fuel = some cache.interfacesTypesMap := by
  obtain ⟨config', inputTypes, outputTypes, map⟩ := cache
  rw [cacheFrom, inputTypes_eq, outputTypes_eq]
  simp only [Option.bind_eq_bind, Option.bind_eq_some_iff, Option.some.injEq, Cache.mk.injEq]
  constructor
  · rintro ⟨_, hi, _, ho, _, hm, rfl, rfl, rfl, rfl⟩
    exact ⟨rfl, hi, ho, hm⟩
  · rintro ⟨rfl, hi, ho, hm⟩
    exact ⟨_, hi, _, ho, _, hm, rfl, rfl, rfl, rfl⟩

theorem searchable_of_exact (fuel : ℕ) (cache : Cache P) (hc : cacheFrom fuel config = some cache)
    (h : Exact config cache) : Searchable config := by
  obtain ⟨-, hi, ho, hm⟩ := (cacheFrom_eq_some fuel cache).mp hc
  refine ⟨searchableFrom_of_exact _ fuel _ hi fun name => ?_, searchableFrom_of_exact _ fuel _ ho h.outputTypes,
    fun name hcycle => ?_⟩
  · rw [h.inputTypes, used_inputRoots_iff]
  · have hinterface : IsInterface config name := by
      obtain ⟨m, _, hm⟩ := TransGen.tail'_iff.mp hcycle
      exact ⟨m, hm⟩
    exact not_transGen_self_of_acc name ((interfacesTypesMap_spec fuel _ hm).1 name hinterface) hcycle

theorem interfacesTypesMap_le {fuel fuel' : ℕ} (hf : fuel ≤ fuel') (map : TypesMap)
    (h : interfacesTypesMap config fuel = some map) : interfacesTypesMap config fuel' = some map := by
  obtain ⟨result, hr, rfl⟩ := Option.map_eq_some_iff.mp h
  exact Option.map_eq_some_iff.mpr ⟨result, visitAll_mono _ _ (mapInterface_le hf) _ _ _ hr, rfl⟩

theorem exact_of_searchable (h : Searchable config) :
    ∃ fuel cache, cacheFrom fuel config = some cache ∧ Exact config cache := by
  obtain ⟨m, inputs, hi⟩ := (searchAll_returns_iff config.inputRoots (declared config) mem_declared).mpr
    (h.inputs.acc config.inputRoots)
  obtain ⟨n, outputs, ho⟩ := (searchAll_returns_iff config.outputRoots (declared config) mem_declared).mpr
    (h.outputs.acc config.outputRoots)
  obtain ⟨k, map, hm⟩ := interfacesTypesMap_returns (acc_implements_iff.mpr h.interfaces)
  have hm' : m ≤ max m (max n k) := Nat.le_max_left _ _
  have hn' : n ≤ max m (max n k) := (Nat.le_max_left n k).trans (Nat.le_max_right _ _)
  have hk' : k ≤ max m (max n k) := (Nat.le_max_right n k).trans (Nat.le_max_right _ _)
  refine ⟨max m (max n k), ⟨config, inputs, outputs, map⟩, (cacheFrom_eq_some _ _).mpr ⟨rfl, ?_, ?_, ?_⟩, rfl,
    fun name => ?_, h.outputs.search_exact _ n outputs ho, (interfacesTypesMap_spec k map hm).2⟩
  · exact visitAll_mono _ _ (search_le hm') _ _ _ hi
  · exact visitAll_mono _ _ (search_le hn') _ _ _ ho
  · exact interfacesTypesMap_le hk' map hm
  · rw [h.inputs.search_exact _ m inputs hi, used_inputRoots_iff]

end Reached

theorem usage_exact_iff {P : Payloads} (config : Config P) :
    (∃ fuel cache, cacheFrom fuel config = some cache ∧ Exact config cache) ↔ Searchable config := by
  constructor
  · rintro ⟨fuel, cache, hc, h⟩
    exact searchable_of_exact fuel cache hc h
  · exact exact_of_searchable

def cyclicUnions : Config plain where
  server := ()
  upstream := ()
  schema := ⟨some "A", none, none⟩
  types := Dict.empty
  unions := ⟨[("A", ⟨⟨["B"], by simp⟩, none⟩), ("B", ⟨⟨["A"], by simp⟩, none⟩)], by simp⟩
  enums := Dict.empty
  links := []
  telemetry := ()

theorem cyclicUnions_unsearched :
    ¬ ∃ fuel cache, cacheFrom fuel cyclicUnions = some cache ∧ Exact cyclicUnions cache := by
  rintro ⟨fuel, cache, hc, h⟩
  have hs := (searchable_of_exact fuel cache hc h).outputs
  have hused : Used cyclicUnions cyclicUnions.outputRoots "A" :=
    ⟨by decide, "A", by decide, by decide, .refl⟩
  have hba : UnionMember cyclicUnions "B" "A" := ⟨_, rfl, by simp⟩
  have hab : UnionMember cyclicUnions "A" "B" := ⟨_, rfl, by simp⟩
  exact hs.unions "A" hused (.tail (.single hab) hba)

end Gqlforge.SchemaUsage
