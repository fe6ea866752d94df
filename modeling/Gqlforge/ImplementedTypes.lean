import Gqlforge.SchemaUsage

namespace Gqlforge.SchemaUsage

open Config GuardedSearch
open Relation

variable {P : Payloads} (config : Config P)

def Implements (typeName interface : String) : Prop :=
  ∃ type, config.types.get? typeName = some type ∧ interface ∈ type.implements.items

def IsInterface (name : String) : Prop :=
  ∃ typeName, Implements config typeName name

theorem get?_addType (interfaces : InterfaceTypes) (typeName implementName name : String) :
    (addType interfaces typeName implementName).get? name =
      if name = implementName then some (((interfaces.get? implementName).getD []).insert typeName)
      else interfaces.get? name :=
  Dict.get?_insert _ _ _ _

theorem mem_foldl_addType (interfaces : InterfaceTypes) (typeName : String) (implements : List String)
    (name t : String) :
    t ∈ ((implements.foldl (addType · typeName) interfaces).get? name).getD [] ↔
      (t = typeName ∧ name ∈ implements) ∨ t ∈ (interfaces.get? name).getD [] := by
  induction implements generalizing interfaces with
  | nil => simp
  | cons implementName rest ih =>
    rw [List.foldl_cons, ih, get?_addType, List.mem_cons]
    by_cases h : name = implementName
    · subst h
      simp [List.mem_insert_iff]
      tauto
    · simp [h]

theorem isSome_foldl_addType (interfaces : InterfaceTypes) (typeName : String) (implements : List String)
    (name : String) :
    ((implements.foldl (addType · typeName) interfaces).get? name).isSome = true ↔
      name ∈ implements ∨ (interfaces.get? name).isSome = true := by
  induction implements generalizing interfaces with
  | nil => simp
  | cons implementName rest ih =>
    rw [List.foldl_cons, ih, get?_addType, List.mem_cons]
    by_cases h : name = implementName <;> simp [h]

theorem mem_interfacesTypes (name t : String) :
    t ∈ ((interfacesTypes config).get? name).getD [] ↔ Implements config t name := by
  have hfold (entries : List (String × TypeDef P)) (interfaces : InterfaceTypes) :
      t ∈ ((entries.foldl (fun interfaces entry =>
        entry.2.implements.items.foldl (addType · entry.1) interfaces) interfaces).get? name).getD [] ↔
        (∃ type, (t, type) ∈ entries ∧ name ∈ type.implements.items) ∨ t ∈ (interfaces.get? name).getD [] := by
    induction entries generalizing interfaces with
    | nil => simp
    | cons entry rest ih =>
      obtain ⟨typeName, type⟩ := entry
      rw [List.foldl_cons, ih, mem_foldl_addType]
      simp only [List.mem_cons, Prod.mk.injEq, or_and_right, exists_or, and_assoc, exists_and_left,
        exists_eq_left]
      rw [or_left_comm, or_assoc]
  rw [interfacesTypes, hfold]
  simp [Implements, Dict.get?_eq_some_iff]

theorem isSome_interfacesTypes (name : String) :
    ((interfacesTypes config).get? name).isSome = true ↔ IsInterface config name := by
  have hfold (entries : List (String × TypeDef P)) (interfaces : InterfaceTypes) :
      ((entries.foldl (fun interfaces entry =>
        entry.2.implements.items.foldl (addType · entry.1) interfaces) interfaces).get? name).isSome = true ↔
        (∃ t type, (t, type) ∈ entries ∧ name ∈ type.implements.items) ∨
          (interfaces.get? name).isSome = true := by
    induction entries generalizing interfaces with
    | nil => simp
    | cons entry rest ih =>
      obtain ⟨typeName, type⟩ := entry
      rw [List.foldl_cons, ih, isSome_foldl_addType]
      simp only [List.mem_cons, Prod.mk.injEq, or_and_right, exists_or, and_assoc, exists_and_left,
        exists_eq_left]
      rw [or_left_comm, or_assoc]
  rw [interfacesTypes, hfold]
  simp [IsInterface, Implements, Dict.get?_eq_some_iff]

def Leaf (name t : String) : Prop :=
  ReflTransGen (fun n m => Implements config m n) name t ∧ ¬ IsInterface config t

variable {config}

theorem leaf_of_not_isInterface (name t : String) (h : ¬ IsInterface config name) : Leaf config name t ↔ t = name := by
  constructor
  · rintro ⟨hr, -⟩
    rcases ReflTransGen.cases_head hr with rfl | ⟨m, hm, -⟩
    · rfl
    · exact absurd ⟨m, hm⟩ h
  · rintro rfl
    exact ⟨.refl, h⟩

theorem leaf_of_isInterface (name t : String) (h : IsInterface config name) :
    Leaf config name t ↔ ∃ m, Implements config m name ∧ Leaf config m t := by
  constructor
  · rintro ⟨hr, ht⟩
    rcases ReflTransGen.cases_head hr with rfl | ⟨m, hm, hr⟩
    · exact absurd h ht
    · exact ⟨m, hm, hr, ht⟩
  · rintro ⟨m, hm, hr, ht⟩
    exact ⟨.head hm hr, ht⟩

theorem leaf_iff_transGen (name t : String) (h : IsInterface config name) :
    Leaf config name t ↔ TransGen (Implements config) t name ∧ ¬ IsInterface config t := by
  rw [Leaf]
  refine and_congr_left fun ht => ?_
  rw [reflTransGen_iff_eq_or_transGen, ← transGen_swap (r := Implements config)]
  constructor
  · rintro (rfl | hr)
    · exact absurd h ht
    · exact hr
  · exact .inr

def MergedRight (config : Config P) (temp : TypesMap) : Prop :=
  ∀ name set, temp.get? name = some set → Acc (Implements config) name ∧ ∀ t, t ∈ set ↔ Leaf config name t

theorem mergedRight_empty : MergedRight config Dict.empty := by
  intro name set h
  cases h

theorem mergedRight_insert (temp : TypesMap) (name : String) (set : Finset String) (h : MergedRight config temp)
    (hacc : Acc (Implements config) name) (hset : ∀ t, t ∈ set ↔ Leaf config name t) :
    MergedRight config (temp.insert name set) := by
  intro other set' hget
  rw [Dict.get?_insert] at hget
  split at hget
  · next he =>
    subst he
    obtain rfl := Option.some.inj hget
    exact ⟨hacc, hset⟩
  · exact h other set' hget

def Merges (config : Config P) (typesSet : List String) (set : Finset String) : Prop :=
  (∀ name ∈ typesSet, Acc (Implements config) name) ∧ ∀ t, t ∈ set ↔ ∃ name ∈ typesSet, Leaf config name t

theorem mem_of_interfacesTypes (name : String) (types : List String)
    (h : (interfacesTypes config).get? name = some types) (t : String) : t ∈ types ↔ Implements config t name := by
  rw [← mem_interfacesTypes, h, Option.getD_some]

theorem isInterface_of_interfacesTypes (name : String) (types : List String)
    (h : (interfacesTypes config).get? name = some types) : IsInterface config name := by
  rw [← isSome_interfacesTypes, h, Option.isSome_some]

theorem not_isInterface_of_interfacesTypes (name : String) (h : (interfacesTypes config).get? name = none) :
    ¬ IsInterface config name := by
  rw [← isSome_interfacesTypes, h, Option.isSome_none]
  exact Bool.false_ne_true

theorem merges_interface (name : String) (types : List String) (set : Finset String)
    (hi : (interfacesTypes config).get? name = some types) (h : Merges config types set) :
    Acc (Implements config) name ∧ ∀ t, t ∈ set ↔ Leaf config name t := by
  constructor
  · exact Acc.intro name fun m hm => h.1 m ((mem_of_interfacesTypes name types hi m).mpr hm)
  · intro t
    rw [h.2, leaf_of_isInterface name t (isInterface_of_interfacesTypes name types hi)]
    simp only [mem_of_interfacesTypes name types hi]

theorem mergeType_spec (merging : List String → TypesMap → Option (Finset String × TypesMap))
    (hm : ∀ typesSet temp result, MergedRight config temp → merging typesSet temp = some result →
      Merges config typesSet result.1 ∧ MergedRight config result.2)
    (typeName : String) (state result : Finset String × TypesMap) (hs : MergedRight config state.2)
    (h : mergeType (interfacesTypes config) merging typeName state = some result) :
    Acc (Implements config) typeName ∧ MergedRight config result.2 ∧
      ∀ t, t ∈ result.1 ↔ t ∈ state.1 ∨ Leaf config typeName t := by
  rw [mergeType] at h
  cases hi : (interfacesTypes config).get? typeName with
  | none =>
    rw [hi] at h
    obtain rfl := Option.some.inj h
    have hn := not_isInterface_of_interfacesTypes typeName hi
    refine ⟨Acc.intro typeName fun m hm => absurd ⟨m, hm⟩ hn, hs, fun t => ?_⟩
    rw [Finset.mem_insert, leaf_of_not_isInterface typeName t hn, or_comm]
  | some types =>
    rw [hi] at h
    cases ht : state.2.get? typeName with
    | some set =>
      rw [ht] at h
      obtain rfl := Option.some.inj h
      obtain ⟨hacc, hset⟩ := hs typeName set ht
      exact ⟨hacc, hs, fun t => by rw [Finset.mem_union, hset]⟩
    | none =>
      rw [ht] at h
      obtain ⟨⟨set, temp⟩, hmerge, rfl⟩ := Option.map_eq_some_iff.mp h
      obtain ⟨hmerges, hright⟩ := hm types state.2 (set, temp) hs hmerge
      obtain ⟨hacc, hset⟩ := merges_interface typeName types set hi hmerges
      exact ⟨hacc, mergedRight_insert temp typeName set hright hacc hset,
        fun t => by rw [Finset.mem_union, hset]⟩

theorem visitAll_mergeType (merging : List String → TypesMap → Option (Finset String × TypesMap))
    (hm : ∀ typesSet temp result, MergedRight config temp → merging typesSet temp = some result →
      Merges config typesSet result.1 ∧ MergedRight config result.2)
    (typesSet : List String) (state result : Finset String × TypesMap) (hs : MergedRight config state.2)
    (h : visitAll (mergeType (interfacesTypes config) merging) typesSet state = some result) :
    (∀ name ∈ typesSet, Acc (Implements config) name) ∧ MergedRight config result.2 ∧
      ∀ t, t ∈ result.1 ↔ t ∈ state.1 ∨ ∃ name ∈ typesSet, Leaf config name t := by
  induction typesSet generalizing state with
  | nil =>
    obtain rfl := Option.some.inj h
    exact ⟨nofun, hs, by simp⟩
  | cons typeName rest ih =>
    rw [visitAll_cons] at h
    obtain ⟨middle, hmiddle, h⟩ := Option.bind_eq_some_iff.mp h
    obtain ⟨hacc, hs', hmem⟩ := mergeType_spec merging hm typeName state middle hs hmiddle
    obtain ⟨haccs, hs'', hmems⟩ := ih middle hs' h
    refine ⟨List.forall_mem_cons.mpr ⟨hacc, haccs⟩, hs'', fun t => ?_⟩
    rw [hmems, hmem, or_assoc, List.exists_mem_cons_iff]

theorem recursiveInterfaceTypeMerging_spec (fuel : ℕ) (typesSet : List String) (temp : TypesMap)
    (result : Finset String × TypesMap) (ht : MergedRight config temp)
    (h : recursiveInterfaceTypeMerging (interfacesTypes config) fuel typesSet temp = some result) :
    Merges config typesSet result.1 ∧ MergedRight config result.2 := by
  induction fuel generalizing typesSet temp result with
  | zero => cases h
  | succ fuel ih =>
    obtain ⟨hacc, hright, hmem⟩ := visitAll_mergeType _ ih typesSet (∅, temp) result ht h
    exact ⟨⟨hacc, fun t => by simp [hmem]⟩, hright⟩

section Returns

variable (interfaces : InterfaceTypes)

theorem mergeType_mono (merging merging' : List String → TypesMap → Option (Finset String × TypesMap))
    (h : ∀ typesSet temp result, merging typesSet temp = some result → merging' typesSet temp = some result)
    (typeName : String) (state result : Finset String × TypesMap)
    (hm : mergeType interfaces merging typeName state = some result) :
    mergeType interfaces merging' typeName state = some result := by
  rw [mergeType] at hm ⊢
  cases hi : interfaces.get? typeName with
  | none => rwa [hi] at hm
  | some types =>
    rw [hi] at hm
    cases ht : state.2.get? typeName with
    | some set => rwa [ht] at hm
    | none =>
      rw [ht] at hm
      obtain ⟨merged, hmerge, rfl⟩ := Option.map_eq_some_iff.mp hm
      exact Option.map_eq_some_iff.mpr ⟨merged, h types state.2 merged hmerge, rfl⟩

theorem merging_succ (fuel : ℕ) (typesSet : List String) (temp : TypesMap) (result : Finset String × TypesMap)
    (h : recursiveInterfaceTypeMerging interfaces fuel typesSet temp = some result) :
    recursiveInterfaceTypeMerging interfaces (fuel + 1) typesSet temp = some result := by
  induction fuel generalizing typesSet temp result with
  | zero => cases h
  | succ fuel ih => exact visitAll_mono _ _ (mergeType_mono interfaces _ _ ih) typesSet _ _ h

theorem merging_le {fuel fuel' : ℕ} (hf : fuel ≤ fuel') (typesSet : List String) (temp : TypesMap)
    (result : Finset String × TypesMap)
    (h : recursiveInterfaceTypeMerging interfaces fuel typesSet temp = some result) :
    recursiveInterfaceTypeMerging interfaces fuel' typesSet temp = some result := by
  induction hf with
  | refl => exact h
  | step _ ih => exact merging_succ interfaces _ typesSet temp result ih

theorem visitAll_mergeType_returns (typesSet : List String)
    (hreturns : ∀ name ∈ typesSet, ∀ state, ∃ fuel result,
      mergeType interfaces (recursiveInterfaceTypeMerging interfaces fuel) name state = some result)
    (state : Finset String × TypesMap) :
    ∃ fuel result, visitAll (mergeType interfaces (recursiveInterfaceTypeMerging interfaces fuel)) typesSet
      state = some result := by
  refine visitAll_returns (fun fuel => mergeType interfaces (recursiveInterfaceTypeMerging interfaces fuel))
    (fun _ => True) ?_ (fun _ _ _ _ _ _ => trivial) typesSet (fun y hy s _ => hreturns y hy s) state trivial
  intro fuel fuel' hf
  exact mergeType_mono interfaces _ _ (merging_le interfaces hf)

end Returns

theorem mergeType_returns (name : String) (hacc : Acc (Implements config) name) (state : Finset String × TypesMap) :
    ∃ fuel result, mergeType (interfacesTypes config)
      (recursiveInterfaceTypeMerging (interfacesTypes config) fuel) name state = some result := by
  induction hacc generalizing state with
  | intro name _ ih =>
    simp only [mergeType]
    cases hi : (interfacesTypes config).get? name with
    | none => exact ⟨0, _, rfl⟩
    | some types =>
      cases ht : state.2.get? name with
      | some set => exact ⟨0, _, rfl⟩
      | none =>
        have hall : ∀ m ∈ types, ∀ s, ∃ fuel result, mergeType (interfacesTypes config)
            (recursiveInterfaceTypeMerging (interfacesTypes config) fuel) m s = some result :=
          fun m hm s => ih m ((mem_of_interfacesTypes name types hi m).mp hm) s
        obtain ⟨fuel, result, hr⟩ := visitAll_mergeType_returns _ types hall (∅, state.2)
        exact ⟨fuel + 1, _, Option.map_eq_some_iff.mpr ⟨result, hr, rfl⟩⟩

theorem recursiveInterfaceTypeMerging_returns (typesSet : List String)
    (hacc : ∀ name ∈ typesSet, Acc (Implements config) name) (temp : TypesMap) :
    ∃ fuel result, recursiveInterfaceTypeMerging (interfacesTypes config) fuel typesSet temp = some result := by
  obtain ⟨fuel, result, hr⟩ := visitAll_mergeType_returns _ typesSet
    (fun name hn s => mergeType_returns name (hacc name hn) s) (∅, temp)
  exact ⟨fuel + 1, result, hr⟩

end Gqlforge.SchemaUsage
