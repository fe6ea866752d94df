import Gqlforge.SchemaMerge

namespace Gqlforge.SchemaMerge

open Config Schema Validation SchemaUsage

section Entries

variable {V W ε : Type}

theorem lookup_fromIter (F : String × V → Valid (String × W) ε)
    (hF : ∀ entry result, F entry = .ok result → result.1 = entry.1) (entries : List (String × V))
    (merged : List (String × W)) (h : Valid.fromIter entries F = .ok merged) :
    merged.map Prod.fst = entries.map Prod.fst ∧
      ∀ name w, merged.lookup name = some w ↔ ∃ v, entries.lookup name = some v ∧ F (name, v) = .ok (name, w) := by
  induction entries generalizing merged with
  | nil =>
    obtain rfl := Except.ok.inj h
    simp
  | cons entry rest ih =>
    obtain ⟨result, merged', rfl, he, hrest⟩ := (Valid.fromIter_cons_eq_ok _ _ _ _).mp h
    obtain ⟨hkeys, hlookup⟩ := ih merged' hrest
    obtain ⟨key, v⟩ := entry
    obtain ⟨key', w'⟩ := result
    obtain rfl : key' = key := hF _ _ he
    refine ⟨by rw [List.map_cons, List.map_cons, hkeys], fun name w => ?_⟩
    rw [List.lookup_cons, List.lookup_cons]
    by_cases hn : name = key'
    · subst hn
      simp [he]
    · have hb : (name == key') = false := by simpa using hn
      simp [hb, hlookup]

theorem lookup_fromIter_filterMap (F : String × V → Valid (Option (String × W)) ε)
    (hF : ∀ entry result, F entry = .ok (some result) → result.1 = entry.1) (entries : List (String × V))
    (hn : (entries.map Prod.fst).Nodup) (merged : List (Option (String × W)))
    (h : Valid.fromIter entries F = .ok merged) :
    ((merged.filterMap id).map Prod.fst).Sublist (entries.map Prod.fst) ∧
      ∀ name w, (merged.filterMap id).lookup name = some w ↔
        ∃ v, entries.lookup name = some v ∧ F (name, v) = .ok (some (name, w)) := by
  induction entries generalizing merged with
  | nil =>
    obtain rfl := Except.ok.inj h
    simp
  | cons entry rest ih =>
    obtain ⟨result, merged', rfl, he, hrest⟩ := (Valid.fromIter_cons_eq_ok _ _ _ _).mp h
    obtain ⟨key, v⟩ := entry
    rw [List.map_cons, List.nodup_cons] at hn
    obtain ⟨hkeys, hlookup⟩ := ih hn.2 merged' hrest
    have hfresh : rest.lookup key = none := (Dict.lookup_eq_none_iff rest key).mpr hn.1
    cases result with
    | none =>
      rw [List.filterMap_cons_none rfl, List.map_cons]
      refine ⟨hkeys.cons _, fun name w => ?_⟩
      rw [hlookup, List.lookup_cons]
      by_cases hname : name = key
      · subst hname
        simp [hfresh, he]
      · have hb : (name == key) = false := by simpa using hname
        simp [hb]
    | some result =>
      obtain ⟨key', w'⟩ := result
      obtain rfl : key' = key := hF _ _ he
      have hcons : (some (key', w') :: merged').filterMap id = (key', w') :: merged'.filterMap id := rfl
      rw [hcons, List.map_cons, List.map_cons]
      refine ⟨hkeys.cons_cons _, fun name w => ?_⟩
      rw [List.lookup_cons, List.lookup_cons]
      by_cases hname : name = key'
      · subst hname
        simp [he]
      · have hb : (name == key') = false := by simpa using hname
        simp only [hb, hlookup]

end Entries

section Dicts

variable {E : Type} (typeOf : E → WrappingType)

theorem forall_entries_iff (dict : Dict E) (p : String → E → Prop) :
    (∀ entry ∈ dict.entries, p entry.1 entry.2) ↔ ∀ name e, dict.get? name = some e → p name e := by
  simp only [Dict.get?_eq_some_iff]
  exact ⟨fun h name e he => h (name, e) he, fun h entry he => h entry.1 entry.2 he⟩

structure Shrinks (shrink : E → E → Valid E String) (this that : Dict E) : Prop where
  shared : ∀ name f g, this.get? name = some f → that.get? name = some g → ∃ e, shrink f g = .ok e
  left : ∀ name f, this.get? name = some f → that.get? name = none → (typeOf f).isNullable = true
  right : ∀ name g, that.get? name = some g → this.get? name = none → (typeOf g).isNullable = true

theorem shrinkEntry_succeeds_iff (shrink : E → E → Valid E String) (self : Dict E) (name : String) (g : E) :
    (∃ r, shrinkEntry typeOf shrink self (name, g) = .ok r) ↔
      (∀ f, self.get? name = some f → ∃ e, shrink f g = .ok e) ∧
        (self.get? name = none → (typeOf g).isNullable = true) := by
  rw [shrinkEntry, Valid.trace_succeeds_iff]
  dsimp only
  cases self.get? name with
  | some f => simp [Valid.mapOk_succeeds_iff]
  | none => cases h : (typeOf g).isNullable <;> simp [Valid.succeed, Valid.fail]

theorem checkAbsent_succeeds_iff (name : String) (f : E) :
    (∃ r, checkAbsent typeOf (name, f) = .ok r) ↔ (typeOf f).isNullable = true := by
  rw [checkAbsent]
  dsimp only
  cases (typeOf f).isNullable <;> simp [Valid.succeed, Valid.fail, Valid.trace]

theorem shrinkDict_succeeds_iff (shrink : E → E → Valid E String) (self other : Dict E) :
    (∃ result, shrinkDict typeOf shrink self other = .ok result) ↔ Shrinks typeOf shrink self other := by
  rw [shrinkDict, Valid.mapOk_succeeds_iff, Valid.zip_succeeds_iff, Valid.fromIter_succeeds_iff,
    Valid.fromIter_succeeds_iff]
  have hother := forall_entries_iff other fun name g => ∃ r, shrinkEntry typeOf shrink self (name, g) = .ok r
  have hself := forall_entries_iff (self.without other.keys) fun name f => ∃ r, checkAbsent typeOf (name, f) = .ok r
  simp only [Prod.mk.eta] at hother hself
  rw [hother, hself]
  simp only [shrinkEntry_succeeds_iff, checkAbsent_succeeds_iff, Dict.get?_without]
  constructor
  · rintro ⟨h, hleft⟩
    refine ⟨fun name f g hf hg => (h name g hg).1 f hf, fun name f hf hn => hleft name f ?_,
      fun name g hg hn => (h name g hg).2 hn⟩
    rw [if_neg ((Dict.get?_eq_none_iff other name).mp hn), hf]
  · intro h
    refine ⟨fun name g hg => ⟨fun f hf => h.shared name f g hf hg, h.right name g hg⟩, fun name f hf => ?_⟩
    split at hf
    · cases hf
    · next hn => exact h.left name f hf ((Dict.get?_eq_none_iff other name).mpr hn)

theorem get?_shrinkDict (shrink : E → E → Valid E String) (self other result : Dict E)
    (h : shrinkDict typeOf shrink self other = .ok result) (name : String) (e : E) :
    result.get? name = some e ↔ ∃ f g, self.get? name = some f ∧ other.get? name = some g ∧ shrink f g = .ok e := by
  rw [shrinkDict] at h
  obtain ⟨⟨merged, units⟩, hz, rfl⟩ := (Valid.mapOk_eq_ok _ _ _).mp h
  obtain ⟨hm, -⟩ := (Valid.zip_eq_ok _ _ _).mp hz
  have hentry (entry : String × E) (r : Option (String × E)) :
      shrinkEntry typeOf shrink self entry = .ok r ↔
        (∃ f e, self.get? entry.1 = some f ∧ shrink f entry.2 = .ok e ∧ r = some (entry.1, e)) ∨
          (self.get? entry.1 = none ∧ (typeOf entry.2).isNullable = true ∧ r = none) := by
    rw [shrinkEntry, Valid.trace_eq_ok]
    cases self.get? entry.1 with
    | some f =>
      simp only [Valid.mapOk_eq_ok, Option.some.injEq, exists_and_left, exists_eq_left', reduceCtorEq, false_and,
        or_false, @eq_comm _ r]
    | none =>
      cases hn : (typeOf entry.2).isNullable <;> simp [Valid.succeed, Valid.fail, @eq_comm _ r]
  have hkey (entry r : String × E) (hr : shrinkEntry typeOf shrink self entry = .ok (some r)) : r.1 = entry.1 := by
    rcases (hentry entry (some r)).mp hr with ⟨f, e, _, _, he⟩ | ⟨_, _, hn⟩
    · rw [Option.some.inj he]
    · cases hn
  obtain ⟨hkeys, hlookup⟩ := lookup_fromIter_filterMap _ hkey other.entries other.nodup merged hm
  rw [Dict.get?_ofEntries _ (other.nodup.sublist hkeys), hlookup]
  constructor
  · rintro ⟨g, hg, hr⟩
    rcases (hentry (name, g) _).mp hr with ⟨f, e', hf, he, hs⟩ | ⟨_, _, hn⟩
    · obtain rfl := congrArg Prod.snd (Option.some.inj hs)
      exact ⟨f, g, hf, hg, he⟩
    · cases hn
  · rintro ⟨f, g, hf, hg, he⟩
    exact ⟨g, hg, (hentry (name, g) _).mpr (.inl ⟨f, e, hf, he, rfl⟩)⟩

theorem mergeEntry_eq_ok (merge : String → E → E → Valid E String) (self : Dict E) (entry r : String × E) :
    mergeEntry merge self entry = .ok r ↔
      (∃ f e, self.get? entry.1 = some f ∧ merge entry.1 f entry.2 = .ok e ∧ r = (entry.1, e)) ∨
        (self.get? entry.1 = none ∧ r = entry) := by
  rw [mergeEntry, Valid.trace_eq_ok, Valid.mapOk_eq_ok]
  cases self.get? entry.1 with
  | some f =>
    simp only [Option.some.injEq, exists_and_left, exists_eq_left', reduceCtorEq, false_and, or_false,
      @eq_comm _ r]
  | none => simp [Valid.succeed, @eq_comm _ r]

def MergesTo (merge : String → E → E → Valid E String) (self other result : Dict E) : Prop :=
  ∀ name e, result.get? name = some e ↔
    (∃ f g, self.get? name = some f ∧ other.get? name = some g ∧ merge name f g = .ok e) ∨
      (self.get? name = none ∧ other.get? name = some e) ∨
      (self.get? name = some e ∧ other.get? name = none)

theorem merged_succeeds_iff (merge : String → E → E → Valid E String) (self other : Dict E) :
    (∃ merged, Valid.fromIter other.entries (mergeEntry merge self) = .ok merged) ↔
      ∀ name f g, self.get? name = some f → other.get? name = some g → ∃ e, merge name f g = .ok e := by
  rw [Valid.fromIter_succeeds_iff]
  have hother := forall_entries_iff other fun name g => ∃ r, mergeEntry merge self (name, g) = .ok r
  simp only [Prod.mk.eta] at hother
  rw [hother]
  constructor
  · intro h name f g hf hg
    obtain ⟨r, hr⟩ := h name g hg
    rcases (mergeEntry_eq_ok merge self (name, g) r).mp hr with ⟨f', e, hf', he, _⟩ | ⟨hn, _⟩
    · obtain rfl := Option.some.inj (hf.symm.trans hf')
      exact ⟨e, he⟩
    · exact nomatch hf.symm.trans hn
  · intro h name g hg
    cases hf : self.get? name with
    | some f =>
      obtain ⟨e, he⟩ := h name f g hf hg
      exact ⟨(name, e), (mergeEntry_eq_ok merge self (name, g) _).mpr (.inl ⟨f, e, hf, he, rfl⟩)⟩
    | none => exact ⟨(name, g), (mergeEntry_eq_ok merge self (name, g) _).mpr (.inr ⟨hf, rfl⟩)⟩

theorem merged_spec (merge : String → E → E → Valid E String) (self other result : Dict E)
    (merged : List (String × E)) (hm : Valid.fromIter other.entries (mergeEntry merge self) = .ok merged)
    (hr : ∀ name, result.get? name = ((self.without other.keys).get? name).or (merged.lookup name)) :
    MergesTo merge self other result := by
  intro name e
  have hkey (entry r : String × E) (hr : mergeEntry merge self entry = .ok r) : r.1 = entry.1 := by
    rcases (mergeEntry_eq_ok merge self entry r).mp hr with ⟨_, _, _, _, rfl⟩ | ⟨_, rfl⟩ <;> rfl
  obtain ⟨hkeys, hlookup⟩ := lookup_fromIter _ hkey other.entries merged hm
  rw [hr, Dict.get?_without]
  by_cases hmem : name ∈ other.keys
  · rw [if_pos hmem, Option.none_or, hlookup]
    have hother : other.get? name ≠ none := fun hnone => (Dict.get?_eq_none_iff other name).mp hnone hmem
    constructor
    · rintro ⟨g, hg, hr⟩
      rcases (mergeEntry_eq_ok merge self (name, g) _).mp hr with ⟨f, e', hf, he, hs⟩ | ⟨hnone, hs⟩
      · obtain rfl := congrArg Prod.snd hs
        exact .inl ⟨f, g, hf, hg, he⟩
      · obtain rfl := congrArg Prod.snd hs
        exact .inr (.inl ⟨hnone, hg⟩)
    · rintro (⟨f, g, hf, hg, he⟩ | ⟨hnone, hg⟩ | ⟨_, hnone⟩)
      · exact ⟨g, hg, (mergeEntry_eq_ok merge self (name, g) _).mpr (.inl ⟨f, e, hf, he, rfl⟩)⟩
      · exact ⟨e, hg, (mergeEntry_eq_ok merge self (name, e) _).mpr (.inr ⟨hnone, rfl⟩)⟩
      · exact absurd hnone hother
  · have hnone : other.get? name = none := (Dict.get?_eq_none_iff other name).mpr hmem
    have hmerged : merged.lookup name = none := by
      rw [Dict.lookup_eq_none_iff, hkeys]
      exact hmem
    rw [if_neg hmem, hmerged, Option.or_none, hnone]
    simp

theorem merged_nodup (merge : String → E → E → Valid E String) (self other : Dict E)
    (merged : List (String × E)) (hm : Valid.fromIter other.entries (mergeEntry merge self) = .ok merged) :
    merged.map Prod.fst = other.keys ∧ (merged.map Prod.fst).Nodup := by
  have hkey (entry r : String × E) (hr : mergeEntry merge self entry = .ok r) : r.1 = entry.1 := by
    rcases (mergeEntry_eq_ok merge self entry r).mp hr with ⟨_, _, _, _, rfl⟩ | ⟨_, rfl⟩ <;> rfl
  obtain ⟨hkeys, -⟩ := lookup_fromIter _ hkey other.entries merged hm
  exact ⟨hkeys, hkeys ▸ other.nodup⟩

theorem expandDict_succeeds_iff (expand : E → E → Valid E String) (self other : Dict E) :
    (∃ result, expandDict expand self other = .ok result) ↔
      ∀ name f g, self.get? name = some f → other.get? name = some g → ∃ e, expand f g = .ok e := by
  rw [expandDict, Valid.mapOk_succeeds_iff]
  exact merged_succeeds_iff (fun _ => expand) self other

theorem expandDict_mergesTo (expand : E → E → Valid E String) (self other result : Dict E)
    (h : expandDict expand self other = .ok result) : MergesTo (fun _ => expand) self other result := by
  rw [expandDict] at h
  obtain ⟨merged, hm, rfl⟩ := (Valid.mapOk_eq_ok _ _ _).mp h
  refine merged_spec _ self other _ merged hm fun name => ?_
  rw [Dict.get?_extend _ _ (self.without other.keys).nodup, Dict.get?_ofEntries _ (merged_nodup _ _ _ _ hm).2]
  rfl

theorem extend_mergesTo (merge : String → E → E → Valid E String) (self other : Dict E)
    (merged : List (String × E)) (hm : Valid.fromIter other.entries (mergeEntry merge self) = .ok merged) :
    MergesTo merge self other ((self.without other.keys).extend merged) := by
  obtain ⟨hkeys, hn⟩ := merged_nodup merge self other merged hm
  refine merged_spec merge self other _ merged hm fun name => ?_
  rw [Dict.get?_extend _ _ hn, Dict.get?_without]
  by_cases hmem : name ∈ other.keys
  · rw [if_pos hmem, Option.or_none, Option.none_or]
  · have hmerged : merged.lookup name = none := by
      rw [Dict.lookup_eq_none_iff, hkeys]
      exact hmem
    rw [hmerged, Option.none_or, Option.or_none]

end Dicts

section Unify

variable {P : Payloads} (R : Merging P)

theorem mergeField_eq_ok (mergeTypes : WrappingType → WrappingType → Valid WrappingType String)
    (f g e : Config.Field P) (h : mergeField R mergeTypes f g = .ok e) :
    mergeTypes f.typeOf g.typeOf = .ok e.typeOf ∧
      shrinkDict Arg.typeOf (shrinkArg R) f.args g.args = .ok e.args ∧
      e.defaultValue = f.defaultValue.or g.defaultValue := by
  obtain ⟨⟨typeOf, args⟩, hz, rfl⟩ := (Valid.mapOk_eq_ok _ _ _).mp h
  obtain ⟨ht, ha⟩ := (Valid.zip_eq_ok _ _ _).mp hz
  exact ⟨ht, ha, rfl⟩

theorem shrinkArg_eq_ok (f g e : Arg P) (h : shrinkArg R f g = .ok e) :
    shrinkType f.typeOf g.typeOf = .ok e.typeOf ∧ e.defaultValue = f.defaultValue.or g.defaultValue := by
  obtain ⟨typeOf, ht, rfl⟩ := (Valid.mapOk_eq_ok _ _ _).mp h
  exact ⟨ht, rfl⟩

theorem shrinkTypeDef_eq_ok (t u e : TypeDef P) (h : shrinkTypeDef R t u = .ok e) :
    shrinkDict Config.Field.typeOf (shrinkField R) t.fields u.fields = .ok e.fields := by
  obtain ⟨fields, hf, rfl⟩ := (Valid.mapOk_eq_ok _ _ _).mp h
  exact hf

theorem expandTypeDef_eq_ok (t u e : TypeDef P) (h : expandTypeDef R t u = .ok e) :
    expandDict (expandField R) t.fields u.fields = .ok e.fields := by
  obtain ⟨fields, hf, rfl⟩ := (Valid.mapOk_eq_ok _ _ _).mp h
  exact hf

structure Unified (X Y M : Cache P) : Prop where
  types : MergesTo (fun name => mergeTypeDef R (typeUsage X Y name)) X.config.types Y.config.types
    M.config.types
  enums : MergesTo (fun name => mergeEnum (enumUsage X Y name)) X.config.enums Y.config.enums
    M.config.enums
  unions : M.config.unions = X.config.unions.mergeRight mergeUnion Y.config.unions
  schema : M.config.schema = unifySchema X.config.schema Y.config.schema
  inputTypes : M.inputTypes = X.inputTypes ∪ Y.inputTypes
  outputTypes : M.outputTypes = X.outputTypes ∪ Y.outputTypes
  interfacesTypesMap : M.interfacesTypesMap =
    X.interfacesTypesMap.mergeRight (· ∪ ·) Y.interfacesTypesMap

theorem unify_spec (self other result : Cache P) (h : unify R self other = .ok result) :
    Unified R self other result := by
  obtain ⟨⟨types, enums⟩, hz, rfl⟩ := (Valid.mapOk_eq_ok _ _ _).mp h
  obtain ⟨ht, he⟩ := (Valid.zip_eq_ok _ _ _).mp hz
  exact ⟨extend_mergesTo _ _ _ types ht, extend_mergesTo _ _ _ enums he, rfl, rfl, rfl, rfl, rfl⟩

theorem unify_succeeds_iff (self other : Cache P) :
    (∃ result, unify R self other = .ok result) ↔
      (∀ name f g, self.config.types.get? name = some f → other.config.types.get? name = some g →
        ∃ e, mergeTypeDef R (typeUsage self other name) f g = .ok e) ∧
      ∀ name f g, self.config.enums.get? name = some f → other.config.enums.get? name = some g →
        ∃ e, mergeEnum (enumUsage self other name) f g = .ok e := by
  rw [unify, Valid.mapOk_succeeds_iff, Valid.zip_succeeds_iff]
  exact and_congr (merged_succeeds_iff _ _ _) (merged_succeeds_iff _ _ _)

end Unify

end Gqlforge.SchemaMerge
