import Gqlforge.NameCandidates
import Gqlforge.SequentialRenames

namespace Gqlforge.TypeRenames

open Json Schema Validation Config Dict

variable {P : Payloads} (casing : Casing) (config : Config P)

theorem mem_sortedEntries {V : Type} {dict : Dict V} {entry : String × V} (h : entry ∈ sortedEntries dict) :
    entry ∈ dict.entries :=
  (SortedMap.ofPairs_subperm dict.entries).subset h

def Proposed (typeName candidate : String) : Prop :=
  ∃ type ∈ config.types.values, ∃ entry ∈ type.fields.entries,
    isIgnored config entry.1 entry.2 = false ∧ entry.2.typeOf.name = typeName ∧ casing.singular entry.1 = candidate

def AllProposed (candidates : Candidates) : Prop :=
  ∀ entry ∈ candidates.entries, ∀ candidate ∈ entry.2.entries, Proposed casing config entry.1 candidate.1

theorem addCandidate_proposed {typeName : String} {type : TypeDef P} (htype : type ∈ config.types.values)
    {candidates : Candidates} {entry : String × Config.Field P} (hentry : entry ∈ type.fields.entries)
    (h : AllProposed casing config candidates) :
    AllProposed casing config (addCandidate casing config typeName candidates entry) := by
  rw [addCandidate]
  split
  · exact h
  next hused =>
    have hnew : Proposed casing config entry.2.typeOf.name (casing.singular entry.1) :=
      ⟨type, htype, entry, hentry, by simpa using hused, rfl, rfl⟩
    intro named hnamed candidate hcandidate
    rcases SortedMap.mem_insert hnamed with rfl | hnamed
    · rcases SortedMap.mem_insert hcandidate with rfl | hcandidate
      · exact hnew
      · cases hold : candidates.get? entry.2.typeOf.name with
        | none => rw [hold] at hcandidate; cases hcandidate
        | some innerMap =>
          rw [hold] at hcandidate
          have hmem := (lookup_eq_some_iff _ candidates.nodup_keys _ _).mp hold
          exact h _ hmem candidate hcandidate
    · exact h named hnamed candidate hcandidate

theorem generate_proposed : AllProposed casing config (generate casing config) := by
  have hfields (type : String × TypeDef P) (htype : type.2 ∈ config.types.values) (entries : List (String × Config.Field P))
      (hentries : ∀ entry ∈ entries, entry ∈ type.2.fields.entries) (candidates : Candidates)
      (h : AllProposed casing config candidates) :
      AllProposed casing config (entries.foldl (addCandidate casing config type.1) candidates) := by
    induction entries generalizing candidates with
    | nil => exact h
    | cons entry rest ih =>
      refine ih (fun other hother => hentries other (List.mem_cons_of_mem _ hother)) _ ?_
      exact addCandidate_proposed casing config htype (hentries entry List.mem_cons_self) h
  have htypes (types : List (String × TypeDef P)) (h : ∀ type ∈ types, type.2 ∈ config.types.values)
      (candidates : Candidates) (hc : AllProposed casing config candidates) :
      AllProposed casing config (types.foldl (fun candidates type =>
        (sortedEntries type.2.fields).foldl (addCandidate casing config type.1) candidates) candidates) := by
    induction types generalizing candidates with
    | nil => exact hc
    | cons type rest ih =>
      refine ih (fun other hother => h other (List.mem_cons_of_mem _ hother)) _ ?_
      exact hfields type (h type List.mem_cons_self) _ (fun _ => mem_sortedEntries) candidates hc
  refine htypes _ (fun type htype => ?_) _ fun entry hentry => absurd hentry List.not_mem_nil
  exact List.mem_map.mpr ⟨type, mem_sortedEntries htype, rfl⟩

theorem mem_bestCandidate {candidates : List (String × CandidateStats)} {best : String × CandidateStats}
    (h : bestCandidate candidates = some best) : best ∈ candidates := by
  cases candidates with
  | nil => cases h
  | cons first rest =>
    have hfold (candidates : List (String × CandidateStats)) (start : String × CandidateStats) :
        candidates.foldl (fun best other => if outranks other best then other else best) start ∈
          start :: candidates := by
      induction candidates generalizing start with
      | nil => exact List.mem_cons_self
      | cons other rest ih =>
        rw [List.foldl_cons]
        split
        · exact List.mem_cons_of_mem _ (ih other)
        · rcases List.mem_cons.mp (ih start) with heq | hmem
          · rw [heq]
            exact List.mem_cons_self
          · exact List.mem_cons_of_mem _ (List.mem_cons_of_mem _ hmem)
    cases h
    exact hfold rest first

/-- The picked names are different, and each is the form of a name proposed for its type that no type has. -/
structure Picked (converged : Converged) : Prop where
  distinct : (converged.finalized.entries.map Prod.snd).Nodup
  names : ∀ entry ∈ converged.finalized.entries, entry.2 ∈ converged.names
  proposed : ∀ entry ∈ converged.finalized.entries,
    config.types.contains entry.2 = false ∧
      ∃ candidate, Proposed casing config entry.1 candidate ∧ casing.pascal candidate = entry.2

theorem insert_values_nodup {V : Type} {map : SortedMap String V} {key : String} {value : V}
    (hn : (map.entries.map Prod.snd).Nodup) (hfresh : value ∉ map.entries.map Prod.snd) :
    ((map.insert key value).entries.map Prod.snd).Nodup := by
  obtain ⟨entries, hperm, hsub⟩ := SortedMap.insertEntry_subperm key value map.entries
  exact (hperm.map Prod.snd).nodup_iff.mp ((List.nodup_cons.mpr ⟨hfresh, hn⟩).sublist (hsub.map Prod.snd))

theorem convergeType_picked {converged : Converged} (h : Picked casing config converged)
    (entry : String × SortedMap String CandidateStats)
    (hentry : ∀ candidate ∈ entry.2.entries, Proposed casing config entry.1 candidate.1) :
    Picked casing config (convergeType casing config converged entry) := by
  rw [convergeType]
  split
  next candidate stats hbest =>
    obtain ⟨hmem, hfree⟩ := List.mem_filter.mp (mem_bestCandidate hbest)
    simp only [Bool.and_eq_true, Bool.not_eq_true', List.contains_eq_mem, decide_eq_false_iff_not] at hfree
    refine ⟨insert_values_nodup h.distinct fun hold => ?_, fun picked hpicked => ?_, fun picked hpicked => ?_⟩
    · obtain ⟨picked, hpicked, heq⟩ := List.mem_map.mp hold
      exact hfree.1 (heq ▸ h.names picked hpicked)
    · rcases SortedMap.mem_insert hpicked with rfl | hpicked
      · exact List.mem_cons_self
      · exact List.mem_cons_of_mem _ (h.names picked hpicked)
    · rcases SortedMap.mem_insert hpicked with rfl | hpicked
      · exact ⟨hfree.2, candidate, hentry _ hmem, rfl⟩
      · exact h.proposed picked hpicked
  · exact h

theorem converge_picked (candidates : List (String × SortedMap String CandidateStats)) {converged : Converged}
    (h : Picked casing config converged)
    (hproposed : ∀ entry ∈ candidates, ∀ candidate ∈ entry.2.entries, Proposed casing config entry.1 candidate.1) :
    Picked casing config (candidates.foldl (convergeType casing config) converged) := by
  induction candidates generalizing converged with
  | nil => exact h
  | cons entry rest ih =>
    refine ih ?_ fun other hother => hproposed other (List.mem_cons_of_mem _ hother)
    exact convergeType_picked casing config h entry (hproposed entry List.mem_cons_self)

theorem improvedNames_picked :
    Picked casing config ((generate casing config).entries.foldl (convergeType casing config) ⟨.empty, []⟩) := by
  refine converge_picked casing config _ ⟨.nil, ?_, ?_⟩ (generate_proposed casing config)
  · exact fun entry hentry => absurd hentry List.not_mem_nil
  · exact fun entry hentry => absurd hentry List.not_mem_nil

def IsRoot (name : String) : Prop :=
  config.schema.query = some name ∨ config.schema.mutation = some name ∨ config.schema.subscription = some name

def Referenced (typeName : String) : Prop :=
  ∃ type ∈ config.types.values, ∃ entry ∈ type.fields.entries,
    isIgnored config entry.1 entry.2 = false ∧ entry.2.typeOf.name = typeName

def InUse (name : String) : Prop :=
  config.unions.contains name = true ∨ config.enums.contains name = true ∨ IsRoot config name ∨
    Scalar.isPredefined name = true ∨ Referenced config name

/-- The name made of a field is not in use, unless it is that of an object type, which is never picked. -/
def Unused : Prop :=
  ∀ type ∈ config.types.values, ∀ entry ∈ type.fields.entries, isIgnored config entry.1 entry.2 = false →
    config.types.contains (casing.pascal (casing.singular entry.1)) = true ∨
      ¬ InUse config (casing.pascal (casing.singular entry.1))

def Remains (name : String) : Prop :=
  Scalar.isPredefined name = true ∨
    (config.contains name = true ∨ IsRoot config name) ∧ name ∉ (improvedNames casing config).keys

def substituteType (f : String → String) (type : TypeDef P) : TypeDef P :=
  { type with
    fields := type.fields.map fun _ field =>
      { field with
        typeOf := substituteTypeOf f field.typeOf
        args := field.args.map fun _ arg => { arg with typeOf := substituteTypeOf f arg.typeOf } }
    implements := Distinct.collect (type.implements.items.map f) }

structure SameTypes (f : String → String) (config config' : Config P) : Prop where
  injective : ∀ name other, config.contains name = true → config.contains other = true → f name = f other →
    name = other
  types : Renamed f (fun type type' => type' = substituteType f type) config.types config'.types
  unions : Renamed f (SubstitutedUnion f) config.unions config'.unions
  enums : Renamed f (fun enum enum' => enum' = enum) config.enums config'.enums

structure RenamedApart : Prop where
  distinct : (improvedNames casing config).values.Nodup
  fresh : ∀ name ∈ (improvedNames casing config).values, ¬ Remains casing config name
  eligible : ∀ name ∈ (improvedNames casing config).keys, Referenced config name
  result : ∀ result, improveTypeNames casing config = .ok result →
    SameTypes (relabel (improvedNames casing config).entries) config result

theorem replaceType_eq {lookup : Dict String} {moves : Object String} (h : ∀ name, lookup.get? name = moves.lookup name)
    (type : TypeDef P) : replaceType lookup type = substituteType (relabel moves) type := by
  have htypeOf : replaceTypeOf lookup = substituteTypeOf (relabel moves) := funext (replaceTypeOf_eq h)
  have hname : replaceName lookup = relabel moves := funext (replaceName_eq h)
  simp only [replaceType, substituteType, replaceField, htypeOf, hname]

theorem contains_of_moveNames {config : Config P} {name newName other : String} (hne : other ≠ newName)
    (hc : (moveNames config [(name, newName)]).contains other = true) : config.contains other = true := by
  have hold {V : Type} (dict : Dict V) (h : (dict.moveKey name newName).contains other = true) :
      dict.contains other = true := by
    by_contra hgone
    exact not_contains_moveKey dict hne (.inr hgone) h
  simp only [Config.contains, Bool.or_eq_true, moveNames] at hc ⊢
  rcases hc with (hc | hc) | hc
  · exact .inl (.inl (hold _ hc))
  · exact .inl (.inr (hold _ hc))
  · exact .inr (hold _ hc)

theorem existing_of_renamed (state : Renaming P) (moves : Object String) (units : List Unit)
    (hfresh : ∀ newName ∈ moves.map Prod.snd, newName ∉ moves.map Prod.fst)
    (h : (renameEntries state moves).2 = .ok units) :
    ∀ name ∈ moves.map Prod.fst, state.config.contains name = true := by
  induction moves generalizing state units with
  | nil => exact fun name hname => absurd hname List.not_mem_nil
  | cons entry rest ih =>
    obtain ⟨existingName, suggestedName⟩ := entry
    rw [renameEntries_cons, Valid.mapOk_eq_ok] at h
    obtain ⟨⟨renamed, restUnits⟩, hzip, -⟩ := h
    obtain ⟨hfirst, hrest⟩ := (Valid.zip_eq_ok _ _ _).mp hzip
    have hexisting : state.config.contains existingName = true := by
      by_contra hmissing
      rw [renameEntry, if_neg hmissing] at hfirst
      cases hfirst
    have hleft := ih _ _ (fun newName hnew hold => hfresh newName (List.mem_cons_of_mem _ hnew)
      (List.mem_cons_of_mem _ hold)) hrest
    rw [renameEntry_config state existingName suggestedName hexisting] at hleft
    intro name hname
    rcases List.mem_cons.mp hname with rfl | hmem
    · exact hexisting
    · refine contains_of_moveNames ?_ (hleft name hmem)
      rintro rfl
      exact hfresh name List.mem_cons_self (List.mem_cons_of_mem _ hmem)

theorem picked_unused (h : Unused casing config) {name : String} (hname : name ∈ (improvedNames casing config).values) :
    config.types.contains name = false ∧ ¬ InUse config name := by
  obtain ⟨picked, hpicked, rfl⟩ := List.mem_map.mp hname
  obtain ⟨hfree, _, ⟨type, htype, entry, hentry, hused, -, rfl⟩, heq⟩ :=
    (improvedNames_picked casing config).proposed picked hpicked
  refine ⟨hfree, heq ▸ (h type htype entry hentry hused).resolve_left ?_⟩
  rw [heq, hfree]
  exact Bool.false_ne_true

theorem not_contains_picked (h : Unused casing config) {name : String}
    (hname : name ∈ (improvedNames casing config).values) : ¬ config.contains name = true := by
  obtain ⟨hfree, huse⟩ := picked_unused casing config h hname
  simp only [Config.contains, Bool.or_eq_true, hfree]
  rintro ((hc | hc) | hc)
  · cases hc
  · exact huse (.inl hc)
  · exact huse (.inr (.inl hc))

theorem keys_referenced {name : String} (hname : name ∈ (improvedNames casing config).keys) :
    Referenced config name := by
  obtain ⟨picked, hpicked, rfl⟩ := List.mem_map.mp hname
  obtain ⟨-, _, ⟨type, htype, entry, hentry, hused, heq, -⟩, -⟩ :=
    (improvedNames_picked casing config).proposed picked hpicked
  exact ⟨type, htype, entry, hentry, hused, heq⟩

theorem sameTypes_of_unused (h : Unused casing config) (result : Config P)
    (hresult : improveTypeNames casing config = .ok result) :
    SameTypes (relabel (improvedNames casing config).entries) config result := by
  let moves := (improvedNames casing config).entries
  have hapart : ∀ newName ∈ moves.map Prod.snd, newName ∉ moves.map Prod.fst := fun newName hnew hold =>
    (picked_unused casing config h hnew).2 (.inr (.inr (.inr (.inr (keys_referenced casing config hold)))))
  obtain ⟨units, hunits, -⟩ := (Valid.mapOk_eq_ok _ _ _).mp hresult
  have hpermitted : Permitted (improvedNames casing config) config :=
    ⟨existing_of_renamed ⟨config, .empty⟩ moves units hapart hunits, (improvedNames_picked casing config).distinct,
      fun name hname hc => absurd hc (not_contains_picked casing config h hname)⟩
  have ho : InOrder moves := by
    refine List.pairwise_of_forall_mem_list fun entry hentry later hlater heq => ?_
    exact hapart entry.2 (List.mem_map.mpr ⟨entry, hentry, rfl⟩) (heq ▸ List.mem_map.mpr ⟨later, hlater, rfl⟩)
  obtain ⟨lookup, hl, hok⟩ := transform_eq hpermitted
  rw [improveTypeNames, hok] at hresult
  cases hresult
  obtain ⟨htypes, hunions, henums⟩ := hpermitted.apart
  refine ⟨fun name other hname hother heq => ?_, ?_, ?_, renamed_moveKeys config.enums moves henums ho⟩
  · exact @relabel_inj moves (fun name => config.contains name = true) (improvedNames casing config).nodup
      hpermitted.distinct hpermitted.free name other hname hother heq
  · exact (renamed_moveKeys config.types moves htypes ho).map (replaceType lookup)
      fun type _ _ heq => heq ▸ replaceType_eq hl type
  · have hmembers : Renamed (relabel moves)
        (fun union union' => union' = replaceMembers lookup (replaceChanged lookup union)) config.unions
        (replaceNames lookup (moveNames config moves)).unions :=
      ((renamed_moveKeys config.unions moves hunions ho).map (replaceChanged lookup)
        (S := fun union union' => union' = replaceChanged lookup union) fun _ _ _ heq => congrArg _ heq).map
        (replaceMembers lookup) fun _ _ _ heq => congrArg _ heq
    refine (hmembers.iff_of_graph _).mpr fun union _ => (substitutedUnion_iff hl ho union).mpr fun name _ => ?_
    rcases relabel_eq_or moves (improvedNames casing config).nodup name with hmoved | ⟨-, hstays⟩
    · exact relabel_of_notMem (hapart _ (List.mem_map.mpr ⟨_, hmoved, rfl⟩))
    · rw [hstays, hstays]

/-- Where no proposed name is in use, the types are renamed apart. -/
theorem renamedApart_of_unused (h : Unused casing config) : RenamedApart casing config := by
  refine ⟨(improvedNames_picked casing config).distinct, fun name hname hremains => ?_,
    fun name hname => keys_referenced casing config hname, sameTypes_of_unused casing config h⟩
  obtain ⟨hfree, huse⟩ := picked_unused casing config h hname
  rcases hremains with hscalar | ⟨hc | hroot, -⟩
  · exact huse (.inr (.inr (.inr (.inl hscalar))))
  · exact not_contains_picked casing config h hname hc
  · exact huse (.inr (.inr (.inl hroot)))

instance (name : String) : Decidable (Referenced config name) :=
  inferInstanceAs (Decidable (∃ type ∈ config.types.values, _))

instance (name : String) : Decidable (IsRoot config name) :=
  inferInstanceAs (Decidable (_ ∨ _ ∨ _))

instance (name : String) : Decidable (InUse config name) :=
  inferInstanceAs (Decidable (_ ∨ _ ∨ _ ∨ _ ∨ _))

instance : Decidable (Unused casing config) :=
  inferInstanceAs (Decidable (∀ type ∈ config.types.values, ∀ entry ∈ type.fields.entries, _))

def firstUpper : Casing where
  pascal name := match name.toList with
    | [] => name
    | first :: rest => String.ofList (first.toUpper :: rest)
  singular := id
  lowercase name := String.ofList (name.toList.map Char.toLower)

def mooded (enums : Dict Enum) : Config (withEntities plain) where
  server := ()
  upstream := ()
  schema := ⟨some "Query", none, none⟩
  types := ⟨[("Query", objectOf ⟨[("user", fieldOf "T1")], by decide⟩),
    ("T1", objectOf ⟨[("name", fieldOf "String"), ("mood", fieldOf "T2")], by decide⟩),
    ("T2", objectOf postFields)], by decide⟩
  unions := .empty
  enums := enums
  links := []
  telemetry := ()

theorem mooded_renamedApart : RenamedApart firstUpper (mooded .empty) ∧
    (improvedNames firstUpper (mooded .empty)).entries = [("T1", "User"), ("T2", "Mood")] :=
  ⟨renamedApart_of_unused firstUpper (mooded .empty) (by decide), by decide⟩

def moods : Dict Enum := ⟨[("Mood", ⟨⟨[⟨"HAPPY", none⟩], by decide⟩, none⟩)], by decide⟩

theorem mood_taken : "Mood" ∈ (improvedNames firstUpper (mooded moods)).values ∧
    (mooded moods).enums.contains "Mood" = true ∧ ¬ RenamedApart firstUpper (mooded moods) := by
  have hpicked : "Mood" ∈ (improvedNames firstUpper (mooded moods)).values := by decide
  refine ⟨hpicked, by decide, fun h => h.fresh "Mood" hpicked (.inr ⟨.inl ?_, ?_⟩)⟩
  · decide
  · decide

end Gqlforge.TypeRenames
