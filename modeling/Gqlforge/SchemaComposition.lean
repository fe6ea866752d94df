import Gqlforge.MergeOrder
import Gqlforge.MergeSoundness

namespace Gqlforge.SchemaMerge

open Config Schema Validation SchemaUsage PartialMerges NameState

section States

variable {P : Payloads} (R : Merging P)

noncomputable def typeState (cache : Cache P) (name : String) : NameState FieldsSig :=
  ⟨decide (name ∈ cache.inputTypes), isTypeOutput cache name, dictSig fieldsSig cache.config.types name⟩

def enumSig (enum : Enum) : EnumSig := (enum.variants.items.toFinset, enum.doc)

def enumState (cache : Cache P) (name : String) : NameState EnumSig :=
  ⟨decide (name ∈ cache.inputTypes), decide (name ∈ cache.outputTypes), dictSig enumSig cache.config.enums name⟩

def unionState (cache : Cache P) (name : String) : Option (Finset String) :=
  dictSig (fun union : Union => union.types.items.toFinset) cache.config.unions name

theorem mergeTypeDef_sig (use : Usage) (t u : TypeDef P) :
    (mergeTypeDef R use t u).toOption.map fieldsSig = mergeFields use (fieldsSig t) (fieldsSig u) := by
  cases use with
  | input => exact shrinkTypeDef_sig R t u
  | output => exact expandTypeDef_sig R t u
  | both => rfl
  | different => rfl
  | unknown => rfl

theorem sameEnum_iff (self other : Enum) : sameEnum self other = true ↔ enumSig self = enumSig other := by
  rw [sameEnum, Bool.and_eq_true, Bool.and_eq_true, List.all_eq_true, List.all_eq_true, beq_iff_eq, enumSig,
    enumSig, Prod.mk.injEq, and_congr_left_iff]
  intro _
  simp only [List.contains_iff_mem, Finset.ext_iff, List.mem_toFinset]
  constructor
  · rintro ⟨h, h'⟩ variant
    exact ⟨h variant, h' variant⟩
  · exact fun h => ⟨fun variant => (h variant).mp, fun variant => (h variant).mpr⟩

theorem mergeEnum_sig (use : Usage) (self other : Enum) :
    (mergeEnum use self other).toOption.map enumSig = mergeVariants use (enumSig self) (enumSig other) := by
  cases use with
  | input =>
    have hvariants : (Distinct.retain self.variants fun key => other.variants.items.contains key).items.toFinset =
        self.variants.items.toFinset ∩ other.variants.items.toFinset := by
      ext variant
      simp [Distinct.retain]
    exact congrArg (fun v => some (v, docMergeRight self.doc other.doc)) hvariants
  | output =>
    have hvariants : (Distinct.mergeRight self.variants other.variants).items.toFinset =
        self.variants.items.toFinset ∪ other.variants.items.toFinset := by
      ext variant
      simp [Distinct.mem_mergeRight]
    exact congrArg (fun v => some (v, docMergeRight self.doc other.doc)) hvariants
  | both =>
    rw [mergeEnum]
    change _ = if enumSig self = enumSig other then some (enumSig self) else none
    by_cases h : sameEnum self other = true
    · rw [if_pos h, if_pos ((sameEnum_iff self other).mp h)]
      rfl
    · rw [if_neg h, if_neg fun h' => h ((sameEnum_iff self other).mpr h')]
      rfl
  | different => rfl
  | unknown => rfl

theorem decide_mem_union (types others : Finset String) (name : String) :
    decide (name ∈ types ∪ others) = (decide (name ∈ types) || decide (name ∈ others)) := by
  rw [← Bool.decide_or]
  exact decide_eq_decide.mpr Finset.mem_union

theorem isTypeOutput_unified (X Y M : Cache P) (h : Unified R X Y M) (name : String) :
    isTypeOutput M name = (isTypeOutput X name || isTypeOutput Y name) := by
  have hmap : M.interfacesTypesMap.contains name =
      (X.interfacesTypesMap.contains name || Y.interfacesTypesMap.contains name) := by
    rw [h.interfacesTypesMap, Dict.contains, Dict.contains, Dict.contains, Dict.get?_mergeRight]
    cases X.interfacesTypesMap.get? name <;> cases Y.interfacesTypesMap.get? name <;> rfl
  rw [isTypeOutput, isTypeOutput, isTypeOutput, hmap, h.outputTypes, decide_mem_union]
  ac_rfl

theorem isInput_unified (X Y M : Cache P) (h : Unified R X Y M) (name : String) :
    decide (name ∈ M.inputTypes) = (decide (name ∈ X.inputTypes) || decide (name ∈ Y.inputTypes)) := by
  rw [h.inputTypes, decide_mem_union]

theorem unify_typeState (X Y M : Cache P) (h : unify R X Y = .ok M) (name : String) :
    step mergeFields (typeState X name) (typeState Y name) = some (typeState M name) := by
  have hu := unify_spec R X Y M h
  have hjoin := mergesTo_sig fieldsSig _ (fun name => mergeFields (typeUsage X Y name))
    (fun name => mergeTypeDef_sig R (typeUsage X Y name)) _ _ _ hu.types ((unify_succeeds_iff R X Y).mp ⟨M, h⟩).1 name
  rw [step]
  change (join (mergeFields (typeUsage X Y name)) (dictSig fieldsSig X.config.types name)
    (dictSig fieldsSig Y.config.types name)).map _ = _
  rw [hjoin, Option.map_some, merged, typeState, typeState, typeState, isInput_unified R X Y M hu,
    isTypeOutput_unified R X Y M hu]

theorem unify_enumState (X Y M : Cache P) (h : unify R X Y = .ok M) (name : String) :
    step mergeVariants (enumState X name) (enumState Y name) = some (enumState M name) := by
  have hu := unify_spec R X Y M h
  have hjoin := mergesTo_sig enumSig _ (fun name => mergeVariants (enumUsage X Y name))
    (fun name => mergeEnum_sig (enumUsage X Y name)) _ _ _ hu.enums ((unify_succeeds_iff R X Y).mp ⟨M, h⟩).2 name
  rw [step]
  change (join (mergeVariants (enumUsage X Y name)) (dictSig enumSig X.config.enums name)
    (dictSig enumSig Y.config.enums name)).map _ = _
  rw [hjoin, Option.map_some, merged, enumState, enumState, enumState, isInput_unified R X Y M hu, hu.outputTypes,
    decide_mem_union]

theorem unify_unionState (X Y M : Cache P) (h : unify R X Y = .ok M) (name : String) :
    join (fun members others => some (members ∪ others)) (unionState X name) (unionState Y name) =
      some (unionState M name) := by
  rw [unionState, unionState, unionState, dictSig, dictSig, dictSig, (unify_spec R X Y M h).unions,
    Dict.get?_mergeRight]
  cases X.config.unions.get? name with
  | none => cases Y.config.unions.get? name <;> rfl
  | some u =>
    cases Y.config.unions.get? name with
    | none => rfl
    | some v =>
      refine congrArg (fun members => some (some members)) ?_
      ext member
      simp [mergeUnion, Distinct.mem_mergeRight]

theorem unify_of_steps (X Y : Cache P) (ht : ∀ name, step mergeFields (typeState X name) (typeState Y name) ≠ none)
    (he : ∀ name, step mergeVariants (enumState X name) (enumState Y name) ≠ none) : ∃ M, unify R X Y = .ok M := by
  refine (unify_succeeds_iff R X Y).mpr ⟨?_, ?_⟩
  · refine merges_of_join fieldsSig _ (fun name => mergeFields (typeUsage X Y name))
      (fun name => mergeTypeDef_sig R (typeUsage X Y name)) _ _ fun name hn => ht name ?_
    exact Option.map_eq_none_iff.mpr hn
  · refine merges_of_join enumSig _ (fun name => mergeVariants (enumUsage X Y name))
      (fun name => mergeEnum_sig (enumUsage X Y name)) _ _ fun name hn => he name ?_
    exact Option.map_eq_none_iff.mpr hn

end States

section Composition

variable {P : Payloads} (R : Merging P)

def compose (router : Cache P) (subgraphs : List (Cache P)) : Valid (Cache P) String :=
  subgraphs.foldl (fun acc other => Valid.andThen acc fun config => unify R config other) (Valid.succeed router)

theorem foldl_error (subgraphs : List (Cache P)) (e : ValidationError String) :
    subgraphs.foldl (fun acc other => Valid.andThen acc fun config => unify R config other)
      (Except.error e : Valid (Cache P) String) = .error e := by
  induction subgraphs with
  | nil => rfl
  | cons subgraph rest ih => exact ih

theorem compose_cons_eq_ok (router subgraph : Cache P) (rest : List (Cache P)) (M : Cache P) :
    compose R router (subgraph :: rest) = .ok M ↔ ∃ X, unify R router subgraph = .ok X ∧ compose R X rest = .ok M := by
  rw [compose, List.foldl_cons]
  change rest.foldl _ (unify R router subgraph) = _ ↔ _
  cases unify R router subgraph with
  | ok X =>
    constructor
    · exact fun h => ⟨X, rfl, h⟩
    · rintro ⟨_, hX, h⟩
      obtain rfl := Except.ok.inj hX
      exact h
  | error e =>
    rw [foldl_error]
    exact iff_of_false nofun nofun

theorem compose_states (subgraphs : List (Cache P)) (router M : Cache P) (h : compose R router subgraphs = .ok M)
    (name : String) :
    (subgraphs.map (typeState · name)).foldlM (step mergeFields) (typeState router name) =
        some (typeState M name) ∧
      (subgraphs.map (enumState · name)).foldlM (step mergeVariants) (enumState router name) =
        some (enumState M name) ∧
      (subgraphs.map (unionState · name)).foldlM (join fun members others => some (members ∪ others))
        (unionState router name) = some (unionState M name) := by
  induction subgraphs generalizing router with
  | nil =>
    obtain rfl := Except.ok.inj h
    exact ⟨rfl, rfl, rfl⟩
  | cons subgraph rest ih =>
    obtain ⟨X, hX, hrest⟩ := (compose_cons_eq_ok R _ _ _ _).mp h
    obtain ⟨ht, he, hu⟩ := ih X hrest
    refine ⟨?_, ?_, ?_⟩
    · rw [List.map_cons, List.foldlM_cons, unify_typeState R _ _ X hX]
      exact ht
    · rw [List.map_cons, List.foldlM_cons, unify_enumState R _ _ X hX]
      exact he
    · rw [List.map_cons, List.foldlM_cons, unify_unionState R _ _ X hX]
      exact hu

theorem compose_of_states (subgraphs : List (Cache P)) (router : Cache P)
    (ht : ∀ name, (subgraphs.map (typeState · name)).foldlM (step mergeFields) (typeState router name) ≠ none)
    (he : ∀ name, (subgraphs.map (enumState · name)).foldlM (step mergeVariants) (enumState router name) ≠ none) :
    ∃ M, compose R router subgraphs = .ok M := by
  induction subgraphs generalizing router with
  | nil => exact ⟨router, rfl⟩
  | cons subgraph rest ih =>
    obtain ⟨X, hX⟩ := unify_of_steps R router subgraph
      (fun name hn => ht name (by rw [List.map_cons, List.foldlM_cons, hn]; rfl))
      (fun name hn => he name (by rw [List.map_cons, List.foldlM_cons, hn]; rfl))
    obtain ⟨M, hM⟩ := ih X
      (fun name => by
        have h := ht name
        rwa [List.map_cons, List.foldlM_cons, unify_typeState R _ _ X hX] at h)
      (fun name => by
        have h := he name
        rwa [List.map_cons, List.foldlM_cons, unify_enumState R _ _ X hX] at h)
    exact ⟨M, (compose_cons_eq_ok R _ _ _ _).mpr ⟨X, hX, hM⟩⟩

/-- The order of the subgraphs makes no difference to any type or enum that one of the modules declares. -/
structure Orderly (router : Cache P) (subgraphs : List (Cache P)) : Prop where
  types : ∀ name, (∃ X ∈ router :: subgraphs, X.config.types.contains name = true) →
    TypeGood (typeState router name) (subgraphs.map (typeState · name))
  enums : ∀ name, (∃ X ∈ router :: subgraphs, X.config.enums.contains name = true) →
    EnumGood (enumState router name) (subgraphs.map (enumState · name))

structure SameSchema (M M' : Cache P) : Prop where
  types : ∀ name, dictSig fieldsSig M.config.types name = dictSig fieldsSig M'.config.types name
  variants : ∀ name, (dictSig enumSig M.config.enums name).map Prod.fst =
    (dictSig enumSig M'.config.enums name).map Prod.fst
  unions : ∀ name, unionState M name = unionState M' name

theorem foldlM_undeclared {D : Type} (merge : Usage → D → D → Option D) (L : List (NameState D)) (s : NameState D)
    (h : ∀ x ∈ s :: L, x.decl = none) : ∃ s', L.foldlM (step merge) s = some s' ∧ s'.decl = none := by
  induction L generalizing s with
  | nil => exact ⟨s, rfl, h s (by simp)⟩
  | cons x rest ih =>
    have hs : step merge s x = some (merged s x none) := by
      rw [step, h s (by simp), h x (by simp)]
      rfl
    rw [List.foldlM_cons, hs]
    refine ih _ fun y hy => ?_
    rcases List.mem_cons.mp hy with rfl | hy
    · rfl
    · exact h y (by simp [hy])

def SameFold {D T : Type} (view : D → T) (a b : Option (NameState D)) : Prop :=
  Option.Rel (fun s s' => s.decl.map view = s'.decl.map view) a b

theorem dictSig_eq_none {E S : Type} (sig : E → S) (dict : Dict E) (name : String)
    (h : dict.contains name ≠ true) : dictSig sig dict name = none := by
  rw [Dict.contains, Ne, Bool.not_eq_true, Option.isSome_eq_false_iff, Option.isNone_iff_eq_none] at h
  rw [dictSig, h]
  rfl

theorem sameFold_undeclared {D T E : Type} (view : D → T) (merge : Usage → D → D → Option D)
    (state : Cache P → String → NameState D) (dict : Cache P → Dict E) (sig : E → D)
    (hstate : ∀ X name, (state X name).decl = dictSig sig (dict X) name) (router : Cache P)
    (subgraphs : List (Cache P)) (name : String) (h : ¬ ∃ X ∈ router :: subgraphs, (dict X).contains name = true)
    (permuted : List (Cache P)) (hp : subgraphs.Perm permuted) :
    SameFold view ((subgraphs.map (state · name)).foldlM (step merge) (state router name))
      ((permuted.map (state · name)).foldlM (step merge) (state router name)) := by
  have hnone (X : Cache P) (hX : X ∈ router :: subgraphs) : (state X name).decl = none := by
    rw [hstate]
    exact dictSig_eq_none sig _ name fun hc => h ⟨X, hX, hc⟩
  have hall (L : List (Cache P)) (hL : ∀ X ∈ L, X ∈ subgraphs) :
      ∀ x ∈ state router name :: L.map (state · name), x.decl = none := by
    intro x hx
    rcases List.mem_cons.mp hx with rfl | hx
    · exact hnone router (by simp)
    · obtain ⟨X, hX, rfl⟩ := List.mem_map.mp hx
      exact hnone X (by simp [hL X hX])
  obtain ⟨s, hs, hd⟩ := foldlM_undeclared merge _ _ (hall subgraphs fun _ hX => hX)
  obtain ⟨s', hs', hd'⟩ := foldlM_undeclared merge _ _ (hall permuted fun _ hX => hp.mem_iff.mpr hX)
  rw [hs, hs', SameFold]
  exact .some (by rw [hd, hd'])

theorem sameFold_types (router : Cache P) (subgraphs permuted : List (Cache P)) (hp : subgraphs.Perm permuted)
    (h : Orderly router subgraphs) (name : String) :
    SameFold id ((subgraphs.map (typeState · name)).foldlM (step mergeFields) (typeState router name))
      ((permuted.map (typeState · name)).foldlM (step mergeFields) (typeState router name)) := by
  by_cases hd : ∃ X ∈ router :: subgraphs, X.config.types.contains name = true
  · rw [typeFold_perm _ _ _ (hp.map _) (h.types name hd), SameFold]
    cases (permuted.map (typeState · name)).foldlM (step mergeFields) (typeState router name) with
    | none => exact .none
    | some s => exact .some rfl
  · exact sameFold_undeclared id mergeFields typeState (fun X => X.config.types) fieldsSig (fun _ _ => rfl) router
      subgraphs name hd permuted hp

theorem sameFold_enums (router : Cache P) (subgraphs permuted : List (Cache P)) (hp : subgraphs.Perm permuted)
    (h : Orderly router subgraphs) (name : String) :
    SameFold Prod.fst ((subgraphs.map (enumState · name)).foldlM (step mergeVariants) (enumState router name))
      ((permuted.map (enumState · name)).foldlM (step mergeVariants) (enumState router name)) := by
  by_cases hd : ∃ X ∈ router :: subgraphs, X.config.enums.contains name = true
  · have hr := enum_reorders.foldlM_perm _ _ (hp.map (enumState · name)) _ (h.enums name hd)
    rw [SameFold]
    generalize (subgraphs.map (enumState · name)).foldlM (step mergeVariants) (enumState router name) = a at hr ⊢
    generalize (permuted.map (enumState · name)).foldlM (step mergeVariants) (enumState router name) = b at hr ⊢
    cases hr with
    | none => exact .none
    | some hr => exact .some hr.2.2.1
  · exact sameFold_undeclared Prod.fst mergeVariants enumState (fun X => X.config.enums) enumSig (fun _ _ => rfl)
      router subgraphs name hd permuted hp

theorem swaps_union : Swaps (fun members others : Finset String => some (members ∪ others)) fun _ _ => True where
  comm a b := by rw [Finset.union_comm]
  joint _ _ _ _ _ _ _ := nofun
  perm _ _ _ _ _ := trivial
  keep _ _ _ _ _ _ := trivial
  swap a b c _ _ := congrArg some (Finset.union_right_comm a b c)

theorem unionFold_perm (subgraphs permuted : List (Option (Finset String))) (hp : subgraphs.Perm permuted)
    (router : Option (Finset String)) :
    subgraphs.foldlM (join fun members others => some (members ∪ others)) router =
      permuted.foldlM (join fun members others => some (members ∪ others)) router := by
  have hgood (a : Option (Finset String)) (L : List (Option (Finset String))) : joinGood (fun _ _ => True) a L := by
    cases a with
    | none => exact fun _ _ _ => trivial
    | some a => trivial
  have hreorders : Reorders (join fun members others : Finset String => some (members ∪ others)) (· = ·)
      fun _ _ => True := by
    refine ⟨eq_equivalence, fun _ _ _ _ _ => trivial, fun _ _ _ _ _ _ => trivial, fun s s' x L hr _ _ => ?_,
      fun s x y L _ => ?_⟩
    · subst hr
      exact rel_refl eq_equivalence _
    · rw [swaps_union.join.swap s x y L (hgood _ _)]
      exact rel_refl eq_equivalence _
  exact hreorders.foldlM_eq router subgraphs permuted hp trivial

theorem compose_of_perm (router : Cache P) (subgraphs permuted : List (Cache P)) (hp : subgraphs.Perm permuted)
    (h : Orderly router subgraphs) (M : Cache P) (hM : compose R router subgraphs = .ok M) :
    ∃ M', compose R router permuted = .ok M' ∧ SameSchema M M' := by
  have hstates := compose_states R subgraphs router M hM
  have hsome {D T : Type} (view : D → T) (a b : Option (NameState D)) (hr : SameFold view a b) (ha : a ≠ none) :
      b ≠ none := by
    intro hb
    rw [hb] at hr
    cases hr
    exact ha rfl
  have htypes := sameFold_types router subgraphs permuted hp h
  have henums := sameFold_enums router subgraphs permuted hp h
  obtain ⟨M', hM'⟩ := compose_of_states R permuted router
    (fun name => hsome id _ _ (htypes name) (by rw [(hstates name).1]; exact nofun))
    (fun name => hsome Prod.fst _ _ (henums name) (by rw [(hstates name).2.1]; exact nofun))
  have hstates' := compose_states R permuted router M' hM'
  refine ⟨M', hM', fun name => ?_, fun name => ?_, fun name => ?_⟩
  · have hr := htypes name
    rw [(hstates name).1, (hstates' name).1, SameFold] at hr
    have hdecl := rel_of_eq_some hr
    rw [Option.map_id_fun] at hdecl
    exact hdecl
  · have hr := henums name
    rw [(hstates name).2.1, (hstates' name).2.1, SameFold] at hr
    have hdecl := rel_of_eq_some hr
    exact hdecl
  · have hu := unionFold_perm _ _ (hp.map (unionState · name)) (unionState router name)
    rw [(hstates name).2.2, (hstates' name).2.2] at hu
    exact Option.some.inj hu

theorem Orderly.perm (router : Cache P) (subgraphs permuted : List (Cache P)) (hp : subgraphs.Perm permuted)
    (h : Orderly router subgraphs) : Orderly router permuted where
  types name hd := by
    obtain ⟨X, hX, hc⟩ := hd
    exact (h.types name ⟨X, (hp.cons router).mem_iff.mpr hX, hc⟩).perm _ _ _ (hp.map _)
  enums name hd := by
    obtain ⟨X, hX, hc⟩ := hd
    exact (h.enums name ⟨X, (hp.cons router).mem_iff.mpr hX, hc⟩).perm _ _ _ (hp.map _)

end Composition

def querying (key : String) : Config plain where
  server := ()
  upstream := ()
  schema := ⟨some "Query", none, none⟩
  types := ⟨[("Query", plainType ⟨[(key, plainField (.named "Int" false) Dict.empty)], by simp⟩)], by simp⟩
  unions := Dict.empty
  enums := Dict.empty
  links := []
  telemetry := ()

def queryingCache (key : String) : Cache plain := ⟨querying key, ∅, {"Query"}, Dict.empty⟩

theorem dictSig_querying (key name : String) :
    dictSig fieldsSig (querying key).types name =
      if name = "Query" then
        some fun field => if field = key then some (.named "Int" false, fun _ => none) else none
      else none := by
  by_cases hn : name = "Query"
  · subst hn
    refine congrArg some (funext fun field => ?_)
    by_cases hf : field = key
    · subst hf
      rw [if_pos rfl, fieldsSig, dictSig, Dict.get?, plainType, Json.Object.getKey, List.lookup_cons,
        beq_self_eq_true]
      rfl
    · have hb : (field == key) = false := by simpa using hf
      rw [if_neg hf, fieldsSig, dictSig, Dict.get?, plainType, Json.Object.getKey, List.lookup_cons, hb]
      rfl
  · have hb : (name == "Query") = false := by simpa using hn
    rw [if_neg hn, dictSig, Dict.get?, querying, Json.Object.getKey, List.lookup_cons, hb]
    rfl

theorem fieldGood_of_no_args (field : FieldSig) (L : List FieldSig) (h : field.2 = fun _ => none) :
    FieldGood field L := by
  refine ⟨trivial, fun name => ?_⟩
  rw [h]
  trivial

theorem orderly_querying (router : String) (keys : List String) :
    Orderly (queryingCache router) (keys.map queryingCache) := by
  have hmodule (X : Cache plain) (hX : X ∈ queryingCache router :: keys.map queryingCache) :
      ∃ key, X = queryingCache key := by
    rcases List.mem_cons.mp hX with rfl | hX
    · exact ⟨router, rfl⟩
    · obtain ⟨key, -, rfl⟩ := List.mem_map.mp hX
      exact ⟨key, rfl⟩
  refine ⟨fun name hmentioned => ?_, fun name hmentioned => ?_⟩
  · obtain ⟨X, hX, hc⟩ := hmentioned
    obtain ⟨key, rfl⟩ := hmodule X hX
    obtain rfl : name = "Query" := by
      by_contra hn
      have hb : (name == "Query") = false := by simpa using hn
      change ((queryingCache key).config.types.get? name).isSome = true at hc
      rw [Dict.get?, queryingCache, querying, Json.Object.getKey, List.lookup_cons, hb] at hc
      cases hc
    have hstate (key : String) : typeState (queryingCache key) "Query" = ⟨false, true,
        some fun field => if field = key then some (.named "Int" false, fun _ => none) else none⟩ := by
      rw [typeState, queryingCache, dictSig_querying]
      rfl
    have hall (x : NameState FieldsSig) (hx : x ∈ typeState (queryingCache router) "Query" ::
        (keys.map queryingCache).map (typeState · "Query")) : ∃ key, x = ⟨false, true,
          some fun field => if field = key then some (.named "Int" false, fun _ => none) else none⟩ := by
      rcases List.mem_cons.mp hx with rfl | hx
      · exact ⟨router, hstate router⟩
      · obtain ⟨X, hX, rfl⟩ := List.mem_map.mp hx
        obtain ⟨key, -, rfl⟩ := List.mem_map.mp hX
        exact ⟨key, hstate key⟩
    refine ⟨⟨fun x hx hd => ?_, fun _ => .inl ?_⟩, fun hexists _ => ?_, fun _ _ => ?_⟩
    · obtain ⟨key, rfl⟩ := hall x hx
      cases hd
    · rw [hstate]
      rfl
    · obtain ⟨x, hx, hi⟩ := hexists
      obtain ⟨key, rfl⟩ := hall x hx
      cases hi
    · rw [hstate]
      intro field
      rw [List.map_map]
      change joinGood FieldGood (if field = router then some (.named "Int" false, fun _ => none) else none) _
      have hnone (key : String) (f : FieldSig)
          (hf : (if field = key then some (WrappingType.named "Int" false, fun _ => none) else none) = some f) :
          f.2 = fun _ => none := by
        split at hf
        · rw [← Option.some.inj hf]
        · cases hf
      split
      · exact fieldGood_of_no_args _ _ rfl
      · intro f rest hp
        have hf := hp.mem_iff.mpr (List.mem_cons_self (a := f) (l := rest))
        obtain ⟨_, hf', rfl⟩ := List.mem_filterMap.mp hf
        obtain ⟨t, ht, htf⟩ := List.mem_map.mp hf'
        obtain ⟨_, hx, rfl⟩ := List.mem_filterMap.mp ht
        obtain ⟨X, hX, hXt⟩ := List.mem_map.mp hx
        obtain ⟨key, -, rfl⟩ := List.mem_map.mp hX
        rw [Function.comp_apply, hstate] at hXt
        obtain rfl := Option.some.inj hXt
        exact fieldGood_of_no_args f rest (hnone key f htf)
  · obtain ⟨X, hX, hc⟩ := hmentioned
    obtain ⟨key, rfl⟩ := hmodule X hX
    cases hc

def variants (names : List String) (h : (names.map fun name => (⟨name, none⟩ : Variant)).Nodup) : Enum :=
  ⟨⟨names.map fun name => ⟨name, none⟩, h⟩, none⟩

def enumService (key typeOf : String) (enum : Enum) : Config plain where
  server := ()
  upstream := ()
  schema := ⟨some "Query", none, none⟩
  types := ⟨[("Query", plainType ⟨[(key, plainField (.named typeOf false)
    ⟨[("e", ⟨.named "E" false, none, none, none⟩)], by simp⟩)], by simp⟩)], by simp⟩
  unions := Dict.empty
  enums := ⟨[("E", enum)], by simp⟩
  links := []
  telemetry := ()

end Gqlforge.SchemaMerge
