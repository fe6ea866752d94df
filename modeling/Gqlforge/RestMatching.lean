import Gqlforge.RestEndpoints

namespace Gqlforge.Dict

open Json

variable {V : Type}

theorem extend_append (dict : Dict V) (entries rest : Object V) :
    dict.extend (entries ++ rest) = (dict.extend entries).extend rest := by
  simp only [extend, List.foldl_append]

theorem get?_extend_reverse (dict : Dict V) (entries : Object V) (name : String) :
    (dict.extend entries).get? name = (entries.reverse.lookup name).or (dict.get? name) := by
  induction entries using List.reverseRecOn with
  | nil => rfl
  | append_singleton entries entry ih =>
    rw [extend_append, List.reverse_append, List.reverse_singleton, List.singleton_append, List.lookup_cons]
    change ((dict.extend entries).insert entry.1 entry.2).get? name = _
    rw [get?_insert]
    by_cases h : name = entry.1
    · simp [h]
    · have hb : (name == entry.1) = false := by simpa using h
      rw [if_neg h, hb, ih]

theorem lookup_reverse_eq_some_iff (entries : Object V) (name : String) (value : V) :
    entries.reverse.lookup name = some value ↔
      ∃ before after, entries = before ++ (name, value) :: after ∧ ∀ entry ∈ after, entry.1 ≠ name := by
  induction entries using List.reverseRecOn with
  | nil => simp
  | append_singleton entries entry ih =>
    rw [List.reverse_append, List.reverse_singleton, List.singleton_append, List.lookup_cons]
    by_cases h : name = entry.1
    · have hb : (name == entry.1) = true := by simpa using h
      simp only [hb, Option.some.injEq]
      constructor
      · rintro rfl
        exact ⟨entries, [], by rw [h], nofun⟩
      · rintro ⟨before, after, he, hafter⟩
        cases after using List.reverseRecOn with
        | nil =>
          have hentry := (List.append_inj' he rfl).2
          rw [List.cons.injEq] at hentry
          exact congrArg Prod.snd hentry.1
        | append_singleton after last =>
          rw [← List.cons_append, ← List.append_assoc] at he
          have hlast := (List.append_inj' he rfl).2
          rw [List.cons.injEq] at hlast
          exact absurd (hlast.1 ▸ h.symm) (hafter last (by simp))
    · have hb : (name == entry.1) = false := by simpa using h
      simp only [hb, ih]
      constructor
      · rintro ⟨before, after, rfl, hafter⟩
        refine ⟨before, after ++ [entry], by simp, fun other ho => ?_⟩
        rcases List.mem_append.mp ho with ho | ho
        · exact hafter other ho
        · rw [List.mem_singleton.mp ho]
          exact Ne.symm h
      · rintro ⟨before, after, he, hafter⟩
        cases after using List.reverseRecOn with
        | nil =>
          have hentry := (List.append_inj' he rfl).2
          rw [List.cons.injEq] at hentry
          exact absurd (by rw [hentry.1]) h
        | append_singleton after last =>
          rw [← List.cons_append, ← List.append_assoc] at he
          exact ⟨before, after, (List.append_inj' he rfl).1, fun other ho => hafter other (by simp [ho])⟩

end Gqlforge.Dict

namespace Gqlforge.Rest

open Json ServiceDocuments

abbrev Bindings := List (String × ConstValue)

section Matched

variable (parseFloat : String → Option ConstValue) (typeMap : TypeMap)

def declaredValue (name text : String) : Option ConstValue :=
  (typeMap.get? name).bind fun type => match UrlParamType.tryFrom type with
    | .ok typeOf => typeOf.toValue parseFloat text
    | .error _ => none

def segmentBindings (pattern text : String) : Option Bindings :=
  match stripDollar pattern with
  | some name => (declaredValue parseFloat typeMap name text).map fun value => [(name, value)]
  | none => if pattern = text then some [] else none

def pathBindings : List (String × String) → Option Bindings
  | [] => some []
  | (pattern, text) :: rest =>
    (segmentBindings parseFloat typeMap pattern text).bind fun bindings =>
      (pathBindings rest).map fun others => bindings ++ others

def present (rest : Directive) (request : Request) : List (String × String × String) :=
  rest.query.entries.filterMap fun entry =>
    ((queryMap request).get? entry.1).map fun text => (entry.1, entry.2, text)

def queryBindings : List (String × String × String) → Option Bindings
  | [] => some []
  | (key, name, text) :: rest =>
    (declaredValue parseFloat typeMap key text).bind fun value =>
      (queryBindings rest).map fun others => (name, value) :: others

variable {parseFloat typeMap}

theorem tryFrom_eq_ok (type : DocumentType) (name : String) (tVar : TypedVariable) :
    TypedVariable.tryFrom type name = .ok tVar ↔
      ∃ typeOf, UrlParamType.tryFrom type = .ok typeOf ∧ tVar = ⟨typeOf, name, false⟩ := by
  rw [TypedVariable.tryFrom]
  cases UrlParamType.tryFrom type <;> simp [Except.map, eq_comm]

theorem declaredValue_eq (name text : String) (type : DocumentType) (typeOf : UrlParamType)
    (h : typeMap.get? name = some type) (ht : UrlParamType.tryFrom type = .ok typeOf) :
    declaredValue parseFloat typeMap name text = typeOf.toValue parseFloat text := by
  rw [declaredValue, h, Option.bind_some, ht]

theorem matchSegment_eq (input pattern text : String) (segment : Segment) (vars : Dict ConstValue)
    (h : Path.parseSegment typeMap input pattern = .ok segment) :
    Path.matchSegment parseFloat vars (segment, text) =
      (segmentBindings parseFloat typeMap pattern text).map vars.extend := by
  rw [Path.parseSegment] at h
  rw [segmentBindings]
  cases hs : stripDollar pattern with
  | none =>
    rw [hs] at h
    obtain rfl := Except.ok.inj h
    simp only [Path.matchSegment]
    split <;> rfl
  | some name =>
    rw [hs] at h
    cases ht : typeMap.get? name with
    | none =>
      simp only [ht] at h
      cases h
    | some type =>
      simp only [ht] at h
      cases hv : TypedVariable.tryFrom type name with
      | error error =>
        rw [hv] at h
        cases h
      | ok tVar =>
        rw [hv] at h
        obtain rfl := Except.ok.inj h
        obtain ⟨typeOf, hu, rfl⟩ := (tryFrom_eq_ok type name tVar).mp hv
        simp only [Path.matchSegment, declaredValue_eq name text type typeOf ht hu, Option.map_map]
        rfl

theorem matchPairs_eq (input : String) (patterns texts : List String) (segments : List Segment)
    (h : Path.parseSegments typeMap input patterns = .ok segments) (vars : Dict ConstValue) :
    Path.matchPairs parseFloat vars (segments.zip texts) =
      (pathBindings parseFloat typeMap (patterns.zip texts)).map vars.extend := by
  induction patterns generalizing segments texts vars with
  | nil =>
    obtain rfl := Except.ok.inj h
    rfl
  | cons pattern patterns ih =>
    rw [Path.parseSegments] at h
    cases hp : Path.parseSegment typeMap input pattern with
    | error error =>
      rw [hp] at h
      cases h
    | ok segment =>
      cases hr : Path.parseSegments typeMap input patterns with
      | error error =>
        rw [hp, hr] at h
        cases h
      | ok rest =>
        rw [hp, hr] at h
        obtain rfl := Except.ok.inj h
        cases texts with
        | nil => rfl
        | cons text texts =>
          simp only [List.zip_cons_cons, Path.matchPairs, pathBindings]
          rw [matchSegment_eq input pattern text segment vars hp]
          cases segmentBindings parseFloat typeMap pattern text with
          | none => rfl
          | some bindings =>
            simp only [Option.map_some, Option.bind_some, ih texts rest hr, Option.map_map]
            congr 1
            funext others
            exact (Dict.extend_append vars bindings others).symm

theorem length_parseSegments (input : String) (patterns : List String) (segments : List Segment)
    (h : Path.parseSegments typeMap input patterns = .ok segments) : segments.length = patterns.length := by
  induction patterns generalizing segments with
  | nil =>
    obtain rfl := Except.ok.inj h
    rfl
  | cons pattern patterns ih =>
    rw [Path.parseSegments] at h
    cases hp : Path.parseSegment typeMap input pattern with
    | error error =>
      rw [hp] at h
      cases h
    | ok segment =>
      cases hr : Path.parseSegments typeMap input patterns with
      | error error =>
        rw [hp, hr] at h
        cases h
      | ok rest =>
        rw [hp, hr] at h
        obtain rfl := Except.ok.inj h
        rw [List.length_cons, List.length_cons, ih rest hr]

theorem matchParams_eq (request : Request) (entries : List (String × String)) (params : List (String × TypedVariable))
    (h : QueryParams.tryFromEntries typeMap entries = .ok params) (vars : Dict ConstValue) :
    QueryParams.matchParams parseFloat (queryMap request) vars params =
      (queryBindings parseFloat typeMap (entries.filterMap fun entry =>
        ((queryMap request).get? entry.1).map fun text => (entry.1, entry.2, text))).map vars.extend := by
  induction entries generalizing params vars with
  | nil =>
    obtain rfl := Except.ok.inj h
    rfl
  | cons entry entries ih =>
    obtain ⟨key, name⟩ := entry
    rw [QueryParams.tryFromEntries] at h
    cases ht : typeMap.get? key with
    | none =>
      rw [ht] at h
      cases h
    | some type =>
      rw [ht] at h
      cases hv : TypedVariable.tryFrom type name with
      | error error =>
        simp only [hv] at h
        cases h
      | ok tVar =>
        cases hr : QueryParams.tryFromEntries typeMap entries with
        | error error =>
          simp only [hv, hr] at h
          cases h
        | ok others =>
          simp only [hv, hr] at h
          obtain rfl := Except.ok.inj h
          obtain ⟨typeOf, hu, rfl⟩ := (tryFrom_eq_ok type name tVar).mp hv
          simp only [QueryParams.matchParams]
          cases hq : (queryMap request).get? key with
          | none =>
            rw [List.filterMap_cons_none (by rw [hq]; rfl)]
            exact ih others hr vars
          | some text =>
            rw [List.filterMap_cons_some (by rw [hq]; rfl), queryBindings,
              declaredValue_eq key text type typeOf ht hu]
            dsimp only
            cases typeOf.toValue parseFloat text with
            | none => rfl
            | some value =>
              simp only [Option.bind_some, ih others hr, Option.map_map]
              rfl

end Matched

section Exact

variable (parseFloat : String → Option ConstValue) (typeMap : TypeMap) (rest : Directive) (request : Request)

def SegmentFits (pattern text : String) : Prop :=
  match stripDollar pattern with
  | some name => ∃ value, declaredValue parseFloat typeMap name text = some value
  | none => pattern = text

def MethodFits : Prop :=
  request.method = .standard (rest.method.getD .get)

def PathFits : Prop :=
  List.Forall₂ (SegmentFits parseFloat typeMap) (splitPath rest.path) (splitPath request.path)

def QueryFits : Prop :=
  ∀ param ∈ present rest request, ∃ value, declaredValue parseFloat typeMap param.2.1 param.2.2 = some value

/-- Each query parameter has a value of the type of the variable that is called like the parameter. -/
def KeysFit : Prop :=
  ∀ param ∈ present rest request, ∃ value, declaredValue parseFloat typeMap param.1 param.2.2 = some value

structure Matches : Prop where
  method : MethodFits rest request
  path : PathFits parseFloat typeMap rest request
  query : QueryFits parseFloat typeMap rest request

inductive Binds : String → ConstValue → Prop where
  | path (pattern text name : String) (value : ConstValue)
      (h : (pattern, text) ∈ (splitPath rest.path).zip (splitPath request.path))
      (hs : stripDollar pattern = some name) (hv : declaredValue parseFloat typeMap name text = some value) :
      Binds name value
  | query (key name text : String) (value : ConstValue) (h : (key, name, text) ∈ present rest request)
      (hv : declaredValue parseFloat typeMap name text = some value) : Binds name value

/-- An endpoint is found for the requests that match its directive, with the values they give. -/
structure MatchedExactly {D : Type} (endpoint : Endpoint D) : Prop where
  found : (endpoint.matches parseFloat request).isSome = true ↔ Matches parseFloat typeMap rest request
  values : ∀ found, endpoint.matches parseFloat request = some found → ∀ name value,
    found.vars.get? name = some value ↔ Binds parseFloat typeMap rest request name value

structure Exactly : Prop where
  whole : MethodFits rest request →
    (∀ pair ∈ (splitPath rest.path).zip (splitPath request.path), SegmentFits parseFloat typeMap pair.1 pair.2) →
    KeysFit parseFloat typeMap rest request → (splitPath rest.path).length ≤ (splitPath request.path).length
  typed : MethodFits rest request → PathFits parseFloat typeMap rest request →
    (KeysFit parseFloat typeMap rest request ↔ QueryFits parseFloat typeMap rest request)
  alike : Matches parseFloat typeMap rest request → ∀ before key name text after,
    present rest request = before ++ (key, name, text) :: after → (∀ param ∈ after, param.2.1 ≠ name) →
    declaredValue parseFloat typeMap key text = declaredValue parseFloat typeMap name text
  single : Matches parseFloat typeMap rest request → ∀ name value other,
    Binds parseFloat typeMap rest request name value → Binds parseFloat typeMap rest request name other →
    value = other

variable {parseFloat typeMap rest request}

theorem pathBindings_isSome_iff (pairs : List (String × String)) :
    (∃ bindings, pathBindings parseFloat typeMap pairs = some bindings) ↔
      ∀ pair ∈ pairs, SegmentFits parseFloat typeMap pair.1 pair.2 := by
  induction pairs with
  | nil => simp [pathBindings]
  | cons pair pairs ih =>
    have hfirst : (∃ bindings, segmentBindings parseFloat typeMap pair.1 pair.2 = some bindings) ↔
        SegmentFits parseFloat typeMap pair.1 pair.2 := by
      rw [segmentBindings, SegmentFits]
      cases stripDollar pair.1 <;> simp
    rw [List.forall_mem_cons, ← ih, ← hfirst, pathBindings]
    simp only [Option.bind_eq_some_iff, Option.map_eq_some_iff]
    constructor
    · rintro ⟨_, bindings, hb, others, ho, rfl⟩
      exact ⟨⟨bindings, hb⟩, others, ho⟩
    · rintro ⟨⟨bindings, hb⟩, others, ho⟩
      exact ⟨_, bindings, hb, others, ho, rfl⟩

theorem mem_pathBindings (pairs : List (String × String)) (bindings : Bindings)
    (h : pathBindings parseFloat typeMap pairs = some bindings) (name : String) (value : ConstValue) :
    (name, value) ∈ bindings ↔ ∃ pattern text, (pattern, text) ∈ pairs ∧ stripDollar pattern = some name ∧
      declaredValue parseFloat typeMap name text = some value := by
  induction pairs generalizing bindings with
  | nil =>
    obtain rfl := Option.some.inj h
    simp
  | cons pair pairs ih =>
    obtain ⟨pattern, text⟩ := pair
    simp only [pathBindings, Option.bind_eq_some_iff, Option.map_eq_some_iff] at h
    obtain ⟨first, hf, others, ho, rfl⟩ := h
    have hfirst : (name, value) ∈ first ↔ stripDollar pattern = some name ∧
        declaredValue parseFloat typeMap name text = some value := by
      rw [segmentBindings] at hf
      cases hs : stripDollar pattern with
      | none =>
        simp only [hs] at hf
        split at hf
        · obtain rfl := Option.some.inj hf
          simp
        · cases hf
      | some found =>
        simp only [hs] at hf
        obtain ⟨stored, hd, rfl⟩ := Option.map_eq_some_iff.mp hf
        simp only [List.mem_singleton, Prod.mk.injEq, Option.some.injEq]
        constructor
        · rintro ⟨rfl, rfl⟩
          exact ⟨rfl, hd⟩
        · rintro ⟨rfl, hv⟩
          exact ⟨rfl, Option.some.inj (hv.symm.trans hd)⟩
    rw [List.mem_append, hfirst, ih others ho]
    constructor
    · rintro (h | ⟨p, t, hm, h⟩)
      · exact ⟨pattern, text, List.mem_cons_self, h⟩
      · exact ⟨p, t, List.mem_cons_of_mem _ hm, h⟩
    · rintro ⟨p, t, hm, h⟩
      rcases List.mem_cons.mp hm with he | hm
      · obtain ⟨rfl, rfl⟩ := Prod.mk.inj he
        exact .inl h
      · exact .inr ⟨p, t, hm, h⟩

def keyed (parseFloat : String → Option ConstValue) (typeMap : TypeMap) (param : String × String × String) :
    String × ConstValue :=
  (param.2.1, (declaredValue parseFloat typeMap param.1 param.2.2).getD .null)

theorem queryBindings_eq_some_iff (params : List (String × String × String)) (bindings : Bindings) :
    queryBindings parseFloat typeMap params = some bindings ↔
      (∀ param ∈ params, ∃ value, declaredValue parseFloat typeMap param.1 param.2.2 = some value) ∧
        bindings = params.map (keyed parseFloat typeMap) := by
  induction params generalizing bindings with
  | nil => simp [queryBindings, eq_comm]
  | cons param params ih =>
    obtain ⟨key, name, text⟩ := param
    simp only [queryBindings, Option.bind_eq_some_iff, Option.map_eq_some_iff, ih, List.forall_mem_cons,
      List.map_cons]
    constructor
    · rintro ⟨value, hv, _, ⟨hrest, rfl⟩, rfl⟩
      exact ⟨⟨⟨value, hv⟩, hrest⟩, by rw [keyed, hv]; rfl⟩
    · rintro ⟨⟨⟨value, hv⟩, hrest⟩, rfl⟩
      exact ⟨value, hv, _, ⟨hrest, rfl⟩, by rw [keyed, hv]; rfl⟩

section Endpoint

variable {D : Type} {variableDefinitions : List (String × DocumentType)} {doc : D} {endpoint : Endpoint D}

theorem pathFits_iff : PathFits parseFloat typeMap rest request ↔
    (splitPath rest.path).length = (splitPath request.path).length ∧
      ∀ pair ∈ (splitPath rest.path).zip (splitPath request.path), SegmentFits parseFloat typeMap pair.1 pair.2 := by
  rw [PathFits, List.forall₂_iff_zip]
  exact and_congr_right fun _ => ⟨fun h pair hp => h hp, fun h a b hp => h (a, b) hp⟩

theorem get?_mergeVariables (path query : Bindings) (name : String) :
    (mergeVariables (mergeVariables Dict.empty (Dict.empty.extend path)) (Dict.empty.extend query)).get? name =
      (path ++ query).reverse.lookup name := by
  have hmerge (a b : Dict ConstValue) : (mergeVariables a b).get? name = (b.get? name).or (a.get? name) := by
    rw [mergeVariables, Dict.get?_extend _ _ b.nodup, Dict.get?_extend _ _ a.nodup, Dict.get?_empty, Option.or_none]
    rfl
  rw [hmerge, hmerge, Dict.get?_extend_reverse, Dict.get?_extend_reverse, Dict.get?_empty, Option.or_none,
    Option.or_none, Option.or_none, List.reverse_append, List.lookup_append]

theorem matches_eq_some_iff (h : Endpoint.ofDirective variableDefinitions rest doc = .ok endpoint)
    (found : PartialRequest D) :
    endpoint.matches parseFloat request = some found ↔
      MethodFits rest request ∧ (splitPath request.path).length ≤ (splitPath rest.path).length ∧
        ∃ path query,
          pathBindings parseFloat (Dict.ofEntries variableDefinitions)
            ((splitPath rest.path).zip (splitPath request.path)) = some path ∧
          queryBindings parseFloat (Dict.ofEntries variableDefinitions) (present rest request) = some query ∧
          found = { body := endpoint.body
                    doc := endpoint.doc
                    vars := mergeVariables (mergeVariables Dict.empty (Dict.empty.extend path))
                      (Dict.empty.extend query)
                    path := endpoint.path } := by
  obtain ⟨segments, params, hp, hq, rfl⟩ : ∃ segments params,
      Path.parseSegments (Dict.ofEntries variableDefinitions) rest.path (splitPath rest.path) = .ok segments ∧
      QueryParams.tryFromEntries (Dict.ofEntries variableDefinitions) rest.query.entries = .ok params ∧
      endpoint = ⟨rest.method.getD .get, ⟨rest.path, segments⟩, params, rest.body, doc⟩ := by
    rw [Endpoint.ofDirective, Path.parse, QueryParams.tryFromMap] at h
    cases hp : Path.parseSegments (Dict.ofEntries variableDefinitions) rest.path (splitPath rest.path) with
    | error error =>
      rw [hp] at h
      cases h
    | ok segments =>
      cases hq : QueryParams.tryFromEntries (Dict.ofEntries variableDefinitions) rest.query.entries with
      | error error =>
        rw [hp, hq] at h
        cases h
      | ok params =>
        rw [hp, hq] at h
        exact ⟨segments, params, rfl, rfl, (Except.ok.inj h).symm⟩
  have hlength := length_parseSegments rest.path _ segments hp
  have hleft : ((splitPath request.path).drop segments.length).isEmpty = true ↔
      (splitPath request.path).length ≤ (splitPath rest.path).length := by
    rw [List.isEmpty_iff, List.drop_eq_nil_iff, hlength]
  simp only [Endpoint.matches, Path.matches, QueryParams.matches, matchPairs_eq rest.path _ _ segments hp,
    matchParams_eq request _ params hq, ite_not, Option.ite_none_right_eq_some, Option.bind_eq_some_iff,
    Option.map_eq_some_iff, Option.some.injEq, hleft]
  constructor
  · rintro ⟨hm, _, ⟨_, ⟨path, hpath, rfl⟩, hl, rfl⟩, _, ⟨query, hquery, rfl⟩, rfl⟩
    exact ⟨hm.symm, hl, path, query, hpath, hquery, rfl⟩
  · rintro ⟨hm, hl, path, query, hpath, hquery, rfl⟩
    exact ⟨hm.symm, _, ⟨_, ⟨path, hpath, rfl⟩, hl, rfl⟩, _, ⟨query, hquery, rfl⟩, rfl⟩

theorem isSome_matches_iff (h : Endpoint.ofDirective variableDefinitions rest doc = .ok endpoint) :
    (endpoint.matches parseFloat request).isSome = true ↔
      MethodFits rest request ∧ (splitPath request.path).length ≤ (splitPath rest.path).length ∧
        (∀ pair ∈ (splitPath rest.path).zip (splitPath request.path),
          SegmentFits parseFloat (Dict.ofEntries variableDefinitions) pair.1 pair.2) ∧
        KeysFit parseFloat (Dict.ofEntries variableDefinitions) rest request := by
  simp only [Option.isSome_iff_exists, matches_eq_some_iff h, ← pathBindings_isSome_iff, KeysFit]
  constructor
  · rintro ⟨_, hm, hl, path, query, hpath, hquery, rfl⟩
    exact ⟨hm, hl, ⟨path, hpath⟩, ((queryBindings_eq_some_iff _ query).mp hquery).1⟩
  · rintro ⟨hm, hl, ⟨path, hpath⟩, hkeys⟩
    exact ⟨_, hm, hl, path, _, hpath, (queryBindings_eq_some_iff _ _).mpr ⟨hkeys, rfl⟩, rfl⟩

theorem lookup_iff (path : Bindings) (before : List (String × String × String)) (param : String × String × String)
    (after : List (String × String × String)) (ha : ∀ other ∈ after, other.2.1 ≠ param.2.1) :
    (path ++ (before ++ param :: after).map (keyed parseFloat typeMap)).reverse.lookup param.2.1 =
      some (keyed parseFloat typeMap param).2 := by
  refine (Dict.lookup_reverse_eq_some_iff _ _ _).mpr
    ⟨path ++ before.map (keyed parseFloat typeMap), after.map (keyed parseFloat typeMap), ?_, ?_⟩
  · rw [List.map_append, List.map_cons, List.append_assoc]
    rfl
  · intro entry he
    obtain ⟨other, ho, rfl⟩ := List.mem_map.mp he
    exact ha other ho

theorem binds_of_lookup (path : Bindings)
    (hpath : pathBindings parseFloat typeMap ((splitPath rest.path).zip (splitPath request.path)) = some path)
    (hmatches : Matches parseFloat typeMap rest request) (halike : ∀ before key name text after,
      present rest request = before ++ (key, name, text) :: after → (∀ param ∈ after, param.2.1 ≠ name) →
      declaredValue parseFloat typeMap key text = declaredValue parseFloat typeMap name text)
    (name : String) (value : ConstValue)
    (h : (path ++ (present rest request).map (keyed parseFloat typeMap)).reverse.lookup name = some value) :
    Binds parseFloat typeMap rest request name value := by
  rw [List.reverse_append, List.lookup_append, Option.or_eq_some_iff] at h
  rcases h with h | ⟨_, h⟩
  · obtain ⟨before, after, he, hafter⟩ := (Dict.lookup_reverse_eq_some_iff _ _ _).mp h
    obtain ⟨params, tail, hparams, _, htail⟩ := List.map_eq_append_iff.mp he
    obtain ⟨⟨key, variable', text⟩, others, rfl, hentry, rfl⟩ := List.map_eq_cons_iff.mp htail
    obtain ⟨rfl, rfl⟩ := Prod.mk.inj hentry
    have hsame := halike params key variable' text others hparams fun param hp =>
      hafter _ (List.mem_map_of_mem hp)
    have hmem : (key, variable', text) ∈ present rest request := by simp [hparams]
    obtain ⟨stored, hs⟩ := hmatches.query _ hmem
    refine .query key variable' text _ hmem ?_
    rw [hsame, hs]
    rfl
  · obtain ⟨before, after, rfl, _⟩ := (Dict.lookup_reverse_eq_some_iff _ _ _).mp h
    obtain ⟨pattern, text, hm, hs, hv⟩ := (mem_pathBindings _ _ hpath name value).mp (by simp)
    exact .path pattern text name value hm hs hv

theorem lookup_of_binds (path : Bindings)
    (hpath : pathBindings parseFloat typeMap ((splitPath rest.path).zip (splitPath request.path)) = some path)
    (name : String) (value : ConstValue) (h : Binds parseFloat typeMap rest request name value) :
    ∃ found, (path ++ (present rest request).map (keyed parseFloat typeMap)).reverse.lookup name = some found := by
  rw [← Option.isSome_iff_exists, List.lookup_isSome_iff]
  cases h with
  | path pattern text _ _ hm hs hv =>
    have hmem := (mem_pathBindings _ path hpath name value).mpr ⟨pattern, text, hm, hs, hv⟩
    exact ⟨(name, value), by simp [hmem], by simp⟩
  | query key _ text _ hm hv =>
    have hmem := List.mem_map_of_mem (f := keyed parseFloat typeMap) hm
    exact ⟨keyed parseFloat typeMap (key, name, text), by simp only [List.mem_reverse, List.mem_append, hmem, or_true],
      by simp [keyed]⟩

theorem found_spec (h : Endpoint.ofDirective variableDefinitions rest doc = .ok endpoint) (found : PartialRequest D)
    (hf : endpoint.matches parseFloat request = some found) :
    ∃ path, pathBindings parseFloat (Dict.ofEntries variableDefinitions)
        ((splitPath rest.path).zip (splitPath request.path)) = some path ∧
      KeysFit parseFloat (Dict.ofEntries variableDefinitions) rest request ∧
      ∀ name, found.vars.get? name = (path ++ (present rest request).map
        (keyed parseFloat (Dict.ofEntries variableDefinitions))).reverse.lookup name := by
  obtain ⟨_, _, path, query, hpath, hquery, rfl⟩ := (matches_eq_some_iff h found).mp hf
  obtain ⟨hkeys, rfl⟩ := (queryBindings_eq_some_iff _ query).mp hquery
  exact ⟨path, hpath, hkeys, get?_mergeVariables path _⟩

theorem matchedExactly_of_exactly (h : Endpoint.ofDirective variableDefinitions rest doc = .ok endpoint)
    (he : Exactly parseFloat (Dict.ofEntries variableDefinitions) rest request) :
    MatchedExactly parseFloat (Dict.ofEntries variableDefinitions) rest request endpoint := by
  have hfound : (endpoint.matches parseFloat request).isSome = true ↔
      Matches parseFloat (Dict.ofEntries variableDefinitions) rest request := by
    rw [isSome_matches_iff h]
    constructor
    · rintro ⟨hm, hl, hpairs, hkeys⟩
      have hpath : PathFits parseFloat (Dict.ofEntries variableDefinitions) rest request :=
        pathFits_iff.mpr ⟨le_antisymm (he.whole hm hpairs hkeys) hl, hpairs⟩
      exact ⟨hm, hpath, (he.typed hm hpath).mp hkeys⟩
    · intro hmatches
      obtain ⟨hl, hpairs⟩ := pathFits_iff.mp hmatches.path
      exact ⟨hmatches.method, hl.symm.le, hpairs, (he.typed hmatches.method hmatches.path).mpr hmatches.query⟩
  refine ⟨hfound, fun found hf name value => ?_⟩
  have hmatches := hfound.mp (by rw [hf]; rfl)
  obtain ⟨path, hpath, _, hget⟩ := found_spec h found hf
  have hbinds := binds_of_lookup path hpath hmatches (he.alike hmatches) name
  rw [hget]
  constructor
  · exact hbinds value
  · intro hb
    obtain ⟨other, ho⟩ := lookup_of_binds path hpath name value hb
    rw [he.single hmatches name value other hb (hbinds other ho)]
    exact ho

theorem exactly_of_matchedExactly (h : Endpoint.ofDirective variableDefinitions rest doc = .ok endpoint)
    (hm : MatchedExactly parseFloat (Dict.ofEntries variableDefinitions) rest request endpoint) :
    Exactly parseFloat (Dict.ofEntries variableDefinitions) rest request := by
  have hfound := hm.found
  rw [isSome_matches_iff h] at hfound
  refine ⟨fun hmethod hpairs hkeys => ?_, fun hmethod hpath => ?_, fun hmatches => ?_, fun hmatches => ?_⟩
  · by_contra hl
    have hmatches := hfound.mp ⟨hmethod, by omega, hpairs, hkeys⟩
    exact hl (pathFits_iff.mp hmatches.path).1.le
  · obtain ⟨hl, hpairs⟩ := pathFits_iff.mp hpath
    constructor
    · intro hkeys
      exact (hfound.mp ⟨hmethod, hl.symm.le, hpairs, hkeys⟩).query
    · intro hquery
      exact (hfound.mpr ⟨hmethod, hpath, hquery⟩).2.2.2
  · intro before key name text after hpresent hafter
    obtain ⟨found, hf⟩ := Option.isSome_iff_exists.mp (hm.found.mpr hmatches)
    obtain ⟨path, hpath, hkeys, hget⟩ := found_spec h found hf
    have hmem : (key, name, text) ∈ present rest request := by simp [hpresent]
    obtain ⟨value, hv⟩ := hmatches.query _ hmem
    obtain ⟨read, hr⟩ := hkeys _ hmem
    have hlookup : found.vars.get? name = some read := by
      rw [hget, hpresent, lookup_iff path before (key, name, text) after hafter, keyed, hr]
      rfl
    have hvalue := (hm.values found hf name value).mpr (.query key name text value hmem hv)
    rw [hr, hv, ← hlookup, hvalue]
  · intro name value other hv ho
    obtain ⟨found, hf⟩ := Option.isSome_iff_exists.mp (hm.found.mpr hmatches)
    have hvalue := (hm.values found hf name value).mpr hv
    exact Option.some.inj (hvalue.symm.trans ((hm.values found hf name other).mpr ho))

end Endpoint

end Exact

section EndpointSet

variable {D : Type}

def declared (operations : List (Operation D)) : List (TypeMap × Directive) :=
  operations.filterMap fun op => match op.rest with
    | some (.ok rest) => some (Dict.ofEntries op.variableDefinitions, rest)
    | _ => none

structure PicksFirst (parseFloat : String → Option ConstValue) (directives : List (TypeMap × Directive))
    (endpoints : List (Endpoint D)) (request : Request) : Prop where
  none_iff : EndpointSet.matches parseFloat endpoints request = none ↔
    ∀ directive ∈ directives, ¬ Matches parseFloat directive.1 directive.2 request
  first : ∀ found, EndpointSet.matches parseFloat endpoints request = some found →
    ∃ before directive after endpoint, directives = before ++ directive :: after ∧
      (∀ other ∈ before, ¬ Matches parseFloat other.1 other.2 request) ∧
      Matches parseFloat directive.1 directive.2 request ∧ endpoints[before.length]? = some endpoint ∧
      endpoint.matches parseFloat request = some found

def AllExactly (parseFloat : String → Option ConstValue) (directives : List (TypeMap × Directive))
    (endpoints : List (Endpoint D)) (request : Request) : Prop :=
  List.Forall₂ (fun directive endpoint => MatchedExactly parseFloat directive.1 directive.2 request endpoint)
    directives endpoints

theorem picksFirst_of_allExactly (parseFloat : String → Option ConstValue) (directives : List (TypeMap × Directive))
    (endpoints : List (Endpoint D)) (request : Request) (h : AllExactly parseFloat directives endpoints request) :
    PicksFirst parseFloat directives endpoints request := by
  induction h with
  | nil => exact ⟨by simp [EndpointSet.matches], nofun⟩
  | @cons directive endpoint directives endpoints hd _ ih =>
    have hset : EndpointSet.matches parseFloat (endpoint :: endpoints) request =
        (endpoint.matches parseFloat request).or (EndpointSet.matches parseFloat endpoints request) := by
      rw [EndpointSet.matches, List.findSome?_cons]
      cases endpoint.matches parseFloat request <;> rfl
    by_cases hm : Matches parseFloat directive.1 directive.2 request
    · obtain ⟨found, hf⟩ := Option.isSome_iff_exists.mp (hd.found.mpr hm)
      rw [hf, Option.some_or] at hset
      refine ⟨?_, fun found' hf' => ?_⟩
      · rw [hset]
        exact ⟨nofun, fun h => absurd hm (h directive List.mem_cons_self)⟩
      · obtain rfl := Option.some.inj (hset.symm.trans hf')
        exact ⟨[], directive, directives, endpoint, rfl, nofun, hm, rfl, hf⟩
    · have hnone : endpoint.matches parseFloat request = none := by
        rw [← Option.not_isSome_iff_eq_none]
        exact fun h => hm (hd.found.mp h)
      rw [hnone, Option.none_or] at hset
      refine ⟨?_, fun found hf => ?_⟩
      · rw [hset, ih.none_iff, List.forall_mem_cons]
        exact (and_iff_right hm).symm
      · rw [hset] at hf
        obtain ⟨before, first, after, picked, rfl, hbefore, hfirst, hpicked, hmatch⟩ := ih.first found hf
        refine ⟨directive :: before, first, after, picked, rfl, ?_, hfirst, hpicked, hmatch⟩
        exact List.forall_mem_cons.mpr ⟨hm, hbefore⟩

theorem tryNew_spec (operations : List (Operation D)) (endpoints : List (Endpoint D))
    (h : Endpoint.tryNew operations = .ok endpoints) :
    List.Forall₂ (fun directive endpoint => ∃ variableDefinitions doc, directive.1 = Dict.ofEntries variableDefinitions ∧
      Endpoint.ofDirective variableDefinitions directive.2 doc = .ok endpoint) (declared operations) endpoints := by
  induction operations generalizing endpoints with
  | nil =>
    obtain rfl := Except.ok.inj h
    exact .nil
  | cons op ops ih =>
    rw [Endpoint.tryNew] at h
    rw [declared, List.filterMap_cons]
    cases hr : op.rest with
    | none =>
      simp only [hr] at h
      exact ih endpoints h
    | some result =>
      simp only [hr] at h
      cases result with
      | error error => cases h
      | ok rest =>
        cases he : Endpoint.ofDirective op.variableDefinitions rest op.doc with
        | error error =>
          change ((Endpoint.ofDirective op.variableDefinitions rest op.doc).bind _) = _ at h
          rw [he] at h
          cases h
        | ok endpoint =>
          change ((Endpoint.ofDirective op.variableDefinitions rest op.doc).bind _) = _ at h
          rw [he] at h
          cases ho : Endpoint.tryNew ops with
          | error error =>
            change ((Endpoint.tryNew ops).map _) = _ at h
            rw [ho] at h
            cases h
          | ok others =>
            change ((Endpoint.tryNew ops).map _) = _ at h
            rw [ho] at h
            obtain rfl := Except.ok.inj h
            exact .cons ⟨op.variableDefinitions, op.doc, rfl, he⟩ (ih others ho)

theorem matching_exact_iff (parseFloat : String → Option ConstValue) (operations : List (Operation D))
    (endpoints : List (Endpoint D)) (h : Endpoint.tryNew operations = .ok endpoints) (request : Request) :
    AllExactly parseFloat (declared operations) endpoints request ∧
        PicksFirst parseFloat (declared operations) endpoints request ↔
      ∀ directive ∈ declared operations, Exactly parseFloat directive.1 directive.2 request := by
  have hspec := tryNew_spec operations endpoints h
  constructor
  · rintro ⟨hall, -⟩
    generalize declared operations = directives at hspec hall
    clear h
    induction hspec with
    | nil => exact nofun
    | cons he _ ih =>
      obtain ⟨variableDefinitions, doc, hvars, he⟩ := he
      cases hall with
      | cons hfirst hrest =>
        refine List.forall_mem_cons.mpr ⟨?_, ih hrest⟩
        rw [hvars] at hfirst ⊢
        exact exactly_of_matchedExactly he hfirst
  · intro hexactly
    have hall : AllExactly parseFloat (declared operations) endpoints request := by
      generalize declared operations = directives at hspec hexactly
      clear h
      induction hspec with
      | nil => exact .nil
      | cons he _ ih =>
        obtain ⟨variableDefinitions, doc, hvars, he⟩ := he
        rw [List.forall_mem_cons] at hexactly
        refine .cons ?_ (ih hexactly.2)
        have hfirst := hexactly.1
        rw [hvars] at hfirst ⊢
        exact matchedExactly_of_exactly he hfirst
    exact ⟨hall, picksFirst_of_allExactly parseFloat _ endpoints request hall⟩

def postsOperation : Operation Unit where
  variableDefinitions := [("id", .named "Int" true)]
  rest := some (.ok ⟨"/users/$id/posts", some .get, Dict.empty, none⟩)
  doc := ()

def postsEndpoint : Endpoint Unit where
  method := .get
  path := ⟨"/users/$id/posts", [.literal "users", .param ⟨.number .int, "id", false⟩, .literal "posts"]⟩
  queryParams := []
  body := none
  doc := ()

theorem matching_exact_posts :
    AllExactly (fun _ => none) (declared [postsOperation]) [postsEndpoint] ⟨.standard .get, "/users/1/posts", none⟩ ∧
        PicksFirst (fun _ => none) (declared [postsOperation]) [postsEndpoint]
          ⟨.standard .get, "/users/1/posts", none⟩ ↔
      ∀ directive ∈ declared [postsOperation],
        Exactly (fun _ => none) directive.1 directive.2 ⟨.standard .get, "/users/1/posts", none⟩ :=
  matching_exact_iff (fun _ => none) [postsOperation] [postsEndpoint] rfl ⟨.standard .get, "/users/1/posts", none⟩

theorem shorter_path_matched :
    ¬ ∀ (operations : List (Operation Unit)) (endpoints : List (Endpoint Unit)) (request : Request),
      Endpoint.tryNew operations = .ok endpoints →
        AllExactly (fun _ => none) (declared operations) endpoints request ∧
          PicksFirst (fun _ => none) (declared operations) endpoints request := by
  intro h
  obtain ⟨hall, _⟩ := h [postsOperation] [postsEndpoint] ⟨.standard .get, "/users/1", none⟩ rfl
  cases hall with
  | cons hfirst _ =>
    have hmatches := hfirst.found.mp (by decide)
    have hlength := hmatches.path.length_eq
    exact absurd hlength (by decide)

end EndpointSet

end Gqlforge.Rest
