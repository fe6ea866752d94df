import Gqlforge.GroupedLoads
import Mathlib.Data.List.Induction
import Mathlib.Data.List.Nodup

namespace Gqlforge.BatchedRequests

open Json GroupedLoads

def idsOf (name : String) (query : List (String × String)) : List String :=
  (query.filter fun pair => pair.1 = name).map Prod.snd

def setId (name id : String) : List (String × String) → List (String × String)
  | [] => []
  | (key, value) :: rest =>
    if key = name then (key, id) :: rest.filter fun pair => !decide (pair.1 = name)
    else (key, value) :: setId name id rest

def Url.withId (name id : String) (url : Url) : Url :=
  { url with query := setId name id url.query }

structure Upstream (name : String) where
  answer : Url → List ConstValue
  concat (url : Url) (h : 2 ≤ (idsOf name url.query).length) :
    answer url = (idsOf name url.query).flatMap fun id => answer (Url.withId name id url)

section

variable {name : String}

theorem idsOf_append (query query' : List (String × String)) :
    idsOf name (query ++ query') = idsOf name query ++ idsOf name query' := by
  rw [idsOf, List.filter_append, List.map_append]
  rfl

variable {query : List (String × String)}

theorem idsOf_eq_nil (h : ∀ pair ∈ query, pair.1 ≠ name) : idsOf name query = [] := by
  have hfilter : (query.filter fun pair => decide (pair.1 = name)) = [] :=
    List.filter_eq_nil_iff.mpr fun pair hpair => by simpa using h pair hpair
  rw [idsOf, hfilter, List.map_nil]

theorem idsOf_others (query : List (String × String)) :
    idsOf name (query.filter fun pair => !decide (pair.1 = name)) = [] := by
  apply idsOf_eq_nil
  intro pair hpair
  simpa using (List.mem_filter.mp hpair).2

theorem idsOf_cons (key value : String) (query : List (String × String)) :
    idsOf name ((key, value) :: query) = if key = name then value :: idsOf name query else idsOf name query := by
  by_cases h : key = name <;> simp [idsOf, h]

theorem idsOf_setId (id : String) (h : idsOf name query ≠ []) : idsOf name (setId name id query) = [id] := by
  induction query with
  | nil => exact absurd rfl h
  | cons pair query ih =>
    obtain ⟨key, value⟩ := pair
    rw [idsOf_cons] at h
    rw [setId]
    by_cases hkey : key = name
    · rw [if_pos hkey, idsOf_cons, if_pos hkey, idsOf_others]
    · rw [if_neg hkey] at h ⊢
      rw [idsOf_cons, if_neg hkey]
      exact ih h

theorem setId_setId (id id' : String) (query : List (String × String)) :
    setId name id (setId name id' query) = setId name id query := by
  induction query with
  | nil => rfl
  | cons pair query ih =>
    obtain ⟨key, value⟩ := pair
    simp only [setId]
    by_cases hkey : key = name
    · rw [if_pos hkey, if_pos hkey, setId, if_pos hkey, List.filter_filter]
      simp
    · rw [if_neg hkey, if_neg hkey, setId, if_neg hkey, ih]

theorem setId_self {id : String} (h : idsOf name query = [id]) : setId name id query = query := by
  induction query with
  | nil => cases h
  | cons pair query ih =>
    obtain ⟨key, value⟩ := pair
    rw [idsOf_cons] at h
    rw [setId]
    by_cases hkey : key = name
    · rw [if_pos hkey] at h ⊢
      obtain ⟨hvalue, hrest⟩ := List.cons.inj h
      have hothers : query.filter (fun pair => !decide (pair.1 = name)) = query := by
        rw [List.filter_eq_self]
        intro pair hpair
        rw [idsOf, List.map_eq_nil_iff, List.filter_eq_nil_iff] at hrest
        simpa using hrest pair hpair
      rw [hvalue, hothers]
    · rw [if_neg hkey] at h ⊢
      rw [ih h]

theorem setId_append (id : String) (h : idsOf name query ≠ []) {more : List (String × String)}
    (hmore : ∀ pair ∈ more, pair.1 = name) : setId name id (query ++ more) = setId name id query := by
  have hnone : (more.filter fun pair => !decide (pair.1 = name)) = [] :=
    List.filter_eq_nil_iff.mpr fun pair hpair => by simpa using hmore pair hpair
  induction query with
  | nil => exact absurd rfl h
  | cons pair query ih =>
    obtain ⟨key, value⟩ := pair
    rw [idsOf_cons] at h
    rw [List.cons_append, setId, setId]
    by_cases hkey : key = name
    · rw [if_pos hkey, if_pos hkey, List.filter_append, hnone, List.append_nil]
    · rw [if_neg hkey] at h
      rw [if_neg hkey, if_neg hkey, ih h]

def Upstream.ofAnswers (answers : Url → String → List ConstValue) : Upstream name where
  answer url := (idsOf name url.query).flatMap (answers (Url.withId name "" url))
  concat url h := by
    have hne : idsOf name url.query ≠ [] := by
      intro hnil
      rw [hnil] at h
      exact absurd h (by decide)
    refine List.flatMap_congr fun id _ => ?_
    simp only [Url.withId, idsOf_setId id hne, setId_setId, List.flatMap_singleton]

theorem Upstream.answer_eq (upstream : Upstream name) (url : Url) (h : idsOf name url.query ≠ []) :
    upstream.answer url = (idsOf name url.query).flatMap fun id => upstream.answer (Url.withId name id url) := by
  match hids : idsOf name url.query, h with
  | [id], _ =>
    have hself : Url.withId name id url = url := by rw [Url.withId, setId_self hids]
    rw [List.flatMap_singleton, hself]
  | first :: second :: rest, _ =>
    rw [← hids]
    apply upstream.concat
    rw [hids]
    simp

theorem queryParam_eq {id : String} {url : Url} (h : idsOf name url.query = [id]) : queryParam url name = some id := by
  have hlast (query : List (String × String)) : query.reverse.lookup name = (idsOf name query).getLast? := by
    induction query with
    | nil => rfl
    | cons pair query ih =>
      obtain ⟨key, value⟩ := pair
      rw [List.reverse_cons, List.lookup_append, ih, idsOf_cons]
      by_cases hkey : key = name
      · cases hids : idsOf name query <;> simp [hkey, List.getLast?_cons]
      · have hbeq : (name == key) = false := beq_eq_false_iff_ne.mpr (Ne.symm hkey)
        simp [hkey, List.lookup_cons, hbeq]
  rw [queryParam, hlast, h]
  rfl

end

theorem queryBatching_eq (name : String) (dlRequests : List DataLoaderRequest) (request : Request) :
    queryBatching dlRequests (some name) request = extendPairs request
      (dlRequests.flatMap fun key => key.request.url.query.filter fun pair => decide (pair.1 = name)) := by
  induction dlRequests generalizing request with
  | nil => simp [queryBatching, extendPairs]
  | cons key dlRequests ih =>
    let pairs := key.request.url.query.filter fun pair => decide (pair.1 = name)
    have hstep : queryBatching (key :: dlRequests) (some name) request =
        queryBatching dlRequests (some name) (if pairs.isEmpty then request else extendPairs request pairs) := by
      have hpairs : (key.request.url.query.filter fun pair => decide (name = pair.1)) = pairs := by
        simp only [pairs, eq_comm]
      rw [← hpairs]
      rfl
    have hextend : (if pairs.isEmpty then request else extendPairs request pairs) = extendPairs request pairs := by
      split
      next hempty => rw [List.isEmpty_iff.mp hempty, extendPairs, List.append_nil]
      next => rfl
    rw [hstep, hextend, ih, List.flatMap_cons]
    simp only [extendPairs, List.append_assoc, pairs]

def select (keyOf : ConstValue → Option String) (found : List (ConstValue × ConstValue)) (id : String) :
    List ConstValue :=
  (found.filter fun entry => decide (keyOf entry.1 = some id)).map Prod.snd

theorem select_append (keyOf : ConstValue → Option String) (found found' : List (ConstValue × ConstValue)) (id : String) :
    select keyOf (found ++ found') id = select keyOf found id ++ select keyOf found' id := by
  rw [select, List.filter_append, List.map_append]
  rfl

def idText (floatText : String → String) : ConstValue → Option String
  | .string id => some id
  | .number (.int n) => some (toString n)
  | .number (.float repr) => some (floatText repr)
  | _ => none

def shape (isList : Bool) (found : List ConstValue) : ConstValue :=
  if isList then .list found else found.head?.getD .null

section

variable (floatText : String → String)

theorem groupByKey_concat (src : List (ConstValue × ConstValue)) (entry : ConstValue × ConstValue) :
    groupByKey floatText (src ++ [entry]) = match keyText floatText entry.1 with
      | some key => (groupByKey floatText src).insertKey key
          (((groupByKey floatText src).getKey key).getD [] ++ [entry.2])
      | none => groupByKey floatText src := by
  rw [groupByKey, List.foldl_append]
  rfl

theorem getKey_groupByKey (src : List (ConstValue × ConstValue)) (id : String) :
    ((groupByKey floatText src).getKey id).getD [] = select (keyText floatText) src id := by
  induction src using List.reverseRecOn with
  | nil => rfl
  | append_singleton src entry ih =>
    rw [groupByKey_concat, select_append, ← ih]
    cases hkey : keyText floatText entry.1 with
    | none => simp [select, hkey]
    | some key =>
      by_cases hid : key = id
      · subst hid
        simp [select, hkey, Object.getKey_insertKey]
      · rw [Object.getKey_insertKey_of_ne _ _ _ _ (Ne.symm hid)]
        simp [select, hkey, hid]

theorem extractor_eq (loader : HttpDataLoader) (src : List (ConstValue × ConstValue)) (id : String) :
    extractor loader (groupByKey floatText src) id = shape loader.isList (select (keyText floatText) src id) := by
  have hget := getKey_groupByKey floatText src id
  cases hlist : loader.isList with
  | true => rw [extractor, hlist, if_pos rfl, getBodyValueList, hget, shape, if_pos rfl]
  | false =>
    rw [extractor, hlist, if_neg Bool.false_ne_true, getBodyValueSingle, shape, if_neg Bool.false_ne_true, ← hget]
    cases (groupByKey floatText src).getKey id <;> rfl

theorem gatherItems_append (items items' : List ConstValue) (path : List String) :
    gatherItems (items ++ items') path = gatherItems items path ++ gatherItems items' path := by
  induction items with
  | nil => rfl
  | cons item items ih => rw [List.cons_append, gatherItems, gatherItems, ih, List.append_assoc]

theorem gatherItems_flatMap {α : Type} (xs : List α) (items : α → List ConstValue) (path : List String) :
    gatherItems (xs.flatMap items) path = xs.flatMap fun x => gatherItems (items x) path := by
  induction xs with
  | nil => rfl
  | cons x xs ih => rw [List.flatMap_cons, gatherItems_append, ih, List.flatMap_cons]

theorem select_flatMap {α : Type} (keyOf : ConstValue → Option String) (xs : List α)
    (found : α → List (ConstValue × ConstValue)) (id : String) :
    select keyOf (xs.flatMap found) id = xs.flatMap fun x => select keyOf (found x) id := by
  induction xs with
  | nil => rfl
  | cons x xs ih => rw [List.flatMap_cons, select_append, ih, List.flatMap_cons]

end

section

variable (floatText : String → String) (build : Build) (loader : HttpDataLoader) (groupBy : GroupBy)
  (keys : List DataLoaderRequest)

def idsOfRequest (request : DataLoaderRequest) : List String :=
  idsOf groupBy.getKey request.request.url.query

def Answers (upstream : Upstream groupBy.getKey) (execute : Request → Except String Response) : Prop :=
  ∀ request, request.method = .get →
    ∃ response, execute request = .ok response ∧ response.body = .list (upstream.answer request.url)

def OwnElements (upstream : Upstream groupBy.getKey) : Prop :=
  ∀ url id, idsOf groupBy.getKey url.query = [id] →
    ∀ entry ∈ gatherItems (upstream.answer url) groupBy.getPath, idText floatText entry.1 = some id

def alone (upstream : Upstream groupBy.getKey) (request : DataLoaderRequest) (id : String) : List ConstValue :=
  select (idText floatText) (gatherItems (upstream.answer request.request.url) groupBy.getPath) id

def LoadedAlike (upstream : Upstream groupBy.getKey) (execute : Request → Except String Response) : Prop :=
  ∀ request ∈ keys, ∀ id, idsOfRequest groupBy request = [id] →
    ∃ results, load floatText build loader execute keys = .ok results ∧ request ∈ results.map Prod.fst ∧
      ∀ entry ∈ results, entry.1 = request →
        entry.2.body = shape loader.isList (alone floatText groupBy upstream request id)

/-- The URLs differ in the id only, an id that is the text of an integer is its text as a float too, and where lists are
loaded no id comes twice. -/
structure Batchable : Prop where
  same_url : ∀ request ∈ keys, ∀ request' ∈ keys,
    Url.withId groupBy.getKey "" request.request.url = Url.withId groupBy.getKey "" request'.request.url
  exact_id : ∀ request ∈ keys, ∀ n : Int, idsOfRequest groupBy request = [toString n] → f64Text n = toString n
  once : loader.isList = true → (keys.flatMap (idsOfRequest groupBy)).Nodup

def batched (upstream : Upstream groupBy.getKey) (base : Url) (ids : List String) (id : String) : List ConstValue :=
  ids.flatMap fun id' =>
    select (keyText floatText) (gatherItems (upstream.answer (Url.withId groupBy.getKey id' base)) groupBy.getPath) id

variable {floatText build loader groupBy keys}

theorem answer_batched (upstream : Upstream groupBy.getKey) (base : DataLoaderRequest) (rest : List DataLoaderRequest)
    (hbase : idsOfRequest groupBy base ≠ []) (id : String) :
    select (keyText floatText)
      (gatherItems (upstream.answer (queryBatching rest (some groupBy.getKey) base.request).url) groupBy.getPath) id =
      batched floatText groupBy upstream base.request.url ((base :: rest).flatMap (idsOfRequest groupBy)) id := by
  have hids : idsOf groupBy.getKey (queryBatching rest (some groupBy.getKey) base.request).url.query =
      (base :: rest).flatMap (idsOfRequest groupBy) := by
    have hfilter (rest : List DataLoaderRequest) : idsOf groupBy.getKey (rest.flatMap fun key =>
        key.request.url.query.filter fun pair => decide (pair.1 = groupBy.getKey)) =
          rest.flatMap (idsOfRequest groupBy) := by
      induction rest with
      | nil => rfl
      | cons key rest ih =>
        rw [List.flatMap_cons, idsOf_append, ih, List.flatMap_cons]
        congr 1
        rw [idsOf, List.filter_filter]
        simp [idsOfRequest, idsOf]
    rw [queryBatching_eq, extendPairs, idsOf_append, hfilter, List.flatMap_cons]
    rfl
  have hwith (id : String) : Url.withId groupBy.getKey id (queryBatching rest (some groupBy.getKey) base.request).url =
      Url.withId groupBy.getKey id base.request.url := by
    rw [queryBatching_eq, Url.withId, Url.withId, extendPairs]
    simp only
    rw [setId_append id hbase]
    intro pair hpair
    obtain ⟨key, _, hpair⟩ := List.mem_flatMap.mp hpair
    simpa using (List.mem_filter.mp hpair).2
  have hne : idsOf groupBy.getKey (queryBatching rest (some groupBy.getKey) base.request).url.query ≠ [] := by
    rw [hids, List.flatMap_cons]
    exact fun hnil => hbase (List.append_eq_nil_iff.mp hnil).1
  rw [upstream.answer_eq _ hne, hids, gatherItems_flatMap, select_flatMap]
  simp only [hwith]
  rfl

variable {upstream : Upstream groupBy.getKey} {execute : Request → Except String Response}

theorem load_get (hgroup : loader.groupBy = some groupBy) (hanswers : Answers groupBy upstream execute)
    {base : DataLoaderRequest} {rest : List DataLoaderRequest} (hsorted : sortRequests build keys = base :: rest)
    (hget : base.request.method = .get) (hid : ∀ request ∈ base :: rest, ∃ id, idsOfRequest groupBy request = [id]) :
    ∃ results, load floatText build loader execute keys = .ok results ∧ results.map Prod.fst = base :: rest ∧
      ∀ entry ∈ results, ∀ id, idsOfRequest groupBy entry.1 = [id] → entry.2.body = shape loader.isList
        (batched floatText groupBy upstream base.request.url ((base :: rest).flatMap (idsOfRequest groupBy)) id) := by
  have hmethod : (queryBatching rest (some groupBy.getKey) base.request).method = .get := by
    rw [queryBatching_eq]
    exact hget
  obtain ⟨response, hexecute, hbody⟩ := hanswers _ hmethod
  obtain ⟨baseId, hbaseId⟩ := hid base List.mem_cons_self
  let answered (request : DataLoaderRequest) (id : String) : DataLoaderRequest × Response :=
    (request, { response with body := extractor loader (groupByKey floatText (gatherPathMatches response.body groupBy.getPath)) id })
  have hmapM : ∀ requests : List DataLoaderRequest, (∀ request ∈ requests, ∃ id, idsOfRequest groupBy request = [id]) →
      ∃ results, requests.mapM (fun dlReq => match queryParam dlReq.request.url groupBy.getKey with
          | some id => (.ok (answered dlReq id) : Except String _)
          | none => .error ("Unable to find key " ++ groupBy.getKey ++ " in query params")) = .ok results ∧
        results.map Prod.fst = requests ∧
        ∀ entry ∈ results, ∀ id, idsOfRequest groupBy entry.1 = [id] → entry = answered entry.1 id := by
    intro requests hrequests
    induction requests with
    | nil => exact ⟨[], rfl, rfl, fun entry hentry => absurd hentry List.not_mem_nil⟩
    | cons request requests ih =>
      obtain ⟨id, hrequest⟩ := hrequests request List.mem_cons_self
      obtain ⟨results, hmapM, hfst, hentries⟩ := ih fun request h => hrequests request (List.mem_cons_of_mem _ h)
      refine ⟨answered request id :: results, ?_, congrArg (request :: ·) hfst, ?_⟩
      · rw [List.mapM_cons, hmapM, queryParam_eq hrequest]
        rfl
      · rintro entry (_ | ⟨_, hentry⟩) id' hid'
        · obtain rfl := (List.cons.inj (hrequest.symm.trans hid')).1
          rfl
        · exact hentries entry hentry id' hid'
  obtain ⟨results, hresults, hfst, hentries⟩ := hmapM (base :: rest) hid
  refine ⟨results, ?_, hfst, ?_⟩
  · rw [load, hgroup]
    simp only [hsorted, if_pos hget, hexecute]
    exact hresults
  · intro entry hentry id hentryId
    have hentry' := congrArg (fun entry => entry.2.body) (hentries entry hentry id hentryId)
    refine (hentry'.trans (extractor_eq floatText loader _ id)).trans ?_
    rw [hbody, gatherPathMatches, answer_batched upstream base rest (by rw [hbaseId]; simp)]

theorem sortRequests_perm (build : Build) (keys : List DataLoaderRequest) : (sortRequests build keys).Perm keys := by
  unfold sortRequests
  split
  · exact List.mergeSort_perm _ _
  · exact .refl keys

theorem loadedAlike_iff (hgroup : loader.groupBy = some groupBy) (hanswers : Answers groupBy upstream execute)
    {base : DataLoaderRequest} {rest : List DataLoaderRequest} (hsorted : sortRequests build keys = base :: rest)
    (hget : ∀ request ∈ keys, request.request.method = .get)
    (hid : ∀ request ∈ keys, ∃ id, idsOfRequest groupBy request = [id]) :
    LoadedAlike floatText build loader groupBy keys upstream execute ↔
      ∀ request ∈ keys, ∀ id, idsOfRequest groupBy request = [id] →
        shape loader.isList
          (batched floatText groupBy upstream base.request.url ((base :: rest).flatMap (idsOfRequest groupBy)) id) =
        shape loader.isList (alone floatText groupBy upstream request id) := by
  have hmem (request : DataLoaderRequest) : request ∈ base :: rest ↔ request ∈ keys := by
    rw [← hsorted]
    exact (sortRequests_perm build keys).mem_iff
  obtain ⟨results, hload, hfst, hentries⟩ := load_get hgroup hanswers hsorted
    (hget base ((hmem base).mp List.mem_cons_self)) fun request h => hid request ((hmem request).mp h)
  constructor
  · intro halike request hrequest id hrequestId
    obtain ⟨results', hload', hanswered, hbody⟩ := halike request hrequest id hrequestId
    obtain rfl := Except.ok.inj (hload.symm.trans hload')
    obtain ⟨entry, hentry, rfl⟩ := List.mem_map.mp hanswered
    exact (hentries entry hentry id hrequestId).symm.trans (hbody entry hentry rfl)
  · intro hshape request hrequest id hrequestId
    refine ⟨results, hload, by rw [hfst]; exact (hmem request).mpr hrequest, ?_⟩
    rintro entry hentry rfl
    exact (hentries entry hentry id hrequestId).trans (hshape entry.1 hrequest id hrequestId)

variable {id : String}

theorem keyText_of_idText {key : ConstValue} (h : idText floatText key = some id)
    (hexact : ∀ n : Int, id = toString n → f64Text n = toString n) : keyText floatText key = some id := by
  cases key with
  | number n =>
    cases n with
    | int n =>
      have hn := Option.some.inj h
      rw [keyText, hexact n hn.symm, hn]
    | float repr => exact h
  | string key => exact h
  | null | boolean _ | enum _ | list _ | object _ => cases h

theorem select_own {found : List (ConstValue × ConstValue)} {id' : String}
    (hown : ∀ entry ∈ found, idText floatText entry.1 = some id')
    (hexact : ∀ n : Int, id' = toString n → f64Text n = toString n) (id : String) :
    select (keyText floatText) found id = if id' = id then select (idText floatText) found id else [] := by
  have hkey : ∀ entry ∈ found, keyText floatText entry.1 = idText floatText entry.1 := by
    intro entry hentry
    rw [hown entry hentry]
    exact keyText_of_idText (hown entry hentry) hexact
  have hselect : select (keyText floatText) found id = select (idText floatText) found id := by
    rw [select, select, List.filter_congr fun entry hentry => by rw [hkey entry hentry]]
  split
  · exact hselect
  next hne =>
    rw [hselect, select, List.map_eq_nil_iff, List.filter_eq_nil_iff]
    intro entry hentry
    simpa [hown entry hentry] using hne

theorem flatMap_ite_nodup {α : Type} {ids : List String} (hmem : id ∈ ids) (hnodup : ids.Nodup)
    (found : List α) : (ids.flatMap fun id' => if id' = id then found else []) = found := by
  induction ids with
  | nil => exact absurd hmem List.not_mem_nil
  | cons id' ids ih =>
    obtain ⟨hfirst, hrest⟩ := List.nodup_cons.mp hnodup
    rw [List.flatMap_cons]
    by_cases he : id' = id
    · subst he
      have hnil : (ids.flatMap fun id'' => if id'' = id' then found else []) = [] := by
        rw [List.flatMap_eq_nil_iff]
        intro id'' h''
        exact if_neg fun (he : id'' = id') => hfirst (he ▸ h'')
      rw [if_pos rfl, hnil, List.append_nil]
    · rw [if_neg he, List.nil_append]
      exact ih ((List.mem_cons.mp hmem).resolve_left (Ne.symm he)) hrest

theorem head_flatMap_ite {α : Type} {ids : List String} (hmem : id ∈ ids) (found : List α) :
    (ids.flatMap fun id' => if id' = id then found else []).head? = found.head? := by
  induction ids with
  | nil => exact absurd hmem List.not_mem_nil
  | cons id' ids ih =>
    rw [List.flatMap_cons]
    by_cases he : id' = id
    · rw [if_pos he, List.head?_append]
      cases found with
      | nil =>
        have hnil : (ids.flatMap fun id' => if id' = id then ([] : List α) else []) = [] := by simp
        rw [hnil]
        rfl
      | cons first found => rfl
    · rw [if_neg he, List.nil_append]
      exact ih ((List.mem_cons.mp hmem).resolve_left (Ne.symm he))

theorem loadedAlike_of_batchable (hgroup : loader.groupBy = some groupBy) (hanswers : Answers groupBy upstream execute)
    (hown : OwnElements floatText groupBy upstream) (hget : ∀ request ∈ keys, request.request.method = .get)
    (hid : ∀ request ∈ keys, ∃ id, idsOfRequest groupBy request = [id]) (h : Batchable loader groupBy keys) :
    LoadedAlike floatText build loader groupBy keys upstream execute := by
  cases hsorted : sortRequests build keys with
  | nil =>
    have hnil := sortRequests_perm build keys
    rw [hsorted] at hnil
    rw [List.nil_perm.mp hnil]
    exact fun request hrequest => absurd hrequest List.not_mem_nil
  | cons base rest =>
    rw [loadedAlike_iff hgroup hanswers hsorted hget hid]
    have hperm : (base :: rest).Perm keys := hsorted ▸ sortRequests_perm build keys
    have hbase := hperm.mem_iff.mp List.mem_cons_self
    have hurl (request : DataLoaderRequest) (hrequest : request ∈ keys) (id : String)
        (hrequestId : idsOfRequest groupBy request = [id]) :
        Url.withId groupBy.getKey id base.request.url = request.request.url := by
      have hsame := h.same_url base hbase request hrequest
      have hquery := congrArg (fun url => setId groupBy.getKey id url.query) hsame
      have haddress := congrArg Url.address hsame
      simp only [Url.withId, setId_setId] at hquery haddress
      rw [Url.withId, hquery, haddress, setId_self hrequestId]
    intro request hrequest id hrequestId
    have hbatched : batched floatText groupBy upstream base.request.url ((base :: rest).flatMap (idsOfRequest groupBy)) id =
        ((base :: rest).flatMap (idsOfRequest groupBy)).flatMap fun id' =>
          if id' = id then alone floatText groupBy upstream request id else [] := by
      refine List.flatMap_congr fun id' hid' => ?_
      obtain ⟨request', hrequest', hmem⟩ := List.mem_flatMap.mp hid'
      have hkeys' := hperm.mem_iff.mp hrequest'
      obtain ⟨id'', hrequestId'⟩ := hid request' hkeys'
      rw [hrequestId', List.mem_singleton] at hmem
      subst hmem
      rw [hurl request' hkeys' id' hrequestId', select_own (hown _ id' hrequestId')
        fun n hn => h.exact_id request' hkeys' n (by rw [hrequestId', hn])]
      split
      next he =>
        subst he
        rw [alone, ← hurl request' hkeys' id' hrequestId', hurl request hrequest id' hrequestId]
      next => rfl
    have hmem : id ∈ (base :: rest).flatMap (idsOfRequest groupBy) :=
      List.mem_flatMap.mpr ⟨request, hperm.mem_iff.mpr hrequest, by rw [hrequestId]; exact List.mem_singleton_self id⟩
    rw [hbatched]
    cases hlist : loader.isList with
    | true =>
      have hnodup := (hperm.flatMap_right (idsOfRequest groupBy)).nodup_iff.mpr (h.once hlist)
      rw [flatMap_ite_nodup hmem hnodup]
    | false => rw [shape, if_neg Bool.false_ne_true, head_flatMap_ite hmem, shape, if_neg Bool.false_ne_true]

def wrap (path : List String) (value : ConstValue) : ConstValue :=
  match path with
  | [] => value
  | key :: path => .object [(key, wrap path value)]

theorem gather_wrap {path : List String} (hpath : path ≠ []) (value : ConstValue) :
    ∃ fields, gatherItems [wrap path value] path = [(value, .object fields)] := by
  rw [gatherItems, gatherItems, List.append_nil]
  induction path with
  | nil => exact absurd rfl hpath
  | cons key path ih =>
    rw [wrap, gatherPathMatches, gatherField, if_pos rfl]
    cases path with
    | nil => exact ⟨_, rfl⟩
    | cons next path => exact ih (List.cons_ne_nil next path)

theorem getPath_ne_nil (groupBy : GroupBy) : groupBy.getPath ≠ [] := by
  rw [GroupBy.getPath]
  split
  · exact List.cons_ne_nil _ _
  next h => exact fun hnil => h (List.isEmpty_iff.mpr hnil)

theorem shape_cons_ne_nil (isList : Bool) (fields : List (String × ConstValue)) :
    shape isList [] ≠ shape isList [ConstValue.object fields] := by
  cases isList <;> simp [shape]

def served (upstream : Upstream groupBy.getKey) (request : Request) : Except String Response :=
  .ok ⟨200, [], .list (upstream.answer request.url)⟩

theorem served_answers (upstream : Upstream groupBy.getKey) : Answers groupBy upstream (served upstream) :=
  fun _ _ => ⟨_, rfl, rfl⟩

def keyed (groupBy : GroupBy) (keyFor : Url → String → Option ConstValue) : Upstream groupBy.getKey :=
  Upstream.ofAnswers fun url id => ((keyFor url id).map (wrap groupBy.getPath)).toList

theorem keyed_answer (keyFor : Url → String → Option ConstValue) {url : Url}
    (h : idsOf groupBy.getKey url.query = [id]) : (keyed groupBy keyFor).answer url =
      ((keyFor (Url.withId groupBy.getKey "" url) id).map (wrap groupBy.getPath)).toList := by
  change (idsOf groupBy.getKey url.query).flatMap _ = _
  rw [h, List.flatMap_singleton]

theorem keyed_own {keyFor : Url → String → Option ConstValue}
    (h : ∀ url id key, keyFor url id = some key → idText floatText key = some id) :
    OwnElements floatText groupBy (keyed groupBy keyFor) := by
  intro url id hid entry hentry
  rw [keyed_answer keyFor hid] at hentry
  cases hkey : keyFor (Url.withId groupBy.getKey "" url) id with
  | none =>
    rw [hkey] at hentry
    exact absurd hentry List.not_mem_nil
  | some key =>
    obtain ⟨fields, hgather⟩ := gather_wrap (getPath_ne_nil groupBy) key
    rw [hkey, Option.map_some, Option.toList_some, hgather, List.mem_singleton] at hentry
    rw [hentry]
    exact h _ id key hkey

theorem keyed_select (keyFor : Url → String → Option ConstValue) {url : Url}
    (h : idsOf groupBy.getKey url.query = [id]) (keyOf : ConstValue → Option String) (id' : String) :
    ∃ fields, select keyOf (gatherItems ((keyed groupBy keyFor).answer url) groupBy.getPath) id' =
      if (keyFor (Url.withId groupBy.getKey "" url) id).bind keyOf = some id' then [.object fields] else [] := by
  rw [keyed_answer keyFor h]
  cases hkey : keyFor (Url.withId groupBy.getKey "" url) id with
  | none => exact ⟨[], rfl⟩
  | some key =>
    obtain ⟨fields, hgather⟩ := gather_wrap (getPath_ne_nil groupBy) key
    refine ⟨fields, ?_⟩
    rw [Option.map_some, Option.toList_some, hgather, Option.bind_some, select]
    by_cases hid : keyOf key = some id' <;> simp [hid]

theorem batched_select (keyFor : Url → String → Option ConstValue) {base : Url}
    (hbase : idsOf groupBy.getKey base.query ≠ []) (ids : List String) (id : String) :
    (batched floatText groupBy (keyed groupBy keyFor) base ids id).length =
      ids.countP fun id' => (keyFor (Url.withId groupBy.getKey "" base) id').bind (keyText floatText) = some id := by
  induction ids with
  | nil => rfl
  | cons id' ids ih =>
    have hids : idsOf groupBy.getKey (Url.withId groupBy.getKey id' base).query = [id'] := idsOf_setId id' hbase
    have hframe : Url.withId groupBy.getKey "" (Url.withId groupBy.getKey id' base) = Url.withId groupBy.getKey "" base := by
      rw [Url.withId, Url.withId, setId_setId]
      rfl
    obtain ⟨fields, hselect⟩ := keyed_select keyFor hids (keyText floatText) id
    rw [hframe] at hselect
    rw [batched] at ih ⊢
    rw [List.flatMap_cons, List.length_append, ih, hselect, List.countP_cons]
    split <;> simp_all [Nat.add_comm]

section

variable (floatText build loader groupBy keys)

def AlwaysAlike : Prop :=
  ∀ (upstream : Upstream groupBy.getKey) (execute : Request → Except String Response),
    OwnElements floatText groupBy upstream → Answers groupBy upstream execute →
      LoadedAlike floatText build loader groupBy keys upstream execute

end

section

variable {base : DataLoaderRequest} {rest : List DataLoaderRequest}
  (hgroup : loader.groupBy = some groupBy) (hsorted : sortRequests build keys = base :: rest)
  (hget : ∀ request ∈ keys, request.request.method = .get)
  (hid : ∀ request ∈ keys, ∃ id, idsOfRequest groupBy request = [id])
  (halike : AlwaysAlike floatText build loader groupBy keys)

include hgroup hsorted hget hid halike

theorem shape_keyed (keyFor : Url → String → Option ConstValue)
    (hown : ∀ url id key, keyFor url id = some key → idText floatText key = some id) {request : DataLoaderRequest}
    (hrequest : request ∈ keys) {id : String} (hrequestId : idsOfRequest groupBy request = [id]) :
    ∃ fields, shape loader.isList (batched floatText groupBy (keyed groupBy keyFor) base.request.url
        ((base :: rest).flatMap (idsOfRequest groupBy)) id) =
      shape loader.isList
        (if (keyFor (Url.withId groupBy.getKey "" request.request.url) id).isSome then [.object fields] else []) := by
  have hloaded := halike (keyed groupBy keyFor) (served (keyed groupBy keyFor)) (keyed_own hown) (served_answers _)
  rw [loadedAlike_iff hgroup (served_answers _) hsorted hget hid] at hloaded
  obtain ⟨fields, hselect⟩ := keyed_select keyFor hrequestId (idText floatText) id
  refine ⟨fields, (hloaded request hrequest id hrequestId).trans ?_⟩
  rw [alone, hselect]
  cases hkey : keyFor (Url.withId groupBy.getKey "" request.request.url) id with
  | none => rfl
  | some key => rw [Option.bind_some, hown _ id key hkey, if_pos rfl, Option.isSome_some, if_pos rfl]

theorem same_url_of_alike {request : DataLoaderRequest} (hrequest : request ∈ keys) :
    Url.withId groupBy.getKey "" request.request.url = Url.withId groupBy.getKey "" base.request.url := by
  by_contra hne
  obtain ⟨id, hrequestId⟩ := hid request hrequest
  have hbase : base ∈ keys := (sortRequests_perm build keys).mem_iff.mp (hsorted ▸ List.mem_cons_self)
  obtain ⟨baseId, hbaseId⟩ := hid base hbase
  -- nothing is found at the URL of the batch, and one element at every other
  let keyFor (url : Url) (id : String) : Option ConstValue :=
    if url = Url.withId groupBy.getKey "" base.request.url then none else some (.string id)
  have hown : ∀ url id key, keyFor url id = some key → idText floatText key = some id := by
    intro url id key hkey
    simp only [keyFor, Option.ite_none_left_eq_some] at hkey
    obtain rfl := Option.some.inj hkey.2
    rfl
  obtain ⟨fields, hshape⟩ := shape_keyed hgroup hsorted hget hid halike keyFor hown hrequest hrequestId
  have hnil : batched floatText groupBy (keyed groupBy keyFor) base.request.url
      ((base :: rest).flatMap (idsOfRequest groupBy)) id = [] := by
    rw [← List.length_eq_zero_iff, batched_select keyFor (by rw [← idsOfRequest, hbaseId]; simp)]
    simp [keyFor]
  simp only [hnil, keyFor, if_neg hne, Option.isSome_some, if_true] at hshape
  exact shape_cons_ne_nil loader.isList fields hshape

theorem exact_id_of_alike {request : DataLoaderRequest} (hrequest : request ∈ keys) {n : Int}
    (hrequestId : idsOfRequest groupBy request = [toString n]) : f64Text n = toString n := by
  by_contra hne
  have hbase : base ∈ keys := (sortRequests_perm build keys).mem_iff.mp (hsorted ▸ List.mem_cons_self)
  obtain ⟨baseId, hbaseId⟩ := hid base hbase
  let keyFor (_ : Url) (id : String) : Option ConstValue := if id = toString n then some (.number (.int n)) else none
  have hown : ∀ url id key, keyFor url id = some key → idText floatText key = some id := by
    intro url id key hkey
    simp only [keyFor, Option.ite_none_right_eq_some] at hkey
    obtain ⟨rfl, hkey⟩ := hkey
    obtain rfl := Option.some.inj hkey
    rfl
  obtain ⟨fields, hshape⟩ := shape_keyed hgroup hsorted hget hid halike keyFor hown hrequest hrequestId
  have hnil : batched floatText groupBy (keyed groupBy keyFor) base.request.url
      ((base :: rest).flatMap (idsOfRequest groupBy)) (toString n) = [] := by
    rw [← List.length_eq_zero_iff, batched_select keyFor (by rw [← idsOfRequest, hbaseId]; simp), List.countP_eq_zero]
    intro id _
    simp only [keyFor, decide_eq_true_eq]
    split
    · intro hkey
      exact hne (Option.some.inj hkey)
    · exact Option.some_ne_none _ ∘ Eq.symm
  simp only [hnil, keyFor, if_true, Option.isSome_some] at hshape
  exact shape_cons_ne_nil loader.isList fields hshape

theorem once_of_alike (hlist : loader.isList = true) : (keys.flatMap (idsOfRequest groupBy)).Nodup := by
  have hperm : (base :: rest).Perm keys := hsorted ▸ sortRequests_perm build keys
  have hbase := hperm.mem_iff.mp List.mem_cons_self
  obtain ⟨baseId, hbaseId⟩ := hid base hbase
  let keyFor (_ : Url) (id : String) : Option ConstValue := some (.string id)
  have hown : ∀ url id key, keyFor url id = some key → idText floatText key = some id := by
    intro url id key hkey
    obtain rfl := Option.some.inj hkey
    rfl
  rw [← (hperm.flatMap_right (idsOfRequest groupBy)).nodup_iff, List.nodup_iff_count]
  intro id
  by_cases hmem : id ∈ (base :: rest).flatMap (idsOfRequest groupBy)
  · obtain ⟨request, hrequest, hrequestId⟩ := List.mem_flatMap.mp hmem
    obtain ⟨id', hrequestId'⟩ := hid request (hperm.mem_iff.mp hrequest)
    rw [hrequestId', List.mem_singleton] at hrequestId
    subst hrequestId
    obtain ⟨fields, hshape⟩ :=
      shape_keyed hgroup hsorted hget hid halike keyFor hown (hperm.mem_iff.mp hrequest) hrequestId'
    rw [hlist, shape, if_pos rfl, shape, if_pos rfl] at hshape
    have hlength := congrArg List.length (ConstValue.list.inj hshape)
    rw [batched_select keyFor (by rw [← idsOfRequest, hbaseId]; simp)] at hlength
    simp only [keyFor, Option.bind_some, keyText, Option.some.injEq, Option.isSome_some, if_true] at hlength
    have hcount := List.countP_congr fun x (_ : x ∈ (base :: rest).flatMap (idsOfRequest groupBy)) =>
      (by simp : (x == id) = true ↔ decide (x = id) = true)
    rw [List.count, hcount, hlength]
    exact Nat.le_refl 1
  · rw [List.count_eq_zero_of_not_mem hmem]
    exact Nat.zero_le 1

end

/-- A batch is answered as each of its requests is alone, whatever the upstream, where its URLs differ in the id only,
the ids survive being read as floats, and no list is asked for twice. -/
theorem loads_alike_iff (floatText : String → String) (build : Build) (loader : HttpDataLoader) (groupBy : GroupBy)
    (keys : List DataLoaderRequest) (hgroup : loader.groupBy = some groupBy)
    (hget : ∀ request ∈ keys, request.request.method = .get)
    (hid : ∀ request ∈ keys, ∃ id, idsOfRequest groupBy request = [id]) :
    AlwaysAlike floatText build loader groupBy keys ↔ Batchable loader groupBy keys := by
  constructor
  · intro halike
    cases hsorted : sortRequests build keys with
    | nil =>
      have hnil := sortRequests_perm build keys
      rw [hsorted] at hnil
      rw [List.nil_perm.mp hnil]
      exact ⟨by simp, by simp, by simp⟩
    | cons base rest =>
      have hsame {request : DataLoaderRequest} := @same_url_of_alike _ _ _ _ _ _ _ hgroup hsorted hget hid halike request
      refine ⟨fun request h request' h' => (hsame h).trans (hsame h').symm, fun request h n hn => ?_, fun hlist => ?_⟩
      · exact exact_id_of_alike hgroup hsorted hget hid halike h hn
      · exact once_of_alike hgroup hsorted hget hid halike hlist
  · intro h upstream execute hown hanswers
    exact loadedAlike_of_batchable hgroup hanswers hown hget hid h

end

def release : Build :=
  ⟨false, fun url => url.address⟩

def userLoader : HttpDataLoader :=
  ⟨some ⟨["id"], none⟩, false⟩

def userRequest (id lang : String) : DataLoaderRequest :=
  ⟨⟨.get, ⟨"http://users/all", [("id", id), ("lang", lang)]⟩, [], none⟩, none⟩

theorem loads_alike_users :
    AlwaysAlike id release userLoader ⟨["id"], none⟩ [userRequest "1" "en", userRequest "2" "en"] ↔
      Batchable userLoader ⟨["id"], none⟩ [userRequest "1" "en", userRequest "2" "en"] :=
  loads_alike_iff id release userLoader ⟨["id"], none⟩ _ rfl (by simp [userRequest]) (by
    intro request hrequest
    simp only [List.mem_cons, List.not_mem_nil, or_false] at hrequest
    rcases hrequest with rfl | rfl
    · exact ⟨"1", by decide⟩
    · exact ⟨"2", by decide⟩)

def greetings : Upstream (GroupBy.getKey ⟨["id"], none⟩) :=
  Upstream.ofAnswers fun url id =>
    [.object [("id", .string id), ("greeting", .string (if ("lang", "en") ∈ url.query then "hello" else "hallo"))]]

def greeting (id text : String) : ConstValue :=
  .object [("id", .string id), ("greeting", .string text)]

theorem answered_for_another :
    load id release userLoader (served greetings) [userRequest "1" "en", userRequest "2" "de"] =
      .ok [(userRequest "1" "en", ⟨200, [], greeting "1" "hello"⟩), (userRequest "2" "de", ⟨200, [], greeting "2" "hello"⟩)] ∧
    load id release userLoader (served greetings) [userRequest "2" "de"] =
      .ok [(userRequest "2" "de", ⟨200, [], greeting "2" "hallo"⟩)] ∧
    ¬ LoadedAlike id release userLoader ⟨["id"], none⟩ [userRequest "1" "en", userRequest "2" "de"] greetings
      (served greetings) := by
  have hload : load id release userLoader (served greetings) [userRequest "1" "en", userRequest "2" "de"] =
      .ok [(userRequest "1" "en", ⟨200, [], greeting "1" "hello"⟩), (userRequest "2" "de", ⟨200, [], greeting "2" "hello"⟩)] :=
    rfl
  have halone : alone id ⟨["id"], none⟩ greetings (userRequest "2" "de") "2" = [greeting "2" "hallo"] := rfl
  refine ⟨hload, rfl, fun halike => ?_⟩
  obtain ⟨results, hresults, _, hbody⟩ := halike (userRequest "2" "de") (by simp) "2" (by decide)
  obtain rfl := Except.ok.inj (hload.symm.trans hresults)
  have hsecond := hbody (userRequest "2" "de", ⟨200, [], greeting "2" "hello"⟩) (by simp) rfl
  rw [halone] at hsecond
  simp [shape, userLoader, greeting] at hsecond

example : f64Text 9007199254740993 = "9007199254740992" := by decide

end Gqlforge.BatchedRequests
