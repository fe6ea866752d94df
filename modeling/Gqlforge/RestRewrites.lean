import Gqlforge.RestMatching

namespace Gqlforge.Rest

open Json FormUrlencoded

structure Uri where
  path : String
  query : Option String

/-- The documented behaviour of the crate: a path is a URI without a query, the empty text is none, and the path of a
URI is a part of its text or stands for an empty one. -/
structure UriCrate where
  parse : String → Option Uri
  IsPath : String → Prop
  parse_path : ∀ text, IsPath text → parse text = some ⟨text, none⟩
  parse_empty : parse "" = none
  path_part : ∀ text uri, parse text = some uri → uri.path = "/" ∨ uri.path.toList <:+: text.toList

inductive Answer (D : Type) where
  | executed (request : PartialRequest D)
  | notFound
  | failed

def apiUrlPrefix : String := "/api"

def replaced : List Char → List Char
  | '/' :: 'a' :: 'p' :: 'i' :: rest => replaced rest
  | c :: rest => c :: replaced rest
  | [] => []

def Answer.executed? {D : Type} : Answer D → Option (PartialRequest D)
  | .executed request => some request
  | _ => none

variable (crate : UriCrate) (parseFloat : String → Option ConstValue)

def answer {D : Type} (endpoints : List (Endpoint D)) (request : Request) : Answer D :=
  match EndpointSet.matches parseFloat endpoints request with
  | some found => .executed found
  | none => .notFound

def handleRestApis {D : Type} (endpoints : List (Endpoint D)) (request : Request) : Answer D :=
  match crate.parse (String.ofList (replaced request.path.toList)) with
  | some uri => answer parseFloat endpoints { request with path := uri.path, query := uri.query }
  | none => .failed

def names (text : List Char) : ℕ :=
  text.countP (· != '/')

theorem names_replaced (text : List Char) : replaced text = text ∨ names (replaced text) < names text := by
  fun_induction replaced text with
  | case1 rest ih =>
    refine .inr ?_
    have hrest : names (replaced rest) ≤ names rest := by
      rcases ih with heq | hlt
      · rw [heq]
      · exact hlt.le
    simp only [names, List.countP_cons] at hrest ⊢
    simp
    omega
  | case2 c rest _ ih =>
    rcases ih with heq | hlt
    · exact .inl (by rw [heq])
    · refine .inr ?_
      simp only [names, List.countP_cons] at hlt ⊢
      omega
  | case3 => exact .inl rfl

theorem replaced_eq_iff (text : List Char) : replaced text = text ↔ ¬ apiUrlPrefix.toList <:+: text := by
  have happ : apiUrlPrefix.toList = ['/', 'a', 'p', 'i'] := by decide
  rw [happ]
  fun_induction replaced text with
  | case1 rest ih =>
    refine iff_of_false (fun h => ?_) fun h => h ⟨[], rest, rfl⟩
    have hlength (text : List Char) : (replaced text).length ≤ text.length := by
      fun_induction replaced text with
      | case1 rest ih => simp only [List.length_cons]; omega
      | case2 c rest _ ih => simp only [List.length_cons]; omega
      | case3 => exact le_refl _
    have := congrArg List.length h
    have := hlength rest
    simp only [List.length_cons] at *
    omega
  | case2 c rest hne ih =>
    rw [List.cons_inj_right, List.infix_cons_iff, not_or]
    refine ⟨fun h => ⟨?_, ih.mp h⟩, fun h => ih.mpr h.2⟩
    rintro ⟨tail, htail⟩
    obtain ⟨rfl, rfl⟩ := List.cons.inj htail
    exact hne tail rfl rfl
  | case3 => exact iff_of_true rfl (by decide)

theorem names_splitPath (path : String) : ((splitPath path).map fun part => names part.toList).sum = names path.toList := by
  have hsplit (text : List Char) : ((text.splitOn '/').map names).sum = names text := by
    induction text with
    | nil => rfl
    | cons c text ih =>
      rw [List.splitOn, List.splitOnP_cons_eq_if_modifyHead]
      rw [List.splitOn] at ih
      split
      next hslash =>
        rw [List.map_cons, List.sum_cons, ih]
        simp_all [names]
      next hslash =>
        obtain ⟨first, rest, hparts⟩ := List.exists_cons_of_ne_nil (List.splitOnP_ne_nil (· == '/') text)
        rw [hparts] at ih ⊢
        simp only [List.modifyHead_cons, List.map_cons, List.sum_cons, names, List.countP_cons] at ih ⊢
        omega
  have hfilter (parts : List (List Char)) :
      ((parts.filter fun part => !part.isEmpty).map names).sum = (parts.map names).sum := by
    induction parts with
    | nil => rfl
    | cons part parts ih => cases part <;> simp [ih, names]
  rw [splitPath, List.map_map, ← hsplit, ← hfilter]
  simp [Function.comp_def]

section Literals

variable {parseFloat}

/-- The endpoint of the texts of a path, with query parameters. -/
def literalEndpoint (texts : List String) (params : List (String × TypedVariable)) : Endpoint Unit :=
  ⟨.get, ⟨"", texts.map .literal⟩, params, none, ()⟩

theorem matchSegment_literal (vars : Dict ConstValue) (text part : String) :
    Path.matchSegment parseFloat vars (.literal text, part) = if text = part then some vars else none := rfl

theorem matchPairs_literals {texts parts : List String} {vars found : Dict ConstValue}
    (h : Path.matchPairs parseFloat vars ((texts.map .literal).zip parts) = some found)
    (hlength : (parts.drop texts.length).isEmpty = true) : parts <+: texts := by
  induction texts generalizing parts with
  | nil =>
    rw [List.isEmpty_iff] at hlength
    exact hlength ▸ List.nil_prefix
  | cons text texts ih =>
    cases parts with
    | nil => exact List.nil_prefix
    | cons part parts =>
      rw [List.map_cons, List.zip_cons_cons, Path.matchPairs, matchSegment_literal] at h
      split at h
      next heq =>
        rw [Option.bind_some] at h
        exact heq ▸ (List.prefix_cons_inj text).mpr (ih h hlength)
      next => cases h

theorem matchPairs_self (texts : List String) (vars : Dict ConstValue) :
    Path.matchPairs parseFloat vars ((texts.map .literal).zip texts) = some vars := by
  induction texts with
  | nil => rfl
  | cons text texts ih =>
    rw [List.map_cons, List.zip_cons_cons, Path.matchPairs, matchSegment_literal, if_pos rfl]
    exact ih

theorem literal_prefix {texts : List String} {params : List (String × TypedVariable)} {request : Request}
    {found : PartialRequest Unit} (h : (literalEndpoint texts params).matches parseFloat request = some found) :
    splitPath request.path <+: texts := by
  rw [Endpoint.matches] at h
  split at h
  · cases h
  obtain ⟨vars, hpath, -⟩ := Option.bind_eq_some_iff.mp h
  obtain ⟨_, hpairs, hrest⟩ := Option.bind_eq_some_iff.mp hpath
  split at hrest
  next hlength => exact matchPairs_literals hpairs (by simpa [literalEndpoint] using hlength)
  next => cases hrest

theorem literal_self (path : String) (query : Option String) (params : List (String × TypedVariable)) :
    (literalEndpoint (splitPath path) params).matches parseFloat ⟨.standard .get, path, query⟩ =
      (QueryParams.matches parseFloat (queryMap ⟨.standard .get, path, query⟩) params).map fun vars =>
        ⟨none, (), mergeVariables (mergeVariables Dict.empty Dict.empty) vars, ⟨"", (splitPath path).map .literal⟩⟩ := by
  have hpath : Path.matches parseFloat ⟨"", (splitPath path).map .literal⟩ path = some Dict.empty := by
    simp [Path.matches, matchPairs_self]
  rw [Endpoint.matches, if_neg fun h => h rfl]
  change (Path.matches parseFloat ⟨"", (splitPath path).map .literal⟩ path).bind _ = _
  rw [hpath]
  rfl

theorem answer_single (endpoint : Endpoint Unit) (request : Request) :
    answer parseFloat [endpoint] request =
      (endpoint.matches parseFloat request).elim Answer.notFound Answer.executed := by
  rw [answer, EndpointSet.matches, List.findSome?_cons]
  cases endpoint.matches parseFloat request <;> rfl

end Literals

section Requests

variable {crate parseFloat}

def fieldsOf (query : Option String) : List (List Char × List Char) :=
  (query.map fun query => FormUrlencoded.parse readUtf8 query.toList).getD []

/-- The endpoints see the request with the path after the prefix and the query that were sent. -/
def SeesRequest (crate : UriCrate) (parseFloat : String → Option ConstValue) (path : String) (query : Option String) :
    Prop :=
  ∀ (D : Type) (endpoints : List (Endpoint D)) (method : RequestMethod),
    handleRestApis crate parseFloat endpoints ⟨method, apiUrlPrefix ++ path, query⟩ =
      answer parseFloat endpoints ⟨method, path, query⟩

theorem replaced_prefix (path : String) : replaced (apiUrlPrefix ++ path).toList = replaced path.toList := by
  rw [String.toList_append]
  rfl

theorem fieldsOf_none : fieldsOf none = [] := rfl

variable {path : String} {query : Option String}

theorem queryMap_nil {method : RequestMethod} (h : fieldsOf query = []) :
    queryMap ⟨method, path, query⟩ = Dict.empty := by
  cases query with
  | none => rfl
  | some query =>
    have hfields : FormUrlencoded.parse readUtf8 query.toList = [] := h
    rw [queryMap]
    simp only [hfields]
    rfl

theorem queryMap_cons (method : RequestMethod) (path : String) (h : fieldsOf query ≠ []) :
    ∃ key text, (queryMap ⟨method, path, query⟩).get? key = some text := by
  cases query with
  | none => exact absurd rfl h
  | some query =>
    obtain ⟨front, last, hfields⟩ := List.eq_nil_or_concat' _ |>.resolve_left h
    have hfields : FormUrlencoded.parse readUtf8 query.toList = front ++ [last] := hfields
    refine ⟨String.ofList last.1, String.ofList last.2, ?_⟩
    rw [queryMap]
    simp only [hfields, List.map_append]
    rw [Dict.ofEntries, Dict.get?_extend_reverse, List.reverse_append]
    simp

theorem answer_of_kept {D : Type} (endpoints : List (Endpoint D)) (method : RequestMethod)
 (h : fieldsOf query = []) :
    answer parseFloat endpoints ⟨method, path, none⟩ = answer parseFloat endpoints ⟨method, path, query⟩ := by
  have hmatches (endpoint : Endpoint D) : endpoint.matches parseFloat ⟨method, path, none⟩ =
      endpoint.matches parseFloat ⟨method, path, query⟩ := by
    rw [Endpoint.matches, Endpoint.matches, queryMap_nil h, queryMap_nil fieldsOf_none]
  rw [answer, answer, EndpointSet.matches, EndpointSet.matches, funext hmatches]

theorem kept_of_sees (h : SeesRequest crate parseFloat path query) : replaced path.toList = path.toList := by
  refine (names_replaced path.toList).resolve_right fun hless => ?_
  have hanswer := h Unit [] (.standard .get)
  rw [handleRestApis, replaced_prefix] at hanswer
  cases hparse : crate.parse (String.ofList (replaced path.toList)) with
  | none =>
    rw [hparse] at hanswer
    cases hanswer
  | some uri =>
    have hanswer := h Unit [literalEndpoint (splitPath uri.path) []] (.standard .get)
    rw [handleRestApis, replaced_prefix, hparse] at hanswer
    simp only [answer_single] at hanswer
    rw [literal_self] at hanswer
    cases hmatches : (literalEndpoint (splitPath uri.path) []).matches parseFloat ⟨.standard .get, path, query⟩ with
    | none =>
      rw [hmatches] at hanswer
      cases hanswer
    | some found =>
      obtain ⟨rest, hrest⟩ := literal_prefix hmatches
      have hle : names path.toList ≤ names uri.path.toList := by
        rw [← names_splitPath path, ← names_splitPath uri.path, ← hrest, List.map_append, List.sum_append]
        exact Nat.le_add_right _ _
      have hpart : names uri.path.toList ≤ names (replaced path.toList) := by
        rcases crate.path_part _ _ hparse with hslash | hinfix
        · rw [hslash]
          exact Nat.zero_le _
        · rw [String.toList_ofList] at hinfix
          exact hinfix.sublist.countP_le
      omega

theorem fields_of_sees (hparse : crate.parse path = some ⟨path, none⟩)
    (h : SeesRequest crate parseFloat path query) : fieldsOf query = [] := by
  have hkept := kept_of_sees h
  by_contra hfields
  obtain ⟨key, text, hkey⟩ := queryMap_cons (.standard .get) path hfields
  have hanswer := h Unit [literalEndpoint (splitPath path) [(key, ⟨.string, "value", false⟩)]] (.standard .get)
  rw [handleRestApis, replaced_prefix, hkept, String.ofList_toList, hparse] at hanswer
  simp only [answer_single, literal_self, QueryParams.matches, QueryParams.matchParams, hkey,
    queryMap_nil fieldsOf_none, Dict.get?_empty, UrlParamType.toValue, Option.map_some, Option.bind_some] at hanswer
  have hvars := congrArg (fun answer => answer.executed?.map fun found => found.vars.get? "value") hanswer
  cases hvars

/-- The endpoints see the path and the query if and only if there is a path that does not have the prefix in it, and
the query has no fields. -/
theorem sees_iff {path : String} (query : Option String) (hpath : path = "" ∨ crate.IsPath path) :
    SeesRequest crate parseFloat path query ↔
      path ≠ "" ∧ ¬ apiUrlPrefix.toList <:+: path.toList ∧ fieldsOf query = [] := by
  constructor
  · intro h
    have hne : path ≠ "" := by
      rintro rfl
      have hanswer := h Unit [] (.standard .get)
      rw [handleRestApis, replaced_prefix, show String.ofList (replaced "".toList) = "" from rfl, crate.parse_empty]
        at hanswer
      cases hanswer
    have hparse := crate.parse_path path (hpath.resolve_left hne)
    exact ⟨hne, (replaced_eq_iff _).mp (kept_of_sees h), fields_of_sees hparse h⟩
  · rintro ⟨hne, hkept, hfields⟩ D endpoints method
    rw [handleRestApis, replaced_prefix, (replaced_eq_iff _).mpr hkept, String.ofList_toList,
      crate.parse_path path (hpath.resolve_left hne)]
    exact answer_of_kept endpoints method hfields

end Requests

/-- Paths of letters, digits, dots and slashes. -/
def plainUris : UriCrate where
  parse text := if text.toList.head? = some '/' ∧ text.toList.all (fun c => c.isAlphanum || c == '.' || c == '/') then
    some ⟨text, none⟩ else none
  IsPath text := text.toList.head? = some '/' ∧ text.toList.all (fun c => c.isAlphanum || c == '.' || c == '/')
  parse_path _ h := if_pos h
  parse_empty := by decide
  path_part text uri h := by
    split at h
    · obtain rfl := Option.some.inj h
      exact .inr List.infix_rfl
    · cases h

theorem sees_users :
    SeesRequest plainUris (fun _ => none) "/users" (some "id=1") ↔
      "/users" ≠ "" ∧ ¬ apiUrlPrefix.toList <:+: "/users".toList ∧ fieldsOf (some "id=1") = [] :=
  sees_iff (some "id=1") (.inr ⟨by decide, by decide⟩)

theorem query_unseen : ¬ SeesRequest plainUris (fun _ => none) "/users" (some "id=1") := by
  intro h
  have hfields := fields_of_sees rfl h
  exact absurd hfields (List.cons_ne_nil _ _)

end Gqlforge.Rest
