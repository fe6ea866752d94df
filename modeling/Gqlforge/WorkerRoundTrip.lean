import Gqlforge.WorkerValues

namespace Gqlforge.WorkerRoundTrip

open BigEndian FormUrlencoded QueryTexts QueryFixpoints SseClient SortedMap WorkerValues
open scoped RelatedLists

/-! ## What a hook may change -/

structure WorkerRequest.Same (request request' : WorkerRequest) : Prop where
  method : request.method = request'.method
  url : request.url = request'.url
  headers : ∀ name, request.headers.getAll name = request'.headers.getAll name
  body : request.body = request'.body

structure Response.Same {Body : Type} (response response' : Response Body) : Prop where
  status : response.status = response'.status
  headers : ∀ name, response.headers.getAll name = response'.headers.getAll name
  body : response.body = response'.body

/-! ## The URL parser -/

namespace Url

def IsHttp (url : Url) : Prop :=
  url.scheme = "http".toList ∨ url.scheme = "https".toList

def base (url : Url) : Text :=
  url.scheme ++ "://".toList ++ url.host.getD [] ++ Uri.portText url.port ++ url.path

def bare (url : Url) : Url :=
  { url with username := [], password := none, query := none, fragment := none }

end Url

/-- The parser reads a URL back that it has given, its query anew and a fragment from a hash on. -/
structure UrlParser (parseUrl : Text → Option Url) : Prop where
  host {text : Text} {url : Url} : parseUrl text = some url → Url.IsHttp url → url.host.isSome
  plain {text : Text} {url : Url} : parseUrl text = some url → Url.IsHttp url →
    parseUrl (Url.base url) = some (Url.bare url)
  query {text : Text} {url : Url} {more : Text} : parseUrl text = some url → Url.IsHttp url → '#' ∉ more →
    parseUrl (Url.base url ++ '?' :: more) = some { Url.bare url with query := some (encodeQuery (tidy more)) }
  fragment {text : Text} {url : Url} {more : Text} : parseUrl text = some url → Url.IsHttp url → '#' ∈ more →
    ∃ fragment, parseUrl (Url.base url ++ '?' :: more) = some { Url.bare url with
      query := some (encodeQuery (visible (more.takeWhile (· != '#')))), fragment := some fragment }
  http {more : Text} {url : Url} : parseUrl ("http://".toList ++ more) = some url → url.scheme = "http".toList

/-! ## What is carried through -/

structure Url.Carried (url : Url) : Prop where
  http : Url.IsHttp url
  username : url.username = []
  password : url.password = none
  fragment : url.fragment = none
  query : ∀ query ∈ url.query, ∃ pairs, pairs ≠ [] ∧ PlainQuery pairs ∧ query = encodeQuery (queryText pairs)

structure HeaderMap.Carried (headers : HeaderMap) : Prop where
  visible : ∀ header ∈ headers, header.2.Visible
  single : ∀ name, (headers.getAll name).length ≤ 1

structure WorkerRequest.Carried (request : WorkerRequest) : Prop where
  url : Url.Carried request.url
  headers : HeaderMap.Carried request.headers
  body : ∀ bytes ∈ request.body, ∃ text, toUtf8 text = bytes

/-! ## URLs -/

section

variable {parseUrl : Text → Option Url} {read : Bytes → Text}

theorem sortedPairs_encodeQuery (hread : Utf8 read) {pairs : List (Text × Text)} (h : PlainQuery pairs) :
    sortedPairs read (encodeQuery (queryText pairs)) = pairs := by
  rw [sortedPairs, parse_encodeQuery]
  exact sortedPairs_queryText hread h

variable {url : Url}

theorem display_ofUrl (hhttp : Url.IsHttp url) (hhost : url.host.isSome) :
    (Uri.ofUrl read url).display = Url.base url ++
      if (queryText (sortedPairs read (url.query.getD []))).isEmpty then []
      else '?' :: queryText (sortedPairs read (url.query.getD [])) := by
  obtain ⟨host, hhost⟩ := Option.isSome_iff_exists.mp hhost
  have hscheme : (Uri.ofUrl read url).scheme.text = url.scheme := by
    rcases hhttp with h | h
    · simp only [Uri.ofUrl, h, if_neg (show "http".toList ≠ "https".toList by decide)]
      rfl
    · simp only [Uri.ofUrl, h, if_true]
      rfl
  rw [Uri.display, hscheme]
  simp only [Uri.ofUrl, hhost, Option.getD_some, Url.base]
  rfl

theorem Url.Carried.eq_bare (h : Url.Carried url) : { Url.bare url with query := url.query } = url := by
  obtain ⟨_, husername, hpassword, hfragment, _⟩ := h
  cases url
  simp_all only [Url.bare]

theorem display_of_not_http {url : Url} (h : ¬ Url.IsHttp url) :
    ∃ more, (Uri.ofUrl read url).display = "http://".toList ++ more := by
  have hscheme : (Uri.ofUrl read url).scheme = .http := if_neg fun hs => h (.inr hs)
  rw [Uri.display, hscheme]
  simp only [List.append_assoc]
  exact ⟨_, (List.append_assoc "http".toList "://".toList _).symm⟩

theorem url_iff (hparse : UrlParser parseUrl) (hread : LossyUtf8 read) (hurl : ∃ text, parseUrl text = some url) :
    parseUrl (Uri.ofUrl read url).display = some url ↔ Url.Carried url := by
  obtain ⟨original, hurl⟩ := hurl
  by_cases hhttp : Url.IsHttp url
  · rw [display_ofUrl hhttp (hparse.host hurl hhttp)]
    generalize htext : queryText (sortedPairs read (url.query.getD [])) = text
    have hcarried (h : Url.Carried url) : url.query = none ∧ text = [] ∨ text ≠ [] ∧ '#' ∉ text ∧ tidy text = text ∧
        url.query = some (encodeQuery text) := by
      cases hquery : url.query with
      | none => exact .inl ⟨rfl, by rw [← htext, hquery]; rfl⟩
      | some query =>
        obtain ⟨pairs, hne, hplain, rfl⟩ := h.query query (hquery ▸ rfl)
        rw [hquery, Option.getD_some, sortedPairs_encodeQuery hread.toUtf8 hplain] at htext
        subst htext
        refine .inr ⟨?_, hplain.hash, tidy_queryText hplain, rfl⟩
        intro hnil
        obtain ⟨pair, rest, rfl⟩ := List.exists_cons_of_ne_nil hne
        have hback := sortedPairs_queryText hread.toUtf8 hplain
        rw [hnil] at hback
        cases hback
    cases htextnil : text.isEmpty with
    | true =>
      rw [List.isEmpty_iff] at htextnil
      rw [if_pos rfl, List.append_nil, hparse.plain hurl hhttp, Option.some_inj]
      constructor
      · intro h
        refine ⟨hhttp, ?_, ?_, ?_, ?_⟩ <;> rw [← h]
        · rfl
        · rfl
        · rfl
        · exact fun _ hquery => by cases hquery
      · intro h
        rcases hcarried h with ⟨hquery, _⟩ | ⟨hne, _⟩
        · exact (congrArg (fun query => { Url.bare url with query }) hquery.symm).trans h.eq_bare
        · exact absurd htextnil hne
    | false =>
      have hne : text ≠ [] := by
        rintro rfl
        cases htextnil
      rw [if_neg Bool.false_ne_true]
      by_cases hhash : '#' ∈ text
      · obtain ⟨fragment, hresult⟩ := hparse.fragment hurl hhttp hhash
        rw [hresult, Option.some_inj]
        refine iff_of_false (fun h => ?_) fun h => ?_
        · have hquery : url.query = some (encodeQuery (visible (text.takeWhile (· != '#')))) := by rw [← h]
          rw [hquery, Option.getD_some] at htext
          exact not_fragment hread (htext ▸ hhash) (by rw [htext])
        · rcases hcarried h with ⟨_, hnil⟩ | ⟨_, hnot, _⟩
          · exact hne hnil
          · exact hnot hhash
      · rw [hparse.query hurl hhttp hhash, Option.some_inj]
        constructor
        · intro h
          have hquery : url.query = some (encodeQuery (tidy text)) := by rw [← h]
          refine ⟨hhttp, by rw [← h]; rfl, by rw [← h]; rfl, by rw [← h]; rfl, fun query hmem => ?_⟩
          rw [hquery] at hmem
          cases hmem
          rw [hquery, Option.getD_some] at htext
          obtain ⟨hplain, htidy⟩ := plainQuery_of_fixpoint hread (htext ▸ hhash) (by rw [htext])
          refine ⟨_, ?_, hplain, by rw [← htidy, htext]⟩
          intro hnil
          rw [hnil] at htext
          exact hne htext.symm
        · intro h
          rcases hcarried h with ⟨_, hnil⟩ | ⟨_, _, htidy, hquery⟩
          · exact absurd hnil hne
          · rw [htidy, ← hquery]
            exact h.eq_bare
  · refine iff_of_false (fun h => ?_) fun h => hhttp h.http
    obtain ⟨more, hmore⟩ := @display_of_not_http read url hhttp
    rw [hmore] at h
    exact hhttp (.inl (hparse.http h))

end

/-! ## JS values -/

theorem toText_pairs (pairs : List (Text × Text)) : (pairs.map fun (name, value) => (name, Js.string value)).mapM
    (fun (name, js) => return (name, ← js.toText)) = (Except.ok pairs : Except JsError _) := by
  induction pairs with
  | nil => rfl
  | cons pair rest ih =>
    rw [List.map_cons, List.mapM_cons, ih]
    rfl

theorem toMap_ofMap (map : SortedMap Text Text) : (Js.ofMap map).toMap = .ok map := by
  rw [Js.ofMap, Js.toMap, toText_pairs]
  exact congrArg Except.ok (ofPairs_entries map)

theorem toU16_ofU16 (value : UInt16) : (Js.ofU16 value).toU16 = .ok value := by
  have hlt : value.toNat < 65536 := UInt16.toNat_lt value
  rw [Js.ofU16, Js.toU16, if_pos hlt, UInt16.ofNat_toNat]

theorem toOption_ofOption {A : Type} {encode : A → Js} {decode : Js → Except JsError A}
    (h : ∀ value, decode (encode value) = .ok value) (hne : ∀ value, encode value ≠ .undefined) (value : Option A) :
    (Js.ofOption encode value).toOption decode = .ok value := by
  cases value with
  | none => rfl
  | some value =>
    rw [Js.ofOption, Js.toOption, h value]
    · rfl
    · exact hne value

theorem toOption_string (text : Option Text) : (Js.ofOption .string text).toOption Js.toText = .ok text :=
  @toOption_ofOption Text Js.string Js.toText (fun _ => rfl) (fun _ => Js.noConfusion) text

theorem scheme_fromJs_intoJs (scheme : Scheme) : Scheme.fromJs scheme.intoJs = .ok scheme := by
  cases scheme with
  | http =>
    rw [Scheme.intoJs, Scheme.fromJs, if_neg (by decide), if_pos (by rfl)]
  | https =>
    rw [Scheme.intoJs, Scheme.fromJs, if_pos (by rfl)]

theorem uri_fromJs_intoJs (uri : Uri) : Uri.fromJs uri.intoJs = .ok uri := by
  show (do
    let path ← (Js.string uri.path).toText
    let query ← (Js.ofMap uri.query).toMap
    let scheme ← Scheme.fromJs uri.scheme.intoJs
    let host ← (Js.ofOption .string uri.host).toOption Js.toText
    let port ← (Js.ofOption .ofU16 uri.port).toOption Js.toU16
    return ({ path, query, scheme, host, port } : Uri)) = Except.ok uri
  rw [toMap_ofMap, scheme_fromJs_intoJs, toOption_string, toOption_ofOption toU16_ofU16 fun _ => Js.noConfusion]
  rfl

/-! ## Headers -/

theorem fromStr_name (name : HeaderName) : HeaderName.fromStr name.name = some name := by
  have hlower : name.name.map Char.toLower = name.name := by
    conv_rhs => rw [← List.map_id name.name]
    exact List.map_congr_left fun c hc => (name.token.2 c hc).2
  unfold HeaderName.fromStr
  simp only [hlower]
  exact dif_pos name.token

theorem fromBytes_name (method : Method) : Method.fromBytes method.name = some method :=
  dif_pos method.token

theorem fromU16_code (status : StatusCode) : StatusCode.fromU16 status.code = some status :=
  dif_pos status.valid

variable {value : HeaderValue}

theorem toUtf8_text (h : value.Visible) : toUtf8 value.text = value.bytes := by
  have hall : ∀ byte ∈ value.bytes, String.utf8EncodeChar (byteChar byte) = [byte] := by
    intro byte hbyte
    have hvisible := h byte hbyte
    simp only [isVisibleByte, Bool.or_eq_true, beq_iff_eq, Bool.and_eq_true, decide_eq_true_eq] at hvisible
    refine (utf8_byteChar (decide_eq_true ?_)).2
    rcases hvisible with rfl | ⟨_, hlt⟩
    · decide
    · omega
  rw [HeaderValue.text, toUtf8, List.flatMap_map, List.flatMap_congr hall, List.flatMap_singleton']

theorem fromStr_text (h : value.Visible) : HeaderValue.fromStr value.text = some value := by
  have hbytes := toUtf8_text h
  unfold HeaderValue.fromStr
  simp only [hbytes]
  exact dif_pos value.valid

theorem map_fromStr {values : List HeaderValue} (h : ∀ value ∈ values, value.Visible) :
    (values.map HeaderValue.text).map HeaderValue.fromStr = values.map some := by
  rw [List.map_map]
  exact List.map_congr_left fun value hvalue => fromStr_text (h value hvalue)

variable {headers : HeaderMap}

theorem mem_getAll {name : HeaderName} : value ∈ headers.getAll name ↔ (name, value) ∈ headers := by
  constructor
  · intro h
    obtain ⟨header, hheader, rfl⟩ := List.mem_map.mp h
    obtain ⟨hheader, hname⟩ := List.mem_filter.mp hheader
    rwa [← of_decide_eq_true hname]
  · intro h
    exact List.mem_map.mpr ⟨(name, value), List.mem_filter.mpr ⟨h, decide_eq_true rfl⟩, rfl⟩

def texts (header : HeaderName × HeaderValue) : Text × Text :=
  (header.1.name, header.2.text)

theorem valuesOf_texts (name : HeaderName) (headers : HeaderMap) :
    valuesOf name.name (headers.map texts) = (headers.getAll name).map HeaderValue.text := by
  have hname (header : HeaderName × HeaderValue) : (texts header).1 = name.name ↔ header.1 = name := by
    constructor
    · intro h
      rcases header with ⟨⟨_, _⟩, _⟩
      rcases name with ⟨_, _⟩
      cases h
      rfl
    · rintro rfl
      rfl
  induction headers with
  | nil => rfl
  | cons header rest ih =>
    rw [valuesOf] at ih ⊢
    rw [HeaderMap.getAll] at ih ⊢
    by_cases h : header.1 = name
    · rw [List.map_cons, List.filter_cons_of_pos (by simpa using (hname header).mpr h),
        List.filter_cons_of_pos (by simpa using h), List.map_cons, List.map_cons, List.map_cons, ih]
      rfl
    · rw [List.map_cons, List.filter_cons_of_neg (by simpa using mt (hname header).mp h),
        List.filter_cons_of_neg (by simpa using h), ih]

theorem insertHeaders_texts {E : Type} (nameError valueError : E)
    (hvisible : ∀ header ∈ headers, header.2.Visible) {map : SortedMap Text Text}
    (h : map.entries = headers.map texts) : insertHeaders nameError valueError map = .ok headers := by
  have hdistinct : (headers.map fun header => header.1).Nodup := by
    have hkeys : (headers.map fun header => header.1.name).Nodup := by
      have hsorted := map.sorted
      rw [h, List.pairwise_map] at hsorted
      rw [List.Nodup, List.pairwise_map]
      exact hsorted.imp fun hlt => hlt.ne
    exact List.Nodup.of_map HeaderName.name (by rwa [List.map_map])
  rw [insertHeaders, h]
  clear h
  induction headers using List.reverseRecOn with
  | nil => rfl
  | append_singleton headers header ih =>
    have hfront := ih (fun other hother => hvisible other (List.mem_append_left _ hother))
      (by rw [List.map_append] at hdistinct; exact hdistinct.of_append_left)
    have hlast := hvisible header (List.mem_append_right _ (List.mem_singleton_self _))
    rw [List.map_append, List.foldlM_append, hfront]
    simp only [List.map_cons, List.map_nil, List.foldlM_cons, List.foldlM_nil, texts, fromStr_name, fromStr_text hlast,
      orError]
    have hnew : headers.filter (fun other => other.1 ≠ header.1) = headers := by
      rw [List.filter_eq_self]
      intro other hother
      rw [List.map_append, List.nodup_append] at hdistinct
      have hne := hdistinct.2.2 other.1 (List.mem_map_of_mem hother) header.1 (List.mem_singleton_self _)
      simpa using hne
    exact congrArg (fun front => Except.ok (front ++ [header])) hnew

theorem insertHeaders_ofPairs {E : Type} (nameError valueError : E)
    (hvisible : ∀ header ∈ headers, header.2.Visible) : ∃ headers' : HeaderMap,
      insertHeaders nameError valueError (.ofPairs (headers.map texts)) = .ok headers' ∧
        (∀ header ∈ headers', header ∈ headers) ∧
        ∀ name, headers'.getAll name = (headers.getAll name).getLast?.toList := by
  have hpreimage (entries : List (Text × Text)) (h : ∀ entry ∈ entries, entry ∈ headers.map texts) :
      ∃ headers' : HeaderMap, entries = headers'.map texts ∧ ∀ header ∈ headers', header ∈ headers := by
    induction entries with
    | nil => exact ⟨[], rfl, fun _ hmem => absurd hmem List.not_mem_nil⟩
    | cons entry rest ih =>
      obtain ⟨headers', rfl, hsub⟩ := ih fun other hother => h other (List.mem_cons_of_mem _ hother)
      obtain ⟨header, hheader, rfl⟩ := List.mem_map.mp (h entry List.mem_cons_self)
      refine ⟨header :: headers', rfl, fun other hother => ?_⟩
      rcases List.mem_cons.mp hother with rfl | hother
      · exact hheader
      · exact hsub other hother
  obtain ⟨headers', hentries, hsub⟩ :=
    hpreimage (ofPairs (headers.map texts)).entries fun _ hentry => (ofPairs_subperm _).subset hentry
  refine ⟨headers', insertHeaders_texts nameError valueError (fun header hmem => hvisible header (hsub header hmem)) hentries,
    hsub, fun name => ?_⟩
  have hvalues := valuesOf_ofPairs name.name (headers.map texts)
  rw [hentries, valuesOf_texts, valuesOf_texts, List.getLast?_map, Option.toList_map] at hvalues
  have hback := congrArg (List.map HeaderValue.fromStr) hvalues
  rw [map_fromStr fun value hvalue => hvisible _ (hsub _ (mem_getAll.mp hvalue)),
    map_fromStr fun value hvalue => hvisible _ (mem_getAll.mp (List.mem_of_getLast? (Option.mem_toList.mp hvalue)))] at hback
  exact List.map_injective_iff.mpr (Option.some_injective _) hback

def visibleHeaders (headers : HeaderMap) : HeaderMap :=
  headers.filter fun header => decide (HeaderValue.Visible header.2)

theorem visibleHeaders_visible (headers : HeaderMap) : ∀ header ∈ visibleHeaders headers, header.2.Visible :=
  fun _ hmem => of_decide_eq_true (List.mem_filter.mp hmem).2

theorem carried_iff {headers' : HeaderMap} (hsub : ∀ header ∈ headers', header ∈ visibleHeaders headers)
    (hlast : ∀ name, headers'.getAll name = ((visibleHeaders headers).getAll name).getLast?.toList) :
    (∀ name, headers.getAll name = headers'.getAll name) ↔ HeaderMap.Carried headers := by
  constructor
  · intro h
    refine ⟨fun header hmem => ?_, fun name => ?_⟩
    · have hback : (header.1, header.2) ∈ headers' := by
        rw [← mem_getAll, ← h]
        exact mem_getAll.mpr hmem
      exact visibleHeaders_visible headers _ (hsub _ hback)
    · rw [h, hlast]
      cases ((visibleHeaders headers).getAll name).getLast? with
      | none => exact Nat.zero_le _
      | some _ => exact Nat.le_refl _
  · intro h name
    have hall : visibleHeaders headers = headers :=
      List.filter_eq_self.mpr fun header hmem => decide_eq_true (h.visible header hmem)
    rw [hlast, hall]
    have hsingle := h.single name
    cases hvalues : headers.getAll name with
    | nil => rfl
    | cons value rest =>
      rw [hvalues, List.length_cons] at hsingle
      obtain rfl : rest = [] := List.length_eq_zero_iff.mp (by omega)
      rfl

theorem foldlM_texts (h : ∀ header ∈ headers, header.2.Visible) (map : SortedMap Text Text) :
    (headers.foldlM (fun map (name, value) => do
      let text ← orError "Hyper Header To Str Error: failed to convert header to a str" value.toStr
      return map.insert name.name text) map : Except String (SortedMap Text Text)) =
    .ok ((headers.map texts).foldl (fun map (key, value) => map.insert key value) map) := by
  induction headers generalizing map with
  | nil => rfl
  | cons header rest ih =>
    have hstr : header.2.toStr = some header.2.text := if_pos (h header List.mem_cons_self)
    rw [List.foldlM_cons, List.map_cons, List.foldl_cons]
    simp only [hstr, orError]
    exact ih (fun other hother => h other (List.mem_cons_of_mem _ hother)) _

theorem foldlM_texts_error (h : ¬ ∀ header ∈ headers, header.2.Visible)
    (map : SortedMap Text Text) : ∃ error, (headers.foldlM (fun map (name, value) => do
      let text ← orError "Hyper Header To Str Error: failed to convert header to a str" value.toStr
      return map.insert name.name text) map : Except String (SortedMap Text Text)) = .error error := by
  induction headers generalizing map with
  | nil => exact absurd (fun _ hmem => absurd hmem List.not_mem_nil) h
  | cons header rest ih =>
    rw [List.foldlM_cons]
    by_cases hvisible : header.2.Visible
    · have hstr : header.2.toStr = some header.2.text := if_pos hvisible
      simp only [hstr, orError]
      exact ih (fun hrest => h (List.forall_mem_cons.mpr ⟨hvisible, hrest⟩)) _
    · have hstr : header.2.toStr = none := if_neg hvisible
      simp only [hstr, orError]
      exact ⟨_, rfl⟩

theorem foldl_texts (headers : HeaderMap) (map : SortedMap Text Text) :
    headers.foldl (fun map (name, value) => match value.toStr with
      | some text => map.insert name.name text
      | none => map) map =
    ((visibleHeaders headers).map texts).foldl (fun map (key, value) => map.insert key value) map := by
  induction headers generalizing map with
  | nil => rfl
  | cons header rest ih =>
    rw [List.foldl_cons, visibleHeaders, List.filter_cons]
    by_cases hvisible : header.2.Visible
    · have hstr : header.2.toStr = some header.2.text := if_pos hvisible
      simp only [hstr, decide_eq_true hvisible, if_true, List.map_cons, List.foldl_cons]
      exact ih _
    · have hstr : header.2.toStr = none := if_neg hvisible
      simp only [hstr, decide_eq_false hvisible, Bool.false_eq_true, if_false]
      exact ih _

theorem request_jsHeaders {request : WorkerRequest} (h : ∀ header ∈ request.headers, header.2.Visible) :
    request.jsHeaders = .ok (.ofPairs (request.headers.map texts)) :=
  foldlM_texts h .empty

theorem request_jsHeaders_error {request : WorkerRequest} (h : ¬ ∀ header ∈ request.headers, header.2.Visible) :
    ∃ error, request.jsHeaders = .error error :=
  foldlM_texts_error h .empty

theorem response_jsHeaders (response : WorkerResponse) : WorkerResponse.jsHeaders response =
    .ofPairs ((visibleHeaders response.headers).map texts) :=
  foldl_texts response.headers .empty

/-! ## Runs of a hook that passes everything through -/

section

variable {parseUrl : Text → Option Url} {read : Bytes → Text}

theorem call_request {request : WorkerRequest} (h : ∀ header ∈ request.headers, header.2.Visible) :
    ∃ headers' : HeaderMap, (∀ header ∈ headers', header ∈ request.headers) ∧
      (∀ name, headers'.getAll name = (request.headers.getAll name).getLast?.toList) ∧
      (call parseUrl read some (.request request)).toOption =
        (parseUrl (Uri.ofUrl read request.url).display).map fun url =>
          some (.request { request with url, headers := headers', body := (request.body.map read).map toUtf8 }) := by
  obtain ⟨headers', hinsert, hsub, hlast⟩ := insertHeaders_ofPairs
    (JsError.fromJs "string" "HeaderName" (some "invalid HTTP header name"))
    (JsError.fromJs "string" "headers::HeaderValue" (some "failed to parse header value")) h
  refine ⟨headers', hsub, hlast, ?_⟩
  have hargs : (Event.request request).args read = .ok (prepareArgs "request" (.object
      [("uri".toList, (request.uri read).intoJs), ("method".toList, .string request.method.name),
        ("headers".toList, .ofMap (.ofPairs (request.headers.map texts))),
        ("body".toList, .ofOption .string (request.jsBody read))])) := by
    rw [Event.args, WorkerRequest.intoJs, request_jsHeaders h]
    rfl
  have hback : WorkerRequest.fromJs parseUrl (.object
      [("uri".toList, (request.uri read).intoJs), ("method".toList, .string request.method.name),
        ("headers".toList, .ofMap (.ofPairs (request.headers.map texts))),
        ("body".toList, .ofOption .string (request.jsBody read))]) = (do
      let url ← orError (.fromJs "string" "Url" (some "unable to parse URL")) (parseUrl (request.uri read).display)
      return { request with url, headers := headers', body := (request.jsBody read).map toUtf8 }) := by
    show (do
      let uri ← Uri.fromJs (request.uri read).intoJs
      let method ← (Js.string request.method.name).toText
      let headers ← (Js.ofMap (.ofPairs (request.headers.map texts))).toMap
      let body ← (Js.ofOption .string (request.jsBody read)).toOption Js.toText
      let method ← orError (JsError.fromJs "string" "Method" (some "invalid HTTP method")) (Method.fromBytes method)
      let url ← orError (.fromJs "string" "Url" (some "unable to parse URL")) (parseUrl uri.display)
      let headers ← insertHeaders (.fromJs "string" "HeaderName" (some "invalid HTTP header name"))
        (.fromJs "string" "headers::HeaderValue" (some "failed to parse header value")) headers
      return ({ method, url, headers, body := body.map toUtf8 } : WorkerRequest)) = _
    rw [uri_fromJs_intoJs, toMap_ofMap, toOption_string]
    simp only [Js.toText, fromBytes_name, hinsert, orError, bind, Except.bind]
  have hcommand : Command.fromJs parseUrl (prepareArgs "request" (.object
      [("uri".toList, (request.uri read).intoJs), ("method".toList, .string request.method.name),
        ("headers".toList, .ofMap (.ofPairs (request.headers.map texts))),
        ("body".toList, .ofOption .string (request.jsBody read))])) = Command.request <$> (do
      let url ← orError (.fromJs "string" "Url" (some "unable to parse URL")) (parseUrl (request.uri read).display)
      return { request with url, headers := headers', body := (request.jsBody read).map toUtf8 }) := by
    rw [← hback]
    rfl
  rw [call, hargs]
  show ((Option.some <$> (Command.fromJs parseUrl _).mapError WorkerError.deserializeFailed :
    Except WorkerError (Option Command))).toOption = _
  rw [hcommand]
  show _ = (parseUrl (request.uri read).display).map _
  cases parseUrl (request.uri read).display with
  | none => rfl
  | some url => rfl

theorem call_request_error {request : WorkerRequest} (h : ¬ ∀ header ∈ request.headers, header.2.Visible) :
    (call parseUrl read some (.request request)).toOption = none := by
  obtain ⟨error, herror⟩ := request_jsHeaders_error h
  rw [call, Event.args, WorkerRequest.intoJs, herror]
  rfl

theorem call_response (response : WorkerResponse) : ∃ headers' : HeaderMap,
    (∀ header ∈ headers', header ∈ visibleHeaders response.headers) ∧
      (∀ name, headers'.getAll name = ((visibleHeaders response.headers).getAll name).getLast?.toList) ∧
      (call parseUrl read some (.response response)).toOption =
        some (some (.response { response with headers := headers', body := read (toUtf8 response.body) })) := by
  obtain ⟨headers', hinsert, hsub, hlast⟩ :=
    insertHeaders_ofPairs "invalid HTTP header name" "failed to parse header value"
      (visibleHeaders_visible response.headers)
  refine ⟨headers', hsub, hlast, ?_⟩
  have hback : WorkerResponse.fromJs (WorkerResponse.intoJs read response) =
      .ok { response with headers := headers', body := read (toUtf8 response.body) } := by
    show (do
      let status ← (Js.ofU16 response.status.code).toU16
      let headers ← (Js.ofMap (WorkerResponse.jsHeaders response)).toMap
      let body ← (Js.ofOption .string (WorkerResponse.jsBody read response)).toOption Js.toText
      let status ← orError (JsError.fromJs "u16" "reqwest::StatusCode" (some "invalid status code"))
        (StatusCode.fromU16 status)
      let headers ← (createHeaderMap headers).mapError fun error =>
        .fromJs "BTreeMap<String, String>" "headers::HeaderMap" (some error)
      return ({ status, headers, body := body.getD [] } : WorkerResponse)) = _
    rw [toU16_ofU16, response_jsHeaders, toMap_ofMap, toOption_string]
    simp only [fromU16_code, createHeaderMap, hinsert, orError, bind, Except.bind, Except.mapError]
    rfl
  have hcommand : Command.fromJs parseUrl (prepareArgs "response" (WorkerResponse.intoJs read response)) =
      .ok (.response { response with headers := headers', body := read (toUtf8 response.body) }) := by
    show Command.response <$> WorkerResponse.fromJs (WorkerResponse.intoJs read response) = _
    rw [hback]
    rfl
  rw [call, Event.args]
  show ((Option.some <$> (Command.fromJs parseUrl _).mapError WorkerError.deserializeFailed :
    Except WorkerError (Option Command))).toOption = _
  rw [hcommand]
  rfl

variable (parseUrl read) in
def RequestSurvives (request : WorkerRequest) : Prop :=
  ∃ request', call parseUrl read some (.request request) = .ok (some (.request request')) ∧
    WorkerRequest.Same request request'

variable (parseUrl read) in
def ResponseSurvives (response : WorkerResponse) : Prop :=
  ∃ response', call parseUrl read some (.response response) = .ok (some (.response response')) ∧
    Response.Same response response'

variable (parseUrl read) in
def BytesSurvive (response : Response Bytes) : Prop :=
  ∃ response', call parseUrl read some (.response (WorkerResponse.ofBytes read response)) =
    .ok (some (.response response')) ∧ Response.Same response (WorkerResponse.toBytes response')

theorem eq_ok_iff {E A : Type} {result : Except E A} {value : A} : result = .ok value ↔ result.toOption = some value := by
  cases result with
  | error _ => exact iff_of_false nofun nofun
  | ok value' => simp [Except.toOption]

theorem toUtf8_read_iff (hread : Utf8 read) (bytes : Bytes) : toUtf8 (read bytes) = bytes ↔ ∃ text, toUtf8 text = bytes := by
  constructor
  · exact fun h => ⟨_, h⟩
  · rintro ⟨text, rfl⟩
    rw [fromUtf8_toUtf8 hread]

theorem requestSurvives_iff (hparse : UrlParser parseUrl) (hread : LossyUtf8 read) {request : WorkerRequest}
    (hurl : ∃ text, parseUrl text = some request.url) :
    RequestSurvives parseUrl read request ↔ WorkerRequest.Carried request := by
  simp only [RequestSurvives, eq_ok_iff]
  by_cases hvisible : ∀ header ∈ request.headers, header.2.Visible
  · obtain ⟨headers', hsub, hlast, hcall⟩ := @call_request parseUrl read request hvisible
    have hall : visibleHeaders request.headers = request.headers :=
      List.filter_eq_self.mpr fun header hmem => decide_eq_true (hvisible header hmem)
    have hheaders := carried_iff (hall.symm ▸ hsub) (fun name => hall.symm ▸ hlast name)
    have hbody : request.body = (request.body.map read).map toUtf8 ↔
        ∀ bytes ∈ request.body, ∃ text, toUtf8 text = bytes := by
      cases request.body with
      | none => exact iff_of_true rfl nofun
      | some bytes =>
        constructor
        · intro h other hother
          cases hother
          exact (toUtf8_read_iff hread.toUtf8 bytes).mp (Option.some.inj h).symm
        · intro h
          exact congrArg some ((toUtf8_read_iff hread.toUtf8 bytes).mpr (h bytes rfl)).symm
    rw [hcall]
    constructor
    · rintro ⟨request', hresult, hsame⟩
      obtain ⟨url, hparsed, hrequest⟩ := Option.map_eq_some_iff.mp hresult
      cases hrequest
      refine ⟨(url_iff hparse hread hurl).mp ?_, hheaders.mp hsame.headers, hbody.mp hsame.body⟩
      rw [hparsed, hsame.url]
    · intro h
      rw [(url_iff hparse hread hurl).mpr h.url]
      exact ⟨_, rfl, rfl, rfl, hheaders.mpr h.headers, hbody.mpr h.body⟩
  · refine iff_of_false ?_ fun h => hvisible h.headers.visible
    rintro ⟨request', hresult, _⟩
    rw [call_request_error hvisible] at hresult
    cases hresult

theorem responseSurvives_iff (hread : Utf8 read) (response : WorkerResponse) :
    ResponseSurvives parseUrl read response ↔ HeaderMap.Carried response.headers := by
  obtain ⟨headers', hsub, hlast, hcall⟩ := @call_response parseUrl read response
  simp only [ResponseSurvives, eq_ok_iff]
  rw [hcall, fromUtf8_toUtf8 hread, ← carried_iff hsub hlast]
  constructor
  · rintro ⟨response', hresult, hsame⟩
    cases hresult
    exact hsame.headers
  · intro h
    exact ⟨_, rfl, rfl, h, rfl⟩

theorem bytesSurvive_iff (hread : Utf8 read) (response : Response Bytes) : BytesSurvive parseUrl read response ↔
    HeaderMap.Carried response.headers ∧ ∃ text, toUtf8 text = response.body := by
  obtain ⟨headers', hsub, hlast, hcall⟩ := @call_response parseUrl read (WorkerResponse.ofBytes read response)
  simp only [BytesSurvive, eq_ok_iff]
  rw [hcall, fromUtf8_toUtf8 hread, ← toUtf8_read_iff hread]
  have hheaders := carried_iff hsub hlast
  constructor
  · rintro ⟨response', hresult, hsame⟩
    cases hresult
    exact ⟨hheaders.mp hsame.headers, hsame.body.symm⟩
  · rintro ⟨hcarried, hbody⟩
    exact ⟨_, rfl, rfl, hheaders.mpr hcarried, hbody.symm⟩

/-- What a hook that passes everything through leaves as it was. -/
theorem survive_iff (hparse : UrlParser parseUrl) (hread : LossyUtf8 read) :
    (∀ request : WorkerRequest, (∃ text, parseUrl text = some request.url) →
      (RequestSurvives parseUrl read request ↔ WorkerRequest.Carried request)) ∧
    (∀ response, ResponseSurvives parseUrl read response ↔ HeaderMap.Carried response.headers) ∧
    ∀ response, BytesSurvive parseUrl read response ↔
      HeaderMap.Carried response.headers ∧ ∃ text, toUtf8 text = response.body :=
  ⟨fun _ hurl => requestSurvives_iff hparse hread hurl, responseSurvives_iff hread.toUtf8, bytesSurvive_iff hread.toUtf8⟩

end

/-! ## A host of its own -/

def localUrl : Url where
  scheme := "http".toList
  username := []
  password := none
  host := some "h".toList
  port := none
  path := "/p".toList
  query := none
  fragment := none

def localParse (text : Text) : Option Url :=
  if text = "http://h/p".toList then some localUrl
  else if "http://h/p?".toList <+: text then
    let more := text.drop 11
    if '#' ∈ more then some { localUrl with
      query := some (encodeQuery (visible (more.takeWhile (· != '#')))), fragment := some (more.dropWhile (· != '#')) }
    else some { localUrl with query := some (encodeQuery (tidy more)) }
  else none

theorem localParse_bare {text : Text} {url : Url} (h : localParse text = some url) : Url.bare url = localUrl := by
  unfold localParse at h
  split at h
  · cases h; rfl
  · split at h
    · simp only at h
      split at h
      · cases h; rfl
      · cases h; rfl
    · cases h

theorem localParse_base {text : Text} {url : Url} (h : localParse text = some url) : Url.base url = Url.base localUrl := by
  rw [← localParse_bare h]
  rfl

theorem localParse_more (more : Text) : localParse (Url.base localUrl ++ '?' :: more) =
    if '#' ∈ more then some { localUrl with
      query := some (encodeQuery (visible (more.takeWhile (· != '#')))), fragment := some (more.dropWhile (· != '#')) }
    else some { localUrl with query := some (encodeQuery (tidy more)) } := by
  have htext : Url.base localUrl ++ '?' :: more = "http://h/p?".toList ++ more := by
    rw [← List.singleton_append, ← List.append_assoc]
    exact congrArg (· ++ more) (by decide)
  have hne : "http://h/p?".toList ++ more ≠ "http://h/p".toList := by
    intro h
    have hlength := congrArg List.length h
    rw [List.length_append, show "http://h/p?".toList.length = 11 by decide,
      show "http://h/p".toList.length = 10 by decide] at hlength
    omega
  rw [htext, localParse, if_neg hne, if_pos (List.prefix_append _ _)]
  rfl

theorem localParser : UrlParser localParse where
  host h _ := congrArg (fun url => url.host.isSome) (localParse_bare h)
  plain {_ url} h _ := by
    rw [localParse_base h, localParse_bare h]
    exact if_pos (by decide)
  query {_ url more} h _ hhash := by
    rw [localParse_base h, localParse_bare h, localParse_more, if_neg hhash]
  fragment {_ url more} h _ hhash := by
    rw [localParse_base h, localParse_bare h, localParse_more, if_pos hhash]
    exact ⟨_, rfl⟩
  http h := congrArg WorkerValues.Url.scheme (localParse_bare h)

def localRequest (query : String) : WorkerRequest where
  method := { name := "POST".toList, token := by decide }
  url := { localUrl with query := some query.toList }
  headers := [({ name := "x".toList, token := by decide }, { bytes := [121], valid := by decide })]
  body := some [104, 105]

theorem survive_local : RequestSurvives localParse readUtf8 (localRequest "a=1&b=2") := by
  have hpairs : PlainQuery [("a".toList, "1".toList), ("b".toList, "2".toList)] := by
    refine ⟨by decide, fun pair hpair => ?_, by decide, ?_⟩
    · rcases List.mem_cons.mp hpair with rfl | hpair
      · exact ⟨⟨by decide, by decide⟩, by decide, by decide, by decide⟩
      · rcases List.mem_singleton.mp hpair with rfl
        exact ⟨⟨by decide, by decide⟩, by decide, by decide, by decide⟩
    · rintro c ⟨⟩
      rfl
  refine ((survive_iff localParser readUtf8_lossy).1 (localRequest "a=1&b=2")
    ⟨"http://h/p?a=1&b=2".toList, by decide⟩).mpr ⟨⟨.inl rfl, rfl, rfl, rfl, fun query hquery => ?_⟩, ⟨?_, ?_⟩, ?_⟩
  · cases hquery
    exact ⟨_, by decide, hpairs, by decide⟩
  · intro header hheader
    rcases List.mem_singleton.mp hheader with rfl
    decide
  · intro name
    rw [HeaderMap.getAll, List.length_map]
    exact List.length_filter_le _ _
  · intro bytes hbytes
    cases hbytes
    exact ⟨"hi".toList, by decide⟩

theorem repeated_key_lost : ¬ RequestSurvives localParse readUtf8 (localRequest "a=1&a=2") := by
  rw [requestSurvives_iff localParser readUtf8_lossy ⟨"http://h/p?a=1&a=2".toList, by decide⟩]
  intro h
  obtain ⟨pairs, _, hplain, hquery⟩ := h.url.query _ rfl
  have hrepeated : ∀ pair ∈ [("a".toList, "1".toList), ("a".toList, "2".toList)], PlainEntry (entryOf pair) := by
    intro pair hpair
    rcases List.mem_cons.mp hpair with rfl | hpair
    · exact ⟨⟨by decide, by decide⟩, by decide, by decide, by decide⟩
    · rcases List.mem_singleton.mp hpair with rfl
      exact ⟨⟨by decide, by decide⟩, by decide, by decide, by decide⟩
  have hback := sortedPairs_encodeQuery readUtf8_utf8 hplain
  have htext : "a=1&a=2".toList = queryText [("a".toList, "1".toList), ("a".toList, "2".toList)] := by decide
  rw [← hquery, htext, sortedPairs, parse_queryText readUtf8_utf8 hrepeated] at hback
  rw [← hback] at hquery
  exact absurd hquery (by decide)

end Gqlforge.WorkerRoundTrip
