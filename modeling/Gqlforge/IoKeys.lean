import Gqlforge.RequestTemplates

namespace Gqlforge.IoKeys

open Json Resolvers Templates RequestTemplates

section

variable (wire : Wire)

def toRequest (ctx : RenderContext) : Io → Option Request
  | .http reqTemplate _ => (Http.RequestTemplate.toRequest wire reqTemplate ctx).map (·.request)
  | .graphQL reqTemplate _ _ => GraphQL.RequestTemplate.toRequest wire reqTemplate ctx
  | .grpc reqTemplate _ => do
    let rendered ← Grpc.RequestTemplate.render wire reqTemplate ctx
    rendered.toRequest wire
  | _ => none

def cacheKey (ctx : RenderContext) : Io → Option (List HashItem)
  | .http reqTemplate _ => Http.RequestTemplate.cacheKey wire reqTemplate ctx
  | .graphQL reqTemplate _ _ => GraphQL.RequestTemplate.cacheKey reqTemplate ctx
  | .grpc reqTemplate _ => Grpc.RequestTemplate.cacheKey wire reqTemplate ctx
  | _ => none

/-- What a key leaves out is the same: the encoding of an HTTP request where it shows, the URL and the
headers of a GraphQL request, the message and the headers of a gRPC request. -/
def AgreeBeyondKey (ctx ctx' : RenderContext) : Io → Io → Prop
  | .http reqTemplate _, .http reqTemplate' _ =>
    reqTemplate.encoding = reqTemplate'.encoding ∨
      reqTemplate.method = .get ∧ ∀ body ∈ reqTemplate.bodyPath,
        Http.RequestTemplate.formData wire (body.render ctx.toPathContext) = some (body.render ctx.toPathContext)
  | .graphQL reqTemplate _ _, .graphQL reqTemplate' _ _ =>
    wire.parseUrl reqTemplate.url = wire.parseUrl reqTemplate'.url ∧
      ((wire.parseUrl reqTemplate.url).isSome = true →
        GraphQL.RequestTemplate.requestHeaders reqTemplate ctx =
          GraphQL.RequestTemplate.requestHeaders reqTemplate' ctx')
  | .grpc reqTemplate _, .grpc reqTemplate' _ =>
    let message := wire.convertInput reqTemplate.operation (Grpc.RequestTemplate.renderBody reqTemplate ctx)
    message = wire.convertInput reqTemplate'.operation (Grpc.RequestTemplate.renderBody reqTemplate' ctx') ∧
      (message.isSome = true →
        Grpc.RequestTemplate.requestHeaders reqTemplate ctx = Grpc.RequestTemplate.requestHeaders reqTemplate' ctx')
  | _, _ => False

end

theorem createHeaders_rendered (render : Mustache → String) (headers : MustacheHeaders) : createHeaders render headers =
    (headers.map fun (name, value) => (name, render value)).foldl (fun map (name, text) =>
      match headerValue text with
      | some value => Object.insertKey map name value
      | none => map) [] := by
  rw [List.foldl_map]
  rfl

theorem createHeaders_eq (render render' : Mustache → String) (headers headers' : MustacheHeaders)
    (h : headers.map (fun (name, value) => (name, render value)) =
      headers'.map (fun (name, value) => (name, render' value))) :
    createHeaders render headers = createHeaders render' headers' := by
  rw [createHeaders_rendered, createHeaders_rendered, h]

theorem expressionValue_fold (ctx : PathContext) (segments : List Segment) (text : String) (first : Option String) :
    (segments.foldl (fun (result, first) => fun
      | .literal text => (result ++ text, first)
      | .expression parts => match ctx.pathString parts with
        | some value => (result ++ value, first <|> some value)
        | none => (result, first)) (text, first)).1 =
      (segments.map fun
        | .literal text => text
        | .expression parts => (ctx.pathString parts).getD "").foldl (· ++ ·) text := by
  induction segments generalizing text first with
  | nil => rfl
  | cons segment rest ih =>
    rw [List.foldl_cons, List.map_cons, List.foldl_cons]
    cases segment with
    | literal literal => exact ih _ _
    | expression parts =>
      cases hp : ctx.pathString parts with
      | some value => simpa [hp] using ih _ _
      | none => simpa [hp] using ih _ _

theorem expressionValueEval_fst (template : Mustache) (ctx : PathContext) :
    (Http.RequestTemplate.expressionValueEval template ctx).1 = template.render ctx :=
  expressionValue_fold ctx template.segments "" none

theorem httpMaterial_inj (headers headers' passed passed' : List (String × String)) (body body' : Option String)
    (url url' : String)
    (h : (headers.flatMap fun (name, text) => [HashItem.name name, .text text]) ++
        (passed.flatMap fun (name, value) => [HashItem.name name, .value value]) ++
        (body.map HashItem.text).toList ++ [.text url] =
      (headers'.flatMap fun (name, text) => [HashItem.name name, .text text]) ++
        (passed'.flatMap fun (name, value) => [HashItem.name name, .value value]) ++
        (body'.map HashItem.text).toList ++ [.text url']) :
    headers = headers' ∧ passed = passed' ∧ body = body' ∧ url = url' := by
  induction headers generalizing headers' with
  | cons header rest ih =>
    cases headers' with
    | cons header' rest' =>
      simp only [List.flatMap_cons, List.cons_append, List.nil_append, List.cons.injEq, HashItem.name.injEq,
        HashItem.text.injEq] at h
      obtain ⟨hname, htext, h⟩ := h
      obtain ⟨hrest, hothers⟩ := ih rest' h
      exact ⟨by rw [hrest, Prod.ext hname htext], hothers⟩
    | nil => cases passed' <;> cases body' <;> simp at h
  | nil =>
    cases headers' with
    | cons header' rest' => cases passed <;> cases body <;> simp at h
    | nil =>
      refine ⟨rfl, ?_⟩
      induction passed generalizing passed' with
      | cons entry rest ih =>
        cases passed' with
        | cons entry' rest' =>
          simp only [List.flatMap_nil, List.nil_append, List.flatMap_cons, List.cons_append, List.cons.injEq,
            HashItem.name.injEq, HashItem.value.injEq] at h ih
          obtain ⟨hname, hvalue, h⟩ := h
          obtain ⟨hrest, hothers⟩ := ih rest' h
          exact ⟨by rw [hrest, Prod.ext hname hvalue], hothers⟩
        | nil => cases body' <;> simp at h
      | nil =>
        cases passed' with
        | cons entry' rest' => cases body <;> simp at h
        | nil => cases body <;> cases body' <;> simp_all

section

variable (wire : Wire)

def encodedBody (encoding : Http.Encoding) : Option String → Option (Option Body)
  | some text => match encoding with
    | .applicationJson => some (some (.text text))
    | .applicationXWwwFormUrlencoded =>
      (Http.RequestTemplate.formData wire text).map fun body => some (.text body)
  | none => some none

def encodedHeaders (method : Http.Method) (encoding : Http.Encoding) (headers : HeaderMap) : HeaderMap :=
  if method = .get then headers
  else Object.insertKey headers "content-type" (Http.RequestTemplate.contentType encoding)

theorem httpRequest_eq (reqTemplate : Http.RequestTemplate) (dedupe : Bool) (ctx : RenderContext) (url : String)
    (hurl : Http.RequestTemplate.createUrl wire reqTemplate ctx = some url) :
    toRequest wire ctx (.http reqTemplate dedupe) =
      (encodedBody wire reqTemplate.encoding (reqTemplate.bodyPath.map (·.render ctx.toPathContext))).map fun body =>
        ⟨reqTemplate.method, url, encodedHeaders reqTemplate.method reqTemplate.encoding
          (HeaderMap.extend (createHeaders (·.render ctx.toPathContext) reqTemplate.headers) ctx.headers), body⟩ := by
  have hbody : (Http.RequestTemplate.createBody wire reqTemplate ctx).map Prod.fst =
      encodedBody wire reqTemplate.encoding (reqTemplate.bodyPath.map (·.render ctx.toPathContext)) := by
    unfold Http.RequestTemplate.createBody encodedBody
    cases reqTemplate.bodyPath with
    | none => rfl
    | some bodyPath =>
      cases reqTemplate.encoding with
      | applicationJson => simp [← expressionValueEval_fst]
      | applicationXWwwFormUrlencoded =>
        simp only [Option.map_map, Option.map_some]
        rfl
  rw [toRequest, Http.RequestTemplate.toRequest, hurl, ← hbody]
  cases Http.RequestTemplate.createBody wire reqTemplate ctx <;> rfl

theorem encodedHeaders_eq_iff (method : Http.Method) (headers : HeaderMap) :
    encodedHeaders method .applicationJson headers = encodedHeaders method .applicationXWwwFormUrlencoded headers ↔
      method = .get := by
  unfold encodedHeaders
  by_cases hm : method = .get
  · simp [hm]
  · rw [if_neg hm, if_neg hm]
    refine ⟨fun h => ?_, fun h => absurd h hm⟩
    have hkey := congrArg (Object.getKey · "content-type") h
    simp only [Object.getKey_insertKey, Option.some.injEq] at hkey
    exact absurd hkey (by decide)

theorem encoded_eq_iff (method : Http.Method) (url : String) (headers : HeaderMap) (body : Option String) :
    ((encodedBody wire .applicationJson body).map fun body =>
        (⟨method, url, encodedHeaders method .applicationJson headers, body⟩ : Request)) =
      ((encodedBody wire .applicationXWwwFormUrlencoded body).map fun body =>
        ⟨method, url, encodedHeaders method .applicationXWwwFormUrlencoded headers, body⟩) ↔
      method = .get ∧ ∀ text ∈ body, Http.RequestTemplate.formData wire text = some text := by
  have hheaders := encodedHeaders_eq_iff method headers
  cases body with
  | none => simp [encodedBody, hheaders]
  | some text =>
    cases hf : Http.RequestTemplate.formData wire text with
    | none => simp [encodedBody, hf]
    | some form =>
      simp only [encodedBody, hf, Option.map_some, Option.some.injEq, Request.mk.injEq, hheaders, Body.text.injEq,
        true_and, Option.mem_def, forall_eq']
      exact and_congr_right fun _ => eq_comm

theorem encoded_agree_iff (method : Http.Method) (url : String) (headers : HeaderMap) (body : Option String)
    (encoding encoding' : Http.Encoding) :
    ((encodedBody wire encoding body).map fun body =>
        (⟨method, url, encodedHeaders method encoding headers, body⟩ : Request)) =
      ((encodedBody wire encoding' body).map fun body =>
        ⟨method, url, encodedHeaders method encoding' headers, body⟩) ↔
      encoding = encoding' ∨
        method = .get ∧ ∀ text ∈ body, Http.RequestTemplate.formData wire text = some text := by
  cases encoding with
  | applicationJson =>
    cases encoding' with
    | applicationJson => simp
    | applicationXWwwFormUrlencoded => simp [encoded_eq_iff]
  | applicationXWwwFormUrlencoded =>
    cases encoding' with
    | applicationJson =>
      rw [eq_comm, encoded_eq_iff]
      simp
    | applicationXWwwFormUrlencoded => simp

theorem http_request_eq_iff (reqTemplate reqTemplate' : Http.RequestTemplate) (dedupe dedupe' : Bool)
    (ctx ctx' : RenderContext) (key : List HashItem) (hkey : cacheKey wire ctx (.http reqTemplate dedupe) = some key)
    (hkey' : cacheKey wire ctx' (.http reqTemplate' dedupe') = some key) :
    toRequest wire ctx (.http reqTemplate dedupe) = toRequest wire ctx' (.http reqTemplate' dedupe') ↔
      AgreeBeyondKey wire ctx ctx' (.http reqTemplate dedupe) (.http reqTemplate' dedupe') := by
  obtain ⟨url, hurl, hmaterial⟩ := Option.bind_eq_some_iff.mp hkey
  obtain ⟨url', hurl', hmaterial'⟩ := Option.bind_eq_some_iff.mp hkey'
  have hsame := List.cons.inj (Option.some.inj (hmaterial.trans hmaterial'.symm))
  have hmethod : reqTemplate.method = reqTemplate'.method := HashItem.method.inj hsame.1
  have hrendered (headers : MustacheHeaders) (render : Mustache → String) :
      (headers.flatMap fun (name, value) => [HashItem.name name, .text (render value)]) =
        (headers.map fun (name, value) => (name, render value)).flatMap fun (name, text) =>
          [.name name, .text text] := by
    rw [List.flatMap_map]
  have hbody (body : Option Mustache) (render : Mustache → String) :
      (body.map fun body => HashItem.text (render body)) = (body.map render).map HashItem.text := by
    rw [Option.map_map]
    rfl
  have hrest := hsame.2
  rw [hrendered _ (·.render ctx.toPathContext), hrendered _ (·.render ctx'.toPathContext),
    hbody _ (·.render ctx.toPathContext), hbody _ (·.render ctx'.toPathContext)] at hrest
  obtain ⟨hheaders, hpassed, hbodies, rfl⟩ := httpMaterial_inj _ _ _ _ _ _ _ _ hrest
  have hcreated := createHeaders_eq (·.render ctx.toPathContext) (·.render ctx'.toPathContext)
    reqTemplate.headers reqTemplate'.headers hheaders
  rw [httpRequest_eq wire reqTemplate dedupe ctx url hurl, httpRequest_eq wire reqTemplate' dedupe' ctx' url hurl',
    ← hmethod, ← hpassed, ← hcreated, ← hbodies, encoded_agree_iff]
  simp only [AgreeBeyondKey, Option.mem_def, Option.map_eq_some_iff, forall_exists_index, and_imp,
    forall_apply_eq_imp_iff₂]

theorem graphql_request_eq_iff (reqTemplate reqTemplate' : GraphQL.RequestTemplate) (fieldName fieldName' : String)
    (dedupe dedupe' : Bool) (ctx ctx' : RenderContext) (key : List HashItem)
    (hkey : cacheKey wire ctx (.graphQL reqTemplate fieldName dedupe) = some key)
    (hkey' : cacheKey wire ctx' (.graphQL reqTemplate' fieldName' dedupe') = some key) :
    toRequest wire ctx (.graphQL reqTemplate fieldName dedupe) =
        toRequest wire ctx' (.graphQL reqTemplate' fieldName' dedupe') ↔
      AgreeBeyondKey wire ctx ctx' (.graphQL reqTemplate fieldName dedupe)
        (.graphQL reqTemplate' fieldName' dedupe') := by
  have hquery : GraphQL.RequestTemplate.renderGraphqlQuery reqTemplate ctx =
      GraphQL.RequestTemplate.renderGraphqlQuery reqTemplate' ctx' := by
    have h := Option.some.inj (hkey.trans hkey'.symm)
    exact HashItem.text.inj (List.cons.inj h).1
  simp only [toRequest, GraphQL.RequestTemplate.toRequest, AgreeBeyondKey, hquery]
  cases hu : wire.parseUrl reqTemplate.url with
  | none => cases hu' : wire.parseUrl reqTemplate'.url <;> simp
  | some url => cases hu' : wire.parseUrl reqTemplate'.url <;> simp

theorem grpc_request_eq_iff (reqTemplate reqTemplate' : Grpc.RequestTemplate) (dedupe dedupe' : Bool)
    (ctx ctx' : RenderContext) (key : List HashItem) (hkey : cacheKey wire ctx (.grpc reqTemplate dedupe) = some key)
    (hkey' : cacheKey wire ctx' (.grpc reqTemplate' dedupe') = some key) :
    toRequest wire ctx (.grpc reqTemplate dedupe) = toRequest wire ctx' (.grpc reqTemplate' dedupe') ↔
      AgreeBeyondKey wire ctx ctx' (.grpc reqTemplate dedupe) (.grpc reqTemplate' dedupe') := by
  obtain ⟨rendered, hr, rfl⟩ := Option.map_eq_some_iff.mp hkey
  obtain ⟨rendered', hr', hsame⟩ := Option.map_eq_some_iff.mp hkey'
  obtain ⟨url, hurl, hu⟩ := Option.bind_eq_some_iff.mp hr
  obtain ⟨url', hurl', hu'⟩ := Option.bind_eq_some_iff.mp hr'
  obtain rfl := Option.some.inj hu
  obtain rfl := Option.some.inj hu'
  obtain ⟨htext, hbody⟩ := List.cons.inj hsame
  have htext : url' = url := HashItem.text.inj htext
  have hbody : Grpc.RequestTemplate.renderBody reqTemplate' ctx' = Grpc.RequestTemplate.renderBody reqTemplate ctx :=
    HashItem.text.inj (List.cons.inj hbody).1
  simp only [toRequest, hr, hr', Option.bind_some, Option.bind_eq_bind, AgreeBeyondKey,
    Grpc.RequestTemplate.RenderedRequestTemplate.toRequest, htext, hbody]
  cases hm : wire.convertInput reqTemplate.operation (Grpc.RequestTemplate.renderBody reqTemplate ctx) with
  | none =>
    cases hm' : wire.convertInput reqTemplate'.operation (Grpc.RequestTemplate.renderBody reqTemplate ctx) <;> simp
  | some message =>
    cases hm' : wire.convertInput reqTemplate'.operation (Grpc.RequestTemplate.renderBody reqTemplate ctx) with
    | none => simp
    | some message' =>
      simp only [Option.bind_some, Option.pure_def, Option.some.injEq, Request.mk.injEq, Body.message.injEq, true_and,
        Option.isSome_some, true_implies]
      exact and_comm

theorem http_key_starts (reqTemplate : Http.RequestTemplate) (dedupe : Bool) (ctx : RenderContext) (key : List HashItem)
    (h : cacheKey wire ctx (.http reqTemplate dedupe) = some key) : key.head? = some (.method reqTemplate.method) := by
  obtain ⟨url, -, hkey⟩ := Option.bind_eq_some_iff.mp h
  obtain rfl := Option.some.inj hkey
  rfl

theorem grpc_key_shape (reqTemplate : Grpc.RequestTemplate) (dedupe : Bool) (ctx : RenderContext) (key : List HashItem)
    (h : cacheKey wire ctx (.grpc reqTemplate dedupe) = some key) : ∃ url body, key = [.text url, .text body] := by
  obtain ⟨rendered, -, rfl⟩ := Option.map_eq_some_iff.mp h
  exact ⟨rendered.url, rendered.body, rfl⟩

theorem graphql_key_shape (reqTemplate : GraphQL.RequestTemplate) (fieldName : String) (dedupe : Bool)
    (ctx : RenderContext) (key : List HashItem)
    (h : cacheKey wire ctx (.graphQL reqTemplate fieldName dedupe) = some key) : ∃ query, key = [.text query] :=
  ⟨_, (Option.some.inj h).symm⟩

theorem request_eq_iff (io io' : Io) (ctx ctx' : RenderContext) (key : List HashItem)
    (hkey : cacheKey wire ctx io = some key) (hkey' : cacheKey wire ctx' io' = some key) :
    toRequest wire ctx io = toRequest wire ctx' io' ↔ AgreeBeyondKey wire ctx ctx' io io' := by
  cases io with
  | http reqTemplate dedupe =>
    have hstarts := http_key_starts wire reqTemplate dedupe ctx key hkey
    cases io' with
    | http reqTemplate' dedupe' =>
      exact http_request_eq_iff wire reqTemplate reqTemplate' dedupe dedupe' ctx ctx' key hkey hkey'
    | graphQL reqTemplate' fieldName dedupe' =>
      obtain ⟨query, rfl⟩ := graphql_key_shape wire reqTemplate' fieldName dedupe' ctx' key hkey'
      exact absurd hstarts (by simp)
    | grpc reqTemplate' dedupe' =>
      obtain ⟨url, body, rfl⟩ := grpc_key_shape wire reqTemplate' dedupe' ctx' key hkey'
      exact absurd hstarts (by simp)
    | stream source => exact absurd hkey' (by simp [cacheKey])
    | js name => exact absurd hkey' (by simp [cacheKey])
    | backend backend reqTemplate' dedupe' => exact absurd hkey' (by simp [cacheKey])
  | graphQL reqTemplate fieldName dedupe =>
    obtain ⟨query, hshape⟩ := graphql_key_shape wire reqTemplate fieldName dedupe ctx key hkey
    cases io' with
    | http reqTemplate' dedupe' =>
      have hstarts := http_key_starts wire reqTemplate' dedupe' ctx' key hkey'
      exact absurd (hshape ▸ hstarts) (by simp)
    | graphQL reqTemplate' fieldName' dedupe' =>
      exact graphql_request_eq_iff wire reqTemplate reqTemplate' fieldName fieldName' dedupe dedupe' ctx ctx' key
        hkey hkey'
    | grpc reqTemplate' dedupe' =>
      obtain ⟨url, body, hshape'⟩ := grpc_key_shape wire reqTemplate' dedupe' ctx' key hkey'
      exact absurd (hshape.symm.trans hshape') (by simp)
    | stream source => exact absurd hkey' (by simp [cacheKey])
    | js name => exact absurd hkey' (by simp [cacheKey])
    | backend backend reqTemplate' dedupe' => exact absurd hkey' (by simp [cacheKey])
  | grpc reqTemplate dedupe =>
    obtain ⟨url, body, hshape⟩ := grpc_key_shape wire reqTemplate dedupe ctx key hkey
    cases io' with
    | http reqTemplate' dedupe' =>
      have hstarts := http_key_starts wire reqTemplate' dedupe' ctx' key hkey'
      exact absurd (hshape ▸ hstarts) (by simp)
    | graphQL reqTemplate' fieldName' dedupe' =>
      obtain ⟨query, hshape'⟩ := graphql_key_shape wire reqTemplate' fieldName' dedupe' ctx' key hkey'
      exact absurd (hshape.symm.trans hshape') (by simp)
    | grpc reqTemplate' dedupe' =>
      exact grpc_request_eq_iff wire reqTemplate reqTemplate' dedupe dedupe' ctx ctx' key hkey hkey'
    | stream source => exact absurd hkey' (by simp [cacheKey])
    | js name => exact absurd hkey' (by simp [cacheKey])
    | backend backend reqTemplate' dedupe' => exact absurd hkey' (by simp [cacheKey])
  | stream source => exact absurd hkey (by simp [cacheKey])
  | js name => exact absurd hkey (by simp [cacheKey])
  | backend backend reqTemplate dedupe => exact absurd hkey (by simp [cacheKey])

end

end Gqlforge.IoKeys
