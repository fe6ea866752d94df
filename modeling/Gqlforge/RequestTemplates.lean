import Gqlforge.SelectionSets

namespace Gqlforge.RequestTemplates

open Json Resolvers Templates SelectionSets

abbrev HeaderMap := Object String

def HeaderMap.extend (headers other : HeaderMap) : HeaderMap :=
  other.foldl (fun headers (name, value) => headers.insertKey name value) headers

def headerValue (text : String) : Option String :=
  if text.toList.all fun c => (0x20 ≤ c.toNat && c.toNat != 0x7f) || c == '\t' then some text else none

inductive ValueString where
  | value (value : ConstValue) (owned : Bool)
  | string (text : String)

structure RenderContext extends PathContext where
  rawValue : List String → Option ValueString
  headers : HeaderMap
  selectionSet : GraphQL.RelatedFields → Option String
  directives : Option String

structure Wire where
  parseUrl : String → Option String
  queryPairs : String → List (String × String)
  setQuery : String → Option String → String
  parseJson : String → Option ConstValue
  urlencode : ConstValue → Option String
  convertInput : Grpc.ProtobufOperation → String → Option (List UInt8)

inductive Body where
  | text (text : String)
  | message (bytes : List UInt8)
  deriving DecidableEq

structure Request where
  method : Http.Method
  url : String
  headers : HeaderMap
  body : Option Body
  deriving DecidableEq

inductive HashItem where
  | method (method : Http.Method)
  | name (name : String)
  | value (value : String)
  | text (text : String)
  deriving DecidableEq

def createHeaders (render : Mustache → String) (headers : MustacheHeaders) : HeaderMap :=
  headers.foldl (fun map (name, template) => match headerValue (render template) with
    | some value => map.insertKey name value
    | none => map) []

namespace Http.RequestTemplate

open Resolvers.Http

def valueStringEval (template : Mustache) (ctx : RenderContext) : Option ValueString :=
  template.segments.findSome? fun
    | .literal text => some (.value (.string text) true)
    | .expression parts => ctx.rawValue parts

def convertValue : ConstValue → Option String
  | .string value => some value
  | .number (.int value) => some (toString value)
  | .number (.float repr) => some repr
  | .boolean value => some (toString value)
  | .enum name => some name
  | _ => none

def encodePlain (key : String) (value : ConstValue) : String :=
  ((convertValue value).map fun text => key ++ "=" ++ text).getD key

mutual

def encodeRepeated (key : String) : ConstValue → String
  | .list [] => key
  | .list (first :: rest) => "&".intercalate (encodeRepeated key first :: encodeAll key rest)
  | value => encodePlain key value

def encodeAll (key : String) : List ConstValue → List String
  | [] => []
  | value :: rest => encodeRepeated key value :: encodeAll key rest

end

def encodeConstValue (encoder : QueryEncoder) (key : String) (value : ConstValue) : String :=
  match encoder, value with
  | .commaSeparated, .list (first :: rest) =>
    match (first :: rest).filterMap convertValue with
    | [] => key
    | texts => key ++ "=" ++ ",".intercalate texts
  | .commaSeparated, value => encodePlain key value
  | .repeatedKey, value => encodeRepeated key value

def encode (encoder : QueryEncoder) (key : String) : Option ValueString → String
  | some (.value value _) => encodeConstValue encoder key value
  | some (.string text) => key ++ "=" ++ text
  | none => key

def joinQuery (items : List String) : String :=
  items.foldl (fun text item =>
    if text.isEmpty then item else if item.isEmpty then text else text ++ "&" ++ item) ""

section

variable (wire : Wire) (template : RequestTemplate) (ctx : RenderContext)

def createUrl : Option String := do
  let url ← wire.parseUrl (template.rootUrl.render ctx.toPathContext)
  if template.query.isEmpty && template.rootUrl.isConst then return url
  let extraQp := template.query.filterMap fun query =>
    let parsedValue := valueStringEval query.value ctx
    if query.skipEmpty && parsedValue.isNone then none
    else some (encode template.queryEncoder query.key parsedValue)
  let baseQp := (wire.queryPairs url).filterMap fun (key, value) =>
    if value.isEmpty then none else some (key ++ "=" ++ value)
  let qpString := joinQuery (baseQp ++ extraQp)
  return wire.setQuery url (if qpString.isEmpty then none else some qpString)

def contentType : Encoding → String
  | .applicationJson => "application/json"
  | .applicationXWwwFormUrlencoded => "application/x-www-form-urlencoded"

def requestHeaders : HeaderMap :=
  let headers := ((createHeaders (·.render ctx.toPathContext) template.headers).extend ctx.headers : HeaderMap)
  if template.method = .get then headers
  else headers.insertKey "content-type" (contentType template.encoding)

def expressionValueEval (template : Mustache) (ctx : PathContext) : String × Option String :=
  template.segments.foldl (fun (result, first) => fun
    | .literal text => (result ++ text, first)
    | .expression parts => match ctx.pathString parts with
      | some value => (result ++ value, first <|> some value)
      | none => (result, first)) ("", none)

def formData (body : String) : Option String :=
  match wire.parseJson body with
  | some value => wire.urlencode value
  | none => some body

def createBody : Option (Option Body × Option String) :=
  match template.bodyPath with
  | some bodyPath => match template.encoding with
    | .applicationJson =>
      let (body, batchingValue) := expressionValueEval bodyPath ctx.toPathContext
      some (some (.text body), batchingValue)
    | .applicationXWwwFormUrlencoded =>
      (formData wire (bodyPath.render ctx.toPathContext)).map fun body => (some (.text body), none)
  | none => some (none, none)

structure DynamicRequest where
  request : Request
  batchingValue : Option String

def toRequest : Option DynamicRequest := do
  let url ← createUrl wire template ctx
  let (body, batchingValue) ← createBody wire template ctx
  return ⟨⟨template.method, url, requestHeaders template ctx, body⟩, batchingValue⟩

def cacheKey : Option (List HashItem) := do
  let url ← createUrl wire template ctx
  return .method template.method ::
    (template.headers.flatMap fun (name, value) => [.name name, .text (value.render ctx.toPathContext)]) ++
    (ctx.headers.flatMap fun (name, value) => [.name name, .value value]) ++
    (template.bodyPath.map fun body => .text (body.render ctx.toPathContext)).toList ++ [.text url]

end

end Http.RequestTemplate

namespace GraphQL.RequestTemplate

open Resolvers.GraphQL

section

variable (wire : Wire) (template : RequestTemplate) (ctx : RenderContext)

def requestHeaders : HeaderMap :=
  let headers := createHeaders (·.renderGraphql ctx.toPathContext) template.headers
  HeaderMap.extend (headers.insertKey "content-type" "application/json") ctx.headers

def selectionText : String :=
  match template.selection with
  | some (.resolved text) => text
  | some (.unResolved unresolved) => unresolved.toString
  | none => (ctx.selectionSet template.relatedFields).getD ""

def argumentsText : String :=
  ", ".intercalate ((template.operationArguments.getD []).filterMap fun (key, template) =>
    let value := template.renderGraphql ctx.toPathContext
    if value.isEmpty then none else some (key ++ ": " ++ escapeDefault value))

def operationText : String :=
  let args := argumentsText template ctx
  let operation := if args.isEmpty then template.operationName
    else template.operationName ++ "(" ++ args ++ ")"
  match ctx.directives with
  | some directives => if directives.isEmpty then operation else operation ++ " " ++ escapeDefault directives
  | none => operation

def renderGraphqlQuery : String :=
  "\x7b \"query\": \"" ++ template.operationType.toString ++ " \x7b " ++ operationText template ctx ++ " " ++
    selectionText template ctx ++ " \x7d\" \x7d"

def toRequest : Option Request := do
  let url ← wire.parseUrl template.url
  return ⟨.post, url, requestHeaders template ctx, some (.text (renderGraphqlQuery template ctx))⟩

def cacheKey : Option (List HashItem) :=
  some [.text (renderGraphqlQuery template ctx)]

end

end GraphQL.RequestTemplate

namespace Grpc.RequestTemplate

open Resolvers.Grpc

section

variable (wire : Wire) (template : RequestTemplate) (ctx : RenderContext)

def createUrl : Option String :=
  wire.parseUrl (template.url.render ctx.toPathContext)

def requestHeaders : HeaderMap :=
  let templateHeaders : MustacheHeaders :=
    [("content-type", ⟨[.literal "application/grpc"]⟩), ("te", ⟨[.literal "trailers"]⟩)] ++ template.headers
  (createHeaders (·.render ctx.toPathContext) templateHeaders).extend ctx.headers

def renderBody : String :=
  match template.body with
  | some body => (body.mustache.map (·.render ctx.toPathContext)).getD body.value
  | none => "\x7b\x7d"

structure RenderedRequestTemplate where
  url : String
  headers : HeaderMap
  body : String
  operation : ProtobufOperation

def render : Option RenderedRequestTemplate := do
  let url ← createUrl wire template ctx
  return ⟨url, requestHeaders template ctx, renderBody template ctx, template.operation⟩

def RenderedRequestTemplate.toRequest (rendered : RenderedRequestTemplate) : Option Request := do
  let message ← wire.convertInput rendered.operation rendered.body
  return ⟨.post, rendered.url, rendered.headers, some (.message message)⟩

def RenderedRequestTemplate.hash (rendered : RenderedRequestTemplate) : List HashItem :=
  [.text rendered.url, .text rendered.body]

def cacheKey : Option (List HashItem) :=
  (render wire template ctx).map (·.hash)

end

end Grpc.RequestTemplate

end Gqlforge.RequestTemplates
