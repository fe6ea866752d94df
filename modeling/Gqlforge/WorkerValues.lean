import Gqlforge.QueryFixpoints
import Gqlforge.SseClient
import Gqlforge.RelatedLists

namespace Gqlforge.WorkerValues

open BigEndian FormUrlencoded QueryTexts QueryFixpoints SseClient
open scoped RelatedLists

/-! ## Requests and responses -/

structure Url where
  scheme : Text
  username : Text
  password : Option Text
  host : Option Text
  port : Option UInt16
  path : Text
  query : Option Text
  fragment : Option Text
  deriving DecidableEq

def isTokenChar (c : Char) : Bool :=
  c.isAlphanum || "!#$%&'*+-.^_`|~".toList.contains c

structure Method where
  name : Text
  token : name ≠ [] ∧ ∀ c ∈ name, isTokenChar c = true

def Method.fromBytes (name : Text) : Option Method :=
  if token : name ≠ [] ∧ ∀ c ∈ name, isTokenChar c = true then some { name, token } else none

structure HeaderName where
  name : Text
  token : name ≠ [] ∧ ∀ c ∈ name, isTokenChar c = true ∧ c.toLower = c
  deriving DecidableEq

def HeaderName.fromStr (text : Text) : Option HeaderName :=
  let name := text.map Char.toLower
  if token : name ≠ [] ∧ ∀ c ∈ name, isTokenChar c = true ∧ c.toLower = c then some { name, token } else none

def isValueByte (byte : UInt8) : Bool :=
  byte == 9 || decide (32 ≤ byte.toNat) && byte != 127

def isVisibleByte (byte : UInt8) : Bool :=
  byte == 9 || decide (32 ≤ byte.toNat) && decide (byte.toNat < 127)

structure HeaderValue where
  bytes : Bytes
  valid : ∀ byte ∈ bytes, isValueByte byte = true

namespace HeaderValue

def Visible (value : HeaderValue) : Prop :=
  ∀ byte ∈ value.bytes, isVisibleByte byte = true

instance (value : HeaderValue) : Decidable value.Visible :=
  List.decidableBAll _ value.bytes

def text (value : HeaderValue) : Text :=
  value.bytes.map byteChar

def toStr (value : HeaderValue) : Option Text :=
  if value.Visible then some value.text else none

def fromStr (text : Text) : Option HeaderValue :=
  if valid : ∀ byte ∈ toUtf8 text, isValueByte byte = true then some { bytes := toUtf8 text, valid } else none

end HeaderValue

abbrev HeaderMap := List (HeaderName × HeaderValue)

namespace HeaderMap

def getAll (headers : HeaderMap) (name : HeaderName) : List HeaderValue :=
  (headers.filter fun header => header.1 = name).map Prod.snd

def insert (headers : HeaderMap) (name : HeaderName) (value : HeaderValue) : HeaderMap :=
  headers.filter (fun header => header.1 ≠ name) ++ [(name, value)]

end HeaderMap

structure StatusCode where
  code : UInt16
  valid : 100 ≤ code.toNat ∧ code.toNat < 1000

def StatusCode.fromU16 (code : UInt16) : Option StatusCode :=
  if valid : 100 ≤ code.toNat ∧ code.toNat < 1000 then some { code, valid } else none

structure WorkerRequest where
  method : Method
  url : Url
  headers : HeaderMap
  body : Option Bytes

structure Response (Body : Type) where
  status : StatusCode
  headers : HeaderMap
  body : Body

abbrev WorkerResponse := Response Text

/-! ## URIs -/

inductive Scheme
  | http
  | https

def Scheme.text : Scheme → Text
  | .http => "http".toList
  | .https => "https".toList

structure Uri where
  path : Text
  query : SortedMap Text Text
  scheme : Scheme
  host : Option Text
  port : Option UInt16

namespace Uri

def ofUrl (read : Bytes → Text) (url : Url) : Uri where
  path := url.path
  query := .ofPairs (parse read (url.query.getD []))
  scheme := if url.scheme = "https".toList then .https else .http
  host := url.host
  port := url.port

def portText : Option UInt16 → Text
  | some port => ':' :: (toString port.toNat).toList
  | none => []

def display (uri : Uri) : Text :=
  let query := queryText uri.query.entries
  uri.scheme.text ++ "://".toList ++ uri.host.getD "localhost".toList ++ portText uri.port ++ uri.path ++
    if query.isEmpty then [] else '?' :: query

end Uri

/-! ## JS values -/

inductive Js
  | undefined
  | number (value : Nat)
  | string (text : Text)
  | object (properties : List (Text × Js))

inductive JsError
  | fromJs (source target : String) (message : Option String)
  | library

namespace Js

def typeName : Js → String
  | undefined => "undefined"
  | number _ => "int"
  | string _ => "string"
  | object _ => "object"

def asObject : Js → Except JsError (List (Text × Js))
  | object properties => .ok properties
  | js => .error (.fromJs js.typeName "rquickjs::Object" (some "unable to cast JS Value as object"))

def get (properties : List (Text × Js)) (name : String) : Js :=
  (properties.lookup name.toList).getD .undefined

def toText : Js → Except JsError Text
  | string text => .ok text
  | _ => .error .library

def toU16 : Js → Except JsError UInt16
  | number value => if value < 65536 then .ok (UInt16.ofNat value) else .error .library
  | _ => .error .library

def toOption {A : Type} (decode : Js → Except JsError A) : Js → Except JsError (Option A)
  | undefined => .ok none
  | js => some <$> decode js

def toMap : Js → Except JsError (SortedMap Text Text)
  | object properties => do
    let pairs ← properties.mapM fun (name, js) => return (name, ← js.toText)
    return SortedMap.ofPairs pairs
  | _ => .error .library

def ofU16 (value : UInt16) : Js :=
  .number value.toNat

def ofOption {A : Type} (encode : A → Js) : Option A → Js
  | some value => encode value
  | none => .undefined

def ofMap (map : SortedMap Text Text) : Js :=
  .object (map.entries.map fun (name, value) => (name, .string value))

end Js

def orError {E A : Type} (error : E) : Option A → Except E A
  | some value => .ok value
  | none => .error error

namespace Scheme

def intoJs (scheme : Scheme) : Js :=
  .string scheme.text

def fromJs : Js → Except JsError Scheme
  | .string text =>
    if text = "https".toList then .ok .https
    else if text = "http".toList then .ok .http
    else .error (.fromJs "string" "gqlforge::cli::javascript::js_request::Scheme"
      (some "scheme must be \x60http\x60 or \x60https\x60"))
  | js => .error (.fromJs js.typeName "rquickjs::String" (some "unable to cast JS Value as string"))

end Scheme

namespace Uri

def intoJs (uri : Uri) : Js :=
  .object [("path".toList, .string uri.path), ("query".toList, .ofMap uri.query),
    ("scheme".toList, uri.scheme.intoJs), ("host".toList, .ofOption .string uri.host),
    ("port".toList, .ofOption .ofU16 uri.port)]

def fromJs (js : Js) : Except JsError Uri := do
  let object ← js.asObject
  let path ← (Js.get object "path").toText
  let query ← (Js.get object "query").toMap
  let scheme ← Scheme.fromJs (Js.get object "scheme")
  let host ← (Js.get object "host").toOption Js.toText
  let port ← (Js.get object "port").toOption Js.toU16
  return { path, query, scheme, host, port }

end Uri

def insertHeaders {E : Type} (nameError valueError : E) (headers : SortedMap Text Text) : Except E HeaderMap :=
  headers.entries.foldlM (fun map (name, value) => do
    let name ← orError nameError (HeaderName.fromStr name)
    let value ← orError valueError (HeaderValue.fromStr value)
    return map.insert name value) []

def createHeaderMap (headers : SortedMap Text Text) : Except String HeaderMap :=
  insertHeaders "invalid HTTP header name" "failed to parse header value" headers

section

variable (parseUrl : Text → Option Url) (read : Bytes → Text)

namespace WorkerRequest

def uri (request : WorkerRequest) : Uri :=
  .ofUrl read request.url

def jsHeaders (request : WorkerRequest) : Except String (SortedMap Text Text) :=
  request.headers.foldlM (fun map (name, value) => do
    let text ← orError "Hyper Header To Str Error: failed to convert header to a str" value.toStr
    return map.insert name.name text) .empty

def jsBody (request : WorkerRequest) : Option Text :=
  request.body.map read

def intoJs (request : WorkerRequest) : Except JsError Js := do
  let headers ← request.jsHeaders.mapError fun error =>
    .fromJs "HeaderMap" "BTreeMap<String, String>" (some error)
  return .object [("uri".toList, (request.uri read).intoJs), ("method".toList, .string request.method.name),
    ("headers".toList, .ofMap headers), ("body".toList, .ofOption .string (request.jsBody read))]

def fromJs (js : Js) : Except JsError WorkerRequest := do
  let object ← js.asObject
  let uri ← Uri.fromJs (Js.get object "uri")
  let method ← (Js.get object "method").toText
  let headers ← (Js.get object "headers").toMap
  let body ← (Js.get object "body").toOption Js.toText
  let method ← orError (.fromJs "string" "Method" (some "invalid HTTP method")) (Method.fromBytes method)
  let url ← orError (.fromJs "string" "Url" (some "unable to parse URL")) (parseUrl uri.display)
  let headers ← insertHeaders (.fromJs "string" "HeaderName" (some "invalid HTTP header name"))
    (.fromJs "string" "headers::HeaderValue" (some "failed to parse header value")) headers
  return { method, url, headers, body := body.map toUtf8 }

end WorkerRequest

namespace WorkerResponse

def jsHeaders (response : WorkerResponse) : SortedMap Text Text :=
  response.headers.foldl (fun map (name, value) => match value.toStr with
    | some text => map.insert name.name text
    | none => map) .empty

def jsBody (response : WorkerResponse) : Option Text :=
  some (read (toUtf8 response.body))

def intoJs (response : WorkerResponse) : Js :=
  .object [("status".toList, .ofU16 response.status.code), ("headers".toList, .ofMap (jsHeaders response)),
    ("body".toList, .ofOption .string (jsBody read response))]

def fromJs (js : Js) : Except JsError WorkerResponse := do
  let object ← js.asObject
  let status ← (Js.get object "status").toU16
  let headers ← (Js.get object "headers").toMap
  let body ← (Js.get object "body").toOption Js.toText
  let status ← orError (.fromJs "u16" "reqwest::StatusCode" (some "invalid status code")) (StatusCode.fromU16 status)
  let headers ← (createHeaderMap headers).mapError fun error =>
    .fromJs "BTreeMap<String, String>" "headers::HeaderMap" (some error)
  return { status, headers, body := body.getD [] }

def ofBytes (response : Response Bytes) : WorkerResponse :=
  { response with body := read response.body }

def toBytes (response : WorkerResponse) : Response Bytes :=
  { response with body := toUtf8 response.body }

end WorkerResponse

/-! ## Hooks -/

inductive Event
  | request (request : WorkerRequest)
  | response (response : WorkerResponse)

inductive Command
  | request (request : WorkerRequest)
  | response (response : WorkerResponse)

inductive WorkerError
  | rquickjs (error : JsError)
  | deserializeFailed (error : JsError)

def prepareArgs (label : String) (js : Js) : Js :=
  .object [(label.toList, js)]

def Event.args : Event → Except JsError Js
  | .request sent => prepareArgs "request" <$> sent.intoJs read
  | .response received => .ok (prepareArgs "response" (WorkerResponse.intoJs read received))

def Command.fromJs (js : Js) : Except JsError Command := do
  let object ← js.asObject
  if (object.lookup "request".toList).isSome then
    Command.request <$> WorkerRequest.fromJs parseUrl (Js.get object "request")
  else if (object.lookup "response".toList).isSome then
    Command.response <$> WorkerResponse.fromJs (Js.get object "response")
  else .error (.fromJs "object" "gqlforge::cli::javascript::request_filter::Command"
    (some "object must contain either request or response"))

def call (hook : Js → Option Js) (event : Event) : Except WorkerError (Option Command) := do
  let args ← (event.args read).mapError .rquickjs
  match hook args with
  | some output => some <$> (Command.fromJs parseUrl output).mapError .deserializeFailed
  | none => return none

end

end Gqlforge.WorkerValues
