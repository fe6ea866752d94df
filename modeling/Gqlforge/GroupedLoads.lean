import Gqlforge.Resolvers

namespace Gqlforge.GroupedLoads

open Json Resolvers.Http

structure Url where
  address : String
  query : List (String × String)
  deriving DecidableEq

structure Request where
  method : Method
  url : Url
  headers : List (String × String)
  body : Option String

structure DataLoaderRequest where
  request : Request
  batchingValue : Option String

structure Response where
  status : Nat
  headers : List (String × String)
  body : ConstValue

structure GroupBy where
  path : List String
  key : Option String

namespace GroupBy

def getPath (groupBy : GroupBy) : List String :=
  if groupBy.path.isEmpty then ["id"] else groupBy.path

def getKey (groupBy : GroupBy) : String :=
  match groupBy.key with
  | some key => key
  | none => groupBy.path.getLast?.getD "id"

end GroupBy

mutual

def gatherPathMatches : ConstValue → List String → List (ConstValue × ConstValue)
  | .list items, path => gatherItems items path
  | .object fields, key :: tail => gatherField (.object fields) key tail fields
  | _, _ => []

def gatherItems : List ConstValue → List String → List (ConstValue × ConstValue)
  | [], _ => []
  | value :: items, path => gatherPathMatches value path ++ gatherItems items path

def gatherField (root : ConstValue) (key : String) (tail : List String) :
    List (String × ConstValue) → List (ConstValue × ConstValue)
  | [] => []
  | (name, value) :: fields =>
    if name = key then
      if tail.isEmpty then [(value, root)] else gatherPathMatches value tail
    else gatherField root key tail fields

end

def roundToF64 (n : Nat) : Nat :=
  let unit := 2 ^ (n.log2 - 52)
  let down := n / unit
  let rest := n % unit
  if unit < 2 * rest ∨ unit = 2 * rest ∧ down % 2 = 1 then (down + 1) * unit else down * unit

def shortest (n : Nat) : Nat :=
  ((List.range 20).reverse.findSome? fun zeros =>
    let candidate := (n + 10 ^ zeros / 2) / 10 ^ zeros * 10 ^ zeros
    if roundToF64 candidate = n then some candidate else none).getD n

def f64Text (n : Int) : String :=
  (if n < 0 then "-" else "") ++ toString (shortest (roundToF64 n.natAbs))

section

variable (floatText : String → String)

def keyText : ConstValue → Option String
  | .string key => some key
  | .number (.int n) => some (f64Text n)
  | .number (.float repr) => some (floatText repr)
  | _ => none

def groupByKey (src : List (ConstValue × ConstValue)) : Object (List ConstValue) :=
  src.foldl (fun map (key, value) => match keyText floatText key with
    | some key => map.insertKey key ((map.getKey key).getD [] ++ [value])
    | none => map) []

def getBodyValueSingle (bodyValue : Object (List ConstValue)) (id : String) : ConstValue :=
  ((bodyValue.getKey id).bind List.head?).getD .null

def getBodyValueList (bodyValue : Object (List ConstValue)) (id : String) : ConstValue :=
  .list ((bodyValue.getKey id).getD [])

def extendPairs (request : Request) (pairs : List (String × String)) : Request :=
  { request with url := { request.url with query := request.url.query ++ pairs } }

def queryBatching (dlRequests : List DataLoaderRequest) (groupBy : Option String) (baseRequest : Request) : Request :=
  dlRequests.foldl (fun request key =>
    let pairs := match groupBy with
      | some groupByKey => key.request.url.query.filter fun (name, _) => groupByKey = name
      | none => key.request.url.query
    if pairs.isEmpty then request else extendPairs request pairs) baseRequest

structure Build where
  debugAssertions : Bool
  /-- The serialization of a URL. -/
  urlText : Url → String

def bodyBatching (build : Build) (dlRequests : List DataLoaderRequest) (baseRequest : Request) : Request :=
  let requestBodies := dlRequests.filterMap fun request => request.request.body
  if requestBodies.isEmpty then baseRequest
  else
    let sorted := if build.debugAssertions then requestBodies.mergeSort fun a b => decide (a ≤ b) else requestBodies
    { baseRequest with body := some ("[" ++ ",".intercalate sorted ++ "]") }

structure HttpDataLoader where
  groupBy : Option GroupBy
  isList : Bool

def sortRequests (build : Build) (keys : List DataLoaderRequest) : List DataLoaderRequest :=
  if build.debugAssertions then
    keys.mergeSort fun a b => decide (build.urlText a.request.url ≤ build.urlText b.request.url)
  else keys

def queryParam (url : Url) (name : String) : Option String :=
  url.query.reverse.lookup name

def extractor (loader : HttpDataLoader) : Object (List ConstValue) → String → ConstValue :=
  if loader.isList then getBodyValueList else getBodyValueSingle

def load (build : Build) (loader : HttpDataLoader) (execute : Request → Except String Response)
    (keys : List DataLoaderRequest) : Except String (List (DataLoaderRequest × Response)) :=
  match loader.groupBy with
  | some groupBy =>
    let dlRequests := sortRequests build keys
    match dlRequests with
    | [] => .error "This is definitely a bug in http data loaders, please report it to the maintainers."
    | base :: rest => do
      let res ← execute (if base.request.method = .get then queryBatching rest (some groupBy.getKey) base.request
        else bodyBatching build dlRequests (queryBatching rest none base.request))
      let responseMap := groupByKey floatText (gatherPathMatches res.body groupBy.getPath)
      dlRequests.mapM fun dlReq =>
        if base.request.method = .get then match queryParam dlReq.request.url groupBy.getKey with
          | some id => .ok (dlReq, { res with body := extractor loader responseMap id })
          | none => .error ("Unable to find key " ++ groupBy.getKey ++ " in query params")
        else match dlReq.batchingValue with
          | some bodyKey => .ok (dlReq, { res with body := extractor loader responseMap bodyKey })
          | none => .error ("Unable to find batching value in the body for data loader request " ++
            build.urlText dlReq.request.url)
  | none => keys.mapM fun key => (key, ·) <$> execute key.request

end

end Gqlforge.GroupedLoads
