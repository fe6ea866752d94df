import Gqlforge.FormUrlencoded
import Gqlforge.ServiceDocuments

namespace Gqlforge.Rest

open Json Schema Resolvers ServiceDocuments FormUrlencoded

inductive N where
  | int
  | float

inductive UrlParamType where
  | string
  | number (n : N)
  | boolean

inductive Error where
  | unexpectedNamedType (name : String)
  | unexpectedType (type : DocumentType)
  | undefinedParam (key input : String)
  | undefinedQueryParam (key : String)
  | directive (message : String)

namespace UrlParamType

def tryFrom : DocumentType → Except Error UrlParamType
  | .named "String" _ => .ok .string
  | .named "Int" _ => .ok (.number .int)
  | .named "Boolean" _ => .ok .boolean
  | .named "Float" _ => .ok (.number .float)
  | .named name _ => .error (.unexpectedNamedType name)
  | .list ofType nullable => .error (.unexpectedType (.list ofType nullable))

def toValue (parseFloat : String → Option ConstValue) (type : UrlParamType) (value : String) : Option ConstValue :=
  match type with
  | .string => some (.string value)
  | .number .int => (Scalar.parseInt (-2 ^ 63) (2 ^ 63 - 1) value).map fun n => .number (.int n)
  | .number .float => parseFloat value
  | .boolean => match value with
    | "true" => some (.boolean true)
    | "false" => some (.boolean false)
    | _ => none

end UrlParamType

structure TypedVariable where
  typeOf : UrlParamType
  name : String
  nullable : Bool

def TypedVariable.tryFrom (type : DocumentType) (name : String) : Except Error TypedVariable :=
  (UrlParamType.tryFrom type).map fun typeOf => ⟨typeOf, name, false⟩

abbrev TypeMap := Dict DocumentType

inductive Segment where
  | literal (text : String)
  | param (tVar : TypedVariable)

structure Path where
  pattern : String
  segments : List Segment

def splitPath (path : String) : List String :=
  ((path.toList.splitOn '/').filter fun part => !part.isEmpty).map String.ofList

def stripDollar (text : String) : Option String :=
  match text.toList with
  | '$' :: key => some (String.ofList key)
  | _ => none

namespace Path

def parseSegment (vars : TypeMap) (input text : String) : Except Error Segment :=
  match stripDollar text with
  | some key => match vars.get? key with
    | some type => (TypedVariable.tryFrom type key).map .param
    | none => .error (.undefinedParam text input)
  | none => .ok (.literal text)

def parseSegments (vars : TypeMap) (input : String) : List String → Except Error (List Segment)
  | [] => .ok []
  | text :: rest =>
    (parseSegment vars input text).bind fun segment =>
      (parseSegments vars input rest).map fun segments => segment :: segments

def parse (vars : TypeMap) (input : String) : Except Error Path :=
  (parseSegments vars input (splitPath input)).map fun segments => ⟨input, segments⟩

variable (parseFloat : String → Option ConstValue)

def matchSegment (vars : Dict ConstValue) (pair : Segment × String) : Option (Dict ConstValue) :=
  match pair.1 with
  | .literal text => if text = pair.2 then some vars else none
  | .param tVar =>
    (tVar.typeOf.toValue parseFloat pair.2).map fun value => vars.insert tVar.name value

def matchPairs (vars : Dict ConstValue) : List (Segment × String) → Option (Dict ConstValue)
  | [] => some vars
  | pair :: rest => (matchSegment parseFloat vars pair).bind fun vars => matchPairs vars rest

def «matches» (self : Path) (path : String) : Option (Dict ConstValue) :=
  let reqSegments := splitPath path
  (matchPairs parseFloat Dict.empty (self.segments.zip reqSegments)).bind fun vars =>
    if (reqSegments.drop self.segments.length).isEmpty then some vars else none

end Path

namespace QueryParams

def tryFromEntries (q : TypeMap) : List (String × String) → Except Error (List (String × TypedVariable))
  | [] => .ok []
  | (key, name) :: rest => match q.get? key with
    | some type =>
      (TypedVariable.tryFrom type name).bind fun tVar =>
        (tryFromEntries q rest).map fun params => (key, tVar) :: params
    | none => .error (.undefinedQueryParam key)

def tryFromMap (q : TypeMap) (map : Dict String) : Except Error (List (String × TypedVariable)) :=
  tryFromEntries q map.entries

variable (parseFloat : String → Option ConstValue) (queryParams : Dict String)

def matchParams (vars : Dict ConstValue) : List (String × TypedVariable) → Option (Dict ConstValue)
  | [] => some vars
  | (key, tVar) :: rest => match queryParams.get? key with
    | some text =>
      (tVar.typeOf.toValue parseFloat text).bind fun value =>
        matchParams (vars.insert tVar.name value) rest
    | none => matchParams vars rest

def «matches» (params : List (String × TypedVariable)) : Option (Dict ConstValue) :=
  matchParams parseFloat queryParams Dict.empty params

end QueryParams

structure Directive where
  path : String
  method : Option Http.Method
  query : Dict String
  body : Option String

structure Operation (D : Type) where
  variableDefinitions : List (String × DocumentType)
  rest : Option (Except Error Directive)
  doc : D

structure Endpoint (D : Type) where
  method : Http.Method
  path : Path
  queryParams : List (String × TypedVariable)
  body : Option String
  doc : D

inductive RequestMethod where
  | standard (method : Http.Method)
  | extension (name : String)
  deriving DecidableEq

structure Request where
  method : RequestMethod
  path : String
  query : Option String

structure PartialRequest (D : Type) where
  body : Option String
  doc : D
  vars : Dict ConstValue
  path : Path

def mergeVariables (a b : Dict ConstValue) : Dict ConstValue :=
  (Dict.empty.extend a.entries).extend b.entries

def queryMap (request : Request) : Dict String :=
  match request.query with
  | some query =>
    Dict.ofEntries ((parse readUtf8 query.toList).map fun field => (String.ofList field.1, String.ofList field.2))
  | none => Dict.empty

namespace Endpoint

variable {D : Type}

def ofDirective (variableDefinitions : List (String × DocumentType)) (rest : Directive) (doc : D) :
    Except Error (Endpoint D) :=
  let typeMap : TypeMap := Dict.ofEntries variableDefinitions
  (Path.parse typeMap rest.path).bind fun path =>
    (QueryParams.tryFromMap typeMap rest.query).map fun queryParams =>
      ⟨rest.method.getD .get, path, queryParams, rest.body, doc⟩

def tryNew : List (Operation D) → Except Error (List (Endpoint D))
  | [] => .ok []
  | op :: ops => match op.rest with
    | some rest =>
      (rest.bind fun rest => ofDirective op.variableDefinitions rest op.doc).bind fun endpoint =>
        (tryNew ops).map fun endpoints => endpoint :: endpoints
    | none => tryNew ops

def «matches» (parseFloat : String → Option ConstValue) (self : Endpoint D) (request : Request) :
    Option (PartialRequest D) :=
  if RequestMethod.standard self.method ≠ request.method then none
  else
    (self.path.matches parseFloat request.path).bind fun path =>
      (QueryParams.matches parseFloat (queryMap request) self.queryParams).map fun query =>
        { body := self.body
          doc := self.doc
          vars := mergeVariables (mergeVariables Dict.empty path) query
          path := self.path }

end Endpoint

def EndpointSet.matches {D : Type} (parseFloat : String → Option ConstValue) (endpoints : List (Endpoint D))
    (request : Request) : Option (PartialRequest D) :=
  endpoints.findSome? fun endpoint => endpoint.matches parseFloat request

end Gqlforge.Rest
