import Gqlforge.PostgresTemplates
import Gqlforge.SampledTypes
import Gqlforge.TemplateValidation
import Mathlib.Data.List.DropRight

namespace Gqlforge.JsonSamples

open Json Schema Config Resolvers TemplateValidation

def dropSign (text : List Char) : List Char :=
  match text with
  | '+' :: rest => rest
  | '-' :: rest => rest
  | text => text

def isDigits (text : List Char) : Bool :=
  !text.isEmpty && text.all Char.isDigit

def isExponent : List Char → Bool
  | [] => true
  | first :: rest => (first == 'e' || first == 'E') && isDigits (dropSign rest)

def isDecimal (text : List Char) : Bool :=
  let whole := text.takeWhile Char.isDigit
  match text.dropWhile Char.isDigit with
  | '.' :: rest =>
    !(whole.isEmpty && (rest.takeWhile Char.isDigit).isEmpty) && isExponent (rest.dropWhile Char.isDigit)
  | rest => !whole.isEmpty && isExponent rest

def isF64 (text : List Char) : Bool :=
  let unsigned := dropSign text
  ["inf", "infinity", "nan"].contains (String.ofList (unsigned.map Char.toLower)) || isDecimal unsigned

def isBool (text : String) : Bool := text == "true" || text == "false"

def trim (text : List Char) : List Char :=
  (text.dropWhile PostgresTemplates.isWhitespace).rdropWhile PostgresTemplates.isWhitespace

def detectPlainType (value : List Char) : String :=
  let trimmedValue := trim value
  if (Scalar.parseInt (-2 ^ 31) (2 ^ 31 - 1) (String.ofList trimmedValue)).isSome then "Int"
  else if isF64 trimmedValue then "Float"
  else if isBool (String.ofList trimmedValue) then "Boolean"
  else "String"

def detectGqlDataType (value : List Char) : String :=
  if detectPlainType value = "String" ∧ ',' ∈ trim value then
    detectPlainType ((trim value).takeWhile (· != ','))
  else detectPlainType value

structure Url where
  path : String
  queryPairs : List (String × String)
  withPath : String → String

structure Crates where
  camel : String → String
  decode : String → Option String

structure QueryParamInfo where
  key : String
  dataType : String
  isList : Bool

def addQueryParam (queries : List QueryParamInfo) (pair : String × String) : List QueryParamInfo :=
  if queries.any fun query => query.key == pair.1 then
    queries.map fun query => if query.key = pair.1 then { query with isList := true } else query
  else queries ++ [⟨pair.1, detectGqlDataType pair.2.toList, pair.2.toList.contains ','⟩]

def getQueryParams (url : Url) : List QueryParamInfo :=
  url.queryPairs.foldl addQueryParam []

def generatedPrefix : String := "GEN__"

def argKey (index : ℕ) : String := generatedPrefix ++ toString index

def argTemplate (key : String) : String :=
  "\x7b\x7b.args." ++ key ++ "\x7d\x7d"

def matchInt (text : List Char) : Option (List Char) :=
  let rest := text.dropWhile Char.isDigit
  if (text.takeWhile Char.isDigit).isEmpty then none
  else match rest with
    | [] => some []
    | c :: _ => if c.isAlphanum || c == '_' then none else some rest

def isHex (c : Char) : Bool := c.isDigit || ('a' ≤ c && c ≤ 'f')

def matchHex (n : ℕ) (text : List Char) : Option (List Char) :=
  if (text.take n).length = n ∧ (text.take n).all isHex then some (text.drop n) else none

def matchDash : List Char → Option (List Char)
  | '-' :: rest => some rest
  | _ => none

def matchUuid (text : List Char) : Option (List Char) := do
  let rest ← matchHex 8 text
  let rest ← matchHex 4 (← matchDash rest)
  let rest ← matchHex 4 (← matchDash rest)
  let rest ← matchHex 4 (← matchDash rest)
  matchHex 12 (← matchDash rest)

variable {P : Payloads}

def argOf (typeOf : WrappingType) : Arg P where
  typeOf := typeOf
  doc := none
  modify := none
  defaultValue := none

def replaceAll (find : List Char → Option (List Char)) (typeName : String) :
    ℕ → List Char → ℕ → Dict (Arg P) → List Char × ℕ × Dict (Arg P)
  | fuel + 1, '/' :: text, index, args =>
    match find text with
    | some rest =>
      let (replaced, result) := replaceAll find typeName fuel rest (index + 1)
        (args.insert (argKey index) (argOf (.named typeName true)))
      ('/' :: (argTemplate (argKey index)).toList ++ replaced, result)
    | none =>
      let (replaced, result) := replaceAll find typeName fuel text index args
      ('/' :: replaced, result)
  | fuel + 1, c :: text, index, args =>
    let (replaced, result) := replaceAll find typeName fuel text index args
    (c :: replaced, result)
  | _, text, index, args => (text, index, args)

structure HttpDirective where
  url : String
  query : List URLQuery
  method : Http.Method
  body : Option String

def addPathVariables (crates : Crates) (url : Url) (args : Dict (Arg P)) : Option (String × Dict (Arg P)) :=
  let path := url.path.toList
  let (replaced, index, args) := replaceAll matchInt "Int" path.length path 1 args
  let (replaced, _, args) := replaceAll matchUuid "String" replaced.length replaced index args
  (crates.decode (url.withPath (String.ofList replaced))).map fun decoded => (decoded, args)

def addQueryVariable (crates : Crates) (state : List URLQuery × Dict (Arg P)) (query : QueryParamInfo) :
    List URLQuery × Dict (Arg P) :=
  let (queries, args) := state
  let named : WrappingType := .named query.dataType false
  let typeOf := if query.isList then .list named false else named
  let queryKey := crates.camel query.key
  (queries ++ [⟨query.key, argTemplate queryKey, none⟩], args.insert queryKey (argOf typeOf))

def generateHttpDirective (crates : Crates) (url : Url) (field : Config.Field P) :
    Option (HttpDirective × Config.Field P) :=
  (addPathVariables crates url field.args).map fun (decoded, args) =>
    let (query, args) := (getQueryParams url).foldl (addQueryVariable crates) ([], args)
    (⟨decoded, query, .get, none⟩, { field with args := args })

end Gqlforge.JsonSamples

namespace Gqlforge.JsonSamples

open Json Schema Config Resolvers

inductive OperationType where
  | query
  | mutation
  | subscription

def OperationType.typeName : OperationType → String
  | .query => "Query"
  | .mutation => "Mutation"
  | .subscription => "Subscription"

structure RequestSample where
  url : Url
  method : Http.Method
  reqBody : Output
  resBody : Output
  fieldName : String
  operationType : OperationType

abbrev sampled (P : Payloads) : Payloads := { P with Resolver := HttpDirective }

variable {P : Payloads} (namePrefix : String) (crates : Crates)

def inputName : String := generatedPrefix ++ "Input1"

def addInput (sample : RequestSample) (http : HttpDirective) (field : Config.Field (sampled P))
    (generation : Generation (sampled P)) : HttpDirective × Config.Field (sampled P) × Generation (sampled P) :=
  match sample.operationType with
  | .mutation =>
    let (rootType, generation) := generateTypes namePrefix sample.reqBody generation
    ({ http with body := some (argTemplate inputName), method := sample.method },
      { field with args := field.args.insert inputName (argOf (.named rootType false)) }, generation)
  | _ => (http, field, generation)

def addOperation (types : Dict (TypeDef (sampled P))) (typeName fieldName : String)
    (field : Config.Field (sampled P)) : Dict (TypeDef (sampled P)) :=
  match types.get? typeName with
  | some type => types.insert typeName { type with fields := type.fields.insert fieldName field }
  | none => types.insert typeName (typeWith (Dict.empty.insert fieldName field))

def generateOperation (sample : RequestSample) (generation : Generation (sampled P)) :
    Option (Generation (sampled P)) :=
  let (rootType, generation) := generateTypes namePrefix sample.resBody generation
  let field := fieldOf (listOf sample.resBody (.named rootType false))
  (generateHttpDirective crates sample.url field).map fun (http, field) =>
    let (http, field, generation) := addInput namePrefix sample http field generation
    { generation with
      types := addOperation generation.types sample.operationType.typeName sample.fieldName
        { field with resolvers := [http] } }

section Accepted

variable {namePrefix crates} {sample : RequestSample} {generation : Generation (sampled P)}

theorem addInput_typeOf (http : HttpDirective) (field : Config.Field (sampled P)) :
    (addInput namePrefix sample http field generation).2.1.typeOf = field.typeOf := by
  unfold addInput
  split <;> rfl

theorem addInput_later (http : HttpDirective) (field : Config.Field (sampled P))
    (h : ∀ name ∈ scalarNames, objectType generation.types name = none) :
    Later namePrefix generation (addInput namePrefix sample http field generation).2.2 := by
  unfold addInput
  split
  · exact (generateTypes_stands sample.reqBody generation h).1
  · exact .refl h

theorem generateHttpDirective_typeOf {url : Url} {field field' : Config.Field (sampled P)} {http : HttpDirective}
    (h : generateHttpDirective crates url field = some (http, field')) : field'.typeOf = field.typeOf := by
  obtain ⟨paths, -, heq⟩ := Option.map_eq_some_iff.mp h
  obtain ⟨-, rfl⟩ := Prod.mk.inj heq
  rfl

theorem get?_addOperation_of_ne (types : Dict (TypeDef (sampled P))) {typeName name : String} (fieldName : String)
    (field : Config.Field (sampled P)) (h : name ≠ typeName) :
    (addOperation types typeName fieldName field).get? name = types.get? name := by
  unfold addOperation
  split <;> rw [Dict.get?_insert, if_neg h]

theorem extends_addOperation (operationType : OperationType) (fieldName : String) (field : Config.Field (sampled P))
    (h : ∀ name ∈ scalarNames, objectType generation.types name = none) :
    Extends namePrefix generation (addOperation generation.types operationType.typeName fieldName field) := by
  refine ⟨fun id _ => get?_addOperation_of_ne _ _ _ ?_, fun name hname => ?_⟩
  · apply nameOf_ne
    cases operationType <;> rfl
  · rw [objectType, get?_addOperation_of_ne]
    · exact h name hname
    · rintro rfl
      cases operationType <;> exact absurd hname (by decide)

theorem get?_addOperation (types : Dict (TypeDef (sampled P))) (typeName fieldName : String)
    (field : Config.Field (sampled P)) :
    ∃ type, (addOperation types typeName fieldName field).get? typeName = some type ∧
      type.fields.get? fieldName = some field := by
  unfold addOperation
  split
  next type htype =>
    refine ⟨_, by rw [Dict.get?_insert, if_pos rfl], ?_⟩
    rw [Dict.get?_insert, if_pos rfl]
  next hnone =>
    refine ⟨_, by rw [Dict.get?_insert, if_pos rfl], ?_⟩
    rw [typeWith, Dict.get?_insert, if_pos rfl]

/-- The sample is an answer of the operation that was generated from it if it can stand for itself. -/
theorem sample_accepted_iff (namePrefix : String) (crates : Crates) (sample : RequestSample)
    (generation result : Generation (sampled P))
    (hscalars : ∀ name ∈ scalarNames, objectType generation.types name = none)
    (hresult : generateOperation namePrefix crates sample generation = some result) :
    (∃ type field, result.types.get? sample.operationType.typeName = some type ∧
      type.fields.get? sample.fieldName = some field ∧
      conforms result.types sample.resBody field.typeOf = true) ↔
      FitsField sample.resBody sample.resBody := by
  obtain ⟨hlater, hstands⟩ := @generateTypes_stands (sampled P) namePrefix sample.resBody generation hscalars
  obtain ⟨⟨http, field⟩, hhttp, rfl⟩ := Option.map_eq_some_iff.mp hresult
  have htypeOf := generateHttpDirective_typeOf hhttp
  have hinput := @addInput_later P namePrefix sample _ http field hlater.extends'.scalars
  let input := addInput namePrefix sample http field (generateTypes namePrefix sample.resBody generation).2
  let answer : Config.Field (sampled P) := { input.2.1 with resolvers := [input.1] }
  have hanswer : StandsField namePrefix (generateTypes namePrefix sample.resBody generation).2 answer sample.resBody :=
    ⟨_, (addInput_typeOf http field).trans htypeOf, hstands⟩
  have hextends := (extends_addOperation sample.operationType sample.fieldName answer hinput.extends'.scalars).mono
    hinput
  obtain ⟨type, htype, hfield⟩ := get?_addOperation input.2.2.types sample.operationType.typeName sample.fieldName
    answer
  have hconforms := hanswer.conforms hextends sample.resBody
  constructor
  · rintro ⟨type', field', htype', hfield', h⟩
    obtain rfl := Option.some.inj (htype.symm.trans htype')
    obtain rfl := Option.some.inj (hfield.symm.trans hfield')
    exact hconforms.mp h
  · exact fun h => ⟨type, answer, htype, hfield, hconforms.mpr h⟩

end Accepted

def sameCase : Crates where
  camel := id
  decode := some

def usersUrl : Url where
  path := "/users"
  queryPairs := []
  withPath path := "http://example.com" ++ path

def usersSample (resBody : Output) : RequestSample where
  url := usersUrl
  method := .get
  reqBody := .null
  resBody := resBody
  fieldName := "users"
  operationType := .query

def noTypes : Generation (sampled plain) := ⟨.empty, 1⟩

def users : Output :=
  .array [.object [("age", .number (.int 30)), ("tags", .array [])], .object [("tags", .array [.str "new", .null])]]

theorem users_accepted : ∃ result type field,
    generateOperation "GEN__" sameCase (usersSample users) noTypes = some result ∧
      result.types.get? "Query" = some type ∧ type.fields.get? "users" = some field ∧
      conforms result.types users field.typeOf = true := by
  have hitem : ∀ other ∈ [Output.str "new", .null], Fits (.array [.str "new", .null]) other := by
    rw [List.forall_mem_cons, List.forall_mem_singleton]
    refine ⟨?_, fits_null _⟩
    rw [fits_deciding rfl, Fits]
    exact .inr ⟨_, rfl⟩
  have hfits : FitsField users users := by
    refine (fitsField_array _ _).mpr (.inr ⟨_, rfl, fun other hother => ?_⟩)
    refine (fits_objects (by simp) (by simp [isKnownObject, isGraphqlCompatible, isValidFieldName]) other).mpr (.inr ?_)
    rcases List.mem_cons.mp hother with rfl | hother
    · refine ⟨_, rfl, ?_⟩
      rw [List.forall_mem_cons, List.forall_mem_singleton]
      refine ⟨⟨.number (.int 30), rfl, ?_⟩, ⟨.array [.str "new", .null], rfl, ?_⟩⟩
      · rw [fitsField_of_not_array (by simp), Fits]
        exact .inr ⟨_, rfl⟩
      · exact (fitsField_array _ _).mpr (.inr ⟨[], rfl, fun _ h => absurd h List.not_mem_nil⟩)
    · rw [List.mem_singleton.mp hother]
      refine ⟨_, rfl, ?_⟩
      rw [List.forall_mem_singleton]
      exact ⟨.array [.str "new", .null], rfl, (fitsField_array _ _).mpr (.inr ⟨_, rfl, hitem⟩)⟩
  obtain ⟨type, field, h⟩ := (sample_accepted_iff "GEN__" sameCase (usersSample users) noTypes _ (by decide) rfl).mpr
    hfits
  exact ⟨_, type, field, rfl, h⟩

theorem mixed_rejected : ∃ result type field,
    generateOperation "GEN__" sameCase (usersSample (.array [.number (.int 1), .str "one"])) noTypes = some result ∧
      result.types.get? "Query" = some type ∧ type.fields.get? "users" = some field ∧
      conforms result.types (.array [.number (.int 1), .str "one"]) field.typeOf = false :=
  ⟨_, _, _, rfl, rfl, rfl, by decide +kernel⟩

end Gqlforge.JsonSamples
