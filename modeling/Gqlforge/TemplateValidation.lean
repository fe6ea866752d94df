import Gqlforge.StreamDirectives

namespace Gqlforge.TemplateValidation

open Json Resolvers Templates Schema Config Validation FieldCompiler StreamDirectives

inductive TemplateError where
  | noValueFound (path : String)
  | valueIsNullableType (item : String)
  | valueIsNotOfScalarType (name : String)
  | noTypeFound (path : String)
  | tooFewPartsInTemplate
  | cantUseListTypeHere (name : String)
  | argumentIsNullableType (name : String)
  | varNotSetInServerConfig (name : String)
  | unknownTemplateDirective (name : String)
  | incorrectBatchingUsage
  | batchKeyRequiresEitherBodyOrQuery
  | batchRequiresDynamicParameter
  | error (text : String)

structure URLQuery where
  key : String
  value : String
  skipEmpty : Option Bool

structure ConfigHttp where
  url : String
  body : Option ConstValue
  encoding : Http.Encoding
  batchKey : List String
  headers : List (String × String)
  method : Http.Method
  query : List URLQuery
  dedupe : Option Bool

abbrev httpRest (R : Rest) : Rest :=
  { R with Http := ConfigHttp }

def expressionSegments (template : Mustache) : List (List String) :=
  template.segments.filterMap fun
    | .expression parts => some parts
    | .literal _ => none

section

variable (P : Payloads) (B : Backends)

structure Settings where
  vars : P.Server → List String
  delay : P.Upstream → ℕ
  maxSize : P.Upstream → ℕ
  headerName : String → Except String String
  json : ConstValue → String
  error : TemplateError → B.Error

end

variable {P : Payloads} {B : Backends} (settings : Settings P B) (config : Config (withResolvers P B))

def Settings.fail {α : Type} (error : TemplateError) : Checked B α :=
  Valid.fail (.error (settings.error error))

def Settings.failWhen (condition : Bool) (error : TemplateError) : Checked B Unit :=
  if condition then settings.fail error else Valid.succeed ()

section MustachePartsValidator

def validateType (isQuery : Bool) (parts : List String) :
    TypeDef (withResolvers P B) → List String → List String → Except TemplateError Unit
  | _, _, [] => .ok ()
  | typeOf, walked, item :: rest =>
    match typeOf.fields.get? item with
    | none => .error (.noValueFound (".".intercalate (walked ++ [item])))
    | some field =>
      if !isQuery && field.typeOf.isNullable then .error (.valueIsNullableType item)
      else if rest.isEmpty then
        if Scalar.isPredefined field.typeOf.name then .ok () else .error (.valueIsNotOfScalarType item)
      else
        match config.findType field.typeOf.name with
        | none => .error (.noTypeFound (".".intercalate parts))
        | some typeOf => validateType isQuery parts typeOf (walked ++ [item]) rest

def validateValue (typeOf : TypeDef (withResolvers P B)) (isQuery : Bool) (parts : List String) : Checked B Unit :=
  match validateType config isQuery parts typeOf [] parts with
  | .ok () => Valid.succeed ()
  | .error error => settings.fail error

def validateArg (args : List InputFieldDefinition) (isQuery : Bool) (name : String) : Checked B Unit :=
  match args.find? (·.name == name) with
  | none => Valid.fail (.argumentNotFound name)
  | some arg =>
    if !isQuery && arg.ofType.isList then settings.fail (.cantUseListTypeHere name)
    else if !isQuery && arg.defaultValue.isNone && arg.ofType.isNullable then
      settings.fail (.argumentIsNullableType name)
    else Valid.succeed ()

def validate (typeOf : TypeDef (withResolvers P B)) (args : List InputFieldDefinition) (isQuery : Bool) :
    List String → Checked B Unit
  | head :: tail :: rest =>
    if head = "value" then validateValue settings config typeOf isQuery (tail :: rest)
    else if head = "args" then validateArg settings args isQuery tail
    else if head = "vars" then
      if (settings.vars config.server).contains tail then Valid.succeed ()
      else settings.fail (.varNotSetInServerConfig tail)
    else if head = "headers" ∨ head = "env" ∨ head = "claims" then Valid.succeed ()
    else settings.fail (.unknownTemplateDirective head)
  | _ => settings.fail .tooFewPartsInTemplate

section

variable (typeOf : TypeDef (withResolvers P B)) (args : List InputFieldDefinition)

def validateTemplate (isQuery : Bool) (label : String) (template : Mustache) : Checked B Unit :=
  (Valid.fromIter (expressionSegments template) fun parts =>
    (validate settings config typeOf args isQuery parts).trace label).mapOk fun _ => ()

def validateTemplates (label : String) (templates : List Mustache) : Checked B Unit :=
  (Valid.fromIter templates (validateTemplate settings config typeOf args true label)).mapOk fun _ => ()

def validateIo : Io → Checked B Unit
  | .http template _ =>
    ((validateTemplate settings config typeOf args false "path" template.rootUrl).and
      (validateTemplates settings config typeOf args "query" (template.query.map Http.Query.value))).trace "@http"
  | .graphQL template _ _ =>
    ((validateTemplates settings config typeOf args "headers" (template.headers.map Prod.snd)).andThen fun _ =>
      validateTemplates settings config typeOf args "args"
        ((template.operationArguments.getD []).map Prod.snd)).trace "@graphQL"
  | .grpc template _ =>
    (((validateTemplate settings config typeOf args false "path" template.url).and
      (validateTemplates settings config typeOf args "headers" (template.headers.map Prod.snd))).andThen fun _ =>
        validateTemplates settings config typeOf args "body" (template.body.bind (·.mustache)).toList).trace "@grpc"
  | _ => Valid.succeed ()

mutual

def validateResolver : IR → Checked B Unit
  | .merge resolvers => validateResolvers resolvers
  | .io io => validateIo settings config typeOf args io
  | _ => Valid.succeed ()

def validateResolvers : List IR → Checked B Unit
  | [] => Valid.succeed ()
  | resolver :: rest => ((validateResolver resolver).zip (validateResolvers rest)).mapOk fun _ => ()

end

end

def validateField (typeOf : TypeDef (withResolvers P B)) (bField : CompiledField) : Checked B Unit :=
  match bField.resolver with
  | some resolver => validateResolver settings config typeOf bField.args resolver
  | none => Valid.succeed ()

end MustachePartsValidator

def pathValidator (leaf : String → Bool) : List String → String → Checked B Unit
  | [], typeOf =>
    match config.findType typeOf with
    | some _ => settings.fail (.valueIsNotOfScalarType typeOf)
    | none => if leaf typeOf then Valid.succeed () else Valid.fail (.typeNotFoundInConfig typeOf)
  | field :: path, typeOf =>
    match config.findType typeOf with
    | some typeDef =>
      match typeDef.fields.get? field with
      | some fieldType => pathValidator leaf path fieldType.typeOf.name
      | none => Valid.fail (.fieldNotFound field)
    | none => if leaf typeOf then Valid.succeed () else Valid.fail (.typeNotFoundInConfig typeOf)

def containsArgs (text : String) : Bool :=
  text.toList.tails.any fun rest => "args".toList.isPrefixOf rest

def isLeaf (name : String) : Bool :=
  Scalar.isPredefined name || (config.findEnum name).isSome

def validateExpression (field : Config.Field (withResolvers P B)) : List String → Checked B Unit
  | [] => Valid.succeed ()
  | head :: rest =>
    if containsArgs head then
      match rest with
      | [] => settings.fail .tooFewPartsInTemplate
      | argName :: path =>
        (match field.args.get? argName with
        | some arg => pathValidator settings config (isLeaf config) path arg.typeOf.name
        | none => Valid.fail (.argumentNotFound argName)).trace argName
    else Valid.succeed ()

def validateArgument (template : Mustache) (field : Config.Field (withResolvers P B)) : Checked B Unit :=
  (Valid.fromIter (expressionSegments template) (validateExpression settings config field)).mapOk fun _ => ()

section Compile

mutual

def countDynamicPaths : ConstValue → ℕ
  | .list items => countItems items
  | .object fields => countFields fields
  | .string text => if (Mustache.parse text).isConst then 0 else 1
  | _ => 0

def countItems : List ConstValue → ℕ
  | [] => 0
  | value :: rest => countDynamicPaths value + countItems rest

def countFields : List (String × ConstValue) → ℕ
  | [] => 0
  | (_, value) :: rest => countDynamicPaths value + countFields rest

end

def toMustacheHeaders (headers : List (String × String)) : Checked B MustacheHeaders :=
  Valid.fromIter headers fun (key, value) =>
    ((match settings.headerName key with
      | .ok name => Valid.succeed name
      | .error text => settings.fail (.error text)).trace key).zip ((Valid.succeed (Mustache.parse value)).trace value)

def requestTemplate (http : ConfigHttp) (headers : MustacheHeaders) : Http.RequestTemplate where
  rootUrl := Mustache.parse http.url
  query := http.query.map fun query => ⟨query.key, Mustache.parse query.value, query.skipEmpty.getD false⟩
  method := http.method
  headers := headers
  bodyPath := http.body.map fun body => Mustache.parse (settings.json body)
  encoding := http.encoding
  queryEncoder := .repeatedKey

def checkBatching (http : ConfigHttp) (template : Http.RequestTemplate) : Checked B Http.RequestTemplate :=
  if !http.batchKey.isEmpty && (http.body.isSome || http.method != .get) then
    if http.body.any (countDynamicPaths · == 1) then Valid.succeed template
    else (settings.fail .batchRequiresDynamicParameter).trace "body"
  else Valid.succeed template

def compileTemplate (module : Module P B) (field : Config.Field (withResolvers P B)) (operationType : OperationType)
    (http : ConfigHttp) : Checked B (Http.RequestTemplate × Bool) :=
  ((((((settings.failWhen ((settings.delay module.config.upstream < 1 || settings.maxSize module.config.upstream < 1)
      && !http.batchKey.isEmpty) .incorrectBatchingUsage).and
    (settings.failWhen (operationType = .subscription && !http.batchKey.isEmpty)
      (.error "batch_key is not supported for HTTP streaming subscriptions"))).and
    ((Valid.fromIter http.query fun query =>
      validateArgument settings module.config (Mustache.parse query.value) field).trace "query")).and
    (settings.failWhen (!http.batchKey.isEmpty && (http.body.isNone && http.query.isEmpty))
      .batchKeyRequiresEitherBodyOrQuery)).zip
    (toMustacheHeaders settings http.headers)).andThen fun (_, headers) =>
      checkBatching settings http (requestTemplate settings http headers)).mapOk fun template =>
        (template, http.dedupe.getD false)

variable {R : Rest}

def templateCompiler (settings : Settings P (streamBackends B (httpRest R))) (T : Templating P B (httpRest R))
    (C : Compiler P (streamBackends B (httpRest R))) : Compiler P (streamBackends B (httpRest R)) :=
  { streamCompiler { T with httpTemplate := compileTemplate settings } C with
    validateField := fun module => validateField settings module.config }

end Compile

end Gqlforge.TemplateValidation
