import Gqlforge.Executor
import Gqlforge.RequestTemplates
import Mathlib.Algebra.Order.Group.Nat

namespace Gqlforge

open Json Resolvers Templates SelectionSets RequestTemplates

namespace EvalContext

structure Texts where
  display : ConstValue → String
  json : ConstValue → String

inductive SelectionField where
  | mk (name : String) (args : List (String × String)) (directives : Option (List (Plan.Directive ConstValue)))
      (selectionSet : List SelectionField)

def fieldArguments (texts : Texts) (field : Field ConstValue) : List (String × String) :=
  field.args.filterMap fun arg => arg.value.map fun value => (arg.name, texts.display value)

mutual

def SelectionField.fromJitField (texts : Texts) : Field ConstValue → SelectionField
  | field@{ selection := fields, .. } =>
    .mk field.outputName (fieldArguments texts field)
      (if field.directives.isEmpty then none else some field.directives) (fromJitFields texts field.typeOf.name fields)

def fromJitFields (texts : Texts) (typeName : String) : List (Field ConstValue) → List SelectionField
  | [] => []
  | field :: rest =>
    if field.typeCondition.all (· == typeName) then
      SelectionField.fromJitField texts field :: fromJitFields texts typeName rest
    else fromJitFields texts typeName rest

end

def constArgument (texts : Texts) (value : ConstValue) : Option String :=
  if value.isNull then none else some (texts.display value)

def printSelectionDirectives (texts : Texts) : Option (List (Plan.Directive ConstValue)) → String
  | some directives =>
    let text := printDirectives (constArgument texts) directives
    if text.isEmpty then "" else " " ++ escapeDefault text
  | none => ""

def formatFieldArguments (args : List (String × String)) : String :=
  if args.isEmpty then ""
  else "(" ++ escapeDefault (",".intercalate (args.map fun (name, value) => name ++ ": " ++ value)) ++ ")"

def getRelated : GraphQL.RelatedFields → String → Option (String × GraphQL.RelatedFields)
  | .mk fields, name => fields.lookup name

def bracesOf (texts : List String) : Option String :=
  if texts.isEmpty then none else some (braces texts)

mutual

def formatSelectionField (texts : Texts) (name : String) (relatedFields : GraphQL.RelatedFields) :
    SelectionField → String
  | .mk _ args directives selectionSet =>
    name ++ formatFieldArguments args ++ printSelectionDirectives texts directives ++
      ((bracesOf (formatSelectionFields texts relatedFields selectionSet)).map (" " ++ ·)).getD ""

def formatSelectionFields (texts : Texts) (relatedFields : GraphQL.RelatedFields) :
    List SelectionField → List String
  | [] => []
  | field@(.mk name _ _ _) :: rest => match getRelated relatedFields name with
    | some (name, relatedFields') =>
      formatSelectionField texts name relatedFields' field :: formatSelectionFields texts relatedFields rest
    | none => formatSelectionFields texts relatedFields rest

end

def selectionSetOf (texts : Texts) (field : Field ConstValue) (relatedFields : GraphQL.RelatedFields) :
    Option String :=
  match SelectionField.fromJitField texts field with
  | .mk _ _ _ selectionSet => bracesOf (formatSelectionFields texts relatedFields selectionSet)

def directivesOf (texts : Texts) (field : Field ConstValue) : Option String :=
  if field.directives.isEmpty then none else some (printDirectives (constArgument texts) field.directives)

inductive Verification where
  | succeed (claims : Option ConstValue)
  | fail (error : Errors.AuthError)

structure RequestContext where
  allowedHeaders : HeaderMap
  vars : List (String × String)
  env : String → Option String
  verify : Provider → Verification

structure ResolverContext where
  value : Option ConstValue
  args : Option (Object ConstValue)
  field : Option (Field ConstValue)
  isQuery : Bool

def ResolverContext.empty : ResolverContext :=
  ⟨none, none, none, false⟩

end EvalContext

structure EvalContext where
  requestCtx : EvalContext.RequestContext
  graphqlCtx : EvalContext.ResolverContext
  graphqlCtxValue : Option Json.ConstValue
  graphqlCtxArgs : Option Json.ConstValue

namespace EvalContext

def new (requestCtx : RequestContext) (graphqlCtx : ResolverContext) : EvalContext :=
  ⟨requestCtx, graphqlCtx, none, none⟩

def withValue (ctx : EvalContext) (value : ConstValue) : EvalContext :=
  { ctx with graphqlCtxValue := some value }

def withArgs (ctx : EvalContext) (args : ConstValue) : EvalContext :=
  { ctx with graphqlCtxArgs := some args }

def getPath : ConstValue → List String → Option ConstValue
  | value, [] => some value
  | .list items, token :: path => do
    let index ← Schema.Scalar.parseInt 0 (2 ^ 64 - 1) token
    let item ← items[index.toNat]?
    getPath item path
  | value, token :: path => do
    let item ← value.getKey token
    getPath item path

section

variable (texts : Texts) (ctx : EvalContext)

def pathArg (path : List String) : Option ValueString :=
  match ctx.graphqlCtxArgs, path with
  | some args, path => (getPath args path).map (.value · true)
  | none, [] => ctx.graphqlCtx.args.map fun args => .value (.object args) true
  | none, name :: path => do
    let args ← ctx.graphqlCtx.args
    let arg ← args.getKey name
    (getPath arg path).map (.value · false)

def pathValue (path : List String) : Option ValueString :=
  match ctx.graphqlCtxValue with
  | some value => (getPath value path).map (.value · true)
  | none => do
    let value ← ctx.graphqlCtx.value
    (getPath value path).map (.value · false)

def header (key : String) : Option String :=
  (ctx.requestCtx.allowedHeaders.getKey key.toLower).filter fun text =>
    text.toList.all fun c => (0x20 ≤ c.toNat && c.toNat < 0x7f) || c == '\t'

def claimAt : ConstValue → List String → Option ConstValue
  | claims, [] => some claims
  | claims, segment :: path => do
    let claim ← claims.getKey segment
    claimAt claim path

def claimText (claim : ConstValue) : String :=
  match claim with
  | .string text => text
  | claim => texts.json claim

def toRawValue (claims : Option ConstValue) : List String → Option ValueString
  | [] => none
  | ["value"] => pathValue ctx []
  | ["args"] => pathArg ctx []
  | ["vars"] =>
    some (.string (texts.json (.object (ctx.requestCtx.vars.map fun (key, value) => (key, .string value)))))
  | ["claims"] => claims.map fun claims => .string (texts.json claims)
  | "value" :: path => pathValue ctx path
  | "args" :: path => pathArg ctx path
  | ["headers"] | ["env"] => none
  | "headers" :: key :: _ => (header ctx key).map .string
  | "vars" :: key :: _ => (ctx.requestCtx.vars.lookup key).map .string
  | "env" :: key :: _ => (ctx.requestCtx.env key).map .string
  | "claims" :: path => do
    let claims ← claims
    let claim ← claimAt claims path
    return .string (claimText texts claim)
  | _ => none

def convertValue (value : ConstValue) (owned : Bool) : Option String :=
  match value with
  | .string value => some value
  | .number (.int value) => some (toString value)
  | .number (.float repr) => some repr
  | .boolean value => some (toString value)
  | .enum name => if owned then none else some name
  | .list items => some (texts.json (.list items))
  | .object fields => some (texts.json (.object fields))
  | .null => none

def toText : ValueString → Option String
  | .string text => some text
  | .value value owned => convertValue texts value owned

def toGraphql : ValueString → String
  | .string text => "\"" ++ text ++ "\""
  | .value value _ => texts.display value

def pathContext (claims : Option ConstValue) : PathContext where
  pathString path := (toRawValue texts ctx claims path).bind (toText texts)
  pathGraphql path := if path.length < 2 then none else (toRawValue texts ctx claims path).map (toGraphql texts)

def renderContext (claims : Option ConstValue) : RenderContext where
  toPathContext := pathContext texts ctx claims
  rawValue := toRawValue texts ctx claims
  headers := ctx.requestCtx.allowedHeaders
  selectionSet relatedFields := ctx.graphqlCtx.field.bind fun field => selectionSetOf texts field relatedFields
  directives := ctx.graphqlCtx.field.bind (directivesOf texts)

end

end EvalContext

end Gqlforge
