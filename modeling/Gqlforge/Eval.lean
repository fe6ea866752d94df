import Gqlforge.AuthVerifier
import Gqlforge.IoKeys

namespace Gqlforge.Eval

open Json Errors Resolvers Templates RequestTemplates EvalContext

mutual

def jsonEq : ConstValue → ConstValue → Bool
  | .list items, .list items' => jsonEqItems items items'
  | .object fields, .object fields' => fields.length == fields'.length && jsonEqFields fields fields'
  | value, value' => value == value'

def jsonEqItems : List ConstValue → List ConstValue → Bool
  | [], [] => true
  | value :: rest, value' :: rest' => jsonEq value value' && jsonEqItems rest rest'
  | _, _ => false

def jsonEqFields : List (String × ConstValue) → Object ConstValue → Bool
  | [], _ => true
  | (key, value) :: rest, fields => (fields.getKey key).any (jsonEq value ·) && jsonEqFields rest fields

end

def sameOperand : Option ConstValue → Option ConstValue → Bool
  | some value, some value' => jsonEq value value'
  | none, none => true
  | _, _ => false

section

variable (texts : Texts) (ctx : EvalContext) (claims : Option ConstValue)

def resolveOperand : Operand → Option ConstValue
  | .path ("claims" :: segment :: path) => claims.bind (claimAt · (segment :: path))
  | .path segments => ((pathContext texts ctx claims).pathString segments).map .string
  | .stringLiteral value => some (.string value)
  | .numberLiteral value => some (.number (.int value))
  | .boolLiteral value => some (.boolean value)

def evaluate : AccessExpr → Bool
  | .and left right => evaluate left && evaluate right
  | .or left right => evaluate left || evaluate right
  | .not expr => !evaluate expr
  | .eq left right => sameOperand (resolveOperand texts ctx claims left) (resolveOperand texts ctx claims right)
  | .neq left right => !sameOperand (resolveOperand texts ctx claims left) (resolveOperand texts ctx claims right)

variable {texts ctx claims}

theorem evaluate_congr {other : EvalContext} (h : pathContext texts ctx claims = pathContext texts other claims)
    (expr : AccessExpr) : evaluate texts ctx claims expr = evaluate texts other claims expr := by
  have hoperand (operand : Operand) :
      resolveOperand texts ctx claims operand = resolveOperand texts other claims operand := by
    unfold resolveOperand
    rw [h]
  induction expr with
  | and left right ihl ihr => rw [evaluate, evaluate, ihl, ihr]
  | or left right ihl ihr => rw [evaluate, evaluate, ihl, ihr]
  | not expr ih => rw [evaluate, evaluate, ih]
  | eq left right => rw [evaluate, evaluate, hoperand, hoperand]
  | neq left right => rw [evaluate, evaluate, hoperand, hoperand]

end

section

variable (wire : Wire) (ctx : PathContext)

mutual

def renderValue : DynamicValue → ConstValue
  | .const value => value
  | .mustache template =>
    let rendered := template.render ctx
    (wire.parseJson rendered).getD (.string rendered)
  | .object fields => .object (renderFields fields)
  | .array items => .list (renderItems items)

def renderFields : List (String × DynamicValue) → Object ConstValue
  | [] => []
  | (key, value) :: rest => (key, renderValue value) :: renderFields rest

def renderItems : List DynamicValue → List ConstValue
  | [] => []
  | value :: rest => renderValue value :: renderItems rest

end

end

def typenameField : String := "__typename"

def setTypeName (typeName : String) : ConstValue → Except String ConstValue
  | .null => .ok .null
  | .object fields => .ok (.object (Object.insertKey fields typenameField (.string typeName)))
  | _ => .error "Cannot discriminate the type of a non object type."

def typesText (types : List String) : String :=
  "[" ++ ", ".intercalate (types.map fun name => "\"" ++ name ++ "\"") ++ "]"

def resolveKeyed (types : List String) (typeName : String) (fields : Object ConstValue) : Except String ConstValue :=
  let discriminator := "KeyedDiscriminator(type=\"" ++ typeName ++ "\")"
  match fields with
  | [(name, value)] =>
    if types.contains name then setTypeName name value
    else .error ("The type `" ++ name ++ "` is not in the list of acceptable types " ++ typesText types ++ " of " ++
      discriminator)
  | [] => .error ("The " ++ discriminator ++ " cannot discriminate the Value because it contains no keys.")
  | _ => .error ("The " ++ discriminator ++ " cannot discriminate the Value because it contains more than one keys.")

def resolveTypeField (typenameField : String) (types : List String) (typeName : String) (fields : Object ConstValue) :
    Except String ConstValue :=
  let discriminator := "TypeFieldDiscriminator(type=\"" ++ typeName ++ "\")"
  match fields.getKey typenameField with
  | none => .error ("The " ++ discriminator ++
      " cannot discriminate the Value because it does not contain the type name field `" ++ typenameField ++ "`")
  | some (.string name) =>
    if types.contains name then setTypeName name (.object fields)
    else .error ("The type `" ++ name ++ "` is not in the list of acceptable types " ++ typesText types ++ " of " ++
      discriminator)
  | some _ => .error ("The " ++ discriminator ++ " requires `" ++ typenameField ++
      "` of type string, but received a different type.")

mutual

def resolveType (discriminator : Discriminator) : ConstValue → Except String ConstValue
  | .null => .ok .null
  | .list items => (resolveTypes discriminator items).map .list
  | .object fields =>
    if ((ConstValue.object fields).getTypeName).isSome then .ok (.object fields)
    else match discriminator with
      | .keyed types typeName => resolveKeyed types typeName fields
      | .typeField typenameField types typeName => resolveTypeField typenameField types typeName fields
  | _ => .error "Discriminator can only determine the types of arrays or objects but a different type."

def resolveTypes (discriminator : Discriminator) : List ConstValue → Except String (List ConstValue)
  | [] => .ok []
  | value :: rest => do
    let value ← resolveType discriminator value
    let rest ← resolveTypes discriminator rest
    return value :: rest

end

mutual

def mergeRight : ConstValue → ConstValue → ConstValue
  | .list items, .list items' => .list (items ++ items')
  | .list items, other => .list (items ++ [other])
  | .object fields, .object fields' =>
    -- an entry keeps its place, the entries only the right object has come last
    .object (mergeEntries fields fields' ++ fields'.filter fun entry => (fields.lookup entry.1).isNone)
  | _, other => other

def mergeEntries : List (String × ConstValue) → Object ConstValue → List (String × ConstValue)
  | [], _ => []
  | (key, value) :: rest, fields =>
    (key, match fields.getKey key with
      | some value' => mergeRight value value'
      | none => value) :: mergeEntries rest fields

end

mutual

def mapEnum (map : List (String × String)) : ConstValue → Except EvalError ConstValue
  | .null => .ok .null
  | .string key => match map.lookup key with
    | some value => .ok (.string value)
    | none => .error (.exprEval ("Can't find mapped key: " ++ key ++ "."))
  | .list items => (mapEnums map items).map .list
  | _ => .error (.exprEval "Mapped key must be either string or array value.")

def mapEnums (map : List (String × String)) : List ConstValue → Except EvalError (List ConstValue)
  | [] => .ok []
  | value :: rest => do
    let value ← mapEnum map value
    let rest ← mapEnums map rest
    return value :: rest

end

inductive Step where
  | below
  | first
  | second
  | item (index : Nat)
  | entry (index : Nat)

def Step.isItem : Step → Bool
  | .item _ => true
  | _ => false

structure Passed where
  auth : Auth
  accessExpr : Option AccessExpr
  ctx : EvalContext
  claims : Option ConstValue

structure Way where
  position : List Step
  passed : List Passed

def Way.start : Way :=
  ⟨[], []⟩

def Way.down (way : Way) (step : Step) : Way :=
  { way with position := way.position ++ [step] }

def Way.pass (way : Way) (passed : Passed) : Way :=
  { way with passed := way.passed ++ [passed] }

structure Entered where
  way : Way
  ir : IR

structure RequestState (Key σ : Type) where
  authClaims : Option ConstValue
  cache : List (Key × Except EvalError ConstValue)
  outside : σ
  entered : List Entered

structure Runtime (Key σ : Type) where
  texts : Texts
  wire : Wire
  hash : List HashItem → Key
  backendKey : Backend → String → RenderContext → Option Key
  cacheGet : Key → StateM σ (Except EvalError (Option ConstValue))
  cacheSet : Key → ConstValue → NonZeroU64 → StateM σ (Except EvalError Unit)
  evalIoInner : Io → RenderContext → Option ConstValue → StateM σ (Except EvalError ConstValue)

abbrev EvalM (Key σ : Type) := ExceptT EvalError (StateM (RequestState Key σ))

section

variable {Key σ : Type}

def outside {α : Type} (run : StateM σ (Except EvalError α)) : EvalM Key σ α :=
  ExceptT.mk fun state =>
    let (result, outside) := run state.outside
    (result, { state with outside := outside })

def authClaims : EvalM Key σ (Option ConstValue) :=
  ExceptT.mk fun state => (.ok state.authClaims, state)

def setAuthClaims (claims : ConstValue) : EvalM Key σ Unit :=
  ExceptT.mk fun state => (.ok (), { state with authClaims := some claims })

def enter (way : Way) (ir : IR) : EvalM Key σ Unit :=
  ExceptT.mk fun state => (.ok (), { state with entered := state.entered ++ [⟨way, ir⟩] })

variable [DecidableEq Key] (runtime : Runtime Key σ)

def cacheKey (io : Io) (ctx : EvalContext) (claims : Option ConstValue) : Option Key :=
  match io with
  | .backend backend reqTemplate _ =>
    runtime.backendKey backend reqTemplate (renderContext runtime.texts ctx claims)
  | io => (IoKeys.cacheKey runtime.wire (renderContext runtime.texts ctx claims) io).map runtime.hash

def evalIoInner (io : Io) (ctx : EvalContext) : EvalM Key σ ConstValue := do
  let claims ← authClaims
  outside (runtime.evalIoInner io (renderContext runtime.texts ctx claims) ctx.graphqlCtx.value)

def dedupe (key : Key) (run : EvalM Key σ ConstValue) : EvalM Key σ ConstValue :=
  ExceptT.mk fun state => match state.cache.lookup key with
    | some result => (result, state)
    | none =>
      let (result, state') := run.run state
      (result, { state' with cache := (key, result) :: state'.cache })

def evalIo (io : Io) (ctx : EvalContext) : EvalM Key σ ConstValue := do
  if !io.dedupe || !ctx.graphqlCtx.isQuery then evalIoInner runtime io ctx
  else
    let claims ← authClaims
    match cacheKey runtime io ctx claims with
    | some key => dedupe key (evalIoInner runtime io ctx)
    | none => evalIoInner runtime io ctx

def evalCache (cache : Cache) (ctx : EvalContext) : EvalM Key σ ConstValue := do
  let claims ← authClaims
  match cacheKey runtime cache.io ctx claims with
  | some key => match ← outside (runtime.cacheGet key) with
    | some value => return value
    | none =>
      let value ← evalIo runtime cache.io ctx
      outside (runtime.cacheSet key value cache.maxAge)
      return value
  | none => evalIo runtime cache.io ctx

def check (auth : Auth) (accessExpr : Option AccessExpr) (ctx : EvalContext) : EvalM Key σ (Option ConstValue) := do
  match AuthVerifier.verify ctx.requestCtx.verify auth with
  | .fail error => throw (.auth error)
  | .succeed none => pure ()
  | .succeed (some claims) => setAuthClaims claims
  let claims ← authClaims
  match accessExpr with
  | some expr => if evaluate runtime.texts ctx claims expr then return claims else throw (.exprEval "Access denied")
  | none => return claims

def joinAll {α : Type} (tasks : List (EvalM Key σ α)) : EvalM Key σ (List α) :=
  ExceptT.mk do
    let results ← tasks.mapM (·.run)
    return results.mapM id

def representationsOf (ctx : EvalContext) : Option (List ConstValue) :=
  match pathArg ctx ["representations"] with
  | some (.value value _) => value.asArray
  | _ => none

def typeNameOf (map : List (String × IR)) (repr : ConstValue) : Except EvalError String :=
  match repr.getTypeName with
  | none => .error (.entity "expected __typename to be the part of the representation")
  | some typeName =>
    if (map.lookup typeName).isSome then .ok typeName
    else .error (.entity ("Cannot find a resolver for type: `" ++ typeName ++ "`"))

def typedRepresentations (map : List (String × IR)) (ctx : EvalContext) :
    Except EvalError (List (String × ConstValue)) :=
  match representationsOf ctx with
  | none => .error (.entity "expected `representations` arg as an array of _Any")
  | some representations => representations.mapM fun repr => (typeNameOf map repr).map fun typeName => (typeName, repr)

mutual

def eval (way : Way) : IR → EvalContext → EvalM Key σ ConstValue
  | .protect auth accessExpr expr, ctx => do
    let claims ← check runtime auth accessExpr ctx
    eval (way.pass ⟨auth, accessExpr, ctx, claims⟩) expr ctx
  | .contextPath path, ctx => do
    enter way (.contextPath path)
    match pathValue ctx path with
    | some (.value value _) => return value
    | _ => return .null
  | .path input path, ctx => do
    enter way (.path input path)
    let value ← eval (way.down .below) input ctx
    return (getPath value path).getD .null
  | .dynamic value, ctx => do
    enter way (.dynamic value)
    let claims ← authClaims
    return renderValue runtime.wire (pathContext runtime.texts ctx claims) value
  | .io io, ctx => do
    enter way (.io io)
    evalIo runtime io ctx
  | .cache cache, ctx => do
    enter way (.cache cache)
    evalCache runtime cache ctx
  | .map input map, ctx => do
    enter way (.map input map)
    let value ← eval (way.down .below) input ctx
    liftM (mapEnum map value)
  | .pipe first second, ctx => do
    enter way (.pipe first second)
    let args ← eval (way.down .first) first ctx
    eval (way.down .second) second (ctx.withArgs args)
  | .merge irs, ctx => do
    enter way (.merge irs)
    let results ← joinAll (evalAll way 0 irs ctx)
    match results with
    | [] => return .null
    | first :: rest => return rest.foldl mergeRight first
  | .discriminate discriminator expr, ctx => do
    enter way (.discriminate discriminator expr)
    let value ← eval (way.down .below) expr ctx
    liftM ((resolveType discriminator value).mapError EvalError.io)
  | .entity map, ctx => do
    enter way (.entity map)
    let representations ← liftM (typedRepresentations map ctx)
    let entities ← joinAll (representations.map fun (typeName, repr) => do
      let value ← evalEntry way 0 typeName map (ctx.withValue repr)
      liftM ((setTypeName typeName value).mapError EvalError.io))
    return .list entities
  | .service sdl, _ => do
    enter way (.service sdl)
    return .object [("sdl", .string sdl)]

def evalAll (way : Way) (index : Nat) : List IR → EvalContext → List (EvalM Key σ ConstValue)
  | [], _ => []
  | ir :: rest, ctx => eval (way.down (.item index)) ir ctx :: evalAll way (index + 1) rest ctx

def evalEntry (way : Way) (index : Nat) (typeName : String) : List (String × IR) → EvalContext → EvalM Key σ ConstValue
  | [], _ => throw (.entity ("Cannot find a resolver for type: `" ++ typeName ++ "`"))
  | (name, ir) :: rest, ctx =>
    if typeName == name then eval (way.down (.entry index)) ir ctx
    else evalEntry way (index + 1) typeName rest ctx

end

end

end Gqlforge.Eval
