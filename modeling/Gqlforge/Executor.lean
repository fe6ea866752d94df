import Gqlforge.Errors
import Gqlforge.Plan

namespace Gqlforge.Executor

open Json Errors Resolvers Plan

abbrev Store := List (Nat × Except Positioned ConstValue)

def Store.get (store : Store) (id : Nat) : Option (Except Positioned ConstValue) :=
  store.lookup id

def Store.set (store : Store) (id : Nat) (result : Except Positioned ConstValue) : Store :=
  (id, result) :: store

structure Context where
  value : Option ConstValue
  args : Object ConstValue
  field : Field ConstValue

def buildArgs (field : Field ConstValue) : Object ConstValue :=
  field.args.foldl (fun args arg => match arg.value with
    | some value => args.insertKey arg.name value
    | none => args) []

def Context.new (field : Field ConstValue) : Context :=
  ⟨none, buildArgs field, field⟩

def Context.withValue (ctx : Context) (value : ConstValue) : Context :=
  ⟨some value, buildArgs ctx.field, ctx.field⟩

def Context.withValueAndField (value : ConstValue) (field : Field ConstValue) : Context :=
  ⟨some value, buildArgs field, field⟩

section

variable {m : Type → Type} [Monad m] (irExec : IR → Context → m (Except Error ConstValue))

def entryOf (outputName : String) : Option ConstValue → ConstValue
  | some value => Id.run (value.mapRef fun value => pure ((value.getKey outputName).getD .null))
  | none => .null

mutual

def execute (value : Option ConstValue) : Field ConstValue → StateT Store m Unit
  | field@{ ir := some ir, selection := fields, .. } => do
    let result ← irExec ir ⟨value, buildArgs field, field⟩
    match result with
    | .ok value => iterField value fields
    | .error _ => pure ()
    modify (·.set field.id (result.mapError (Positioned.new · field.pos)))
  | { ir := none, outputName, selection := fields, .. } =>
    iterField (entryOf outputName value) fields

def iterField (value : ConstValue) : List (Field ConstValue) → StateT Store m Unit
  | [] => pure ()
  | field :: rest => do
    execute (some value) field
    iterField value rest

end

def init (plan : OperationPlan ConstValue) : StateT Store m Unit :=
  plan.selection.forM (execute irExec none)

def store (plan : OperationPlan ConstValue) : m Store := do
  let (_, store) ← (init irExec plan).run []
  return store

end

section

variable {m : Type → Type} [Monad m]
variable (plan : OperationPlan ConstValue) (eval : IR → Context → m (Except EvalError ConstValue))

def call (ir : IR) (ctx : Context) : m (Except Error ConstValue) :=
  match ctx.value with
  | some .null => return .ok .null
  | _ => do
    let result ← eval ir ctx
    return result.mapError .ir

def collectItems (field : Field ConstValue) (value : ConstValue) : List ConstValue :=
  value.forEach (fun items item => if plan.fieldIsPartOfValue field item then items ++ [item] else items) []

def takeResult (field : Field ConstValue) (item : ConstValue) :
    StateT (List (Except Error ConstValue)) (Except Error) ConstValue :=
  if plan.fieldIsPartOfValue field item then do
    match ← get with
    | result :: rest =>
      set rest
      StateT.lift result
    | [] => throw (.ir (.io "Expected value to be present"))
  else return .null

def constValueExec (ir : IR) (ctx : Context) : m (Except Error ConstValue) :=
  match ctx.value with
  | some (.list items) => do
    let results ← (collectItems plan ctx.field (.list items)).mapM fun item =>
      call eval ir (ctx.withValue item)
    return (((ConstValue.list items).mapRef (takeResult plan ctx.field)).run results).map Prod.fst
  | _ => call eval ir ctx

end

end Gqlforge.Executor
