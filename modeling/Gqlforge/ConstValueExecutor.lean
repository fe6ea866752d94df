import Gqlforge.AuthExecution
import Gqlforge.InputResolver
import Gqlforge.Request
import Gqlforge.Skip
import Gqlforge.Synth

namespace Gqlforge.ConstValueExecutor

open Json Document Errors Schema Plan SelectionSets EvalContext Eval Executor Request InputResolver AuthExecution

inductive GraphQLError where
  | eval (error : EvalError)
  | build (error : BuildError)
  | positioned (error : Positioned)
  | introspection (message : String)

structure Response (V : Type) where
  data : V
  errors : List GraphQLError
  extensions : List (String × V)

namespace Response

def new : Except Positioned Output → Response Output
  | .ok value => ⟨value, [], []⟩
  | .error error => ⟨.null, [.positioned error], []⟩

def failed (error : GraphQLError) : Response Output :=
  ⟨.null, [error], []⟩

def mergeEntries (entries : Object Output) (others : Object ConstValue) : Object Output :=
  others.foldl (fun entries (key, value) =>
    if (entries.getKey key).isNone then entries.insertKey key (.cloneFrom value) else entries) entries

def mergeWith (response : Response Output) (other : Response ConstValue) : Response Output where
  data := match other.data, response.data with
    | .object others, .object entries => .object (mergeEntries entries others)
    | .object others, _ => .cloneFrom (.object others)
    | _, data => data
  errors := response.errors ++ other.errors
  extensions := response.extensions ++ other.extensions.map fun (key, value) => (key, .cloneFrom value)

end Response

structure AppContext (Key σ : Type) where
  frontend : Frontend
  blueprint : Blueprint
  runtime : Runtime Key σ
  printer : Printer ConstValue
  formats : Scalar.Formats
  reqHash : String → Key
  enableIntrospection : Bool
  introspection : Request → Response ConstValue
  fuel : Nat

section

variable {Key σ : Type} [DecidableEq Key] (app : AppContext Key σ) (operation : Request)

def resolved (plan : OperationPlan Value) : Option (Except ResolveInputError (OperationPlan ConstValue)) :=
  (resolveInput app.printer app.fuel operation.vars (Skip.transform operation.vars plan)).run

def respond (isIntrospectionQuery : Bool) (plan : OperationPlan ConstValue) (store : Store) :
    Option (Response Output) :=
  let merged := fun response : Response Output =>
    if app.enableIntrospection && isIntrospectionQuery then response.mergeWith (app.introspection operation)
    else response
  match Synth.synthesize app.formats plan operation.vars store with
  | .ok data => some (merged (.new (.ok data)))
  | .error (.error error) => some (merged (.new (.error error)))
  | .error .indexOutOfBounds => none

def execute (request : RequestContext) (plan : OperationPlan Value) :
    StateM (RequestState Key σ) (Option (Response Output)) := do
  match ← (runBefore app.runtime request plan.before).run with
  | .error error => return some (.failed (.eval error))
  | .ok _ => match resolved app operation plan with
    | none => return none
    | some (.error error) => return some (.failed (.build (.resolveInputError error)))
    | some (.ok resolved) =>
      let store ← runFields app.runtime request resolved
      return respond app operation plan.isIntrospectionQuery resolved store

variable {app operation} {request : RequestContext} {plan : OperationPlan Value}

theorem execute_run (state : RequestState Key σ) :
    (execute app operation request plan).run state =
      match (runBefore app.runtime request plan.before).run.run state with
      | (.error error, state') => (some (.failed (.eval error)), state')
      | (.ok _, state') => match resolved app operation plan with
        | none => (none, state')
        | some (.error error) => (some (.failed (.build (.resolveInputError error))), state')
        | some (.ok resolved) =>
          (respond app operation plan.isIntrospectionQuery resolved ((runFields app.runtime request resolved).run state').1,
            ((runFields app.runtime request resolved).run state').2) := by
  unfold execute
  rw [StateT.run_bind]
  cases (runBefore app.runtime request plan.before).run.run state with
  | mk result state' =>
    cases result with
    | error error => rfl
    | ok value =>
      cases resolved app operation plan with
      | none => rfl
      | some result =>
        cases result with
        | error error => rfl
        | ok resolved => rfl

end

end Gqlforge.ConstValueExecutor
