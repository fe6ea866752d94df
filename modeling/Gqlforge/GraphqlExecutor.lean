import Gqlforge.ConstValueExecutor

namespace Gqlforge.GraphqlExecutor

open Json Document Errors Plan EvalContext Eval Request ConstValueExecutor

structure Arrival where
  operation : Request
  request : RequestContext

structure AppState (Key σ : Type) where
  operationPlans : Key → Option (OperationPlan Value)
  constExecutionCache : Key → Option (Response Output)
  outside : σ

def AppState.start {Key σ : Type} (outside : σ) : AppState Key σ :=
  ⟨fun _ => none, fun _ => none, outside⟩

def requestState {Key σ : Type} (outside : σ) : RequestState Key σ :=
  ⟨none, [], outside, []⟩

section

variable {Key σ : Type} [DecidableEq Key] (app : AppContext Key σ) (arrival : Arrival)

def hashOf : Key :=
  app.reqHash arrival.operation.query

def planFor (state : AppState Key σ) : Option (Except Error (OperationPlan Value)) :=
  match state.operationPlans (hashOf app arrival) with
  | some plan => some (.ok plan)
  | none => createPlan app.frontend app.blueprint app.fuel arrival.operation

def executed (plan : OperationPlan Value) (outside : σ) : Option (Response Output) × RequestState Key σ :=
  (ConstValueExecutor.execute app arrival.operation arrival.request plan).run (requestState outside)

def insertResponse (plan : OperationPlan Value) (response : Option (Response Output))
    (cache : Key → Option (Response Output)) : Key → Option (Response Output) :=
  match response with
  | some response =>
    if plan.isConst && !plan.isProtected then Function.update cache (hashOf app arrival) (some response) else cache
  | none => cache

def execute (state : AppState Key σ) : Option (Response Output) × AppState Key σ :=
  match state.constExecutionCache (hashOf app arrival) with
  | some response => (some response, state)
  | none => match planFor app arrival state with
    | none => (none, state)
    | some (.error error) => (some (.new (.error (.new error default))), state)
    | some (.ok plan) =>
      let (response, requestState) := executed app arrival plan state.outside
      (response, {
        operationPlans := Function.update state.operationPlans (hashOf app arrival) (some plan)
        constExecutionCache := insertResponse app arrival plan response state.constExecutionCache
        outside := requestState.outside })

def serve (outside : σ) (arrivals : List Arrival) : AppState Key σ :=
  arrivals.foldl (fun state arrival => (execute app arrival state).2) (.start outside)

theorem serve_append (outside : σ) (arrivals : List Arrival) :
    serve app outside (arrivals ++ [arrival]) = (execute app arrival (serve app outside arrivals)).2 := by
  rw [serve, List.foldl_append]
  rfl

structure Caches (plans : Key → OperationPlan Value → Prop) (kept : Key → Response Output → Prop)
    (state : AppState Key σ) : Prop where
  plans : ∀ key plan, state.operationPlans key = some plan → plans key plan
  kept : ∀ key response, state.constExecutionCache key = some response → kept key response

variable {app arrival} {plans : Key → OperationPlan Value → Prop} {kept : Key → Response Output → Prop}
variable {state : AppState Key σ}

omit [DecidableEq Key] in
theorem caches_start (outside : σ) : Caches plans kept (AppState.start outside : AppState Key σ) := by
  constructor
  · intro key plan h
    exact absurd h.symm (Option.some_ne_none plan)
  · intro key response h
    exact absurd h.symm (Option.some_ne_none response)

theorem execute_hit {response : Response Output} (h : state.constExecutionCache (hashOf app arrival) = some response) :
    execute app arrival state = (some response, state) := by
  simp only [execute, h]

theorem execute_none (h : state.constExecutionCache (hashOf app arrival) = none)
    (hplan : planFor app arrival state = none) : execute app arrival state = (none, state) := by
  simp only [execute, h, hplan]

theorem execute_error {error : Error} (h : state.constExecutionCache (hashOf app arrival) = none)
    (hplan : planFor app arrival state = some (.error error)) :
    execute app arrival state = (some (.new (.error (.new error default))), state) := by
  simp only [execute, h, hplan]

theorem execute_ok {plan : OperationPlan Value} (h : state.constExecutionCache (hashOf app arrival) = none)
    (hplan : planFor app arrival state = some (.ok plan)) :
    execute app arrival state = ((executed app arrival plan state.outside).1, {
      operationPlans := Function.update state.operationPlans (hashOf app arrival) (some plan)
      constExecutionCache := insertResponse app arrival plan (executed app arrival plan state.outside).1
        state.constExecutionCache
      outside := (executed app arrival plan state.outside).2.outside }) := by
  simp only [execute, h, hplan]

theorem kept_insertResponse {plan : OperationPlan Value} {response : Option (Response Output)}
    {cache : Key → Option (Response Output)} (hcache : ∀ key value, cache key = some value → kept key value)
    (h : ∀ value, response = some value → (plan.isConst && !plan.isProtected) = true → kept (hashOf app arrival) value)
    (key : Key) (value : Response Output) (hk : insertResponse app arrival plan response cache key = some value) :
    kept key value := by
  cases response with
  | none => exact hcache key value hk
  | some made =>
    simp only [insertResponse] at hk
    split at hk
    next hstores =>
      by_cases he : key = hashOf app arrival
      · subst he
        rw [Function.update_self] at hk
        exact h value hk hstores
      · rw [Function.update_of_ne he] at hk
        exact hcache key value hk
    next => exact hcache key value hk

theorem caches_execute (h : Caches plans kept state)
    (hplan : ∀ plan, planFor app arrival state = some (.ok plan) → plans (hashOf app arrival) plan)
    (hkept : ∀ plan response, planFor app arrival state = some (.ok plan) →
      (executed app arrival plan state.outside).1 = some response → (plan.isConst && !plan.isProtected) = true →
        kept (hashOf app arrival) response) : Caches plans kept (execute app arrival state).2 := by
  cases hhit : state.constExecutionCache (hashOf app arrival) with
  | some response =>
    rw [execute_hit hhit]
    exact h
  | none =>
    cases hfound : planFor app arrival state with
    | none =>
      rw [execute_none hhit hfound]
      exact h
    | some result =>
      cases result with
      | error error =>
        rw [execute_error hhit hfound]
        exact h
      | ok plan =>
        rw [execute_ok hhit hfound]
        refine ⟨?_, kept_insertResponse h.kept fun response => hkept plan response hfound⟩
        intro key other hk
        simp only at hk
        by_cases he : key = hashOf app arrival
        · subst he
          rw [Function.update_self] at hk
          exact Option.some.inj hk ▸ hplan plan hfound
        · rw [Function.update_of_ne he] at hk
          exact h.plans key other hk

omit [DecidableEq Key] in
theorem planFor_ok {arrivals : List Arrival} {plan : OperationPlan Value}
    (h : ∀ plan, state.operationPlans (hashOf app arrival) = some plan → ∃ maker ∈ arrivals,
      hashOf app maker = hashOf app arrival ∧
        createPlan app.frontend app.blueprint app.fuel maker.operation = some (.ok plan))
    (hplan : planFor app arrival state = some (.ok plan)) : ∃ maker ∈ arrivals ++ [arrival],
      hashOf app maker = hashOf app arrival ∧
        createPlan app.frontend app.blueprint app.fuel maker.operation = some (.ok plan) := by
  unfold planFor at hplan
  cases hfound : state.operationPlans (hashOf app arrival) with
  | some found =>
    rw [hfound] at hplan
    obtain rfl := Except.ok.inj (Option.some.inj hplan)
    obtain ⟨maker, hm, hrest⟩ := h found hfound
    exact ⟨maker, List.mem_append_left _ hm, hrest⟩
  | none =>
    rw [hfound] at hplan
    exact ⟨arrival, List.mem_append_right _ List.mem_cons_self, rfl, hplan⟩

end

end Gqlforge.GraphqlExecutor
