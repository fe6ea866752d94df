import Gqlforge.NestedLists
import Gqlforge.Synth

namespace Gqlforge.ListAnswers

open Json Errors Resolvers Plan Executor NestedLists NestedLists.Nested

mutual

def nested : ConstValue → Nested ConstValue
  | .list items => .list (nestedItems items)
  | value => .item value

def nestedItems : List ConstValue → List (Nested ConstValue)
  | [] => []
  | value :: rest => nested value :: nestedItems rest

end

mutual

def flat : Nested ConstValue → ConstValue
  | .item value => value
  | .list items => .list (flatItems items)

def flatItems : List (Nested ConstValue) → List ConstValue
  | [] => []
  | first :: rest => flat first :: flatItems rest

end

theorem nestedItems_eq_map (items : List ConstValue) : nestedItems items = items.map nested := by
  induction items with
  | nil => rfl
  | cons value rest ih => rw [nestedItems, List.map_cons, ih]

theorem flatItems_eq_map (items : List (Nested ConstValue)) : flatItems items = items.map flat := by
  induction items with
  | nil => rfl
  | cons first rest ih => rw [flatItems, List.map_cons, ih]

theorem nested_item (value : ConstValue) (h : value.asArray = none) : nested value = .item value := by
  cases value with
  | list items => exact absurd h (by simp [ConstValue.asArray])
  | _ => rfl

section

variable {m : Type → Type} [Monad m] [LawfulMonad m] (mapper : ConstValue → m ConstValue)

mutual

theorem mapRef_eq (value : ConstValue) : value.mapRef mapper = flat <$> (nested value).mapM mapper := by
  match value with
  | .list items =>
    simp only [ConstValue.mapRef, nested, Nested.mapM, mapItems_eq items, map_bind, map_pure, bind_map_left, flat]
  | .null => simp [ConstValue.mapRef, nested, Nested.mapM, flat]
  | .number _ => simp [ConstValue.mapRef, nested, Nested.mapM, flat]
  | .string _ => simp [ConstValue.mapRef, nested, Nested.mapM, flat]
  | .boolean _ => simp [ConstValue.mapRef, nested, Nested.mapM, flat]
  | .enum _ => simp [ConstValue.mapRef, nested, Nested.mapM, flat]
  | .object _ => simp [ConstValue.mapRef, nested, Nested.mapM, flat]

theorem mapItems_eq (items : List ConstValue) :
    ConstValue.mapItems mapper items = flatItems <$> Nested.mapItems mapper (nestedItems items) := by
  match items with
  | [] => simp [ConstValue.mapItems, nestedItems, Nested.mapItems, flatItems]
  | value :: rest =>
    simp only [ConstValue.mapItems, nestedItems, Nested.mapItems, mapRef_eq value, mapItems_eq rest, map_bind,
      map_pure, bind_map_left, flatItems]

end

end

section

variable {σ : Type} (f : σ → ConstValue → σ)

mutual

theorem forEach_eq (acc : σ) (value : ConstValue) : value.forEach f acc = (nested value).leaves.foldl f acc := by
  match value with
  | .list items => rw [ConstValue.forEach, nested, leaves, forItems_eq acc items]
  | .null => rfl
  | .number _ => rfl
  | .string _ => rfl
  | .boolean _ => rfl
  | .enum _ => rfl
  | .object _ => rfl

theorem forItems_eq (acc : σ) (items : List ConstValue) :
    ConstValue.forItems f acc items = (leavesAll (nestedItems items)).foldl f acc := by
  match items with
  | [] => rfl
  | value :: rest =>
    rw [ConstValue.forItems, forEach_eq acc value, forItems_eq _ rest, nestedItems, leavesAll, List.foldl_append]

end

end

theorem collectItems_eq (plan : OperationPlan ConstValue) (field : Field ConstValue) (value : ConstValue) :
    collectItems plan field value = (nested value).leaves.filter (plan.fieldIsPartOfValue field) := by
  have hfold (items acc : List ConstValue) : items.foldl (fun acc item =>
      if plan.fieldIsPartOfValue field item then acc ++ [item] else acc) acc =
        acc ++ items.filter (plan.fieldIsPartOfValue field) := by
    induction items generalizing acc with
    | nil => simp
    | cons item rest ih =>
      rw [List.foldl_cons, ih, List.filter_cons]
      by_cases hp : plan.fieldIsPartOfValue field item = true
      · rw [if_pos hp, if_pos hp, List.append_assoc, List.singleton_append]
      · rw [if_neg hp, if_neg hp]
  rw [collectItems, forEach_eq, hfold, List.nil_append]

theorem takeResult_eq (plan : OperationPlan ConstValue) (field : Field ConstValue) :
    takeResult plan field = takeNext (plan.fieldIsPartOfValue field) id ConstValue.null
      (.ir (.io "Expected value to be present")) := by
  funext item results
  unfold takeResult takeNext
  by_cases hp : plan.fieldIsPartOfValue field item = true
  · rw [if_pos hp, if_pos hp]
    cases results <;> rfl
  · rw [if_neg hp, if_neg hp]

section

variable {σ : Type} (plan : OperationPlan ConstValue)
variable (eval : IR → Context → StateM σ (Except EvalError ConstValue))

def answerItems (ir : IR) (ctx : Context) (value : ConstValue) : StateM σ (Except Error ConstValue) := do
  let results ← (nested value).mapM (answer (plan.fieldIsPartOfValue ctx.field) fun item =>
    call eval ir (ctx.withValue item))
  return (results.mapM (settle id ConstValue.null)).map flat

theorem constValueExec_list (ir : IR) (ctx : Context) (items : List ConstValue) (hv : ctx.value = some (.list items)) :
    constValueExec plan eval ir ctx = answerItems plan eval ir ctx (.list items) := by
  have hmap (results : List (Except Error ConstValue)) :
      (((ConstValue.list items).mapRef (takeResult plan ctx.field)).run results).map Prod.fst =
        ((((nested (.list items)).mapM (takeNext (plan.fieldIsPartOfValue ctx.field) id ConstValue.null
          (.ir (.io "Expected value to be present")))).run results).map Prod.fst).map flat := by
    rw [mapRef_eq, takeResult_eq, StateT.run_map]
    cases ((nested (.list items)).mapM (takeNext (plan.fieldIsPartOfValue ctx.field) id ConstValue.null
      (Error.ir (EvalError.io "Expected value to be present")))).run results <;> rfl
  have hrefill := @collect_refill _ _ _ _ (plan.fieldIsPartOfValue ctx.field) id ConstValue.null
    (Error.ir (EvalError.io "Expected value to be present")) _ (fun item => call eval ir (ctx.withValue item)) (nested (.list items))
  simp only [constValueExec, hv, hmap, collectItems_eq, answerItems]
  calc (do
        let results ← ((nested (.list items)).leaves.filter (plan.fieldIsPartOfValue ctx.field)).mapM fun item =>
          call eval ir (ctx.withValue item)
        return ((((nested (.list items)).mapM (takeNext (plan.fieldIsPartOfValue ctx.field) id ConstValue.null
          (.ir (.io "Expected value to be present")))).run results).map Prod.fst).map flat : StateM σ _)
      = Except.map flat <$> (do
        let results ← ((nested (.list items)).leaves.filter (plan.fieldIsPartOfValue ctx.field)).mapM fun item =>
          call eval ir (ctx.withValue item)
        return (((nested (.list items)).mapM (takeNext (plan.fieldIsPartOfValue ctx.field) id ConstValue.null
          (.ir (.io "Expected value to be present")))).run results).map Prod.fst : StateM σ _) := by
        rw [map_bind]
        rfl
    _ = _ := by
        rw [hrefill, map_bind]
        rfl

end

end Gqlforge.ListAnswers
