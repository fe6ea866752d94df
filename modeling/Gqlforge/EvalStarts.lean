import Gqlforge.EvalReach

namespace Gqlforge.EvalStarts

open Json Errors Resolvers EvalContext Eval

variable {Key σ : Type}

structure Evaluation (Key σ : Type) where
  way : Way
  ir : IR
  ctx : EvalContext
  state : RequestState Key σ

def entering (way : Way) (ir : IR) (state : RequestState Key σ) : RequestState Key σ :=
  { state with entered := state.entered ++ [⟨way, ir⟩] }

variable (runtime : Runtime Key σ)

def Evaluation.run [DecidableEq Key] (evaluation : Evaluation Key σ) : Except EvalError ConstValue × RequestState Key σ :=
  (eval runtime evaluation.way evaluation.ir evaluation.ctx).run.run evaluation.state

def runCheck (auth : Auth) (accessExpr : Option AccessExpr) (ctx : EvalContext) (state : RequestState Key σ) :
    Except EvalError (Option ConstValue) × RequestState Key σ :=
  (check runtime auth accessExpr ctx).run.run state

/-- The evaluations that an evaluation starts with, through checks that are passed and through steps that only
change the value. -/
inductive Starts : Evaluation Key σ → Evaluation Key σ → Prop where
  | here (evaluation : Evaluation Key σ) : Starts evaluation evaluation
  | protect {way : Way} {auth : Auth} {accessExpr : Option AccessExpr} {expr : IR} {ctx : EvalContext}
      {state state' : RequestState Key σ} {claims : Option ConstValue} {other : Evaluation Key σ} :
      runCheck runtime auth accessExpr ctx state = (.ok claims, state') →
      Starts ⟨way.pass ⟨auth, accessExpr, ctx, claims⟩, expr, ctx, state'⟩ other →
      Starts ⟨way, .protect auth accessExpr expr, ctx, state⟩ other
  | path {way : Way} {input : IR} {path : List String} {ctx : EvalContext} {state : RequestState Key σ}
      {other : Evaluation Key σ} :
      Starts ⟨way.down .below, input, ctx, entering way (.path input path) state⟩ other →
      Starts ⟨way, .path input path, ctx, state⟩ other
  | map {way : Way} {input : IR} {map : List (String × String)} {ctx : EvalContext} {state : RequestState Key σ}
      {other : Evaluation Key σ} :
      Starts ⟨way.down .below, input, ctx, entering way (.map input map) state⟩ other →
      Starts ⟨way, .map input map, ctx, state⟩ other
  | discriminate {way : Way} {discriminator : Discriminator} {expr : IR} {ctx : EvalContext}
      {state : RequestState Key σ} {other : Evaluation Key σ} :
      Starts ⟨way.down .below, expr, ctx, entering way (.discriminate discriminator expr) state⟩ other →
      Starts ⟨way, .discriminate discriminator expr, ctx, state⟩ other

section Below

variable {runtime}

theorem Starts.trans {first second third : Evaluation Key σ} (h : Starts runtime first second)
    (h' : Starts runtime second third) : Starts runtime first third := by
  induction h with
  | here => exact h'
  | protect hcheck _ ih => exact .protect hcheck (ih h')
  | path _ ih => exact .path (ih h')
  | map _ ih => exact .map (ih h')
  | discriminate _ ih => exact .discriminate (ih h')

theorem Starts.smaller {evaluation other : Evaluation Key σ} (h : Starts runtime evaluation other) :
    evaluation = other ∨ sizeOf other.ir < sizeOf evaluation.ir := by
  induction h with
  | here => exact .inl rfl
  | protect _ _ ih =>
    rcases ih with rfl | ih
    · exact .inr (by simp only [IR.protect.sizeOf_spec]; omega)
    · exact .inr (by simp only [IR.protect.sizeOf_spec] at ih ⊢; omega)
  | path _ ih =>
    rcases ih with rfl | ih
    · exact .inr (by simp only [IR.path.sizeOf_spec]; omega)
    · exact .inr (by simp only [IR.path.sizeOf_spec] at ih ⊢; omega)
  | map _ ih =>
    rcases ih with rfl | ih
    · exact .inr (by simp only [IR.map.sizeOf_spec]; omega)
    · exact .inr (by simp only [IR.map.sizeOf_spec] at ih ⊢; omega)
  | discriminate _ ih =>
    rcases ih with rfl | ih
    · exact .inr (by simp only [IR.discriminate.sizeOf_spec]; omega)
    · exact .inr (by simp only [IR.discriminate.sizeOf_spec] at ih ⊢; omega)

end Below

section Runs

variable [DecidableEq Key]

theorem run_below {way : Way} {ir input : IR} {ctx : EvalContext} {state : RequestState Key σ}
    {change : ConstValue → Except EvalError ConstValue}
    (h : eval runtime way ir ctx = (do
      enter way ir
      let value ← eval runtime (way.down .below) input ctx
      liftM (change value))) :
    Evaluation.run runtime ⟨way, ir, ctx, state⟩ =
      ((Evaluation.run runtime ⟨way.down .below, input, ctx, entering way ir state⟩).1 >>= change,
        (Evaluation.run runtime ⟨way.down .below, input, ctx, entering way ir state⟩).2) := by
  simp only [Evaluation.run, h]
  rw [ExceptT.run_bind, StateT.run_bind]
  have henter : (enter way ir : EvalM Key σ Unit).run.run state = (.ok (), entering way ir state) := rfl
  rw [henter]
  change (do
    let value ← eval runtime (way.down .below) input ctx
    liftM (change value) : EvalM Key σ ConstValue).run.run (entering way ir state) = _
  rw [ExceptT.run_bind, StateT.run_bind]
  cases (eval runtime (way.down .below) input ctx).run.run (entering way ir state) with
  | mk result state' =>
    cases result with
    | error error => rfl
    | ok value => cases change value <;> rfl

end Runs

theorem check_run (auth : Auth) (accessExpr : Option AccessExpr) (ctx : EvalContext) (state : RequestState Key σ) :
    runCheck runtime auth accessExpr ctx state =
      match AuthVerifier.verify ctx.requestCtx.verify auth with
      | .fail error => (.error (.auth error), state)
      | .succeed claims =>
        (if accessExpr.all (evaluate runtime.texts ctx (claims <|> state.authClaims)) then
          .ok (claims <|> state.authClaims) else .error (.exprEval "Access denied"),
          { state with authClaims := claims <|> state.authClaims }) := by
  have hrule (expr : AccessExpr) (state : RequestState Key σ) :
      (if evaluate runtime.texts ctx state.authClaims expr then return state.authClaims
        else throw (.exprEval "Access denied") : EvalM Key σ (Option ConstValue)).run.run state =
      (if evaluate runtime.texts ctx state.authClaims expr then .ok state.authClaims
        else .error (.exprEval "Access denied"), state) := by
    cases evaluate runtime.texts ctx state.authClaims expr <;> rfl
  unfold runCheck check
  cases AuthVerifier.verify ctx.requestCtx.verify auth with
  | fail error => rfl
  | succeed claims =>
    cases accessExpr with
    | none => cases claims <;> rfl
    | some expr =>
      cases claims with
      | none => exact hrule expr state
      | some claims => exact hrule expr { state with authClaims := some claims }

theorem check_passes_iff (auth : Auth) (accessExpr : Option AccessExpr) (ctx : EvalContext)
    (state state' : RequestState Key σ) (claims : Option ConstValue) :
    runCheck runtime auth accessExpr ctx state = (.ok claims, state') ↔
      ∃ own, AuthVerifier.verify ctx.requestCtx.verify auth = .succeed own ∧
        state' = { state with authClaims := own <|> state.authClaims } ∧ claims = state'.authClaims ∧
        accessExpr.all (evaluate runtime.texts ctx state'.authClaims) = true := by
  rw [check_run]
  cases AuthVerifier.verify ctx.requestCtx.verify auth with
  | fail error => simp
  | succeed own =>
    simp only [Verification.succeed.injEq, exists_eq_left', Prod.mk.injEq]
    constructor
    · rintro ⟨hresult, rfl⟩
      split at hresult
      next hall => exact ⟨rfl, (Except.ok.inj hresult).symm, hall⟩
      next => cases hresult
    · rintro ⟨rfl, rfl, hall⟩
      simp only at hall
      exact ⟨by rw [if_pos hall], rfl⟩

end Gqlforge.EvalStarts
