import Gqlforge.PlannedAuth

namespace Gqlforge.PlannedEval

open Json Errors Resolvers EvalContext Eval StateRules PlannedAuth

def withField (ctx : EvalContext) (field : Option (Field ConstValue)) : EvalContext :=
  { ctx with graphqlCtx := { ctx.graphqlCtx with field := field } }

structure SameField (texts : Texts) (field field' : Option (Field ConstValue)) : Prop where
  selectionSet : ∀ relatedFields, (field'.bind fun field => selectionSetOf texts field relatedFields) =
    field.bind fun field => selectionSetOf texts field relatedFields
  directives : field'.bind (directivesOf texts) = field.bind (directivesOf texts)

section

variable {texts : Texts} {ctx : EvalContext} {field : Option (Field ConstValue)}

theorem renderContext_withField (h : SameField texts ctx.graphqlCtx.field field) (claims : Option ConstValue) :
    renderContext texts (withField ctx field) claims = renderContext texts ctx claims := by
  have hselection : (fun relatedFields => (withField ctx field).graphqlCtx.field.bind fun field =>
      selectionSetOf texts field relatedFields) =
      fun relatedFields => ctx.graphqlCtx.field.bind fun field => selectionSetOf texts field relatedFields :=
    funext h.selectionSet
  have hdirectives : (withField ctx field).graphqlCtx.field.bind (directivesOf texts) =
      ctx.graphqlCtx.field.bind (directivesOf texts) := h.directives
  unfold renderContext
  rw [hselection, hdirectives]
  rfl

theorem evaluate_withField (claims : Option ConstValue) (expr : AccessExpr) :
    evaluate texts (withField ctx field) claims expr = evaluate texts ctx claims expr := by
  apply evaluate_congr
  rfl

end

section

variable {Key σ : Type} (removed : Auth → Prop) (verify : Auth → Verification)

def Settled (state : RequestState Key σ) : Prop :=
  ∀ auth claims, removed auth → verify auth = .succeed (some claims) → state.authClaims = some claims

structure Same (state state' : RequestState Key σ) : Prop where
  authClaims : state'.authClaims = state.authClaims
  cache : state'.cache = state.cache
  outside : state'.outside = state.outside
  settled : Settled removed verify state

abbrev SameRuns {α : Type} (run run' : EvalM Key σ α) : Prop :=
  Agree (Same removed verify) run.run run'.run

variable {removed verify}

variable {α : Type}

theorem same_pure (value : α) : SameRuns removed verify (pure value : EvalM Key σ α) (pure value) :=
  agree_pure

theorem same_throw (error : EvalError) : SameRuns removed verify (throw error : EvalM Key σ α) (throw error) :=
  agree_pure

theorem same_lift (result : Except EvalError α) :
    SameRuns removed verify (liftM result : EvalM Key σ α) (liftM result) :=
  agree_pure

theorem same_outside (run : StateM σ (Except EvalError α)) :
    SameRuns removed verify (outside run : EvalM Key σ α) (outside run) := by
  intro state state' h
  obtain ⟨hclaims, hcache, houtside, hsettled⟩ := h
  have hvalue : (run state.outside).1 = (run state'.outside).1 := by rw [houtside]
  have hstate : (run state'.outside).2 = (run state.outside).2 := by rw [houtside]
  exact ⟨hvalue, hclaims, hcache, hstate, hsettled⟩

theorem same_authClaims : SameRuns removed verify (authClaims : EvalM Key σ (Option ConstValue)) authClaims := by
  intro state state' h
  exact ⟨congrArg Except.ok h.authClaims.symm, h⟩

theorem same_enter (way way' : Way) (ir ir' : IR) :
    SameRuns removed verify (enter way ir : EvalM Key σ Unit) (enter way' ir') := by
  intro state state' h
  exact ⟨rfl, h.authClaims, h.cache, h.outside, h.settled⟩

theorem same_setAuthClaims {auth : Auth} {claims : ConstValue}
    (hone : ∀ auth auth' claims claims', verify auth = .succeed claims → verify auth' = .succeed claims' →
      claims = claims') (hverify : verify auth = .succeed (some claims)) :
    SameRuns removed verify (setAuthClaims claims : EvalM Key σ Unit) (setAuthClaims claims) := by
  intro state state' h
  refine ⟨rfl, rfl, h.cache, h.outside, ?_⟩
  intro auth' claims' hremoved hverify'
  exact hone auth auth' _ _ hverify hverify'

theorem same_joinAll {tasks tasks' : List (EvalM Key σ α)} (h : List.Forall₂ (SameRuns removed verify) tasks tasks') :
    SameRuns removed verify (joinAll tasks) (joinAll tasks') := by
  refine agree_bind (agree_mapM (h.imp fun _ _ hrun => hrun)) fun results => ?_
  exact agree_pure

variable [DecidableEq Key] {runtime : Runtime Key σ} {field : Option (Field ConstValue)}

omit [DecidableEq Key] in
variable (removed verify) in
theorem same_evalIoInner (io : Io) (ctx : EvalContext) (hfield : SameField runtime.texts ctx.graphqlCtx.field field) :
    SameRuns removed verify (Eval.evalIoInner runtime io ctx) (Eval.evalIoInner runtime io (withField ctx field)) := by
  refine agree_except same_authClaims fun claims => ?_
  rw [renderContext_withField hfield]
  exact same_outside _

theorem same_dedupe (key : Key) {run run' : EvalM Key σ ConstValue} (h : SameRuns removed verify run run') :
    SameRuns removed verify (dedupe key run) (dedupe key run') := by
  intro state state' hs
  have hcache := hs.cache
  cases hlookup : state.cache.lookup key with
  | some result =>
    have hlookup' : state'.cache.lookup key = some result := by rw [hcache, hlookup]
    have hrun {other : RequestState Key σ} (h : other.cache.lookup key = some result) (run : EvalM Key σ ConstValue) :
        (dedupe key run).run.run other = (result, other) := by
      unfold dedupe
      simp [StateT.run, h]
    rw [hrun hlookup, hrun hlookup']
    exact ⟨rfl, hs⟩
  | none =>
    have hlookup' : state'.cache.lookup key = none := by rw [hcache, hlookup]
    have hrun {other : RequestState Key σ} (h : other.cache.lookup key = none) (run : EvalM Key σ ConstValue) :
        (dedupe key run).run.run other = ((run.run.run other).1,
          { (run.run.run other).2 with cache := (key, (run.run.run other).1) :: (run.run.run other).2.cache }) := by
      unfold dedupe
      simp only [ExceptT.run_mk, StateT.run, h]
      rfl
    obtain ⟨hvalue, hclaims, hcache', houtside, hsettled⟩ := h state state' hs
    rw [hrun hlookup, hrun hlookup', hvalue]
    exact ⟨rfl, hclaims, by rw [hcache'], houtside, hsettled⟩

omit [DecidableEq Key] in
theorem cacheKey_withField (io : Io) (ctx : EvalContext) (hfield : SameField runtime.texts ctx.graphqlCtx.field field)
    (claims : Option ConstValue) : cacheKey runtime io (withField ctx field) claims = cacheKey runtime io ctx claims := by
  cases io <;> simp only [cacheKey, renderContext_withField hfield]

theorem same_evalIo (io : Io) (ctx : EvalContext) (hfield : SameField runtime.texts ctx.graphqlCtx.field field) :
    SameRuns removed verify (evalIo runtime io ctx) (evalIo runtime io (withField ctx field)) := by
  have hinner := same_evalIoInner removed verify io ctx hfield
  have hquery : (withField ctx field).graphqlCtx.isQuery = ctx.graphqlCtx.isQuery := rfl
  unfold evalIo
  rw [hquery]
  split
  · exact hinner
  · refine agree_except same_authClaims fun claims => ?_
    rw [cacheKey_withField io ctx hfield]
    split
    · exact same_dedupe _ hinner
    · exact hinner

theorem same_evalCache (cache : Cache) (ctx : EvalContext) (hfield : SameField runtime.texts ctx.graphqlCtx.field field) :
    SameRuns removed verify (evalCache runtime cache ctx) (evalCache runtime cache (withField ctx field)) := by
  refine agree_except same_authClaims fun claims => ?_
  rw [cacheKey_withField cache.io ctx hfield]
  split
  · refine agree_except (same_outside _) fun cached => ?_
    split
    · exact same_pure _
    · refine agree_except (same_evalIo cache.io ctx hfield) fun value => ?_
      exact agree_except (same_outside _) fun _ => same_pure _
  · exact same_evalIo cache.io ctx hfield

omit [DecidableEq Key] in
theorem same_access (accessExpr : Option AccessExpr) (ctx : EvalContext) : SameRuns removed verify
    (do
      let claims ← authClaims
      match accessExpr with
      | some expr =>
        if evaluate runtime.texts ctx claims expr then return claims else throw (.exprEval "Access denied")
      | none => return claims : EvalM Key σ (Option ConstValue))
    (do
      let claims ← authClaims
      match accessExpr with
      | some expr =>
        if evaluate runtime.texts (withField ctx field) claims expr then return claims
        else throw (.exprEval "Access denied")
      | none => return claims) := by
  refine agree_except same_authClaims fun claims => ?_
  cases accessExpr with
  | none => exact same_pure _
  | some expr =>
    simp only [evaluate_withField]
    split
    · exact same_pure _
    · exact same_throw _

omit [DecidableEq Key] in
theorem same_check (auth : Auth) (accessExpr : Option AccessExpr) (ctx : EvalContext)
    (hverify : ∀ auth, AuthVerifier.verify ctx.requestCtx.verify auth = verify auth)
    (hone : ∀ auth auth' claims claims', verify auth = .succeed claims → verify auth' = .succeed claims' →
      claims = claims') :
    SameRuns removed verify (check runtime auth accessExpr ctx)
      (check runtime auth accessExpr (withField ctx field)) := by
  have hcontext : (withField ctx field).requestCtx = ctx.requestCtx := rfl
  unfold check
  rw [hcontext, hverify auth]
  cases hv : verify auth with
  | fail error => exact same_throw _
  | succeed claims =>
    cases claims with
    | none => exact same_access accessExpr ctx
    | some claims => exact agree_except (same_setAuthClaims hone hv) fun _ => same_access accessExpr ctx

end

section

variable {Key σ : Type} [DecidableEq Key] (runtime : Runtime Key σ) (request : RequestContext) (removed : Auth → Prop)

def OneClaims : Prop :=
  ∀ auth auth' claims claims', AuthVerifier.verify request.verify auth = .succeed claims →
    AuthVerifier.verify request.verify auth' = .succeed claims' → claims = claims'

def Verified (auth : Auth) : Prop :=
  ∃ claims, AuthVerifier.verify request.verify auth = .succeed claims

abbrev EvalSame (ir ir' : IR) : Prop :=
  ∀ way way' ctx field, ctx.requestCtx = request → SameField runtime.texts ctx.graphqlCtx.field field →
    SameRuns removed (AuthVerifier.verify request.verify) (eval runtime way ir ctx)
      (eval runtime way' ir' (withField ctx field))

variable {runtime request removed}

theorem evalAll_same {irs irs' : List IR} (h : List.Forall₂ (EvalSame runtime request removed) irs irs')
    (way way' : Way) (ctx : EvalContext) (field : Option (Field ConstValue)) (hctx : ctx.requestCtx = request)
    (hfield : SameField runtime.texts ctx.graphqlCtx.field field) (index : Nat) :
    List.Forall₂ (SameRuns removed (AuthVerifier.verify request.verify)) (evalAll runtime way index irs ctx)
      (evalAll runtime way' index irs' (withField ctx field)) := by
  induction h generalizing index with
  | nil => exact .nil
  | cons hfirst _ ih =>
    rw [evalAll, evalAll]
    exact .cons (hfirst _ _ ctx field hctx hfield) (ih (index + 1))

variable {map map' : List (String × IR)}

theorem evalEntry_same
    (h : List.Forall₂ (fun entry entry' => entry.1 = entry'.1 ∧ EvalSame runtime request removed entry.2 entry'.2) map
      map')
    (way way' : Way) (typeName : String) (ctx : EvalContext) (field : Option (Field ConstValue))
    (hctx : ctx.requestCtx = request) (hfield : SameField runtime.texts ctx.graphqlCtx.field field) (index : Nat) :
    SameRuns removed (AuthVerifier.verify request.verify) (evalEntry runtime way index typeName map ctx)
      (evalEntry runtime way' index typeName map' (withField ctx field)) := by
  induction h generalizing index with
  | nil => exact same_throw _
  | cons hfirst _ ih =>
    rw [evalEntry, evalEntry, ← hfirst.1]
    split
    · exact hfirst.2 _ _ ctx field hctx hfield
    · exact ih (index + 1)

theorem lookup_isSome (h : List.Forall₂ (fun entry entry' => entry.1 = entry'.1) map map')
    (typeName : String) : (map'.lookup typeName).isSome = (map.lookup typeName).isSome := by
  induction h with
  | nil => rfl
  | @cons entry entry' _ _ hfirst _ ih =>
    obtain ⟨name, ir⟩ := entry
    obtain ⟨name', ir'⟩ := entry'
    obtain rfl : name = name' := hfirst
    rw [List.lookup_cons, List.lookup_cons]
    split
    · rfl
    · exact ih

theorem typedRepresentations_same (h : List.Forall₂ (fun entry entry' => entry.1 = entry'.1) map map')
    (ctx : EvalContext) (field : Option (Field ConstValue)) :
    typedRepresentations map' (withField ctx field) = typedRepresentations map ctx := by
  have htype : typeNameOf map' = typeNameOf map := by
    funext repr
    simp only [typeNameOf, lookup_isSome h]
  have hrepr : representationsOf (withField ctx field) = representationsOf ctx := rfl
  simp only [typedRepresentations, htype, hrepr]

theorem eval_planned (hone : OneClaims request) (hverified : ∀ auth, removed auth → Verified request auth) {ir ir' : IR}
    (h : Planned removed ir ir') : EvalSame runtime request removed ir ir' := by
  induction h with
  | dynamic value =>
    intro way way' ctx field hctx hfield
    rw [eval, eval]
    refine agree_except (same_enter _ _ _ _) fun _ => ?_
    exact agree_except same_authClaims fun claims => same_pure _
  | io io =>
    intro way way' ctx field hctx hfield
    rw [eval, eval]
    refine agree_except (same_enter _ _ _ _) fun _ => ?_
    exact same_evalIo io ctx hfield
  | cache cache =>
    intro way way' ctx field hctx hfield
    rw [eval, eval]
    refine agree_except (same_enter _ _ _ _) fun _ => ?_
    exact same_evalCache cache ctx hfield
  | contextPath path =>
    intro way way' ctx field hctx hfield
    have hpath : pathValue (withField ctx field) path = pathValue ctx path := rfl
    rw [eval, eval, hpath]
    refine agree_except (same_enter _ _ _ _) fun _ => ?_
    split <;> exact same_pure _
  | service sdl =>
    intro way way' ctx field hctx hfield
    rw [eval, eval]
    exact agree_except (same_enter _ _ _ _) fun _ => same_pure _
  | path path _ ih =>
    intro way way' ctx field hctx hfield
    rw [eval, eval]
    refine agree_except (same_enter _ _ _ _) fun _ => ?_
    exact agree_except (ih _ _ ctx field hctx hfield) fun value => same_pure _
  | map map _ ih =>
    intro way way' ctx field hctx hfield
    rw [eval, eval]
    refine agree_except (same_enter _ _ _ _) fun _ => ?_
    exact agree_except (ih _ _ ctx field hctx hfield) fun value => same_lift _
  | discriminate discriminator _ ih =>
    intro way way' ctx field hctx hfield
    rw [eval, eval]
    refine agree_except (same_enter _ _ _ _) fun _ => ?_
    exact agree_except (ih _ _ ctx field hctx hfield) fun value => same_lift _
  | pipe _ _ ih ih' =>
    intro way way' ctx field hctx hfield
    rw [eval, eval]
    refine agree_except (same_enter _ _ _ _) fun _ => ?_
    exact agree_except (ih _ _ ctx field hctx hfield) fun args => ih' _ _ (ctx.withArgs args) field hctx hfield
  | protect auth accessExpr _ ih =>
    intro way way' ctx field hctx hfield
    rw [eval, eval]
    refine agree_except (same_check auth accessExpr ctx (fun _ => by rw [hctx]) hone) fun claims => ?_
    exact ih _ _ ctx field hctx hfield
  | removed auth hremoved _ ih =>
    intro way way' ctx field hctx hfield
    rw [eval]
    refine agree_extra ?_ fun claims => ih _ way' ctx field hctx hfield
    intro state state' hsame
    obtain ⟨claims, hv⟩ := hverified auth hremoved
    cases claims with
    | none =>
      refine ⟨state.authClaims, ?_, ?_⟩
      · simp only [check, hctx, hv]
        rfl
      · simp only [check, hctx, hv]
        exact hsame
    | some claims =>
      -- the claims are there already, so setting them changes nothing
      have hset : ({ state with authClaims := some claims } : RequestState Key σ) = state := by
        rw [← hsame.settled auth claims hremoved hv]
      refine ⟨some claims, ?_, ?_⟩
      · simp only [check, hctx, hv]
        rfl
      · simp only [check, hctx, hv]
        change Same removed _ { state with authClaims := some claims } state'
        rw [hset]
        exact hsame
  | merge hlength _ ih =>
    intro way way' ctx field hctx hfield
    have hall := evalAll_same (List.forall₂_iff_get.mpr ⟨hlength, ih⟩) way way' ctx field hctx hfield 0
    rw [eval, eval]
    refine agree_except (same_enter _ _ _ _) fun _ => ?_
    refine agree_except (same_joinAll hall) fun results => ?_
    cases results with
    | nil => exact same_pure _
    | cons first rest => exact same_pure _
  | @entity map map' hlength hname _ ih =>
    intro way way' ctx field hctx hfield
    have hnames : List.Forall₂ (fun entry entry' => entry.1 = entry'.1) map map' :=
      List.forall₂_iff_get.mpr ⟨hlength, hname⟩
    have hentries : List.Forall₂ (fun entry entry' => entry.1 = entry'.1 ∧
        EvalSame runtime request removed entry.2 entry'.2) map map' :=
      List.forall₂_iff_get.mpr ⟨hlength, fun i h₁ h₂ => ⟨hname i h₁ h₂, ih i h₁ h₂⟩⟩
    rw [eval, eval, typedRepresentations_same hnames]
    refine agree_except (same_enter _ _ _ _) fun _ => ?_
    refine agree_except (same_lift _) fun representations => ?_
    refine agree_except (same_joinAll ?_) fun entities => same_pure _
    rw [List.forall₂_map_left_iff, List.forall₂_map_right_iff, List.forall₂_same]
    rintro ⟨typeName, repr⟩ -
    refine agree_except ?_ fun value => same_lift _
    exact evalEntry_same hentries way way' typeName (ctx.withValue repr) field hctx hfield 0

end

end Gqlforge.PlannedEval
