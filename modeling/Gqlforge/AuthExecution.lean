import Gqlforge.IoVisits
import Gqlforge.PlannedFields
import Gqlforge.RelatedLists

namespace Gqlforge.AuthExecution

open Json Errors Resolvers Plan RequestTemplates EvalContext Eval EvalReach Executor StateRules AuthPlanner
open PlannedAuth PlannedEval PlannedFields RelatedLists

section

variable {S E : Type} {log : S → List E} {kind : E → Prop}
variable {irExec : IR → Context → StateM S (Except Error ConstValue)}

abbrev StoreAdds (log : S → List E) (kind : E → Prop) (run : StateT Store (StateM S) Unit) : Prop :=
  ∀ store, Adds log kind (run.run store) fun _ => True

theorem adds_stateT {α : Type} {run : StateM S α} {next : α → StateT Store (StateM S) Unit}
    (h : Adds log kind run fun _ => True) (hnext : ∀ value, StoreAdds log kind (next value)) :
    StoreAdds log kind (do let value ← (liftM run : StateT Store (StateM S) α); next value) := by
  intro store
  have hboth : Adds log kind (do let value ← run; (next value).run store) fun _ => True :=
    adds_bind h fun value _ => hnext value store
  exact hboth

theorem adds_seq {run next : StateT Store (StateM S) Unit} (h : StoreAdds log kind run)
    (hnext : StoreAdds log kind next) : StoreAdds log kind (do run; next) := by
  intro store
  rw [StateT.run_bind]
  exact adds_bind (h store) fun result _ => hnext result.2

mutual

theorem execute_adds (value : Option ConstValue) (field : Field ConstValue)
    (h : ∀ f ∈ field.dfs, ∀ ir, f.ir = some ir → ∀ ctx, Adds log kind (irExec ir ctx) fun _ => True) :
    StoreAdds log kind (execute irExec value field) := by
  match field with
  | field@{ ir := some ir, selection := fields, .. } =>
    rw [Field.dfs, List.forall_mem_cons] at h
    rw [execute]
    refine adds_stateT (h.1 ir rfl _) fun result => ?_
    cases result with
    | ok stored => exact adds_seq (iterField_adds stored fields h.2) fun _ => adds_pure trivial
    | error error => exact fun _ => adds_pure trivial
  | { ir := none, outputName := outputName, selection := fields, .. } =>
    rw [Field.dfs, List.forall_mem_cons] at h
    rw [execute]
    exact iterField_adds (entryOf outputName value) fields h.2

theorem iterField_adds (value : ConstValue) (fields : List (Field ConstValue))
    (h : ∀ f ∈ Field.dfsAll fields, ∀ ir, f.ir = some ir → ∀ ctx, Adds log kind (irExec ir ctx) fun _ => True) :
    StoreAdds log kind (iterField irExec value fields) := by
  match fields with
  | [] => exact fun _ => adds_pure trivial
  | field :: rest =>
    rw [Field.dfsAll, List.forall_mem_append] at h
    rw [iterField]
    exact adds_seq (execute_adds (some value) field h.1) (iterField_adds value rest h.2)

end

theorem roots_adds (fields : List (Field ConstValue))
    (h : ∀ f ∈ Field.dfsAll fields, ∀ ir, f.ir = some ir → ∀ ctx, Adds log kind (irExec ir ctx) fun _ => True) :
    StoreAdds log kind (fields.forM (execute irExec none)) := by
  induction fields with
  | nil => exact fun _ => adds_pure trivial
  | cons field rest ih =>
    rw [Field.dfsAll, List.forall_mem_append] at h
    exact adds_seq (execute_adds none field h.1) (ih h.2)

end

section

variable {Key σ : Type} [DecidableEq Key] (runtime : Runtime Key σ) (request : RequestContext)

def resolverContext (plan : OperationPlan ConstValue) (ctx : Context) : ResolverContext :=
  ⟨ctx.value, some ctx.args, some ctx.field, plan.isQuery⟩

def evalField (plan : OperationPlan ConstValue) (ir : IR) (ctx : Context) :
    StateM (RequestState Key σ) (Except EvalError ConstValue) :=
  (eval runtime Way.start ir (.new request (resolverContext plan ctx))).run

def runFields (plan : OperationPlan ConstValue) : StateM (RequestState Key σ) Store :=
  Executor.store (constValueExec plan (evalField runtime request plan)) plan

def runBefore (before : Option IR) : EvalM Key σ Unit := do
  match before with
  | some ir =>
    let _ ← eval runtime Way.start ir (.new request .empty)
  | none => pure ()

def runPlan (plan : OperationPlan ConstValue) : EvalM Key σ Store := do
  runBefore runtime request plan.before
  ExceptT.lift (runFields runtime request plan)

def removedAuth (plan : OperationPlan ConstValue) : List Auth :=
  (updateFields plan.selection).2

variable {runtime request}

variable {plan : OperationPlan ConstValue}

theorem constValueExec_adds {kind : Entered → Prop} (ir : IR)
    (h : ∀ ctx, Adds RequestState.entered kind (evalField runtime request plan ir ctx) fun _ => True) (ctx : Context) :
    Adds RequestState.entered kind (constValueExec plan (evalField runtime request plan) ir ctx) fun _ => True := by
  have hcall (ctx : Context) :
      Adds RequestState.entered kind (call (evalField runtime request plan) ir ctx) fun _ => True := by
    unfold call
    split
    · exact adds_pure trivial
    · exact adds_bind (h ctx) fun _ _ => adds_pure trivial
  unfold constValueExec
  split
  · refine adds_bind (adds_mapM fun item _ => hcall _) fun _ _ => ?_
    exact adds_pure trivial
  · exact hcall ctx

variable (runtime request) in
theorem runFields_adds (plan : OperationPlan ConstValue) :
    Adds RequestState.entered (fun entered => ∃ field ∈ plan.iterDfs, ∃ ir, field.ir = some ir ∧
      At runtime.texts request (nodes [] [] ir) entered) (runFields runtime request plan) fun _ => True := by
  unfold runFields store init
  refine adds_bind (roots_adds plan.selection ?_ []) fun _ _ => adds_pure trivial
  intro field hf ir hir ctx
  refine constValueExec_adds ir (fun ctx => ?_) ctx
  refine adds_mono (eval_adds Way.start (by simp [Way.Holds, Way.start]) ir _ rfl _ (List.Subset.refl _))
    (fun entered he => ⟨field, hf, ir, hir, he⟩) fun _ _ => trivial

theorem constValueExec_planned {removed : Auth → Prop}
    (hone : OneClaims request) (hverified : ∀ auth, removed auth → Verified request auth)
    (fields : List (Field ConstValue)) (before : Option IR)
    (field field' : Field ConstValue) (ir ir' : IR) (value : Option ConstValue) (hfield : FieldPlanned removed field field')
    (hir : Planned removed ir ir') :
    Agree (Same removed (AuthVerifier.verify request.verify))
      (constValueExec plan (evalField runtime request plan) ir ⟨value, buildArgs field, field⟩)
      (constValueExec { plan with selection := fields, before := before }
        (evalField runtime request { plan with selection := fields, before := before }) ir'
        ⟨value, buildArgs field', field'⟩) := by
  have hargs : buildArgs field' = buildArgs field := by
    cases field with
    | mk =>
      obtain ⟨_, _, rfl, -, -⟩ := hfield
      rfl
  have hcondition : field'.typeCondition = field.typeCondition := by
    cases field with
    | mk =>
      obtain ⟨_, _, rfl, -, -⟩ := hfield
      rfl
  have heval (value : Option ConstValue) :
      Agree (Same removed (AuthVerifier.verify request.verify))
        (evalField runtime request plan ir ⟨value, buildArgs field, field⟩)
        (evalField runtime request { plan with selection := fields, before := before } ir'
          ⟨value, buildArgs field', field'⟩) := by
    rw [hargs]
    exact eval_planned hone hverified hir Way.start Way.start (.new request (resolverContext plan ⟨value, _, field⟩))
      (some field') rfl (sameField_planned runtime.texts hfield)
  have hcall (value : Option ConstValue) :
      Agree (Same removed (AuthVerifier.verify request.verify))
        (call (evalField runtime request plan) ir ⟨value, buildArgs field, field⟩)
        (call (evalField runtime request { plan with selection := fields, before := before }) ir'
          ⟨value, buildArgs field', field'⟩) := by
    unfold call
    cases value with
    | none => exact agree_bind (heval none) fun _ => agree_pure
    | some value =>
      cases value with
      | null => exact agree_pure
      | _ => exact agree_bind (heval _) fun _ => agree_pure
  have hpart (item : ConstValue) : OperationPlan.fieldIsPartOfValue { plan with selection := fields, before := before }
      field' item = plan.fieldIsPartOfValue field item := by
    unfold OperationPlan.fieldIsPartOfValue
    rw [hcondition]
  have hitems (value : ConstValue) : collectItems { plan with selection := fields, before := before } field' value =
      collectItems plan field value := by
    simp only [collectItems, hpart]
  have htake (item : ConstValue) : takeResult { plan with selection := fields, before := before } field' item =
      takeResult plan field item := by
    simp only [takeResult, hpart]
  unfold constValueExec
  cases value with
  | none => exact hcall none
  | some value =>
    cases value with
    | list items =>
      simp only [hitems, funext htake]
      refine agree_bind (agree_mapM ?_) fun _ => agree_pure
      rw [List.forall₂_same]
      exact fun item _ => hcall (some item)
    | _ => exact hcall _

variable (runtime request) in
theorem runFields_planned {removed : Auth → Prop} (hone : OneClaims request)
    (hverified : ∀ auth, removed auth → Verified request auth) (fields : List (Field ConstValue))
    (before : Option IR) (h : FieldsPlanned removed plan.selection fields) :
    Agree (Same removed (AuthVerifier.verify request.verify)) (runFields runtime request plan)
      (runFields runtime request { plan with selection := fields, before := before }) := by
  refine agree_bind (roots_planned ?_ plan.selection fields h []) fun _ => agree_pure
  intro field field' ir ir' value hfield hir
  exact constValueExec_planned hone hverified fields before field field' ir ir' value hfield hir

theorem verified_and {left right : Auth} :
    Verified request (.and left right) ↔ Verified request left ∧ Verified request right := by
  simp only [Verified, AuthVerifier.verify, Verification.and_eq_succeed]
  constructor
  · rintro ⟨_, first, second, hl, hr, -⟩
    exact ⟨⟨first, hl⟩, ⟨second, hr⟩⟩
  · rintro ⟨⟨first, hl⟩, ⟨second, hr⟩⟩
    exact ⟨_, first, second, hl, hr, rfl⟩

theorem verified_reduceAuth {auths : List Auth} {auth : Auth} (h : reduceAuth auths = some auth) :
    Verified request auth ↔ ∀ other ∈ auths, Verified request other := by
  have hfold (rest : List Auth) (first : Auth) : Verified request (rest.foldl Auth.and first) ↔
      Verified request first ∧ ∀ other ∈ rest, Verified request other := by
    induction rest generalizing first with
    | nil => simp
    | cons next rest ih => rw [List.foldl_cons, ih, verified_and, List.forall_mem_cons, and_assoc]
  cases auths with
  | nil => cases h
  | cons first rest =>
    obtain rfl := Option.some.inj h
    rw [hfold, List.forall_mem_cons]

variable (runtime request) in
theorem runBefore_protect (auth : Auth) (state : RequestState Key σ) :
    match AuthVerifier.verify request.verify auth with
    | .fail error => (runBefore runtime request (some (.protect auth none (.dynamic (.const .null))))).run.run state =
        (.error (.auth error), state)
    | .succeed claims => ∃ entered,
        (runBefore runtime request (some (.protect auth none (.dynamic (.const .null))))).run.run state =
          (.ok (), { state with authClaims := claims <|> state.authClaims, entered := entered }) := by
  have hcontext : (EvalContext.new request .empty).requestCtx = request := rfl
  cases hverify : AuthVerifier.verify request.verify auth with
  | fail error => simp only [runBefore, eval, check, hcontext, hverify]; rfl
  | succeed claims =>
    refine ⟨state.entered ++ [⟨Way.start.pass ⟨auth, none, .new request .empty, claims <|> state.authClaims⟩,
      .dynamic (.const .null)⟩], ?_⟩
    cases claims with
    | none => simp only [runBefore, eval, check, hcontext, hverify]; rfl
    | some claims => simp only [runBefore, eval, check, hcontext, hverify]; rfl

theorem runPlan_run (plan : OperationPlan ConstValue) (state : RequestState Key σ) :
    (runPlan runtime request plan).run.run state =
      match (runBefore runtime request plan.before).run.run state with
      | (.error error, state') => (.error error, state')
      | (.ok _, state') =>
        (.ok ((runFields runtime request plan).run state').1, ((runFields runtime request plan).run state').2) := by
  unfold runPlan
  rw [ExceptT.run_bind, StateT.run_bind]
  cases (runBefore runtime request plan.before).run.run state with
  | mk result state' => cases result <;> rfl

variable (runtime request) in
theorem runBefore_iff (hone : OneClaims request) (auths : List Auth) (state : RequestState Key σ) :
    ((∃ error, (runBefore runtime request (beforeOf auths)).run.run state = (.error error, state)) ∧
      ¬ ∀ auth ∈ auths, Verified request auth) ∨
    ∃ state', (runBefore runtime request (beforeOf auths)).run.run state = (.ok (), state') ∧
      (∀ auth ∈ auths, Verified request auth) ∧
      Same (· ∈ auths) (AuthVerifier.verify request.verify) state' state' ∧ state'.cache = state.cache ∧
      state'.outside = state.outside := by
  cases hreduce : reduceAuth auths with
  | none =>
    have hnil : auths = [] := by
      cases auths with
      | nil => rfl
      | cons first rest => cases hreduce
    subst hnil
    refine .inr ⟨state, rfl, by simp, ⟨rfl, rfl, rfl, ?_⟩, rfl, rfl⟩
    intro auth claims ha
    cases ha
  | some auth =>
    have hbefore : beforeOf auths = some (.protect auth none (.dynamic (.const .null))) := by
      rw [beforeOf, hreduce]
      rfl
    have hrun := runBefore_protect runtime request auth state
    rw [hbefore]
    cases hverify : AuthVerifier.verify request.verify auth with
    | fail error =>
      rw [hverify] at hrun
      refine .inl ⟨⟨_, hrun⟩, ?_⟩
      rw [← verified_reduceAuth hreduce]
      rintro ⟨claims, hclaims⟩
      rw [hverify] at hclaims
      cases hclaims
    | succeed claims =>
      rw [hverify] at hrun
      obtain ⟨entered, hrun⟩ := hrun
      refine .inr ⟨_, hrun, (verified_reduceAuth hreduce).mp ⟨claims, hverify⟩, ⟨rfl, rfl, rfl, ?_⟩, rfl, rfl⟩
      intro auth' claims' _ hverify'
      rw [hone auth auth' _ _ hverify hverify']
      rfl

end

section

variable {Key σ : Type} [DecidableEq Key] (runtime : Runtime Key σ) (request : RequestContext)

/-- A check of the plan is met where an evaluation has come to: the request is verified, and a rule was found to hold
on the way. -/
structure GuardMet (entered : Entered) (guard : Guard) : Prop where
  verified : Verified request guard.1
  allowed : ∀ expr, guard.2 = some expr → ∃ passed ∈ entered.way.passed,
    Passed.guard passed = guard ∧ Passed.Holds runtime.texts request passed

/-- What is evaluated is a part of a resolver of the plan, with all checks the plan has around it met. -/
def Allowed (plan : OperationPlan ConstValue) (entered : Entered) : Prop :=
  ∃ field ∈ plan.iterDfs, ∃ ir, field.ir = some ir ∧ ∃ node ∈ nodes [] [] ir,
    node.position = entered.way.position ∧ erase node.ir = erase entered.ir ∧
      ∀ guard ∈ node.guards, GuardMet runtime request entered guard

variable {runtime request}

variable {entered : Entered}

omit [DecidableEq Key] in
theorem guardMet_of_kept {removed : Auth → Prop} (hverified : ∀ auth, removed auth → Verified request auth)
 {guards guards' : List Guard} (h : Kept removed guards guards')
    (hmet : ∀ guard ∈ guards', GuardMet runtime request entered guard) :
    ∀ guard ∈ guards, GuardMet runtime request entered guard := by
  induction h with
  | nil => exact hmet
  | kept guard _ ih =>
    rw [List.forall_mem_cons] at hmet ⊢
    exact ⟨hmet.1, ih hmet.2⟩
  | removed auth hr _ ih =>
    rw [List.forall_mem_cons]
    exact ⟨⟨hverified auth hr, nofun⟩, ih hmet⟩

omit [DecidableEq Key] in
theorem guardMet_of_holds (h : Way.Holds runtime.texts request entered.way) :
    ∀ guard ∈ Way.guards entered.way, GuardMet runtime request entered guard := by
  intro guard hg
  obtain ⟨passed, hp, rfl⟩ := List.mem_map.mp hg
  exact ⟨(h passed hp).verified, fun expr _ => ⟨passed, hp, rfl, h passed hp⟩⟩

theorem fieldsPlanned_transform (plan : OperationPlan ConstValue) :
    FieldsPlanned (· ∈ removedAuth plan) plan.selection (updateFields plan.selection).1 :=
  updateFields_planned plan.selection fun _ ha => ha

omit [DecidableEq Key] in
theorem allowed_of_at {plan : OperationPlan ConstValue}
    (hverified : ∀ auth, auth ∈ removedAuth plan → Verified request auth)
    (h : ∃ field ∈ (AuthPlanner.transform plan).iterDfs, ∃ ir, field.ir = some ir ∧
      At runtime.texts request (nodes [] [] ir) entered) : Allowed runtime request plan entered := by
  obtain ⟨field', hf', ir', hir', hat⟩ := h
  obtain ⟨field, hf, hplanned⟩ := exists_related (dfsAll_planned _ _ (fieldsPlanned_transform plan)) hf'
  have hrel := ir_planned hplanned
  rw [hir'] at hrel
  obtain ⟨ir, hir, hirs⟩ : ∃ ir, field.ir = some ir ∧ Planned (· ∈ removedAuth plan) ir ir' := by
    cases hfield : field.ir with
    | none =>
      rw [hfield] at hrel
      cases hrel
    | some ir =>
      rw [hfield] at hrel
      cases hrel with
      | some h => exact ⟨ir, rfl, h⟩
  obtain ⟨node, hn, hkept⟩ := exists_related (nodes_planned hirs [] [] [] .nil) hat.node
  refine ⟨field, hf, ir, hir, node, hn, hkept.position.symm, hkept.ir.symm, ?_⟩
  exact guardMet_of_kept hverified hkept.guards (guardMet_of_holds hat.holds)

def requestOf (crates : AuthVerifier.Crates) (headers : HeaderMap) (vars : List (String × String))
    (env : String → Option String) : RequestContext :=
  ⟨headers, vars, env, AuthVerifier.verifier crates headers⟩

theorem oneClaims_requestOf (crates : AuthVerifier.Crates) (headers : HeaderMap) (vars : List (String × String))
    (env : String → Option String) : OneClaims (requestOf crates headers vars env) := by
  intro auth auth' claims claims' h h'
  rw [AuthVerifier.verify_claims h, AuthVerifier.verify_claims h']

theorem auth_planned (runtime : Runtime Key σ) (crates : AuthVerifier.Crates) (headers : HeaderMap)
    (vars : List (String × String)) (env : String → Option String) (plan : OperationPlan ConstValue)
    (state : RequestState Key σ) :
    let request := requestOf crates headers vars env
    let planned := AuthPlanner.transform plan
    let before := runBefore runtime request planned.before
    -- the removed checks are in front of the plan, the others where they were
    List.Forall₂ (FieldPlanned (· ∈ removedAuth plan)) plan.iterDfs planned.iterDfs ∧
    ((before.run.run state).1 = .ok () ↔ ∀ auth ∈ removedAuth plan, Verified request auth) ∧
    -- what is evaluated is allowed
    (∃ entered, enteredBy (runPlan runtime request planned) state = enteredBy before state ++ entered ∧
      ∀ e ∈ entered, Allowed runtime request plan e) ∧
    -- what is allowed is evaluated as without planning
    ((∀ auth ∈ removedAuth plan, Verified request auth) →
      let fields := (runFields runtime request plan).run (before.run.run state).2
      let result := (runPlan runtime request planned).run.run state
      result.1 = .ok fields.1 ∧ result.2.authClaims = fields.2.authClaims ∧ result.2.cache = fields.2.cache ∧
        result.2.outside = fields.2.outside) := by
  intro request planned before
  have hone : OneClaims request := oneClaims_requestOf crates headers vars env
  have hdfs := dfsAll_planned _ _ (fieldsPlanned_transform plan)
  refine ⟨hdfs, ?_, ?_, ?_⟩
  · rcases runBefore_iff runtime request hone (removedAuth plan) state with
      ⟨⟨error, hrun⟩, hnot⟩ | ⟨state', hrun, hall, -⟩
    · have hbefore : before.run.run state = (.error error, state) := hrun
      rw [hbefore]
      simp [hnot]
    · have hbefore : before.run.run state = (.ok (), state') := hrun
      rw [hbefore]
      exact iff_of_true rfl hall
  · unfold enteredBy
    rw [runPlan_run]
    rcases runBefore_iff runtime request hone (removedAuth plan) { state with entered := [] } with
      ⟨⟨error, hrun⟩, -⟩ | ⟨state', hrun, hall, -⟩
    · refine ⟨[], ?_, nofun⟩
      have hbefore : before.run.run { state with entered := [] } = _ := hrun
      rw [hbefore]
      rfl
    · have hbefore : before.run.run { state with entered := [] } = _ := hrun
      rw [hbefore]
      obtain ⟨entered, hlog, hkind, -⟩ := runFields_adds runtime request planned state'
      refine ⟨entered, hlog, fun e he => ?_⟩
      exact allowed_of_at hall (hkind e he)
  · intro hall fields result
    rcases runBefore_iff runtime request hone (removedAuth plan) state with
      ⟨-, hnot⟩ | ⟨state', hrun, -, hsame, -⟩
    · exact absurd hall hnot
    · have hbefore : before.run.run state = (.ok (), state') := hrun
      have hresult : result = (.ok ((runFields runtime request planned).run state').1,
          ((runFields runtime request planned).run state').2) := by
        simp only [result]
        rw [runPlan_run, hbefore]
      have hfields : fields = (runFields runtime request plan).run state' := by
        simp only [fields, hbefore]
      obtain ⟨hstore, hagree⟩ := runFields_planned runtime request hone hall _ planned.before
        (fieldsPlanned_transform plan) state' state' hsame
      rw [hresult, hfields]
      exact ⟨congrArg Except.ok hstore.symm, hagree.authClaims, hagree.cache, hagree.outside⟩

end

def plainCrates : AuthVerifier.Crates where
  Jwk := Unit
  DecodingKey := Unit
  Algorithm := Unit
  basic header := match header.toList with
    | 'B' :: user => some (String.ofList user, "")
    | _ => none
  bearer header := match header.toList with
    | 'T' :: token => some (String.ofList token)
    | _ => none
  oneScheme header user token := by
    intro h h'
    split at h
    next rest hlist => simp [hlist] at h'
    next => cases h
  check htpasswd username _ := htpasswd == username
  decodeHeader _ := some none
  find _ _ := none
  keys _ := [()]
  decodingKey _ := .ok ()
  keyAlgorithm _ := some ()
  validation _ := .ok ()
  decode token _ _ := some ⟨none, none, some token, []⟩
  payload token := ⟨none, none, some token, []⟩
  decode_payload _ _ _ _ h := (Option.some.inj h).symm

def meField : Field ConstValue :=
  ⟨0, "me", "me", some (.protect (.provider (.basic "alice")) none (.dynamic (.const (.string "Alice")))),
    .named "String" false, some "Query", none, none, [], [], none, ⟨1, 3⟩, [], false, some .empty⟩

def mePlan : OperationPlan ConstValue :=
  ⟨"Query", .query, ⟨[], ⟨"Query", none, none⟩⟩, false, false, false, false, none, [meField], none, none⟩

theorem auth_planned_me :
    ((runPlan IoVisits.plainRuntime (requestOf plainCrates [("authorization", "Balice")] [] fun _ => none)
      (AuthPlanner.transform mePlan)).run.run ⟨none, [], (), []⟩).1 =
      .ok [(0, .ok (.string "Alice"))] := by
  have h := (auth_planned IoVisits.plainRuntime plainCrates [("authorization", "Balice")] [] (fun _ => none) mePlan
    ⟨none, [], (), []⟩).2.2.2 fun auth ha => by
      obtain rfl := List.mem_singleton.mp ha
      exact ⟨none, rfl⟩
  exact h.1

end Gqlforge.AuthExecution
