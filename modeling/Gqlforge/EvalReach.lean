import Gqlforge.Eval
import Gqlforge.StateRules

namespace Gqlforge.EvalReach

open Json Errors Resolvers EvalContext Eval StateRules

abbrev Guard := Auth × Option AccessExpr

structure Node where
  position : List Step
  guards : List Guard
  ir : IR

mutual

def nodes (position : List Step) (guards : List Guard) : IR → List Node
  | .protect auth accessExpr expr => nodes position (guards ++ [(auth, accessExpr)]) expr
  | .path input path => ⟨position, guards, .path input path⟩ :: nodes (position ++ [.below]) guards input
  | .map input map => ⟨position, guards, .map input map⟩ :: nodes (position ++ [.below]) guards input
  | .discriminate discriminator expr =>
    ⟨position, guards, .discriminate discriminator expr⟩ :: nodes (position ++ [.below]) guards expr
  | .pipe first second =>
    ⟨position, guards, .pipe first second⟩ ::
      (nodes (position ++ [.first]) guards first ++ nodes (position ++ [.second]) guards second)
  | .merge irs => ⟨position, guards, .merge irs⟩ :: nodesAll position guards 0 irs
  | .entity map => ⟨position, guards, .entity map⟩ :: nodesEntries position guards 0 map
  | .dynamic value => [⟨position, guards, .dynamic value⟩]
  | .io io => [⟨position, guards, .io io⟩]
  | .cache cache => [⟨position, guards, .cache cache⟩]
  | .contextPath path => [⟨position, guards, .contextPath path⟩]
  | .service sdl => [⟨position, guards, .service sdl⟩]

def nodesAll (position : List Step) (guards : List Guard) (index : Nat) : List IR → List Node
  | [] => []
  | ir :: rest => nodes (position ++ [.item index]) guards ir ++ nodesAll position guards (index + 1) rest

def nodesEntries (position : List Step) (guards : List Guard) (index : Nat) : List (String × IR) → List Node
  | [] => []
  | (_, ir) :: rest => nodes (position ++ [.entry index]) guards ir ++ nodesEntries position guards (index + 1) rest

end

def requestOf : IR → Option Io
  | .io io => some io
  | .cache cache => some cache.io
  | _ => none

def Node.request (node : Node) : Option (List Step × Io) :=
  (requestOf node.ir).map fun io => (node.position, io)

def ioNodes (ir : IR) : List (List Step × Io) :=
  (nodes [] [] ir).filterMap Node.request

def belowMerge (position : List Step) : Bool :=
  position.any Step.isItem

section

variable {Key σ : Type}

abbrev Quiet {α : Type} (run : EvalM Key σ α) : Prop :=
  ∀ kind, Adds RequestState.entered kind run.run (Succeeds fun _ => True)

theorem quiet_outside {α : Type} (run : StateM σ (Except EvalError α)) : Quiet (outside run : EvalM Key σ α) :=
  fun _ => adds_silent (fun _ => rfl) fun _ _ _ => trivial

theorem quiet_authClaims : Quiet (authClaims : EvalM Key σ (Option ConstValue)) :=
  fun _ => adds_silent (fun _ => rfl) fun _ _ _ => trivial

theorem quiet_setAuthClaims (claims : ConstValue) : Quiet (setAuthClaims claims : EvalM Key σ Unit) :=
  fun _ => adds_silent (fun _ => rfl) fun _ _ _ => trivial

variable [DecidableEq Key] (runtime : Runtime Key σ)

omit [DecidableEq Key] in
theorem quiet_evalIoInner (io : Io) (ctx : EvalContext) : Quiet (Eval.evalIoInner runtime io ctx) :=
  fun kind => adds_except (quiet_authClaims kind) fun _ _ => quiet_outside _ kind

theorem quiet_dedupe (key : Key) (run : EvalM Key σ ConstValue) (h : Quiet run) : Quiet (dedupe key run) := by
  intro kind s
  unfold dedupe
  cases hlookup : s.cache.lookup key with
  | some result =>
    refine ⟨[], ?_, by simp, fun _ _ => trivial⟩
    simp [StateT.run, hlookup]
  | none =>
    obtain ⟨new, hlog, hnew, -⟩ := h kind s
    refine ⟨new, ?_, hnew, fun _ _ => trivial⟩
    simp only [ExceptT.run_mk, StateT.run, hlookup]
    exact hlog

theorem quiet_evalIo (io : Io) (ctx : EvalContext) : Quiet (evalIo runtime io ctx) := by
  intro kind
  unfold evalIo
  split
  · exact quiet_evalIoInner runtime io ctx kind
  · refine adds_except (quiet_authClaims kind) fun claims _ => ?_
    split
    · exact quiet_dedupe _ _ (quiet_evalIoInner runtime io ctx) kind
    · exact quiet_evalIoInner runtime io ctx kind

theorem quiet_evalCache (cache : Cache) (ctx : EvalContext) : Quiet (evalCache runtime cache ctx) := by
  intro kind
  refine adds_except (quiet_authClaims kind) fun claims _ => ?_
  split
  · refine adds_except (quiet_outside _ kind) fun cached _ => ?_
    split
    · exact adds_ok trivial
    · refine adds_except (quiet_evalIo runtime cache.io ctx kind) fun value _ => ?_
      exact adds_except (quiet_outside _ kind) fun _ _ => adds_ok trivial
  · exact quiet_evalIo runtime cache.io ctx kind

/-- What a check that was passed says: the request is verified, and the rule holds on the claims of that moment. -/
structure Passed.Holds (texts : Texts) (request : RequestContext) (passed : Passed) : Prop where
  same : passed.ctx.requestCtx = request
  verified : ∃ claims, AuthVerifier.verify request.verify passed.auth = .succeed claims
  allowed : ∀ expr, passed.accessExpr = some expr → evaluate texts passed.ctx passed.claims expr = true

def Passed.guard (passed : Passed) : Guard :=
  (passed.auth, passed.accessExpr)

def Way.guards (way : Way) : List Guard :=
  way.passed.map Passed.guard

def Way.Holds (texts : Texts) (request : RequestContext) (way : Way) : Prop :=
  ∀ passed ∈ way.passed, Passed.Holds texts request passed

structure At (texts : Texts) (request : RequestContext) (among : List Node) (entered : Entered) : Prop where
  node : ⟨entered.way.position, Way.guards entered.way, entered.ir⟩ ∈ among
  holds : Way.Holds texts request entered.way

variable {runtime} {request : RequestContext}

omit [DecidableEq Key] in
theorem adds_access {auth : Auth} (accessExpr : Option AccessExpr) (ctx : EvalContext) (kind : Entered → Prop)
    (hverified : ∃ claims, AuthVerifier.verify ctx.requestCtx.verify auth = .succeed claims) :
    Adds RequestState.entered kind (do
      let claims ← authClaims
      match accessExpr with
      | some expr =>
        if evaluate runtime.texts ctx claims expr then return claims else throw (.exprEval "Access denied")
      | none => return claims : EvalM Key σ (Option ConstValue)).run (Succeeds fun claims =>
        Passed.Holds runtime.texts ctx.requestCtx ⟨auth, accessExpr, ctx, claims⟩) := by
  refine adds_except (quiet_authClaims kind) fun claims _ => ?_
  cases accessExpr with
  | none => exact adds_ok ⟨rfl, hverified, by simp⟩
  | some expr =>
    by_cases he : evaluate runtime.texts ctx claims expr = true
    · simp only [he, if_true]
      refine adds_ok ⟨rfl, hverified, ?_⟩
      intro expr' hexpr
      exact Option.some.inj hexpr ▸ he
    · simp only [he, Bool.false_eq_true, if_false]
      exact adds_throw

omit [DecidableEq Key] in
theorem adds_check (auth : Auth) (accessExpr : Option AccessExpr) (ctx : EvalContext) (kind : Entered → Prop) :
    Adds RequestState.entered kind (check runtime auth accessExpr ctx).run (Succeeds fun claims =>
      Passed.Holds runtime.texts ctx.requestCtx ⟨auth, accessExpr, ctx, claims⟩) := by
  unfold check
  cases hverify : AuthVerifier.verify ctx.requestCtx.verify auth with
  | fail error => exact adds_throw
  | succeed claims =>
    cases claims with
    | none => exact adds_access accessExpr ctx kind ⟨_, hverify⟩
    | some claims =>
      exact adds_except (quiet_setAuthClaims claims kind) fun _ _ => adds_access accessExpr ctx kind ⟨_, hverify⟩

theorem holds_pass {texts : Texts} {way : Way} {passed : Passed} (hway : Way.Holds texts request way)
    (hpassed : Passed.Holds texts request passed) : Way.Holds texts request (way.pass passed) := by
  intro other ho
  rcases List.mem_append.mp ho with ho | ho
  · exact hway other ho
  · exact List.mem_singleton.mp ho ▸ hpassed

theorem guards_pass (way : Way) (passed : Passed) :
    Way.guards (way.pass passed) = Way.guards way ++ [Passed.guard passed] := by
  simp [Way.guards, Way.pass]

omit [DecidableEq Key] in
theorem adds_enter (way : Way) (ir : IR) (kind : Entered → Prop) (h : kind ⟨way, ir⟩) :
    Adds RequestState.entered kind (enter way ir : EvalM Key σ Unit).run (Succeeds fun _ => True) := by
  intro s
  refine ⟨[⟨way, ir⟩], rfl, ?_, fun _ _ => trivial⟩
  intro entry he
  exact List.mem_singleton.mp he ▸ h

omit [DecidableEq Key] in
theorem adds_joinAll {α : Type} {kind : Entered → Prop} (tasks : List (EvalM Key σ α))
    (h : ∀ task ∈ tasks, Adds RequestState.entered kind task.run (Succeeds fun _ => True)) :
    Adds RequestState.entered kind (joinAll tasks).run (Succeeds fun _ => True) := by
  refine adds_bind (adds_mapM fun task ht => adds_mono (h task ht) (fun _ hk => hk) fun _ _ => trivial) ?_
  exact fun _ _ => adds_pure fun _ _ => trivial

mutual

theorem eval_adds (way : Way) (hway : Way.Holds runtime.texts request way) : ∀ (ir : IR) (ctx : EvalContext),
    ctx.requestCtx = request → ∀ among, nodes way.position (Way.guards way) ir ⊆ among →
      Adds RequestState.entered (At runtime.texts request among) (eval runtime way ir ctx).run (Succeeds fun _ => True)
  | .protect auth accessExpr expr, ctx, hctx, among, hsub => by
    rw [eval]
    refine adds_except (adds_check auth accessExpr ctx _) fun claims hpassed => ?_
    apply eval_adds _ (holds_pass hway (hctx ▸ hpassed)) expr ctx hctx
    rw [guards_pass]
    exact hsub
  | .contextPath path, ctx, hctx, among, hsub => by
    rw [eval]
    refine adds_except (adds_enter way _ _ ⟨hsub List.mem_cons_self, hway⟩) fun _ _ => ?_
    split <;> exact adds_ok trivial
  | .path input path, ctx, hctx, among, hsub => by
    obtain ⟨hself, hsub⟩ := List.cons_subset.mp hsub
    rw [eval]
    refine adds_except (adds_enter way _ _ ⟨hself, hway⟩) fun _ _ => ?_
    refine adds_except (eval_adds (way.down .below) hway input ctx hctx among hsub) fun _ _ => ?_
    exact adds_ok trivial
  | .dynamic value, ctx, hctx, among, hsub => by
    rw [eval]
    refine adds_except (adds_enter way _ _ ⟨hsub List.mem_cons_self, hway⟩) fun _ _ => ?_
    exact adds_except (quiet_authClaims _) fun _ _ => adds_ok trivial
  | .io io, ctx, hctx, among, hsub => by
    rw [eval]
    refine adds_except (adds_enter way _ _ ⟨hsub List.mem_cons_self, hway⟩) fun _ _ => ?_
    exact quiet_evalIo runtime io ctx _
  | .cache cache, ctx, hctx, among, hsub => by
    rw [eval]
    refine adds_except (adds_enter way _ _ ⟨hsub List.mem_cons_self, hway⟩) fun _ _ => ?_
    exact quiet_evalCache runtime cache ctx _
  | .map input map, ctx, hctx, among, hsub => by
    obtain ⟨hself, hsub⟩ := List.cons_subset.mp hsub
    rw [eval]
    refine adds_except (adds_enter way _ _ ⟨hself, hway⟩) fun _ _ => ?_
    refine adds_except (eval_adds (way.down .below) hway input ctx hctx among hsub) fun _ _ => ?_
    exact adds_lift
  | .pipe first second, ctx, hctx, among, hsub => by
    obtain ⟨hself, hsub⟩ := List.cons_subset.mp hsub
    obtain ⟨hfirst, hsecond⟩ := List.append_subset.mp hsub
    rw [eval]
    refine adds_except (adds_enter way _ _ ⟨hself, hway⟩) fun _ _ => ?_
    refine adds_except (eval_adds (way.down .first) hway first ctx hctx among hfirst) fun args _ => ?_
    exact eval_adds (way.down .second) hway second (ctx.withArgs args) hctx among hsecond
  | .merge irs, ctx, hctx, among, hsub => by
    obtain ⟨hself, hsub⟩ := List.cons_subset.mp hsub
    rw [eval]
    refine adds_except (adds_enter way _ _ ⟨hself, hway⟩) fun _ _ => ?_
    refine adds_except (adds_joinAll _ (evalAll_adds way hway 0 irs ctx hctx among hsub)) fun results _ => ?_
    split <;> exact adds_ok trivial
  | .discriminate discriminator expr, ctx, hctx, among, hsub => by
    obtain ⟨hself, hsub⟩ := List.cons_subset.mp hsub
    rw [eval]
    refine adds_except (adds_enter way _ _ ⟨hself, hway⟩) fun _ _ => ?_
    refine adds_except (eval_adds (way.down .below) hway expr ctx hctx among hsub) fun _ _ => ?_
    exact adds_lift
  | .entity map, ctx, hctx, among, hsub => by
    obtain ⟨hself, hsub⟩ := List.cons_subset.mp hsub
    rw [eval]
    refine adds_except (adds_enter way _ _ ⟨hself, hway⟩) fun _ _ => ?_
    refine adds_except adds_lift fun representations _ => ?_
    refine adds_except (adds_joinAll _ ?_) fun _ _ => adds_ok trivial
    intro task ht
    obtain ⟨⟨typeName, repr⟩, -, rfl⟩ := List.mem_map.mp ht
    refine adds_except (evalEntry_adds way hway 0 typeName map (ctx.withValue repr) hctx among hsub) fun _ _ => ?_
    exact adds_lift
  | .service sdl, ctx, hctx, among, hsub => by
    rw [eval]
    refine adds_except (adds_enter way _ _ ⟨hsub List.mem_cons_self, hway⟩) fun _ _ => ?_
    exact adds_ok trivial

theorem evalAll_adds (way : Way) (hway : Way.Holds runtime.texts request way) (index : Nat) :
    ∀ (irs : List IR) (ctx : EvalContext), ctx.requestCtx = request →
      ∀ among, nodesAll way.position (Way.guards way) index irs ⊆ among →
        ∀ task ∈ evalAll runtime way index irs ctx,
          Adds RequestState.entered (At runtime.texts request among) task.run (Succeeds fun _ => True)
  | [], ctx, hctx, among, hsub, task, ht => by
    rw [evalAll] at ht
    cases ht
  | ir :: rest, ctx, hctx, among, hsub, task, ht => by
    obtain ⟨hfirst, hrest⟩ := List.append_subset.mp hsub
    rw [evalAll] at ht
    rcases List.mem_cons.mp ht with rfl | ht
    · exact eval_adds (way.down (.item index)) hway ir ctx hctx among hfirst
    · exact evalAll_adds way hway (index + 1) rest ctx hctx among hrest task ht

theorem evalEntry_adds (way : Way) (hway : Way.Holds runtime.texts request way) (index : Nat) (typeName : String) :
    ∀ (map : List (String × IR)) (ctx : EvalContext), ctx.requestCtx = request →
      ∀ among, nodesEntries way.position (Way.guards way) index map ⊆ among →
        Adds RequestState.entered (At runtime.texts request among)
          (evalEntry runtime way index typeName map ctx).run (Succeeds fun _ => True)
  | [], ctx, hctx, among, hsub => by
    rw [evalEntry]
    exact adds_throw
  | (name, ir) :: rest, ctx, hctx, among, hsub => by
    obtain ⟨hfirst, hrest⟩ := List.append_subset.mp hsub
    rw [evalEntry]
    split
    · exact eval_adds (way.down (.entry index)) hway ir ctx hctx among hfirst
    · exact evalEntry_adds way hway (index + 1) typeName rest ctx hctx among hrest

end

def enteredBy {α : Type} (run : EvalM Key σ α) (state : RequestState Key σ) : List Entered :=
  (run.run.run { state with entered := [] }).2.entered

omit [DecidableEq Key] in
theorem enteredBy_of_adds {α : Type} {run : EvalM Key σ α} {kind : Entered → Prop}
    (h : Adds RequestState.entered kind run.run (Succeeds fun _ => True)) (state : RequestState Key σ) :
    ∀ entered ∈ enteredBy run state, kind entered := by
  obtain ⟨new, hlog, hnew, -⟩ := h { state with entered := [] }
  intro entered he
  unfold enteredBy at he
  rw [hlog] at he
  exact hnew entered he

theorem eval_at (ir : IR) (ctx : EvalContext) (state : RequestState Key σ) :
    ∀ entered ∈ enteredBy (eval runtime Way.start ir ctx) state,
      At runtime.texts ctx.requestCtx (nodes [] [] ir) entered :=
  enteredBy_of_adds (eval_adds Way.start (by simp [Way.Holds, Way.start]) ir ctx rfl _ (List.Subset.refl _)) state

end

end Gqlforge.EvalReach
