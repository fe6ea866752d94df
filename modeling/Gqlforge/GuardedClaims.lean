import Gqlforge.AuthExecution
import Gqlforge.SharedSlots

namespace Gqlforge.GuardedClaims

open Json Errors Resolvers RequestTemplates EvalContext Eval Runs SharedSlots

/-! ## Resolvers as tasks -/

inductive Query where
  | verify (auth : Auth)
  | await

def Query.Answer : Query → Type
  | .verify _ => Verification
  | .await => Except EvalError (Option ConstValue)

abbrev EvalTask := Task Query Query.Answer ConstValue (Except EvalError ConstValue)

def finish (result : Except EvalError ConstValue) : EvalTask :=
  .done result

def verify (auth : Auth) (next : Verification → EvalTask) : EvalTask :=
  .ask (.verify auth) next

def await (next : Except EvalError (Option ConstValue) → EvalTask) : EvalTask :=
  .ask .await next

def EvalTask.andThen (task : EvalTask) (next : ConstValue → EvalTask) : EvalTask :=
  task.bind fun
    | .ok value => next value
    | .error error => finish (.error error)

section

variable {Key σ : Type} (runtime : Runtime Key σ)

abbrev Scope := List (Option ConstValue)

def evalIoInnerTask (scope : Scope) : EvalTask :=
  .read scope fun _ => await fun
    | .ok value => finish (.ok (value.getD .null))
    | .error error => finish (.error error)

def evalIoTask (scope : Scope) (io : Io) (ctx : EvalContext) : EvalTask :=
  if !io.dedupe || !ctx.graphqlCtx.isQuery then evalIoInnerTask scope
  else .read scope fun claims => match cacheKey runtime io ctx claims with
    | none => evalIoInnerTask scope
    | some _ => await fun
      | .ok (some value) => finish (.ok value)
      | .ok none => evalIoInnerTask scope
      | .error error => finish (.error error)

def evalCacheTask (scope : Scope) (cache : Cache) (ctx : EvalContext) : EvalTask :=
  .read scope fun claims => match cacheKey runtime cache.io ctx claims with
    | none => evalIoTask runtime scope cache.io ctx
    | some _ => await fun
      | .ok (some value) => finish (.ok value)
      | .ok none => (evalIoTask runtime scope cache.io ctx).andThen fun value => await fun
        | .ok _ => finish (.ok value)
        | .error error => finish (.error error)
      | .error error => finish (.error error)

def checkTask (scope : Scope) (accessExpr : Option AccessExpr) (ctx : EvalContext) (next : EvalTask) : EvalTask :=
  match accessExpr with
  | none => next
  | some expr => .read scope fun claims =>
    if evaluate runtime.texts ctx claims expr then next else finish (.error (.exprEval "Access denied"))

def storeTask (claims : Option ConstValue) (next : EvalTask) : EvalTask :=
  match claims with
  | some claims => .write claims next
  | none => next

def merged : List ConstValue → ConstValue
  | [] => .null
  | first :: rest => rest.foldl mergeRight first

mutual

def evalTask (scope : Scope) : IR → EvalContext → EvalTask
  | .protect auth accessExpr expr, ctx => verify auth fun
    | .fail error => finish (.error (.auth error))
    | .succeed claims =>
      storeTask claims (checkTask runtime (claims :: scope) accessExpr ctx (evalTask (claims :: scope) expr ctx))
  | .contextPath path, ctx => match pathValue ctx path with
    | some (.value value _) => finish (.ok value)
    | _ => finish (.ok .null)
  | .path input path, ctx => (evalTask scope input ctx).andThen fun value =>
    finish (.ok ((getPath value path).getD .null))
  | .dynamic value, ctx =>
    .read scope fun claims => finish (.ok (renderValue runtime.wire (pathContext runtime.texts ctx claims) value))
  | .io io, ctx => evalIoTask runtime scope io ctx
  | .cache cache, ctx => evalCacheTask runtime scope cache ctx
  | .map input map, ctx => (evalTask scope input ctx).andThen fun value => finish (mapEnum map value)
  | .pipe first second, ctx =>
    (evalTask scope first ctx).andThen fun args => evalTask scope second (ctx.withArgs args)
  | .merge irs, ctx => .join (evalTasks scope irs ctx) fun results => finish ((results.mapM id).map merged)
  | .discriminate discriminator expr, ctx => (evalTask scope expr ctx).andThen fun value =>
    finish ((resolveType discriminator value).mapError EvalError.io)
  | .entity map, ctx => match typedRepresentations map ctx with
    | .error error => finish (.error error)
    | .ok representations => .join (representations.map fun (typeName, repr) =>
        (evalEntryTask scope typeName map (ctx.withValue repr)).andThen fun value =>
          finish ((setTypeName typeName value).mapError EvalError.io))
        fun results => finish ((results.mapM id).map .list)
  | .service sdl, _ => finish (.ok (.object [("sdl", .string sdl)]))

def evalTasks (scope : Scope) : List IR → EvalContext → List EvalTask
  | [], _ => []
  | ir :: rest, ctx => evalTask scope ir ctx :: evalTasks scope rest ctx

def evalEntryTask (scope : Scope) (typeName : String) : List (String × IR) → EvalContext → EvalTask
  | [], _ => finish (.error (.entity ("Cannot find a resolver for type: `" ++ typeName ++ "`")))
  | (name, ir) :: rest, ctx => if typeName == name then evalTask scope ir ctx else evalEntryTask scope typeName rest ctx

end

end

/-! ## Runs -/

/-- A verification may also fail for a reason that is not in the request, as that time has passed. -/
def answers (request : RequestContext) : (query : Query) → query.Answer → Prop
  | .verify auth, verification =>
    verification = AuthVerifier.verify request.verify auth ∨ ∃ error, verification = .fail error
  | .await, _ => True

def Starts {Key σ : Type} (runtime : Runtime Key σ) (request : RequestContext) (task : EvalTask) :
    Prop :=
  ∃ ir ctx, ctx.requestCtx = request ∧ task = evalTask runtime [] ir ctx

section

variable {Key σ : Type} {runtime : Runtime Key σ} {request : RequestContext}
  {own : Option ConstValue} {written : Bool} {scope : Scope}

structure Stored (own : Option ConstValue) (written : Bool) (scope : Scope) : Prop where
  scope : ∀ claims ∈ scope, written = true ∧ claims = own
  empty : own = none → written = true

theorem keeps_andThen {task : EvalTask} {next : ConstValue → EvalTask} (h : task.Keeps (answers request) own written)
    (hnext : ∀ value, (next value).Keeps (answers request) own written) :
    (task.andThen next).Keeps (answers request) own written := by
  apply h.bind
  rintro (error | value)
  · exact .done
  · exact hnext value

theorem keeps_evalIoInner (h : Stored own written scope) :
    (evalIoInnerTask scope).Keeps (answers request) own written := by
  refine .read h.scope fun _ => .ask fun answer _ => ?_
  cases answer <;> exact .done

theorem keeps_evalIo (h : Stored own written scope) (io : Io) (ctx : EvalContext) :
    (evalIoTask runtime scope io ctx).Keeps (answers request) own written := by
  rw [evalIoTask]
  split
  · exact keeps_evalIoInner h
  · refine .read h.scope fun claims => ?_
    split
    · exact keeps_evalIoInner h
    · refine .ask fun answer _ => ?_
      match answer with
      | .ok (some _) | .error _ => exact .done
      | .ok none => exact keeps_evalIoInner h

theorem keeps_evalCache (h : Stored own written scope) (cache : Cache) (ctx : EvalContext) :
    (evalCacheTask runtime scope cache ctx).Keeps (answers request) own written := by
  refine .read h.scope fun claims => ?_
  split
  · exact keeps_evalIo h cache.io ctx
  · refine .ask fun answer _ => ?_
    match answer with
    | .ok (some _) | .error _ => exact .done
    | .ok none =>
      refine keeps_andThen (keeps_evalIo h cache.io ctx) fun value => .ask fun answer _ => ?_
      cases answer <;> exact .done

theorem keeps_check {next : EvalTask} (h : Stored own written scope) (accessExpr : Option AccessExpr) (ctx : EvalContext)
    (hnext : next.Keeps (answers request) own written) :
    (checkTask runtime scope accessExpr ctx next).Keeps (answers request) own written := by
  cases accessExpr with
  | none => exact hnext
  | some expr =>
    refine .read h.scope fun claims => ?_
    split
    · exact hnext
    · exact .done

theorem keeps_store {next : EvalTask} (h : Stored own written scope)
    (hnext : ∀ written', Stored own written' (own :: scope) → next.Keeps (answers request) own written') :
    (storeTask own next).Keeps (answers request) own written := by
  cases own with
  | none =>
    have hwritten := h.empty rfl
    exact hnext written ⟨List.forall_mem_cons.mpr ⟨⟨hwritten, rfl⟩, h.scope⟩, h.empty⟩
  | some claims =>
    refine .write rfl (hnext true ⟨List.forall_mem_cons.mpr ⟨⟨rfl, rfl⟩, fun claims hclaims => ?_⟩, nofun⟩)
    exact ⟨rfl, (h.scope claims hclaims).2⟩

theorem keeps_join {tasks : List EvalTask} {next : List (Except EvalError ConstValue) → Except EvalError ConstValue}
    (h : ∀ task ∈ tasks, task.Keeps (answers request) own written) :
    Task.Keeps (answers request) own written (.join tasks fun results => finish (next results)) :=
  .join h fun _ => .done

def Yields (request : RequestContext) (own : Option ConstValue) : Prop :=
  ∀ auth claims, AuthVerifier.verify request.verify auth = .succeed claims → claims = own

mutual

theorem keeps_eval {written : Bool} {scope : Scope} (hone : Yields request own) (h : Stored own written scope) :
    ∀ (ir : IR) (ctx : EvalContext), (evalTask runtime scope ir ctx).Keeps (answers request) own written
  | .protect auth accessExpr expr, ctx => by
    refine .ask fun verification hverification => ?_
    cases verification with
    | fail error => exact .done
    | succeed claims =>
      have hclaims : claims = own := by
        rcases hverification with hverified | ⟨error, herror⟩
        · exact hone auth claims hverified.symm
        · cases herror
      rw [hclaims]
      refine keeps_store h fun written' hstored => ?_
      exact keeps_check hstored accessExpr ctx (keeps_eval hone hstored expr ctx)
  | .contextPath path, ctx => by
    rw [evalTask]
    split <;> exact .done
  | .path input path, ctx => keeps_andThen (keeps_eval hone h input ctx) fun _ => .done
  | .dynamic value, ctx => .read h.scope fun _ => .done
  | .io io, ctx => keeps_evalIo h io ctx
  | .cache cache, ctx => keeps_evalCache h cache ctx
  | .map input map, ctx => keeps_andThen (keeps_eval hone h input ctx) fun _ => .done
  | .pipe first second, ctx => keeps_andThen (keeps_eval hone h first ctx) fun args => keeps_eval hone h second (ctx.withArgs args)
  | .merge irs, ctx => keeps_join (keeps_evalAll hone h irs ctx)
  | .discriminate discriminator expr, ctx => keeps_andThen (keeps_eval hone h expr ctx) fun _ => .done
  | .entity map, ctx => by
    rw [evalTask]
    split
    · exact .done
    · refine keeps_join fun task htask => ?_
      obtain ⟨⟨typeName, repr⟩, _, rfl⟩ := List.mem_map.mp htask
      exact keeps_andThen (keeps_evalEntry hone h typeName map (ctx.withValue repr)) fun _ => .done
  | .service sdl, ctx => .done

theorem keeps_evalAll {written : Bool} {scope : Scope} (hone : Yields request own)
    (h : Stored own written scope) :
    ∀ (irs : List IR) (ctx : EvalContext), ∀ task ∈ evalTasks runtime scope irs ctx,
      task.Keeps (answers request) own written
  | [], _ => nofun
  | ir :: rest, ctx => List.forall_mem_cons.mpr ⟨keeps_eval hone h ir ctx, keeps_evalAll hone h rest ctx⟩

theorem keeps_evalEntry {written : Bool} {scope : Scope} (hone : Yields request own)
    (h : Stored own written scope) (typeName : String) :
    ∀ (map : List (String × IR)) (ctx : EvalContext),
      (evalEntryTask runtime scope typeName map ctx).Keeps (answers request) own written
  | [], ctx => .done
  | (name, ir) :: rest, ctx => by
    rw [evalEntryTask]
    split
    · exact keeps_eval hone h ir ctx
    · exact keeps_evalEntry hone h typeName rest ctx

end

end

/-- In every interleaving of evaluations of a request, what is read below a guard are the claims that this guard's own
verification yielded: all claims of a request are those of its one token. -/
theorem claims_of_guard {Key σ : Type} (runtime : Runtime Key σ) (crates : AuthVerifier.Crates) (headers : HeaderMap)
    (vars : List (String × String)) (env : String → Option String) {events : List (Option (Reading ConstValue))}
    {system : System Query Query.Answer ConstValue (Except EvalError ConstValue)}
    (h : Run (Does (answers (AuthExecution.requestOf crates headers vars env))
      (Starts runtime (AuthExecution.requestOf crates headers vars env))) ⟨none, []⟩ events system) :
    ∀ reading, some reading ∈ events → ∀ claims ∈ reading.scope, reading.seen = claims := by
  have hone : Yields (AuthExecution.requestOf crates headers vars env) (AuthVerifier.claimsOf crates headers) :=
    fun _ _ hverified => AuthVerifier.verify_claims hverified
  have hstarts : ∀ task, Starts runtime (AuthExecution.requestOf crates headers vars env) task →
      task.Keeps (answers (AuthExecution.requestOf crates headers vars env)) (AuthVerifier.claimsOf crates headers)
        (AuthVerifier.claimsOf crates headers).isNone := by
    rintro task ⟨ir, ctx, _, rfl⟩
    exact keeps_eval hone ⟨fun _ hclaims => absurd hclaims List.not_mem_nil, Option.isNone_iff_eq_none.mpr⟩ ir ctx
  exact fun reading hreading claims hclaims => ((kept_run hstarts h).readings reading hreading claims hclaims).symm

def tokenRequest : RequestContext :=
  AuthExecution.requestOf AuthExecution.plainCrates [("authorization", "Tann")] [] fun _ => none

def annClaims : ConstValue :=
  .object [("aud", .null), ("iss", .null), ("sub", .string "ann")]

def subjectIr (jwks : String) : IR :=
  .protect (.provider (.jwt none [] true jwks)) none (.dynamic (.mustache ⟨[.expression ["claims", "sub"]]⟩))

def subjectTask (jwks : String) : EvalTask :=
  evalTask IoVisits.plainRuntime [] (subjectIr jwks) (.new tokenRequest .empty)

def subjectRead : EvalTask :=
  evalTask IoVisits.plainRuntime [some annClaims] (.dynamic (.mustache ⟨[.expression ["claims", "sub"]]⟩))
    (.new tokenRequest .empty)

theorem verified_ann (jwks : String) :
    AuthVerifier.verify tokenRequest.verify (.provider (.jwt none [] true jwks)) = .succeed (some annClaims) := by
  rfl

def subjectText : EvalTask :=
  finish (.ok (.string "ann"))

theorem verify_subject (jwks : String) (slot : Option ConstValue) :
    Task.Step (answers tokenRequest) slot (subjectTask jwks) none slot (.write annClaims subjectRead) := by
  let next : Verification → EvalTask := fun
    | .fail error => finish (.error (.auth error))
    | .succeed claims => storeTask claims (evalTask IoVisits.plainRuntime [claims]
        (.dynamic (.mustache ⟨[.expression ["claims", "sub"]]⟩)) (.new tokenRequest .empty))
  have hstep (answer : Verification)
      (hanswer : answers tokenRequest (.verify (.provider (.jwt none [] true jwks))) answer) :
      Task.Step (answers tokenRequest) slot (verify (.provider (.jwt none [] true jwks)) next) none slot (next answer) :=
    .ask hanswer
  exact hstep (.succeed (some annClaims)) (.inl (verified_ann jwks).symm)

theorem read_subject : Task.Step (answers tokenRequest) (some annClaims) subjectRead
    (some ⟨[some annClaims], some annClaims⟩) (some annClaims) subjectText :=
  .read

theorem starts_subject (jwks : String) : Starts IoVisits.plainRuntime tokenRequest (subjectTask jwks) :=
  ⟨subjectIr jwks, .new tokenRequest .empty, rfl, rfl⟩

def subjectEvents : List (Option (Reading ConstValue)) :=
  [none, none, none, none, none, none, some ⟨[some annClaims], some annClaims⟩, some ⟨[some annClaims], some annClaims⟩]

theorem subjects_run : Run (Does (answers tokenRequest) (Starts IoVisits.plainRuntime tokenRequest)) ⟨none, []⟩
    subjectEvents ⟨some annClaims, [subjectText, subjectText]⟩ := by
  have first {slot slot' : Option ConstValue} {reading : Option (Reading ConstValue)} {task task' other : EvalTask}
      (h : Task.Step (answers tokenRequest) slot task reading slot' task') :
      Does (answers tokenRequest) (Starts IoVisits.plainRuntime tokenRequest) ⟨slot, [] ++ task :: [other]⟩ reading
        ⟨slot', [] ++ task' :: [other]⟩ :=
    .step h
  have second {slot slot' : Option ConstValue} {reading : Option (Reading ConstValue)} {task task' other : EvalTask}
      (h : Task.Step (answers tokenRequest) slot task reading slot' task') :
      Does (answers tokenRequest) (Starts IoVisits.plainRuntime tokenRequest) ⟨slot, [other] ++ task :: []⟩ reading
        ⟨slot', [other] ++ task' :: []⟩ :=
    .step h
  have hstarted : Run (Does (answers tokenRequest) (Starts IoVisits.plainRuntime tokenRequest)) ⟨none, []⟩
      ([] ++ [none] ++ [none]) ⟨none, [] ++ [subjectTask "a"] ++ [subjectTask "b"]⟩ :=
    (Run.nil.snoc (.start (starts_subject "a"))).snoc (.start (starts_subject "b"))
  have hverified := (hstarted.snoc (first (verify_subject "a" none))).snoc (second (verify_subject "b" none))
  have hwritten := (hverified.snoc (first .write)).snoc (second .write)
  exact (hwritten.snoc (first read_subject)).snoc (second read_subject)

theorem claims_of_subjects :
    some ⟨[some annClaims], some annClaims⟩ ∈ subjectEvents ∧
      ∀ reading, some reading ∈ subjectEvents → ∀ claims ∈ reading.scope, reading.seen = claims := by
  refine ⟨List.mem_of_getElem? (i := 6) rfl, ?_⟩
  exact claims_of_guard IoVisits.plainRuntime AuthExecution.plainCrates [("authorization", "Tann")] [] (fun _ => none)
    subjects_run

end Gqlforge.GuardedClaims
