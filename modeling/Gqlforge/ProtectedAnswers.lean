import Gqlforge.Directives
import Gqlforge.GraphqlExecutor
import Gqlforge.PlanResolvers

namespace Gqlforge.ProtectedAnswers

open Json Document Resolvers Schema Plan SelectionSets EvalContext Eval EvalReach Builder
open PlanChecks AuthPlanner PlannedAuth PlannedEval RelatedLists InputResolver AuthExecution Request
open ConstValueExecutor GraphqlExecutor PlanResolvers

def checkHolds : Check Bool where
  dynamic _ := false
  io _ := false
  cache _ := false
  contextPath := false
  service := false
  protect _ _ _ := true
  map below := below
  pipe first second := first || second
  merge below := below.any id
  entity below := below.any id

def holdsProtect (ir : IR) : Bool :=
  checkHolds.run ir

def isProtectedPlan {Input : Type} (plan : OperationPlan Input) : Bool :=
  (resolvers plan.selection).any holdsProtect

def mixes {Input : Type} (plan : OperationPlan Input) : Bool :=
  isProtectedPlan plan && (resolvers plan.selection).all isConst && !(resolvers plan.selection).all isProtected

mutual

theorem guards_of_unprotected : ∀ (ir : IR) (position : List Step) (guards : List Guard), holdsProtect ir = false →
    ∀ node ∈ nodes position guards ir, node.guards = guards
  | .protect _ _ _, _, _, h => nomatch h
  | .path input _, position, guards, h | .map input _, position, guards, h | .discriminate _ input, position, guards, h => by
    intro node hn
    rw [nodes] at hn
    rcases List.mem_cons.mp hn with rfl | hn
    · rfl
    · exact guards_of_unprotected input _ guards h node hn
  | .pipe first second, position, guards, h => by
    obtain ⟨hfirst, hsecond⟩ := Bool.or_eq_false_iff.mp h
    intro node hn
    rw [nodes] at hn
    rcases List.mem_cons.mp hn with rfl | hn
    · rfl
    · rcases List.mem_append.mp hn with hn | hn
      · exact guards_of_unprotected first _ guards hfirst node hn
      · exact guards_of_unprotected second _ guards hsecond node hn
  | .merge irs, position, guards, h => by
    intro node hn
    rw [nodes] at hn
    rcases List.mem_cons.mp hn with rfl | hn
    · rfl
    · exact guards_of_unprotectedAll irs position guards 0 h node hn
  | .entity map, position, guards, h => by
    intro node hn
    rw [nodes] at hn
    rcases List.mem_cons.mp hn with rfl | hn
    · rfl
    · exact guards_of_unprotectedEntries map position guards 0 h node hn
  | .dynamic _, _, _, _ | .io _, _, _, _ | .cache _, _, _, _ | .contextPath _, _, _, _ | .service _, _, _, _ => by
    intro node hn
    rw [nodes] at hn
    rw [List.mem_singleton.mp hn]

theorem guards_of_unprotectedAll : ∀ (irs : List IR) (position : List Step) (guards : List Guard) (index : Nat),
    (checkHolds.runAll irs).any id = false → ∀ node ∈ nodesAll position guards index irs, node.guards = guards
  | [], _, _, _, _ => nofun
  | ir :: rest, position, guards, index, h => by
    obtain ⟨hfirst, hrest⟩ := Bool.or_eq_false_iff.mp h
    intro node hn
    rw [nodesAll] at hn
    rcases List.mem_append.mp hn with hn | hn
    · exact guards_of_unprotected ir _ guards hfirst node hn
    · exact guards_of_unprotectedAll rest position guards (index + 1) hrest node hn

theorem guards_of_unprotectedEntries : ∀ (map : List (String × IR)) (position : List Step) (guards : List Guard)
    (index : Nat), (checkHolds.runValues map).any id = false →
      ∀ node ∈ nodesEntries position guards index map, node.guards = guards
  | [], _, _, _, _ => nofun
  | (_, ir) :: rest, position, guards, index, h => by
    obtain ⟨hfirst, hrest⟩ := Bool.or_eq_false_iff.mp h
    intro node hn
    rw [nodesEntries] at hn
    rcases List.mem_append.mp hn with hn | hn
    · exact guards_of_unprotected ir _ guards hfirst node hn
    · exact guards_of_unprotectedEntries rest position guards (index + 1) hrest node hn

end

section

variable {f g : Io → Io}

mutual

theorem erase_modifyIo : ∀ ir, erase (modifyIo f ir) = modifyIo f (erase ir)
  | .protect _ _ expr => by rw [modifyIo, erase, erase, erase_modifyIo expr]
  | .path input path => by rw [modifyIo, erase, erase, modifyIo, erase_modifyIo input]
  | .map input map => by rw [modifyIo, erase, erase, modifyIo, erase_modifyIo input]
  | .discriminate discriminator expr => by rw [modifyIo, erase, erase, modifyIo, erase_modifyIo expr]
  | .pipe first second => by rw [modifyIo, erase, erase, modifyIo, erase_modifyIo first, erase_modifyIo second]
  | .entity map => by rw [modifyIo, erase, erase, modifyIo, erase_modifyIoValues map]
  | .merge _ => by simp [modifyIo, erase]
  | .dynamic _ | .io _ | .cache _ | .contextPath _ | .service _ => by simp [modifyIo, erase]

theorem erase_modifyIoValues : ∀ map, eraseEntries (modifyIoValues f map) = modifyIoValues f (eraseEntries map)
  | [] => rfl
  | (_, ir) :: rest => by
    rw [modifyIoValues, eraseEntries, eraseEntries, modifyIoValues, erase_modifyIo ir, erase_modifyIoValues rest]

end

mutual

theorem modifyIo_modifyIo (h : ∀ io, g (f io) = g io) : ∀ ir, modifyIo g (modifyIo f ir) = modifyIo g ir
  | .protect _ _ expr => by rw [modifyIo, modifyIo, modifyIo, modifyIo_modifyIo h expr]
  | .path input _ => by rw [modifyIo, modifyIo, modifyIo, modifyIo_modifyIo h input]
  | .map input _ => by rw [modifyIo, modifyIo, modifyIo, modifyIo_modifyIo h input]
  | .discriminate _ expr => by rw [modifyIo, modifyIo, modifyIo, modifyIo_modifyIo h expr]
  | .pipe first second => by
    rw [modifyIo, modifyIo, modifyIo, modifyIo_modifyIo h first, modifyIo_modifyIo h second]
  | .entity map => by rw [modifyIo, modifyIo, modifyIo, modifyIo_modifyIoValues h map]
  | .io io | .cache ⟨_, io⟩ => by simp [modifyIo, h io]
  | .merge _ | .dynamic _ | .contextPath _ | .service _ => by simp [modifyIo]

theorem modifyIo_modifyIoValues (h : ∀ io, g (f io) = g io) :
    ∀ map, modifyIoValues g (modifyIoValues f map) = modifyIoValues g map
  | [] => rfl
  | (_, ir) :: rest => by
    rw [modifyIoValues, modifyIoValues, modifyIoValues, modifyIo_modifyIo h ir, modifyIo_modifyIoValues h rest]

end

end

def blank : Io → Io
  | .graphQL reqTemplate fieldName dedupe => .graphQL { reqTemplate with selection := none } fieldName dedupe
  | io => io

def bare (ir : IR) : IR :=
  modifyIo blank (erase ir)

theorem blank_setSelection (selection : Option String) (io : Io) : blank (setSelection selection io) = blank io := by
  cases io with
  | graphQL => cases selection <;> rfl
  | _ => rfl

theorem blank_resolveTemplate (ctx : Templates.PathContext) (io : Io) : blank (resolveTemplate ctx io) = blank io := by
  cases io <;> rfl

theorem bare_modifyIo {f : Io → Io} (h : ∀ io, blank (f io) = blank io) (ir : IR) : bare (modifyIo f ir) = bare ir := by
  rw [bare, bare, erase_modifyIo, modifyIo_modifyIo h]

structure Refined (node node' : Node) : Prop where
  position : node'.position = node.position
  ir : bare node'.ir = bare node.ir
  guards : node'.guards = node.guards

abbrev NodesRefined : List Node → List Node → Prop :=
  List.Forall₂ Refined

section

variable {f : Io → Io}

theorem refined_refl (among : List Node) : NodesRefined among among :=
  List.forall₂_same.mpr fun _ _ => ⟨rfl, rfl, rfl⟩

theorem refined_modifyIo (hf : ∀ io, blank (f io) = blank io) (position : List Step) (guards : List Guard) (ir : IR) :
    Refined ⟨position, guards, ir⟩ ⟨position, guards, modifyIo f ir⟩ :=
  ⟨rfl, bare_modifyIo hf ir, rfl⟩

mutual

theorem nodes_modifyIo (hf : ∀ io, blank (f io) = blank io) : ∀ (ir : IR) (position : List Step) (guards : List Guard),
    NodesRefined (nodes position guards ir) (nodes position guards (modifyIo f ir))
  | .protect auth accessExpr expr, position, guards => by
    rw [modifyIo, nodes, nodes]
    exact nodes_modifyIo hf expr position (guards ++ [(auth, accessExpr)])
  | .path input path, position, guards => by
    have hself := refined_modifyIo hf position guards (.path input path)
    rw [modifyIo] at hself ⊢
    rw [nodes, nodes]
    exact .cons hself (nodes_modifyIo hf input (position ++ [.below]) guards)
  | .map input map, position, guards => by
    have hself := refined_modifyIo hf position guards (.map input map)
    rw [modifyIo] at hself ⊢
    rw [nodes, nodes]
    exact .cons hself (nodes_modifyIo hf input (position ++ [.below]) guards)
  | .discriminate discriminator expr, position, guards => by
    have hself := refined_modifyIo hf position guards (.discriminate discriminator expr)
    rw [modifyIo] at hself ⊢
    rw [nodes, nodes]
    exact .cons hself (nodes_modifyIo hf expr (position ++ [.below]) guards)
  | .pipe first second, position, guards => by
    have hself := refined_modifyIo hf position guards (.pipe first second)
    rw [modifyIo] at hself ⊢
    rw [nodes, nodes]
    exact .cons hself (List.rel_append (nodes_modifyIo hf first (position ++ [.first]) guards)
      (nodes_modifyIo hf second (position ++ [.second]) guards))
  | .entity map, position, guards => by
    have hself := refined_modifyIo hf position guards (.entity map)
    rw [modifyIo] at hself ⊢
    rw [nodes, nodes]
    exact .cons hself (nodes_modifyIoValues hf map position guards 0)
  | .io io, position, guards => by
    have hself := refined_modifyIo hf position guards (.io io)
    rw [modifyIo] at hself ⊢
    rw [nodes, nodes]
    exact .cons hself .nil
  | .cache cache, position, guards => by
    have hself := refined_modifyIo hf position guards (.cache cache)
    rw [modifyIo] at hself ⊢
    rw [nodes, nodes]
    exact .cons hself .nil
  | .merge irs, position, guards => refined_refl (nodes position guards (.merge irs))
  | .dynamic value, position, guards => refined_refl (nodes position guards (.dynamic value))
  | .contextPath path, position, guards => refined_refl (nodes position guards (.contextPath path))
  | .service sdl, position, guards => refined_refl (nodes position guards (.service sdl))

theorem nodes_modifyIoValues (hf : ∀ io, blank (f io) = blank io) : ∀ (map : List (String × IR)) (position : List Step)
    (guards : List Guard) (index : Nat), NodesRefined (nodesEntries position guards index map)
      (nodesEntries position guards index (modifyIoValues f map))
  | [], _, _, _ => .nil
  | (_, ir) :: rest, position, guards, index => by
    rw [modifyIoValues, nodesEntries, nodesEntries]
    exact List.rel_append (nodes_modifyIo hf ir (position ++ [.entry index]) guards)
      (nodes_modifyIoValues hf rest position guards (index + 1))

end

end

section

variable {Key σ : Type} [DecidableEq Key] (runtime : Runtime Key σ) (request : RequestContext)

/-- What is evaluated is a part of a resolver of the plan that was built, and the request meets all checks around it. -/
def Allowed (built : OperationPlan Value) (entered : Entered) : Prop :=
  ∃ ir ∈ resolvers built.selection, ∃ node ∈ nodes [] [] ir, node.position = entered.way.position ∧
    bare node.ir = bare entered.ir ∧ ∀ guard ∈ node.guards, GuardMet runtime request entered guard

variable {runtime request}

theorem verified_of_before {auths : List Auth} {state state' : RequestState Key σ}
    (h : (runBefore runtime request (beforeOf auths)).run.run state = (.ok (), state')) :
    ∀ auth ∈ auths, Verified request auth := by
  cases hreduce : reduceAuth auths with
  | none =>
    cases auths with
    | nil => exact nofun
    | cons first rest => cases hreduce
  | some auth =>
    have hbefore : beforeOf auths = some (.protect auth none (.dynamic (.const .null))) := by
      rw [beforeOf, hreduce]
      rfl
    have hrun := runBefore_protect runtime request auth state
    rw [hbefore] at h
    cases hverify : AuthVerifier.verify request.verify auth with
    | fail error =>
      rw [hverify, h] at hrun
      cases hrun
    | succeed claims => exact (verified_reduceAuth hreduce).mp ⟨claims, hverify⟩

omit [DecidableEq Key] in
theorem allowed_of_at {app : AppContext Key σ} {operation : Request} {built : OperationPlan Value}
    {executed : OperationPlan ConstValue} {entered : Entered}
    (hverified : ∀ auth ∈ (updateFields built.selection).2, Verified request auth)
    (hresolved : resolved app operation (planTransforms app.frontend.printer built) = some (.ok executed))
    (h : ∃ field ∈ executed.iterDfs, ∃ ir, field.ir = some ir ∧ At runtime.texts request (nodes [] [] ir) entered) :
    Allowed runtime request built entered := by
  obtain ⟨field, hf, ir, hir, hat⟩ := h
  obtain ⟨ir₀, hir₀, planned, text, hplanned, rfl⟩ :=
    resolvers_executed hresolved ir (mem_resolvers.mpr ⟨field, hf, hir⟩)
  obtain ⟨filled, hfilled, hr⟩ := exists_related (nodes_modifyIo (blank_resolveTemplate _) _ [] []) hat.node
  obtain ⟨moved, hmoved, hr'⟩ := exists_related (nodes_modifyIo (blank_setSelection text) planned [] []) hfilled
  obtain ⟨node, hn, hkept⟩ := exists_related (nodes_planned hplanned [] [] [] .nil) hmoved
  refine ⟨ir₀, hir₀, node, hn, ?_, ?_, ?_⟩
  · exact hkept.position.symm.trans (hr'.position.symm.trans hr.position.symm)
  · have hbare : bare moved.ir = bare node.ir := by rw [bare, bare, hkept.ir]
    exact hbare.symm.trans (hr'.ir.symm.trans hr.ir.symm)
  · apply guardMet_of_kept hverified hkept.guards
    rw [← hr'.guards, ← hr.guards]
    exact guardMet_of_holds hat.holds

theorem execute_entered (app : AppContext Key σ) (operation : Request) (built : OperationPlan Value)
    (state : RequestState Key σ) :
    let plan := planTransforms app.frontend.printer built
    ∃ entered, ((ConstValueExecutor.execute app operation request plan).run state).2.entered =
        ((runBefore app.runtime request plan.before).run.run state).2.entered ++ entered ∧
      ∀ e ∈ entered, Allowed app.runtime request built e := by
  intro plan
  have hnothing (log : List Entered) : ∃ entered, log = log ++ entered ∧
      ∀ e ∈ entered, Allowed app.runtime request built e := ⟨[], (List.append_nil _).symm, nofun⟩
  rw [execute_run]
  cases hbefore : (runBefore app.runtime request plan.before).run.run state with
  | mk result state' =>
    cases result with
    | error error => exact hnothing _
    | ok value =>
      cases hresolved : resolved app operation plan with
      | none => exact hnothing _
      | some result =>
        cases result with
        | error error => exact hnothing _
        | ok executed =>
          obtain ⟨entered, hlog, hkind, -⟩ := runFields_adds app.runtime request executed state'
          refine ⟨entered, hlog, fun e he => ?_⟩
          exact allowed_of_at (verified_of_before hbefore) hresolved (hkind e he)

omit [DecidableEq Key] in
theorem allowed_of_unprotected {built : OperationPlan Value} (h : isProtectedPlan built = false)
    (request' : RequestContext) {entered : Entered} (hallowed : Allowed runtime request built entered) :
    Allowed runtime request' built entered := by
  obtain ⟨ir, hir, node, hn, hposition, hbare, -⟩ := hallowed
  have hnone : node.guards = [] :=
    guards_of_unprotected ir [] [] (by simpa using List.any_eq_false.mp h ir hir) node hn
  refine ⟨ir, hir, node, hn, hposition, hbare, ?_⟩
  rw [hnone]
  exact nofun

end

section

variable {Key σ : Type} [DecidableEq Key] (app : AppContext Key σ)

def builtFor (operation : Request) : Option (OperationPlan Value) :=
  match app.frontend.parse operation.query with
  | .error _ => none
  | .ok document => match build app.blueprint document app.fuel operation.operationName with
    | some (.ok built) => some built
    | _ => none

def planned (built : OperationPlan Value) : OperationPlan Value :=
  planTransforms app.frontend.printer built

variable {app}

omit [DecidableEq Key] in
theorem createPlan_ok {operation : Request} {plan : OperationPlan Value}
    (h : createPlan app.frontend app.blueprint app.fuel operation = some (.ok plan)) :
    ∃ built, builtFor app operation = some built ∧ planned app built = plan := by
  unfold createPlan at h
  unfold builtFor
  cases hparse : app.frontend.parse operation.query with
  | error message =>
    rw [hparse] at h
    cases h
  | ok document =>
    simp only [hparse, Option.map_eq_some_iff] at h
    obtain ⟨result, hbuild, hplan⟩ := h
    cases result with
    | error error => cases hplan
    | ok built => exact ⟨built, by simp only [hbuild], Except.ok.inj hplan⟩

theorem all_checkIr {Input : Type} (check : IR → Bool) (plan : OperationPlan Input) :
    plan.iterDfs.all (checkIr check) = (resolvers plan.selection).all check := by
  rw [resolvers, List.all_filterMap]
  rfl

omit [DecidableEq Key] in
theorem stores_planned (built : OperationPlan Value) : ((planned app built).isConst && !(planned app built).isProtected) =
    ((resolvers built.selection).all isConst && !(resolvers built.selection).all isProtected) := by
  rw [← all_checkIr, ← all_checkIr]
  rfl

omit [DecidableEq Key] in
theorem unprotected_of_stores {built : OperationPlan Value} (hmixes : mixes built = false)
    (h : ((planned app built).isConst && !(planned app built).isProtected) = true) : isProtectedPlan built = false := by
  rw [stores_planned] at h
  rw [mixes, Bool.and_assoc, h, Bool.and_true] at hmixes
  exact hmixes

/-- A response that an execution of a plan without checks has made for one of the requests. -/
def Unprotected (app : AppContext Key σ) (arrivals : List Arrival) (response : Response Output) : Prop :=
  ∃ maker ∈ arrivals, ∃ built outside, isProtectedPlan built = false ∧
    (executed app maker (planned app built) outside).1 = some response

/-- The response of an execution in which nothing was evaluated that the request does not meet the checks of. -/
def Guarded (app : AppContext Key σ) (arrivals : List Arrival) (request : RequestContext) (response : Response Output) :
    Prop :=
  ∃ maker ∈ arrivals, ∃ built outside, (executed app maker (planned app built) outside).1 = some response ∧
    ∃ entered, (executed app maker (planned app built) outside).2.entered =
        ((runBefore app.runtime maker.request (planned app built).before).run.run (requestState outside)).2.entered ++
          entered ∧
      ∀ e ∈ entered, Allowed app.runtime request built e

theorem caches_serve (outside : σ) (arrivals : List Arrival)
    (h : ∀ maker ∈ arrivals, ∀ built, builtFor app maker.operation = some built → mixes built = false) :
    Caches (fun key plan => ∃ maker ∈ arrivals, hashOf app maker = key ∧
        createPlan app.frontend app.blueprint app.fuel maker.operation = some (.ok plan))
      (fun _ response => Unprotected app arrivals response) (serve app outside arrivals) := by
  induction arrivals using List.reverseRecOn with
  | nil => exact caches_start outside
  | append_singleton arrivals arrival ih =>
    have hcaches := ih fun maker hm => h maker (List.mem_append_left _ hm)
    have hmade (plan : OperationPlan Value) (hplan : planFor app arrival (serve app outside arrivals) = some (.ok plan)) :=
      planFor_ok (fun plan => hcaches.plans _ plan) hplan
    rw [serve_append]
    apply caches_execute
    · refine ⟨?_, ?_⟩
      · intro key plan hk
        obtain ⟨maker, hm, hrest⟩ := hcaches.plans key plan hk
        exact ⟨maker, List.mem_append_left _ hm, hrest⟩
      · intro key response hk
        obtain ⟨maker, hm, hrest⟩ := hcaches.kept key response hk
        exact ⟨maker, List.mem_append_left _ hm, hrest⟩
    · exact hmade
    · intro plan response hplan hresponse hstores
      obtain ⟨maker, hm, -, hcreate⟩ := hmade plan hplan
      obtain ⟨built, hbuilt, rfl⟩ := createPlan_ok hcreate
      have hunprotected := unprotected_of_stores (h maker hm built hbuilt) hstores
      exact ⟨arrival, List.mem_append_right _ List.mem_cons_self, built, _, hunprotected, hresponse⟩

end

def meResolver : IR :=
  .protect (.provider (.basic "alice")) none (.dynamic (.const (.string "Alice")))

def greetingBlueprint : Blueprint :=
  ⟨[.object "Query" [⟨"me", [], .named "String" false, some meResolver⟩,
      ⟨"hello", [], .named "String" false, some (.dynamic (.const (.string "Hi")))⟩] []], ⟨"Query", none, none⟩⟩

def meItem : Selection :=
  .field ⟨1, 3⟩ none "me" [] [] []

def helloItem : Selection :=
  .field ⟨1, 6⟩ none "hello" [] [] []

def greetingApp (items : List Selection) : AppContext String Unit where
  frontend := Directives.frontendOf items
  blueprint := greetingBlueprint
  runtime := {
    IoVisits.plainRuntime with
    hash := fun _ => "", backendKey := fun _ _ _ => none, cacheGet := fun _ => return .ok none,
    cacheSet := fun _ _ _ => return .ok () }
  printer := ⟨fun _ => "", fun _ => false⟩
  formats := ⟨fun _ => true, fun _ => true, fun _ => true, fun _ => true⟩
  reqHash query := query
  enableIntrospection := true
  introspection _ := ⟨.null, [], []⟩
  fuel := 3

def owner : Arrival :=
  ⟨⟨"{ me hello }", none, [], []⟩, ⟨[], [], fun _ => none, fun _ => .succeed none⟩⟩

def stranger : Arrival :=
  ⟨⟨"{ me hello }", none, [], []⟩, ⟨[], [], fun _ => none, fun _ => .fail .missing⟩⟩

def meField {Input : Type} (ir : IR) : Field Input :=
  ⟨0, "me", "me", some ir, .named "String" false, some "Query", none, none, [], [], none, ⟨1, 3⟩, [], false, some .empty⟩

def helloField {Input : Type} : Field Input :=
  ⟨1, "hello", "hello", some (.dynamic (.const (.string "Hi"))), .named "String" false, some "Query", none, none, [], [],
    none, ⟨1, 6⟩, [], false, some .empty⟩

def greetingBuilt (fields : List (Field Value)) : OperationPlan Value :=
  ⟨"Query", .query, greetingBlueprint.index, false, false, false, false, none, fields, none, some []⟩

def greetingPlan {Input : Type} (interfaces : Option (List String)) : OperationPlan Input :=
  ⟨"Query", .query, greetingBlueprint.index, false, true, true, false, none,
    [meField (.dynamic (.const (.string "Alice"))), helloField],
    some (.protect (.provider (.basic "alice")) none (.dynamic (.const .null))), interfaces⟩

def greeting : Response Output :=
  ⟨.object [("me", .str "Alice"), ("hello", .str "Hi")], [], []⟩

theorem executed_owner :
    (executed (greetingApp [meItem, helloItem]) owner (greetingPlan (some [])) ()).1 = some greeting := by
  have hresolved : resolved (greetingApp [meItem, helloItem]) owner.operation (greetingPlan (some [])) =
      some (.ok (greetingPlan none)) := rfl
  rw [executed, execute_run, hresolved]
  rfl

end Gqlforge.ProtectedAnswers
