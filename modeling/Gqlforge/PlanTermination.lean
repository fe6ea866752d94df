import Gqlforge.CollectCalls
import Gqlforge.Request

namespace Gqlforge.PlanTermination

open Document Schema Builder CollectCalls Request
open Relation

def rootCall (blueprint : Blueprint) (document : ExecutableDocument) (operationName : Option String) :
    Option Call :=
  match getOperation document operationName with
  | .error _ => none
  | .ok operation =>
    (getType blueprint.index operation.ty).map fun name => ⟨none, operation.selectionSet, name⟩

/-- None of the fragments that collecting the fields of the operation enters is entered again from
within itself. -/
def Acyclic (blueprint : Blueprint) (document : ExecutableDocument) (operationName : Option String) : Prop :=
  ∀ call ∈ rootCall blueprint document operationName, ∀ entry ∈ document.fragments,
    ReflTransGen (Calls blueprint.index document.fragments) (fragmentCall entry.2) call →
      ¬ TransGen (Calls blueprint.index document.fragments) (fragmentCall entry.2) (fragmentCall entry.2)

section

variable (blueprint : Blueprint) (document : ExecutableDocument) (operationName : Option String)

theorem build_isSome (fuel : Nat) :
    (build blueprint document fuel operationName).isSome = true ↔
      ∀ call ∈ rootCall blueprint document operationName,
        Returns (collectFields blueprint.index document.fragments fuel) call := by
  simp only [build, rootCall]
  cases getOperation document operationName with
  | error e => simp
  | ok operation =>
    cases hg : getType blueprint.index operation.ty with
    | none => simp [hg]
    | some name =>
      simp only [hg, Option.map_some, Option.mem_def, Option.some.injEq, forall_eq', Option.isSome_map]
      exact returns_iff (collectFields_uniform blueprint.index document.fragments fuel) _ _

theorem build_returns_iff :
    (∃ fuel, (build blueprint document fuel operationName).isSome = true) ↔
      Acyclic blueprint document operationName := by
  simp only [build_isSome, Acyclic]
  cases rootCall blueprint document operationName with
  | none => simp
  | some call =>
    simp only [Option.mem_def, Option.some.injEq, forall_eq']
    exact collectFields_returns_iff blueprint.index document.fragments call

end

theorem createPlan_isSome (frontend : Frontend) (blueprint : Blueprint) (fuel : Nat) (request : Request) :
    (createPlan frontend blueprint fuel request).isSome = true ↔
      ∀ document, frontend.parse request.query = .ok document →
        (build blueprint document fuel request.operationName).isSome = true := by
  unfold createPlan
  cases frontend.parse request.query with
  | error message => simp
  | ok document => simp

theorem planning_returns_iff (blueprint : Blueprint) :
    (∀ document operationName, (∃ fuel, (build blueprint document fuel operationName).isSome = true) ↔
      Acyclic blueprint document operationName) ∧
    ∀ frontend request, (∃ fuel, (createPlan frontend blueprint fuel request).isSome = true) ↔
      ∀ document, frontend.parse request.query = .ok document →
        Acyclic blueprint document request.operationName := by
  refine ⟨build_returns_iff blueprint, fun frontend request => ?_⟩
  simp only [createPlan_isSome]
  cases frontend.parse request.query with
  | error message => simp
  | ok document =>
    simp only [Except.ok.injEq, forall_eq']
    exact build_returns_iff blueprint document request.operationName

def queryBlueprint : Blueprint :=
  ⟨[.object "Query" [⟨"name", [], .named "String" false, none⟩] []], ⟨"Query", none, none⟩⟩

def selfSpreading : ExecutableDocument :=
  ⟨.single ⟨.query, [], [.fragmentSpread ⟨1, 3⟩ "A" []]⟩,
    [("A", ⟨"Query", [], [.fragmentSpread ⟨1, 31⟩ "A" []]⟩)]⟩

theorem planning_selfSpreading :
    ¬ ∃ fuel, (build queryBlueprint selfSpreading fuel none).isSome = true := by
  rw [build_returns_iff]
  intro h
  have hself : Calls queryBlueprint.index selfSpreading.fragments
      (fragmentCall ⟨"Query", [], [.fragmentSpread ⟨1, 31⟩ "A" []]⟩)
      (fragmentCall ⟨"Query", [], [.fragmentSpread ⟨1, 31⟩ "A" []]⟩) := by
    simp [Calls, callees, itemsCalls, itemCall, fragmentCall, selfSpreading]
  refine h ⟨none, [.fragmentSpread ⟨1, 3⟩ "A" []], "Query"⟩ rfl _ List.mem_cons_self (.single ?_)
    (.single hself)
  simp [Calls, callees, itemsCalls, itemCall, fragmentCall, selfSpreading]

end Gqlforge.PlanTermination
