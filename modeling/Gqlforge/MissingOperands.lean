import Gqlforge.Eval

namespace Gqlforge.MissingOperands

open Json Resolvers EvalContext Eval

abbrev Comparison := Operand × Operand

inductive Positive : AccessExpr → Prop where
  | eq (left right : Operand) : Positive (.eq left right)
  | and {left right : AccessExpr} : Positive left → Positive right → Positive (.and left right)
  | or {left right : AccessExpr} : Positive left → Positive right → Positive (.or left right)

def routes : AccessExpr → List (List Comparison)
  | .eq left right => [[(left, right)]]
  | .and left right => (routes left).flatMap fun route => (routes right).map (route ++ ·)
  | .or left right => routes left ++ routes right
  | .not _ => []
  | .neq _ _ => []

section

variable (same other : Operand → Operand → Bool)

def evaluateBy : AccessExpr → Bool
  | .and left right => evaluateBy left && evaluateBy right
  | .or left right => evaluateBy left || evaluateBy right
  | .not expr => !evaluateBy expr
  | .eq left right => same left right
  | .neq left right => other left right

theorem evaluateBy_iff {expr : AccessExpr} (h : Positive expr) : evaluateBy same other expr = true ↔
    ∃ route ∈ routes expr, ∀ comparison ∈ route, same comparison.1 comparison.2 = true := by
  induction h with
  | eq left right =>
    simp only [evaluateBy, routes, List.mem_singleton, exists_eq_left, forall_eq]
  | @and left right _ _ ihl ihr =>
    rw [evaluateBy, Bool.and_eq_true, ihl, ihr]
    constructor
    · rintro ⟨⟨route, hroute, hholds⟩, route', hroute', hholds'⟩
      refine ⟨route ++ route', ?_, List.forall_mem_append.mpr ⟨hholds, hholds'⟩⟩
      exact List.mem_flatMap.mpr ⟨route, hroute, List.mem_map_of_mem hroute'⟩
    · rintro ⟨whole, hwhole, hholds⟩
      obtain ⟨route, hroute, hmapped⟩ := List.mem_flatMap.mp hwhole
      obtain ⟨route', hroute', rfl⟩ := List.mem_map.mp hmapped
      obtain ⟨hleft, hright⟩ := List.forall_mem_append.mp hholds
      exact ⟨⟨route, hroute, hleft⟩, route', hroute', hright⟩
  | @or left right _ _ ihl ihr =>
    rw [evaluateBy, Bool.or_eq_true, ihl, ihr, routes]
    constructor
    · rintro (⟨route, hroute, hholds⟩ | ⟨route, hroute, hholds⟩)
      · exact ⟨route, List.mem_append_left _ hroute, hholds⟩
      · exact ⟨route, List.mem_append_right _ hroute, hholds⟩
    · rintro ⟨route, hroute, hholds⟩
      obtain hleft | hright := List.mem_append.mp hroute
      · exact .inl ⟨route, hleft, hholds⟩
      · exact .inr ⟨route, hright, hholds⟩

end

section

variable (texts : Texts) (ctx : EvalContext) (claims : Option ConstValue)

def Agrees (comparison : Comparison) : Prop :=
  ∃ value value', resolveOperand texts ctx claims comparison.1 = some value ∧
    resolveOperand texts ctx claims comparison.2 = some value' ∧ jsonEq value value' = true

def Blank (comparison : Comparison) : Prop :=
  resolveOperand texts ctx claims comparison.1 = none ∧ resolveOperand texts ctx claims comparison.2 = none

def bothResolve (left right : Operand) : Bool :=
  (resolveOperand texts ctx claims left).isSome && (resolveOperand texts ctx claims right).isSome

def operandsEq (left right : Operand) : Bool :=
  sameOperand (resolveOperand texts ctx claims left) (resolveOperand texts ctx claims right)

def evaluateStrict (expr : AccessExpr) : Bool :=
  evaluateBy (fun left right => bothResolve texts ctx claims left right && operandsEq texts ctx claims left right)
    (fun left right => bothResolve texts ctx claims left right && !operandsEq texts ctx claims left right) expr

theorem evaluate_eq (expr : AccessExpr) : evaluate texts ctx claims expr =
    evaluateBy (operandsEq texts ctx claims) (fun left right => !operandsEq texts ctx claims left right) expr := by
  induction expr with
  | and left right ihl ihr => rw [evaluate, evaluateBy, ihl, ihr]
  | or left right ihl ihr => rw [evaluate, evaluateBy, ihl, ihr]
  | not expr ih => rw [evaluate, evaluateBy, ih]
  | eq left right => rfl
  | neq left right => rfl

variable {texts ctx claims} in
theorem operandsEq_iff {comparison : Comparison} : operandsEq texts ctx claims comparison.1 comparison.2 = true ↔
    Agrees texts ctx claims comparison ∨ Blank texts ctx claims comparison := by
  rw [operandsEq, Agrees, Blank]
  cases resolveOperand texts ctx claims comparison.1 <;> cases resolveOperand texts ctx claims comparison.2 <;>
    simp [sameOperand]

variable {texts ctx claims} in
theorem resolved_operandsEq_iff {comparison : Comparison} :
    (bothResolve texts ctx claims comparison.1 comparison.2 &&
      operandsEq texts ctx claims comparison.1 comparison.2) = true ↔ Agrees texts ctx claims comparison := by
  rw [operandsEq, bothResolve, Agrees]
  cases resolveOperand texts ctx claims comparison.1 <;> cases resolveOperand texts ctx claims comparison.2 <;>
    simp [sameOperand]

variable {texts ctx claims} in
theorem evaluate_iff {expr : AccessExpr} (h : Positive expr) : evaluate texts ctx claims expr = true ↔
    ∃ route ∈ routes expr, ∀ comparison ∈ route,
      Agrees texts ctx claims comparison ∨ Blank texts ctx claims comparison := by
  rw [evaluate_eq, evaluateBy_iff _ _ h]
  simp only [operandsEq_iff]

variable {texts ctx claims} in
theorem evaluateStrict_iff {expr : AccessExpr} (h : Positive expr) : evaluateStrict texts ctx claims expr = true ↔
    ∃ route ∈ routes expr, ∀ comparison ∈ route, Agrees texts ctx claims comparison := by
  rw [evaluateStrict, evaluateBy_iff _ _ h]
  simp only [resolved_operandsEq_iff]

/-- Where comparisons of two missing operands would complete a route, another route holds without any. -/
def NoRouteRestsOnBlanks (expr : AccessExpr) : Prop :=
  ∀ route ∈ routes expr, (∃ comparison ∈ route, Blank texts ctx claims comparison) →
    (∀ comparison ∈ route, Agrees texts ctx claims comparison ∨ Blank texts ctx claims comparison) →
    ∃ route' ∈ routes expr, ∀ comparison ∈ route', Agrees texts ctx claims comparison

/-- Missing operands grant nothing exactly when no route to a grant rests on two of them. -/
theorem evaluate_strict_iff {expr : AccessExpr} (h : Positive expr) :
    evaluate texts ctx claims expr = evaluateStrict texts ctx claims expr ↔
      NoRouteRestsOnBlanks texts ctx claims expr := by
  rw [Bool.eq_iff_iff, evaluate_iff h, evaluateStrict_iff h]
  constructor
  · intro hsame route hroute _ hholds
    exact hsame.mp ⟨route, hroute, hholds⟩
  · intro hrests
    refine ⟨?_, fun ⟨route, hroute, hagrees⟩ => ⟨route, hroute, fun comparison hc => .inl (hagrees comparison hc)⟩⟩
    rintro ⟨route, hroute, hholds⟩
    by_cases hblank : ∃ comparison ∈ route, Blank texts ctx claims comparison
    · exact hrests route hroute hblank hholds
    · refine ⟨route, hroute, fun comparison hc => ?_⟩
      exact (hholds comparison hc).resolve_right fun hb => hblank ⟨comparison, hc, hb⟩

end

def plainTexts : Texts :=
  { display := fun _ => "", json := fun _ => "" }

def plainContext : EvalContext :=
  EvalContext.new { allowedHeaders := [], vars := [], env := fun _ => none, verify := fun _ => .succeed none } .empty

theorem admin_strict :
    evaluate plainTexts plainContext (some (.object [("role", .string "admin")]))
        (.eq (.path ["claims", "role"]) (.stringLiteral "admin")) =
      evaluateStrict plainTexts plainContext (some (.object [("role", .string "admin")]))
        (.eq (.path ["claims", "role"]) (.stringLiteral "admin")) := by
  refine (evaluate_strict_iff _ _ _ (.eq _ _)).mpr ?_
  rintro route hroute ⟨comparison, hcomparison, -, hblank⟩ _
  rw [List.mem_singleton.mp hroute] at hcomparison
  rw [List.mem_singleton.mp hcomparison] at hblank
  cases hblank

theorem missing_granted :
    evaluate plainTexts plainContext none (.eq (.path ["claims", "x"]) (.path ["args", "y"])) = true ∧
      evaluateStrict plainTexts plainContext none (.eq (.path ["claims", "x"]) (.path ["args", "y"])) = false := by
  decide

end Gqlforge.MissingOperands
