import Gqlforge.Plan

namespace Gqlforge.PlanChecks

open Resolvers Plan Templates

structure Check (β : Type) where
  dynamic : DynamicValue → β
  io : Io → β
  cache : Cache → β
  contextPath : β
  service : β
  protect : Auth → Option AccessExpr → β → β
  map : β → β
  pipe : β → β → β
  merge : List β → β
  entity : List β → β

namespace Check

variable {β : Type} (check : Check β)

mutual

def run : IR → β
  | .dynamic value => check.dynamic value
  | .io io => check.io io
  | .cache cache => check.cache cache
  | .path input _ => run input
  | .contextPath _ => check.contextPath
  | .protect auth accessExpr expr => check.protect auth accessExpr (run expr)
  | .map input _ => check.map (run input)
  | .pipe first second => check.pipe (run first) (run second)
  | .merge irs => check.merge (runAll irs)
  | .discriminate _ expr => run expr
  | .entity map => check.entity (runValues map)
  | .service _ => check.service

def runAll : List IR → List β
  | [] => []
  | ir :: rest => run ir :: runAll rest

def runValues : List (String × IR) → List β
  | [] => []
  | (_, ir) :: rest => run ir :: runValues rest

end

end Check

def checkConst : Check Bool where
  dynamic := DynamicValue.isConst
  io _ := false
  cache _ := false
  contextPath := false
  service := true
  protect _ _ below := below
  map below := below
  pipe first second := first && second
  merge below := below.all id
  entity below := below.all id

def isConst (ir : IR) : Bool :=
  checkConst.run ir

def checkProtected : Check Bool where
  dynamic _ := false
  io _ := false
  cache _ := false
  contextPath := false
  service := false
  protect _ _ _ := true
  map below := below
  pipe first second := first || second
  merge below := below.all id
  entity below := below.any id

def isProtected (ir : IR) : Bool :=
  checkProtected.run ir

def checkDedupe : Check Bool where
  dynamic _ := true
  io := Io.dedupe
  cache cache := cache.io.dedupe
  contextPath := true
  service := true
  protect _ _ below := below
  map _ := true
  pipe first second := first && second
  merge below := below.all id
  entity below := below.all id

def minTtl : Option NonZeroU64 → Option NonZeroU64 → Option NonZeroU64
  | some first, some second => some (min first second)
  | _, _ => none

def minTtls : List (Option NonZeroU64) → Option NonZeroU64
  | [] => none
  | ttl :: rest => rest.foldl minTtl ttl

def checkCache : Check (Option NonZeroU64) where
  dynamic _ := none
  io _ := none
  cache cache := some cache.maxAge
  contextPath := none
  service := none
  protect _ _ below := below
  map _ := none
  pipe := minTtl
  merge := minTtls
  entity := minTtls

section

variable {Input : Type} (plan : OperationPlan Input)

def checkIr (check : IR → Bool) (field : Field Input) : Bool :=
  field.ir.all check

def CheckConst.transform : OperationPlan Input :=
  { plan with isConst := plan.iterDfs.all (checkIr isConst) }

def CheckProtected.transform : OperationPlan Input :=
  { plan with isProtected := plan.iterDfs.all (checkIr isProtected) }

def CheckDedupe.transform : OperationPlan Input :=
  { plan with isDedupe := plan.selection.all (checkIr checkDedupe.run) }

def maxTtl : NonZeroU64 :=
  ⟨2 ^ 64 - 1, by decide⟩

def CheckCache.transform : OperationPlan Input :=
  { plan with
    minCacheTtl := (plan.selection.filterMap (·.ir)).foldl (fun ttl ir => minTtl ttl (checkCache.run ir))
      (some maxTtl) }

end

end Gqlforge.PlanChecks
