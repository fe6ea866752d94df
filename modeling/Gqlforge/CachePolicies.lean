import Mathlib.Algebra.Group.Int.Defs
import Mathlib.Algebra.Group.Nat.Defs
import Mathlib.Data.List.Perm.Basic
import Mathlib.Order.Basic

namespace Gqlforge.CachePolicies

inductive Cachability where
  | publicCache
  | privateCache
  | noCache
  | onlyIfCached
  deriving DecidableEq

structure CachePolicy where
  cachability : Option Cachability
  maxAge : Option Nat
  noStore : Bool

structure UpstreamResponse where
  success : Bool
  policy : Option CachePolicy

structure RequestContext where
  minMaxAge : Option Int
  cachePublic : Option Bool

structure CacheControl where
  maxAge : Int
  isPublic : Bool
  deriving DecidableEq

namespace RequestContext

def new : RequestContext :=
  { minMaxAge := none, cachePublic := none }

def setMinMaxAge (ctx : RequestContext) (maxAge : Int) : RequestContext :=
  match ctx.minMaxAge with
  | some minMaxAge => if maxAge < minMaxAge then { ctx with minMaxAge := some maxAge } else ctx
  | none => { ctx with minMaxAge := some maxAge }

def setCacheVisibility (ctx : RequestContext) : Option Cachability → RequestContext
  | some .privateCache => { ctx with cachePublic := some false }
  | _ => ctx

def secsI32 (secs : Nat) : Int :=
  if secs < 2 ^ 31 then secs else 2 ^ 31 - 1

def setCacheControl (ctx : RequestContext) (cachePolicy : CachePolicy) : RequestContext :=
  let aged := match cachePolicy.maxAge with
    | some maxAge => ctx.setMinMaxAge (secsI32 maxAge)
    | none => ctx
  let visible := aged.setCacheVisibility cachePolicy.cachability
  if cachePolicy.cachability = some .noCache then visible.setMinMaxAge (-1) else visible

end RequestContext

def setCacheControl (enabled : Bool) (ctx : RequestContext) (response : UpstreamResponse) : RequestContext :=
  match response.policy with
  | some policy => if enabled && response.success then ctx.setCacheControl policy else ctx
  | none => ctx

namespace CacheControl

def initial : CacheControl :=
  { maxAge := 0, isPublic := true }

def value (cc : CacheControl) : Option String :=
  let age :=
    if 0 < cc.maxAge then "max-age=" ++ toString cc.maxAge
    else if cc.maxAge = -1 then "no-cache"
    else ""
  let value :=
    if cc.isPublic then age
    else if age.isEmpty then "private"
    else age ++ ", " ++ "private"
  if value.isEmpty then none else some value

def mergeAge (age other : Int) : Int :=
  if age = -1 ∨ other = -1 then -1
  else if other = 0 then age
  else if age = 0 then other
  else min age other

def merge (cc other : CacheControl) : CacheControl :=
  { isPublic := cc.isPublic && other.isPublic, maxAge := mergeAge cc.maxAge other.maxAge }

end CacheControl

structure AnyResponse where
  cacheControl : CacheControl
  isOk : Bool
  deriving DecidableEq

inductive BatchResponse where
  | single (response : AnyResponse)
  | batch (responses : List AnyResponse)
  deriving DecidableEq

namespace BatchResponse

def isOk : BatchResponse → Bool
  | single response => response.isOk
  | batch responses => responses.all (·.isOk)

def cacheControl (cc : Option CacheControl) : BatchResponse → CacheControl
  | single response => cc.getD response.cacheControl
  | batch responses =>
    responses.foldl (fun merged response => merged.merge (cc.getD response.cacheControl)) .initial

end BatchResponse

structure GraphQLArcResponse where
  response : BatchResponse
  cacheControl : Option CacheControl

namespace GraphQLArcResponse

def new (response : BatchResponse) : GraphQLArcResponse :=
  { response, cacheControl := none }

def setCacheControl (arc : GraphQLArcResponse) (enableCacheHeader : Bool) (maxAge : Int) (isPublic : Bool) :
    GraphQLArcResponse :=
  { response := arc.response, cacheControl := if enableCacheHeader then some { maxAge, isPublic } else none }

def cacheHeader (arc : GraphQLArcResponse) : Option String :=
  if arc.response.isOk then (arc.response.cacheControl arc.cacheControl).value else none

end GraphQLArcResponse

def received (enabled : Bool) (responses : List UpstreamResponse) : RequestContext :=
  responses.foldl (setCacheControl enabled) .new

def executeQuery (enabled : Bool) (responses : List UpstreamResponse) (answer : BatchResponse) : Option String :=
  let ctx := received enabled responses
  ((GraphQLArcResponse.new answer).setCacheControl enabled (ctx.minMaxAge.getD 0)
    (ctx.cachePublic.getD true)).cacheHeader

/-! ## What a request context keeps -/

def UpstreamResponse.counted (response : UpstreamResponse) : Option CachePolicy :=
  if response.success then response.policy else none

def CachePolicy.marks (policy : CachePolicy) : List Int :=
  (policy.maxAge.map RequestContext.secsI32).toList ++ if policy.cachability = some .noCache then [-1] else []

def lower (least : Option Int) (mark : Int) : Option Int :=
  some (least.elim mark (min · mark))

theorem foldl_lower (marks : List Int) : marks.foldl lower none = marks.min? := by
  have hfold (least : Int) (rest : List Int) : rest.foldl lower (some least) = some (rest.foldl min least) := by
    induction rest generalizing least with
    | nil => rfl
    | cons mark rest ih => exact ih (min least mark)
  cases marks with
  | nil => rfl
  | cons mark rest => exact hfold mark rest

namespace RequestContext

theorem setMinMaxAge_eq (ctx : RequestContext) (maxAge : Int) :
    ctx.setMinMaxAge maxAge = { ctx with minMaxAge := lower ctx.minMaxAge maxAge } := by
  obtain ⟨minMaxAge, cachePublic⟩ := ctx
  cases minMaxAge with
  | none => rfl
  | some least =>
    simp only [setMinMaxAge, lower, Option.elim]
    split
    · rw [Int.min_eq_right (by omega)]
    · rw [Int.min_eq_left (by omega)]

theorem setCacheVisibility_eq (ctx : RequestContext) (cachability : Option Cachability) :
    ctx.setCacheVisibility cachability = { ctx with
      cachePublic := if cachability = some .privateCache then some false else ctx.cachePublic } := by
  cases cachability with
  | none => rfl
  | some kind => cases kind <;> rfl

theorem setCacheControl_eq (ctx : RequestContext) (policy : CachePolicy) : ctx.setCacheControl policy =
    { minMaxAge := policy.marks.foldl lower ctx.minMaxAge
      cachePublic := if policy.cachability = some .privateCache then some false else ctx.cachePublic } := by
  obtain ⟨cachability, maxAge, noStore⟩ := policy
  by_cases hcache : cachability = some .noCache
  · cases maxAge <;>
      simp [setCacheControl, CachePolicy.marks, setMinMaxAge_eq, setCacheVisibility_eq, hcache]
  · cases maxAge <;>
      simp [setCacheControl, CachePolicy.marks, setMinMaxAge_eq, setCacheVisibility_eq, hcache]

end RequestContext

def counted (responses : List UpstreamResponse) : List CachePolicy :=
  responses.filterMap UpstreamResponse.counted

theorem received_eq (responses : List UpstreamResponse) : received true responses =
    (counted responses).foldl RequestContext.setCacheControl .new := by
  have hstep (ctx : RequestContext) (response : UpstreamResponse) : setCacheControl true ctx response =
      response.counted.elim ctx ctx.setCacheControl := by
    obtain ⟨success, policy⟩ := response
    cases success <;> cases policy <;> rfl
  rw [received, counted]
  generalize RequestContext.new = ctx
  induction responses generalizing ctx with
  | nil => rfl
  | cons response responses ih =>
    rw [List.foldl_cons, hstep, ih, List.filterMap_cons]
    cases response.counted <;> rfl

theorem minMaxAge_received (responses : List UpstreamResponse) :
    (received true responses).minMaxAge = ((counted responses).flatMap CachePolicy.marks).min? := by
  have hfold (policies : List CachePolicy) (ctx : RequestContext) :
      (policies.foldl RequestContext.setCacheControl ctx).minMaxAge =
        (policies.flatMap CachePolicy.marks).foldl lower ctx.minMaxAge := by
    induction policies generalizing ctx with
    | nil => rfl
    | cons policy policies ih =>
      rw [List.foldl_cons, ih, RequestContext.setCacheControl_eq, List.flatMap_cons, List.foldl_append]
  rw [received_eq, hfold, ← foldl_lower]
  rfl

theorem cachePublic_received (responses : List UpstreamResponse) : (received true responses).cachePublic =
    if ∃ policy ∈ counted responses, policy.cachability = some .privateCache then some false else none := by
  have hfold (policies : List CachePolicy) (ctx : RequestContext) :
      (policies.foldl RequestContext.setCacheControl ctx).cachePublic =
        if ∃ policy ∈ policies, policy.cachability = some .privateCache then some false else ctx.cachePublic := by
    induction policies generalizing ctx with
    | nil => simp
    | cons policy policies ih =>
      rw [List.foldl_cons, ih, RequestContext.setCacheControl_eq]
      by_cases hprivate : policy.cachability = some .privateCache <;> simp [hprivate]
  rw [received_eq, hfold]
  rfl

theorem received_perm {responses responses' : List UpstreamResponse} (h : responses.Perm responses') :
    received true responses = received true responses' := by
  have hcounted : (counted responses).Perm (counted responses') := h.filterMap _
  have hmarks : ((counted responses).flatMap CachePolicy.marks).min? =
      ((counted responses').flatMap CachePolicy.marks).min? := by
    ext mark
    simp only [List.min?_eq_some_iff, (hcounted.flatMap_right _).mem_iff]
  have hage := (minMaxAge_received responses).trans (hmarks.trans (minMaxAge_received responses').symm)
  have hpublic : (received true responses).cachePublic = (received true responses').cachePublic := by
    rw [cachePublic_received, cachePublic_received]
    simp only [hcounted.mem_iff]
  calc received true responses
      = ⟨(received true responses).minMaxAge, (received true responses).cachePublic⟩ := rfl
    _ = ⟨(received true responses').minMaxAge, (received true responses').cachePublic⟩ := by rw [hage, hpublic]

end Gqlforge.CachePolicies
