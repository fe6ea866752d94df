import Gqlforge.FieldIds
import Gqlforge.RelatedLists

namespace Gqlforge.PlanChecks

open Json Resolvers Plan RelatedLists

namespace Check

section

variable {β γ : Type} (check : Check β) (check' : Check γ)

structure Related (rel : β → γ → Prop) : Prop where
  dynamic : ∀ value, rel (check.dynamic value) (check'.dynamic value)
  io : ∀ io, rel (check.io io) (check'.io io)
  cache : ∀ cache, rel (check.cache cache) (check'.cache cache)
  contextPath : rel check.contextPath check'.contextPath
  service : rel check.service check'.service
  protect : ∀ auth accessExpr below below', rel below below' →
    rel (check.protect auth accessExpr below) (check'.protect auth accessExpr below')
  map : ∀ below below', rel below below' → rel (check.map below) (check'.map below')
  pipe : ∀ first first' second second', rel first first' → rel second second' →
    rel (check.pipe first second) (check'.pipe first' second')
  merge : ∀ below below', List.Forall₂ rel below below' → rel (check.merge below) (check'.merge below')
  entity : ∀ below below', List.Forall₂ rel below below' → rel (check.entity below) (check'.entity below')

variable {check check'} {rel : β → γ → Prop}

mutual

theorem run_related (h : Related check check' rel) : ∀ ir, rel (check.run ir) (check'.run ir)
  | .dynamic value => h.dynamic value
  | .io io => h.io io
  | .cache cache => h.cache cache
  | .path input _ => run_related h input
  | .contextPath _ => h.contextPath
  | .protect auth accessExpr expr => h.protect auth accessExpr _ _ (run_related h expr)
  | .map input _ => h.map _ _ (run_related h input)
  | .pipe first second => h.pipe _ _ _ _ (run_related h first) (run_related h second)
  | .merge irs => h.merge _ _ (runAll_related h irs)
  | .discriminate _ expr => run_related h expr
  | .entity map => h.entity _ _ (runValues_related h map)
  | .service _ => h.service

theorem runAll_related (h : Related check check' rel) :
    ∀ irs, List.Forall₂ rel (runAll check irs) (runAll check' irs)
  | [] => .nil
  | ir :: rest => .cons (run_related h ir) (runAll_related h rest)

theorem runValues_related (h : Related check check' rel) :
    ∀ map, List.Forall₂ rel (runValues check map) (runValues check' map)
  | [] => .nil
  | (_, ir) :: rest => .cons (run_related h ir) (runValues_related h rest)

end

end

end Check

abbrev IoNode := Option NonZeroU64 × Io

def ioNodes : Check (List IoNode) where
  dynamic _ := []
  io io := [(none, io)]
  cache cache := [(some cache.maxAge, cache.io)]
  contextPath := []
  service := []
  protect _ _ below := below
  map below := below
  pipe first second := first ++ second
  merge below := below.flatten
  entity below := below.flatten

def plainNodes : Check (List IoNode) where
  __ := ioNodes
  map _ := []

def CachedFor (ttl : NonZeroU64) (node : IoNode) : Prop :=
  ∃ age, node.1 = some age ∧ ttl.val ≤ age.val

variable {ttl : NonZeroU64}

theorem cachedFor_mono {ttl' : NonZeroU64} {node : IoNode} (hle : ttl'.val ≤ ttl.val) (h : CachedFor ttl node) :
    CachedFor ttl' node := by
  obtain ⟨age, he, ha⟩ := h
  exact ⟨age, he, by omega⟩

theorem val_min (ttl ttl' : NonZeroU64) : (min ttl ttl').val = min ttl.val ttl'.val := rfl

variable {first : Option NonZeroU64}

theorem minTtl_eq_some {second : Option NonZeroU64} :
    minTtl first second = some ttl ↔ ∃ ttl₁ ttl₂, first = some ttl₁ ∧ second = some ttl₂ ∧ ttl = min ttl₁ ttl₂ := by
  cases first <;> cases second <;> simp [minTtl, eq_comm]

theorem foldl_minTtl {ttls : List (Option NonZeroU64)} :
    ttls.foldl minTtl first = some ttl ↔ ∃ ttl₁, first = some ttl₁ ∧ (∀ ttl' ∈ ttls, ttl' ≠ none) ∧
      ttl.val ≤ ttl₁.val ∧ (∀ ttl', some ttl' ∈ ttls → ttl.val ≤ ttl'.val) ∧ (ttl = ttl₁ ∨ some ttl ∈ ttls) := by
  induction ttls generalizing first with
  | nil =>
    simp only [List.foldl_nil, List.not_mem_nil, false_imp_iff, implies_true, or_false, true_and]
    constructor
    · intro h
      exact ⟨ttl, h, Nat.le_refl _, rfl⟩
    · rintro ⟨ttl₁, h, -, rfl⟩
      exact h
  | cons next rest ih =>
    rw [List.foldl_cons, ih]
    constructor
    · rintro ⟨ttl₁, hm, hnone, hle, hall, heq⟩
      obtain ⟨a, b, rfl, rfl, rfl⟩ := (minTtl_eq_some).mp hm
      rw [val_min] at hle
      refine ⟨a, rfl, ?_, by omega, ?_, ?_⟩
      · intro ttl' hmem
        rcases List.mem_cons.mp hmem with rfl | hmem
        · simp
        · exact hnone ttl' hmem
      · intro ttl' hmem
        rcases List.mem_cons.mp hmem with he | hmem
        · rw [Option.some.inj he]
          omega
        · exact hall ttl' hmem
      · rcases heq with rfl | hmem
        · by_cases hab : a.val ≤ b.val
          · exact .inl (Subtype.ext (by rw [val_min]; omega))
          · have he : min a b = b := Subtype.ext (by rw [val_min]; omega)
            exact .inr (by rw [he]; exact List.mem_cons_self)
        · exact .inr (List.mem_cons_of_mem _ hmem)
    · rintro ⟨a, rfl, hnone, hle, hall, heq⟩
      obtain ⟨b, rfl⟩ := Option.ne_none_iff_exists'.mp (hnone next List.mem_cons_self)
      have hb := hall b List.mem_cons_self
      refine ⟨min a b, rfl, fun ttl' hmem => hnone ttl' (List.mem_cons_of_mem _ hmem), ?_,
        fun ttl' hmem => hall ttl' (List.mem_cons_of_mem _ hmem), ?_⟩
      · rw [val_min]
        omega
      · rcases heq with rfl | hmem
        · exact .inl (Subtype.ext (by rw [val_min]; omega))
        · rcases List.mem_cons.mp hmem with he | hmem
          · obtain rfl := Option.some.inj he
            exact .inl (Subtype.ext (by rw [val_min]; omega))
          · exact .inr hmem

/-- The time a check finds for a resolver: all its requests are cached for as long, and one of them for no longer. -/
def Least (ttl : Option NonZeroU64) (nodes : List IoNode) : Prop :=
  ∀ t, ttl = some t → (∀ node ∈ nodes, CachedFor t node) ∧ ∃ node ∈ nodes, node.1 = some t

theorem least_of_forall₂ (below : List (Option NonZeroU64)) (below' : List (List IoNode))
    (h : List.Forall₂ Least below below') : Least (minTtls below) below'.flatten := by
  intro t ht
  cases h with
  | nil => simp [minTtls] at ht
  | @cons first nodes rest rest' hfirst hrest =>
    obtain ⟨a, rfl, hnone, hle, hall, heq⟩ := (foldl_minTtl).mp ht
    constructor
    · intro node hn
      rw [List.flatten_cons, List.mem_append] at hn
      rcases hn with hn | hn
      · exact cachedFor_mono hle ((hfirst a rfl).1 node hn)
      · obtain ⟨nodes', hm, hn⟩ := List.mem_flatten.mp hn
        obtain ⟨ttl, hmem, hrel⟩ := exists_related hrest hm
        obtain ⟨b, rfl⟩ := Option.ne_none_iff_exists'.mp (hnone _ hmem)
        exact cachedFor_mono (hall b hmem) ((hrel b rfl).1 node hn)
    · rcases heq with rfl | hmem
      · obtain ⟨node, hn, he⟩ := (hfirst t rfl).2
        exact ⟨node, List.mem_append_left _ hn, he⟩
      · obtain ⟨nodes', hm, hrel⟩ := exists_related hrest.flip hmem
        obtain ⟨node, hn, he⟩ := (hrel t rfl).2
        exact ⟨node, List.mem_append_right _ (List.mem_flatten.mpr ⟨nodes', hm, hn⟩), he⟩

theorem checkCache_least : Check.Related checkCache ioNodes Least where
  dynamic _ := by simp [Least, checkCache]
  io _ := by simp [Least, checkCache]
  cache cache := by
    intro t ht
    obtain rfl := Option.some.inj ht
    refine ⟨fun node hn => ?_, _, List.mem_singleton_self _, rfl⟩
    obtain rfl := List.mem_singleton.mp hn
    exact ⟨cache.maxAge, rfl, Nat.le_refl _⟩
  contextPath := by simp [Least, checkCache]
  service := by simp [Least, checkCache]
  protect _ _ _ _ h := h
  map _ _ _ := by simp [Least, checkCache]
  pipe first first' second second' h h' := by
    intro t ht
    obtain ⟨a, b, rfl, rfl, rfl⟩ := (minTtl_eq_some).mp ht
    obtain ⟨hall, node₁, hn₁, he₁⟩ := h a rfl
    obtain ⟨hall', node₂, hn₂, he₂⟩ := h' b rfl
    have hmin := val_min a b
    constructor
    · intro node hn
      rcases List.mem_append.mp hn with hn | hn
      · exact cachedFor_mono (by omega) (hall node hn)
      · exact cachedFor_mono (by omega) (hall' node hn)
    · by_cases hab : a.val ≤ b.val
      · have he : min a b = a := Subtype.ext (by omega)
        exact ⟨node₁, List.mem_append_left _ hn₁, by rw [he₁, he]⟩
      · have he : min a b = b := Subtype.ext (by omega)
        exact ⟨node₂, List.mem_append_right _ hn₂, by rw [he₂, he]⟩
  merge := least_of_forall₂
  entity := least_of_forall₂

def allCached : Check Prop where
  dynamic _ := False
  io _ := False
  cache _ := True
  contextPath := False
  service := False
  protect _ _ below := below
  map _ := False
  pipe first second := first ∧ second
  merge below := below ≠ [] ∧ ∀ cached ∈ below, cached
  entity below := below ≠ [] ∧ ∀ cached ∈ below, cached

theorem foldl_minTtl_ne_none {ttls : List (Option NonZeroU64)} :
    ttls.foldl minTtl first ≠ none ↔ first ≠ none ∧ ∀ ttl ∈ ttls, ttl ≠ none := by
  induction ttls generalizing first with
  | nil => simp
  | cons next rest ih =>
    rw [List.foldl_cons, ih, List.forall_mem_cons]
    cases first <;> cases next <;> simp [minTtl]

theorem allCached_of_forall₂ (below : List (Option NonZeroU64)) (below' : List Prop)
    (h : List.Forall₂ (fun ttl cached => ttl ≠ none ↔ cached) below below') :
    minTtls below ≠ none ↔ below' ≠ [] ∧ ∀ cached ∈ below', cached := by
  have hall : (∀ ttl ∈ below, ttl ≠ none) ↔ ∀ cached ∈ below', cached := by
    induction h with
    | nil => simp
    | cons hfirst _ ih => rw [List.forall_mem_cons, List.forall_mem_cons, hfirst, ih]
  cases h with
  | nil => simp [minTtls]
  | cons _ _ =>
    rw [List.forall_mem_cons] at hall
    rw [minTtls, foldl_minTtl_ne_none, hall]
    simp

theorem checkCache_allCached : Check.Related checkCache allCached fun ttl cached => ttl ≠ none ↔ cached where
  dynamic _ := by simp [checkCache, allCached]
  io _ := by simp [checkCache, allCached]
  cache _ := by simp [checkCache, allCached]
  contextPath := by simp [checkCache, allCached]
  service := by simp [checkCache, allCached]
  protect _ _ _ _ h := h
  map _ _ _ := by simp [checkCache, allCached]
  pipe first _ second _ h h' := by
    simp only [allCached, ← h, ← h']
    cases first <;> cases second <;> simp [checkCache, minTtl]
  merge := allCached_of_forall₂
  entity := allCached_of_forall₂

theorem dedupe_of_forall₂ (below : List Bool) (below' : List (List IoNode))
    (h : List.Forall₂ (fun dedupe nodes => dedupe = true ↔ ∀ node ∈ nodes, node.2.dedupe = true) below below') :
    below.all id = true ↔ ∀ node ∈ below'.flatten, node.2.dedupe = true := by
  induction h with
  | nil => simp
  | cons hfirst _ ih =>
    rw [List.all_cons, Bool.and_eq_true, id, hfirst, ih]
    simp only [List.flatten_cons, List.mem_append]
    constructor
    · rintro ⟨hf, hr⟩ node (hn | hn)
      · exact hf node hn
      · exact hr node hn
    · intro h
      exact ⟨fun node hn => h node (.inl hn), fun node hn => h node (.inr hn)⟩

theorem checkDedupe_related :
    Check.Related checkDedupe plainNodes fun dedupe nodes => dedupe = true ↔ ∀ node ∈ nodes, node.2.dedupe = true where
  dynamic _ := by simp [checkDedupe, plainNodes, ioNodes]
  io _ := by simp [checkDedupe, plainNodes, ioNodes]
  cache _ := by simp [checkDedupe, plainNodes, ioNodes]
  contextPath := by simp [checkDedupe, plainNodes, ioNodes]
  service := by simp [checkDedupe, plainNodes, ioNodes]
  protect _ _ _ _ h := h
  map _ _ _ := by simp [checkDedupe, plainNodes]
  pipe first first' second second' h h' := by
    simp only [checkDedupe, plainNodes, ioNodes, Bool.and_eq_true, h, h', List.mem_append, or_imp, forall_and]
  merge := dedupe_of_forall₂
  entity := dedupe_of_forall₂

section

variable {Input : Type}

def nodesOf (field : Field Input) : List IoNode :=
  (field.ir.map ioNodes.run).getD []

def plainNodesOf (field : Field Input) : List IoNode :=
  (field.ir.map plainNodes.run).getD []

def nested (plan : OperationPlan Input) : List (Field Input) :=
  plan.selection.flatMap fun field => Field.dfsAll field.selection

variable (plan : OperationPlan Input)

def CacheSound : Prop :=
  ∀ ttl, (CheckCache.transform plan).minCacheTtl = some ttl → ∀ field ∈ plan.iterDfs, ∀ node ∈ nodesOf field,
    CachedFor ttl node

def DedupeSound : Prop :=
  (CheckDedupe.transform plan).isDedupe = true → ∀ field ∈ plan.iterDfs, ∀ node ∈ nodesOf field,
    node.2.dedupe = true

/-- Some way through a resolver of the top level does not end at a cache, or every request below the top level is
cached for as long as some request of the top level or for as long as there is. -/
def CacheCovered : Prop :=
  (∃ field ∈ plan.selection, ∃ ir, field.ir = some ir ∧ ¬ allCached.run ir) ∨
    ∀ field ∈ nested plan, ∀ node ∈ nodesOf field, CachedFor maxTtl node ∨
      ∃ top ∈ plan.selection, ∃ other ∈ nodesOf top, ∃ age, other.1 = some age ∧ CachedFor age node

/-- A request of the top level outside of a map may not be shared, or every request inside of a map or below the
top level may be. -/
def DedupeCovered : Prop :=
  (∃ field ∈ plan.selection, ∃ node ∈ plainNodesOf field, node.2.dedupe = false) ∨
    (∀ field ∈ nested plan, ∀ node ∈ nodesOf field, node.2.dedupe = true) ∧
      ∀ field ∈ plan.selection, ∀ node ∈ nodesOf field, node ∉ plainNodesOf field → node.2.dedupe = true

variable {plan}

theorem mem_iterDfs (field : Field Input) : field ∈ plan.iterDfs ↔ field ∈ plan.selection ∨ field ∈ nested plan := by
  unfold OperationPlan.iterDfs nested
  induction plan.selection with
  | nil => simp [Field.dfsAll]
  | cons first rest ih =>
    simp only [Field.dfsAll, FieldIds.dfs_eq, List.mem_append, List.mem_cons, ih, List.flatMap_cons]
    tauto

theorem minCacheTtl_eq (plan : OperationPlan Input) : (CheckCache.transform plan).minCacheTtl =
    ((plan.selection.filterMap (·.ir)).map checkCache.run).foldl minTtl (some maxTtl) := by
  simp only [CheckCache.transform, List.foldl_map]

theorem mem_resolvers (ttl : Option NonZeroU64) :
    ttl ∈ (plan.selection.filterMap (·.ir)).map checkCache.run ↔
      ∃ field ∈ plan.selection, ∃ ir, field.ir = some ir ∧ checkCache.run ir = ttl := by
  simp only [List.mem_map, List.mem_filterMap]
  constructor
  · rintro ⟨ir, ⟨field, hf, hir⟩, ht⟩
    exact ⟨field, hf, ir, hir, ht⟩
  · rintro ⟨field, hf, ir, hir, ht⟩
    exact ⟨ir, ⟨field, hf, hir⟩, ht⟩

variable {field : Field Input} {node : IoNode}

theorem mem_nodesOf : node ∈ nodesOf field ↔ ∃ ir, field.ir = some ir ∧ node ∈ ioNodes.run ir := by
  unfold nodesOf
  cases field.ir <;> simp

theorem cached_of_top {ttl : NonZeroU64} (h : (CheckCache.transform plan).minCacheTtl = some ttl)
 (hf : field ∈ plan.selection) (hn : node ∈ nodesOf field) :
    CachedFor ttl node := by
  rw [minCacheTtl_eq] at h
  obtain ⟨_, -, hnone, -, hall, -⟩ := foldl_minTtl.mp h
  obtain ⟨ir, hir, hn⟩ := mem_nodesOf.mp hn
  have hmem : checkCache.run ir ∈ (plan.selection.filterMap (·.ir)).map checkCache.run :=
    (mem_resolvers _).mpr ⟨field, hf, ir, hir, rfl⟩
  obtain ⟨own, hown⟩ := Option.ne_none_iff_exists'.mp (hnone _ hmem)
  have hcached := (Check.run_related checkCache_least ir own hown).1 node hn
  exact cachedFor_mono (hall own (hown ▸ hmem)) hcached

theorem minCacheTtl_ne_none : (CheckCache.transform plan).minCacheTtl ≠ none ↔
    ∀ field ∈ plan.selection, ∀ ir, field.ir = some ir → allCached.run ir := by
  rw [minCacheTtl_eq, foldl_minTtl_ne_none]
  constructor
  · rintro ⟨-, h⟩ field hf ir hir
    exact (Check.run_related checkCache_allCached ir).mp (h _ ((mem_resolvers _).mpr ⟨field, hf, ir, hir, rfl⟩))
  · intro h
    refine ⟨by simp, fun ttl hmem => ?_⟩
    obtain ⟨field, hf, ir, hir, rfl⟩ := (mem_resolvers _).mp hmem
    exact (Check.run_related checkCache_allCached ir).mpr (h field hf ir hir)

theorem least_of_top {ttl : NonZeroU64} (h : (CheckCache.transform plan).minCacheTtl = some ttl) :
    ttl = maxTtl ∨ ∃ top ∈ plan.selection, ∃ node ∈ nodesOf top, node.1 = some ttl := by
  rw [minCacheTtl_eq] at h
  obtain ⟨_, hmax, -, -, -, heq⟩ := foldl_minTtl.mp h
  rcases heq with rfl | hmem
  · exact .inl (Option.some.inj hmax).symm
  · obtain ⟨top, htop, ir, hir, hown⟩ := (mem_resolvers _).mp hmem
    obtain ⟨node, hn, he⟩ := (Check.run_related checkCache_least ir ttl hown).2
    exact .inr ⟨top, htop, node, mem_nodesOf.mpr ⟨ir, hir, hn⟩, he⟩

theorem cacheSound_iff : CacheSound plan ↔ CacheCovered plan := by
  unfold CacheSound CacheCovered
  constructor
  · intro h
    by_cases hnone : (CheckCache.transform plan).minCacheTtl = none
    · refine .inl ?_
      by_contra hall
      push Not at hall
      exact minCacheTtl_ne_none.mpr hall hnone
    obtain ⟨ttl, ht⟩ := Option.ne_none_iff_exists'.mp hnone
    refine .inr fun field hf node hn => ?_
    have hcached := h ttl ht field ((mem_iterDfs field).mpr (.inr hf)) node hn
    rcases least_of_top ht with rfl | ⟨top, htop, other, hother, he⟩
    · exact .inl hcached
    · exact .inr ⟨top, htop, other, hother, ttl, he, hcached⟩
  · rintro (⟨top, htop, ir, hir, hnot⟩ | hall) ttl ht field hf node hn
    · have hne : (CheckCache.transform plan).minCacheTtl ≠ none := by simp [ht]
      exact absurd (minCacheTtl_ne_none.mp hne top htop ir hir) hnot
    · rcases (mem_iterDfs field).mp hf with hf | hf
      · exact cached_of_top ht hf hn
      · rcases hall field hf node hn with hm | ⟨top, htop, other, hother, age, hage, hc⟩
        · have hlt := ttl.property
          exact cachedFor_mono (by simp only [maxTtl]; omega) hm
        · obtain ⟨age', hage', hle⟩ := cached_of_top ht htop hother
          obtain rfl := Option.some.inj (hage.symm.trans hage')
          exact cachedFor_mono hle hc

theorem mem_plainNodesOf : node ∈ plainNodesOf field ↔ ∃ ir, field.ir = some ir ∧ node ∈ plainNodes.run ir := by
  unfold plainNodesOf
  cases field.ir <;> simp

theorem isDedupe_iff : (CheckDedupe.transform plan).isDedupe = true ↔
    ∀ field ∈ plan.selection, ∀ node ∈ plainNodesOf field, node.2.dedupe = true := by
  simp only [CheckDedupe.transform, List.all_eq_true, checkIr, Option.all_eq_true]
  constructor
  · intro h field hf node hn
    obtain ⟨ir, hir, hn⟩ := mem_plainNodesOf.mp hn
    exact (Check.run_related checkDedupe_related ir).mp (h field hf ir hir) node hn
  · intro h field hf ir hir
    refine (Check.run_related checkDedupe_related ir).mpr fun node hn => ?_
    exact h field hf node (mem_plainNodesOf.mpr ⟨ir, hir, hn⟩)

theorem dedupeSound_iff : DedupeSound plan ↔ DedupeCovered plan := by
  unfold DedupeSound DedupeCovered
  rw [isDedupe_iff]
  constructor
  · intro h
    by_cases hplain : ∀ field ∈ plan.selection, ∀ node ∈ plainNodesOf field, node.2.dedupe = true
    · refine .inr ⟨fun field hf => h hplain field ((mem_iterDfs field).mpr (.inr hf)), fun field hf node hn _ => ?_⟩
      exact h hplain field ((mem_iterDfs field).mpr (.inl hf)) node hn
    · push Not at hplain
      obtain ⟨field, hf, node, hn, hnot⟩ := hplain
      exact .inl ⟨field, hf, node, hn, by simpa using hnot⟩
  · rintro (⟨top, htop, node, hn, hnot⟩ | ⟨hnested, hmapped⟩) hplain field hf node' hn'
    · rw [hplain top htop node hn] at hnot
      cases hnot
    · rcases (mem_iterDfs field).mp hf with hf | hf
      · by_cases hn : node' ∈ plainNodesOf field
        · exact hplain field hf node' hn
        · exact hmapped field hf node' hn' hn
      · exact hnested field hf node' hn'

theorem checks_sound_iff (plan : OperationPlan Input) :
    (CacheSound plan ∧ DedupeSound plan) ↔ (CacheCovered plan ∧ DedupeCovered plan) := by
  rw [cacheSound_iff, dedupeSound_iff]

end

def postsField {Input : Type} : Field Input :=
  ⟨1, "posts", "posts", some (.io (.js "posts")), .named "String" false, some "User", none, none, [], [], none, ⟨1, 10⟩,
    [], false, some .empty⟩

def userField {Input : Type} : Field Input :=
  ⟨0, "user", "user", some (.cache ⟨⟨60000, by decide⟩, .backend (.redis "users") "GET user" true⟩),
    .named "User" false, some "Query", none, none, [], [postsField], none, ⟨1, 3⟩, [], false, none⟩

def userPlan {Input : Type} : OperationPlan Input :=
  ⟨"Query", .query, ⟨[], ⟨"Query", none, none⟩⟩, false, false, false, false, none, [userField], none, none⟩

theorem checks_not_sound :
    ¬ CacheSound (userPlan : OperationPlan ConstValue) ∧ ¬ DedupeSound (userPlan : OperationPlan ConstValue) := by
  have hposts : postsField ∈ (userPlan : OperationPlan ConstValue).iterDfs :=
    List.mem_cons_of_mem _ List.mem_cons_self
  have hnode : (none, .js "posts") ∈ nodesOf (postsField : Field ConstValue) := List.mem_singleton_self _
  constructor
  · intro h
    obtain ⟨age, hage, -⟩ := h ⟨60000, by decide⟩ rfl postsField hposts _ hnode
    cases hage
  · intro h
    have hdedupe := h rfl postsField hposts _ hnode
    cases hdedupe

end Gqlforge.PlanChecks
