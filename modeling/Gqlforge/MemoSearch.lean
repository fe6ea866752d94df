import Mathlib.Data.List.Count
import Mathlib.Data.List.Dedup

namespace Gqlforge.MemoSearch

inductive Item (L S : Type) where
  | leaf (label : L)
  | edge (label : L) (next : S)

variable {L S : Type} [DecidableEq S]

abbrev Cache (L S : Type) := List (S × List (List L))

def Cache.Visited (cache : Cache L S) (node : S) : Prop :=
  (cache.lookup node).isSome = true

theorem Cache.visited_cons (cache : Cache L S) (node other : S) (paths : List (List L)) :
    Cache.Visited ((node, paths) :: cache) other ↔ other = node ∨ cache.Visited other := by
  rw [Visited, Visited, List.lookup_cons]
  by_cases h : other = node
  · simp [h]
  · have hb : (other == node) = false := by simpa using h
    rw [hb]
    simp [h]

def exploreItems (search : S → Cache L S → Option (List (List L) × Cache L S)) :
    List (Item L S) → List (List L) × Cache L S → Option (List (List L) × Cache L S)
  | [], found => some found
  | .leaf label :: rest, (paths, cache) => exploreItems search rest (paths ++ [[label]], cache)
  | .edge label next :: rest, (paths, cache) =>
    match search next cache with
    | some (below, cache) => exploreItems search rest (paths ++ below.map (label :: ·), cache)
    | none => none

variable (items : S → List (Item L S))

def explore : ℕ → S → Cache L S → Option (List (List L) × Cache L S)
  | 0, _, _ => none
  | fuel + 1, node, cache =>
    match cache.lookup node with
    | some paths => some (paths, cache)
    | none =>
      (exploreItems (explore fuel) (items node) ([], (node, []) :: cache)).map fun (paths, cache) =>
        (paths, (node, paths) :: cache)

inductive Leads : S → List L → S → L → Prop where
  | leaf {node : S} {label : L} (h : .leaf label ∈ items node) : Leads node [label] node label
  | edge {node next last : S} {label leaf : L} {path : List L} (h : .edge label next ∈ items node)
      (hnext : Leads next path last leaf) : Leads node (label :: path) last leaf

def Edge (node next : S) : Prop := ∃ label, .edge label next ∈ items node

def Sound (cache : Cache L S) : Prop :=
  ∀ node paths, cache.lookup node = some paths → ∀ path ∈ paths, ∃ last leaf, Leads items node path last leaf

theorem Sound.cons {cache : Cache L S} (h : Sound items cache) {node : S} {paths : List (List L)}
    (hpaths : ∀ path ∈ paths, ∃ last leaf, Leads items node path last leaf) : Sound items ((node, paths) :: cache) := by
  intro other found hfound
  rw [List.lookup_cons] at hfound
  by_cases hother : other = node
  · subst hother
    simp only [beq_self_eq_true] at hfound
    cases hfound
    exact hpaths
  · have hb : (other == node) = false := by simpa using hother
    rw [hb] at hfound
    exact h other found hfound

/-- What a search adds: the nodes that it visits have their edges among the visited ones, and it finds a path to each
of their leaves. -/
structure Explored (node : S) (before after : Cache L S) (found : List (List L)) : Prop where
  grows : ∀ other, before.Visited other → after.Visited other
  visited : after.Visited node
  sound : Sound items after
  leads : ∀ path ∈ found, ∃ last leaf, Leads items node path last leaf
  closed : ∀ other, after.Visited other → ¬ before.Visited other → ∀ next, Edge items other next → after.Visited next
  leaves : ∀ other, after.Visited other → ¬ before.Visited other → ∀ leaf, .leaf leaf ∈ items other →
    ∃ path ∈ found, Leads items node path other leaf

/-- The same while the items of the node are explored: its own edges and leaves are those of the items so far. -/
structure Exploring (node : S) (done : List (Item L S)) (before after : Cache L S) (found : List (List L)) : Prop where
  grows : ∀ other, before.Visited other → after.Visited other
  visited : after.Visited node
  sound : Sound items after
  leads : ∀ path ∈ found, ∃ last leaf, Leads items node path last leaf
  edges : ∀ label next, .edge label next ∈ done → after.Visited next
  closed : ∀ other, other ≠ node → after.Visited other → ¬ before.Visited other →
    ∀ next, Edge items other next → after.Visited next
  own : ∀ leaf, .leaf leaf ∈ done → ∃ path ∈ found, Leads items node path node leaf
  leaves : ∀ other, other ≠ node → after.Visited other → ¬ before.Visited other →
    ∀ leaf, .leaf leaf ∈ items other → ∃ path ∈ found, Leads items node path other leaf

variable {items}

theorem Exploring.leaf {node : S} {done : List (Item L S)} {before after : Cache L S} {found : List (List L)}
    (h : Exploring items node done before after found) {label : L} (hitem : .leaf label ∈ items node) :
    Exploring items node (done ++ [.leaf label]) before after (found ++ [[label]]) where
  grows := h.grows
  visited := h.visited
  sound := h.sound
  leads path hpath := by
    rcases List.mem_append.mp hpath with hpath | hpath
    · exact h.leads path hpath
    · rw [List.mem_singleton.mp hpath]
      exact ⟨node, label, .leaf hitem⟩
  edges other next hedge := by
    rcases List.mem_append.mp hedge with hedge | hedge
    · exact h.edges other next hedge
    · cases List.mem_singleton.mp hedge
  closed := h.closed
  own leaf hleaf := by
    rcases List.mem_append.mp hleaf with hleaf | hleaf
    · obtain ⟨path, hpath, hleads⟩ := h.own leaf hleaf
      exact ⟨path, List.mem_append_left _ hpath, hleads⟩
    · cases List.mem_singleton.mp hleaf
      exact ⟨[label], List.mem_append_right _ (List.mem_singleton_self _), .leaf hitem⟩
  leaves other hne hafter hbefore leaf hleaf := by
    obtain ⟨path, hpath, hleads⟩ := h.leaves other hne hafter hbefore leaf hleaf
    exact ⟨path, List.mem_append_left _ hpath, hleads⟩

variable {before : Cache L S} {found : List (List L)}

theorem Exploring.edge {node : S} {done : List (Item L S)} {after last : Cache L S}
    {below : List (List L)} (h : Exploring items node done before after found) {label : L} {next : S}
    (hitem : .edge label next ∈ items node) (hbelow : Explored items next after last below) :
    Exploring items node (done ++ [.edge label next]) before last (found ++ below.map (label :: ·)) where
  grows other hother := hbelow.grows other (h.grows other hother)
  visited := hbelow.grows node h.visited
  sound := hbelow.sound
  leads path hpath := by
    rcases List.mem_append.mp hpath with hpath | hpath
    · exact h.leads path hpath
    · obtain ⟨rest, hrest, rfl⟩ := List.mem_map.mp hpath
      obtain ⟨leafNode, leaf, hleads⟩ := hbelow.leads rest hrest
      exact ⟨leafNode, leaf, .edge hitem hleads⟩
  edges other target hedge := by
    rcases List.mem_append.mp hedge with hedge | hedge
    · exact hbelow.grows target (h.edges other target hedge)
    · cases List.mem_singleton.mp hedge
      exact hbelow.visited
  closed other hne hlast hbefore target hedge := by
    by_cases hafter : after.Visited other
    · exact hbelow.grows target (h.closed other hne hafter hbefore target hedge)
    · exact hbelow.closed other hlast hafter target hedge
  own leaf hleaf := by
    rcases List.mem_append.mp hleaf with hleaf | hleaf
    · obtain ⟨path, hpath, hleads⟩ := h.own leaf hleaf
      exact ⟨path, List.mem_append_left _ hpath, hleads⟩
    · cases List.mem_singleton.mp hleaf
  leaves other hne hlast hbefore leaf hleaf := by
    by_cases hafter : after.Visited other
    · obtain ⟨path, hpath, hleads⟩ := h.leaves other hne hafter hbefore leaf hleaf
      exact ⟨path, List.mem_append_left _ hpath, hleads⟩
    · obtain ⟨path, hpath, hleads⟩ := hbelow.leaves other hlast hafter leaf hleaf
      exact ⟨label :: path, List.mem_append_right _ (List.mem_map.mpr ⟨path, hpath, rfl⟩), .edge hitem hleads⟩

theorem exploreItems_spec {search : S → Cache L S → Option (List (List L) × Cache L S)}
    (hsearch : ∀ next before below after, Sound items before → search next before = some (below, after) →
      Explored items next before after below)
    {node : S} (rest done : List (Item L S)) (hitems : items node = done ++ rest) {cache last : Cache L S}
    {paths : List (List L)} (h : Exploring items node done before cache paths)
    (hr : exploreItems search rest (paths, cache) = some (found, last)) :
    Exploring items node (items node) before last found := by
  induction rest generalizing done cache paths with
  | nil =>
    rw [List.append_nil] at hitems
    cases hr
    exact hitems ▸ h
  | cons item rest ih =>
    have hsplit : items node = done ++ [item] ++ rest := by rw [hitems, List.append_assoc, List.singleton_append]
    have hitem : item ∈ items node := hitems ▸ List.mem_append_right _ List.mem_cons_self
    cases item with
    | leaf label => exact ih _ hsplit (h.leaf hitem) hr
    | edge label next =>
      rw [exploreItems] at hr
      cases hbelow : search next cache with
      | none => rw [hbelow] at hr; cases hr
      | some result =>
        rw [hbelow] at hr
        exact ih _ hsplit (h.edge hitem (hsearch _ _ _ _ h.sound hbelow)) hr

theorem explore_spec (fuel : ℕ) {node : S} {after : Cache L S} (hs : Sound items before)
    (h : explore items fuel node before = some (found, after)) : Explored items node before after found := by
  induction fuel generalizing node before after found with
  | zero => cases h
  | succ fuel ih =>
    rw [explore] at h
    cases hlookup : before.lookup node with
    | some paths =>
      rw [hlookup] at h
      cases h
      exact ⟨fun _ hother => hother, by rw [Cache.Visited, hlookup]; rfl, hs, hs node _ hlookup,
        fun _ h hn => absurd h hn, fun _ h hn => absurd h hn⟩
    | none =>
      rw [hlookup] at h
      obtain ⟨⟨paths, last⟩, hitems, heq⟩ := Option.map_eq_some_iff.mp h
      cases heq
      have hstart : Exploring items node [] before ((node, []) :: before) [] := by
        refine ⟨fun other hother => (before.visited_cons node other []).mpr (.inr hother),
          (before.visited_cons node node []).mpr (.inl rfl), hs.cons _ fun path hpath => absurd hpath List.not_mem_nil,
          fun path hpath => absurd hpath List.not_mem_nil, fun _ _ h => absurd h List.not_mem_nil,
          fun other hne hv hb => ?_, fun _ h => absurd h List.not_mem_nil, fun other hne hv hb => ?_⟩
        all_goals exact absurd (((before.visited_cons node other []).mp hv).resolve_left hne) hb
      have hdone := exploreItems_spec (fun _ _ _ _ hsound hr => ih hsound hr) (items node) [] rfl hstart hitems
      have hvisited : ∀ other, Cache.Visited ((node, found) :: last) other ↔ other = node ∨ last.Visited other :=
        fun other => last.visited_cons node other found
      refine ⟨fun other hother => (hvisited other).mpr (.inr (hdone.grows other hother)),
        (hvisited node).mpr (.inl rfl), hdone.sound.cons _ hdone.leads, hdone.leads, fun other hafter hbefore => ?_,
        fun other hafter hbefore => ?_⟩
      · rintro next ⟨label, hedge⟩
        refine (hvisited next).mpr (.inr ?_)
        by_cases hother : other = node
        · exact hdone.edges label next (hother ▸ hedge)
        · exact hdone.closed other hother (((hvisited other).mp hafter).resolve_left hother) hbefore next
            ⟨label, hedge⟩
      · intro leaf hleaf
        by_cases hother : other = node
        · subst hother
          exact hdone.own leaf hleaf
        · exact hdone.leaves other hother (((hvisited other).mp hafter).resolve_left hother) hbefore leaf hleaf

section Returning

variable (nodes : List S)

def pending (cache : Cache L S) : ℕ :=
  nodes.countP fun node => (cache.lookup node).isNone

variable {nodes}

theorem pending_mono {before after : Cache L S} (h : ∀ other, before.Visited other → after.Visited other) :
    pending nodes after ≤ pending nodes before := by
  refine List.countP_mono_left fun node _ hnone => ?_
  by_contra hvisited
  have hafter := h node (by simpa [Cache.Visited] using hvisited)
  rw [Cache.Visited] at hafter
  rw [Option.isNone_iff_eq_none.mp hnone] at hafter
  cases hafter

variable {cache : Cache L S}

theorem pending_cons {node : S} (hnode : node ∈ nodes) (h : ¬ cache.Visited node)
    (paths : List (List L)) : pending nodes ((node, paths) :: cache) < pending nodes cache := by
  induction nodes with
  | nil => cases hnode
  | cons first rest ih =>
    have hle : pending rest ((node, paths) :: cache) ≤ pending rest cache :=
      pending_mono fun other hother => (cache.visited_cons node other paths).mpr (.inr hother)
    have hnone : (cache.lookup node).isNone = true := by
      rw [Option.isNone_iff_eq_none, ← Option.not_isSome_iff_eq_none]
      exact h
    have hcons (cache : Cache L S) : pending (first :: rest) cache =
        pending rest cache + if (cache.lookup first).isNone then 1 else 0 := List.countP_cons
    rw [hcons, hcons, List.lookup_cons]
    by_cases hfirst : first = node
    · subst hfirst
      simp only [hnone, beq_self_eq_true, Option.isNone_some, if_true, Bool.false_eq_true, if_false]
      omega
    · have hb : (first == node) = false := by simpa using hfirst
      have hlt := ih ((List.mem_cons.mp hnode).resolve_left (Ne.symm hfirst))
      simp only [hb]
      omega

theorem exploreItems_returns {search : S → Cache L S → Option (List (List L) × Cache L S)} {fuel : ℕ}
    (hreturns : ∀ next cache, next ∈ nodes → Sound items cache → pending nodes cache < fuel →
      ∃ below after, search next cache = some (below, after))
    (hspec : ∀ next before below after, Sound items before → search next before = some (below, after) →
      Explored items next before after below)
    (rest : List (Item L S)) (hrest : ∀ label next, .edge label next ∈ rest → next ∈ nodes)
    (paths : List (List L)) (hs : Sound items cache) (hfuel : pending nodes cache < fuel) :
    ∃ found last, exploreItems search rest (paths, cache) = some (found, last) := by
  induction rest generalizing paths cache with
  | nil => exact ⟨paths, cache, rfl⟩
  | cons item rest ih =>
    have htail : ∀ label next, .edge label next ∈ rest → next ∈ nodes := fun label next h =>
      hrest label next (List.mem_cons_of_mem _ h)
    cases item with
    | leaf label => exact ih htail _ hs hfuel
    | edge label next =>
      obtain ⟨below, after, hbelow⟩ := hreturns next cache (hrest label next List.mem_cons_self) hs hfuel
      have hexplored := hspec _ _ _ _ hs hbelow
      rw [exploreItems, hbelow]
      exact ih htail _ hexplored.sound (Nat.lt_of_le_of_lt (pending_mono hexplored.grows) hfuel)

theorem explore_returns (hclosed : ∀ node ∈ nodes, ∀ next, Edge items node next → next ∈ nodes) (fuel : ℕ) {node : S}
    (hnode : node ∈ nodes) (hs : Sound items cache) (hfuel : pending nodes cache < fuel) :
    ∃ found after, explore items fuel node cache = some (found, after) := by
  induction fuel generalizing node cache with
  | zero => exact absurd hfuel (Nat.not_lt_zero _)
  | succ fuel ih =>
    rw [explore]
    cases hlookup : cache.lookup node with
    | some paths => exact ⟨paths, cache, rfl⟩
    | none =>
      have hfresh : ¬ cache.Visited node := by
        rw [Cache.Visited, hlookup]
        exact Bool.false_ne_true
      have hless := pending_cons hnode hfresh []
      have hstart : Sound items ((node, []) :: cache) := hs.cons items fun path hpath => absurd hpath List.not_mem_nil
      obtain ⟨found, last, hitems⟩ := exploreItems_returns
        (fun next cache hnext hsound hpending => ih hnext hsound hpending)
        (fun _ _ _ _ hsound hr => explore_spec fuel hsound hr) (items node)
        (fun label next h => hclosed node hnode next ⟨label, h⟩) []
        hstart (by omega)
      exact ⟨found, (node, found) :: last, by rw [hitems]; rfl⟩

omit [DecidableEq S] in
theorem exploreItems_mono {search search' : S → Cache L S → Option (List (List L) × Cache L S)}
    (h : ∀ next cache result, search next cache = some result → search' next cache = some result)
    (rest : List (Item L S)) (found : List (List L) × Cache L S) (result : List (List L) × Cache L S)
    (hr : exploreItems search rest found = some result) : exploreItems search' rest found = some result := by
  induction rest generalizing found with
  | nil => exact hr
  | cons item rest ih =>
    cases item with
    | leaf label => exact ih _ hr
    | edge label next =>
      rw [exploreItems] at hr ⊢
      cases hbelow : search next found.2 with
      | none => rw [hbelow] at hr; cases hr
      | some below =>
        rw [hbelow] at hr
        rw [h _ _ _ hbelow]
        exact ih _ hr

theorem explore_mono (fuel : ℕ) (node : S) (cache : Cache L S) (result : List (List L) × Cache L S)
    (h : explore items fuel node cache = some result) : explore items (fuel + 1) node cache = some result := by
  induction fuel generalizing node cache result with
  | zero => cases h
  | succ fuel ih =>
    rw [explore] at h ⊢
    cases hlookup : cache.lookup node with
    | some paths =>
      rw [hlookup] at h
      exact h
    | none =>
      rw [hlookup] at h
      obtain ⟨found, hitems, rfl⟩ := Option.map_eq_some_iff.mp h
      exact Option.map_eq_some_iff.mpr ⟨found, exploreItems_mono ih _ _ _ hitems, rfl⟩

theorem explore_le {fuel more : ℕ} (hle : fuel ≤ more) {node : S} {result : List (List L) × Cache L S}
    (h : explore items fuel node cache = some result) : explore items more node cache = some result := by
  induction hle with
  | refl => exact h
  | step _ ih => exact explore_mono _ node cache result ih

end Returning

end Gqlforge.MemoSearch
