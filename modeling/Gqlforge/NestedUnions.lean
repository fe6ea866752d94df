import Gqlforge.CollectedUnions

namespace Gqlforge.NestedUnions

open Config Validation GuardedSearch SchemaUsage UnionInputs Relation

section Model

structure Walk where
  outcome : Valid Unit String
  unionTypes : List String
  seen : Finset String

def Walk.fail (walk : Walk) (message : String) : Walk :=
  { walk with outcome := walk.outcome.and (Valid.fail message) }

variable (unions : Dict Union)

def walkMember (walkUnion : Union → Walk → Option Walk) (typeName : String) (walk : Walk) : Option Walk :=
  match unions.get? typeName with
  | some union =>
    if typeName ∈ walk.seen then some (walk.fail ("Recursive type " ++ typeName))
    else walkUnion union { walk with seen := insert typeName walk.seen }
  | none => some { walk with unionTypes := typeName :: walk.unionTypes }

def walkUnion : ℕ → Union → Walk → Option Walk
  | 0, _, _ => none
  | fuel + 1, union, walk => visitAll (walkMember unions (walkUnion fuel)) union.types.items walk

def visitUnion (fuel : ℕ) (entry : String × Union) : Option (Valid (String × Union) String) :=
  (walkUnion unions fuel entry.2 ⟨Valid.succeed (), [], ∅⟩).map fun walk =>
    (walk.outcome.trace entry.1).mapOk fun _ =>
      (entry.1, { entry.2 with types := ⟨sortedSet walk.unionTypes, nodup_sortedSet walk.unionTypes⟩ })

def visit (fuel : ℕ) : Option (Valid (Dict Union) String) :=
  (Validation.sequence (unions.entries.map (visitUnion unions fuel))).map fun valids =>
    (Valid.collect valids).mapOk Dict.ofEntries

def transform {P : Payloads} (config : Config P) (fuel : ℕ) : Option (Valid (Config P) String) :=
  (visit config.unions fuel).map fun valid => valid.mapOk fun unions => { config with unions := unions }

end Model

section Chains

variable (unions : Dict Union)

inductive Chain : String → List String → String → Prop where
  | here (name : String) : Chain name [] name
  | step {name member last : String} {path : List String} {union : Union} (hunion : unions.get? name = some union)
      (hmember : member ∈ union.types.items) (hnested : unions.contains member = true) (h : Chain member path last) :
      Chain name (member :: path) last

def Leads (members path : List String) (last : String) : Prop :=
  ∃ member rest, path = member :: rest ∧ member ∈ members ∧ unions.contains member = true ∧
    Chain unions member rest last

def Leaf (members : List String) (typeName : String) : Prop :=
  unions.get? typeName = none ∧ (typeName ∈ members ∨ ∃ path name union, Leads unions members path name ∧
    unions.get? name = some union ∧ typeName ∈ union.types.items)

structure Walked (members : List String) (walk result : Walk) : Prop where
  seen : ∀ name, name ∈ result.seen ↔ name ∈ walk.seen ∨ ∃ path, Leads unions members path name
  fresh : ∀ name path, Leads unions members path name → name ∉ walk.seen
  unique : ∀ name path path', Leads unions members path name → Leads unions members path' name → path = path'
  types : ∀ typeName, typeName ∈ result.unionTypes ↔ typeName ∈ walk.unionTypes ∨ Leaf unions members typeName

def Twice (members : List String) (seen : Finset String) : Prop :=
  ∃ name, (name ∈ seen ∧ ∃ path, Leads unions members path name) ∨
    ∃ path path', path ≠ path' ∧ Leads unions members path name ∧ Leads unions members path' name

variable {unions}

theorem leads_cons (member : String) (members path : List String) (last : String) :
    Leads unions (member :: members) path last ↔
      (∃ rest, path = member :: rest ∧ unions.contains member = true ∧ Chain unions member rest last) ∨
        Leads unions members path last := by
  constructor
  · rintro ⟨first, rest, rfl, hmem, hnested, h⟩
    rcases List.mem_cons.mp hmem with rfl | hmem
    · exact .inl ⟨rest, rfl, hnested, h⟩
    · exact .inr ⟨first, rest, rfl, hmem, hnested, h⟩
  · rintro (⟨rest, rfl, hnested, h⟩ | ⟨first, rest, rfl, hmem, hnested, h⟩)
    · exact ⟨member, rest, rfl, List.mem_cons_self, hnested, h⟩
    · exact ⟨first, rest, rfl, List.mem_cons_of_mem member hmem, hnested, h⟩

theorem chain_iff {name : String} {union : Union} (hunion : unions.get? name = some union) (path : List String)
    (last : String) :
    Chain unions name path last ↔ path = [] ∧ last = name ∨ Leads unions union.types.items path last := by
  constructor
  · intro h
    cases h with
    | here => exact .inl ⟨rfl, rfl⟩
    | @step _ member _ rest other hother hmember hnested h =>
      cases hunion.symm.trans hother
      exact .inr ⟨member, rest, rfl, hmember, hnested, h⟩
  · rintro (⟨rfl, rfl⟩ | ⟨member, rest, rfl, hmember, hnested, h⟩)
    · exact .here _
    · exact .step hunion hmember hnested h

theorem Chain.trans {first second : List String} {name middle last : String} (h : Chain unions name first middle)
    (h' : Chain unions middle second last) : Chain unions name (first ++ second) last := by
  induction h with
  | here => exact h'
  | step hunion hmember hnested _ ih => exact .step hunion hmember hnested (ih h')

theorem leads_head {members path : List String} {last : String} (h : Leads unions members path last) :
    ∃ member rest, path = member :: rest ∧ member ∈ members := by
  obtain ⟨member, rest, rfl, hmember, -⟩ := h
  exact ⟨member, rest, rfl, hmember⟩

end Chains

section Walks

variable {unions : Dict Union}

theorem walked_nil (walk : Walk) : Walked unions [] walk walk where
  seen name := ⟨.inl, fun h => h.resolve_right fun ⟨path, member, rest, _, hmem, _⟩ => nomatch hmem⟩
  fresh := fun name path ⟨member, rest, _, hmem, _⟩ => nomatch hmem
  unique := fun name path path' ⟨member, rest, _, hmem, _⟩ => nomatch hmem
  types typeName := by
    refine ⟨.inl, fun h => h.resolve_right ?_⟩
    rintro ⟨-, hmem | ⟨path, name, union, ⟨member, rest, -, hmem, -⟩, -⟩⟩
    · cases hmem
    · cases hmem

variable {member : String} {members : List String} {walk : Walk}

theorem walked_leaf {result : Walk} (hleaf : unions.get? member = none)
    (h : Walked unions members { walk with unionTypes := member :: walk.unionTypes } result) :
    Walked unions (member :: members) walk result := by
  have hleads (path : List String) (last : String) :
      Leads unions (member :: members) path last ↔ Leads unions members path last := by
    rw [leads_cons]
    refine or_iff_right ?_
    rintro ⟨rest, -, hnested, -⟩
    rw [Dict.contains, hleaf] at hnested
    cases hnested
  refine ⟨fun name => ?_, fun name path hpath => ?_, fun name path path' hpath hpath' => ?_, fun typeName => ?_⟩
  · simp only [hleads]
    exact h.seen name
  · exact h.fresh name path ((hleads _ _).mp hpath)
  · exact h.unique name path path' ((hleads _ _).mp hpath) ((hleads _ _).mp hpath')
  · rw [h.types, Leaf, Leaf]
    simp only [hleads, List.mem_cons]
    constructor
    · rintro ((rfl | hmem) | ⟨hnone, h⟩)
      · exact .inr ⟨hleaf, .inl (.inl rfl)⟩
      · exact .inl hmem
      · exact .inr ⟨hnone, h.imp_left .inr⟩
    · rintro (hmem | ⟨hnone, (rfl | hmem) | h⟩)
      · exact .inl (.inr hmem)
      · exact .inl (.inl rfl)
      · exact .inr ⟨hnone, .inl hmem⟩
      · exact .inr ⟨hnone, .inr h⟩

variable {union : Union}

theorem leads_union (hunion : unions.get? member = some union) (members path : List String) (last : String) :
    Leads unions (member :: members) path last ↔
      (path = [member] ∧ last = member ∨
        ∃ rest, path = member :: rest ∧ Leads unions union.types.items rest last) ∨
          Leads unions members path last := by
  have hnested : unions.contains member = true := by
    rw [Dict.contains, hunion]
    rfl
  rw [leads_cons]
  refine or_congr_left ?_
  constructor
  · rintro ⟨rest, rfl, -, h⟩
    rcases (chain_iff hunion rest last).mp h with ⟨rfl, rfl⟩ | h
    · exact .inl ⟨rfl, rfl⟩
    · exact .inr ⟨rest, rfl, h⟩
  · rintro (⟨rfl, rfl⟩ | ⟨rest, rfl, h⟩)
    · exact ⟨[], rfl, hnested, .here _⟩
    · exact ⟨rest, rfl, hnested, (chain_iff hunion rest last).mpr (.inr h)⟩

theorem walked_union {middle result : Walk}
    (hunion : unions.get? member = some union) (hmember : member ∉ members) (hseen : member ∉ walk.seen)
    (hbelow : Walked unions union.types.items { walk with seen := insert member walk.seen } middle)
    (hrest : Walked unions members middle result) : Walked unions (member :: members) walk result := by
  have hmiddle (name : String) : name ∈ middle.seen ↔
      name ∈ walk.seen ∨ name = member ∨ ∃ path, Leads unions union.types.items path name := by
    rw [hbelow.seen, Finset.mem_insert]
    tauto
  have hfirst (name : String) (path : List String)
      (h : path = [member] ∧ name = member ∨
        ∃ rest, path = member :: rest ∧ Leads unions union.types.items rest name) : name ∈ middle.seen := by
    rcases h with ⟨-, rfl⟩ | ⟨rest, -, h⟩
    · exact (hmiddle name).mpr (.inr (.inl rfl))
    · exact (hmiddle name).mpr (.inr (.inr ⟨rest, h⟩))
  have hself (path : List String) (h : Leads unions union.types.items path member) : False :=
    hbelow.fresh member path h (Finset.mem_insert_self member walk.seen)
  refine ⟨fun name => ?_, fun name path hpath => ?_, fun name path path' hpath hpath' => ?_, fun typeName => ?_⟩
  · rw [hrest.seen, hmiddle]
    simp only [leads_union hunion]
    constructor
    · rintro ((h | rfl | ⟨path, h⟩) | ⟨path, h⟩)
      · exact .inl h
      · exact .inr ⟨[name], .inl (.inl ⟨rfl, rfl⟩)⟩
      · exact .inr ⟨member :: path, .inl (.inr ⟨path, rfl, h⟩)⟩
      · exact .inr ⟨path, .inr h⟩
    · rintro (h | ⟨path, (⟨-, rfl⟩ | ⟨rest, -, h⟩) | h⟩)
      · exact .inl (.inl h)
      · exact .inl (.inr (.inl rfl))
      · exact .inl (.inr (.inr ⟨rest, h⟩))
      · exact .inr ⟨path, h⟩
  · rcases (leads_union hunion members path name).mp hpath with (⟨-, rfl⟩ | ⟨rest, -, h⟩) | h
    · exact hseen
    · exact fun hname => hbelow.fresh name rest h (Finset.mem_insert_of_mem hname)
    · exact fun hname => hrest.fresh name path h ((hmiddle name).mpr (.inl hname))
  · rcases (leads_union hunion members path name).mp hpath with h | h <;>
      rcases (leads_union hunion members path' name).mp hpath' with h' | h'
    · rcases h with ⟨rfl, rfl⟩ | ⟨rest, rfl, h⟩ <;> rcases h' with ⟨rfl, hname⟩ | ⟨rest', rfl, h'⟩
      · rfl
      · exact absurd h' fun h' => hself rest' h'
      · exact absurd (hname ▸ h) fun h => hself rest h
      · exact congrArg (member :: ·) (hbelow.unique name rest rest' h h')
    · exact absurd (hfirst name path h) (hrest.fresh name path' h')
    · exact absurd (hfirst name path' h') (hrest.fresh name path h)
    · exact hrest.unique name path path' h h'
  · rw [hrest.types, hbelow.types]
    constructor
    · rintro ((h | ⟨hnone, h⟩) | ⟨hnone, h⟩)
      · exact .inl h
      · refine .inr ⟨hnone, .inr ?_⟩
        rcases h with hmem | ⟨path, name, other, h, hother, hmem⟩
        · exact ⟨[member], member, union, (leads_union hunion ..).mpr (.inl (.inl ⟨rfl, rfl⟩)), hunion, hmem⟩
        · exact ⟨member :: path, name, other, (leads_union hunion ..).mpr (.inl (.inr ⟨path, rfl, h⟩)), hother,
            hmem⟩
      · refine .inr ⟨hnone, h.imp (List.mem_cons_of_mem member) ?_⟩
        rintro ⟨path, name, other, h, hother, hmem⟩
        exact ⟨path, name, other, (leads_union hunion ..).mpr (.inr h), hother, hmem⟩
    · rintro (h | ⟨hnone, h⟩)
      · exact .inl (.inl h)
      · rcases h with hmem | ⟨path, name, other, h, hother, hmem⟩
        · rcases List.mem_cons.mp hmem with rfl | hmem
          · exact absurd (hnone.symm.trans hunion) (by simp)
          · exact .inr ⟨hnone, .inl hmem⟩
        · rcases (leads_union hunion members path name).mp h with (⟨-, rfl⟩ | ⟨rest, -, h⟩) | h
          · cases hunion.symm.trans hother
            exact .inl (.inr ⟨hnone, .inl hmem⟩)
          · exact .inl (.inr ⟨hnone, .inr ⟨rest, name, other, h, hother, hmem⟩⟩)
          · exact .inr ⟨hnone, .inr ⟨path, name, other, h, hother, hmem⟩⟩

theorem twice_leaf {seen : Finset String} (h : Twice unions members seen) : Twice unions (member :: members) seen := by
  obtain ⟨name, ⟨hname, path, h⟩ | ⟨path, path', hne, h, h'⟩⟩ := h
  · exact ⟨name, .inl ⟨hname, path, (leads_cons ..).mpr (.inr h)⟩⟩
  · exact ⟨name, .inr ⟨path, path', hne, (leads_cons ..).mpr (.inr h), (leads_cons ..).mpr (.inr h')⟩⟩

theorem twice_below {seen : Finset String} (hunion : unions.get? member = some union)
    (h : Twice unions union.types.items (insert member seen)) : Twice unions (member :: members) seen := by
  have hbelow {path : List String} {last : String} (h : Leads unions union.types.items path last) :
      Leads unions (member :: members) (member :: path) last :=
    (leads_union hunion ..).mpr (.inl (.inr ⟨path, rfl, h⟩))
  obtain ⟨name, ⟨hname, path, h⟩ | ⟨path, path', hne, h, h'⟩⟩ := h
  · rcases Finset.mem_insert.mp hname with rfl | hname
    · obtain ⟨first, rest, rfl, -⟩ := leads_head h
      refine ⟨name, .inr ⟨[name], name :: first :: rest, by simp, ?_, hbelow h⟩⟩
      exact (leads_union hunion ..).mpr (.inl (.inl ⟨rfl, rfl⟩))
    · exact ⟨name, .inl ⟨hname, member :: path, hbelow h⟩⟩
  · refine ⟨name, .inr ⟨member :: path, member :: path', fun heq => ?_, hbelow h, hbelow h'⟩⟩
    exact hne (List.cons.inj heq).2

theorem twice_rest {middle : Walk} (hunion : unions.get? member = some union) (hmember : member ∉ members)
    (hbelow : Walked unions union.types.items { walk with seen := insert member walk.seen } middle)
    (h : Twice unions members middle.seen) : Twice unions (member :: members) walk.seen := by
  have hrest {path : List String} {last : String} (h : Leads unions members path last) :
      Leads unions (member :: members) path last := (leads_cons ..).mpr (.inr h)
  have hne {path rest : List String} {last : String} (h : Leads unions members path last) :
      path ≠ member :: rest := by
    obtain ⟨first, others, rfl, hfirst⟩ := leads_head h
    rintro heq
    exact hmember ((List.cons.inj heq).1 ▸ hfirst)
  obtain ⟨name, ⟨hname, path, h⟩ | ⟨path, path', hne, h, h'⟩⟩ := h
  · rcases (hbelow.seen name).mp hname with hname | ⟨path', h'⟩
    · rcases Finset.mem_insert.mp hname with rfl | hname
      · refine ⟨name, .inr ⟨path, [name], hne h, hrest h, ?_⟩⟩
        exact (leads_union hunion ..).mpr (.inl (.inl ⟨rfl, rfl⟩))
      · exact ⟨name, .inl ⟨hname, path, hrest h⟩⟩
    · refine ⟨name, .inr ⟨path, member :: path', hne h, hrest h, ?_⟩⟩
      exact (leads_union hunion ..).mpr (.inl (.inr ⟨path', rfl, h'⟩))
  · exact ⟨name, .inr ⟨path, path', hne, hrest h, hrest h'⟩⟩

/-- What a walk that returns has done: it went well and saw every union once, or it failed at one it saw twice. -/
def Outcome (unions : Dict Union) (members : List String) (walk result : Walk) : Prop :=
  result.outcome = .ok () ∧ Walked unions members walk result ∨
    (∃ error, result.outcome = .error error) ∧ Twice unions members walk.seen

theorem fail_outcome (walk : Walk) (message : String) : ∃ error, (walk.fail message).outcome = .error error := by
  rw [Walk.fail]
  cases walk.outcome with
  | ok result => exact ⟨_, rfl⟩
  | error error => exact ⟨_, rfl⟩

def Failed (walk : Walk) : Prop := ∃ error, walk.outcome = .error error

theorem walkMembers_failed (visit : Union → Walk → Option Walk)
    (hvisit : ∀ union walk result, visit union walk = some result → Failed walk → Failed result)
    (members : List String) (walk result : Walk) (h : visitAll (walkMember unions visit) members walk = some result)
    (hfailed : Failed walk) : Failed result := by
  refine visitAll_preserves _ Failed members ?_ walk result hfailed h
  intro typeName _ walk result hfailed h
  rw [walkMember] at h
  split at h
  next union hunion =>
    split at h
    · exact Option.some.inj h ▸ fail_outcome walk _
    · exact hvisit union _ result h hfailed
  next => exact Option.some.inj h ▸ hfailed

theorem walkUnion_failed (fuel : ℕ) (union : Union) (walk result : Walk)
    (h : walkUnion unions fuel union walk = some result) (hfailed : Failed walk) : Failed result := by
  induction fuel generalizing union walk result with
  | zero => cases h
  | succ fuel ih => exact walkMembers_failed _ ih union.types.items walk result h hfailed

theorem walkUnion_outcome (fuel : ℕ) (union : Union) (walk result : Walk) (hok : walk.outcome = .ok ())
    (h : walkUnion unions fuel union walk = some result) : Outcome unions union.types.items walk result := by
  induction fuel generalizing union walk result with
  | zero => cases h
  | succ fuel ih =>
    have hfailed := @walkMembers_failed unions _ (@walkUnion_failed unions fuel)
    have hall (members : List String) (hn : members.Nodup) (walk result : Walk) (hok : walk.outcome = .ok ())
        (h : visitAll (walkMember unions (walkUnion unions fuel)) members walk = some result) :
        Outcome unions members walk result := by
      induction members generalizing walk with
      | nil =>
        obtain rfl := Option.some.inj h
        exact .inl ⟨hok, walked_nil _⟩
      | cons member members ihm =>
        obtain ⟨hmember, hn⟩ := List.nodup_cons.mp hn
        rw [visitAll_cons] at h
        obtain ⟨middle, hm, h⟩ := Option.bind_eq_some_iff.mp h
        rw [walkMember] at hm
        split at hm
        next union hunion =>
          split at hm
          next hseen =>
            obtain rfl := Option.some.inj hm
            refine .inr ⟨hfailed members _ result h (fail_outcome walk _), member, .inl ⟨hseen, [member], ?_⟩⟩
            exact (leads_union hunion ..).mpr (.inl (.inl ⟨rfl, rfl⟩))
          next hseen =>
            rcases ih union { walk with seen := insert member walk.seen } middle hok hm with
              ⟨hmiddle, hwalked⟩ | ⟨hmiddle, htwice⟩
            · rcases ihm hn middle hmiddle h with ⟨hresult, hrest⟩ | ⟨hresult, hrest⟩
              · exact .inl ⟨hresult, walked_union hunion hmember hseen hwalked hrest⟩
              · exact .inr ⟨hresult, twice_rest hunion hmember hwalked hrest⟩
            · exact .inr ⟨hfailed members middle result h hmiddle, twice_below hunion htwice⟩
        next hleaf =>
          obtain rfl := Option.some.inj hm
          rcases ihm hn { walk with unionTypes := member :: walk.unionTypes } hok h with
            ⟨hresult, hwalked⟩ | ⟨hresult, htwice⟩
          · exact .inl ⟨hresult, walked_leaf hleaf hwalked⟩
          · exact .inr ⟨hresult, twice_leaf htwice⟩
    exact hall union.types.items union.types.nodup walk result hok h

theorem walkUnion_returns (fuel : ℕ) (union : Union) (walk : Walk)
    (hfuel : (unions.keys.toFinset \ walk.seen).card < fuel) :
    ∃ result, walkUnion unions fuel union walk = some result ∧ walk.seen ⊆ result.seen := by
  induction fuel generalizing union walk with
  | zero => exact absurd hfuel (Nat.not_lt_zero _)
  | succ fuel ih =>
    have hall (members : List String) (state : Walk) (hstate : walk.seen ⊆ state.seen) :
        ∃ result, visitAll (walkMember unions (walkUnion unions fuel)) members state = some result ∧
          walk.seen ⊆ result.seen := by
      induction members generalizing state with
      | nil => exact ⟨state, rfl, hstate⟩
      | cons member members ihm =>
        have hone : ∃ middle, walkMember unions (walkUnion unions fuel) member state = some middle ∧
            walk.seen ⊆ middle.seen := by
          rw [walkMember]
          split
          next union hunion =>
            split
            next => exact ⟨_, rfl, hstate⟩
            next hseen =>
              have hkey : member ∈ unions.keys.toFinset \ state.seen := by
                rw [Finset.mem_sdiff, List.mem_toFinset]
                exact ⟨(Dict.contains_iff unions member).mp (by rw [Dict.contains, hunion]; rfl), hseen⟩
              have hless : (unions.keys.toFinset \ insert member state.seen).card <
                  (unions.keys.toFinset \ state.seen).card := by
                rw [Finset.sdiff_insert]
                exact Finset.card_erase_lt_of_mem hkey
              have hle : (unions.keys.toFinset \ state.seen).card ≤ (unions.keys.toFinset \ walk.seen).card :=
                Finset.card_le_card (Finset.sdiff_subset_sdiff subset_rfl hstate)
              obtain ⟨middle, hmiddle, hsub⟩ := ih union { state with seen := insert member state.seen } (by
                change (unions.keys.toFinset \ insert member state.seen).card < fuel
                omega)
              exact ⟨middle, hmiddle, hstate.trans ((Finset.subset_insert member state.seen).trans hsub)⟩
          next => exact ⟨_, rfl, hstate⟩
        obtain ⟨middle, hmiddle, hsub⟩ := hone
        obtain ⟨result, hresult, hsub'⟩ := ihm middle hsub
        exact ⟨result, by rw [visitAll_cons, hmiddle]; exact hresult, hsub'⟩
    exact hall union.types.items walk subset_rfl

def SingleChains (unions : Dict Union) : Prop :=
  ∀ name union, unions.get? name = some union → ∀ path path' last, Leads unions union.types.items path last →
    Leads unions union.types.items path' last → path = path'

theorem walkUnion_ok_iff (fuel : ℕ) (union : Union) (result : Walk)
    (h : walkUnion unions fuel union ⟨Valid.succeed (), [], ∅⟩ = some result) :
    result.outcome = .ok () ↔ ∀ path path' last, Leads unions union.types.items path last →
      Leads unions union.types.items path' last → path = path' := by
  rcases walkUnion_outcome fuel union _ result rfl h with ⟨hok, hwalked⟩ | ⟨⟨error, herror⟩, name, htwice⟩
  · exact ⟨fun _ path path' last => hwalked.unique last path path', fun _ => hok⟩
  · refine ⟨fun hok => absurd (herror.symm.trans hok) (by simp), fun hsingle => ?_⟩
    rcases htwice with ⟨hname, -⟩ | ⟨path, path', hne, h, h'⟩
    · exact absurd hname (Finset.notMem_empty name)
    · exact absurd (hsingle path path' name h h') hne

end Walks

section Exactness

variable {P : Payloads}

structure Flattened (config : Config P) (name : String) (union union' : Union) : Prop where
  rest : union' = { union with types := union'.types }
  members : ∀ typeName, typeName ∈ union'.types.items ↔
    config.findUnion typeName = none ∧ TransGen (UnionMember config) typeName name

structure FlattenedAll (config result : Config P) : Prop where
  rest : result = { config with unions := result.unions }
  keys : result.unions.keys = config.unions.keys
  unions : ∀ name union, config.findUnion name = some union → ∃ union', result.findUnion name = some union' ∧
    Flattened config name union union'

def Acyclic (config : Config P) : Prop :=
  ∀ name, ¬ TransGen (UnionMember config) name name

/-- The transform returns. It succeeds when no union contains itself, and then no union has nested ones. -/
def Exact (config : Config P) : Prop :=
  ∃ fuel valid, (∀ more, fuel ≤ more → transform config more = some valid) ∧
    ((∃ result, valid = .ok result) ↔ Acyclic config) ∧
      ∀ result, valid = .ok result → FlattenedAll config result

variable {config : Config P}

variable {name last : String} {union : Union}

theorem chain_transGen {member : String} {path : List String}
    (hunion : config.findUnion name = some union) (hmember : member ∈ union.types.items)
    (h : Chain config.unions member path last) : TransGen (UnionMember config) last name := by
  induction h generalizing name union with
  | here => exact .single ⟨union, hunion, hmember⟩
  | step hunion' hmember' _ _ ih => exact (ih hunion' hmember').tail ⟨union, hunion, hmember⟩

theorem leads_transGen {path : List String} (hunion : config.findUnion name = some union)
    (h : Leads config.unions union.types.items path last) : TransGen (UnionMember config) last name := by
  obtain ⟨member, rest, -, hmember, -, h⟩ := h
  exact chain_transGen hunion hmember h

theorem transGen_leads (hlast : config.unions.contains last = true) (h : TransGen (UnionMember config) last name) :
    ∃ union path, config.findUnion name = some union ∧ Leads config.unions union.types.items path last := by
  induction h with
  | single h =>
    obtain ⟨union, hunion, hmember⟩ := h
    exact ⟨union, [last], hunion, last, [], rfl, hmember, hlast, .here last⟩
  | @tail middle name _ hstep ih =>
    obtain ⟨union, hunion, hmember⟩ := hstep
    obtain ⟨union', path, hunion', member, rest, rfl, hmember', hnested, h⟩ := ih
    have hmiddle : config.unions.contains middle = true := by
      rw [Dict.contains, ← Config.findUnion, hunion']
      rfl
    exact ⟨union, _, hunion, middle, member :: rest, rfl, hmember, hmiddle, .step hunion' hmember' hnested h⟩

theorem leaf_iff (hunion : config.findUnion name = some union) (typeName : String) :
    Leaf config.unions union.types.items typeName ↔
      config.findUnion typeName = none ∧ TransGen (UnionMember config) typeName name := by
  refine and_congr_right fun _ => ?_
  constructor
  · rintro (hmember | ⟨path, other, union', h, hunion', hmember⟩)
    · exact .single ⟨union, hunion, hmember⟩
    · exact .head ⟨union', hunion', hmember⟩ (leads_transGen hunion h)
  · intro h
    obtain ⟨other, ⟨union', hunion', hmember⟩, h⟩ := TransGen.head'_iff.mp h
    rcases reflTransGen_iff_eq_or_transGen.mp h with rfl | h
    · cases hunion.symm.trans hunion'
      exact .inl hmember
    · have hother : config.unions.contains other = true := by
        rw [Dict.contains, ← Config.findUnion, hunion']
        rfl
      obtain ⟨union'', path, hunion'', h⟩ := transGen_leads hother h
      cases hunion.symm.trans hunion''
      exact .inr ⟨path, other, union', h, hunion', hmember⟩

theorem acyclic_of_singleChains (h : SingleChains config.unions) : Acyclic config := by
  intro name hcycle
  have hname : ∃ union, config.findUnion name = some union := by
    obtain ⟨other, _, union, hunion, _⟩ := TransGen.tail'_iff.mp hcycle
    exact ⟨union, hunion⟩
  obtain ⟨union, hunion⟩ := hname
  have hnested : config.unions.contains name = true := by
    rw [Dict.contains, ← Config.findUnion, hunion]
    rfl
  obtain ⟨union', path, hunion', hpath⟩ := transGen_leads hnested hcycle
  cases hunion.symm.trans hunion'
  have hround := (chain_iff hunion path name).mpr (.inr hpath)
  have htwice := ((chain_iff hunion (path ++ path) name).mp (hround.trans hround)).resolve_left fun heq => by
    obtain ⟨member, rest, rfl, -⟩ := leads_head hpath
    cases heq.1
  have hsame := h name union hunion path (path ++ path) name hpath htwice
  obtain ⟨member, rest, rfl, -⟩ := leads_head hpath
  exact absurd (List.self_eq_append_right.mp hsame) (by simp)

theorem walkUnion_succ (fuel : ℕ) (union : Union) (walk result : Walk)
    (h : walkUnion config.unions fuel union walk = some result) :
    walkUnion config.unions (fuel + 1) union walk = some result := by
  induction fuel generalizing union walk result with
  | zero => cases h
  | succ fuel ih =>
    refine visitAll_mono _ _ (fun typeName walk result h => ?_) _ walk result h
    rw [walkMember] at h ⊢
    split at h
    next union hunion =>
      split at h
      next hseen => rwa [if_pos hseen]
      next hseen =>
        rw [if_neg hseen]
        exact ih union _ result h
    next => exact h

theorem visitUnion_succ (fuel : ℕ) (entry : String × Union) (valid : Valid (String × Union) String)
    (h : visitUnion config.unions fuel entry = some valid) :
    visitUnion config.unions (fuel + 1) entry = some valid := by
  obtain ⟨walk, hwalk, hvalid⟩ := Option.map_eq_some_iff.mp h
  exact Option.map_eq_some_iff.mpr ⟨walk, walkUnion_succ fuel entry.2 _ walk hwalk, hvalid⟩

theorem visit_eq_some_iff (fuel : ℕ) (valid : Valid (Dict Union) String) :
    visit config.unions fuel = some valid ↔ ∃ valids,
      List.Forall₂ (fun entry valid => visitUnion config.unions fuel entry = some valid) config.unions.entries
        valids ∧ (Valid.collect valids).mapOk Dict.ofEntries = valid := by
  rw [visit, Option.map_eq_some_iff]
  refine exists_congr fun valids => and_congr_left fun _ => ?_
  rw [sequence_eq_some, ← List.forall₂_eq_eq_eq, List.forall₂_map_left_iff, List.forall₂_map_right_iff]

theorem transform_succ (fuel : ℕ) (valid : Valid (Config P) String) (h : transform config fuel = some valid) :
    transform config (fuel + 1) = some valid := by
  obtain ⟨found, hfound, rfl⟩ := Option.map_eq_some_iff.mp h
  obtain ⟨valids, hvalids, hcollect⟩ := (visit_eq_some_iff fuel found).mp hfound
  refine Option.map_eq_some_iff.mpr ⟨found, ?_, rfl⟩
  refine (visit_eq_some_iff (fuel + 1) found).mpr ⟨valids, ?_, hcollect⟩
  exact hvalids.imp fun entry valid => visitUnion_succ fuel entry valid

theorem transform_returns (config : Config P) :
    ∃ fuel valid, ∀ more, fuel ≤ more → transform config more = some valid := by
  have hall : ∀ entry ∈ config.unions.entries,
      (visitUnion config.unions (config.unions.keys.toFinset.card + 1) entry).isSome = true := by
    intro entry _
    obtain ⟨result, hresult, -⟩ := @walkUnion_returns config.unions
      (config.unions.keys.toFinset.card + 1) entry.2 ⟨Valid.succeed (), [], ∅⟩ (by simp)
    rw [visitUnion, hresult]
    rfl
  obtain ⟨valids, hvalids⟩ := Option.isSome_iff_exists.mp ((sequence_map_isSome _ _).mpr hall)
  have hreturns : ∃ valid, transform config (config.unions.keys.toFinset.card + 1) = some valid := by
    rw [transform, visit, hvalids]
    exact ⟨_, rfl⟩
  obtain ⟨valid, hvalid⟩ := hreturns
  refine ⟨config.unions.keys.toFinset.card + 1, valid, fun more hle => ?_⟩
  induction hle with
  | refl => exact hvalid
  | step _ ih => exact transform_succ _ _ ih

theorem visitUnion_succeeds_iff (fuel : ℕ) (entry : String × Union) (valid : Valid (String × Union) String)
    (h : visitUnion config.unions fuel entry = some valid) :
    (∃ made, valid = .ok made) ↔ ∀ path path' last, Leads config.unions entry.2.types.items path last →
      Leads config.unions entry.2.types.items path' last → path = path' := by
  obtain ⟨walk, hwalk, rfl⟩ := Option.map_eq_some_iff.mp h
  rw [Valid.mapOk_succeeds_iff, Valid.trace_succeeds_iff, ← walkUnion_ok_iff fuel entry.2 walk hwalk]
  exact ⟨fun ⟨_, h⟩ => h, fun h => ⟨(), h⟩⟩

theorem visitUnion_name (fuel : ℕ) (entry made : String × Union)
    (h : visitUnion config.unions fuel entry = some (.ok made)) : entry.1 = made.1 := by
  obtain ⟨walk, -, hvalid⟩ := Option.map_eq_some_iff.mp h
  obtain ⟨_, -, rfl⟩ := (Valid.mapOk_eq_ok ..).mp hvalid
  rfl

theorem visitUnion_flattened (fuel : ℕ) (entry made : String × Union) (hunion : config.findUnion entry.1 = some entry.2)
    (h : visitUnion config.unions fuel entry = some (.ok made)) : Flattened config entry.1 entry.2 made.2 := by
  obtain ⟨walk, hwalk, hvalid⟩ := Option.map_eq_some_iff.mp h
  obtain ⟨_, hok, rfl⟩ := (Valid.mapOk_eq_ok ..).mp hvalid
  have houtcome := (Valid.trace_eq_ok ..).mp hok
  refine ⟨rfl, fun typeName => ?_⟩
  rcases walkUnion_outcome fuel entry.2 _ walk rfl hwalk with ⟨-, hwalked⟩ | ⟨⟨error, herror⟩, -⟩
  · rw [mem_sortedSet, hwalked.types, ← leaf_iff hunion]
    exact or_iff_right (List.not_mem_nil)
  · exact absurd (herror.symm.trans houtcome) (by simp)

theorem transform_succeeds_iff (fuel : ℕ) (valid : Valid (Config P) String) (h : transform config fuel = some valid) :
    (∃ result, valid = .ok result) ↔ SingleChains config.unions := by
  obtain ⟨found, hfound, rfl⟩ := Option.map_eq_some_iff.mp h
  obtain ⟨valids, hvalids, rfl⟩ := (visit_eq_some_iff fuel found).mp hfound
  have hcollect := Valid.fromIter_succeeds_iff valids id
  rw [Valid.fromIter, List.map_id] at hcollect
  rw [Valid.mapOk_succeeds_iff, Valid.mapOk_succeeds_iff, hcollect]
  constructor
  · intro hok name union hunion
    obtain ⟨valid, hvalid, hvisit⟩ := Dict.exists_of_forall₂ hvalids ((Dict.get?_eq_some_iff ..).mp hunion)
    exact (visitUnion_succeeds_iff fuel (name, union) valid hvisit).mp (hok valid hvalid)
  · intro hsingle valid hvalid
    obtain ⟨entry, hentry, hvisit⟩ := Dict.exists_of_forall₂ hvalids.flip hvalid
    refine (visitUnion_succeeds_iff fuel entry valid hvisit).mpr fun path path' last => ?_
    exact hsingle entry.1 entry.2 ((Dict.get?_eq_some_iff ..).mpr hentry) path path' last

theorem transform_flattened (fuel : ℕ) (result : Config P) (h : transform config fuel = some (.ok result)) :
    FlattenedAll config result := by
  obtain ⟨found, hfound, hresult⟩ := Option.map_eq_some_iff.mp h
  obtain ⟨valids, hvalids, rfl⟩ := (visit_eq_some_iff fuel found).mp hfound
  obtain ⟨unions, hunions, rfl⟩ := (Valid.mapOk_eq_ok ..).mp hresult
  obtain ⟨entries, hcollect, rfl⟩ := (Valid.mapOk_eq_ok ..).mp hunions
  rw [Valid.collect_eq_ok] at hcollect
  subst hcollect
  rw [List.forall₂_map_right_iff] at hvalids
  have hkeys : config.unions.entries.map Prod.fst = entries.map Prod.fst := by
    rw [← List.forall₂_eq_eq_eq, List.forall₂_map_left_iff, List.forall₂_map_right_iff]
    exact hvalids.imp fun entry made => visitUnion_name fuel entry made
  have hn : (entries.map Prod.fst).Nodup := hkeys ▸ config.unions.nodup
  refine ⟨rfl, ?_, fun name union hunion => ?_⟩
  · rw [Dict.keys, Dict.ofEntries_eq entries hn]
    exact hkeys.symm
  · obtain ⟨made, hmade, hvisit⟩ := Dict.exists_of_forall₂ hvalids ((Dict.get?_eq_some_iff ..).mp hunion)
    obtain rfl : name = made.1 := visitUnion_name fuel _ made hvisit
    refine ⟨made.2, ?_, visitUnion_flattened fuel _ made hunion hvisit⟩
    rw [Config.findUnion, Dict.get?_ofEntries entries hn]
    exact (Dict.lookup_eq_some_iff entries hn _ _).mpr hmade

end Exactness

/-- The transform is exact unless no union contains itself and yet some union contains another twice. -/
theorem transform_exact_iff {P : Payloads} (config : Config P) :
    Exact config ↔ (Acyclic config → SingleChains config.unions) := by
  constructor
  · rintro ⟨fuel, valid, hreturns, hsucceeds, -⟩ hacyclic
    exact (transform_succeeds_iff fuel valid (hreturns fuel le_rfl)).mp (hsucceeds.mpr hacyclic)
  · intro h
    obtain ⟨fuel, valid, hreturns⟩ := transform_returns config
    have hvalid := hreturns fuel le_rfl
    refine ⟨fuel, valid, hreturns, ?_, fun result hresult => ?_⟩
    · rw [transform_succeeds_iff fuel valid hvalid]
      exact ⟨acyclic_of_singleChains, h⟩
    · exact transform_flattened fuel result (hresult ▸ hvalid)

def unionOf (members : List String) (hn : members.Nodup) : Union := ⟨⟨members, hn⟩, none⟩

def shared : Config plain where
  server := ()
  upstream := ()
  schema := ⟨none, none, none⟩
  types := Dict.empty
  unions := ⟨[("A", unionOf ["B", "C"] (by decide)), ("B", unionOf ["D"] (by decide)),
    ("C", unionOf ["D"] (by decide)), ("D", unionOf ["T"] (by decide))], by decide⟩
  enums := Dict.empty
  links := []
  telemetry := ()

theorem shared_acyclic : Acyclic shared := by
  have hlater {member name : String} (h : UnionMember shared member name) : name < member := by
    obtain ⟨union, hunion, hmember⟩ := h
    have hname : name ∈ ["A", "B", "C", "D"] :=
      (Dict.contains_iff shared.unions name).mp (by rw [Dict.contains, ← Config.findUnion, hunion]; rfl)
    simp only [List.mem_cons, List.not_mem_nil, or_false] at hname
    rcases hname with rfl | rfl | rfl | rfl <;> cases hunion <;> revert member <;> decide
  intro name hcycle
  have hall {member name : String} (h : TransGen (UnionMember shared) member name) : name < member := by
    induction h with
    | single h => exact hlater h
    | tail _ h ih => exact (hlater h).trans ih
  exact lt_irrefl name (hall hcycle)

theorem shared_rejected : ¬ Exact shared := by
  rintro ⟨fuel, valid, hreturns, hsucceeds, -⟩
  have hsingle := (transform_succeeds_iff fuel valid (hreturns fuel le_rfl)).mp (hsucceeds.mpr shared_acyclic)
  have hsame := hsingle "A" (unionOf ["B", "C"] (by decide)) rfl ["B", "D"] ["C", "D"] "D"
    ⟨"B", ["D"], rfl, by decide, rfl, .step rfl (by decide) rfl (.here "D")⟩
    ⟨"C", ["D"], rfl, by decide, rfl, .step rfl (by decide) rfl (.here "D")⟩
  exact absurd hsame (by decide)

end Gqlforge.NestedUnions
