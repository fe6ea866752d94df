import Gqlforge.SplitRoles
import Gqlforge.UnionVariants

namespace Gqlforge

namespace SortedMap

variable {K V : Type} [LinearOrder K]

theorem mem_keys_insertEntry (key : K) (value : V) (entries : List (K × V)) (other : K) :
    other ∈ (insertEntry key value entries).map Prod.fst ↔ other = key ∨ other ∈ entries.map Prod.fst := by
  induction entries with
  | nil => simp [insertEntry]
  | cons entry rest ih =>
    rw [insertEntry]
    split
    · simp
    · split
      next heq => simp [heq]
      next => rw [List.map_cons, List.mem_cons, ih, List.map_cons, List.mem_cons, or_left_comm]

theorem mem_keys_ofPairs (pairs : List (K × V)) (key : K) :
    key ∈ (ofPairs pairs).entries.map Prod.fst ↔ key ∈ pairs.map Prod.fst := by
  induction pairs using List.reverseRecOn with
  | nil => rfl
  | append_singleton pairs pair ih =>
    rw [ofPairs_concat, entries_insert, mem_keys_insertEntry, ih, List.map_append, List.mem_append, or_comm]
    simp

theorem ofPairs_perm {pairs : List (K × V)} (h : (pairs.map Prod.fst).Nodup) : (ofPairs pairs).entries.Perm pairs := by
  have hnodup : ((ofPairs pairs).entries.map Prod.fst).Nodup := (ofPairs pairs).nodup_keys
  have hlength := (h.subperm fun key hkey => (mem_keys_ofPairs pairs key).mpr hkey).length_le
  rw [List.length_map, List.length_map] at hlength
  exact (ofPairs_subperm pairs).perm_of_length_le hlength

end SortedMap

namespace UnionInputs

open Json Config GuardedSearch SchemaUsage TypeRenames Relation

variable {P : Payloads} {config : Config P}

theorem sortedEntries_perm {V : Type} (dict : Dict V) : (sortedEntries dict).Perm dict.entries :=
  SortedMap.ofPairs_perm dict.nodup

theorem mem_sortedEntries {V : Type} (dict : Dict V) (name : String) (value : V) :
    (name, value) ∈ sortedEntries dict ↔ dict.get? name = some value := by
  rw [(sortedEntries_perm dict).mem_iff, Dict.get?_eq_some_iff]

theorem mem_sortedSet (names : List String) (name : String) : name ∈ sortedSet names ↔ name ∈ names := by
  rw [sortedSet, SortedMap.mem_keys_ofPairs, List.map_map]
  simp [Function.comp_def]

theorem nodup_sortedSet (names : List String) : (sortedSet names).Nodup :=
  SortedMap.nodup_keys _

def children (config : Config P) (name : String) : List String :=
  match config.findUnion name with
  | some union => sortedSet union.types.items
  | none =>
    match config.findType name with
    | some type => (sortedEntries type.fields).map fun (_, field) => field.typeOf.name
    | none => []

theorem mem_children (name other : String) : other ∈ children config name ↔ Refers config name other := by
  rw [children, Refers, UnionMember]
  cases config.findUnion name with
  | some union => simp [mem_sortedSet]
  | none =>
    cases config.findType name with
    | none => simp
    | some type =>
      have hfields : (∃ entry ∈ sortedEntries type.fields, entry.2.typeOf.name = other) ↔
          ∃ field ∈ type.fields.values, field.typeOf.name = other := by
        constructor
        · rintro ⟨⟨fieldName, field⟩, hmem, heq⟩
          exact ⟨field, (type.fields.mem_values_iff field).mpr ⟨fieldName, (mem_sortedEntries _ _ _).mp hmem⟩, heq⟩
        · rintro ⟨field, hmem, heq⟩
          obtain ⟨fieldName, hfield⟩ := (type.fields.mem_values_iff field).mp hmem
          exact ⟨(fieldName, field), (mem_sortedEntries _ _ _).mpr hfield, heq⟩
      simpa using hfields

def finish (config : Config P) (typeName : String) (visitor : Visitor P) : Visitor P :=
  match config.findUnion typeName with
  | some union =>
    { visitor with
      unionPresence := visitor.unionPresence.insert typeName (.union (unionMembers visitor.unionTypes union)) }
  | none =>
    match config.findType typeName with
    | some type =>
      let unionFields := unionFieldsOf visitor.unionTypes type
      if unionFields.isEmpty then
        { visitor with unionPresence := visitor.unionPresence.insert typeName .noUnion }
      else
        let unionTypes := createTypesFromUnion typeName type unionFields
        { visitor with
          unionPresence := visitor.unionPresence.insert typeName (.union (unionTypes.map Prod.fst))
          newTypes := visitor.newTypes.extend unionTypes }
    | none => visitor

def enter (typeName : String) (visitor : Visitor P) : Visitor P :=
  { visitor with visitedTypes := insert typeName visitor.visitedTypes }

theorem collect_fresh (fuel : ℕ) (typeName : String) (visitor : Visitor P)
    (h : ¬ (visitor.unionPresence.contains typeName = true ∨ typeName ∈ visitor.visitedTypes)) :
    collectNestedUnionsForType config (fuel + 1) typeName visitor =
      (visitAll (collectNestedUnionsForType config fuel) (children config typeName) (enter typeName visitor)).map
        (finish config typeName) := by
  rw [collectNestedUnionsForType, if_neg h, children]
  change (match config.findUnion typeName with | some union => _ | none => _) = _
  have hfinish : finish config typeName = fun visitor => finish config typeName visitor := rfl
  rw [hfinish]
  simp only [finish]
  cases config.findUnion typeName with
  | some union => rfl
  | none =>
    change (match config.findType typeName with | some type => _ | none => _) = _
    cases config.findType typeName with
    | some type => rfl
    | none => rfl

section Congruence

variable {unionTypes unionTypes' : String → Option (List String)}

theorem unionFieldsOf_congr (type : TypeDef P)
    (h : ∀ entry ∈ sortedEntries type.fields, unionTypes entry.2.typeOf.name = unionTypes' entry.2.typeOf.name) :
    unionFieldsOf unionTypes type = unionFieldsOf unionTypes' type :=
  List.filterMap_congr fun entry hentry => by dsimp only; rw [h entry hentry]

theorem unionMembers_congr (union : Union)
    (h : ∀ name ∈ sortedSet union.types.items, unionTypes name = unionTypes' name) :
    unionMembers unionTypes union = unionMembers unionTypes' union := by
  rw [unionMembers, unionMembers, List.flatMap_congr fun name hname => by rw [h name hname]]

end Congruence

theorem unionFieldsOf_isEmpty_iff (unionTypes : String → Option (List String)) (type : TypeDef P) :
    (unionFieldsOf unionTypes type).isEmpty = true ↔
      ∀ name field, type.fields.get? name = some field → unionTypes field.typeOf.name = none := by
  rw [List.isEmpty_iff, unionFieldsOf, List.filterMap_eq_nil_iff]
  constructor
  · intro h name field hfield
    simpa using h (name, field) ((mem_sortedEntries _ _ _).mpr hfield)
  · rintro h ⟨name, field⟩ hmem
    simpa using h name field ((mem_sortedEntries _ _ _).mp hmem)

def Nested (config : Config P) (name : String) : Prop :=
  (∃ union, config.findUnion name = some union) ∨ ∃ type, config.findType name = some type

variable {variants : String → Option (List String)}

variable {name : String}

theorem Settled.isSome_iff (hs : Settled config variants) (hreached : ArgReached config name) :
    (∃ types, variants name = some types) ↔ HasUnion config name := by
  constructor
  · rintro ⟨types, htypes⟩
    by_contra h
    rw [hs.plain name h] at htypes
    cases htypes
  · intro h
    rw [hs.nested name h hreached]
    cases config.findUnion name with
    | some union => exact ⟨_, rfl⟩
    | none => exact ⟨_, rfl⟩

theorem HasUnion.nested (h : HasUnion config name) : Nested config name := by
  cases h with
  | union hunion => exact .inl ⟨_, hunion⟩
  | field _ htype => exact .inr ⟨_, htype⟩

theorem ArgReached.step {name next : String} (h : ArgReached config name) (hr : Refers config name next) :
    ArgReached config next := by
  obtain ⟨arg, harg, hpath⟩ := h
  exact ⟨arg, harg, hpath.tail hr⟩

variable {type : TypeDef P}

theorem refers_field {fieldName : String} {field : Config.Field P}
    (hunion : config.findUnion name = none) (htype : config.findType name = some type)
    (hfield : type.fields.get? fieldName = some field) : Refers config name field.typeOf.name :=
  .inr ⟨hunion, type, htype, field, (type.fields.mem_values_iff field).mpr ⟨fieldName, hfield⟩, rfl⟩

theorem Settled.no_fields_iff (hs : Settled config variants) (hreached : ArgReached config name)
    (hunion : config.findUnion name = none) (htype : config.findType name = some type) :
    (unionFieldsOf variants type).isEmpty = true ↔ ¬ HasUnion config name := by
  rw [unionFieldsOf_isEmpty_iff]
  constructor
  · intro h hhas
    cases hhas with
    | union hsome => exact Option.some_ne_none _ (hsome.symm.trans hunion)
    | @field _ fieldName type' field _ htype' hfield hnested =>
      cases htype.symm.trans htype'
      obtain ⟨types, htypes⟩ :=
        (hs.isSome_iff (hreached.step (refers_field hunion htype hfield))).mpr hnested
      rw [h fieldName field hfield] at htypes
      cases htypes
  · intro h fieldName field hfield
    exact hs.plain _ fun hnested => h (.field hunion htype hfield hnested)

theorem created_of_union (unionTypes : String → Option (List String)) {union : Union}
    (hunion : config.findUnion name = some union) : created config unionTypes name = [] := by
  rw [created, hunion]

theorem created_of_type (unionTypes : String → Option (List String))
    (hunion : config.findUnion name = none) (htype : config.findType name = some type) :
    created config unionTypes name = if (unionFieldsOf unionTypes type).isEmpty then []
      else createTypesFromUnion name type (unionFieldsOf unionTypes type) := by
  rw [created, hunion, htype]

def mapped (variants : String → Option (List String)) (type : TypeDef P) : TypeDef P :=
  { type with fields := Dict.ofEntries (mappedFields variants type) }

def Known (visitor : Visitor P) (name : String) : Prop :=
  visitor.unionPresence.contains name = true

/-- What the visitor has found is final: the variants of the types that it knows are the settled ones, and the new
types are those made for them and the types `done`. -/
structure Collected (config : Config P) (variants : String → Option (List String)) (done : List (String × TypeDef P))
    (visitor : Visitor P) : Prop where
  known : ∀ name, Known visitor name → visitor.unionTypes name = variants name
  visited : ∀ name, Known visitor name → name ∈ visitor.visitedTypes
  reached : ∀ name, Known visitor name → ArgReached config name
  closed : ∀ name, Known visitor name → ∀ next, Refers config name next → next ∈ visitor.visitedTypes
  types : ∀ typeName type', visitor.newTypes.get? typeName = some type' ↔
    (∃ name, Known visitor name ∧ (typeName, type') ∈ created config variants name) ∨
      ∃ type, (typeName, type) ∈ done ∧ type' = mapped variants type

theorem unionTypes_insert (visitor : Visitor P) (name : String) (presence : UnionPresence) (newTypes : Dict (TypeDef P))
    (other : String) :
    ({ visitor with
        unionPresence := visitor.unionPresence.insert name presence, newTypes := newTypes } : Visitor P).unionTypes
      other =
      if other = name then presence.types else visitor.unionTypes other := by
  rw [Visitor.unionTypes, Visitor.unionTypes, Dict.get?_insert]
  split
  · rfl
  · rfl

theorem unionTypes_unknown {visitor : Visitor P} (h : ¬ Known visitor name) : visitor.unionTypes name = none := by
  have hnone : visitor.unionPresence.get? name = none := by simpa [Known, Dict.contains] using h
  rw [Visitor.unionTypes, hnone]
  rfl

theorem known_insert (visitor : Visitor P) (name : String) (presence : UnionPresence) (newTypes : Dict (TypeDef P))
    (other : String) :
    Known { visitor with
        unionPresence := visitor.unionPresence.insert name presence, newTypes := newTypes } other ↔
      other = name ∨ Known visitor other := by
  rw [Known, Known, Dict.contains, Dict.get?_insert]
  by_cases h : other = name
  · simp [h]
  · simp [h, Dict.contains]

theorem get?_extend_iff (dict : Dict (TypeDef P)) (entries : Object (TypeDef P)) (hn : (entries.map Prod.fst).Nodup)
    (hfresh : ∀ entry ∈ entries, dict.contains entry.1 = false) (name : String) (type : TypeDef P) :
    (dict.extend entries).get? name = some type ↔ (name, type) ∈ entries ∨ dict.get? name = some type := by
  rw [Dict.get?_extend _ _ hn, Option.or_eq_some_iff, Dict.lookup_eq_some_iff _ hn, Dict.lookup_eq_none_iff]
  constructor
  · rintro (h | ⟨-, h⟩)
    exacts [.inl h, .inr h]
  · rintro (h | h)
    · exact .inl h
    · refine .inr ⟨fun hmem => ?_, h⟩
      obtain ⟨entry, hentry, rfl⟩ := List.mem_map.mp hmem
      have hfalse := hfresh entry hentry
      rw [Dict.contains, h] at hfalse
      cases hfalse

namespace Collected

variable {done : List (String × TypeDef P)} {visitor : Visitor P}

theorem enter (h : Collected config variants done visitor) (name : String) :
    Collected config variants done (enter name visitor) where
  known := h.known
  visited other hother := Finset.mem_insert_of_mem (h.visited other hother)
  reached := h.reached
  closed other hother next hr := Finset.mem_insert_of_mem (h.closed other hother next hr)
  types := h.types

theorem created_fresh (h : Collected config variants done visitor) (he : Expandable config variants)
    (hdone : ∀ entry ∈ done, config.types.contains entry.1 = true) {name : String} (hreached : ArgReached config name)
    (hnew : ¬ Known visitor name) :
    ∀ entry ∈ created config variants name, visitor.newTypes.contains entry.1 = false := by
  intro entry hentry
  have hmade : Made config variants entry.1 name := ⟨hreached, List.mem_map.mpr ⟨entry, hentry, rfl⟩⟩
  rw [← Bool.not_eq_true]
  intro hcontains
  obtain ⟨type', htype'⟩ := Option.isSome_iff_exists.mp hcontains
  rcases (h.types entry.1 type').mp htype' with ⟨other, hother, hmem⟩ | ⟨type, hmem, -⟩
  · have hsame := he.apart entry.1 name other hmade ⟨h.reached other hother, List.mem_map.mpr ⟨_, hmem, rfl⟩⟩
    exact hnew (hsame ▸ hother)
  · refine he.own entry.1 name hmade ?_
    have hkeys := (Dict.contains_iff _ _).mp (hdone _ hmem)
    simp only [AmbiguousTypes.mentions, List.mem_append]
    tauto

theorem learn (h : Collected config variants done visitor) {name : String} {presence : UnionPresence}
    {newTypes : Dict (TypeDef P)} (hreached : ArgReached config name) (hnew : ¬ Known visitor name)
    (hvisited : name ∈ visitor.visitedTypes) (hclosed : ∀ next, Refers config name next → next ∈ visitor.visitedTypes)
    (hpresence : presence.types = variants name)
    (htypes : ∀ typeName type', newTypes.get? typeName = some type' ↔
      (typeName, type') ∈ created config variants name ∨ visitor.newTypes.get? typeName = some type') :
    Collected config variants done
      { visitor with unionPresence := visitor.unionPresence.insert name presence, newTypes := newTypes } where
  known other hother := by
    rw [unionTypes_insert]
    split
    next heq => rw [heq, hpresence]
    next hne => exact h.known other (((known_insert _ _ _ _ _).mp hother).resolve_left hne)
  visited other hother := by
    rcases (known_insert _ _ _ _ _).mp hother with rfl | hother
    · exact hvisited
    · exact h.visited other hother
  reached other hother := by
    rcases (known_insert _ _ _ _ _).mp hother with rfl | hother
    · exact hreached
    · exact h.reached other hother
  closed other hother := by
    rcases (known_insert _ _ _ _ _).mp hother with rfl | hother
    · exact hclosed
    · exact h.closed other hother
  types typeName type' := by
    change newTypes.get? typeName = some type' ↔ _
    rw [htypes, h.types]
    simp only [known_insert]
    constructor
    · rintro (hmem | ⟨other, hother, hmem⟩ | hdone)
      · exact .inl ⟨name, .inl rfl, hmem⟩
      · exact .inl ⟨other, .inr hother, hmem⟩
      · exact .inr hdone
    · rintro (⟨other, rfl | hother, hmem⟩ | hdone)
      · exact .inl hmem
      · exact .inr (.inl ⟨other, hother, hmem⟩)
      · exact .inr (.inr hdone)

end Collected

section Search

variable {done : List (String × TypeDef P)} (he : Expandable config variants)
  (hdone : ∀ entry ∈ done, config.types.contains entry.1 = true)

include he hdone

variable {name : String}

theorem finish_collected {visitor : Visitor P} (h : Collected config variants done visitor)
    (hreached : ArgReached config name) (hnew : ¬ Known visitor name) (hvisited : name ∈ visitor.visitedTypes)
    (hclosed : ∀ next, Refers config name next → next ∈ visitor.visitedTypes)
    (hchildren : ∀ next, Refers config name next → visitor.unionTypes next = variants next) :
    Collected config variants done (finish config name visitor) ∧
      (∀ other, Known (finish config name visitor) other ↔ Known visitor other ∨ other = name ∧ Nested config name) ∧
      (finish config name visitor).visitedTypes = visitor.visitedTypes := by
  have hchildren' : ∀ next ∈ children config name, visitor.unionTypes next = variants next := fun next hnext =>
    hchildren next ((mem_children name next).mp hnext)
  rw [finish]
  cases hunion : config.findUnion name with
  | some union =>
    have hmembers : unionMembers visitor.unionTypes union = unionMembers variants union :=
      unionMembers_congr union fun next hnext => hchildren' next (by rw [children, hunion]; exact hnext)
    have hvariants : variants name = some (unionMembers variants union) := by
      rw [he.settled.nested name (.union hunion) hreached, hunion]
    refine ⟨h.learn hreached hnew hvisited hclosed ?_ ?_, fun other => ?_, rfl⟩
    · rw [hvariants, hmembers]
      rfl
    · simp [created_of_union variants hunion]
    · rw [known_insert, or_comm]
      simp [Nested, hunion]
  | none =>
    cases htype : config.findType name with
    | none => exact ⟨h, fun other => by simp [Nested, hunion, htype], rfl⟩
    | some type =>
      have hfields : unionFieldsOf visitor.unionTypes type = unionFieldsOf variants type := by
        refine unionFieldsOf_congr type fun entry hentry => hchildren' entry.2.typeOf.name ?_
        rw [children, hunion, htype]
        exact List.mem_map.mpr ⟨entry, hentry, rfl⟩
      have hknown (presence : UnionPresence) (newTypes : Dict (TypeDef P)) (other : String) :
          Known { visitor with
              unionPresence := visitor.unionPresence.insert name presence, newTypes := newTypes } other ↔
            Known visitor other ∨ other = name ∧ Nested config name := by
        rw [known_insert, or_comm]
        simp [Nested, htype]
      have hcreated := created_of_type variants hunion htype
      dsimp only
      rw [hfields]
      split
      next hempty =>
        have hplain := (he.settled.no_fields_iff hreached hunion htype).mp hempty
        refine ⟨h.learn hreached hnew hvisited hclosed ?_ ?_, hknown _ _, rfl⟩
        · rw [he.settled.plain name hplain]
          rfl
        · simp [hcreated, hempty]
      next hsome =>
        rw [if_neg hsome] at hcreated
        have hnested : HasUnion config name := by
          by_contra hplain
          exact hsome ((he.settled.no_fields_iff hreached hunion htype).mpr hplain)
        have hvariants := he.settled.nested name hnested hreached
        rw [hunion, hcreated] at hvariants
        refine ⟨h.learn hreached hnew hvisited hclosed ?_ ?_, hknown _ _, rfl⟩
        · rw [hvariants]
          rfl
        · intro typeName type'
          rw [hcreated]
          exact get?_extend_iff _ _ (hcreated ▸ he.distinct name hreached)
            (hcreated ▸ h.created_fresh he hdone hreached hnew) typeName type'

omit he hdone

structure Advanced (config : Config P) (variants : String → Option (List String)) (done : List (String × TypeDef P))
    (before after : Visitor P) : Prop where
  collected : Collected config variants done after
  visited : ∀ name ∈ before.visitedTypes, name ∈ after.visitedTypes
  known : ∀ name, Known before name → Known after name
  unknown : ∀ name ∈ before.visitedTypes, ¬ Known before name → ¬ Known after name
  settled : ∀ name ∈ after.visitedTypes, name ∉ before.visitedTypes → Nested config name → Known after name

theorem Advanced.refl {visitor : Visitor P} (h : Collected config variants done visitor) :
    Advanced config variants done visitor visitor :=
  ⟨h, fun _ h => h, fun _ h => h, fun _ _ h => h, fun _ h hn => absurd h hn⟩

theorem Advanced.trans {before middle after : Visitor P} (h : Advanced config variants done before middle)
    (h' : Advanced config variants done middle after) : Advanced config variants done before after where
  collected := h'.collected
  visited name hname := h'.visited name (h.visited name hname)
  known name hname := h'.known name (h.known name hname)
  unknown name hname hunknown := h'.unknown name (h.visited name hname) (h.unknown name hname hunknown)
  settled name hafter hbefore hnested := by
    by_cases hmiddle : name ∈ middle.visitedTypes
    · exact h'.known name (h.settled name hmiddle hbefore hnested)
    · exact h'.settled name hafter hmiddle hnested

def OpenAbove (config : Config P) (visitor : Visitor P) (name : String) : Prop :=
  ∀ other ∈ visitor.visitedTypes, Nested config other → ¬ Known visitor other →
    ReflTransGen (Refers config) other name

variable {before after : Visitor P}

theorem OpenAbove.advanced (h : OpenAbove config before name)
    (ha : Advanced config variants done before after) : OpenAbove config after name := by
  intro other hother hnested hunknown
  by_cases hbefore : other ∈ before.visitedTypes
  · exact h other hbefore hnested fun hknown => hunknown (ha.known other hknown)
  · exact absurd (ha.settled other hother hbefore hnested) hunknown

theorem visitAll_advanced {visit : String → Visitor P → Option (Visitor P)} (names : List String)
    (hvisit : ∀ name ∈ names, ∀ before after, Collected config variants done before → OpenAbove config before name →
      visit name before = some after → Advanced config variants done before after ∧ name ∈ after.visitedTypes)
 (h : Collected config variants done before)
    (hopen : ∀ name ∈ names, OpenAbove config before name) (hr : visitAll visit names before = some after) :
    Advanced config variants done before after ∧ ∀ name ∈ names, name ∈ after.visitedTypes := by
  induction names generalizing before with
  | nil =>
    cases hr
    exact ⟨.refl h, fun _ hname => absurd hname List.not_mem_nil⟩
  | cons name rest ih =>
    rw [visitAll_cons] at hr
    obtain ⟨middle, hfirst, hrest⟩ := Option.bind_eq_some_iff.mp hr
    obtain ⟨hstep, hname⟩ := hvisit name List.mem_cons_self before middle h (hopen name List.mem_cons_self) hfirst
    obtain ⟨hsteps, hnames⟩ := ih (fun other hother => hvisit other (List.mem_cons_of_mem _ hother)) hstep.collected
      (fun other hother => (hopen other (List.mem_cons_of_mem _ hother)).advanced hstep) hrest
    exact ⟨hstep.trans hsteps, List.forall_mem_cons.mpr ⟨hsteps.visited name hname, hnames⟩⟩

include he hdone

theorem collect_advanced (fuel : ℕ) (hreached : ArgReached config name) (h : Collected config variants done before)
    (hopen : OpenAbove config before name) (hr : collectNestedUnionsForType config fuel name before = some after) :
    Advanced config variants done before after ∧ name ∈ after.visitedTypes := by
  induction fuel generalizing name before after with
  | zero => cases hr
  | succ fuel ih =>
    by_cases hseen : before.unionPresence.contains name = true ∨ name ∈ before.visitedTypes
    · rw [collectNestedUnionsForType, if_pos hseen] at hr
      cases hr
      exact ⟨.refl h, hseen.elim (h.visited name) id⟩
    · rw [collect_fresh fuel name before hseen] at hr
      obtain ⟨hunknown, hunvisited⟩ := not_or.mp hseen
      obtain ⟨middle, hbelow, rfl⟩ := Option.map_eq_some_iff.mp hr
      have hchild (next : String) (hnext : next ∈ children config name) : Refers config name next :=
        (mem_children name next).mp hnext
      have hentered : OpenAbove config (enter name before) name := by
        intro other hother hnested hunknown'
        rcases Finset.mem_insert.mp hother with rfl | hother
        · exact .refl
        · exact hopen other hother hnested hunknown'
      obtain ⟨hadvanced, hvisited⟩ := visitAll_advanced (children config name)
        (fun next hnext before after hb ho hv => ih (hreached.step (hchild next hnext)) hb ho hv) (h.enter name)
        (fun next hnext other hother hnested hunknown' =>
          (hentered other hother hnested hunknown').tail (hchild next hnext)) hbelow
      have hnew : ¬ Known middle name := hadvanced.unknown name (Finset.mem_insert_self _ _) hunknown
      have hchildren : ∀ next, Refers config name next → middle.unionTypes next = variants next := by
        intro next hnext
        by_cases hknown : Known middle next
        · exact hadvanced.collected.known next hknown
        · have hplain : ¬ HasUnion config next := by
            intro hnested
            refine he.acyclic next (hreached.step hnext) hnested ?_
            have hpath := hentered.advanced hadvanced next (hvisited next ((mem_children name next).mpr hnext))
              hnested.nested hknown
            exact TransGen.tail' hpath hnext
          rw [he.settled.plain next hplain, unionTypes_unknown hknown]
      obtain ⟨hcollected, hknown, hsame⟩ := finish_collected he hdone hadvanced.collected hreached hnew
        (hadvanced.visited name (Finset.mem_insert_self _ _))
        (fun next hnext => hvisited next ((mem_children name next).mpr hnext)) hchildren
      have hin : name ∈ middle.visitedTypes := hadvanced.visited name (Finset.mem_insert_self _ _)
      refine ⟨⟨hcollected, fun other hother => ?_, fun other hother => ?_, fun other hother hother' => ?_,
        fun other hother hbefore hnested => ?_⟩, hsame.symm ▸ hin⟩
      · rw [hsame]
        exact hadvanced.visited other (Finset.mem_insert_of_mem hother)
      · exact (hknown other).mpr (.inl (hadvanced.known other hother))
      · rw [hknown]
        rintro (hmiddle | ⟨rfl, -⟩)
        · exact hadvanced.unknown other (Finset.mem_insert_of_mem hother) hother' hmiddle
        · exact hunvisited hother
      · rw [hsame] at hother
        by_cases hname : other = name
        · exact (hknown other).mpr (.inr ⟨hname, hname ▸ hnested⟩)
        · refine (hknown other).mpr (.inl (hadvanced.settled other hother ?_ hnested))
          exact fun hmem => (Finset.mem_insert.mp hmem).elim hname hbefore

def Closed (config : Config P) (visitor : Visitor P) : Prop :=
  ∀ name ∈ visitor.visitedTypes, Nested config name → Known visitor name

omit he hdone in
theorem Advanced.closed (h : Advanced config variants done before after)
    (hc : Closed config before) : Closed config after := by
  intro name hname hnested
  by_cases hbefore : name ∈ before.visitedTypes
  · exact h.known name (hc name hbefore hnested)
  · exact h.settled name hname hbefore hnested

theorem collectArgs_advanced (fuel : ℕ) {field : Config.Field P}
    (hreached : ∀ arg ∈ field.args.values, ArgReached config arg.typeOf.name)
    (h : Collected config variants done before) (hclosed : Closed config before)
    (hr : collectNestedUnionsForArgs config fuel field before = some after) :
    Advanced config variants done before after ∧ Closed config after ∧
      (∀ arg ∈ field.args.values, after.unionTypes arg.typeOf.name = variants arg.typeOf.name) ∧
      ∀ arg ∈ field.args.values, arg.typeOf.name ∈ after.visitedTypes := by
  rw [collectNestedUnionsForArgs] at hr
  obtain ⟨hadvanced, hvisited⟩ := visitAll_advanced (field.args.values.map fun arg => arg.typeOf.name)
    (fun name hname before after hb ho hv => by
      obtain ⟨arg, harg, rfl⟩ := List.mem_map.mp hname
      exact collect_advanced he hdone fuel (hreached arg harg) hb ho hv) h
    (fun name _ other hother hnested hunknown => absurd (hclosed other hother hnested) hunknown) hr
  have hvisits : ∀ arg ∈ field.args.values, arg.typeOf.name ∈ after.visitedTypes := fun arg harg =>
    hvisited arg.typeOf.name (List.mem_map.mpr ⟨arg, harg, rfl⟩)
  refine ⟨hadvanced, hadvanced.closed hclosed, fun arg harg => ?_, hvisits⟩
  by_cases hknown : Known after arg.typeOf.name
  · exact hadvanced.collected.known _ hknown
  · rw [unionTypes_unknown hknown, he.settled.plain]
    exact fun hhas => hknown (hadvanced.closed hclosed _ (hvisits arg harg) hhas.nested)

omit he hdone in
theorem walkArguments_congr {unionTypes : String → Option (List String)} (args : List (String × Arg P))
    (h : ∀ arg ∈ args, unionTypes arg.2.typeOf.name = variants arg.2.typeOf.name) (fieldName : String)
    (field : Config.Field P) : walkArguments unionTypes args fieldName field = walkArguments variants args fieldName field := by
  induction args generalizing fieldName field with
  | nil => rfl
  | cons arg rest ih =>
    have hrest := ih fun other hother => h other (List.mem_cons_of_mem _ hother)
    rw [walkArguments, walkArguments, h arg List.mem_cons_self]
    cases variants arg.2.typeOf.name with
    | none => exact hrest _ _
    | some types => exact List.flatMap_congr fun entry _ => hrest _ _

theorem visitFields_advanced (fuel : ℕ) (fields : List (String × Config.Field P))
    (hreached : ∀ entry ∈ fields, ∀ arg ∈ entry.2.args.values, ArgReached config arg.typeOf.name)
 {found : List (String × Config.Field P)} (h : Collected config variants done before)
    (hclosed : Closed config before) (hr : visitFields config fuel fields before = some (found, after)) :
    Advanced config variants done before after ∧ Closed config after ∧
      (found = fields.flatMap fun (fieldName, field) => mapArgsToFields variants fieldName field) ∧
      ∀ entry ∈ fields, ∀ arg ∈ entry.2.args.values, arg.typeOf.name ∈ after.visitedTypes := by
  induction fields generalizing before found with
  | nil =>
    cases hr
    exact ⟨.refl h, hclosed, rfl, fun _ hentry => absurd hentry List.not_mem_nil⟩
  | cons entry rest ih =>
    obtain ⟨fieldName, field⟩ := entry
    rw [visitFields] at hr
    obtain ⟨middle, hfirst, hrest⟩ := Option.bind_eq_some_iff.mp hr
    obtain ⟨⟨others, last⟩, hothers, heq⟩ := Option.map_eq_some_iff.mp hrest
    cases heq
    obtain ⟨hstep, hmiddle, htypes, hvisited⟩ := collectArgs_advanced he hdone fuel
      (hreached (fieldName, field) List.mem_cons_self) h hclosed hfirst
    obtain ⟨hsteps, hlast, rfl, hvisits⟩ := ih (fun other hother => hreached other (List.mem_cons_of_mem _ hother))
      hstep.collected hmiddle hothers
    have hmap : mapArgsToFields middle.unionTypes fieldName field = mapArgsToFields variants fieldName field :=
      walkArguments_congr _ (fun arg harg => htypes arg.2 (List.mem_map.mpr ⟨arg, harg, rfl⟩)) _ _
    refine ⟨hstep.trans hsteps, hlast, by rw [hmap]; rfl, List.forall_mem_cons.mpr ⟨fun arg harg => ?_, hvisits⟩⟩
    exact hsteps.visited _ (hvisited arg harg)

omit hdone in
theorem visitType_collected (fuel : ℕ) {entry : String × TypeDef P} (htype : config.types.get? entry.1 = some entry.2)
    (hdone : ∀ entry ∈ done, config.types.contains entry.1 = true) (hnew : entry.1 ∉ done.map Prod.fst)
 (h : Collected config variants done before) (hclosed : Closed config before)
    (hr : visitType config fuel entry before = some after) :
    Collected config variants (done ++ [entry]) after ∧ Closed config after ∧
      (∀ name ∈ before.visitedTypes, name ∈ after.visitedTypes) ∧
      ∀ field ∈ entry.2.fields.values, ∀ arg ∈ field.args.values, arg.typeOf.name ∈ after.visitedTypes := by
  obtain ⟨⟨found, last⟩, hfound, rfl⟩ := Option.map_eq_some_iff.mp hr
  have hreached : ∀ field ∈ sortedEntries entry.2.fields, ∀ arg ∈ field.2.args.values,
      ArgReached config arg.typeOf.name := by
    rintro ⟨fieldName, field⟩ hfield arg harg
    obtain ⟨argName, harg⟩ := (field.args.mem_values_iff arg).mp harg
    exact ⟨(argName, arg), AmbiguousTypes.mem_arguments.mpr ⟨entry.1, entry.2, fieldName, field, htype,
      (mem_sortedEntries _ _ _).mp hfield, harg⟩, .refl⟩
  obtain ⟨hadvanced, hlast, rfl, hvisited⟩ := visitFields_advanced he hdone fuel _ hreached h hclosed hfound
  have hcollected := hadvanced.collected
  have hcontains : config.types.contains entry.1 = true := by rw [Dict.contains, htype]; rfl
  refine ⟨⟨hcollected.known, hcollected.visited, hcollected.reached, hcollected.closed, fun typeName type' => ?_⟩,
    hlast, hadvanced.visited, fun field hfield arg harg => ?_⟩
  · rw [Dict.get?_insert]
    split
    next heq =>
      subst heq
      have hmine : ∀ name, Known last name → (entry.1, type') ∉ created config variants name := by
        intro name hname hmem
        refine he.own entry.1 name ⟨hcollected.reached name hname, List.mem_map.mpr ⟨_, hmem, rfl⟩⟩ ?_
        exact AmbiguousTypes.mentions_of_contains (by rw [Config.contains, hcontains]; rfl)
      constructor
      · intro heq
        exact .inr ⟨entry.2, List.mem_append_right _ (List.mem_singleton_self _), (Option.some.inj heq).symm⟩
      · rintro (⟨name, hname, hmem⟩ | ⟨type, hmem, rfl⟩)
        · exact absurd hmem (hmine name hname)
        · rcases List.mem_append.mp hmem with hmem | hmem
          · exact absurd (List.mem_map.mpr ⟨_, hmem, rfl⟩) hnew
          · rw [← List.mem_singleton.mp hmem]
            rfl
    next hne =>
      rw [hcollected.types]
      refine or_congr_right (exists_congr fun type => and_congr_left fun _ => ?_)
      rw [List.mem_append, List.mem_singleton]
      exact (or_iff_left fun heq => hne (congrArg Prod.fst heq)).symm
  · obtain ⟨fieldName, hfield⟩ := (entry.2.fields.mem_values_iff field).mp hfield
    exact hvisited (fieldName, field) ((mem_sortedEntries _ _ _).mpr hfield) arg harg

omit hdone in
theorem visitTypes_collected (fuel : ℕ) (types : List (String × TypeDef P))
    (htypes : ∀ entry ∈ types, config.types.get? entry.1 = some entry.2)
    (hdone : ∀ entry ∈ done, config.types.contains entry.1 = true) (hnodup : ((done ++ types).map Prod.fst).Nodup)
    (h : Collected config variants done before) (hclosed : Closed config before)
    (hr : visitAll (visitType config fuel) types before = some after) :
    Collected config variants (done ++ types) after ∧ Closed config after ∧
      (∀ name ∈ before.visitedTypes, name ∈ after.visitedTypes) ∧
      ∀ entry ∈ types, ∀ field ∈ entry.2.fields.values, ∀ arg ∈ field.args.values,
        arg.typeOf.name ∈ after.visitedTypes := by
  induction types generalizing done before with
  | nil =>
    cases hr
    rw [List.append_nil]
    exact ⟨h, hclosed, fun _ hname => hname, fun _ hentry => absurd hentry List.not_mem_nil⟩
  | cons entry rest ih =>
    have hsplit : done ++ [entry] ++ rest = done ++ entry :: rest := by rw [List.append_assoc, List.singleton_append]
    have htype := htypes entry List.mem_cons_self
    have hnew : entry.1 ∉ done.map Prod.fst := by
      rw [List.map_append, List.map_cons] at hnodup
      exact fun hmem => (List.nodup_append.mp hnodup).2.2 _ hmem _ List.mem_cons_self rfl
    obtain ⟨middle, hfirst, hrest⟩ := Option.bind_eq_some_iff.mp ((visitAll_cons _ _ _ _).symm.trans hr)
    obtain ⟨hstep, hmiddle, hgrows, hvisited⟩ := visitType_collected he fuel htype hdone hnew h hclosed hfirst
    have hdone' : ∀ other ∈ done ++ [entry], config.types.contains other.1 = true := by
      intro other hother
      rcases List.mem_append.mp hother with hother | hother
      · exact hdone other hother
      · rw [List.mem_singleton.mp hother, Dict.contains, htype]
        rfl
    obtain ⟨hlast, hclosed', hgrows', hvisits⟩ := ih (fun other hother => htypes other (List.mem_cons_of_mem _ hother))
      hdone' (hsplit ▸ hnodup) hstep hmiddle hrest
    refine ⟨hsplit ▸ hlast, hclosed', fun name hname => hgrows' name (hgrows name hname),
      List.forall_mem_cons.mpr ⟨fun field hfield arg harg => hgrows' _ (hvisited field hfield arg harg), hvisits⟩⟩

omit he hdone in
theorem collected_new : Collected config variants [] (.new : Visitor P) := by
  have hunknown (name : String) : ¬ Known (.new : Visitor P) name := Bool.false_ne_true
  refine ⟨fun name h => absurd h (hunknown name), fun name h => absurd h (hunknown name),
    fun name h => absurd h (hunknown name), fun name h => absurd h (hunknown name), fun typeName type' => ?_⟩
  constructor
  · intro h
    cases h
  · rintro (⟨name, h, -⟩ | ⟨type, h, -⟩)
    · exact absurd h (hunknown name)
    · cases h

omit hdone in
theorem visit_types (fuel : ℕ) {types : Dict (TypeDef P)} (hr : visit config fuel = some types) (typeName : String)
    (type' : TypeDef P) : types.get? typeName = some type' ↔
      (∃ name, ArgReached config name ∧ (typeName, type') ∈ created config variants name) ∨
        ∃ type, config.types.get? typeName = some type ∧ type' = mapped variants type := by
  obtain ⟨last, hlast, rfl⟩ := Option.map_eq_some_iff.mp hr
  have hentries : ∀ entry ∈ sortedEntries config.types, config.types.get? entry.1 = some entry.2 := fun entry hentry =>
    (mem_sortedEntries _ _ _).mp hentry
  have hnodup : (([] ++ sortedEntries config.types).map Prod.fst).Nodup :=
    ((sortedEntries_perm config.types).map Prod.fst).nodup_iff.mpr config.types.nodup
  have hclosed : Closed config (.new : Visitor P) := fun name hname => absurd hname (Finset.notMem_empty name)
  obtain ⟨hcollected, hclosed', -, hvisited⟩ := visitTypes_collected he fuel _ hentries
    (fun _ h => absurd h List.not_mem_nil) hnodup collected_new hclosed hlast
  have hknown (name : String) (hreached : ArgReached config name) : name ∈ last.visitedTypes := by
    obtain ⟨⟨argName, arg⟩, harg, hpath⟩ := hreached
    obtain ⟨owner, type, fieldName, field, htype, hfield, harg⟩ := AmbiguousTypes.mem_arguments.mp harg
    induction hpath with
    | refl =>
      exact hvisited (owner, type) ((mem_sortedEntries _ _ _).mpr htype) field
        ((type.fields.mem_values_iff field).mpr ⟨fieldName, hfield⟩) arg
        ((field.args.mem_values_iff arg).mpr ⟨argName, harg⟩)
    | @tail name next _ hnext ih =>
      refine hcollected.closed name (hclosed' name ih ?_) next hnext
      rcases hnext with ⟨union, hunion, -⟩ | ⟨-, type, htype, -⟩
      exacts [.inl ⟨union, hunion⟩, .inr ⟨type, htype⟩]
  rw [hcollected.types]
  refine or_congr (exists_congr fun name => ?_) (exists_congr fun type => and_congr_left fun _ =>
    mem_sortedEntries _ _ _)
  constructor
  · rintro ⟨hname, hmem⟩
    exact ⟨hcollected.reached name hname, hmem⟩
  · rintro ⟨hreached, hmem⟩
    refine ⟨hclosed' name (hknown name hreached) ?_, hmem⟩
    rw [created] at hmem
    split at hmem
    next htype => exact .inr ⟨_, htype⟩
    next => cases hmem

end Search

section Fuel

theorem collect_mono (fuel : ℕ) (name : String) (visitor result : Visitor P)
    (h : collectNestedUnionsForType config fuel name visitor = some result) :
    collectNestedUnionsForType config (fuel + 1) name visitor = some result := by
  induction fuel generalizing name visitor result with
  | zero => cases h
  | succ fuel ih =>
    by_cases hseen : visitor.unionPresence.contains name = true ∨ name ∈ visitor.visitedTypes
    · rw [collectNestedUnionsForType, if_pos hseen] at h ⊢
      exact h
    · rw [collect_fresh fuel name visitor hseen] at h
      rw [collect_fresh (fuel + 1) name visitor hseen]
      obtain ⟨middle, hmiddle, rfl⟩ := Option.map_eq_some_iff.mp h
      exact Option.map_eq_some_iff.mpr ⟨middle, visitAll_mono _ _ ih _ _ _ hmiddle, rfl⟩

theorem visitFields_mono (fuel : ℕ) (fields : List (String × Config.Field P)) (visitor : Visitor P)
    (result : List (String × Config.Field P) × Visitor P) (h : visitFields config fuel fields visitor = some result) :
    visitFields config (fuel + 1) fields visitor = some result := by
  induction fields generalizing visitor result with
  | nil => exact h
  | cons entry rest ih =>
    rw [visitFields] at h ⊢
    obtain ⟨middle, hfirst, hrest⟩ := Option.bind_eq_some_iff.mp h
    obtain ⟨found, hfound, rfl⟩ := Option.map_eq_some_iff.mp hrest
    exact Option.bind_eq_some_iff.mpr ⟨middle, visitAll_mono _ _ (collect_mono fuel) _ _ _ hfirst,
      Option.map_eq_some_iff.mpr ⟨found, ih _ _ hfound, rfl⟩⟩

theorem visit_mono (fuel : ℕ) (types : Dict (TypeDef P)) (h : visit config fuel = some types) :
    visit config (fuel + 1) = some types := by
  obtain ⟨last, hlast, rfl⟩ := Option.map_eq_some_iff.mp h
  refine Option.map_eq_some_iff.mpr ⟨last, visitAll_mono _ _ (fun entry visitor result hr => ?_) _ _ _ hlast, rfl⟩
  obtain ⟨found, hfound, rfl⟩ := Option.map_eq_some_iff.mp hr
  exact Option.map_eq_some_iff.mpr ⟨found, visitFields_mono fuel _ _ _ hfound, rfl⟩

theorem visit_le {fuel more : ℕ} (hle : fuel ≤ more) {types : Dict (TypeDef P)} (h : visit config fuel = some types) :
    visit config more = some types := by
  induction hle with
  | refl => exact h
  | step _ ih => exact visit_mono _ types ih

def unvisited (config : Config P) (visitor : Visitor P) : ℕ :=
  ((AmbiguousTypes.mentions config).toFinset \ visitor.visitedTypes).card

variable {before : Visitor P}

theorem unvisited_mono {after : Visitor P} (h : ∀ name ∈ before.visitedTypes, name ∈ after.visitedTypes) :
    unvisited config after ≤ unvisited config before :=
  Finset.card_le_card (Finset.sdiff_subset_sdiff subset_rfl h)

variable {name : String}

theorem unvisited_enter (hname : name ∈ AmbiguousTypes.mentions config) {visitor : Visitor P}
    (h : name ∉ visitor.visitedTypes) : unvisited config (enter name visitor) < unvisited config visitor := by
  refine Finset.card_lt_card (Finset.ssubset_iff_subset_ne.mpr ⟨?_, fun heq => ?_⟩)
  · exact Finset.sdiff_subset_sdiff subset_rfl (Finset.subset_insert _ _)
  · have hmem : name ∈ (AmbiguousTypes.mentions config).toFinset \ visitor.visitedTypes :=
      Finset.mem_sdiff.mpr ⟨List.mem_toFinset.mpr hname, h⟩
    rw [← heq] at hmem
    exact (Finset.mem_sdiff.mp hmem).2 (Finset.mem_insert_self _ _)

theorem mentions_refers {next : String} (h : Refers config name next) : next ∈ AmbiguousTypes.mentions config := by
  rcases h with ⟨union, hunion, hmember⟩ | ⟨-, type, htype, field, hfield, rfl⟩
  · exact AmbiguousTypes.mentions_member hunion hmember
  · obtain ⟨fieldName, hfield⟩ := (type.fields.mem_values_iff field).mp hfield
    exact AmbiguousTypes.mentions_field htype hfield

variable {done : List (String × TypeDef P)} (he : Expandable config variants)

include he

theorem collectAll_returns (fuel : ℕ) (names : List String)
    (hdone : ∀ entry ∈ done, config.types.contains entry.1 = true)
    (hnames : ∀ name ∈ names, ArgReached config name ∧ name ∈ AmbiguousTypes.mentions config)
    (hreturns : ∀ name ∈ names, ∀ before, Collected config variants done before → OpenAbove config before name →
      unvisited config before < fuel → ∃ after, collectNestedUnionsForType config fuel name before = some after)
 (h : Collected config variants done before)
    (hopen : ∀ name ∈ names, OpenAbove config before name) (hfuel : unvisited config before < fuel) :
    ∃ after, visitAll (collectNestedUnionsForType config fuel) names before = some after := by
  induction names generalizing before with
  | nil => exact ⟨before, rfl⟩
  | cons name rest ih =>
    obtain ⟨middle, hfirst⟩ := hreturns name List.mem_cons_self before h (hopen name List.mem_cons_self) hfuel
    obtain ⟨hstep, -⟩ := collect_advanced he hdone fuel (hnames name List.mem_cons_self).1 h
      (hopen name List.mem_cons_self) hfirst
    obtain ⟨after, hrest⟩ := ih (fun other hother => hnames other (List.mem_cons_of_mem _ hother))
      (fun other hother => hreturns other (List.mem_cons_of_mem _ hother)) hstep.collected
      (fun other hother => (hopen other (List.mem_cons_of_mem _ hother)).advanced hstep)
      (Nat.lt_of_le_of_lt (unvisited_mono hstep.visited) hfuel)
    exact ⟨after, by rw [visitAll_cons, hfirst]; exact hrest⟩

theorem collect_returns (hdone : ∀ entry ∈ done, config.types.contains entry.1 = true) (fuel : ℕ)
    (hreached : ArgReached config name) (hmention : name ∈ AmbiguousTypes.mentions config)
    (h : Collected config variants done before) (hopen : OpenAbove config before name)
    (hfuel : unvisited config before < fuel) :
    ∃ after, collectNestedUnionsForType config fuel name before = some after := by
  induction fuel generalizing name before with
  | zero => exact absurd hfuel (Nat.not_lt_zero _)
  | succ fuel ih =>
    by_cases hseen : before.unionPresence.contains name = true ∨ name ∈ before.visitedTypes
    · exact ⟨before, by rw [collectNestedUnionsForType, if_pos hseen]⟩
    · have hchild (next : String) (hnext : next ∈ children config name) : Refers config name next :=
        (mem_children name next).mp hnext
      have hentered : OpenAbove config (enter name before) name := by
        intro other hother hnested hunknown
        rcases Finset.mem_insert.mp hother with rfl | hother
        · exact .refl
        · exact hopen other hother hnested hunknown
      have hless := unvisited_enter hmention (not_or.mp hseen).2
      obtain ⟨after, hafter⟩ := collectAll_returns he fuel (children config name) hdone
        (fun next hnext => ⟨hreached.step (hchild next hnext), mentions_refers (hchild next hnext)⟩)
        (fun next hnext before hb ho hf => ih (hreached.step (hchild next hnext)) (mentions_refers (hchild next hnext))
          hb ho hf) (h.enter name)
        (fun next hnext other hother hnested hunknown =>
          (hentered other hother hnested hunknown).tail (hchild next hnext)) (by omega)
      exact ⟨finish config name after, by rw [collect_fresh fuel name before hseen, hafter]; rfl⟩

theorem visitFields_returns (hdone : ∀ entry ∈ done, config.types.contains entry.1 = true) (fuel : ℕ)
    (fields : List (String × Config.Field P))
    (hreached : ∀ entry ∈ fields, ∀ arg ∈ entry.2.args.values,
      ArgReached config arg.typeOf.name ∧ arg.typeOf.name ∈ AmbiguousTypes.mentions config)
 (h : Collected config variants done before) (hclosed : Closed config before)
    (hfuel : unvisited config before < fuel) :
    ∃ found after, visitFields config fuel fields before = some (found, after) := by
  induction fields generalizing before with
  | nil => exact ⟨[], before, rfl⟩
  | cons entry rest ih =>
    have hargs := hreached entry List.mem_cons_self
    obtain ⟨middle, hfirst⟩ := collectAll_returns he fuel (entry.2.args.values.map fun arg => arg.typeOf.name) hdone
      (fun name hname => by
        obtain ⟨arg, harg, rfl⟩ := List.mem_map.mp hname
        exact hargs arg harg)
      (fun name hname before hb ho hf => by
        obtain ⟨arg, harg, rfl⟩ := List.mem_map.mp hname
        exact collect_returns he hdone fuel (hargs arg harg).1 (hargs arg harg).2 hb ho hf) h
      (fun name _ other hother hnested hunknown => absurd (hclosed other hother hnested) hunknown) hfuel
    obtain ⟨hstep, hmiddle, -⟩ := collectArgs_advanced he hdone fuel (fun arg harg => (hargs arg harg).1) h hclosed hfirst
    obtain ⟨found, after, hrest⟩ := ih (fun other hother => hreached other (List.mem_cons_of_mem _ hother))
      hstep.collected hmiddle (Nat.lt_of_le_of_lt (unvisited_mono hstep.visited) hfuel)
    refine ⟨mapArgsToFields middle.unionTypes entry.1 entry.2 ++ found, after, ?_⟩
    rw [visitFields, show collectNestedUnionsForArgs config fuel entry.2 before = some middle from hfirst,
      Option.bind_some, hrest]
    rfl

theorem visitTypes_returns (fuel : ℕ) (types : List (String × TypeDef P))
    (htypes : ∀ entry ∈ types, config.types.get? entry.1 = some entry.2)
    (hdone : ∀ entry ∈ done, config.types.contains entry.1 = true) (hnodup : ((done ++ types).map Prod.fst).Nodup)
    (h : Collected config variants done before) (hclosed : Closed config before)
    (hfuel : unvisited config before < fuel) : ∃ after, visitAll (visitType config fuel) types before = some after := by
  induction types generalizing done before with
  | nil => exact ⟨before, rfl⟩
  | cons entry rest ih =>
    have htype := htypes entry List.mem_cons_self
    have hsplit : done ++ [entry] ++ rest = done ++ entry :: rest := by rw [List.append_assoc, List.singleton_append]
    have hnew : entry.1 ∉ done.map Prod.fst := by
      rw [List.map_append, List.map_cons] at hnodup
      exact fun hmem => (List.nodup_append.mp hnodup).2.2 _ hmem _ List.mem_cons_self rfl
    obtain ⟨found, last, hfound⟩ := visitFields_returns he hdone fuel (sortedEntries entry.2.fields)
      (fun ⟨fieldName, field⟩ hfield arg harg => by
        obtain ⟨argName, harg⟩ := (field.args.mem_values_iff arg).mp harg
        have hargument : (argName, arg) ∈ config.arguments := AmbiguousTypes.mem_arguments.mpr
          ⟨entry.1, entry.2, fieldName, field, htype, (mem_sortedEntries _ _ _).mp hfield, harg⟩
        exact ⟨⟨(argName, arg), hargument, .refl⟩, AmbiguousTypes.mentions_arg hargument⟩) h hclosed hfuel
    have hfirst : visitType config fuel entry before = some
        { last with newTypes := last.newTypes.insert entry.1 { entry.2 with fields := Dict.ofEntries found } } := by
      rw [visitType, hfound]
      rfl
    obtain ⟨hstep, hmiddle, hgrows, -⟩ := visitType_collected he fuel htype hdone hnew h hclosed hfirst
    have hdone' : ∀ other ∈ done ++ [entry], config.types.contains other.1 = true := by
      intro other hother
      rcases List.mem_append.mp hother with hother | hother
      · exact hdone other hother
      · rw [List.mem_singleton.mp hother, Dict.contains, htype]
        rfl
    obtain ⟨after, hrest⟩ := ih (fun other hother => htypes other (List.mem_cons_of_mem _ hother)) hdone'
      (hsplit ▸ hnodup) hstep hmiddle (Nat.lt_of_le_of_lt (unvisited_mono hgrows) hfuel)
    exact ⟨after, by rw [visitAll_cons, hfirst]; exact hrest⟩

theorem visit_returns : ∃ fuel types, ∀ more, fuel ≤ more → visit config more = some types := by
  have hclosed : Closed config (.new : Visitor P) := fun name hname => absurd hname (Finset.notMem_empty name)
  obtain ⟨last, hlast⟩ := visitTypes_returns he (unvisited config (.new : Visitor P) + 1) (sortedEntries config.types)
    (fun entry hentry => (mem_sortedEntries _ _ _).mp hentry) (fun _ h => absurd h List.not_mem_nil)
    (((sortedEntries_perm config.types).map Prod.fst).nodup_iff.mpr config.types.nodup) collected_new hclosed
    (Nat.lt_succ_self _)
  exact ⟨_, last.newTypes, fun more hle => visit_le hle (by rw [visit, hlast]; rfl)⟩

end Fuel

end UnionInputs

end Gqlforge
