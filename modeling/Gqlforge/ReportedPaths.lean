import Gqlforge.Config
import Gqlforge.MemoSearch
import Mathlib.Data.List.ProdSigma

namespace Gqlforge.PathTracker

open Config

inductive Resolver where
  | http (batchKey : List String)
  | grpc (batchKey : List String)
  | graphql (batch : Bool)
  | postgres (batchKey : List String)
  | entityResolver (resolverByType : List (String × Resolver))
  | other

mutual

def Resolver.isBatched : Resolver → Bool
  | .http batchKey => !batchKey.isEmpty
  | .grpc batchKey => !batchKey.isEmpty
  | .graphql batch => batch
  | .postgres batchKey => !batchKey.isEmpty
  | .entityResolver resolverByType => anyBatched resolverByType
  | .other => false

def anyBatched : List (String × Resolver) → Bool
  | [] => false
  | (_, resolver) :: rest => resolver.isBatched || anyBatched rest

end

def hasResolver (resolvers : List Resolver) : Bool := !resolvers.isEmpty

def isBatched (resolvers : List Resolver) : Bool :=
  if resolvers.isEmpty then false else resolvers.all Resolver.isBatched

abbrev tracked (P : Payloads) : Payloads := { P with Resolver := Resolver }

inductive Name where
  | field (name : String)
  | entity (typeName : String)

def Name.text : Name → String
  | .field name => name
  | .entity typeName => "__entities(representations: [\x7b __typename: \"" ++ typeName ++ "\"\x7d])"

variable {P : Payloads} (config : Config (tracked P))

abbrev Cache := List ((String × Bool) × List (List Name))

def prependAll (parentName : Option Name) (chunks : List (List Name)) : List (List Name) :=
  match parentName with
  | some path => chunks.map (path :: ·)
  | none => chunks

def traverseFields (traverse : Name → String → Bool → Cache → Option (List (List Name) × Cache)) (isList : Bool) :
    List (String × Config.Field (tracked P)) → List (List Name) → Cache → Option (List (List Name) × Cache)
  | [], chunks, cache => some (chunks, cache)
  | (name, field) :: rest, chunks, cache =>
    if isList && hasResolver field.resolvers && !isBatched field.resolvers then
      traverseFields traverse isList rest (chunks ++ [[.field name]]) cache
    else
      match traverse (.field name) field.typeOf.name (isList || field.typeOf.isList) cache with
      | some (below, cache) => traverseFields traverse isList rest (chunks ++ below) cache
      | none => none

def traverse : ℕ → Option Name → String → Bool → Cache → Option (List (List Name) × Cache)
  | 0, _, _, _, _ => none
  | fuel + 1, parentName, typeName, isList, cache =>
    match cache.lookup (typeName, isList) with
    | some chunks => some (prependAll parentName chunks, cache)
    | none =>
      let fields := ((config.findType typeName).map fun type => type.fields.entries).getD []
      (traverseFields (fun name => traverse fuel (some name)) isList fields [] (((typeName, isList), []) :: cache)).map
        fun (chunks, cache) => (prependAll parentName chunks, ((typeName, isList), chunks) :: cache)

def traverseEntities (fuel : ℕ) :
    List (String × TypeDef (tracked P)) → List (List Name) × Cache → Option (List (List Name) × Cache)
  | [], found => some found
  | (typeName, type) :: rest, (chunks, cache) =>
    if hasResolver type.resolvers then
      if isBatched type.resolvers then
        match traverse config fuel (some (.entity typeName)) typeName true cache with
        | some (below, cache) => traverseEntities fuel rest (chunks ++ below, cache)
        | none => none
      else traverseEntities fuel rest (chunks ++ [[.entity typeName]], cache)
    else traverseEntities fuel rest (chunks, cache)

def findChunks (fuel : ℕ) : Option (List (List Name) × Cache) :=
  let found := match config.schema.query with
    | none => some ([], [])
    | some query => traverse config fuel none query false []
  found.bind (traverseEntities config fuel config.types.entries)

abbrev QueryPath := List (List String)

def QueryPath.ofChunks (chunks : List (List Name)) : QueryPath :=
  chunks.map fun chunk => chunk.map Name.text

def find (fuel : ℕ) : Option QueryPath :=
  (findChunks config fuel).map fun (chunks, _) => QueryPath.ofChunks chunks

end Gqlforge.PathTracker

namespace Gqlforge.PathTracker

open Config MemoSearch

variable {P : Payloads} (config : Config (tracked P))

def Unbatched (typeName fieldName : String) : Prop :=
  ∃ type field, config.findType typeName = some type ∧ type.fields.get? fieldName = some field ∧
    hasResolver field.resolvers = true ∧ isBatched field.resolvers = false

/-- The fields lead from the first type to the last, through a field that is a list or not. -/
inductive Walk : String → List String → Bool → String → Prop where
  | here (typeName : String) : Walk typeName [] false typeName
  | step {typeName name last : String} {names : List String} {listed : Bool} {type : TypeDef (tracked P)}
      {field : Config.Field (tracked P)} (htype : config.findType typeName = some type)
      (hfield : type.fields.get? name = some field) (hrest : Walk field.typeOf.name names listed last) :
      Walk typeName (name :: names) (field.typeOf.isList || listed) last

/-- The same for fields none of which is reported: there is no list above it, or it has no unbatched resolver. -/
inductive OpenWalk : Bool → String → List String → Bool → String → Prop where
  | here (isList : Bool) (typeName : String) : OpenWalk isList typeName [] isList typeName
  | step {isList isList' : Bool} {typeName name last : String} {names : List String} {type : TypeDef (tracked P)}
      {field : Config.Field (tracked P)} (htype : config.findType typeName = some type)
      (hfield : type.fields.get? name = some field)
      (hopen : ¬ (isList = true ∧ hasResolver field.resolvers = true ∧ isBatched field.resolvers = false))
      (hrest : OpenWalk (isList || field.typeOf.isList) field.typeOf.name names isList' last) :
      OpenWalk isList typeName (name :: names) isList' last

def BatchedEntity (typeName : String) : Prop :=
  ∃ type, config.types.get? typeName = some type ∧ hasResolver type.resolvers = true ∧ isBatched type.resolvers = true

/-- The path goes from the query through a list, or from an entity whose resolver is batched, to an unbatched field of
the type. -/
inductive EndsIn : List Name → String → String → Prop where
  | query {query typeName fieldName : String} {names : List String} (hquery : config.schema.query = some query)
      (hwalk : Walk config query names true typeName) (hfield : Unbatched config typeName fieldName) :
      EndsIn ((names ++ [fieldName]).map .field) typeName fieldName
  | entity {entity typeName fieldName : String} {names : List String} {listed : Bool}
      (hentity : BatchedEntity config entity) (hwalk : Walk config entity names listed typeName)
      (hfield : Unbatched config typeName fieldName) :
      EndsIn (.entity entity :: (names ++ [fieldName]).map .field) typeName fieldName

inductive Reported : List Name → Prop where
  | field {path : List Name} {typeName fieldName : String} (h : EndsIn config path typeName fieldName) : Reported path
  | entity {entity : String} {type : TypeDef (tracked P)} (htype : config.types.get? entity = some type)
      (hresolver : hasResolver type.resolvers = true) (hbatched : isBatched type.resolvers = false) :
      Reported [.entity entity]

/-- The type is reached from the query, or from an entity whose resolver is batched, below a list and through no
reported field. -/
inductive Below : String → Prop where
  | query {query typeName : String} {names : List String} (hquery : config.schema.query = some query)
      (hwalk : OpenWalk config false query names true typeName) : Below typeName
  | entity {entity typeName : String} {names : List String} (hentity : BatchedEntity config entity)
      (hwalk : OpenWalk config true entity names true typeName) : Below typeName

def fieldsOf (typeName : String) : List (String × Config.Field (tracked P)) :=
  ((config.findType typeName).map fun type => type.fields.entries).getD []

def isReported (isList : Bool) (field : Config.Field (tracked P)) : Bool :=
  isList && hasResolver field.resolvers && !isBatched field.resolvers

def fieldItem (isList : Bool) (entry : String × Config.Field (tracked P)) : Item Name (String × Bool) :=
  if isReported isList entry.2 then .leaf (.field entry.1)
  else .edge (.field entry.1) (entry.2.typeOf.name, isList || entry.2.typeOf.isList)

def items (node : String × Bool) : List (Item Name (String × Bool)) :=
  (fieldsOf config node.1).map (fieldItem node.2)

theorem traverseFields_cons (fuel : ℕ) (isList : Bool) (name : String) (field : Config.Field (tracked P))
    (rest : List (String × Config.Field (tracked P))) (chunks : List (List Name)) (cache : Cache) :
    traverseFields (fun name => traverse config fuel (some name)) isList ((name, field) :: rest) chunks cache =
      if isReported isList field = true then
        traverseFields (fun name => traverse config fuel (some name)) isList rest (chunks ++ [[.field name]]) cache
      else match traverse config fuel (some (.field name)) field.typeOf.name (isList || field.typeOf.isList) cache with
        | some (below, cache) =>
          traverseFields (fun name => traverse config fuel (some name)) isList rest (chunks ++ below) cache
        | none => none :=
  rfl

theorem traverseFields_eq (fuel : ℕ)
    (ih : ∀ parentName typeName isList cache, traverse config fuel parentName typeName isList cache =
      (explore (items config) fuel (typeName, isList) cache).map fun (chunks, cache) =>
        (prependAll parentName chunks, cache))
    (isList : Bool) (fields : List (String × Config.Field (tracked P))) (chunks : List (List Name)) (cache : Cache) :
    traverseFields (fun name => traverse config fuel (some name)) isList fields chunks cache =
      exploreItems (explore (items config) fuel) (fields.map (fieldItem isList)) (chunks, cache) := by
  induction fields generalizing chunks cache with
  | nil => rfl
  | cons entry rest ihf =>
    obtain ⟨name, field⟩ := entry
    rw [traverseFields_cons, List.map_cons, fieldItem]
    by_cases hreported : isReported isList field = true
    · rw [if_pos hreported, if_pos hreported, exploreItems]
      exact ihf _ _
    · rw [if_neg hreported, if_neg hreported, exploreItems, ih]
      cases explore (items config) fuel (field.typeOf.name, isList || field.typeOf.isList) cache with
      | none => rfl
      | some found => exact ihf _ _

theorem lookup_eq (node : String × Bool) (cache : Cache) :
    List.lookup node cache = @List.lookup _ _ instBEqOfDecidableEq node cache := by
  congr 1
  exact lawful_beq_subsingleton _ _

theorem traverse_eq (fuel : ℕ) (parentName : Option Name) (typeName : String) (isList : Bool) (cache : Cache) :
    traverse config fuel parentName typeName isList cache =
      (explore (items config) fuel (typeName, isList) cache).map fun (chunks, cache) =>
        (prependAll parentName chunks, cache) := by
  induction fuel generalizing parentName typeName isList cache with
  | zero => rfl
  | succ fuel ih =>
    rw [traverse, explore, lookup_eq]
    cases @List.lookup _ _ instBEqOfDecidableEq (typeName, isList) cache with
    | some chunks => rfl
    | none =>
      dsimp only
      rw [traverseFields_eq config fuel ih]
      change Option.map _ (exploreItems (explore (items config) fuel) (items config (typeName, isList)) _) = _
      cases exploreItems (explore (items config) fuel) (items config (typeName, isList))
          ([], ((typeName, isList), []) :: cache) with
      | none => rfl
      | some found => rfl

variable {node : String × Bool}

theorem mem_items {item : Item Name (String × Bool)} :
    item ∈ items config node ↔ ∃ type name field, config.findType node.1 = some type ∧
      type.fields.get? name = some field ∧ fieldItem node.2 (name, field) = item := by
  rw [items, List.mem_map, fieldsOf]
  constructor
  · rintro ⟨⟨name, field⟩, hmem, hitem⟩
    cases htype : config.findType node.1 with
    | none => rw [htype] at hmem; cases hmem
    | some type =>
      rw [htype] at hmem
      exact ⟨type, name, field, rfl, (type.fields.get?_eq_some_iff name field).mpr hmem, hitem⟩
  · rintro ⟨type, name, field, htype, hfield, hitem⟩
    refine ⟨(name, field), ?_, hitem⟩
    rw [htype]
    exact (type.fields.get?_eq_some_iff name field).mp hfield

theorem isReported_iff (isList : Bool) (field : Config.Field (tracked P)) :
    isReported isList field = true ↔
      isList = true ∧ hasResolver field.resolvers = true ∧ isBatched field.resolvers = false := by
  simp [isReported, and_assoc]

theorem mem_items_leaf {label : Name} :
    .leaf label ∈ items config node ↔ node.2 = true ∧ ∃ name, label = .field name ∧ Unbatched config node.1 name := by
  rw [mem_items]
  constructor
  · rintro ⟨type, name, field, htype, hfield, hitem⟩
    rw [fieldItem] at hitem
    split at hitem
    next hreported =>
      obtain ⟨hlist, hresolver, hbatched⟩ := (isReported_iff _ _).mp hreported
      cases hitem
      exact ⟨hlist, name, rfl, type, field, htype, hfield, hresolver, hbatched⟩
    next => cases hitem
  · rintro ⟨hlist, name, rfl, type, field, htype, hfield, hresolver, hbatched⟩
    refine ⟨type, name, field, htype, hfield, ?_⟩
    rw [fieldItem, if_pos ((isReported_iff _ _).mpr ⟨hlist, hresolver, hbatched⟩)]

theorem mem_items_edge {next : String × Bool} {label : Name} :
    .edge label next ∈ items config node ↔ ∃ type name field, config.findType node.1 = some type ∧
      type.fields.get? name = some field ∧ isReported node.2 field = false ∧ label = .field name ∧
      next = (field.typeOf.name, node.2 || field.typeOf.isList) := by
  rw [mem_items]
  constructor
  · rintro ⟨type, name, field, htype, hfield, hitem⟩
    rw [fieldItem] at hitem
    split at hitem
    next => cases hitem
    next hreported =>
      cases hitem
      exact ⟨type, name, field, htype, hfield, by simpa using hreported, rfl, rfl⟩
  · rintro ⟨type, name, field, htype, hfield, hreported, rfl, rfl⟩
    refine ⟨type, name, field, htype, hfield, ?_⟩
    rw [fieldItem, hreported, if_neg Bool.false_ne_true]

variable {path : List Name}

theorem walk_of_leads {last : String × Bool} {leaf : Name} (h : Leads (items config) node path last leaf) :
    ∃ names listed fieldName, path = (names ++ [fieldName]).map .field ∧ leaf = .field fieldName ∧
      Walk config node.1 names listed last.1 ∧ Unbatched config last.1 fieldName ∧ (node.2 || listed) = true := by
  induction h with
  | leaf hleaf =>
    obtain ⟨hlist, name, rfl, hunbatched⟩ := (mem_items_leaf config).mp hleaf
    exact ⟨[], false, name, rfl, rfl, .here _, hunbatched, by rw [hlist]; rfl⟩
  | edge hedge _ ih =>
    obtain ⟨type, name, field, htype, hfield, -, rfl, rfl⟩ := (mem_items_edge config).mp hedge
    obtain ⟨names, listed, fieldName, rfl, rfl, hwalk, hunbatched, hlisted⟩ := ih
    refine ⟨name :: names, field.typeOf.isList || listed, fieldName, rfl, rfl, .step htype hfield hwalk, hunbatched, ?_⟩
    rw [← Bool.or_assoc]
    exact hlisted

variable {cache : Cache} {isList : Bool} {typeName : String}

theorem visited_of_openWalk (hclosed : ∀ node, MemoSearch.Cache.Visited cache node → ∀ next,
      Edge (items config) node next → MemoSearch.Cache.Visited cache next)
    {isList' : Bool} {last : String} {names : List String}
    (h : OpenWalk config isList typeName names isList' last)
    (hstart : MemoSearch.Cache.Visited cache (typeName, isList)) :
    MemoSearch.Cache.Visited cache (last, isList') := by
  induction h with
  | here => exact hstart
  | @step isList _ typeName name _ _ type field htype hfield hopen _ ih =>
    refine ih (hclosed _ hstart _ ⟨.field name, (mem_items_edge config).mpr ⟨type, name, field, htype, hfield, ?_, rfl, rfl⟩⟩)
    rw [Bool.eq_false_iff]
    exact fun hreported => hopen ((isReported_iff _ _).mp hreported)

variable {parentName : Option Name} {chunks : List (List Name)}

theorem mem_prependAll : path ∈ prependAll parentName chunks ↔ ∃ chunk ∈ chunks, path = parentName.toList ++ chunk := by
  cases parentName with
  | none => simp [prependAll]
  | some parent => simp [prependAll, eq_comm]

/-- What the tracker knows at any point: the paths are reported ones, and all unbatched fields of the types that it has
seen below a list are at the end of one. -/
structure Progress (chunks : List (List Name)) (cache : Cache) : Prop where
  sound : Sound (items config) cache
  closed : ∀ node, MemoSearch.Cache.Visited cache node → ∀ next, Edge (items config) node next →
    MemoSearch.Cache.Visited cache next
  reports : ∀ path ∈ chunks, Reported config path
  leaves : ∀ typeName fieldName, MemoSearch.Cache.Visited cache (typeName, true) →
    Unbatched config typeName fieldName → ∃ path ∈ chunks, EndsIn config path typeName fieldName

/-- Where a search may start: the paths from there are those of the query or of a batched entity. -/
inductive Root : Option Name → String → Bool → Prop where
  | query {query : String} (hquery : config.schema.query = some query) : Root none query false
  | entity {typeName : String} (hentity : BatchedEntity config typeName) :
      Root (some (.entity typeName)) typeName true

theorem Root.endsIn {last fieldName : String} {isList' : Bool}
 (hroot : Root config parentName typeName isList)
    (h : Leads (items config) (typeName, isList) path (last, isList') (.field fieldName)) :
    EndsIn config (parentName.toList ++ path) last fieldName := by
  obtain ⟨names, listed, name, rfl, hname, hwalk, hunbatched, hlisted⟩ := walk_of_leads config h
  cases hname
  cases hroot with
  | query hquery =>
    rw [Bool.false_or] at hlisted
    exact .query hquery (hlisted ▸ hwalk) hunbatched
  | entity hentity => exact .entity hentity hwalk hunbatched

theorem Progress.search {below : List (List Name)} {after : Cache} (h : Progress config chunks cache)
 (hroot : Root config parentName typeName isList)
    {fuel : ℕ} (hr : traverse config fuel parentName typeName isList cache = some (below, after)) :
    Progress config (chunks ++ below) after ∧ MemoSearch.Cache.Visited after (typeName, isList) ∧
      ∀ node, MemoSearch.Cache.Visited cache node → MemoSearch.Cache.Visited after node := by
  rw [traverse_eq] at hr
  obtain ⟨⟨found, last⟩, hfound, heq⟩ := Option.map_eq_some_iff.mp hr
  cases heq
  have hexplored := explore_spec fuel h.sound hfound
  refine ⟨⟨hexplored.sound, fun node hnode next hedge => ?_, fun path hpath => ?_,
    fun other fieldName hvisited hunbatched => ?_⟩, hexplored.visited, hexplored.grows⟩
  · by_cases hbefore : MemoSearch.Cache.Visited cache node
    · exact hexplored.grows next (h.closed node hbefore next hedge)
    · exact hexplored.closed node hnode hbefore next hedge
  · rcases List.mem_append.mp hpath with hpath | hpath
    · exact h.reports path hpath
    · obtain ⟨chunk, hchunk, rfl⟩ := mem_prependAll.mp hpath
      obtain ⟨⟨last, isList'⟩, leaf, hleads⟩ := hexplored.leads chunk hchunk
      obtain ⟨-, -, fieldName, -, rfl, -⟩ := walk_of_leads config hleads
      exact .field (hroot.endsIn config hleads)
  · by_cases hbefore : MemoSearch.Cache.Visited cache (other, true)
    · obtain ⟨path, hpath, hends⟩ := h.leaves other fieldName hbefore hunbatched
      exact ⟨path, List.mem_append_left _ hpath, hends⟩
    · obtain ⟨chunk, hchunk, hleads⟩ := hexplored.leaves (other, true) hvisited hbefore (.field fieldName)
        ((mem_items_leaf config).mpr ⟨rfl, fieldName, rfl, hunbatched⟩)
      exact ⟨_, List.mem_append_right _ (mem_prependAll.mpr ⟨chunk, hchunk, rfl⟩), hroot.endsIn config hleads⟩

theorem Progress.entity {chunks : List (List Name)} {cache : Cache} (h : Progress config chunks cache)
    {typeName : String} {type : TypeDef (tracked P)} (htype : config.types.get? typeName = some type)
    (hresolver : hasResolver type.resolvers = true) (hbatched : isBatched type.resolvers = false) :
    Progress config (chunks ++ [[.entity typeName]]) cache where
  sound := h.sound
  closed := h.closed
  reports path hpath := by
    rcases List.mem_append.mp hpath with hpath | hpath
    · exact h.reports path hpath
    · rw [List.mem_singleton.mp hpath]
      exact .entity htype hresolver hbatched
  leaves other fieldName hvisited hunbatched := by
    obtain ⟨path, hpath, hends⟩ := h.leaves other fieldName hvisited hunbatched
    exact ⟨path, List.mem_append_left _ hpath, hends⟩

theorem traverseEntities_spec (fuel : ℕ) (types : List (String × TypeDef (tracked P)))
    (htypes : ∀ entry ∈ types, config.types.get? entry.1 = some entry.2) {found : List (List Name)} {last : Cache}
    (h : Progress config chunks cache) (hr : traverseEntities config fuel types (chunks, cache) = some (found, last)) :
    Progress config found last ∧ (∀ node, MemoSearch.Cache.Visited cache node → MemoSearch.Cache.Visited last node) ∧
      ∀ entry ∈ types, hasResolver entry.2.resolvers = true → isBatched entry.2.resolvers = true →
        MemoSearch.Cache.Visited last (entry.1, true) := by
  induction types generalizing chunks cache with
  | nil =>
    cases hr
    exact ⟨h, fun _ hnode => hnode, fun _ hentry => absurd hentry List.not_mem_nil⟩
  | cons entry rest ih =>
    obtain ⟨typeName, type⟩ := entry
    have htype := htypes (typeName, type) List.mem_cons_self
    have hrest : ∀ entry ∈ rest, config.types.get? entry.1 = some entry.2 := fun entry hentry =>
      htypes entry (List.mem_cons_of_mem _ hentry)
    rw [traverseEntities] at hr
    cases hresolver : hasResolver type.resolvers with
    | false =>
      rw [hresolver, if_neg Bool.false_ne_true] at hr
      obtain ⟨hprogress, hgrows, hvisited⟩ := ih hrest h hr
      refine ⟨hprogress, hgrows, fun entry hentry hresolver' => ?_⟩
      rcases List.mem_cons.mp hentry with rfl | hentry
      · exact absurd (hresolver.symm.trans hresolver') Bool.false_ne_true
      · exact hvisited entry hentry hresolver'
    | true =>
      rw [hresolver, if_pos rfl] at hr
      cases hbatched : isBatched type.resolvers with
      | false =>
        rw [hbatched, if_neg Bool.false_ne_true] at hr
        obtain ⟨hprogress, hgrows, hvisited⟩ := ih hrest (h.entity config htype hresolver hbatched) hr
        refine ⟨hprogress, hgrows, fun entry hentry hresolver' hbatched' => ?_⟩
        rcases List.mem_cons.mp hentry with rfl | hentry
        · exact absurd (hbatched.symm.trans hbatched') Bool.false_ne_true
        · exact hvisited entry hentry hresolver' hbatched'
      | true =>
        rw [hbatched, if_pos rfl] at hr
        cases hbelow : traverse config fuel (some (.entity typeName)) typeName true cache with
        | none => rw [hbelow] at hr; cases hr
        | some result =>
          rw [hbelow] at hr
          obtain ⟨hstep, hroot, hmore⟩ := h.search config (.entity ⟨type, htype, hresolver, hbatched⟩) hbelow
          obtain ⟨hprogress, hgrows, hvisited⟩ := ih hrest hstep hr
          refine ⟨hprogress, fun node hnode => hgrows node (hmore node hnode), fun entry hentry => ?_⟩
          rcases List.mem_cons.mp hentry with rfl | hentry
          · exact fun _ _ => hgrows _ hroot
          · exact hvisited entry hentry

section Termination

def typeNames : List String :=
  config.schema.query.toList ++ config.types.entries.map Prod.fst ++
    config.types.entries.flatMap fun (_, type) => type.fields.entries.map fun (_, field) => field.typeOf.name

def nodes : List (String × Bool) := (typeNames config).product [false, true]

def bound : ℕ := (nodes config).length + 1

variable {typeName : String} {isList : Bool}

theorem mem_nodes : (typeName, isList) ∈ nodes config ↔ typeName ∈ typeNames config := by
  rw [nodes, List.pair_mem_product]
  cases isList <;> simp

theorem nodes_closed : ∀ node ∈ nodes config, ∀ next, Edge (items config) node next → next ∈ nodes config := by
  rintro ⟨typeName, isList⟩ - next ⟨label, hedge⟩
  obtain ⟨type, name, field, htype, hfield, -, -, rfl⟩ := (mem_items_edge config).mp hedge
  refine (mem_nodes config).mpr (List.mem_append_right _ (List.mem_flatMap.mpr ⟨(typeName, type), ?_, ?_⟩))
  · exact (config.types.get?_eq_some_iff typeName type).mp htype
  · exact List.mem_map.mpr ⟨(name, field), (type.fields.get?_eq_some_iff name field).mp hfield, rfl⟩

variable {config}

variable {parentName : Option Name}

theorem Root.mem_nodes (h : Root config parentName typeName isList) : (typeName, isList) ∈ nodes config := by
  refine (PathTracker.mem_nodes config).mpr ?_
  cases h with
  | query hquery =>
    refine List.mem_append_left _ (List.mem_append_left _ ?_)
    rw [hquery]
    exact List.mem_singleton_self _
  | entity hentity =>
    obtain ⟨type, htype, -⟩ := hentity
    refine List.mem_append_left _ (List.mem_append_right _ (List.mem_map.mpr ⟨(_, type), ?_, rfl⟩))
    exact (config.types.get?_eq_some_iff _ _).mp htype

variable {cache : Cache} {fuel : ℕ}

theorem Root.traverse_returns (h : Root config parentName typeName isList) (hs : Sound (items config) cache)
    (hfuel : bound config ≤ fuel) :
    ∃ below after, traverse config fuel parentName typeName isList cache = some (below, after) := by
  have hpending : pending (nodes config) cache ≤ (nodes config).length := List.countP_le_length
  obtain ⟨found, after, hfound⟩ := explore_returns (nodes_closed config) fuel h.mem_nodes hs
    (Nat.lt_of_lt_of_le (Nat.lt_succ_of_le hpending) hfuel)
  exact ⟨prependAll parentName found, after, by rw [traverse_eq, hfound]; rfl⟩

theorem traverseEntities_returns (hfuel : bound config ≤ fuel) (types : List (String × TypeDef (tracked P)))
    (htypes : ∀ entry ∈ types, config.types.get? entry.1 = some entry.2) {chunks : List (List Name)}
    (h : Progress config chunks cache) :
    ∃ found last, traverseEntities config fuel types (chunks, cache) = some (found, last) := by
  induction types generalizing chunks cache with
  | nil => exact ⟨chunks, cache, rfl⟩
  | cons entry rest ih =>
    obtain ⟨typeName, type⟩ := entry
    have htype := htypes (typeName, type) List.mem_cons_self
    have hrest : ∀ entry ∈ rest, config.types.get? entry.1 = some entry.2 := fun entry hentry =>
      htypes entry (List.mem_cons_of_mem _ hentry)
    rw [traverseEntities]
    cases hresolver : hasResolver type.resolvers with
    | false => exact ih hrest h
    | true =>
      rw [if_pos rfl]
      cases hbatched : isBatched type.resolvers with
      | false => exact ih hrest (h.entity config htype hresolver hbatched)
      | true =>
        have hroot : Root config (some (.entity typeName)) typeName true := .entity ⟨type, htype, hresolver, hbatched⟩
        obtain ⟨below, after, hbelow⟩ := hroot.traverse_returns h.sound hfuel
        rw [if_pos rfl, hbelow]
        exact ih hrest (h.search config hroot hbelow).1

variable (config)

variable {result : List (List Name) × Cache}

theorem traverse_le {more : ℕ} (hle : fuel ≤ more)

    (h : traverse config fuel parentName typeName isList cache = some result) :
    traverse config more parentName typeName isList cache = some result := by
  rw [traverse_eq] at h ⊢
  obtain ⟨found, hfound, heq⟩ := Option.map_eq_some_iff.mp h
  rw [explore_le hle hfound]
  exact congrArg some heq

theorem traverseEntities_le {more : ℕ} (hle : fuel ≤ more) (types : List (String × TypeDef (tracked P)))
    {found : List (List Name) × Cache} (h : traverseEntities config fuel types found = some result) :
    traverseEntities config more types found = some result := by
  induction types generalizing found with
  | nil => exact h
  | cons entry rest ih =>
    rw [traverseEntities] at h ⊢
    split at h
    next hresolver =>
      rw [if_pos hresolver]
      split at h
      next hbatched =>
        rw [if_pos hbatched]
        cases hbelow : traverse config fuel (some (.entity entry.1)) entry.1 true found.2 with
        | none => rw [hbelow] at h; cases h
        | some below =>
          rw [hbelow] at h
          rw [traverse_le config hle hbelow]
          exact ih h
      next hbatched =>
        rw [if_neg hbatched]
        exact ih h
    next hresolver =>
      rw [if_neg hresolver]
      exact ih h

theorem findChunks_le {more : ℕ} (hle : fuel ≤ more)
    (h : findChunks config fuel = some result) : findChunks config more = some result := by
  obtain ⟨found, hfound, hresult⟩ := Option.bind_eq_some_iff.mp h
  refine Option.bind_eq_some_iff.mpr ⟨found, ?_, traverseEntities_le config hle _ hresult⟩
  cases hquery : config.schema.query with
  | none =>
    rw [hquery] at hfound
    exact hfound
  | some query =>
    rw [hquery] at hfound
    exact traverse_le config hle hfound

end Termination

theorem query_searched {fuel : ℕ} (hfuel : bound config ≤ fuel) :
    ∃ chunks cache, (match config.schema.query with
      | none => some ([], [])
      | some query => traverse config fuel none query false []) = some (chunks, cache) ∧
      Progress config chunks cache ∧
      ∀ query, config.schema.query = some query → MemoSearch.Cache.Visited cache (query, false) := by
  have hunseen (node : String × Bool) : ¬ MemoSearch.Cache.Visited ([] : Cache) node := Bool.false_ne_true
  have hstart : Progress config [] [] := by
    refine ⟨fun _ _ h => (Option.some_ne_none _ h.symm).elim, fun node hnode => absurd hnode (hunseen node),
      fun _ h => absurd h List.not_mem_nil, fun _ _ h => absurd h (hunseen _)⟩
  cases hquery : config.schema.query with
  | none => exact ⟨[], [], rfl, hstart, fun _ h => (Option.some_ne_none _ h.symm).elim⟩
  | some query =>
    have hroot : Root config none query false := .query hquery
    obtain ⟨chunks, cache, hfound⟩ := hroot.traverse_returns hstart.sound hfuel
    obtain ⟨hprogress, hvisited, -⟩ := hstart.search config hroot hfound
    exact ⟨chunks, cache, hfound, hprogress, fun _ h => Option.some.inj h ▸ hvisited⟩

theorem findChunks_spec {fuel : ℕ} (hfuel : bound config ≤ fuel) :
    ∃ chunks cache, findChunks config fuel = some (chunks, cache) ∧ Progress config chunks cache ∧
      (∀ query, config.schema.query = some query → MemoSearch.Cache.Visited cache (query, false)) ∧
      ∀ entity, BatchedEntity config entity → MemoSearch.Cache.Visited cache (entity, true) := by
  have htypes : ∀ entry ∈ config.types.entries, config.types.get? entry.1 = some entry.2 := fun entry hentry =>
    (config.types.get?_eq_some_iff entry.1 entry.2).mpr hentry
  obtain ⟨chunks, cache, hquery, hprogress, hvisited⟩ := query_searched config hfuel
  obtain ⟨found, last, hfound⟩ := traverseEntities_returns hfuel config.types.entries htypes hprogress
  obtain ⟨hdone, hgrows, hentities⟩ := traverseEntities_spec config fuel _ htypes hprogress hfound
  refine ⟨found, last, Option.bind_eq_some_iff.mpr ⟨_, hquery, hfound⟩, hdone,
    fun query h => hgrows _ (hvisited query h), fun entity hentity => ?_⟩
  obtain ⟨type, htype, hresolver, hbatched⟩ := hentity
  exact hentities (entity, type) ((config.types.get?_eq_some_iff entity type).mp htype) hresolver hbatched

/-- The search ends, the paths it reports are ones with unbatched calls, and there is one for each field with an
unbatched resolver that is reached below a list. -/
theorem find_exact : ∃ paths, (∀ fuel, bound config ≤ fuel → find config fuel = some (.ofChunks paths)) ∧
    (∀ path ∈ paths, Reported config path) ∧
    ∀ typeName fieldName, Below config typeName → Unbatched config typeName fieldName →
      ∃ path ∈ paths, EndsIn config path typeName fieldName := by
  obtain ⟨chunks, cache, hfound, hprogress, hquery, hentities⟩ := findChunks_spec config (le_refl (bound config))
  refine ⟨chunks, fun fuel hfuel => ?_, hprogress.reports, fun typeName fieldName hbelow hunbatched => ?_⟩
  · rw [find, findChunks_le config hfuel hfound]
    rfl
  · refine hprogress.leaves typeName fieldName ?_ hunbatched
    cases hbelow with
    | query h hwalk => exact visited_of_openWalk config hprogress.closed hwalk (hquery _ h)
    | entity h hwalk => exact visited_of_openWalk config hprogress.closed hwalk (hentities _ h)

end Gqlforge.PathTracker
