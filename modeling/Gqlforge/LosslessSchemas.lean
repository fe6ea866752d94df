import Gqlforge.DatabaseConfigs
import Gqlforge.OwnNames

namespace Gqlforge.DatabaseConfigs

open Json Schema Config

variable (crates : Crates) (schema : DatabaseSchema)

section Wanted

def relations (table : Table) : List Relation :=
  table.foreignKeys.map (foreignKeyRelation crates) ++ schema.tables.flatMap fun other =>
    (other.foreignKeys.filter fun fk => refersTo fk table).map (reverseRelation crates other)

def outputFields (table : Table) : List (Config.Field database) :=
  table.columns.map (fun column => (columnField crates column).2) ++ (relations crates schema table).map Relation.field

def createFields (table : Table) : List (Config.Field database) :=
  (createColumns table).map fun column => fieldOf (columnToInputType column) Dict.empty []

def updateFields (table : Table) (pk : PrimaryKey) : List (Config.Field database) :=
  (updateColumns table pk).map fun column => fieldOf (optional (scalarType column.pgType)) Dict.empty []

def inputFields (table : Table) : List (List (Config.Field database)) :=
  if table.isView then []
  else createFields table :: (table.primaryKey.map (updateFields table)).toList

def queryFields : List (Config.Field database) :=
  schema.tables.flatMap fun table => (table.primaryKey.map (byIdField crates table)).toList ++ [listField crates table]

def mutationFields : List (Config.Field database) :=
  schema.tables.flatMap fun table =>
    if table.isView then []
    else createField crates table :: (table.primaryKey.elim []
      fun pk => [updateField crates table pk, deleteField crates table pk])

def HasFields (fields : List (Config.Field database)) (type : TypeDef database) : Prop :=
  type.fields.Holds (fields.map fun field => (· = field))

/-- Every table has a type of its own with a field for each of its columns and relations, and input types of its own;
the roots have fields of their own for each table. -/
structure Lossless (config : Config database) : Prop where
  types : config.types.Holds
    (((schema.tables.flatMap fun table => outputFields crates schema table :: inputFields table) ++
      [queryFields crates schema, mutationFields crates schema]).map HasFields)
  query : ∃ name type, config.schema.query = some name ∧ config.types.get? name = some type ∧
    HasFields (queryFields crates schema) type
  mutation : ∃ name type, config.schema.mutation = some name ∧ config.types.get? name = some type ∧
    HasFields (mutationFields crates schema) type

end Wanted

def Free : List String → List Relation → Prop
  | _, [] => True
  | taken, relation :: rest =>
    if relation.baseName ∈ taken then
      relation.longName crates ∉ taken ∧ Free (relation.longName crates :: taken) rest
    else Free (relation.baseName :: taken) rest

/-- Tables have different names also in other cases, and so do the columns of a table. No table is named like a root or
an input of another. -/
structure Unambiguous : Prop where
  types : (schema.tables.map fun table => tableToTypeName crates table.name).Nodup
  roots : ∀ table ∈ schema.tables, tableToTypeName crates table.name ≠ "Query" ∧
    tableToTypeName crates table.name ≠ "Mutation"
  inputs : ∀ table ∈ schema.tables, ∀ other ∈ schema.tables, other.isView = false →
    tableToTypeName crates table.name ≠ createInputName crates other ∧
      (other.primaryKey.isSome = true → tableToTypeName crates table.name ≠ updateInputName crates other)
  queries : (schema.tables.map fun table => crates.camel table.name).Nodup
  columns : ∀ table ∈ schema.tables, (table.columns.map fun column => crates.camel column.name).Nodup
  relations : ∀ table ∈ schema.tables,
    Free crates (table.columns.map fun column => crates.camel column.name) (relations crates schema table)

section Entries

def nameRelations : List String → List Relation → List (String × Config.Field database)
  | _, [] => []
  | taken, relation :: rest =>
    let name := if relation.baseName ∈ taken then relation.longName crates else relation.baseName
    (name, relation.field) :: nameRelations (name :: taken) rest

def outputEntries (table : Table) : List (String × Config.Field database) :=
  table.columns.map (columnField crates) ++
    nameRelations crates (table.columns.map fun column => crates.camel column.name) (relations crates schema table)

def createEntries (table : Table) : List (String × Config.Field database) :=
  (createColumns table).map fun column =>
    (crates.camel column.name, fieldOf (columnToInputType column) Dict.empty [])

def updateEntries (table : Table) (pk : PrimaryKey) : List (String × Config.Field database) :=
  (updateColumns table pk).map fun column =>
    (crates.camel column.name, fieldOf (optional (scalarType column.pgType)) Dict.empty [])

def queryEntries (table : Table) : List (String × Config.Field database) :=
  (table.primaryKey.map fun pk => (byIdName crates table, byIdField crates table pk)).toList ++
    [(listName crates table, listField crates table)]

def mutationEntries (table : Table) : List (String × Config.Field database) :=
  if table.isView then []
  else (createName crates table, createField crates table) :: (table.primaryKey.elim [] fun pk =>
    [(updateName crates table, updateField crates table pk), (deleteName crates table, deleteField crates table pk)])

structure MadeType where
  name : String
  entries : List (String × Config.Field database)

def MadeType.type (made : MadeType) : TypeDef database := typeOf (Dict.ofEntries made.entries)

def inputTypes (table : Table) : List MadeType :=
  if table.isView then []
  else ⟨createInputName crates table, createEntries crates table⟩ ::
    (table.primaryKey.map fun pk => ⟨updateInputName crates table, updateEntries crates table pk⟩).toList

def tableTypes (table : Table) : List MadeType :=
  ⟨tableToTypeName crates table.name, outputEntries crates schema table⟩ :: inputTypes crates table

def madeTypes : List MadeType :=
  schema.tables.flatMap (tableTypes crates schema) ++
    [⟨"Query", schema.tables.flatMap (queryEntries crates)⟩,
      ⟨"Mutation", schema.tables.flatMap (mutationEntries crates)⟩]

end Entries

section Generated

theorem insertRelation_extend (relations : List Relation) (taken : List String) (fields : Dict (Config.Field database))
    (htaken : ∀ name, name ∈ taken ↔ name ∈ fields.keys) :
    relations.foldl (insertRelation crates) fields = fields.extend (nameRelations crates taken relations) := by
  induction relations generalizing taken fields with
  | nil => rfl
  | cons relation rest ih =>
    have hcontains : fields.contains relation.baseName = true ↔ relation.baseName ∈ taken :=
      (fields.contains_iff _).trans (htaken _).symm
    have hname : (if fields.contains relation.baseName = true then relation.longName crates else relation.baseName) =
        if relation.baseName ∈ taken then relation.longName crates else relation.baseName :=
      if_congr hcontains rfl rfl
    rw [List.foldl_cons, insertRelation, hname]
    refine ih _ _ fun name => ?_
    exact (List.mem_cons.trans (or_congr_right (htaken name))).trans
      (Object.mem_insertKey fields.entries _ relation.field name).symm

theorem insertReverse_eq (table other : Table) (fields : Dict (Config.Field database)) :
    insertReverse crates table fields other =
      ((other.foreignKeys.filter fun fk => refersTo fk table).map (reverseRelation crates other)).foldl
        (insertRelation crates) fields := by
  rw [insertReverse, List.foldl_map, List.foldl_filter]

theorem outputType_eq (table : Table) :
    outputType crates schema table = typeOf (Dict.ofEntries (outputEntries crates schema table)) := by
  have htaken (name : String) : name ∈ (table.columns.map fun column => crates.camel column.name) ↔
      name ∈ (Dict.ofEntries (table.columns.map (columnField crates))).keys := by
    rw [Dict.mem_keys_ofEntries, List.map_map]
    rfl
  have hreverse (fields : Dict (Config.Field database)) : schema.tables.foldl (insertReverse crates table) fields =
      (schema.tables.flatMap fun other => (other.foreignKeys.filter fun fk => refersTo fk table).map
        (reverseRelation crates other)).foldl (insertRelation crates) fields := by
    rw [List.foldl_flatMap]
    exact congrArg (fun step => schema.tables.foldl step fields)
      (funext fun fields => funext fun other => insertReverse_eq crates table other fields)
  have hforeign (fields : Dict (Config.Field database)) :
      table.foreignKeys.foldl (fun fields fk => insertRelation crates fields (foreignKeyRelation crates fk)) fields =
        (table.foreignKeys.map (foreignKeyRelation crates)).foldl (insertRelation crates) fields :=
    List.foldl_map.symm
  refine congrArg typeOf ?_
  rw [hreverse, hforeign, ← List.foldl_append]
  refine (insertRelation_extend crates _ _ _ htaken).trans ?_
  exact (List.foldl_append ..).symm

theorem addTable_eq (generated : Generated) (table : Table) :
    generated.addTable crates schema table =
      ⟨generated.types.extend ((tableTypes crates schema table).map fun made => (made.name, made.type)),
        generated.queryType.extend (queryEntries crates table),
        generated.mutationType.extend (mutationEntries crates table)⟩ := by
  rw [Generated.addTable, outputType_eq]
  unfold Generated.addMutations tableTypes inputTypes queryEntries mutationEntries
  cases table.primaryKey with
  | none => cases table.isView <;> rfl
  | some pk => cases table.isView <;> rfl

theorem addTables_eq (tables : List Table) (generated : Generated) :
    tables.foldl (Generated.addTable crates schema) generated =
      ⟨generated.types.extend ((tables.flatMap (tableTypes crates schema)).map fun made => (made.name, made.type)),
        generated.queryType.extend (tables.flatMap (queryEntries crates)),
        generated.mutationType.extend (tables.flatMap (mutationEntries crates))⟩ := by
  induction tables generalizing generated with
  | nil => rfl
  | cons table rest ih =>
    rw [List.foldl_cons, addTable_eq, ih]
    simp only [List.flatMap_cons, List.map_append, Dict.extend, List.foldl_append]

theorem fromDatabase_types (connectionUrl : String) :
    (fromDatabase crates schema connectionUrl).types =
      Dict.ofEntries ((madeTypes crates schema).map fun made => (made.name, made.type)) := by
  have hall : Dict.ofEntries ((madeTypes crates schema).map fun made => (made.name, made.type)) =
      ((Dict.ofEntries ((schema.tables.flatMap (tableTypes crates schema)).map
          fun made => (made.name, made.type))).insert
        "Query" (typeOf (Dict.ofEntries (schema.tables.flatMap (queryEntries crates))))).insert
        "Mutation" (typeOf (Dict.ofEntries (schema.tables.flatMap (mutationEntries crates)))) := by
    rw [madeTypes, List.map_append]
    exact List.foldl_append
  unfold fromDatabase
  rw [addTables_eq, hall]
  rfl

end Generated

section Names

theorem nameRelations_fields (relations : List Relation) (taken : List String) :
    (nameRelations crates taken relations).map Prod.snd = relations.map Relation.field := by
  induction relations generalizing taken with
  | nil => rfl
  | cons relation rest ih => exact congrArg (relation.field :: ·) (ih _)

theorem madeTypes_fields :
    (madeTypes crates schema).map (fun made => made.entries.map Prod.snd) =
      (schema.tables.flatMap fun table => outputFields crates schema table :: inputFields table) ++
        [queryFields crates schema, mutationFields crates schema] := by
  have houtput (table : Table) :
      (outputEntries crates schema table).map Prod.snd = outputFields crates schema table := by
    rw [outputEntries, List.map_append, nameRelations_fields, List.map_map]
    rfl
  have htable (table : Table) : (tableTypes crates schema table).map (fun made => made.entries.map Prod.snd) =
      outputFields crates schema table :: inputFields table := by
    rw [tableTypes, List.map_cons, houtput]
    refine congrArg (outputFields crates schema table :: ·) ?_
    unfold inputTypes inputFields createEntries updateEntries createFields updateFields
    cases table.primaryKey with
    | none => cases table.isView <;> simp
    | some pk => cases table.isView <;> simp
  have hquery (table : Table) : (queryEntries crates table).map Prod.snd =
      (table.primaryKey.map (byIdField crates table)).toList ++ [listField crates table] := by
    unfold queryEntries
    cases table.primaryKey <;> rfl
  have hmutation (table : Table) : (mutationEntries crates table).map Prod.snd = if table.isView then []
      else createField crates table :: (table.primaryKey.elim []
        fun pk => [updateField crates table pk, deleteField crates table pk]) := by
    unfold mutationEntries
    cases table.primaryKey with
    | none => cases table.isView <;> rfl
    | some pk => cases table.isView <;> rfl
  rw [madeTypes, List.map_append, List.map_flatMap]
  simp only [List.map_cons, List.map_nil, List.map_flatMap, htable, hquery, hmutation]
  rfl

/-- The names are those of no other type, and neither are those of the fields of a type. -/
structure Apart : Prop where
  types : ((madeTypes crates schema).map MadeType.name).Nodup
  fields : ∀ made ∈ madeTypes crates schema, (made.entries.map Prod.fst).Nodup

theorem hasFields_iff (made : MadeType) :
    HasFields (made.entries.map Prod.snd) made.type ↔ (made.entries.map Prod.fst).Nodup := by
  have h := Dict.holds_ofEntries_iff made.entries Prod.fst Prod.snd (fun entry field => field = entry.2)
    fun entry _ => rfl
  have hself : made.entries.map (fun entry => (entry.1, entry.2)) = made.entries := List.map_id _
  rw [hself] at h
  rw [HasFields, List.map_map]
  exact h

theorem holds_iff_apart (connectionUrl : String) :
    (fromDatabase crates schema connectionUrl).types.Holds
      (((schema.tables.flatMap fun table => outputFields crates schema table :: inputFields table) ++
        [queryFields crates schema, mutationFields crates schema]).map HasFields) ↔ Apart crates schema := by
  rw [← madeTypes_fields, List.map_map, fromDatabase_types]
  constructor
  · intro h
    refine ⟨Dict.nodup_of_holds _ MadeType.name MadeType.type _ h, fun made hmade => ?_⟩
    have hweight := Dict.weight_of_holds _ MadeType.name MadeType.type
      (fun made type => HasFields (made.entries.map Prod.snd) type) (fun made => made.entries.length)
      (fun type => type.fields.entries.length) (fun made _ => Dict.length_ofEntries_le made.entries) ?_ h made hmade
    · exact (Dict.length_ofEntries_iff made.entries).mp hweight
    · intro made _ found hfound
      have hle := hfound.length_le
      rwa [List.length_map, List.length_map] at hle
  · rintro ⟨htypes, hfields⟩
    refine Dict.holds_of_nodup _ MadeType.name MadeType.type
      (fun made type => HasFields (made.entries.map Prod.snd) type) htypes fun made hmade => ?_
    exact (hasFields_iff made).mpr (hfields made hmade)

theorem lossless_iff_apart (connectionUrl : String) :
    Lossless crates schema (fromDatabase crates schema connectionUrl) ↔ Apart crates schema := by
  constructor
  · intro h
    exact (holds_iff_apart crates schema connectionUrl).mp h.types
  · intro h
    have hfound (made : MadeType) (hmade : made ∈ madeTypes crates schema) :
        (fromDatabase crates schema connectionUrl).types.get? made.name = some made.type ∧
          HasFields (made.entries.map Prod.snd) made.type := by
      have hkeys : (((madeTypes crates schema).map fun made => (made.name, made.type)).map Prod.fst).Nodup := by
        rw [List.map_map]
        exact h.types
      refine ⟨?_, (hasFields_iff made).mpr (h.fields made hmade)⟩
      rw [fromDatabase_types, Dict.get?_ofEntries _ hkeys]
      exact (Dict.lookup_eq_some_iff _ hkeys _ _).mpr (List.mem_map.mpr ⟨made, hmade, rfl⟩)
    have hfields := madeTypes_fields crates schema
    have hroots := (List.append_inj' ((List.map_append ..).symm.trans hfields) rfl).2
    obtain ⟨hquery, hmutation⟩ := List.cons_eq_cons.mp hroots
    have hfoundQuery := hfound ⟨"Query", schema.tables.flatMap (queryEntries crates)⟩
      (List.mem_append_right _ List.mem_cons_self)
    have hfoundMutation := hfound ⟨"Mutation", schema.tables.flatMap (mutationEntries crates)⟩
      (List.mem_append_right _ (List.mem_cons_of_mem _ List.mem_cons_self))
    refine ⟨(holds_iff_apart crates schema connectionUrl).mpr h, ⟨"Query", _, rfl, hfoundQuery.1, ?_⟩,
      ⟨"Mutation", _, rfl, hfoundMutation.1, ?_⟩⟩
    · rw [← hquery]
      exact hfoundQuery.2
    · rw [← (List.cons_eq_cons.mp hmutation).1]
      exact hfoundMutation.2

end Names

section Distinct

def stem (before after : ℕ) (name : String) : List Char :=
  (name.toList.drop before).take (name.toList.length - (before + after))

theorem stem_append (first middle last : String) :
    stem first.length last.length (first ++ middle ++ last) = middle.toList := by
  have hlength : (first.toList ++ middle.toList ++ last.toList).length - (first.length + last.length) =
      middle.toList.length := by
    rw [List.length_append, List.length_append, String.length_toList, String.length_toList, String.length_toList]
    omega
  have hfirst : first.length = first.toList.length := String.length_toList.symm
  rw [stem, String.toList_append, String.toList_append, hlength, List.append_assoc, hfirst, List.drop_left,
    List.take_left]

theorem nodup_flatMap_of_stem {tables : List Table} {key : Table → String} {names : Table → List String}
    (before after : ℕ) (hkey : (tables.map key).Nodup) (hnames : ∀ table ∈ tables, (names table).Nodup)
    (hstem : ∀ table ∈ tables, ∀ name ∈ names table, stem before after name = (key table).toList) :
    (tables.flatMap names).Nodup := by
  refine List.nodup_flatMap.mpr ⟨hnames, ?_⟩
  refine (List.pairwise_map.mp hkey).imp_of_mem fun {table other} htable hother hne => ?_
  intro name hname hname'
  exact hne (String.toList_inj.mp ((hstem table htable name hname).symm.trans (hstem other hother name hname')))

variable {crates schema}

theorem free_iff (relations : List Relation) (taken : List String) :
    Free crates taken relations ↔ ((nameRelations crates taken relations).map Prod.fst).Nodup ∧
      ∀ name ∈ (nameRelations crates taken relations).map Prod.fst, name ∉ taken := by
  induction relations generalizing taken with
  | nil => simp [Free, nameRelations]
  | cons relation rest ih =>
    rw [Free, nameRelations]
    split
    next h =>
      rw [ih, List.map_cons, List.nodup_cons]
      simp only [List.mem_cons, not_or, forall_eq_or_imp]
      grind
    next h =>
      rw [ih, List.map_cons, List.nodup_cons]
      simp only [List.mem_cons, not_or, forall_eq_or_imp]
      grind

theorem outputNames_nodup_iff (table : Table) :
    ((outputEntries crates schema table).map Prod.fst).Nodup ↔
      (table.columns.map fun column => crates.camel column.name).Nodup ∧
        Free crates (table.columns.map fun column => crates.camel column.name) (relations crates schema table) := by
  have hcolumns : (table.columns.map (columnField crates)).map Prod.fst =
      table.columns.map fun column => crates.camel column.name := List.map_map ..
  rw [outputEntries, List.map_append, hcolumns, List.nodup_append, free_iff]
  refine and_congr_right fun _ => and_congr_right fun _ => ?_
  constructor
  · intro h name hname hmem
    exact h name hmem name hname rfl
  · rintro h name hmem _ hname rfl
    exact h name hname hmem

theorem inputNames_stem (table : Table) : ∀ name ∈ (inputTypes crates table).map MadeType.name,
    stem 6 5 name = (tableToTypeName crates table.name).toList := by
  intro name hname
  unfold inputTypes at hname
  split at hname
  · cases hname
  · cases hpk : table.primaryKey with
    | none =>
      rw [hpk] at hname
      rw [List.mem_singleton.mp hname]
      exact stem_append "Create" _ "Input"
    | some pk =>
      rw [hpk] at hname
      rcases List.mem_cons.mp hname with rfl | hname
      · exact stem_append "Create" _ "Input"
      · rw [List.mem_singleton.mp hname]
        exact stem_append "Update" _ "Input"

theorem mem_inputNames_iff (table : Table) (name : String) : name ∈ (inputTypes crates table).map MadeType.name ↔
    table.isView = false ∧ (name = createInputName crates table ∨
      table.primaryKey.isSome = true ∧ name = updateInputName crates table) := by
  unfold inputTypes
  cases table.isView with
  | true => simp
  | false => cases table.primaryKey <;> simp

theorem typeNames_perm : ((madeTypes crates schema).map MadeType.name).Perm
    ((schema.tables.map (fun table => tableToTypeName crates table.name) ++
      schema.tables.flatMap fun table => (inputTypes crates table).map MadeType.name) ++ ["Query", "Mutation"]) := by
  rw [madeTypes, List.map_append, List.map_flatMap]
  refine List.Perm.append_right _ ?_
  exact (List.map_append_flatMap_perm _ _ _).symm

theorem createInput_ne_root (table : Table) (name : String)
    (hname : name ∈ (inputTypes crates table).map MadeType.name) : name ≠ "Query" ∧ name ≠ "Mutation" := by
  have hlong (first : String) (hlength : first.length = 6) :
      11 ≤ (first ++ tableToTypeName crates table.name ++ "Input").length := by
    rw [String.length_append, String.length_append, hlength]
    have hinput : "Input".length = 5 := rfl
    omega
  have hle : 11 ≤ name.length := by
    obtain ⟨-, rfl | ⟨-, rfl⟩⟩ := (mem_inputNames_iff table name).mp hname
    · exact hlong "Create" rfl
    · exact hlong "Update" rfl
  constructor
  · rintro rfl
    exact absurd hle (by decide)
  · rintro rfl
    exact absurd hle (by decide)

theorem queryNames_perm : ((schema.tables.flatMap (queryEntries crates)).map Prod.fst).Perm
    (schema.tables.map (listName crates) ++
      schema.tables.flatMap fun table => (table.primaryKey.map fun _ => byIdName crates table).toList) := by
  have hentries (table : Table) : ((queryEntries crates table).map Prod.fst).Perm
      (listName crates table :: (table.primaryKey.map fun _ => byIdName crates table).toList) := by
    unfold queryEntries
    cases table.primaryKey with
    | none => exact List.Perm.refl _
    | some pk => exact List.Perm.swap ..
  rw [List.map_flatMap]
  refine (List.Perm.flatMap_left _ fun table _ => hentries table).trans ?_
  exact (List.map_append_flatMap_perm _ _ _).symm

theorem queryNames_nodup_iff : ((schema.tables.flatMap (queryEntries crates)).map Prod.fst).Nodup ↔
    (schema.tables.map fun table => crates.camel table.name).Nodup := by
  constructor
  · intro h
    have hlist := (List.nodup_append.mp (queryNames_perm.nodup_iff.mp h)).1
    refine List.Nodup.of_map (fun name => name ++ "List") ?_
    rw [List.map_map]
    exact hlist
  · intro h
    rw [List.map_flatMap]
    refine nodup_flatMap_of_stem 0 4 h (fun table _ => ?_) fun table _ name hname => ?_
    · unfold queryEntries
      cases table.primaryKey with
      | none => exact List.nodup_singleton _
      | some pk =>
        have hne : byIdName crates table ≠ listName crates table := fun heq =>
          absurd (String.append_right_inj _ |>.mp heq) (by decide)
        simpa using hne
    · have hstem (last : String) (hlast : last.length = 4) :
          stem 0 4 (crates.camel table.name ++ last) = (crates.camel table.name).toList := by
        have := stem_append "" (crates.camel table.name) last
        rwa [String.empty_append, hlast] at this
      unfold queryEntries at hname
      cases hpk : table.primaryKey with
      | none =>
        rw [hpk] at hname
        rw [List.mem_singleton.mp hname]
        exact hstem "List" rfl
      | some pk =>
        rw [hpk] at hname
        rcases List.mem_cons.mp hname with rfl | hname
        · exact hstem "ById" rfl
        · rw [List.mem_singleton.mp hname]
          exact hstem "List" rfl

theorem mutationNames_nodup (h : (schema.tables.map fun table => tableToTypeName crates table.name).Nodup) :
    ((schema.tables.flatMap (mutationEntries crates)).map Prod.fst).Nodup := by
  rw [List.map_flatMap]
  refine nodup_flatMap_of_stem 6 0 h (fun table _ => ?_) fun table _ name hname => ?_
  · have hne {first last : String} (hne : first ≠ last) :
        first ++ tableToTypeName crates table.name ≠ last ++ tableToTypeName crates table.name := fun heq =>
      hne ((String.append_left_inj _).mp heq)
    unfold mutationEntries
    split
    · exact List.nodup_nil
    · cases table.primaryKey with
      | none => exact List.nodup_singleton _
      | some pk =>
        have hcreate : createName crates table ≠ updateName crates table := hne (by decide)
        have hdelete : createName crates table ≠ deleteName crates table := hne (by decide)
        have hupdate : updateName crates table ≠ deleteName crates table := hne (by decide)
        simp [hcreate, hdelete, hupdate]
  · have hstem (first : String) (hfirst : first.length = 6) :
        stem 6 0 (first ++ tableToTypeName crates table.name) = (tableToTypeName crates table.name).toList := by
      have := stem_append first (tableToTypeName crates table.name) ""
      rwa [String.append_empty, hfirst] at this
    unfold mutationEntries at hname
    split at hname
    · cases hname
    · cases hpk : table.primaryKey with
      | none =>
        rw [hpk] at hname
        rw [List.mem_singleton.mp hname]
        exact hstem "create" rfl
      | some pk =>
        rw [hpk] at hname
        simp only [Option.elim_some, List.map_cons, List.map_nil, List.mem_cons, List.not_mem_nil, or_false] at hname
        rcases hname with rfl | rfl | rfl
        · exact hstem "create" rfl
        · exact hstem "update" rfl
        · exact hstem "delete" rfl

theorem inputEntries_sublist {table : Table} {made : MadeType} (hmade : made ∈ inputTypes crates table) :
    (made.entries.map Prod.fst).Sublist (table.columns.map fun column => crates.camel column.name) := by
  have hcreate : ((createEntries crates table).map Prod.fst).Sublist
      (table.columns.map fun column => crates.camel column.name) := by
    rw [createEntries, List.map_map]
    exact (List.filter_sublist ..).map _
  have hupdate (pk : PrimaryKey) : ((updateEntries crates table pk).map Prod.fst).Sublist
      (table.columns.map fun column => crates.camel column.name) := by
    rw [updateEntries, List.map_map]
    exact (List.filter_sublist ..).map _
  unfold inputTypes at hmade
  split at hmade
  · cases hmade
  · rcases List.mem_cons.mp hmade with rfl | hmade
    · exact hcreate
    · obtain ⟨pk, -, rfl⟩ := Option.map_eq_some_iff.mp (Option.mem_toList.mp hmade)
      exact hupdate pk

theorem inputNames_nodup (table : Table) : ((inputTypes crates table).map MadeType.name).Nodup := by
  have hne : createInputName crates table ≠ updateInputName crates table := fun heq =>
    absurd ((String.append_left_inj _).mp ((String.append_left_inj _).mp heq)) (by decide)
  unfold inputTypes
  split
  · exact List.nodup_nil
  · cases table.primaryKey with
    | none => exact List.nodup_singleton _
    | some pk => simpa using hne

theorem Apart.unambiguous (h : Apart crates schema) : Unambiguous crates schema := by
  obtain ⟨hnames, hroots, hrootsApart⟩ := List.nodup_append.mp (typeNames_perm.nodup_iff.mp h.types)
  obtain ⟨htypes, -, hinputs⟩ := List.nodup_append.mp hnames
  have hmem {table : Table} (htable : table ∈ schema.tables) : tableToTypeName crates table.name ∈
      schema.tables.map fun table => tableToTypeName crates table.name := List.mem_map_of_mem htable
  have houtput {table : Table} (htable : table ∈ schema.tables) :=
    (outputNames_nodup_iff table).mp (h.fields ⟨_, outputEntries crates schema table⟩
      (List.mem_append_left _ (List.mem_flatMap.mpr ⟨table, htable, List.mem_cons_self⟩)))
  refine ⟨htypes, fun table htable => ⟨?_, ?_⟩, fun table htable other hother hview => ?_, ?_,
    fun table htable => (houtput htable).1, fun table htable => (houtput htable).2⟩
  · exact hrootsApart _ (List.mem_append_left _ (hmem htable)) "Query" List.mem_cons_self
  · exact hrootsApart _ (List.mem_append_left _ (hmem htable)) "Mutation" (List.mem_cons_of_mem _ List.mem_cons_self)
  · have hinput (name : String) (hname : name ∈ (inputTypes crates other).map MadeType.name) :
        tableToTypeName crates table.name ≠ name :=
      hinputs _ (hmem htable) name (List.mem_flatMap.mpr ⟨other, hother, hname⟩)
    exact ⟨hinput _ ((mem_inputNames_iff other _).mpr ⟨hview, .inl rfl⟩),
      fun hpk => hinput _ ((mem_inputNames_iff other _).mpr ⟨hview, .inr ⟨hpk, rfl⟩⟩)⟩
  · exact queryNames_nodup_iff.mp (h.fields ⟨"Query", _⟩ (List.mem_append_right _ List.mem_cons_self))

theorem Unambiguous.apart (h : Unambiguous crates schema) : Apart crates schema := by
  constructor
  · refine typeNames_perm.nodup_iff.mpr ?_
    have hinputs : (schema.tables.flatMap fun table => (inputTypes crates table).map MadeType.name).Nodup :=
      nodup_flatMap_of_stem 6 5 h.types (fun table _ => inputNames_nodup table) fun table _ => inputNames_stem table
    refine List.nodup_append.mpr ⟨List.nodup_append.mpr ⟨h.types, hinputs, ?_⟩, by decide, ?_⟩
    · intro name hname input hinput
      obtain ⟨table, htable, rfl⟩ := List.mem_map.mp hname
      obtain ⟨other, hother, hinput⟩ := List.mem_flatMap.mp hinput
      obtain ⟨hview, rfl | ⟨hpk, rfl⟩⟩ := (mem_inputNames_iff other input).mp hinput
      · exact (h.inputs table htable other hother hview).1
      · exact (h.inputs table htable other hother hview).2 hpk
    · intro name hname root hroot
      have hne : name ≠ "Query" ∧ name ≠ "Mutation" := by
        rcases List.mem_append.mp hname with hname | hname
        · obtain ⟨table, htable, rfl⟩ := List.mem_map.mp hname
          exact h.roots table htable
        · obtain ⟨table, -, hname⟩ := List.mem_flatMap.mp hname
          exact createInput_ne_root table name hname
      rcases List.mem_cons.mp hroot with rfl | hroot
      · exact hne.1
      · exact List.mem_singleton.mp hroot ▸ hne.2
  · intro made hmade
    rcases List.mem_append.mp hmade with hmade | hmade
    · obtain ⟨table, htable, hmade⟩ := List.mem_flatMap.mp hmade
      rcases List.mem_cons.mp hmade with rfl | hmade
      · exact (outputNames_nodup_iff table).mpr ⟨h.columns table htable, h.relations table htable⟩
      · exact (h.columns table htable).sublist (inputEntries_sublist hmade)
    · rcases List.mem_cons.mp hmade with rfl | hmade
      · exact queryNames_nodup_iff.mpr h.queries
      · rw [List.mem_singleton.mp hmade]
        exact mutationNames_nodup h.types

end Distinct

/-- The generated config has everything exactly when no two names coincide. -/
theorem fromDatabase_lossless_iff (crates : Crates) (schema : DatabaseSchema) (connectionUrl : String) :
    Lossless crates schema (fromDatabase crates schema connectionUrl) ↔ Unambiguous crates schema :=
  (lossless_iff_apart crates schema connectionUrl).trans ⟨Apart.unambiguous, Unambiguous.apart⟩

section TwoUsers

def usersOf (schema : String) : Table where
  schema := schema
  name := "users"
  columns := [⟨"id", .integer, false, true, false⟩]
  primaryKey := some ⟨["id"]⟩
  foreignKeys := []
  isView := false

def twoUsers : DatabaseSchema := (DatabaseSchema.addTable .empty (usersOf "public")).addTable (usersOf "app")

def oneWord : Crates where
  camel := id
  pascal := String.capitalize
  pluralize := id

theorem twoUsers_overwritten :
    ¬ Lossless oneWord twoUsers (fromDatabase oneWord twoUsers "postgres://localhost/test") := by
  intro h
  have hnames := ((lossless_iff_apart ..).mp h).unambiguous.types
  exact absurd hnames (by decide)

end TwoUsers

end Gqlforge.DatabaseConfigs
