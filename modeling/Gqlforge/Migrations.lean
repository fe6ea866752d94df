import Gqlforge.DatabaseConfigs

namespace Gqlforge.Migrations

open DatabaseConfigs (PgType Column PrimaryKey ForeignKey)

structure UniqueConstraint where
  columns : List String

structure Table extends DatabaseConfigs.Table where
  uniqueConstraints : List UniqueConstraint

abbrev DatabaseSchema := Dict Table

def DatabaseSchema.addTable (schema : DatabaseSchema) (table : Table) : DatabaseSchema :=
  schema.insert table.qualifiedName table

def DatabaseSchema.findTable (schema : DatabaseSchema) (name : String) : Option Table :=
  (schema.get? name).or <|
    if name.contains '.' then none
    else (schema.get? ("public." ++ name)).or <|
      match schema.values.filter fun table => table.name == name with
      | [table] => some table
      | _ => none

inductive ObjectNamePart where
  | identifier (value : String)
  | function

abbrev ObjectName := List ObjectNamePart

inductive Expr where
  | identifier (value : String)
  | compoundIdentifier (parts : List String)
  | other

inductive DataType where
  | smallInt | int | integer | bigInt | real | double | doublePrecision | numeric | decimal | dec | boolean | text
  | varchar | characterVarying | char | character | uuid | date
  | timestamp (withTimeZone : Bool)
  | time (withTimeZone : Bool)
  | interval | json | jsonb | bytea
  | array (elem : Option DataType)
  | other (shown : String)

inductive ColumnOption where
  | primaryKey
  | notNull
  | default
  | generated
  | other
  deriving DecidableEq

structure ColumnDef where
  name : String
  dataType : DataType
  shown : String
  options : List ColumnOption

inductive TableConstraint where
  | primaryKey (columns : List Expr)
  | foreignKey (columns : List String) (foreignTable : ObjectName) (referredColumns : List String)
  | unique (columns : List Expr)
  | other

structure CreateTable where
  name : ObjectName
  columns : List ColumnDef
  constraints : List TableConstraint

inductive AlterTableOperation where
  | addColumn (columnDef : ColumnDef)
  | dropColumn (columnNames : List String)
  | addConstraint
  | other

structure AlterTable where
  name : ObjectName
  operations : List AlterTableOperation

inductive TableFactor where
  | table (name : ObjectName)
  | other

structure TableWithJoins where
  relation : TableFactor
  joins : List TableFactor

inductive SelectItem where
  | unnamedExpr (expr : Expr)
  | exprWithAlias (expr : Expr) (alias' : String)
  | exprWithAliases (expr : Expr) (aliases : List String)
  | wildcard
  | qualifiedWildcard (name : Option ObjectName)

structure Select where
  projection : List SelectItem
  sources : List TableWithJoins

structure ViewColumnDef where
  name : String
  dataType : Option DataType

structure CreateView where
  name : ObjectName
  columns : List ViewColumnDef
  query : Option Select

inductive Statement where
  | createTable (create : CreateTable)
  | alterTable (alter : AlterTable)
  | createView (create : CreateView)
  | other

section

-- Lower case as the standard library has it.
variable (toLowercase : String → String)

def ofLowerName (name : String) : PgType :=
  match name with
  | "smallint" | "int2" | "smallserial" | "serial2" => .smallInt
  | "integer" | "int" | "int4" | "serial" | "serial4" => .integer
  | "bigint" | "int8" | "bigserial" | "serial8" => .bigInt
  | "real" | "float4" => .real
  | "double precision" | "float8" => .doublePrecision
  | "numeric" | "decimal" => .numeric
  | "boolean" | "bool" => .boolean
  | "text" => .text
  | "character varying" | "varchar" => .varchar
  | "character" | "char" => .char
  | "uuid" => .uuid
  | "date" => .date
  | "timestamp" | "timestamp without time zone" => .timestamp
  | "timestamp with time zone" | "timestamptz" => .timestampTz
  | "time" | "time without time zone" => .time
  | "time with time zone" | "timetz" => .timeTz
  | "interval" => .interval
  | "json" => .json
  | "jsonb" => .jsonb
  | "bytea" => .bytea
  | "inet" => .inet
  | "cidr" => .cidr
  | "macaddr" | "macaddr8" => .macAddr
  | "int4range" => .int4Range
  | "int8range" => .int8Range
  | "numrange" => .numRange
  | "tsrange" => .tsRange
  | "tstzrange" => .tstzRange
  | "daterange" => .dateRange
  | other => .other other

def ofReversed : List Char → PgType
  | ']' :: '[' :: rest => .array (ofReversed rest)
  | rest => ofLowerName (String.ofList rest.reverse)

def PgType.fromSqlName (name : String) : PgType :=
  ofReversed (toLowercase name).toList.reverse

def dataTypeToPgType : DataType → PgType
  | .smallInt => .smallInt
  | .int | .integer => .integer
  | .bigInt => .bigInt
  | .real => .real
  | .double | .doublePrecision => .doublePrecision
  | .numeric | .decimal | .dec => .numeric
  | .boolean => .boolean
  | .text => .text
  | .varchar | .characterVarying => .varchar
  | .char | .character => .char
  | .uuid => .uuid
  | .date => .date
  | .timestamp withTimeZone => if withTimeZone then .timestampTz else .timestamp
  | .time withTimeZone => if withTimeZone then .timeTz else .time
  | .interval => .interval
  | .json => .json
  | .jsonb => .jsonb
  | .bytea => .bytea
  | .array (some elem) => .array (dataTypeToPgType elem)
  | .array none => .array .text
  | .other shown => PgType.fromSqlName toLowercase shown

def containsText (part text : String) : Bool :=
  text.toList.tails.any fun tail => part.toList.isPrefixOf tail

def columnFromDef (col : ColumnDef) : Column :=
  let isSerial := containsText "serial" (toLowercase col.shown)
  { name := col.name
    pgType := dataTypeToPgType toLowercase col.dataType
    isNullable := !isSerial && !col.options.any fun option => option == .notNull || option == .primaryKey
    hasDefault := isSerial || col.options.contains .default
    isGenerated := col.options.contains .generated }

def extractSchemaAndName (name : ObjectName) : String × String :=
  let parts := name.filterMap fun part => match part with
    | .identifier value => some value
    | .function => none
  match parts.reverse with
  | [] => ("public", "")
  | [table] => ("public", table)
  | table :: schema :: _ => (schema, table)

def formatObjectName (name : ObjectName) : String :=
  (extractSchemaAndName name).1 ++ "." ++ (extractSchemaAndName name).2

def tableName : TableFactor → Option String
  | .table name => some (formatObjectName name)
  | .other => none

def collectFromTableNames (query : Option Select) : List String :=
  match query with
  | some select => select.sources.flatMap fun source =>
      (tableName source.relation).toList ++ source.joins.filterMap tableName
  | none => []

def shortName (name : String) : String :=
  String.ofList (name.toList.reverse.takeWhile (· ≠ '.')).reverse

def isQualified (tableName qual : String) : Bool :=
  shortName tableName == qual || tableName == qual

def findColTypeInTables (colName : String) (qualifier : Option String) (fromTables : List String)
    (schema : DatabaseSchema) : Option PgType :=
  let typeIn (tableName : String) : Option PgType :=
    (schema.findTable tableName).bind fun table => (table.findColumn colName).map Column.pgType
  (qualifier.bind fun qual => (fromTables.filter (isQualified · qual)).findSome? typeIn).or
    (fromTables.findSome? typeIn)

def viewColumn (name : String) (pgType : PgType) : Column :=
  ⟨name, pgType, true, false, false⟩

def baseName : Expr → Option (String × Option String)
  | .identifier value => some (value, none)
  | .compoundIdentifier parts =>
    match parts.reverse with
    | [] => none
    | [column] => some (column, none)
    | column :: qualifier :: _ => some (column, some qualifier)
  | .other => none

def typeOf (expr : Expr) (fromTables : List String) (schema : DatabaseSchema) : Option PgType :=
  (baseName expr).bind fun base => findColTypeInTables base.1 base.2 fromTables schema

def columnsOf (fromTables : List String) (schema : DatabaseSchema) : List Column :=
  fromTables.flatMap fun name => match schema.findTable name with
    | some table => table.columns.map fun column => viewColumn column.name column.pgType
    | none => []

def lastIdentifier (name : ObjectName) : Option String :=
  match name.getLast? with
  | some (.identifier value) => some value
  | _ => none

def projectedColumns (fromTables : List String) (schema : DatabaseSchema) : SelectItem → List Column
  | .unnamedExpr expr =>
    match baseName expr with
    | some base => [viewColumn base.1 ((typeOf expr fromTables schema).getD .text)]
    | none => []
  | .exprWithAlias expr alias' => [viewColumn alias' ((typeOf expr fromTables schema).getD .text)]
  | .exprWithAliases expr aliases => aliases.map (viewColumn · ((typeOf expr fromTables schema).getD .text))
  | .wildcard => columnsOf fromTables schema
  | .qualifiedWildcard name =>
    match name.bind lastIdentifier with
    | some qual => columnsOf (fromTables.filter (isQualified · qual)) schema
    | none => []

def inferViewColumnsFromProjection (query : Option Select) (fromTables : List String) (schema : DatabaseSchema) :
    List Column :=
  match query with
  | some select => select.projection.flatMap (projectedColumns fromTables schema)
  | none => []

def exprOf : SelectItem → Expr
  | .unnamedExpr expr => expr
  | .exprWithAlias expr _ => expr
  | .exprWithAliases expr _ => expr
  | _ => .other

def inferTypeAtProjectionPos (pos : ℕ) (query : Option Select) (fromTables : List String) (schema : DatabaseSchema) :
    Option PgType :=
  query.bind fun select => (select.projection[pos]?).bind fun item => typeOf (exprOf item) fromTables schema

def identifiers (columns : List Expr) : List String :=
  columns.filterMap fun column => match column with
    | .identifier value => some value
    | _ => none

structure Constraints where
  primaryKey : Option PrimaryKey
  foreignKeys : List ForeignKey
  uniqueConstraints : List UniqueConstraint

def addConstraint (constraints : Constraints) : TableConstraint → Constraints
  | .primaryKey columns => { constraints with primaryKey := some ⟨identifiers columns⟩ }
  | .foreignKey columns foreignTable referredColumns =>
    let referenced := extractSchemaAndName foreignTable
    { constraints with
      foreignKeys := constraints.foreignKeys ++ [⟨columns, referenced.1, referenced.2, referredColumns⟩] }
  | .unique columns =>
    { constraints with uniqueConstraints := constraints.uniqueConstraints ++ [⟨identifiers columns⟩] }
  | .other => constraints

def inlinePrimaryKey (columns : List ColumnDef) : Option PrimaryKey :=
  match (columns.filter fun col => col.options.contains .primaryKey).map ColumnDef.name with
  | [] => none
  | names => some ⟨names⟩

def notNullable (primaryKey : Option PrimaryKey) (column : Column) : Column :=
  if (primaryKey.map PrimaryKey.columns).getD [] |>.contains column.name then { column with isNullable := false }
  else column

def createTable (create : CreateTable) : Table :=
  let name := extractSchemaAndName create.name
  let constraints := create.constraints.foldl addConstraint ⟨none, [], []⟩
  let primaryKey := constraints.primaryKey.or (inlinePrimaryKey create.columns)
  { schema := name.1
    name := name.2
    columns := (create.columns.map (columnFromDef toLowercase)).map (notNullable primaryKey)
    primaryKey := primaryKey
    foreignKeys := constraints.foreignKeys
    uniqueConstraints := constraints.uniqueConstraints
    isView := false }

def applyAlterOp (table : Table) : AlterTableOperation → Table
  | .addColumn columnDef => { table with columns := table.columns ++ [columnFromDef toLowercase columnDef] }
  | .dropColumn columnNames =>
    { table with columns := columnNames.foldl (fun columns name => columns.filter (·.name ≠ name)) table.columns }
  | .addConstraint => table
  | .other => table

def alteredKey (schema : DatabaseSchema) (name : ObjectName) : Option String :=
  if schema.contains (formatObjectName name) then some (formatObjectName name)
  else
    let alt := "public." ++ (extractSchemaAndName name).2
    if schema.contains alt then some alt else none

def viewColumns (create : CreateView) (schema : DatabaseSchema) : List Column :=
  let fromTables := collectFromTableNames create.query
  if create.columns.isEmpty then inferViewColumnsFromProjection create.query fromTables schema
  else create.columns.zipIdx.map fun entry =>
    viewColumn entry.1.name <| match entry.1.dataType with
      | some dataType => dataTypeToPgType toLowercase dataType
      | none => (inferTypeAtProjectionPos entry.2 create.query fromTables schema).getD .text

def applyStatement (schema : DatabaseSchema) : Statement → DatabaseSchema
  | .createTable create => schema.addTable (createTable toLowercase create)
  | .alterTable alter =>
    match (alteredKey schema alter.name).bind fun key => (schema.get? key).map fun table => (key, table) with
    | some (key, table) => schema.insert key (alter.operations.foldl (applyAlterOp toLowercase) table)
    | none => schema
  | .createView create =>
    let name := extractSchemaAndName create.name
    schema.addTable
      { schema := name.1
        name := name.2
        columns := viewColumns toLowercase create schema
        primaryKey := none
        foreignKeys := []
        uniqueConstraints := []
        isView := true }
  | .other => schema

variable {ε : Type} (parseSql : String → Except ε (List Statement))

def parseMigrations (sqlContents : List String) : Except ε DatabaseSchema :=
  sqlContents.foldlM (fun schema sql => do return (← parseSql sql).foldl (applyStatement toLowercase) schema) .empty

end

def Table.columnNames (table : Table) : List String :=
  table.columns.map Column.name

structure Table.Consistent (table : Table) : Prop where
  distinct : table.columnNames.Nodup
  primary : ∀ key, table.primaryKey = some key → key.columns ⊆ table.columnNames
  required : ∀ key, table.primaryKey = some key → ∀ column ∈ table.columns, column.name ∈ key.columns →
    column.isNullable = false
  foreign : ∀ key ∈ table.foreignKeys, key.columns ⊆ table.columnNames
  unique : ∀ constraint ∈ table.uniqueConstraints, constraint.columns ⊆ table.columnNames

def DatabaseSchema.Consistent (schema : DatabaseSchema) : Prop :=
  ∀ key table, schema.get? key = some table → table.Consistent

def TableConstraint.columns : TableConstraint → List String
  | .primaryKey columns => identifiers columns
  | .foreignKey columns _ _ => columns
  | .unique columns => identifiers columns
  | .other => []

def CreateTable.Sound (create : CreateTable) : Prop :=
  (create.columns.map ColumnDef.name).Nodup ∧
    ∀ constraint ∈ create.constraints, constraint.columns ⊆ create.columns.map ColumnDef.name

def Table.constrained (table : Table) : List String :=
  ((table.primaryKey.map PrimaryKey.columns).getD []) ++ table.foreignKeys.flatMap ForeignKey.columns ++
    table.uniqueConstraints.flatMap UniqueConstraint.columns

/-- A column that is added is new, and one that is dropped is in no key and in no constraint. -/
def AlterTableOperation.Sound (table : Table) : AlterTableOperation → Prop
  | .addColumn columnDef => columnDef.name ∉ table.columnNames
  | .dropColumn columnNames => ∀ name ∈ columnNames, name ∉ table.constrained
  | _ => True

section

variable (toLowercase : String → String)

def SoundAll : Table → List AlterTableOperation → Prop
  | _, [] => True
  | table, operation :: operations =>
    operation.Sound table ∧ SoundAll (applyAlterOp toLowercase table operation) operations

def Table.IsNamed (table : Table) (name : ObjectName) : Prop :=
  (table.schema, table.name) = extractSchemaAndName name

def Statement.Sound (schema : DatabaseSchema) : Statement → Prop
  | .createTable create => create.Sound
  | .alterTable alter => ∀ key table, alteredKey schema alter.name = some key → schema.get? key = some table →
      table.IsNamed alter.name ∧ SoundAll toLowercase table alter.operations
  | .createView create => ((viewColumns toLowercase create schema).map Column.name).Nodup
  | .other => True

end

section

variable {toLowercase : String → String}

structure Constraints.Within (names : List String) (constraints : Constraints) : Prop where
  primary : ∀ key, constraints.primaryKey = some key → key.columns ⊆ names
  foreign : ∀ key ∈ constraints.foreignKeys, key.columns ⊆ names
  unique : ∀ constraint ∈ constraints.uniqueConstraints, constraint.columns ⊆ names

variable {names : List String}

theorem addConstraint_within {constraints : Constraints} (h : constraints.Within names) {constraint : TableConstraint}
    (hsub : constraint.columns ⊆ names) : (addConstraint constraints constraint).Within names := by
  cases constraint with
  | primaryKey columns => exact ⟨fun key hkey => Option.some.inj hkey ▸ hsub, h.foreign, h.unique⟩
  | foreignKey columns foreignTable referredColumns =>
    refine ⟨h.primary, fun key hkey => ?_, h.unique⟩
    rcases List.mem_append.mp hkey with hkey | hkey
    · exact h.foreign key hkey
    · rw [List.mem_singleton.mp hkey]
      exact hsub
  | unique columns =>
    refine ⟨h.primary, h.foreign, fun constraint hconstraint => ?_⟩
    rcases List.mem_append.mp hconstraint with hconstraint | hconstraint
    · exact h.unique constraint hconstraint
    · rw [List.mem_singleton.mp hconstraint]
      exact hsub
  | other => exact h

theorem constraints_within {added : List TableConstraint} {constraints : Constraints}
    (h : constraints.Within names) (hsub : ∀ constraint ∈ added, constraint.columns ⊆ names) :
    (added.foldl addConstraint constraints).Within names := by
  induction added generalizing constraints with
  | nil => exact h
  | cons constraint added ih =>
    rw [List.forall_mem_cons] at hsub
    exact ih (addConstraint_within h hsub.1) hsub.2

theorem inlinePrimaryKey_subset {columns : List ColumnDef} {key : PrimaryKey}
    (h : inlinePrimaryKey columns = some key) :
    key.columns ⊆ columns.map ColumnDef.name := by
  unfold inlinePrimaryKey at h
  split at h
  · cases h
  · cases h
    exact (List.filter_sublist.map _).subset

theorem notNullable_name (primaryKey : Option PrimaryKey) (column : Column) :
    (notNullable primaryKey column).name = column.name := by
  rw [notNullable]
  split <;> rfl

theorem createTable_columnNames (create : CreateTable) :
    (createTable toLowercase create).columnNames = create.columns.map ColumnDef.name := by
  rw [Table.columnNames, createTable, List.map_map, List.map_map]
  exact List.map_congr_left fun column _ => notNullable_name _ _

theorem createTable_consistent {create : CreateTable} (h : create.Sound) :
    (createTable toLowercase create).Consistent := by
  have hnone : Constraints.Within (create.columns.map ColumnDef.name) ⟨none, [], []⟩ :=
    ⟨fun _ hkey => (by cases hkey), List.forall_mem_nil _, List.forall_mem_nil _⟩
  have hwithin := constraints_within hnone h.2
  have hprimary : ∀ key, (createTable toLowercase create).primaryKey = some key →
      key.columns ⊆ create.columns.map ColumnDef.name := by
    intro key hkey
    rcases Option.or_eq_some_iff.mp hkey with hkey | ⟨-, hkey⟩
    · exact hwithin.primary key hkey
    · exact inlinePrimaryKey_subset hkey
  refine ⟨?_, ?_, fun key hkey column hcolumn hname => ?_, ?_, ?_⟩
  all_goals try rw [createTable_columnNames]
  · exact h.1
  · exact hprimary
  · obtain ⟨column, -, rfl⟩ := List.mem_map.mp hcolumn
    rw [notNullable_name] at hname
    have hcontains : (((createTable toLowercase create).primaryKey.map PrimaryKey.columns).getD []).contains
        column.name = true := by
      rw [hkey]
      exact List.contains_iff_mem.mpr hname
    exact congrArg Column.isNullable (if_pos hcontains)
  · exact hwithin.foreign
  · exact hwithin.unique

theorem mem_dropped {columns : List Column} {column : Column} :
    column ∈ names.foldl (fun columns name => columns.filter (·.name ≠ name)) columns ↔
      column ∈ columns ∧ column.name ∉ names := by
  induction names generalizing columns with
  | nil => simp
  | cons name names ih =>
    rw [List.foldl_cons, ih, List.mem_filter, List.mem_cons, not_or, decide_eq_true_eq, and_assoc]

theorem dropped_sublist (names : List String) (columns : List Column) :
    (names.foldl (fun columns name => columns.filter (·.name ≠ name)) columns).Sublist columns := by
  induction names generalizing columns with
  | nil => exact List.Sublist.refl _
  | cons name names ih => exact (ih _).trans List.filter_sublist

theorem subset_dropped {named : List String} {columns : List Column} (hsub : named ⊆ columns.map Column.name)
    (hfree : ∀ name ∈ names, name ∉ named) :
    named ⊆ (names.foldl (fun columns name => columns.filter (·.name ≠ name)) columns).map Column.name := by
  intro name hname
  obtain ⟨column, hcolumn, rfl⟩ := List.mem_map.mp (hsub hname)
  exact List.mem_map_of_mem (mem_dropped.mpr ⟨hcolumn, fun hdropped => hfree _ hdropped hname⟩)

variable {table : Table}

theorem constrained_primary {key : PrimaryKey} (h : table.primaryKey = some key) : key.columns ⊆ table.constrained := by
  rw [Table.constrained, h]
  exact List.subset_append_of_subset_left _ (List.subset_append_left _ _)

theorem constrained_foreign {key : ForeignKey} (h : key ∈ table.foreignKeys) : key.columns ⊆ table.constrained :=
  fun _ hname => List.mem_append_left _ (List.mem_append_right _ (List.mem_flatMap.mpr ⟨key, h, hname⟩))

theorem constrained_unique {constraint : UniqueConstraint} (h : constraint ∈ table.uniqueConstraints) :
    constraint.columns ⊆ table.constrained :=
  fun _ hname => List.mem_append_right _ (List.mem_flatMap.mpr ⟨constraint, h, hname⟩)

theorem applyAlterOp_consistent (h : table.Consistent) {operation : AlterTableOperation}
    (hsound : operation.Sound table) : (applyAlterOp toLowercase table operation).Consistent := by
  cases operation with
  | addColumn columnDef =>
    have hnames : (applyAlterOp toLowercase table (.addColumn columnDef)).columnNames =
        table.columnNames ++ [columnDef.name] := by
      rw [Table.columnNames, applyAlterOp, List.map_append]
      rfl
    have hsub : table.columnNames ⊆ (applyAlterOp toLowercase table (.addColumn columnDef)).columnNames := by
      rw [hnames]
      exact List.subset_append_left _ _
    refine ⟨?_, fun key hkey => List.Subset.trans (h.primary key hkey) hsub, fun key hkey column hcolumn hname => ?_,
      fun key hkey => List.Subset.trans (h.foreign key hkey) hsub, fun constraint hconstraint =>
        List.Subset.trans (h.unique constraint hconstraint) hsub⟩
    · rw [hnames, ← List.concat_eq_append, List.nodup_concat]
      exact ⟨hsound, h.distinct⟩
    · rcases List.mem_append.mp hcolumn with hcolumn | hcolumn
      · exact h.required key hkey column hcolumn hname
      · rw [List.mem_singleton.mp hcolumn] at hname
        exact absurd (h.primary key hkey hname) hsound
  | dropColumn columnNames =>
    have hfree {named : List String} (hnamed : named ⊆ table.constrained) : ∀ name ∈ columnNames, name ∉ named :=
      fun name hname hin => hsound name hname (hnamed hin)
    refine ⟨((dropped_sublist _ _).map _).nodup h.distinct, fun key hkey => ?_, fun key hkey column hcolumn => ?_,
      fun key hkey => ?_, fun constraint hconstraint => ?_⟩
    · exact subset_dropped (h.primary key hkey) (hfree (constrained_primary hkey))
    · exact h.required key hkey column (mem_dropped.mp hcolumn).1
    · exact subset_dropped (h.foreign key hkey) (hfree (constrained_foreign hkey))
    · exact subset_dropped (h.unique constraint hconstraint) (hfree (constrained_unique hconstraint))
  | addConstraint => exact h
  | other => exact h

theorem applyAlterOps_consistent {operations : List AlterTableOperation} (h : table.Consistent)
    (hsound : SoundAll toLowercase table operations) :
    (operations.foldl (applyAlterOp toLowercase) table).Consistent := by
  induction operations generalizing table with
  | nil => exact h
  | cons operation operations ih => exact ih (applyAlterOp_consistent h hsound.1) hsound.2

variable {schema : DatabaseSchema}

theorem insert_consistent (h : schema.Consistent) (key : String)
    (htable : table.Consistent) : DatabaseSchema.Consistent (schema.insert key table) := by
  intro other table' hget
  rw [Dict.get?_insert] at hget
  split at hget
  · exact Option.some.inj hget ▸ htable
  · exact h other table' hget

variable (toLowercase) in
theorem applyStatement_alter (schema : DatabaseSchema) (alter : AlterTable) :
    (∃ key table, alteredKey schema alter.name = some key ∧ schema.get? key = some table ∧
      applyStatement toLowercase schema (.alterTable alter) =
        schema.insert key (alter.operations.foldl (applyAlterOp toLowercase) table)) ∨
      applyStatement toLowercase schema (.alterTable alter) = schema := by
  simp only [applyStatement]
  cases hkey : alteredKey schema alter.name with
  | none => exact .inr rfl
  | some key =>
    cases htable : schema.get? key with
    | none => exact .inr (by simp only [Option.bind_some, htable, Option.map_none])
    | some table =>
      exact .inl ⟨key, table, rfl, htable, by simp only [Option.bind_some, htable, Option.map_some]⟩

theorem applyStatement_consistent (h : schema.Consistent) {statement : Statement}
    (hsound : statement.Sound toLowercase schema) :
    DatabaseSchema.Consistent (applyStatement toLowercase schema statement) := by
  cases statement with
  | createTable create => exact insert_consistent h _ (createTable_consistent hsound)
  | alterTable alter =>
    rcases applyStatement_alter toLowercase schema alter with ⟨key, table, hkey, hget, heq⟩ | heq
    · rw [heq]
      exact insert_consistent h key (applyAlterOps_consistent (h key table hget) (hsound key table hkey hget).2)
    · rw [heq]
      exact h
  | createView create =>
    refine insert_consistent h _ ⟨hsound, fun _ hkey => ?_, fun _ hkey => ?_, List.forall_mem_nil _,
      List.forall_mem_nil _⟩ <;> cases hkey
  | other => exact h

def AltersOnly (before after : DatabaseSchema) (name : ObjectName) : Prop :=
  ∀ key, after.get? key ≠ before.get? key → ∃ table, before.get? key = some table ∧ table.IsNamed name

theorem applyStatement_altersOnly {alter : AlterTable}
    (hsound : (Statement.alterTable alter).Sound toLowercase schema) :
    AltersOnly schema (applyStatement toLowercase schema (.alterTable alter)) alter.name := by
  intro other hne
  rcases applyStatement_alter toLowercase schema alter with ⟨key, table, hkey, hget, heq⟩ | heq
  · rw [heq, Dict.get?_insert] at hne
    by_cases hother : other = key
    · rw [hother]
      exact ⟨table, hget, (hsound key table hkey hget).1⟩
    · rw [if_neg hother] at hne
      exact absurd rfl hne
  · rw [heq] at hne
    exact absurd rfl hne

end

section

variable {toLowercase : String → String} {ε : Type} {parseSql : String → Except ε (List Statement)}

theorem parseMigrations_eq (contents : List String) : parseMigrations toLowercase parseSql contents =
    (contents.mapM parseSql).map fun lists => lists.flatten.foldl (applyStatement toLowercase) .empty := by
  have hfrom : ∀ schema : DatabaseSchema, (contents.foldlM (fun schema sql => do
      return (← parseSql sql).foldl (applyStatement toLowercase) schema) schema : Except ε DatabaseSchema) =
      (contents.mapM parseSql).map fun lists => lists.flatten.foldl (applyStatement toLowercase) schema := by
    induction contents with
    | nil => exact fun schema => rfl
    | cons sql contents ih =>
      intro schema
      rw [List.foldlM_cons, List.mapM_cons]
      cases parseSql sql with
      | error error => rfl
      | ok statements =>
        refine (ih _).trans ?_
        change _ = Except.map _ ((contents.mapM parseSql).bind fun lists => .ok (statements :: lists))
        cases contents.mapM parseSql with
        | error error => rfl
        | ok lists => exact congrArg Except.ok List.foldl_append.symm
  exact hfrom .empty

variable (toLowercase) in
def SoundFrom : DatabaseSchema → List Statement → Prop
  | _, [] => True
  | schema, statement :: statements =>
    statement.Sound toLowercase schema ∧ SoundFrom (applyStatement toLowercase schema statement) statements

theorem foldl_consistent {earlier later : List Statement} {schema : DatabaseSchema} (h : schema.Consistent)
    (hsound : SoundFrom toLowercase schema (earlier ++ later)) :
    DatabaseSchema.Consistent (earlier.foldl (applyStatement toLowercase) schema) ∧
      SoundFrom toLowercase (earlier.foldl (applyStatement toLowercase) schema) later := by
  induction earlier generalizing schema with
  | nil => exact ⟨h, hsound⟩
  | cons statement earlier ih => exact ih (applyStatement_consistent h hsound.1) hsound.2

/-- Every schema on the way is consistent, and each alteration is of the table that it names. -/
theorem parseMigrations_consistent {contents : List String} {lists : List (List Statement)}
    (hparse : contents.mapM parseSql = .ok lists) (hsound : SoundFrom toLowercase .empty lists.flatten) :
    (∃ schema, parseMigrations toLowercase parseSql contents = .ok schema ∧ schema.Consistent) ∧
      ∀ earlier later, lists.flatten = earlier ++ later →
        DatabaseSchema.Consistent (earlier.foldl (applyStatement toLowercase) .empty) ∧
        ∀ alter rest, later = Statement.alterTable alter :: rest →
          AltersOnly (earlier.foldl (applyStatement toLowercase) .empty)
            ((earlier ++ [Statement.alterTable alter]).foldl (applyStatement toLowercase) .empty) alter.name := by
  have hempty : DatabaseSchema.Consistent .empty := fun key table hget => by cases hget
  have hrun {earlier later : List Statement} (h : lists.flatten = earlier ++ later) :=
    foldl_consistent hempty (h ▸ hsound)
  constructor
  · refine ⟨_, ?_, (hrun (List.append_nil _).symm).1⟩
    rw [parseMigrations_eq, hparse]
    rfl
  · intro earlier later heq
    obtain ⟨hconsistent, hlater⟩ := hrun heq
    refine ⟨hconsistent, ?_⟩
    rintro alter rest rfl
    rw [List.foldl_append]
    exact applyStatement_altersOnly hlater.1

end

def users : ObjectName := [.identifier "users"]

def idColumn : ColumnDef := ⟨"id", .integer, "INTEGER", [.primaryKey]⟩

def nameColumn : ColumnDef := ⟨"name", .text, "TEXT", []⟩

def parseUsers : String → Except Unit (List Statement)
  | "create" => .ok [.createTable ⟨users, [idColumn], []⟩]
  | "alter" => .ok [.alterTable ⟨users, [.addColumn nameColumn]⟩]
  | _ => .error ()

theorem parseMigrations_users : (∃ schema, parseMigrations id parseUsers ["create", "alter"] = .ok schema ∧
      schema.Consistent) ∧
    ∀ earlier later, [Statement.createTable ⟨users, [idColumn], []⟩, .alterTable ⟨users, [.addColumn nameColumn]⟩] =
        earlier ++ later →
      DatabaseSchema.Consistent (earlier.foldl (applyStatement id) .empty) ∧
      ∀ alter rest, later = Statement.alterTable alter :: rest →
        AltersOnly (earlier.foldl (applyStatement id) .empty)
          ((earlier ++ [Statement.alterTable alter]).foldl (applyStatement id) .empty) alter.name := by
  have hparse : ["create", "alter"].mapM parseUsers =
    .ok [[.createTable ⟨users, [idColumn], []⟩], [.alterTable ⟨users, [.addColumn nameColumn]⟩]] := rfl
  refine parseMigrations_consistent hparse ⟨⟨by decide, List.forall_mem_nil _⟩, ?_, trivial⟩
  rintro key table hkey htable
  cases hkey
  cases htable
  exact ⟨rfl, show "name" ∉ ["id"] by decide, trivial⟩

theorem parseMigrations_not_consistent :
    ¬ DatabaseSchema.Consistent ([Statement.createTable ⟨users, [idColumn], []⟩,
        .alterTable ⟨users, [.dropColumn ["id"]]⟩].foldl (applyStatement id) .empty) ∧
      ¬ AltersOnly (applyStatement id .empty (.createTable ⟨users, [idColumn], []⟩))
        ([Statement.createTable ⟨users, [idColumn], []⟩,
          .alterTable ⟨.identifier "app" :: users, [.addColumn nameColumn]⟩].foldl (applyStatement id) .empty)
        (.identifier "app" :: users) := by
  constructor
  · intro h
    have hprimary := (h "public.users" _ rfl).primary ⟨["id"]⟩ rfl
    exact absurd (hprimary List.mem_cons_self) List.not_mem_nil
  · intro h
    obtain ⟨table, htable, hnamed⟩ := h "public.users" (by
      intro hsame
      have hlength := congrArg (fun table => table.map fun table : Table => table.columns.length) hsame
      cases hlength)
    cases htable
    exact absurd hnamed (show ("public", "users") ≠ ("app", "users") by decide)

end Gqlforge.Migrations
