import Gqlforge.SortedMaps
import Gqlforge.StreamDirectives

namespace Gqlforge.DatabaseConfigs

open Json Schema Config StreamDirectives

inductive PgType where
  | smallInt | integer | bigInt | real | doublePrecision | numeric | boolean | text | varchar | char | uuid
  | date | timestamp | timestampTz | time | timeTz | interval | json | jsonb | bytea | inet | cidr | macAddr
  | array (elem : PgType)
  | int4Range | int8Range | numRange | tsRange | tstzRange | dateRange
  | other (name : String)

def PgType.graphqlScalar : PgType → String
  | .smallInt | .integer => "Int"
  | .real | .doublePrecision => "Float"
  | .boolean => "Boolean"
  | .uuid => "ID"
  | .json | .jsonb | .array _ => "JSON"
  | .date | .timestamp | .timestampTz => "DateTime"
  | _ => "String"

structure Column where
  name : String
  pgType : PgType
  isNullable : Bool
  hasDefault : Bool
  isGenerated : Bool

structure PrimaryKey where
  columns : List String

structure ForeignKey where
  columns : List String
  referencedSchema : String
  referencedTable : String
  referencedColumns : List String

structure Table where
  schema : String
  name : String
  columns : List Column
  primaryKey : Option PrimaryKey
  foreignKeys : List ForeignKey
  isView : Bool

def Table.qualifiedName (table : Table) : String := table.schema ++ "." ++ table.name

def Table.findColumn (table : Table) (name : String) : Option Column :=
  table.columns.find? fun column => column.name == name

abbrev DatabaseSchema := SortedMap String Table

def DatabaseSchema.addTable (schema : DatabaseSchema) (table : Table) : DatabaseSchema :=
  schema.insert table.qualifiedName table

def DatabaseSchema.tables (schema : DatabaseSchema) : List Table := schema.entries.map Prod.snd

structure Postgres where
  table : String
  operation : PostgresOperation
  filter : Option ConstValue
  input : Option String
  batchKey : List String
  limit : Option String
  offset : Option String

structure Link where
  src : String

def database : Payloads :=
  { plain with Resolver := Postgres, Link := Link }

structure Crates where
  camel : String → String
  pascal : String → String
  pluralize : String → String

def fieldOf (typeOf : WrappingType) (args : Dict (Arg database)) (resolvers : List Postgres) : Config.Field database where
  typeOf := typeOf
  args := args
  doc := none
  modify := none
  omission := none
  cache := none
  defaultValue := none
  protectedBy := none
  discriminate := none
  resolvers := resolvers
  directives := []

def argOf (typeOf : WrappingType) : Arg database := ⟨typeOf, none, none, none⟩

def typeOf (fields : Dict (Config.Field database)) : TypeDef database :=
  ⟨fields, [], none, ⟨[], List.nodup_nil⟩, none, none, [], []⟩

def optional (name : String) : WrappingType := .named name false

def required (name : String) : WrappingType := .named name true

def listOf (name : String) : WrappingType := .list (.named name false) true

def template (source name : String) : String :=
  "\x7b\x7b." ++ source ++ "." ++ name ++ "\x7d\x7d"

def scalarType (pg : PgType) : String := pg.graphqlScalar

def columnToGraphqlType (column : Column) : WrappingType :=
  .named (scalarType column.pgType) (!column.isNullable)

def columnToInputType (column : Column) : WrappingType :=
  .named (scalarType column.pgType) (!(column.isNullable || column.hasDefault))

def objectOf (entries : List (String × ConstValue)) : ConstValue :=
  .object (entries.foldl (fun fields entry => Object.insertKey fields entry.1 entry.2) [])

variable (crates : Crates)

def tableToTypeName (tableName : String) : String := crates.pascal tableName

def pluralise (name : String) : String :=
  let plural := crates.pluralize name
  if plural = name then name ++ "List" else plural

def buildFkFilter (sourceColumns targetColumns : List String) : ConstValue :=
  objectOf ((sourceColumns.zip targetColumns).map fun (source, target) =>
    (source, .string (template "value" (crates.camel target))))

def buildPkArgsAndFilter (table : Table) (pk : PrimaryKey) : Dict (Arg database) × ConstValue :=
  (Dict.ofEntries (pk.columns.map fun column =>
      (crates.camel column, argOf (required ((table.findColumn column).elim "ID" fun col => scalarType col.pgType)))),
    objectOf (pk.columns.map fun column => (column, .string (template "args" (crates.camel column)))))

section Output

def columnField (column : Column) : String × Config.Field database :=
  (crates.camel column.name, fieldOf (columnToGraphqlType column) Dict.empty [])

structure Relation where
  baseName : String
  columns : List String
  field : Config.Field database

def Relation.longName (relation : Relation) : String :=
  relation.baseName ++ "By" ++ "And".intercalate (relation.columns.map crates.camel)

def insertRelation (fields : Dict (Config.Field database)) (relation : Relation) : Dict (Config.Field database) :=
  fields.insert (if fields.contains relation.baseName then relation.longName crates else relation.baseName)
    relation.field

def foreignKeyRelation (fk : ForeignKey) : Relation where
  baseName := crates.camel fk.referencedTable
  columns := fk.columns
  field := fieldOf (optional (tableToTypeName crates fk.referencedTable)) Dict.empty
    [⟨fk.referencedTable, .selectOne, some (buildFkFilter crates fk.referencedColumns fk.columns), none,
      fk.referencedColumns, none, none⟩]

def reverseRelation (other : Table) (fk : ForeignKey) : Relation where
  baseName := pluralise crates (crates.camel other.name)
  columns := fk.columns
  field := fieldOf (listOf (tableToTypeName crates other.name)) Dict.empty
    [⟨other.name, .select, some (buildFkFilter crates fk.columns fk.referencedColumns), none,
      fk.columns, none, none⟩]

def refersTo (fk : ForeignKey) (table : Table) : Bool :=
  fk.referencedTable == table.name || fk.referencedTable == table.qualifiedName

def insertReverse (table : Table) (fields : Dict (Config.Field database)) (other : Table) : Dict (Config.Field database) :=
  other.foreignKeys.foldl (fun fields fk =>
    if refersTo fk table then insertRelation crates fields (reverseRelation crates other fk) else fields) fields

def outputType (schema : DatabaseSchema) (table : Table) : TypeDef database :=
  let columns := Dict.ofEntries (table.columns.map (columnField crates))
  let foreign := table.foreignKeys.foldl
    (fun fields fk => insertRelation crates fields (foreignKeyRelation crates fk)) columns
  typeOf (schema.tables.foldl (insertReverse crates table) foreign)

end Output

section Queries

def byIdName (table : Table) : String := crates.camel table.name ++ "ById"

def byIdField (table : Table) (pk : PrimaryKey) : Config.Field database :=
  let (args, filter) := buildPkArgsAndFilter crates table pk
  fieldOf (optional (tableToTypeName crates table.name)) args
    [⟨table.name, .selectOne, some filter, none, [], none, none⟩]

def listName (table : Table) : String := crates.camel table.name ++ "List"

def listField (table : Table) : Config.Field database :=
  fieldOf (listOf (tableToTypeName crates table.name))
    (Dict.ofEntries [("limit", argOf (optional "Int")), ("offset", argOf (optional "Int"))])
    [⟨table.name, .select, none, none, [], some (template "args" "limit"), some (template "args" "offset")⟩]

end Queries

section Mutations

def createName (table : Table) : String := "create" ++ tableToTypeName crates table.name

def updateName (table : Table) : String := "update" ++ tableToTypeName crates table.name

def deleteName (table : Table) : String := "delete" ++ tableToTypeName crates table.name

def createInputName (table : Table) : String := "Create" ++ tableToTypeName crates table.name ++ "Input"

def updateInputName (table : Table) : String := "Update" ++ tableToTypeName crates table.name ++ "Input"

def isPrimary (table : Table) (column : Column) : Bool :=
  table.primaryKey.any fun pk => pk.columns.contains column.name

def createColumns (table : Table) : List Column :=
  table.columns.filter fun column => !column.isGenerated && !(column.hasDefault && isPrimary table column)

def createInputType (table : Table) : TypeDef database :=
  typeOf (Dict.ofEntries ((createColumns table).map fun column =>
    (crates.camel column.name, fieldOf (columnToInputType column) Dict.empty [])))

def createField (table : Table) : Config.Field database :=
  fieldOf (optional (tableToTypeName crates table.name))
    (Dict.ofEntries [("input", argOf (required (createInputName crates table)))])
    [⟨table.name, .insert, none, some (template "args" "input"), [], none, none⟩]

def updateColumns (table : Table) (pk : PrimaryKey) : List Column :=
  table.columns.filter fun column => !column.isGenerated && !pk.columns.contains column.name

def updateInputType (table : Table) (pk : PrimaryKey) : TypeDef database :=
  typeOf (Dict.ofEntries ((updateColumns table pk).map fun column =>
    (crates.camel column.name, fieldOf (optional (scalarType column.pgType)) Dict.empty [])))

def updateField (table : Table) (pk : PrimaryKey) : Config.Field database :=
  let (args, filter) := buildPkArgsAndFilter crates table pk
  fieldOf (optional (tableToTypeName crates table.name))
    (args.insert "input" (argOf (required (updateInputName crates table))))
    [⟨table.name, .update, some filter, some (template "args" "input"), [], none, none⟩]

def deleteField (table : Table) (pk : PrimaryKey) : Config.Field database :=
  let (args, filter) := buildPkArgsAndFilter crates table pk
  fieldOf (optional "Boolean") args [⟨table.name, .delete, some filter, none, [], none, none⟩]

end Mutations

structure Generated where
  types : Dict (TypeDef database)
  queryType : Dict (Config.Field database)
  mutationType : Dict (Config.Field database)

def Generated.addMutations (generated : Generated) (table : Table) : Generated :=
  let types := generated.types.insert (createInputName crates table) (createInputType crates table)
  let mutationType := generated.mutationType.insert (createName crates table) (createField crates table)
  match table.primaryKey with
  | some pk =>
    { generated with
      types := types.insert (updateInputName crates table) (updateInputType crates table pk)
      mutationType := (mutationType.insert (updateName crates table) (updateField crates table pk)).insert
        (deleteName crates table) (deleteField crates table pk) }
  | none => { generated with types := types, mutationType := mutationType }

def Generated.addTable (schema : DatabaseSchema) (generated : Generated) (table : Table) : Generated :=
  let types := generated.types.insert (tableToTypeName crates table.name) (outputType crates schema table)
  let queryType := match table.primaryKey with
    | some pk => generated.queryType.insert (byIdName crates table) (byIdField crates table pk)
    | none => generated.queryType
  let queryType := queryType.insert (listName crates table) (listField crates table)
  let generated := { generated with types := types, queryType := queryType }
  if table.isView then generated else generated.addMutations crates table

def fromDatabase (schema : DatabaseSchema) (connectionUrl : String) : Config database :=
  let generated := schema.tables.foldl (Generated.addTable crates schema) ⟨Dict.empty, Dict.empty, Dict.empty⟩
  { server := ()
    upstream := ()
    schema := ⟨some "Query", some "Mutation", none⟩
    types := (generated.types.insert "Query" (typeOf generated.queryType)).insert "Mutation"
      (typeOf generated.mutationType)
    unions := Dict.empty
    enums := Dict.empty
    links := [⟨connectionUrl⟩]
    telemetry := () }

end Gqlforge.DatabaseConfigs
