import Gqlforge.PostgresParams
import Gqlforge.RequestTemplates
import Gqlforge.SqlTokens
import Gqlforge.StreamDirectives

namespace Gqlforge.PostgresTemplates

open Json Templates RequestTemplates SqlTokens StreamDirectives

inductive ResultMode where
  | rows
  | affectedRows
  deriving DecidableEq

structure RequestTemplate where
  table : String
  operation : PostgresOperation
  filter : Option ConstValue
  input : Option Mustache
  limit : Option Mustache
  offset : Option Mustache
  orderBy : Option Mustache
  columns : List String
  resultMode : ResultMode

structure RenderedQuery where
  sql : String
  params : List (Option String)
  deriving DecidableEq

structure Texts where
  toCamel : String → String
  toUppercase : String → String
  fromStr : String → Except String ConstValue
  json : ConstValue → String

abbrev Entry := String × Option String

def quoteIdent (name : String) : String :=
  String.ofList ('"' :: doubled name.toList ++ ['"'])

def quoteQualifiedIdent (name : String) : String :=
  ".".intercalate ((name.toList.splitOn '.').map fun part => quoteIdent (String.ofList part))

def collect (entries : List (String × ConstValue)) : Object ConstValue :=
  entries.foldl (fun object entry => object.insertKey entry.1 entry.2) []

mutual

def toValue : ConstValue → ConstValue
  | .enum name => .string name
  | .list items => .list (toValues items)
  | .object fields => .object (collect (toFields fields))
  | value => value

def toValues : List ConstValue → List ConstValue
  | [] => []
  | value :: rest => toValue value :: toValues rest

def toFields : List (String × ConstValue) → List (String × ConstValue)
  | [] => []
  | (key, value) :: rest => (key, toValue value) :: toFields rest

end

def rawValueToJson : ValueString → ConstValue
  | .value value _ => toValue value
  | .string text => .string text

section

variable (ctx : RenderContext)

def singleExpression (template : Mustache) : Option ValueString :=
  match template.segments with
  | [.expression path] => ctx.rawValue path
  | _ => none

mutual

def renderJsonValue : ConstValue → ConstValue
  | .object fields => .object (collect (renderJsonFields fields))
  | .list items => .list (renderJsonItems items)
  | .string template =>
    let mustache := Mustache.parse template
    match singleExpression ctx mustache with
    | some value => rawValueToJson value
    | none => .string (mustache.render ctx.toPathContext)
  | value => value

def renderJsonItems : List ConstValue → List ConstValue
  | [] => []
  | value :: rest => renderJsonValue value :: renderJsonItems rest

def renderJsonFields : List (String × ConstValue) → List (String × ConstValue)
  | [] => []
  | (key, value) :: rest => (key, renderJsonValue value) :: renderJsonFields rest

end

end

section

variable (texts : Texts)

def renderInput (ctx : RenderContext) (input : Mustache) : Except String ConstValue :=
  match singleExpression ctx input with
  | some value => .ok (rawValueToJson value)
  | none => match texts.fromStr input.toString with
    | .ok template => .ok (renderJsonValue ctx template)
    | .error error => .error ("Invalid JSON in input/filter: " ++ error)

def parseJsonObject : ConstValue → Except String (List Entry)
  | .object fields => .ok (fields.map fun (key, value) => (key, PostgresParams.paramText texts.json value))
  | value => .error ("Expected JSON object in input/filter, got: " ++ texts.json value)

def resolveColumnName (columns : List String) (name : String) : Except String String :=
  if columns.isEmpty then .ok name
  else if columns.any (· == name) then .ok name
  else match columns.filter (texts.toCamel · == name) with
    | [] => .error ("Unknown column in input/filter: " ++ name)
    | [column] => .ok column
    | _ => .error ("Ambiguous camelCase column in input/filter: " ++ name)

/-! ## ORDER BY -/

def isWhitespace (c : Char) : Bool :=
  (9 ≤ c.toNat && c.toNat ≤ 13) || c.toNat == 0x20 || c.toNat == 0x85 || c.toNat == 0xa0 || c.toNat == 0x1680 ||
    (0x2000 ≤ c.toNat && c.toNat ≤ 0x200a) || c.toNat == 0x2028 || c.toNat == 0x2029 || c.toNat == 0x202f ||
    c.toNat == 0x205f || c.toNat == 0x3000

def splitWhitespace (text : List Char) : List String :=
  ((text.splitOnP isWhitespace).filter (!·.isEmpty)).map String.ofList

def orderByPart (columns : List String) (part : List Char) : Option String :=
  match splitWhitespace part with
  | [] => none
  | name :: rest => match resolveColumnName texts columns name with
    | .error _ => none
    | .ok col =>
      let dir := (rest.head?.map texts.toUppercase).getD ""
      if dir = "ASC" then some (quoteIdent col ++ " ASC")
      else if dir = "DESC" then some (quoteIdent col ++ " DESC")
      else if dir = "" then some (quoteIdent col)
      else none

def sanitizeOrderBy (rendered : String) (columns : List String) : String :=
  if columns.isEmpty then ""
  else ", ".intercalate ((rendered.toList.splitOn ',').filterMap (orderByPart texts columns))

namespace RequestTemplate

variable (template : RequestTemplate) (ctx : RenderContext)

def resolveColumns (entries : List Entry) : Except String (List Entry) :=
  entries.mapM fun entry => do return (← resolveColumnName texts template.columns entry.1, entry.2)

def selectColumns : String :=
  if template.columns.isEmpty then "*"
  else ", ".intercalate (template.columns.flatMap fun column =>
    let quoted := quoteIdent column
    let graphqlName := texts.toCamel column
    if graphqlName = column ∨ template.columns.any (· == graphqlName) then [quoted]
    else [quoted, quoted ++ " AS " ++ quoteIdent graphqlName])

def filterClause (offset : Nat) (state : List (Option String) × List String) (entry : Entry) :
    List (Option String) × List String :=
  let (params, clauses) := state
  match entry.2 with
  | some value =>
    let params := params ++ [some value]
    (params, clauses ++ [quoteIdent entry.1 ++ " = " ++ ("$" ++ toString (offset + params.length))])
  | none => (params, clauses ++ [quoteIdent entry.1 ++ " IS NULL"])

def renderFilter (filter : ConstValue) (offset : Nat) : Except String (String × List (Option String)) := do
  let rendered := renderJsonValue ctx filter
  let entries ← template.resolveColumns texts (← parseJsonObject texts rendered)
  let (params, clauses) := entries.foldl (filterClause offset) ([], [])
  let clause := if clauses.isEmpty then "TRUE" else " AND ".intercalate clauses
  return (clause, params)

def inputEntries (operation : String) : Except String (List Entry) := do
  let input ← match template.input with
    | some input => pure input
    | none => throw (operation ++ " requires input")
  let entries ← template.resolveColumns texts (← parseJsonObject texts (← renderInput texts ctx input))
  if entries.isEmpty then throw (operation ++ " requires at least one field in input")
  return entries

def selectWhere : Except String (String × List (Option String)) := do
  let sql := "SELECT " ++ template.selectColumns texts ++ " FROM " ++ quoteQualifiedIdent template.table
  match template.filter with
  | some filter =>
    let (whereClause, whereParams) ← template.renderFilter texts ctx filter 0
    return (sql ++ " WHERE " ++ whereClause, whereParams)
  | none => return (sql, [])

def orderByClause (sql : String) : String :=
  match template.orderBy with
  | some orderBy =>
    let rendered := orderBy.render ctx.toPathContext
    if rendered.isEmpty then sql
    else
      let sanitized := sanitizeOrderBy texts rendered template.columns
      if sanitized.isEmpty then sql else sql ++ " ORDER BY " ++ sanitized
  | none => sql

def countClause (keyword : String) (count : Option Mustache) (query : RenderedQuery) : RenderedQuery :=
  match count with
  | some count =>
    let rendered := count.render ctx.toPathContext
    if rendered.isEmpty then query
    else
      let params := query.params ++ [some rendered]
      { sql := query.sql ++ keyword ++ ("$" ++ toString params.length), params }
  | none => query

def renderSelect : Except String RenderedQuery := do
  let (sql, params) ← template.selectWhere texts ctx
  let query := { sql := template.orderByClause texts ctx sql, params }
  return countClause ctx " OFFSET " template.offset (countClause ctx " LIMIT " template.limit query)

def renderSelectOne : Except String RenderedQuery := do
  let (sql, params) ← template.selectWhere texts ctx
  return { sql := sql ++ " LIMIT 1", params }

def insertClause (state : List (Option String) × List String) (entry : Entry) : List (Option String) × List String :=
  let params := state.1 ++ [entry.2]
  (params, state.2 ++ ["$" ++ toString params.length])

def renderInsert : Except String RenderedQuery := do
  let entries ← template.inputEntries texts ctx "INSERT"
  let cols := entries.map fun entry => quoteIdent entry.1
  let (params, placeholders) := entries.foldl insertClause ([], [])
  let sql := "INSERT INTO " ++ quoteQualifiedIdent template.table ++ " (" ++ ", ".intercalate cols ++ ") VALUES (" ++
    ", ".intercalate placeholders ++ ")"
  if template.resultMode = .rows then return { sql := sql ++ " RETURNING " ++ template.selectColumns texts, params }
  else return { sql, params }

def setClause (state : List (Option String) × List String) (entry : Entry) : List (Option String) × List String :=
  let params := state.1 ++ [entry.2]
  (params, state.2 ++ [quoteIdent entry.1 ++ " = " ++ ("$" ++ toString params.length)])

def renderUpdate : Except String RenderedQuery := do
  let filter ← match template.filter with
    | some filter => pure filter
    | none => throw "UPDATE without a filter is not allowed (would affect all rows)"
  let entries ← template.inputEntries texts ctx "UPDATE"
  let (params, setClauses) := entries.foldl setClause ([], [])
  let sql := "UPDATE " ++ quoteQualifiedIdent template.table ++ " SET " ++ ", ".intercalate setClauses
  let (whereClause, whereParams) ← template.renderFilter texts ctx filter params.length
  if whereClause = "TRUE" then throw "UPDATE requires at least one filter condition"
  return {
    sql := sql ++ " WHERE " ++ whereClause ++ " RETURNING " ++ template.selectColumns texts
    params := params ++ whereParams }

def renderDelete : Except String RenderedQuery := do
  let filter ← match template.filter with
    | some filter => pure filter
    | none => throw "DELETE without a filter is not allowed (would affect all rows)"
  let sql := "DELETE FROM " ++ quoteQualifiedIdent template.table
  let (whereClause, whereParams) ← template.renderFilter texts ctx filter 0
  if whereClause = "TRUE" then throw "DELETE requires at least one filter condition"
  return { sql := sql ++ " WHERE " ++ whereClause, params := whereParams }

def render : Except String RenderedQuery :=
  match template.operation with
  | .select => template.renderSelect texts ctx
  | .selectOne => template.renderSelectOne texts ctx
  | .insert => template.renderInsert texts ctx
  | .update => template.renderUpdate texts ctx
  | .delete => template.renderDelete texts ctx
  | .listen => .error "LISTEN is a subscription-only operation and must not be rendered as SQL"

end RequestTemplate

end

end Gqlforge.PostgresTemplates
