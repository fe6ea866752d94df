import Gqlforge.PostgresTemplates
import Gqlforge.SqlStatements

namespace Gqlforge.RenderedQueries

open Json Templates RequestTemplates SqlTokens SqlStatements StreamDirectives PostgresTemplates

structure Supplied where
  input : List Entry
  filter : Option (List Entry)
  orderBy : List OrderTerm
  limit : Option String
  offset : Option String

def presentValues (entries : List Entry) : List (Option String) :=
  entries.filterMap fun entry => entry.2.map some

def conditionsOf : Nat → List Entry → List Condition
  | _, [] => []
  | count, (column, some _) :: rest => .equals column (count + 1) :: conditionsOf (count + 1) rest
  | count, (column, none) :: rest => .isNull column :: conditionsOf count rest

def numbersOf (entries : List Entry) : List Nat :=
  List.range' 1 entries.length

namespace Supplied

def params (supplied : Supplied) : List (Option String) :=
  supplied.input.map Prod.snd ++ presentValues (supplied.filter.getD []) ++ supplied.limit.toList.map some ++
    supplied.offset.toList.map some

def filterCount (supplied : Supplied) : Nat :=
  (presentValues (supplied.filter.getD [])).length

end Supplied

section

variable (texts : Texts)

def directionOf (dir : String) : Option (Option Direction) :=
  if dir = "ASC" then some (some .asc)
  else if dir = "DESC" then some (some .desc)
  else if dir = "" then some none
  else none

def orderTerm (columns : List String) (part : List Char) : Option OrderTerm :=
  match splitWhitespace part with
  | [] => none
  | name :: rest => match resolveColumnName texts columns name with
    | .error _ => none
    | .ok col => (directionOf ((rest.head?.map texts.toUppercase).getD "")).map fun direction => (col, direction)

def orderTerms (columns : List String) (rendered : String) : List OrderTerm :=
  if columns.isEmpty then []
  else (rendered.toList.splitOn ',').filterMap (orderTerm texts columns)

def countOf (ctx : RenderContext) (count : Option Mustache) : Option String :=
  count.bind fun count =>
    if (count.render ctx.toPathContext).isEmpty then none else some (count.render ctx.toPathContext)

def tableOf (table : String) : List String :=
  (table.toList.splitOn '.').map String.ofList

variable (template : RequestTemplate) (ctx : RenderContext)

def selectItems : List SelectItem :=
  template.columns.flatMap fun column =>
    if texts.toCamel column = column ∨ template.columns.any (· == texts.toCamel column) then [(column, none)]
    else [(column, none), (column, some (texts.toCamel column))]

def filterEntries (filter : ConstValue) : Except String (List Entry) := do
  template.resolveColumns texts (← parseJsonObject texts (renderJsonValue ctx filter))

def optionalFilter : Except String (Option (List Entry)) :=
  match template.filter with
  | some filter => some <$> filterEntries texts template ctx filter
  | none => .ok none

def requiredFilter (operation : String) (filter : ConstValue) : Except String (List Entry) := do
  let entries ← filterEntries texts template ctx filter
  if entries.isEmpty then throw (operation ++ " requires at least one filter condition")
  return entries

def supplied : Except String Supplied :=
  match template.operation with
  | .select => do
    let filter ← optionalFilter texts template ctx
    return {
      input := []
      filter
      orderBy := (template.orderBy.map fun orderBy =>
        orderTerms texts template.columns (orderBy.render ctx.toPathContext)).getD []
      limit := countOf ctx template.limit
      offset := countOf ctx template.offset }
  | .selectOne => do
    let filter ← optionalFilter texts template ctx
    return { input := [], filter, orderBy := [], limit := none, offset := none }
  | .insert => do
    let input ← template.inputEntries texts ctx "INSERT"
    return { input, filter := none, orderBy := [], limit := none, offset := none }
  | .update => match template.filter with
    | none => throw "UPDATE without a filter is not allowed (would affect all rows)"
    | some filter => do
      let input ← template.inputEntries texts ctx "UPDATE"
      let entries ← requiredFilter texts template ctx "UPDATE" filter
      return { input, filter := some entries, orderBy := [], limit := none, offset := none }
  | .delete => match template.filter with
    | none => throw "DELETE without a filter is not allowed (would affect all rows)"
    | some filter => do
      let entries ← requiredFilter texts template ctx "DELETE" filter
      return { input := [], filter := some entries, orderBy := [], limit := none, offset := none }
  | .listen => .error "LISTEN is a subscription-only operation and must not be rendered as SQL"

def statement (supplied : Supplied) : Statement :=
  let count := supplied.filterCount
  match template.operation with
  | .insert => .insert (tableOf template.table) (supplied.input.map Prod.fst) (numbersOf supplied.input)
      (if template.resultMode = .rows then some (selectItems texts template) else none)
  | .update => .update (tableOf template.table) ((supplied.input.map Prod.fst).zip (numbersOf supplied.input))
      (conditionsOf supplied.input.length (supplied.filter.getD [])) (selectItems texts template)
  | .delete => .delete (tableOf template.table) (conditionsOf 0 (supplied.filter.getD []))
  | .selectOne => .select (selectItems texts template) (tableOf template.table)
      (supplied.filter.map (conditionsOf 0)) [] (some .one) none
  | _ => .select (selectItems texts template) (tableOf template.table) (supplied.filter.map (conditionsOf 0))
      supplied.orderBy (supplied.limit.map fun _ => .placeholder (count + 1))
      (supplied.offset.map fun _ => count + supplied.limit.toList.length + 1)

def queryOf (supplied : Supplied) : RenderedQuery :=
  { sql := (statement texts template supplied).phrase.text, params := supplied.params }

/-! ## The texts of the clauses -/

theorem join_text (gap : Gap) (phrases : List Phrase) :
    (Phrase.join gap phrases).text = gap.text.intercalate (phrases.map Phrase.text) := rfl

theorem comma_text : Gap.comma.text = ", " := by decide

theorem equals_text : Gap.equals.text = " = " := by decide

theorem opening_text : Gap.opening.text = " (" := by decide

theorem values_text : Gap.values.text = ") VALUES (" := by
  change String.singleton ')' ++ " VALUES " ++ String.singleton '(' = ") VALUES ("
  decide

theorem closing_text : Gap.closing.text = ")" := by decide

theorem dot_text : Gap.dot.text = "." := by decide

theorem quoteQualifiedIdent_eq (table : String) : quoteQualifiedIdent table = (tablePhrase (tableOf table)).text := by
  rw [tablePhrase, join_text, dot_text, tableOf, List.map_map, List.map_map]
  rfl

theorem selectItems_eq_nil : selectItems texts template = [] ↔ template.columns = [] := by
  rw [selectItems, List.flatMap_eq_nil_iff]
  constructor
  · intro h
    cases hcolumns : template.columns with
    | nil => rfl
    | cons column columns =>
      have hfirst := h column (hcolumns ▸ List.mem_cons_self)
      split at hfirst <;> cases hfirst
  · intro h
    rw [h]
    nofun

theorem selectColumns_eq : template.selectColumns texts = (selectPhrase (selectItems texts template)).text := by
  rw [RequestTemplate.selectColumns, selectPhrase]
  by_cases hcolumns : template.columns = []
  · rw [if_pos (List.isEmpty_iff.mpr hcolumns), if_pos ((selectItems_eq_nil texts template).mpr hcolumns)]
    decide
  · rw [if_neg (mt List.isEmpty_iff.mp hcolumns), if_neg (mt (selectItems_eq_nil texts template).mp hcolumns),
      join_text, comma_text, selectItems, List.map_map, List.map_flatMap]
    congr 2
    funext column
    dsimp only
    split <;> rfl

theorem presentValues_cons (entry : Entry) (entries : List Entry) :
    presentValues (entry :: entries) = (entry.2.map some).toList ++ presentValues entries := by
  rw [presentValues, List.filterMap_cons]
  cases entry.2 <;> rfl

theorem filterClause_fold (offset : Nat) (entries : List Entry) (params : List (Option String))
    (clauses : List String) :
    entries.foldl (RequestTemplate.filterClause offset) (params, clauses) =
      (params ++ presentValues entries,
        clauses ++ (conditionsOf (offset + params.length) entries).map fun condition => condition.phrase.text) := by
  induction entries generalizing params clauses with
  | nil => simp [presentValues, conditionsOf]
  | cons entry entries ih =>
    obtain ⟨column, value⟩ := entry
    rw [presentValues_cons]
    cases value with
    | none =>
      rw [List.foldl_cons]
      refine (ih params (clauses ++ [quoteIdent column ++ " IS NULL"])).trans ?_
      rw [conditionsOf, List.map_cons, List.append_assoc]
      have htext : quoteIdent column ++ " IS NULL" = (Condition.isNull column).phrase.text := by
        have hword : " IS NULL" = " IS " ++ "NULL" := by decide
        rw [hword, ← String.append_assoc]
        rfl
      rw [htext]
      rfl
    | some value =>
      rw [List.foldl_cons]
      refine (ih (params ++ [some value]) _).trans ?_
      rw [conditionsOf, List.map_cons, List.append_assoc, List.append_assoc, List.length_append, List.length_singleton,
        Nat.add_assoc]
      have htext (number : Nat) : quoteIdent column ++ " = " ++ ("$" ++ toString number) =
          (Condition.equals column number).phrase.text := by
        rw [← equals_text]
        rfl
      rw [htext]
      rfl

theorem insertClause_fold (entries : List Entry) (params : List (Option String)) (placeholders : List String) :
    entries.foldl RequestTemplate.insertClause (params, placeholders) =
      (params ++ entries.map Prod.snd, placeholders ++
        (List.range' (params.length + 1) entries.length).map fun number => (Phrase.placeholder number).text) := by
  induction entries generalizing params placeholders with
  | nil => simp
  | cons entry entries ih =>
    rw [List.foldl_cons]
    refine (ih (params ++ [entry.2]) _).trans ?_
    rw [List.length_cons, List.range'_succ, List.map_cons, List.map_cons, List.append_assoc, List.append_assoc,
      List.length_append, List.length_singleton]
    rfl

theorem setClause_fold (entries : List Entry) (params : List (Option String)) (clauses : List String) :
    entries.foldl RequestTemplate.setClause (params, clauses) =
      (params ++ entries.map Prod.snd, clauses ++
        ((entries.map Prod.fst).zip (List.range' (params.length + 1) entries.length)).map fun assignment =>
          (assignmentPhrase assignment).text) := by
  induction entries generalizing params clauses with
  | nil => simp
  | cons entry entries ih =>
    rw [List.foldl_cons]
    refine (ih (params ++ [entry.2]) _).trans ?_
    rw [List.length_cons, List.range'_succ, List.map_cons, List.map_cons, List.zip_cons_cons, List.map_cons,
      List.append_assoc, List.append_assoc, List.length_append, List.length_singleton]
    have htext (number : Nat) : quoteIdent entry.1 ++ " = " ++ ("$" ++ toString number) =
        (assignmentPhrase (entry.1, number)).text := by
      rw [← equals_text]
      rfl
    rw [htext]
    rfl

theorem join_tokens_cons (gap : Gap) (phrase : Phrase) (phrases : List Phrase) :
    ∃ more, (Phrase.join gap (phrase :: phrases)).tokens = phrase.tokens ++ more := by
  cases phrases with
  | nil =>
    refine ⟨[], ?_⟩
    rw [List.append_nil]
    change gap.tokens.intercalate [phrase.tokens] = phrase.tokens
    exact List.intercalate_singleton
  | cons next phrases => exact ⟨_, List.intercalate_cons_cons.trans (List.append_assoc ..)⟩

theorem tokens_eq_of_text_eq {phrase phrase' : Phrase} (h : phrase.text = phrase'.text) :
    phrase.tokens = phrase'.tokens := by
  have hlex := phrase.spells.lex
  rw [h, phrase'.spells.lex] at hlex
  exact (Option.some.inj hlex).symm

theorem condition_tokens (condition : Condition) : ∃ name more, condition.phrase.tokens = .quoted name :: more := by
  cases condition with
  | equals column number => exact ⟨column, _, rfl⟩
  | isNull column => exact ⟨column, _, rfl⟩

theorem conditionsPhrase_true {conditions : List Condition} :
    (conditionsPhrase conditions).text = "TRUE" ↔ conditions = [] := by
  constructor
  · intro h
    cases conditions with
    | nil => rfl
    | cons condition conditions =>
      have htokens : _ = (Phrase.word "TRUE" (by decide)).tokens := tokens_eq_of_text_eq h
      obtain ⟨more, hjoin⟩ := join_tokens_cons (.words " AND " ["AND"] (by decide) (by decide)) condition.phrase
        (conditions.map Condition.phrase)
      obtain ⟨name, rest, hcondition⟩ := condition_tokens condition
      have hphrase : (conditionsPhrase (condition :: conditions)).tokens = .quoted name :: (rest ++ more) := by
        rw [conditionsPhrase, if_neg (List.cons_ne_nil _ _), List.map_cons, hjoin, hcondition]
        rfl
      rw [hphrase] at htokens
      cases htokens
  · rintro rfl
    rfl

theorem conditionsOf_eq_nil {count : Nat} {entries : List Entry} : conditionsOf count entries = [] ↔ entries = [] := by
  cases entries with
  | nil => exact iff_of_true rfl rfl
  | cons entry entries =>
    obtain ⟨column, value⟩ := entry
    cases value <;> exact iff_of_false nofun nofun

theorem filterClause_text (offset : Nat) (entries : List Entry) :
    (let (params, clauses) := entries.foldl (RequestTemplate.filterClause offset) ([], [])
      let clause := if clauses.isEmpty then "TRUE" else " AND ".intercalate clauses
      (clause, params)) = ((conditionsPhrase (conditionsOf offset entries)).text, presentValues entries) := by
  rw [filterClause_fold]
  simp only [List.nil_append, List.length_nil, Nat.add_zero, List.isEmpty_iff, List.map_eq_nil_iff]
  by_cases hnil : conditionsOf offset entries = []
  · rw [if_pos hnil, hnil]
    rfl
  · rw [if_neg hnil, conditionsPhrase, if_neg hnil, join_text, List.map_map]
    rfl

theorem renderFilter_eq (filter : ConstValue) (offset : Nat) : template.renderFilter texts ctx filter offset =
    (filterEntries texts template ctx filter).map fun entries =>
      ((conditionsPhrase (conditionsOf offset entries)).text, presentValues entries) := by
  rw [RequestTemplate.renderFilter, filterEntries]
  cases parseJsonObject texts (renderJsonValue ctx filter) with
  | error error => rfl
  | ok fields =>
    change (template.resolveColumns texts fields >>= fun entries => Except.ok _) =
      Except.map _ (template.resolveColumns texts fields)
    cases template.resolveColumns texts fields with
    | error error => rfl
    | ok entries => exact congrArg Except.ok (filterClause_text offset entries)

theorem directionOf_text (col dir : String) :
    (if dir = "ASC" then some (quoteIdent col ++ " ASC")
      else if dir = "DESC" then some (quoteIdent col ++ " DESC")
      else if dir = "" then some (quoteIdent col)
      else none) = (directionOf dir).map fun direction => (OrderTerm.phrase (col, direction)).text := by
  have hasc : quoteIdent col ++ " ASC" = (OrderTerm.phrase (col, some .asc)).text := by
    have hword : " ASC" = " " ++ "ASC" := by decide
    rw [hword, ← String.append_assoc]
    rfl
  have hdesc : quoteIdent col ++ " DESC" = (OrderTerm.phrase (col, some .desc)).text := by
    have hword : " DESC" = " " ++ "DESC" := by decide
    rw [hword, ← String.append_assoc]
    rfl
  rw [directionOf, hasc, hdesc]
  split_ifs <;> rfl

theorem orderByPart_eq (columns : List String) (part : List Char) : orderByPart texts columns part =
    (orderTerm texts columns part).map fun term => term.phrase.text := by
  rw [orderByPart, orderTerm]
  cases splitWhitespace part with
  | nil => rfl
  | cons name rest =>
    dsimp only
    cases resolveColumnName texts columns name with
    | error error => rfl
    | ok col =>
      dsimp only
      rw [directionOf_text, Option.map_map]
      rfl

theorem sanitizeOrderBy_eq (columns : List String) (rendered : String) : sanitizeOrderBy texts rendered columns =
    ", ".intercalate ((orderTerms texts columns rendered).map fun term => term.phrase.text) := by
  rw [sanitizeOrderBy, orderTerms]
  split
  · exact String.intercalate_nil.symm
  · rw [List.map_filterMap]
    simp only [← orderByPart_eq]

theorem join_isEmpty (gap : Gap) {phrases : List Phrase} (hne : phrases ≠ [])
    (h : ∀ phrase ∈ phrases, phrase.tokens ≠ []) : (Phrase.join gap phrases).text.isEmpty = false := by
  rw [String.isEmpty_eq_false_iff]
  intro hempty
  obtain ⟨phrase, phrases, rfl⟩ := List.exists_cons_of_ne_nil hne
  obtain ⟨more, hjoin⟩ := join_tokens_cons gap phrase phrases
  have htokens : _ = (Phrase.mk "" [] spells_nil).tokens := tokens_eq_of_text_eq hempty
  rw [hjoin] at htokens
  exact h phrase List.mem_cons_self (List.append_eq_nil_iff.mp htokens).1

theorem term_tokens (term : OrderTerm) : term.phrase.tokens ≠ [] := by
  obtain ⟨column, direction⟩ := term
  cases direction <;> exact List.cons_ne_nil _ _

def termsOf : List OrderTerm :=
  (template.orderBy.map fun orderBy => orderTerms texts template.columns (orderBy.render ctx.toPathContext)).getD []

theorem orderTerms_empty (columns : List String) : orderTerms texts columns "" = [] := by
  rw [orderTerms]
  split
  · rfl
  · have hsplit : "".toList.splitOn ',' = [[]] := by decide
    have hnone : orderTerm texts columns [] = none := rfl
    rw [hsplit, List.filterMap_cons, hnone, List.filterMap_nil]

theorem orderByClause_eq (sql : String) : template.orderByClause texts ctx sql =
    match orderPhrase (termsOf texts template ctx) with
    | some phrase => sql ++ " ORDER BY " ++ phrase.text
    | none => sql := by
  rw [RequestTemplate.orderByClause, termsOf]
  cases template.orderBy with
  | none => rfl
  | some orderBy =>
    rw [Option.map_some, Option.getD_some]
    dsimp only
    generalize orderBy.render ctx.toPathContext = rendered
    by_cases hrendered : rendered.isEmpty = true
    · rw [if_pos hrendered, String.isEmpty_iff.mp hrendered, orderTerms_empty]
      rfl
    · rw [if_neg hrendered, sanitizeOrderBy_eq]
      cases hterms : orderTerms texts template.columns rendered with
      | nil => rfl
      | cons term terms =>
        have htext : ", ".intercalate ((term :: terms).map fun term => term.phrase.text) =
            (Phrase.join .comma ((term :: terms).map OrderTerm.phrase)).text := by
          rw [join_text, comma_text, List.map_map]
          rfl
        have hphrases : ∀ phrase ∈ (term :: terms).map OrderTerm.phrase, phrase.tokens ≠ [] := by
          intro phrase hphrase
          obtain ⟨term', _, rfl⟩ := List.mem_map.mp hphrase
          exact term_tokens term'
        have hne : (term :: terms).map OrderTerm.phrase ≠ [] := List.cons_ne_nil _ _
        have hfilled := join_isEmpty .comma hne hphrases
        rw [htext, hfilled, if_neg Bool.false_ne_true]
        rfl

theorem countClause_eq (keyword : String) (count : Option Mustache) (query : RenderedQuery) :
    RequestTemplate.countClause ctx keyword count query =
      match countOf ctx count with
      | some value => {
          sql := query.sql ++ keyword ++ (Phrase.placeholder (query.params.length + 1)).text
          params := query.params ++ [some value] }
      | none => query := by
  cases count with
  | none => rfl
  | some count =>
    rw [RequestTemplate.countClause, countOf, Option.bind_some]
    dsimp only
    split
    · rfl
    · dsimp only
      rw [List.length_append, List.length_singleton]
      rfl

theorem insert_text (entries : List Entry) : "INSERT INTO " ++ quoteQualifiedIdent template.table ++ " (" ++
      ", ".intercalate (entries.map fun entry => quoteIdent entry.1) ++ ") VALUES (" ++
      ", ".intercalate ((numbersOf entries).map fun number => (Phrase.placeholder number).text) ++ ")" =
    (Statement.insert (tableOf template.table) (entries.map Prod.fst) (numbersOf entries) none).phrase.text := by
  have hcols : ", ".intercalate (entries.map fun entry => quoteIdent entry.1) =
      (Phrase.join .comma ((entries.map Prod.fst).map .quoted)).text := by
    rw [join_text, comma_text, List.map_map, List.map_map]
    rfl
  have hvalues : ", ".intercalate ((numbersOf entries).map fun number => (Phrase.placeholder number).text) =
      (Phrase.join .comma ((numbersOf entries).map .placeholder)).text := by
    rw [join_text, comma_text, List.map_map]
    rfl
  rw [hcols, hvalues, quoteQualifiedIdent_eq, ← opening_text, ← values_text, ← closing_text]
  rfl

theorem insert_fold (entries : List Entry) : entries.foldl RequestTemplate.insertClause ([], []) =
    (entries.map Prod.snd, (numbersOf entries).map fun number => (Phrase.placeholder number).text) :=
  insertClause_fold entries [] []

theorem set_fold (entries : List Entry) : entries.foldl RequestTemplate.setClause ([], []) =
    (entries.map Prod.snd, ((entries.map Prod.fst).zip (numbersOf entries)).map fun assignment =>
      (assignmentPhrase assignment).text) :=
  setClause_fold entries [] []

theorem render_insert (h : template.operation = .insert) :
    template.render texts ctx = (supplied texts template ctx).map (queryOf texts template) := by
  rw [RequestTemplate.render, supplied, h]
  dsimp only
  rw [RequestTemplate.renderInsert]
  cases template.inputEntries texts ctx "INSERT" with
  | error error => rfl
  | ok entries =>
    have hparams : (Supplied.mk entries none [] none none).params = entries.map Prod.snd := by
      simp [Supplied.params, presentValues]
    simp only [bind, Except.bind, pure, Except.pure, insert_fold, insert_text, Except.map, queryOf, statement, h,
      hparams]
    split
    · rw [selectColumns_eq]
      rfl
    · rfl

theorem update_text (entries : List Entry) (conditions : List Condition) :
    "UPDATE " ++ quoteQualifiedIdent template.table ++ " SET " ++
      ", ".intercalate (((entries.map Prod.fst).zip (numbersOf entries)).map fun assignment =>
        (assignmentPhrase assignment).text) ++ " WHERE " ++ (conditionsPhrase conditions).text ++ " RETURNING " ++
      template.selectColumns texts =
    (Statement.update (tableOf template.table) ((entries.map Prod.fst).zip (numbersOf entries)) conditions
      (selectItems texts template)).phrase.text := by
  have hassigned : ", ".intercalate (((entries.map Prod.fst).zip (numbersOf entries)).map fun assignment =>
        (assignmentPhrase assignment).text) =
      (Phrase.join .comma (((entries.map Prod.fst).zip (numbersOf entries)).map assignmentPhrase)).text := by
    rw [join_text, comma_text, List.map_map]
    rfl
  rw [hassigned, quoteQualifiedIdent_eq, selectColumns_eq]
  rfl

theorem isEmpty_condition (entries : List Entry) (offset : Nat) :
    (conditionsPhrase (conditionsOf offset entries)).text = "TRUE" ↔ entries.isEmpty = true := by
  rw [conditionsPhrase_true, conditionsOf_eq_nil, List.isEmpty_iff]

theorem render_update (h : template.operation = .update) :
    template.render texts ctx = (supplied texts template ctx).map (queryOf texts template) := by
  rw [RequestTemplate.render, supplied, h]
  dsimp only
  rw [RequestTemplate.renderUpdate]
  cases template.filter with
  | none => rfl
  | some filter =>
    dsimp only
    cases template.inputEntries texts ctx "UPDATE" with
    | error error => rfl
    | ok input =>
      simp only [bind, Except.bind, pure, Except.pure, set_fold, renderFilter_eq, requiredFilter, List.length_map]
      cases filterEntries texts template ctx filter with
      | error error => rfl
      | ok entries =>
        simp only [Except.map, isEmpty_condition]
        by_cases hempty : entries.isEmpty = true
        · rw [if_pos hempty, if_pos hempty]
          rfl
        · rw [if_neg hempty, if_neg hempty]
          have hparams : (Supplied.mk input (some entries) [] none none).params =
              input.map Prod.snd ++ presentValues entries := by
            simp [Supplied.params]
          simp only [queryOf, statement, h, hparams, update_text]
          rfl

theorem delete_text (conditions : List Condition) :
    "DELETE FROM " ++ quoteQualifiedIdent template.table ++ " WHERE " ++ (conditionsPhrase conditions).text =
      (Statement.delete (tableOf template.table) conditions).phrase.text := by
  rw [quoteQualifiedIdent_eq]
  rfl

theorem render_delete (h : template.operation = .delete) :
    template.render texts ctx = (supplied texts template ctx).map (queryOf texts template) := by
  rw [RequestTemplate.render, supplied, h]
  dsimp only
  rw [RequestTemplate.renderDelete]
  cases template.filter with
  | none => rfl
  | some filter =>
    simp only [bind, Except.bind, pure, Except.pure, renderFilter_eq, requiredFilter]
    cases filterEntries texts template ctx filter with
    | error error => rfl
    | ok entries =>
      simp only [Except.map, isEmpty_condition]
      by_cases hempty : entries.isEmpty = true
      · rw [if_pos hempty, if_pos hempty]
        rfl
      · rw [if_neg hempty, if_neg hempty]
        have hparams : (Supplied.mk [] (some entries) [] none none).params = presentValues entries := by
          simp [Supplied.params]
        simp only [queryOf, statement, h, hparams, delete_text]
        rfl

def basePhrase (filter : Option (List Entry)) : Phrase :=
  (((selectPhrase (selectItems texts template)).opened selecting).next
    fromTable (tablePhrase (tableOf template.table))).nextIfAny
    filtered ((filter.map (conditionsOf 0)).map conditionsPhrase)

theorem selectWhere_eq : template.selectWhere texts ctx = (optionalFilter texts template ctx).map fun filter =>
    ((basePhrase texts template filter).text, presentValues (filter.getD [])) := by
  have hbase : "SELECT " ++ template.selectColumns texts ++ " FROM " ++ quoteQualifiedIdent template.table =
      (basePhrase texts template none).text := by
    rw [selectColumns_eq, quoteQualifiedIdent_eq]
    rfl
  rw [RequestTemplate.selectWhere, optionalFilter, hbase]
  cases template.filter with
  | none => rfl
  | some filter =>
    simp only [bind, Except.bind, pure, Except.pure, renderFilter_eq, Functor.map]
    cases filterEntries texts template ctx filter <;> rfl

theorem nextIfAny_text (phrase : Phrase) (gap : Gap) (phrase' : Option Phrase) :
    (phrase.nextIfAny gap phrase').text = match phrase' with
      | some phrase' => phrase.text ++ gap.text ++ phrase'.text
      | none => phrase.text := by
  cases phrase' <;> rfl

theorem countClause_text (keyword : String) (gap : Gap) (hgap : gap.text = keyword) (count : Option Mustache)
    (phrase : Phrase) (params : List (Option String)) :
    RequestTemplate.countClause ctx keyword count { sql := phrase.text, params } = {
      sql := (phrase.nextIfAny gap ((countOf ctx count).map fun _ => .placeholder (params.length + 1))).text
      params := params ++ (countOf ctx count).toList.map some } := by
  rw [countClause_eq]
  cases countOf ctx count with
  | none =>
    rw [Option.toList_none, List.map_nil, List.append_nil]
    rfl
  | some value =>
    rw [← hgap]
    rfl

theorem select_phrase (filter : Option (List Entry)) (terms : List OrderTerm) (limit offset : Option String)
    (number number' : Nat) :
    (Statement.select (selectItems texts template) (tableOf template.table) (filter.map (conditionsOf 0)) terms
      (limit.map fun _ => .placeholder number) (offset.map fun _ => number')).phrase =
    (((basePhrase texts template filter).nextIfAny (.words " ORDER BY " ["ORDER", "BY"] (by decide) (by decide))
      (orderPhrase terms)).nextIfAny (.words " LIMIT " ["LIMIT"] (by decide) (by decide))
      (limit.map fun _ => .placeholder number)).nextIfAny (.words " OFFSET " ["OFFSET"] (by decide) (by decide))
      (offset.map fun _ => .placeholder number') := by
  cases limit <;> cases offset <;> rfl

theorem render_select (h : template.operation = .select) :
    template.render texts ctx = (supplied texts template ctx).map (queryOf texts template) := by
  rw [RequestTemplate.render, supplied, h]
  dsimp only
  rw [RequestTemplate.renderSelect, selectWhere_eq]
  cases optionalFilter texts template ctx with
  | error error => rfl
  | ok filter =>
    have horder : template.orderByClause texts ctx (basePhrase texts template filter).text =
        ((basePhrase texts template filter).nextIfAny (.words " ORDER BY " ["ORDER", "BY"] (by decide) (by decide))
          (orderPhrase (termsOf texts template ctx))).text := by
      rw [orderByClause_eq, nextIfAny_text]
      rfl
    simp only [bind, Except.bind, pure, Except.pure, Except.map, horder]
    rw [countClause_text ctx " LIMIT " (.words " LIMIT " ["LIMIT"] (by decide) (by decide)) rfl,
      countClause_text ctx " OFFSET " (.words " OFFSET " ["OFFSET"] (by decide) (by decide)) rfl]
    simp only [queryOf, statement, h, Supplied.params, Supplied.filterCount, List.map_nil, List.nil_append,
      List.length_append, List.length_map, select_phrase]
    rfl

theorem render_selectOne (h : template.operation = .selectOne) :
    template.render texts ctx = (supplied texts template ctx).map (queryOf texts template) := by
  rw [RequestTemplate.render, supplied, h]
  dsimp only
  rw [RequestTemplate.renderSelectOne, selectWhere_eq]
  cases optionalFilter texts template ctx with
  | error error => rfl
  | ok filter =>
    have hlimit : (basePhrase texts template filter).text ++ " LIMIT 1" =
        ((basePhrase texts template filter).next (.words " LIMIT " ["LIMIT"] (by decide) (by decide))
          (.number 1)).text := by
      have hone : " LIMIT 1" = " LIMIT " ++ toString 1 := by decide
      rw [hone, ← String.append_assoc]
      rfl
    have hparams : (Supplied.mk [] filter [] none none).params = presentValues (filter.getD []) := by
      simp [Supplied.params]
    simp only [bind, Except.bind, pure, Except.pure, Except.map, hlimit, queryOf, statement, h, hparams]
    rfl

theorem render_eq : template.render texts ctx = (supplied texts template ctx).map (queryOf texts template) := by
  cases h : template.operation with
  | select => exact render_select texts template ctx h
  | selectOne => exact render_selectOne texts template ctx h
  | insert => exact render_insert texts template ctx h
  | update => exact render_update texts template ctx h
  | delete => exact render_delete texts template ctx h
  | listen =>
    rw [RequestTemplate.render, supplied, h]
    rfl

end

/-! ## What is supplied -/

section

variable (texts : Texts) (template : RequestTemplate) (ctx : RenderContext)

inductive Supplies : Supplied → Prop where
  | select {filter : Option (List Entry)} (hoperation : template.operation = .select)
      (hfilter : optionalFilter texts template ctx = .ok filter) :
      Supplies ⟨[], filter, termsOf texts template ctx, countOf ctx template.limit, countOf ctx template.offset⟩
  | selectOne {filter : Option (List Entry)} (hoperation : template.operation = .selectOne)
      (hfilter : optionalFilter texts template ctx = .ok filter) : Supplies ⟨[], filter, [], none, none⟩
  | insert {input : List Entry} (hoperation : template.operation = .insert)
      (hinput : template.inputEntries texts ctx "INSERT" = .ok input) : Supplies ⟨input, none, [], none, none⟩
  | update {filter : ConstValue} {input entries : List Entry} (hoperation : template.operation = .update)
      (hfilter : template.filter = some filter) (hinput : template.inputEntries texts ctx "UPDATE" = .ok input)
      (hentries : requiredFilter texts template ctx "UPDATE" filter = .ok entries) :
      Supplies ⟨input, some entries, [], none, none⟩
  | delete {filter : ConstValue} {entries : List Entry} (hoperation : template.operation = .delete)
      (hfilter : template.filter = some filter)
      (hentries : requiredFilter texts template ctx "DELETE" filter = .ok entries) :
      Supplies ⟨[], some entries, [], none, none⟩

variable {texts template ctx}

theorem supplies_of_supplied {given : Supplied} (h : supplied texts template ctx = .ok given) :
    Supplies texts template ctx given := by
  rw [supplied] at h
  cases hoperation : template.operation with
  | select =>
    simp only [hoperation] at h
    cases hfilter : optionalFilter texts template ctx with
    | error error =>
      rw [hfilter] at h
      cases h
    | ok filter =>
      rw [hfilter] at h
      cases h
      exact .select hoperation hfilter
  | selectOne =>
    simp only [hoperation] at h
    cases hfilter : optionalFilter texts template ctx with
    | error error =>
      rw [hfilter] at h
      cases h
    | ok filter =>
      rw [hfilter] at h
      cases h
      exact .selectOne hoperation hfilter
  | insert =>
    simp only [hoperation] at h
    cases hinput : template.inputEntries texts ctx "INSERT" with
    | error error =>
      rw [hinput] at h
      cases h
    | ok input =>
      rw [hinput] at h
      cases h
      exact .insert hoperation hinput
  | update =>
    simp only [hoperation] at h
    cases hfilter : template.filter with
    | none =>
      rw [hfilter] at h
      cases h
    | some filter =>
      simp only [hfilter] at h
      cases hinput : template.inputEntries texts ctx "UPDATE" with
      | error error =>
        rw [hinput] at h
        cases h
      | ok input =>
        rw [hinput] at h
        cases hentries : requiredFilter texts template ctx "UPDATE" filter with
        | error error =>
          simp only [hentries] at h
          cases h
        | ok entries =>
          simp only [hentries] at h
          cases h
          exact .update hoperation hfilter hinput hentries
  | delete =>
    simp only [hoperation] at h
    cases hfilter : template.filter with
    | none =>
      rw [hfilter] at h
      cases h
    | some filter =>
      simp only [hfilter] at h
      cases hentries : requiredFilter texts template ctx "DELETE" filter with
      | error error =>
        rw [hentries] at h
        cases h
      | ok entries =>
        rw [hentries] at h
        cases h
        exact .delete hoperation hfilter hentries
  | listen =>
    simp only [hoperation] at h
    cases h

theorem render_ok {query : RenderedQuery} (h : template.render texts ctx = .ok query) :
    ∃ given, Supplies texts template ctx given ∧ query = queryOf texts template given := by
  rw [render_eq] at h
  cases hgiven : supplied texts template ctx with
  | error error =>
    rw [hgiven] at h
    cases h
  | ok given =>
    rw [hgiven] at h
    cases h
    exact ⟨given, supplies_of_supplied hgiven, rfl⟩

theorem statement_insert (h : template.operation = .insert) (input : List Entry) :
    statement texts template ⟨input, none, [], none, none⟩ =
      .insert (tableOf template.table) (input.map Prod.fst) (numbersOf input)
        (if template.resultMode = .rows then some (selectItems texts template) else none) := by
  simp only [statement, h]

theorem statement_update (h : template.operation = .update) (input entries : List Entry) :
    statement texts template ⟨input, some entries, [], none, none⟩ =
      .update (tableOf template.table) ((input.map Prod.fst).zip (numbersOf input))
        (conditionsOf input.length entries) (selectItems texts template) := by
  simp only [statement, h]
  rfl

theorem statement_delete (h : template.operation = .delete) (entries : List Entry) :
    statement texts template ⟨[], some entries, [], none, none⟩ =
      .delete (tableOf template.table) (conditionsOf 0 entries) := by
  simp only [statement, h]
  rfl

def Resolves (texts : Texts) (columns : List String) (field : String × ConstValue) (entry : Entry) : Prop :=
  resolveColumnName texts columns field.1 = .ok entry.1 ∧ entry.2 = PostgresParams.paramText texts.json field.2

variable {entries : List Entry}

theorem resolveColumns_ok {fields : List (String × ConstValue)} (h : template.resolveColumns texts
      (fields.map fun (key, value) => (key, PostgresParams.paramText texts.json value)) = .ok entries) :
    List.Forall₂ (Resolves texts template.columns) fields entries := by
  induction fields generalizing entries with
  | nil =>
    cases h
    exact .nil
  | cons field fields ih =>
    rw [RequestTemplate.resolveColumns, List.map_cons, List.mapM_cons] at h
    cases hcolumn : resolveColumnName texts template.columns field.1 with
    | error error =>
      simp only [hcolumn] at h
      cases h
    | ok column =>
      simp only [hcolumn] at h
      cases hrest : template.resolveColumns texts
          (fields.map fun (key, value) => (key, PostgresParams.paramText texts.json value)) with
      | error error =>
        rw [RequestTemplate.resolveColumns] at hrest
        rw [hrest] at h
        cases h
      | ok rest =>
        have hentries := ih hrest
        rw [RequestTemplate.resolveColumns] at hrest
        rw [hrest] at h
        cases h
        exact .cons ⟨hcolumn, rfl⟩ hentries

theorem filterEntries_ok {filter : ConstValue} (h : filterEntries texts template ctx filter = .ok entries) :
    ∃ fields, renderJsonValue ctx filter = .object fields ∧
      List.Forall₂ (Resolves texts template.columns) fields entries := by
  rw [filterEntries] at h
  cases hrendered : renderJsonValue ctx filter with
  | object fields =>
    rw [hrendered] at h
    exact ⟨fields, rfl, resolveColumns_ok h⟩
  | _ =>
    rw [hrendered] at h
    cases h

theorem requiredFilter_ok {operation : String} {filter : ConstValue}
    (h : requiredFilter texts template ctx operation filter = .ok entries) :
    filterEntries texts template ctx filter = .ok entries ∧ entries ≠ [] := by
  rw [requiredFilter] at h
  cases hentries : filterEntries texts template ctx filter with
  | error error =>
    rw [hentries] at h
    cases h
  | ok entries' =>
    rw [hentries] at h
    cases entries' with
    | nil => cases h
    | cons entry rest =>
      cases h
      exact ⟨rfl, List.cons_ne_nil _ _⟩

theorem inputEntries_ok {operation : String}
    (h : template.inputEntries texts ctx operation = .ok entries) : ∃ input fields, template.input = some input ∧
      renderInput texts ctx input = .ok (.object fields) ∧
      List.Forall₂ (Resolves texts template.columns) fields entries ∧ entries ≠ [] := by
  rw [RequestTemplate.inputEntries] at h
  cases hinput : template.input with
  | none =>
    simp only [hinput] at h
    cases h
  | some input =>
    simp only [hinput, bind, Except.bind, pure, Except.pure] at h
    cases hrendered : renderInput texts ctx input with
    | error error =>
      rw [hrendered] at h
      cases h
    | ok value =>
      rw [hrendered] at h
      cases value with
      | object fields =>
        cases hentries : template.resolveColumns texts
            (fields.map fun (key, value) => (key, PostgresParams.paramText texts.json value)) with
        | error error =>
          simp only [parseJsonObject, hentries] at h
          cases h
        | ok entries' =>
          simp only [parseJsonObject, hentries] at h
          cases entries' with
          | nil => cases h
          | cons entry rest =>
            cases h
            exact ⟨input, fields, rfl, hrendered, resolveColumns_ok hentries, List.cons_ne_nil _ _⟩
      | _ => cases h

end

end Gqlforge.RenderedQueries
