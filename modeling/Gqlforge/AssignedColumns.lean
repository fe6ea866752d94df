import Gqlforge.NumberedParams

namespace Gqlforge.AssignedColumns

open Json RequestTemplates SqlTokens SqlStatements StreamDirectives PostgresTemplates RenderedQueries NumberedParams

/-! ## The columns of a text -/

def quotedNames (tokens : List Token) : List String :=
  tokens.filterMap fun
    | .quoted name => some name
    | _ => none

def between (start stop : Token) (tokens : List Token) : List Token :=
  ((tokens.dropWhile (· != start)).drop 1).takeWhile (· != stop)

def assignedColumns : PostgresOperation → List Token → List String
  | .insert, tokens => quotedNames (between (.symbol '(') (.symbol ')') tokens)
  | .update, tokens => quotedNames (between (.word "SET") (.word "WHERE") tokens)
  | _, _ => []

theorem between_append {start stop : Token} {before middle after : List Token} (hbefore : ∀ token ∈ before, token ≠ start)
    (hmiddle : ∀ token ∈ middle, token ≠ stop) :
    between start stop (before ++ start :: (middle ++ stop :: after)) = middle := by
  have hdrop : (before ++ start :: (middle ++ stop :: after)).dropWhile (· != start) =
      start :: (middle ++ stop :: after) := by
    rw [List.dropWhile_append_of_pos fun token htoken => bne_iff_ne.mpr (hbefore token htoken),
      List.dropWhile_cons_of_neg (by simp)]
  rw [between, hdrop, List.drop_one, List.tail_cons,
    List.takeWhile_append_of_pos fun token htoken => bne_iff_ne.mpr (hmiddle token htoken),
    List.takeWhile_cons_of_neg (by simp), List.append_nil]

theorem quotedNames_columns (columns : List String) :
    quotedNames (Phrase.join .comma (columns.map .quoted)).tokens = columns := by
  rw [quotedNames, Phrase.filterMap_join _ rfl, List.flatMap_map]
  exact List.flatMap_singleton' columns

theorem quotedNames_assignments (assignments : List (String × Nat)) :
    quotedNames (Phrase.join .comma (assignments.map assignmentPhrase)).tokens = assignments.map Prod.fst := by
  rw [quotedNames, Phrase.filterMap_join _ rfl, List.flatMap_map]
  exact List.flatMap_pure_eq_map Prod.fst assignments

theorem names_plain {gap : Gap} {stop : Token} (hgap : stop ∉ gap.tokens) (hstop : ∀ name, stop ≠ .quoted name)
    (names : List String) : ∀ token ∈ (Phrase.join gap (names.map .quoted)).tokens, token ≠ stop := by
  apply Phrase.forall_join
  · rintro token htoken rfl
    exact hgap htoken
  · intro phrase hphrase token htoken
    obtain ⟨name, _, rfl⟩ := List.mem_map.mp hphrase
    cases List.mem_singleton.mp htoken
    exact (hstop name).symm

theorem assignments_plain (assignments : List (String × Nat)) :
    ∀ token ∈ (Phrase.join .comma (assignments.map assignmentPhrase)).tokens, token ≠ .word "WHERE" := by
  apply Phrase.forall_join
  · decide
  · intro phrase hphrase token htoken
    obtain ⟨assignment, _, rfl⟩ := List.mem_map.mp hphrase
    have htokens : (assignmentPhrase assignment).tokens =
        [.quoted assignment.1, .symbol '=', .placeholder assignment.2] := rfl
    rw [htokens] at htoken
    rintro rfl
    simp at htoken

theorem assigned_insert (table columns : List String) (values : List Nat) (returning : Option (List SelectItem)) :
    assignedColumns .insert (Statement.insert table columns values returning).phrase.tokens = columns := by
  obtain ⟨after, htokens⟩ : ∃ after, (Statement.insert table columns values returning).phrase.tokens =
      ([.word "INSERT", .word "INTO"] ++ (tablePhrase table).tokens) ++ .symbol '(' ::
        ((Phrase.join .comma (columns.map .quoted)).tokens ++ .symbol ')' :: after) := by
    cases returning with
    | none =>
      refine ⟨[.word "VALUES", .symbol '('] ++ (Phrase.join .comma (values.map .placeholder)).tokens ++
        [.symbol ')'], ?_⟩
      simp [Statement.phrase, Phrase.nextIfAny, Phrase.closed, Phrase.next, Phrase.opened, Gap.opening, Gap.values,
        Gap.closing, Gap.append, Gap.symbol, Gap.space, Gap.words, Opening.words]
    | some items =>
      refine ⟨[.word "VALUES", .symbol '('] ++ (Phrase.join .comma (values.map .placeholder)).tokens ++
        [.symbol ')', .word "RETURNING"] ++ (selectPhrase items).tokens, ?_⟩
      simp [Statement.phrase, Phrase.nextIfAny, Phrase.closed, Phrase.next, Phrase.opened, Gap.opening, Gap.values,
        Gap.closing, Gap.append, Gap.symbol, Gap.space, Gap.words, Opening.words]
  have hbefore : ∀ token ∈ [Token.word "INSERT", .word "INTO"] ++ (tablePhrase table).tokens, token ≠ .symbol '(' :=
    List.forall_mem_append.mpr ⟨by decide, names_plain (by decide) (fun _ => Token.noConfusion) table⟩
  have hcolumns : ∀ token ∈ (Phrase.join .comma (columns.map .quoted)).tokens, token ≠ .symbol ')' :=
    names_plain (by decide) (fun _ => Token.noConfusion) columns
  rw [assignedColumns, htokens, between_append hbefore hcolumns, quotedNames_columns]

theorem assigned_update (table : List String) (assignments : List (String × Nat)) (conditions : List Condition)
    (returning : List SelectItem) :
    assignedColumns .update (Statement.update table assignments conditions returning).phrase.tokens =
      assignments.map Prod.fst := by
  have htokens : (Statement.update table assignments conditions returning).phrase.tokens =
      ([.word "UPDATE"] ++ (tablePhrase table).tokens) ++ .word "SET" ::
        ((Phrase.join .comma (assignments.map assignmentPhrase)).tokens ++ .word "WHERE" ::
          ((conditionsPhrase conditions).tokens ++ [.word "RETURNING"] ++ (selectPhrase returning).tokens)) := by
    simp [Statement.phrase, Phrase.next, Phrase.opened, Gap.words, Opening.words, filtered]
  have hbefore : ∀ token ∈ [Token.word "UPDATE"] ++ (tablePhrase table).tokens, token ≠ .word "SET" :=
    List.forall_mem_append.mpr ⟨by decide, names_plain (by decide) (fun _ => Token.noConfusion) table⟩
  rw [assignedColumns, htokens, between_append hbefore (assignments_plain assignments), quotedNames_assignments]

/-! ## Keys and columns -/

variable {texts : Texts} {columns : List String}

theorem resolveColumnName_ok {name column : String} (h : resolveColumnName texts columns name = .ok column) :
    (column = name ∧ (columns = [] ∨ name ∈ columns)) ∨
      (name ∉ columns ∧ column ∈ columns ∧ texts.toCamel column = name) := by
  rw [resolveColumnName] at h
  split at h
  next hempty =>
    cases h
    exact .inl ⟨rfl, .inl (List.isEmpty_iff.mp hempty)⟩
  split at h
  next hmem =>
    cases h
    obtain ⟨other, hother, heq⟩ := List.any_eq_true.mp hmem
    rw [beq_iff_eq] at heq
    exact .inl ⟨rfl, .inr (heq ▸ hother)⟩
  next hmem =>
    have hnot : name ∉ columns := fun hin => hmem (List.any_eq_true.mpr ⟨name, hin, beq_self_eq_true name⟩)
    split at h
    · cases h
    next hfilter =>
      cases h
      have hcolumn : column ∈ columns.filter (texts.toCamel · == name) := by
        rw [hfilter]
        exact List.mem_singleton_self _
      obtain ⟨hin, hcamel⟩ := List.mem_filter.mp hcolumn
      exact .inr ⟨hnot, hin, beq_iff_eq.mp hcamel⟩
    · cases h

theorem resolveColumnName_self {column : String} (h : column ∈ columns) :
    resolveColumnName texts columns column = .ok column := by
  have hany : (columns.any (· == column)) = true := List.any_eq_true.mpr ⟨column, h, beq_self_eq_true column⟩
  rw [resolveColumnName, if_pos hany, ite_self]

theorem resolveColumnName_camel {column name : String} (hcolumn : column ∈ columns)
    (hname : texts.toCamel column ∉ columns) (h : resolveColumnName texts columns (texts.toCamel column) = .ok name) :
    name = column := by
  rw [resolveColumnName] at h
  split at h
  next hempty =>
    rw [List.isEmpty_iff.mp hempty] at hcolumn
    cases hcolumn
  split at h
  next hany =>
    obtain ⟨other, hother, heq⟩ := List.any_eq_true.mp hany
    exact absurd (beq_iff_eq.mp heq ▸ hother) hname
  next =>
    have hcandidate : column ∈ columns.filter (texts.toCamel · == texts.toCamel column) :=
      List.mem_filter.mpr ⟨hcolumn, beq_self_eq_true _⟩
    split at h
    · cases h
    next hfilter =>
      cases h
      rw [hfilter] at hcandidate
      exact (List.mem_singleton.mp hcandidate).symm
    · cases h

/-- No column is given both by its own name and by the camelCase name that stands for it. -/
def Unambiguous (texts : Texts) (columns keys : List String) : Prop :=
  ∀ column ∈ columns, texts.toCamel column ∉ columns → column ∈ keys → texts.toCamel column ∉ keys

theorem injective_iff {keys : List String} {target : String → String}
    (h : ∀ key ∈ keys, resolveColumnName texts columns key = .ok (target key)) :
    (∀ key ∈ keys, ∀ key' ∈ keys, target key = target key' → key = key') ↔ Unambiguous texts columns keys := by
  constructor
  · intro hinjective column hcolumn hname hkey hcamel
    have hself : target column = column :=
      Except.ok.inj ((h column hkey).symm.trans (resolveColumnName_self hcolumn))
    have hother := resolveColumnName_camel hcolumn hname (h _ hcamel)
    have heq := hinjective column hkey _ hcamel (hself.trans hother.symm)
    exact hname (heq ▸ hcolumn)
  · -- a key is its column itself, or its camelCase name: two of one kind are equal
    intro hunambiguous key hkey key' hkey' htarget
    rcases resolveColumnName_ok (h key hkey) with ⟨hown, hin⟩ | ⟨hnot, hcolumn, hcamel⟩ <;>
      rcases resolveColumnName_ok (h key' hkey') with ⟨hown', hin'⟩ | ⟨hnot', hcolumn', hcamel'⟩
    · rw [← hown, htarget, hown']
    · rw [← htarget, hown] at hcolumn' hcamel'
      exact absurd (hcamel' ▸ hkey') (hunambiguous key hcolumn' (hcamel' ▸ hnot') hkey)
    · rw [htarget, hown'] at hcolumn hcamel
      exact absurd (hcamel ▸ hkey) (hunambiguous key' hcolumn (hcamel ▸ hnot) hkey')
    · rw [← hcamel, htarget, hcamel']

/-! ## The keys of a rendered object -/

def KeysNodup : ConstValue → Prop
  | .object fields => (fields.map Prod.fst).Nodup
  | _ => True

theorem nodup_collect (entries : List (String × ConstValue)) : ((collect entries).map Prod.fst).Nodup := by
  have hfold (object : Object ConstValue) (h : (object.map Prod.fst).Nodup) :
      ((entries.foldl (fun object entry => object.insertKey entry.1 entry.2) object).map Prod.fst).Nodup := by
    induction entries generalizing object with
    | nil => exact h
    | cons entry entries ih => exact ih _ (Object.nodup_insertKey object entry.1 entry.2 h)
  exact hfold [] List.nodup_nil

theorem keysNodup_toValue (value : ConstValue) : KeysNodup (toValue value) := by
  cases value with
  | object fields => exact nodup_collect (toFields fields)
  | _ => trivial

theorem keysNodup_rawValue (value : ValueString) : KeysNodup (rawValueToJson value) := by
  cases value with
  | value value _ => exact keysNodup_toValue value
  | string text => trivial

theorem keysNodup_renderJsonValue (ctx : RenderContext) (value : ConstValue) :
    KeysNodup (renderJsonValue ctx value) := by
  cases value with
  | object fields => exact nodup_collect (renderJsonFields ctx fields)
  | string template =>
    rw [renderJsonValue]
    cases singleExpression ctx (Templates.Mustache.parse template) with
    | none => trivial
    | some value => exact keysNodup_rawValue value
  | _ => trivial

theorem keysNodup_renderInput {ctx : RenderContext} {input : Templates.Mustache} {value : ConstValue}
    (h : renderInput texts ctx input = .ok value) : KeysNodup value := by
  rw [renderInput] at h
  split at h
  next raw _ =>
    cases h
    exact keysNodup_rawValue raw
  next =>
    split at h
    next template _ =>
      cases h
      exact keysNodup_renderJsonValue ctx template
    · cases h

/-! ## The columns of a write -/

def Assigns (texts : Texts) (template : RequestTemplate) (fields : List (String × ConstValue)) (columns : List String)
    (query : RenderedQuery) : Prop :=
  columns.length = fields.length ∧ List.Forall₂ (Resolves texts template.columns) fields (columns.zip query.params)

theorem nodup_columns {fields : List (String × ConstValue)} {entries : List Entry}
    (hkeys : (fields.map Prod.fst).Nodup) (h : List.Forall₂ (Resolves texts columns) fields entries) :
    (entries.map Prod.fst).Nodup ↔ Unambiguous texts columns (fields.map Prod.fst) := by
  let target (key : String) : String := ((resolveColumnName texts columns key).toOption).getD ""
  have hentries : entries.map Prod.fst = (fields.map Prod.fst).map target := by
    clear hkeys
    induction h with
    | nil => rfl
    | @cons field entry _ _ hfirst _ ih =>
      have htarget : target field.1 = entry.1 := by
        simp only [target, hfirst.1]
        rfl
      rw [List.map_cons, List.map_cons, List.map_cons, ih, htarget]
  have htargets : ∀ key ∈ fields.map Prod.fst, resolveColumnName texts columns key = .ok (target key) := by
    clear hkeys hentries
    induction h with
    | nil => nofun
    | @cons field entry _ _ hfirst _ ih =>
      rw [List.map_cons, List.forall_mem_cons]
      refine ⟨?_, ih⟩
      simp only [target, hfirst.1]
      rfl
  rw [hentries, List.nodup_map_iff_inj_on hkeys, ← injective_iff htargets]

theorem zip_params (input : List Entry) (more : List (Option String)) :
    (input.map Prod.fst).zip (input.map Prod.snd ++ more) = input := by
  induction input with
  | nil => rfl
  | cons entry input ih => rw [List.map_cons, List.map_cons, List.cons_append, List.zip_cons_cons, ih]

variable {template : RequestTemplate} {ctx : RenderContext}

theorem assigned_columns {query : RenderedQuery} (h : template.render texts ctx = .ok query)
    (hwrite : template.operation = .insert ∨ template.operation = .update) :
    ∃ operation input more, template.inputEntries texts ctx operation = .ok input ∧
      (lex query.sql.toList).map (assignedColumns template.operation) = some (input.map Prod.fst) ∧
      query.params = input.map Prod.snd ++ more := by
  obtain ⟨given, hgiven, rfl⟩ := render_ok h
  cases hgiven with
  | select hoperation _ => exact absurd hwrite (by rw [hoperation]; decide)
  | selectOne hoperation _ => exact absurd hwrite (by rw [hoperation]; decide)
  | delete hoperation _ _ => exact absurd hwrite (by rw [hoperation]; decide)
  | @insert input hoperation hinput =>
    refine ⟨"INSERT", input, [], hinput, ?_, by simp [queryOf, Supplied.params, presentValues]⟩
    rw [queryOf, Statement.lex_text, statement_insert hoperation, hoperation, Option.map_some, assigned_insert]
  | @update filter input entries hoperation _ hinput _ =>
    have hlength : (input.map Prod.fst).length = (numbersOf input).length := by
      rw [numbersOf, List.length_map, List.length_range']
    refine ⟨"UPDATE", input, presentValues entries, hinput, ?_, by simp [queryOf, Supplied.params]⟩
    rw [queryOf, Statement.lex_text, statement_update hoperation, hoperation, Option.map_some, assigned_update,
      List.map_fst_zip hlength.le]

/-- An INSERT or an UPDATE assigns every field of its input to a column, and to a different one each, exactly when
no column is given by both of its names. -/
theorem assigned_once_iff {query : RenderedQuery} (h : template.render texts ctx = .ok query)
    (hwrite : template.operation = .insert ∨ template.operation = .update) :
    ∃ input fields columns, template.input = some input ∧ renderInput texts ctx input = .ok (.object fields) ∧
      (lex query.sql.toList).map (assignedColumns template.operation) = some columns ∧
      ((columns.Nodup ∧ Assigns texts template fields columns query) ↔
        Unambiguous texts template.columns (fields.map Prod.fst)) := by
  obtain ⟨operation, entries, more, hentries, hcolumns, hparams⟩ := assigned_columns h hwrite
  obtain ⟨input, fields, hinput, hrendered, hresolves, _⟩ := inputEntries_ok hentries
  have hkeys : (fields.map Prod.fst).Nodup := keysNodup_renderInput hrendered
  have hassigns : Assigns texts template fields (entries.map Prod.fst) query := by
    refine ⟨?_, ?_⟩
    · rw [List.length_map, hresolves.length_eq]
    · rw [hparams, zip_params]
      exact hresolves
  refine ⟨input, fields, entries.map Prod.fst, hinput, hrendered, hcolumns, ?_⟩
  rw [← nodup_columns hkeys hresolves]
  exact and_iff_left hassigns

def userTexts : Texts :=
  { plainTexts with toCamel := fun name => if name = "user_name" then "userName" else name }

def userInsert : RequestTemplate where
  table := "users"
  operation := .insert
  filter := none
  input := some ⟨[.expression ["args", "input"]]⟩
  limit := none
  offset := none
  orderBy := none
  columns := ["id", "user_name"]
  resultMode := .affectedRows

theorem userInsert_rendered : userInsert.render userTexts
    (inputContext [("id", .number (.int 1)), ("userName", .string "Ann")]) = .ok {
      sql := "INSERT INTO \"users\" (\"id\", \"user_name\") VALUES ($1, $2)"
      params := [some "1", some "Ann"] } := by
  decide

theorem userInsert_once : ∃ input fields columns, userInsert.input = some input ∧
    renderInput userTexts (inputContext [("id", .number (.int 1)), ("userName", .string "Ann")]) input =
      .ok (.object fields) ∧
    (lex "INSERT INTO \"users\" (\"id\", \"user_name\") VALUES ($1, $2)".toList).map (assignedColumns .insert) =
      some columns ∧
    ((columns.Nodup ∧ Assigns userTexts userInsert fields columns {
        sql := "INSERT INTO \"users\" (\"id\", \"user_name\") VALUES ($1, $2)"
        params := [some "1", some "Ann"] }) ↔
      Unambiguous userTexts ["id", "user_name"] (fields.map Prod.fst)) :=
  assigned_once_iff userInsert_rendered (.inl rfl)

theorem both_cases_assigned : ∃ query, userInsert.render userTexts
      (inputContext [("user_name", .string "Ann"), ("userName", .string "Bob")]) = .ok query ∧
    (lex query.sql.toList).map (assignedColumns .insert) = some ["user_name", "user_name"] ∧
    ¬["user_name", "user_name"].Nodup := by
  have hrendered : userInsert.render userTexts
      (inputContext [("user_name", .string "Ann"), ("userName", .string "Bob")]) = .ok {
        sql := (Statement.insert ["users"] ["user_name", "user_name"] [1, 2] none).phrase.text
        params := [some "Ann", some "Bob"] } := by
    decide
  refine ⟨_, hrendered, ?_, by decide⟩
  rw [Statement.lex_text, Option.map_some, assigned_insert]

end Gqlforge.AssignedColumns
