import Gqlforge.NumberedParams

namespace Gqlforge.SqlIndependence

open Json RequestTemplates SqlTokens SqlStatements StreamDirectives PostgresTemplates RenderedQueries NumberedParams

/-! ## Two runs -/

section

variable {A B : Type} {r : A → A → Prop} {s : B → B → Prop}

inductive Agree (r : A → A → Prop) : Except String A → Except String A → Prop where
  | ok {a a' : A} (h : r a a') : Agree r (.ok a) (.ok a')
  | error (error : String) : Agree r (.error error) (.error error)

theorem Agree.bind {run run' : Except String A} {next next' : A → Except String B} (h : Agree r run run')
    (hnext : ∀ a a', r a a' → Agree s (next a) (next' a')) : Agree s (run >>= next) (run' >>= next') := by
  cases h with
  | ok h => exact hnext _ _ h
  | error error => exact .error error

theorem Agree.map_eq {run run' : Except String A} {f : A → B} (h : Agree r run run')
    (heq : ∀ a a', r a a' → f a = f a') : run.map f = run'.map f := by
  cases h with
  | ok h => exact congrArg Except.ok (heq _ _ h)
  | error error => rfl

end

/-! ## What the text may depend on -/

def shape (fields : List (String × ConstValue)) : List (String × Bool) :=
  fields.map fun (key, value) => (key, value.isNull)

def SameShape (value value' : ConstValue) : Prop :=
  ∃ fields fields', value = .object fields ∧ value' = .object fields' ∧ shape fields = shape fields'

def entryShape (entries : List Entry) : List (String × Bool) :=
  entries.map fun (column, value) => (column, value.isNone)

def SameEntries (entries entries' : List Entry) : Prop :=
  entryShape entries = entryShape entries'

structure SameSupplied (given given' : Supplied) : Prop where
  input : SameEntries given.input given'.input
  filter : given.filter.map entryShape = given'.filter.map entryShape
  orderBy : given.orderBy = given'.orderBy
  limit : given.limit.isSome = given'.limit.isSome
  offset : given.offset.isSome = given'.offset.isSome

/-- Contexts that differ in values only, as far as the operation of a template uses what they render to. -/
structure Alike (texts : Texts) (template : RequestTemplate) (ctx ctx' : RenderContext) : Prop where
  filter : ∀ filter ∈ template.filter, template.operation ≠ .insert →
    SameShape (renderJsonValue ctx filter) (renderJsonValue ctx' filter)
  input : ∀ input ∈ template.input, template.operation = .insert ∨ template.operation = .update →
    ∃ value value', renderInput texts ctx input = .ok value ∧ renderInput texts ctx' input = .ok value' ∧
      SameShape value value'
  orderBy : template.operation = .select → termsOf texts template ctx = termsOf texts template ctx'
  limit : template.operation = .select → (countOf ctx template.limit).isSome = (countOf ctx' template.limit).isSome
  offset : template.operation = .select → (countOf ctx template.offset).isSome = (countOf ctx' template.offset).isSome

variable {texts : Texts} {template : RequestTemplate} {ctx ctx' : RenderContext}

theorem paramText_isNone (json : ConstValue → String) (value : ConstValue) :
    (PostgresParams.paramText json value).isNone = value.isNull := by
  cases value with
  | number value => cases value <;> rfl
  | _ => rfl

variable {entries entries' : List Entry}

theorem resolveColumns_agree (h : SameEntries entries entries') :
    Agree SameEntries (template.resolveColumns texts entries) (template.resolveColumns texts entries') := by
  induction entries generalizing entries' with
  | nil =>
    rw [List.map_eq_nil_iff.mp h.symm]
    exact .ok rfl
  | cons entry entries ih =>
    cases entries' with
    | nil => cases h
    | cons entry' entries' =>
      obtain ⟨hfirst, hrest⟩ := List.cons.inj h
      obtain ⟨hname, hnull⟩ := Prod.mk.inj hfirst
      rw [RequestTemplate.resolveColumns, RequestTemplate.resolveColumns, List.mapM_cons, List.mapM_cons]
      refine Agree.bind (r := fun first first' => first.1 = first'.1 ∧ first.2.isNone = first'.2.isNone) ?_ ?_
      · rw [hname]
        cases resolveColumnName texts template.columns entry'.1 with
        | error error => exact .error error
        | ok column => exact .ok ⟨rfl, hnull⟩
      · rintro first first' ⟨hcolumn, hvalue⟩
        refine (ih hrest).bind fun rest rest' hsame => .ok ?_
        exact List.cons_eq_cons.mpr ⟨Prod.ext hcolumn hvalue, hsame⟩

theorem fields_agree {value value' : ConstValue} (h : SameShape value value') :
    Agree SameEntries (parseJsonObject texts value >>= template.resolveColumns texts)
      (parseJsonObject texts value' >>= template.resolveColumns texts) := by
  obtain ⟨fields, fields', rfl, rfl, hshape⟩ := h
  apply resolveColumns_agree
  have hentries (fields : List (String × ConstValue)) :
      entryShape (fields.map fun (key, value) => (key, PostgresParams.paramText texts.json value)) = shape fields := by
    rw [entryShape, List.map_map, shape]
    congr 1
    funext field
    exact Prod.ext rfl (paramText_isNone texts.json field.2)
  exact (hentries fields).trans (hshape.trans (hentries fields').symm)

theorem SameEntries.isEmpty (h : SameEntries entries entries') : entries.isEmpty = entries'.isEmpty := by
  have hlength := congrArg List.length h
  rw [entryShape, entryShape, List.length_map, List.length_map] at hlength
  cases entries <;> cases entries' <;> first | rfl | cases hlength

theorem conditionsOf_same (h : SameEntries entries entries') (count : Nat) :
    conditionsOf count entries = conditionsOf count entries' := by
  induction entries generalizing entries' count with
  | nil => rw [List.map_eq_nil_iff.mp h.symm]
  | cons entry entries ih =>
    cases entries' with
    | nil => cases h
    | cons entry' entries' =>
      obtain ⟨hfirst, hrest⟩ := List.cons.inj h
      obtain ⟨column, value⟩ := entry
      obtain ⟨column', value'⟩ := entry'
      obtain ⟨rfl, hnull⟩ := Prod.mk.inj hfirst
      match value, value' with
      | none, none => exact congrArg (.isNull column :: ·) (ih hrest count)
      | some _, some _ => exact congrArg (.equals column (count + 1) :: ·) (ih hrest (count + 1))
      | none, some _ | some _, none => cases hnull

theorem presentValues_same (h : SameEntries entries entries') :
    (presentValues entries).length = (presentValues entries').length := by
  induction entries generalizing entries' with
  | nil => rw [List.map_eq_nil_iff.mp h.symm]
  | cons entry entries ih =>
    cases entries' with
    | nil => cases h
    | cons entry' entries' =>
      obtain ⟨hfirst, hrest⟩ := List.cons.inj h
      have hnull := (Prod.mk.inj hfirst).2
      have hlength := ih hrest
      rw [presentValues_cons, presentValues_cons, List.length_append, List.length_append, hlength]
      cases hvalue : entry.2 <;> cases hvalue' : entry'.2 <;> rw [hvalue, hvalue'] at hnull <;>
        first | rfl | cases hnull

theorem columns_same (h : SameEntries entries entries') : entries.map Prod.fst = entries'.map Prod.fst := by
  have hcolumns (entries : List Entry) : (entryShape entries).map Prod.fst = entries.map Prod.fst := by
    rw [entryShape, List.map_map]
    rfl
  rw [← hcolumns, ← hcolumns, h]

theorem filter_same {filter filter' : Option (List Entry)} (h : filter.map entryShape = filter'.map entryShape) :
    SameEntries (filter.getD []) (filter'.getD []) ∧ filter.map (conditionsOf 0) = filter'.map (conditionsOf 0) := by
  cases filter <;> cases filter' <;> first | exact ⟨rfl, rfl⟩ | cases h | skip
  next entries entries' =>
    have hsame : SameEntries entries entries' := Option.some.inj h
    exact ⟨hsame, congrArg some (conditionsOf_same hsame 0)⟩

theorem map_same {A B : Type} {value value' : Option A} (h : value.isSome = value'.isSome) (result : B) :
    (value.map fun _ => result) = value'.map fun _ => result := by
  cases value <;> cases value' <;> first | rfl | cases h

theorem toList_same {A : Type} {value value' : Option A} (h : value.isSome = value'.isSome) :
    value.toList.length = value'.toList.length := by
  cases value <;> cases value' <;> first | rfl | cases h

theorem statement_same {given given' : Supplied} (h : SameSupplied given given') :
    statement texts template given = statement texts template given' := by
  obtain ⟨hfilter, hconditions⟩ := filter_same h.filter
  have hlength : given.input.length = given'.input.length := by
    have hcolumns := congrArg List.length (columns_same h.input)
    rw [List.length_map, List.length_map] at hcolumns
    exact hcolumns
  have hcount : given.filterCount = given'.filterCount := presentValues_same hfilter
  have hnumbers : numbersOf given.input = numbersOf given'.input := by
    rw [numbersOf, numbersOf, hlength]
  rw [statement, statement]
  simp only [columns_same h.input, hnumbers, hlength, conditionsOf_same hfilter, hconditions, h.orderBy, hcount,
    map_same h.limit, map_same h.offset, toList_same h.limit]

theorem optionalFilter_agree (h : Alike texts template ctx ctx') (hoperation : template.operation ≠ .insert) :
    Agree (fun filter filter' => filter.map entryShape = filter'.map entryShape)
      (optionalFilter texts template ctx) (optionalFilter texts template ctx') := by
  rw [optionalFilter, optionalFilter]
  cases hfilter : template.filter with
  | none => exact .ok rfl
  | some filter =>
    exact (fields_agree (h.filter filter hfilter hoperation)).bind fun entries entries' hsame =>
      .ok (congrArg some hsame)

theorem requiredFilter_agree (h : Alike texts template ctx ctx') (hoperation : template.operation ≠ .insert)
    {filter : ConstValue} (hfilter : template.filter = some filter) (operation : String) :
    Agree SameEntries (requiredFilter texts template ctx operation filter)
      (requiredFilter texts template ctx' operation filter) := by
  refine (fields_agree (h.filter filter hfilter hoperation)).bind fun entries entries' hsame => ?_
  rw [hsame.isEmpty]
  cases entries'.isEmpty with
  | true => exact .error _
  | false => exact .ok hsame

theorem inputEntries_eq {input : Templates.Mustache} {value : ConstValue} (hinput : template.input = some input)
    (hvalue : renderInput texts ctx input = .ok value) (operation : String) :
    template.inputEntries texts ctx operation =
      (parseJsonObject texts value >>= template.resolveColumns texts) >>= fun entries =>
        if entries.isEmpty then .error (operation ++ " requires at least one field in input") else .ok entries := by
  rw [RequestTemplate.inputEntries, hinput]
  simp only [bind, Except.bind, pure, Except.pure, hvalue]
  cases parseJsonObject texts value with
  | error error => rfl
  | ok fields =>
    dsimp only
    cases template.resolveColumns texts fields with
    | error error => rfl
    | ok entries =>
      dsimp only
      cases entries <;> rfl

theorem inputEntries_agree (h : Alike texts template ctx ctx')
    (hoperation : template.operation = .insert ∨ template.operation = .update) (operation : String) :
    Agree SameEntries (template.inputEntries texts ctx operation) (template.inputEntries texts ctx' operation) := by
  cases hinput : template.input with
  | none =>
    rw [RequestTemplate.inputEntries, RequestTemplate.inputEntries, hinput]
    exact .error _
  | some input =>
    obtain ⟨value, value', hvalue, hvalue', hshape⟩ := h.input input hinput hoperation
    rw [inputEntries_eq hinput hvalue, inputEntries_eq hinput hvalue']
    refine (fields_agree hshape).bind fun entries entries' hsame => ?_
    rw [hsame.isEmpty]
    cases entries'.isEmpty with
    | true => exact .error _
    | false => exact .ok hsame

theorem supplied_agree (h : Alike texts template ctx ctx') :
    Agree SameSupplied (supplied texts template ctx) (supplied texts template ctx') := by
  rw [supplied, supplied]
  cases hoperation : template.operation with
  | select =>
    refine (optionalFilter_agree h (by rw [hoperation]; decide)).bind fun filter filter' hfilter => .ok ?_
    exact ⟨rfl, hfilter, h.orderBy hoperation, h.limit hoperation, h.offset hoperation⟩
  | selectOne =>
    refine (optionalFilter_agree h (by rw [hoperation]; decide)).bind fun filter filter' hfilter => .ok ?_
    exact ⟨rfl, hfilter, rfl, rfl, rfl⟩
  | insert =>
    refine (inputEntries_agree h (.inl hoperation) "INSERT").bind fun input input' hinput => .ok ?_
    exact ⟨hinput, rfl, rfl, rfl, rfl⟩
  | update =>
    cases hfilter : template.filter with
    | none => exact .error _
    | some filter =>
      refine (inputEntries_agree h (.inr hoperation) "UPDATE").bind fun input input' hinput => ?_
      refine (requiredFilter_agree h (by rw [hoperation]; decide) hfilter "UPDATE").bind fun entries entries' hentries =>
        .ok ?_
      exact ⟨hinput, congrArg some hentries, rfl, rfl, rfl⟩
  | delete =>
    cases hfilter : template.filter with
    | none => exact .error _
    | some filter =>
      refine (requiredFilter_agree h (by rw [hoperation]; decide) hfilter "DELETE").bind fun entries entries' hentries =>
        .ok ?_
      exact ⟨rfl, congrArg some hentries, rfl, rfl, rfl⟩
  | listen => exact .error _

theorem sql_same (h : Alike texts template ctx ctx') :
    (template.render texts ctx).map RenderedQuery.sql = (template.render texts ctx').map RenderedQuery.sql := by
  have hmap (ctx : RenderContext) : (template.render texts ctx).map RenderedQuery.sql =
      (supplied texts template ctx).map fun given => (statement texts template given).phrase.text := by
    rw [render_eq]
    cases supplied texts template ctx <;> rfl
  rw [hmap, hmap]
  exact (supplied_agree h).map_eq fun given given' hsame => by rw [statement_same hsame]

/-! ## The tokens of a query -/

def keywords : List String :=
  ["SELECT", "FROM", "WHERE", "TRUE", "AND", "IS", "NULL", "AS", "ORDER", "BY", "ASC", "DESC", "LIMIT", "OFFSET",
    "INSERT", "INTO", "VALUES", "RETURNING", "UPDATE", "SET", "DELETE"]

def Vetted : Token → Prop
  | .quoted _ => True
  | .placeholder _ => True
  | .word letters => letters ∈ keywords
  | .number value => value = 1
  | .symbol c => c ∈ ['*', ',', '.', '=', '(', ')']

def AllVetted (tokens : List Token) : Prop :=
  ∀ token ∈ tokens, Vetted token

theorem AllVetted.append {tokens tokens' : List Token} (h : AllVetted tokens) (h' : AllVetted tokens') :
    AllVetted (tokens ++ tokens') :=
  List.forall_mem_append.mpr ⟨h, h'⟩

theorem vetted_words {words : List String} (h : words ⊆ keywords) : AllVetted (words.map .word) := by
  intro token htoken
  obtain ⟨word, hword, rfl⟩ := List.mem_map.mp htoken
  exact h hword

variable {phrase : Phrase}

theorem vetted_opened (h : AllVetted phrase.tokens) (text : String) {words : List String} (htext)
    (hwords) (hknown : words ⊆ keywords) : AllVetted (phrase.opened (.words text words htext hwords)).tokens :=
  (vetted_words hknown).append h

variable {gap : Gap}

theorem vetted_next {phrase' : Phrase} (h : AllVetted phrase.tokens) (hgap : AllVetted gap.tokens)
    (h' : AllVetted phrase'.tokens) : AllVetted (phrase.next gap phrase').tokens :=
  (h.append hgap).append h'

theorem vetted_nextIfAny (h : AllVetted phrase.tokens) (hgap : AllVetted gap.tokens) {phrase' : Option Phrase}
    (h' : ∀ phrase ∈ phrase', AllVetted phrase.tokens) : AllVetted (phrase.nextIfAny gap phrase').tokens := by
  cases phrase' with
  | none => exact h
  | some phrase' => exact vetted_next h hgap (h' phrase' rfl)

theorem vetted_mapped {A : Type} (hgap : AllVetted gap.tokens) {items : List A} {phrase : A → Phrase}
    (h : ∀ item, AllVetted (phrase item).tokens) : AllVetted (Phrase.join gap (items.map phrase)).tokens := by
  refine Phrase.forall_join hgap fun phrase' hphrase => ?_
  obtain ⟨item, _, rfl⟩ := List.mem_map.mp hphrase
  exact h item

theorem vetted_symbol {c : Char} (h : c ∈ ['*', ',', '.', '=', '(', ')']) : AllVetted [.symbol c] :=
  List.forall_mem_singleton.mpr h

theorem vetted_word {word : String} (h : word ∈ keywords) : AllVetted [.word word] :=
  List.forall_mem_singleton.mpr h

theorem vetted_quoted (name : String) : AllVetted (Phrase.quoted name).tokens :=
  List.forall_mem_singleton.mpr trivial

theorem vetted_placeholder (number : Nat) : AllVetted (Phrase.placeholder number).tokens :=
  List.forall_mem_singleton.mpr trivial

theorem vetted_space : AllVetted Gap.space.tokens :=
  List.forall_mem_nil _

theorem vetted_comma : AllVetted Gap.comma.tokens :=
  vetted_symbol (by decide)

theorem vetted_equals : AllVetted Gap.equals.tokens :=
  vetted_symbol (by decide)

theorem vetted_conditions (conditions : List Condition) : AllVetted (conditionsPhrase conditions).tokens := by
  rw [conditionsPhrase]
  split
  · exact vetted_word (by decide)
  · refine vetted_mapped (vetted_words (by decide)) fun condition => ?_
    cases condition with
    | equals column number => exact vetted_next (vetted_quoted column) vetted_equals (vetted_placeholder number)
    | isNull column => exact vetted_next (vetted_quoted column) (vetted_words (by decide)) (vetted_word (by decide))

theorem vetted_select (columns : List SelectItem) : AllVetted (selectPhrase columns).tokens := by
  rw [selectPhrase]
  split
  · exact vetted_symbol (by decide)
  · refine vetted_mapped vetted_comma fun item =>
      vetted_nextIfAny (vetted_quoted item.1) (vetted_words (by decide)) fun phrase hphrase => ?_
    obtain ⟨label, _, rfl⟩ := Option.mem_map.mp hphrase
    exact vetted_quoted label

theorem vetted_table (table : List String) : AllVetted (tablePhrase table).tokens :=
  vetted_mapped (vetted_symbol (by decide)) vetted_quoted

theorem vetted_order (terms : List OrderTerm) : ∀ phrase ∈ orderPhrase terms, AllVetted phrase.tokens := by
  intro phrase hphrase
  rw [orderPhrase] at hphrase
  split at hphrase
  · cases hphrase
  · cases Option.mem_def.mp hphrase
    refine vetted_mapped vetted_comma fun term =>
      vetted_nextIfAny (vetted_quoted term.1) vetted_space fun phrase hdirection => ?_
    obtain ⟨direction, _, rfl⟩ := Option.mem_map.mp hdirection
    cases direction with
    | asc => exact vetted_word (by decide)
    | desc => exact vetted_word (by decide)

theorem vetted_statement (statement : Statement) : AllVetted statement.phrase.tokens := by
  cases statement with
  | select columns table conditions orderBy limit offset =>
    have hbase : AllVetted (((selectPhrase columns).opened (.words "SELECT " ["SELECT"] (by decide) (by decide))).next
        (.words " FROM " ["FROM"] (by decide) (by decide)) (tablePhrase table)).tokens :=
      vetted_next (vetted_opened (vetted_select columns) _ _ _ (by decide)) (vetted_words (by decide))
        (vetted_table table)
    refine vetted_nextIfAny (vetted_nextIfAny (vetted_nextIfAny (vetted_nextIfAny hbase
      (vetted_words (by decide)) fun phrase hphrase => ?_) (vetted_words (by decide)) (vetted_order orderBy))
      (vetted_words (by decide)) fun phrase hphrase => ?_) (vetted_words (by decide)) fun phrase hphrase => ?_
    · obtain ⟨conditions, _, rfl⟩ := Option.mem_map.mp hphrase
      exact vetted_conditions conditions
    · obtain ⟨limit, _, rfl⟩ := Option.mem_map.mp hphrase
      cases limit with
      | one => exact List.forall_mem_singleton.mpr rfl
      | placeholder number => exact vetted_placeholder number
    · obtain ⟨number, _, rfl⟩ := Option.mem_map.mp hphrase
      exact vetted_placeholder number
  | insert table columns values returning =>
    have hvalues : AllVetted Gap.values.tokens :=
      ((vetted_symbol (by decide)).append (vetted_word (by decide))).append (vetted_symbol (by decide))
    refine vetted_nextIfAny ((vetted_next (vetted_next
      (vetted_opened (vetted_table table) _ _ _ (by decide))
      (vetted_symbol (by decide)) (vetted_mapped vetted_comma vetted_quoted)) hvalues
      (vetted_mapped vetted_comma vetted_placeholder)).append (vetted_symbol (by decide)))
      (vetted_words (by decide)) fun phrase hphrase => ?_
    obtain ⟨items, _, rfl⟩ := Option.mem_map.mp hphrase
    exact vetted_select items
  | update table assignments conditions returning =>
    have hassignments : AllVetted (Phrase.join .comma (assignments.map assignmentPhrase)).tokens :=
      vetted_mapped vetted_comma fun assignment =>
        vetted_next (vetted_quoted assignment.1) vetted_equals (vetted_placeholder assignment.2)
    exact vetted_next (vetted_next (vetted_next
      (vetted_opened (vetted_table table) _ _ _ (by decide))
      (vetted_words (by decide)) hassignments) (vetted_words (by decide)) (vetted_conditions conditions))
      (vetted_words (by decide)) (vetted_select returning)
  | delete table conditions =>
    exact vetted_next (vetted_opened (vetted_table table) _ _ _ (by decide))
      (vetted_words (by decide)) (vetted_conditions conditions)

/-- Texts of contexts that differ in values only are equal, and every query is made of tokens of the grammar and of
quoted identifiers, each of which is one token. -/
theorem sql_independent (texts : Texts) (template : RequestTemplate) :
    (∀ ctx ctx', Alike texts template ctx ctx' →
      (template.render texts ctx).map RenderedQuery.sql = (template.render texts ctx').map RenderedQuery.sql) ∧
    ∀ ctx query, template.render texts ctx = .ok query → ∃ given, Belongs texts template ctx given ∧
      lex query.sql.toList = some (statement texts template given).phrase.tokens ∧
      AllVetted (statement texts template given).phrase.tokens := by
  refine ⟨fun ctx ctx' => sql_same, fun ctx query hquery => ?_⟩
  obtain ⟨given, hgiven, rfl⟩ := render_ok hquery
  exact ⟨given, belongs hgiven, Statement.lex_text _, vetted_statement _⟩

/-! ## The order of the keys -/

def SameKeys (fields fields' : List (String × ConstValue)) : Prop :=
  ∀ key, (fields.lookup key).map ConstValue.isNull = (fields'.lookup key).map ConstValue.isNull

def pointInsert : RequestTemplate where
  table := "points"
  operation := .insert
  filter := none
  input := some ⟨[.expression ["args", "input"]]⟩
  limit := none
  offset := none
  orderBy := none
  columns := []
  resultMode := .affectedRows

theorem same_keys_swapped : SameKeys [("x", .number (.int 1)), ("y", .number (.int 2))]
    [("y", .number (.int 2)), ("x", .number (.int 1))] := by
  intro key
  by_cases hx : key = "x"
  · rw [hx]
    rfl
  · by_cases hy : key = "y"
    · rw [hy]
      rfl
    · simp [List.lookup_cons, List.lookup_nil, beq_eq_false_iff_ne.mpr hx, beq_eq_false_iff_ne.mpr hy]

theorem keys_reordered : ∃ fields fields', SameKeys fields fields' ∧
    renderInput plainTexts (inputContext fields) ⟨[.expression ["args", "input"]]⟩ = .ok (.object fields) ∧
    renderInput plainTexts (inputContext fields') ⟨[.expression ["args", "input"]]⟩ = .ok (.object fields') ∧
    (pointInsert.render plainTexts (inputContext fields)).map RenderedQuery.sql ≠
      (pointInsert.render plainTexts (inputContext fields')).map RenderedQuery.sql :=
  ⟨_, _, same_keys_swapped, rfl, rfl, by decide⟩

end Gqlforge.SqlIndependence
