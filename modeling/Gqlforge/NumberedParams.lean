import Gqlforge.RenderedQueries

namespace Gqlforge.NumberedParams

open Json RequestTemplates SqlTokens SqlStatements PostgresTemplates RenderedQueries

/-! ## Placeholders of a statement -/

inductive Slot where
  | assigned (column : String)
  | compared (column : String)
  | limit
  | offset

def placeholders (tokens : List Token) : List Nat :=
  tokens.filterMap fun
    | .placeholder number => some number
    | _ => none

def conditionSlots (conditions : List Condition) : List (Slot × Nat) :=
  conditions.filterMap fun
    | .equals column number => some (.compared column, number)
    | .isNull _ => none

def limitSlots : Option Limit → List (Slot × Nat)
  | some (.placeholder number) => [(.limit, number)]
  | _ => []

def slots : Statement → List (Slot × Nat)
  | .select _ _ conditions _ limit offset =>
    conditionSlots (conditions.getD []) ++ limitSlots limit ++ offset.toList.map fun number => (.offset, number)
  | .insert _ columns values _ => (columns.zip values).map fun (column, number) => (.assigned column, number)
  | .update _ assignments conditions _ =>
    (assignments.map fun (column, number) => (.assigned column, number)) ++ conditionSlots conditions
  | .delete _ conditions => conditionSlots conditions

theorem placeholders_append (tokens tokens' : List Token) :
    placeholders (tokens ++ tokens') = placeholders tokens ++ placeholders tokens' :=
  List.filterMap_append

theorem placeholders_words (text : String) (words : List String) (htext) (hwords) :
    placeholders (Gap.words text words htext hwords).tokens = [] := by
  have hmap : (Gap.words text words htext hwords).tokens = words.map .word := rfl
  rw [hmap, placeholders, List.filterMap_map]
  exact List.filterMap_eq_nil_iff.mpr fun _ _ => rfl

theorem placeholders_opening (text : String) (words : List String) (htext) (hwords) :
    placeholders (Opening.words text words htext hwords).tokens = [] := by
  have hmap : (Opening.words text words htext hwords).tokens = words.map .word := rfl
  rw [hmap, placeholders, List.filterMap_map]
  exact List.filterMap_eq_nil_iff.mpr fun _ _ => rfl

theorem placeholders_opened (phrase : Phrase) {opening : Opening} (h : placeholders opening.tokens = []) :
    placeholders (phrase.opened opening).tokens = placeholders phrase.tokens := by
  have htokens : (phrase.opened opening).tokens = opening.tokens ++ phrase.tokens := rfl
  rw [htokens, placeholders_append, h, List.nil_append]

theorem placeholders_closed (phrase : Phrase) {gap : Gap} (hgap : placeholders gap.tokens = []) :
    placeholders (phrase.closed gap).tokens = placeholders phrase.tokens := by
  have htokens : (phrase.closed gap).tokens = phrase.tokens ++ gap.tokens := rfl
  rw [htokens, placeholders_append, hgap, List.append_nil]

theorem placeholders_next (phrase : Phrase) {gap : Gap} (hgap : placeholders gap.tokens = []) (phrase' : Phrase) :
    placeholders (phrase.next gap phrase').tokens = placeholders phrase.tokens ++ placeholders phrase'.tokens := by
  have htokens : (phrase.next gap phrase').tokens = phrase.tokens ++ gap.tokens ++ phrase'.tokens := rfl
  rw [htokens, placeholders_append, placeholders_append, hgap, List.append_nil]

theorem placeholders_nextIfAny (phrase : Phrase) {gap : Gap} (hgap : placeholders gap.tokens = [])
    (phrase' : Option Phrase) : placeholders (phrase.nextIfAny gap phrase').tokens =
      placeholders phrase.tokens ++ phrase'.toList.flatMap fun phrase' => placeholders phrase'.tokens := by
  cases phrase' with
  | none => exact (List.append_nil _).symm
  | some phrase' =>
    rw [Option.toList_some, List.flatMap_singleton]
    exact placeholders_next phrase hgap phrase'

theorem placeholders_join {gap : Gap} (hgap : placeholders gap.tokens = []) (phrases : List Phrase) :
    placeholders (Phrase.join gap phrases).tokens = phrases.flatMap fun phrase => placeholders phrase.tokens :=
  Phrase.filterMap_join _ hgap phrases

theorem placeholders_condition (condition : Condition) :
    placeholders condition.phrase.tokens = (conditionSlots [condition]).map Prod.snd := by
  cases condition with
  | equals column number => rfl
  | isNull column => rfl

theorem conditionSlots_cons (condition : Condition) (conditions : List Condition) :
    conditionSlots (condition :: conditions) = conditionSlots [condition] ++ conditionSlots conditions :=
  List.filterMap_append (l := [condition])

theorem placeholders_conditions (conditions : List Condition) :
    placeholders (conditionsPhrase conditions).tokens = (conditionSlots conditions).map Prod.snd := by
  rw [conditionsPhrase]
  split
  next hnil =>
    rw [hnil]
    rfl
  · rw [placeholders_join (placeholders_words ..), List.flatMap_map]
    induction conditions with
    | nil => rfl
    | cons condition conditions ih =>
      rw [List.flatMap_cons, conditionSlots_cons, List.map_append, placeholders_condition]
      cases conditions with
      | nil => rfl
      | cons next conditions => rw [ih (List.cons_ne_nil _ _)]

theorem placeholders_plain {gap : Gap} (hgap : placeholders gap.tokens = []) {phrases : List Phrase}
    (h : ∀ phrase ∈ phrases, placeholders phrase.tokens = []) : placeholders (Phrase.join gap phrases).tokens = [] := by
  rw [placeholders_join hgap, List.flatMap_eq_nil_iff]
  exact h

theorem placeholders_quoted (names : List String) :
    ∀ phrase ∈ names.map Phrase.quoted, placeholders phrase.tokens = [] := by
  intro phrase hphrase
  obtain ⟨name, _, rfl⟩ := List.mem_map.mp hphrase
  rfl

theorem placeholders_fromTable : placeholders fromTable.tokens = [] :=
  placeholders_words ..

theorem placeholders_filtered : placeholders filtered.tokens = [] :=
  placeholders_words ..

theorem placeholders_selecting : placeholders selecting.tokens = [] :=
  placeholders_opening ..

theorem placeholders_select (columns : List SelectItem) : placeholders (selectPhrase columns).tokens = [] := by
  rw [selectPhrase]
  split
  · rfl
  · refine placeholders_plain rfl fun phrase hphrase => ?_
    obtain ⟨⟨name, label⟩, _, rfl⟩ := List.mem_map.mp hphrase
    cases label <;> rfl

theorem placeholders_table (table : List String) : placeholders (tablePhrase table).tokens = [] :=
  placeholders_plain rfl (placeholders_quoted table)

theorem placeholders_order (terms : List OrderTerm) :
    ((orderPhrase terms).toList.flatMap fun phrase => placeholders phrase.tokens) = [] := by
  rw [orderPhrase]
  split
  · rfl
  · rw [Option.toList_some, List.flatMap_singleton]
    refine placeholders_plain rfl fun phrase hphrase => ?_
    obtain ⟨⟨name, direction⟩, _, rfl⟩ := List.mem_map.mp hphrase
    match direction with
    | none | some .asc | some .desc => rfl

theorem placeholders_numbers (numbers : List Nat) :
    placeholders (Phrase.join .comma (numbers.map .placeholder)).tokens = numbers := by
  rw [placeholders_join rfl, List.flatMap_map]
  exact List.flatMap_singleton' numbers

theorem placeholders_assignments (assignments : List (String × Nat)) :
    placeholders (Phrase.join .comma (assignments.map assignmentPhrase)).tokens = assignments.map Prod.snd := by
  rw [placeholders_join rfl, List.flatMap_map]
  exact List.flatMap_pure_eq_map Prod.snd assignments

theorem placeholders_where (phrase : Phrase) {gap : Gap} (hgap : placeholders gap.tokens = [])
    (conditions : Option (List Condition)) :
    placeholders (phrase.nextIfAny gap (conditions.map conditionsPhrase)).tokens =
      placeholders phrase.tokens ++ (conditionSlots (conditions.getD [])).map Prod.snd := by
  cases conditions with
  | none => exact (List.append_nil _).symm
  | some conditions =>
    rw [Option.map_some, Phrase.nextIfAny, placeholders_next phrase hgap, placeholders_conditions]
    rfl

theorem placeholders_statement {statement : Statement}
    (h : ∀ table columns values returning, statement = .insert table columns values returning →
      columns.length = values.length) :
    placeholders statement.phrase.tokens = (slots statement).map Prod.snd := by
  cases statement with
  | select columns table conditions orderBy limit offset =>
    have hlimit : ((limit.map Limit.phrase).toList.flatMap fun phrase => placeholders phrase.tokens) =
        (limitSlots limit).map Prod.snd := by
      match limit with
      | none | some .one | some (.placeholder _) => rfl
    have hoffset : ((offset.map Phrase.placeholder).toList.flatMap fun phrase => placeholders phrase.tokens) =
        (offset.toList.map fun number => (Slot.offset, number)).map Prod.snd := by
      cases offset <;> rfl
    rw [Statement.phrase, placeholders_nextIfAny _ (placeholders_words ..),
      placeholders_nextIfAny _ (placeholders_words ..), placeholders_nextIfAny _ (placeholders_words ..),
      placeholders_where _ placeholders_filtered, placeholders_next _ placeholders_fromTable,
      placeholders_opened _ placeholders_selecting, placeholders_select, placeholders_table, placeholders_order, hlimit, hoffset, slots]
    simp only [List.nil_append, List.append_nil, List.map_append]
  | insert table columns values returning =>
    have hlength := h table columns values returning rfl
    have hreturning : ((returning.map selectPhrase).toList.flatMap fun phrase => placeholders phrase.tokens) = [] := by
      cases returning with
      | none => rfl
      | some items =>
        rw [Option.map_some, Option.toList_some, List.flatMap_singleton]
        exact placeholders_select items
    rw [Statement.phrase, placeholders_nextIfAny _ (placeholders_words ..), placeholders_closed _ rfl,
      placeholders_next _ rfl, placeholders_next _ rfl, placeholders_opened _ (placeholders_opening ..),
      placeholders_table, placeholders_plain rfl (placeholders_quoted columns), placeholders_numbers, hreturning, slots,
      List.map_map]
    simp only [List.nil_append, List.append_nil]
    exact (List.map_snd_zip hlength.ge).symm
  | update table assignments conditions returning =>
    rw [Statement.phrase, placeholders_next _ (placeholders_words ..), placeholders_next _ placeholders_filtered,
      placeholders_next _ (placeholders_words ..), placeholders_opened _ (placeholders_opening ..), placeholders_table,
      placeholders_assignments, placeholders_conditions, placeholders_select, slots, List.map_append, List.map_map]
    simp only [List.nil_append, List.append_nil]
    rfl
  | delete table conditions =>
    rw [Statement.phrase, placeholders_next _ placeholders_filtered, placeholders_opened _ (placeholders_opening ..),
      placeholders_table, placeholders_conditions, slots, List.nil_append]

/-! ## The numbers of a rendered statement -/

def numbered {A : Type} (start : Nat) (items : List A) : List (A × Nat) :=
  items.zip (List.range' start items.length)

theorem numbered_append {A : Type} (start : Nat) (items items' : List A) :
    numbered start (items ++ items') = numbered start items ++ numbered (start + items.length) items' := by
  have hrange : List.range' start (items ++ items').length =
      List.range' start items.length ++ List.range' (start + items.length) items'.length := by
    rw [List.length_append, List.range'_append_1]
  rw [numbered, hrange, List.zip_append (List.length_range' ..).symm]
  rfl

theorem numbered_map {A B : Type} (f : A → B) (start : Nat) (items : List A) :
    numbered start (items.map f) = (numbered start items).map fun (item, number) => (f item, number) := by
  rw [numbered, List.length_map, List.zip_map_left]
  rfl

theorem numbered_snd {A : Type} (start : Nat) (items : List A) :
    (numbered start items).map Prod.snd = List.range' start items.length :=
  List.map_snd_zip (List.length_range' ..).le

def comparedSlot (entry : Entry) : Option (Slot × Option String) :=
  entry.2.map fun value => (.compared entry.1, some value)

def suppliedSlots (supplied : Supplied) : List (Slot × Option String) :=
  (supplied.input.map fun (column, value) => (.assigned column, value)) ++
    (supplied.filter.getD []).filterMap comparedSlot ++
    (supplied.limit.toList.map fun value => (.limit, some value)) ++
    supplied.offset.toList.map fun value => (.offset, some value)

theorem presentValues_eq (entries : List Entry) :
    presentValues entries = (entries.filterMap comparedSlot).map Prod.snd := by
  rw [presentValues, List.map_filterMap]
  congr 1
  funext entry
  rw [comparedSlot, Option.map_map]
  rfl

theorem params_eq (supplied : Supplied) : supplied.params = (suppliedSlots supplied).map Prod.snd := by
  rw [Supplied.params, suppliedSlots, presentValues_eq]
  simp only [List.map_append, List.map_map]
  rfl

theorem conditionSlots_conditionsOf (count : Nat) (entries : List Entry) :
    conditionSlots (conditionsOf count entries) =
      numbered (count + 1) ((entries.filterMap comparedSlot).map Prod.fst) := by
  induction entries generalizing count with
  | nil => rfl
  | cons entry entries ih =>
    obtain ⟨column, value⟩ := entry
    cases value with
    | none => exact ih count
    | some value =>
      have hfirst : ((column, some value) :: entries).filterMap comparedSlot =
          (.compared column, some value) :: entries.filterMap comparedSlot := rfl
      rw [conditionsOf, conditionSlots_cons, ih, hfirst, List.map_cons, numbered, numbered, List.length_cons,
        List.range'_succ, List.zip_cons_cons]
      rfl

variable {texts : Texts} {template : RequestTemplate} {ctx : RenderContext} {given : Supplied}

theorem assigned_slots (input : List Entry) :
    ((input.map Prod.fst).zip (numbersOf input)).map (fun (column, number) => (Slot.assigned column, number)) =
      numbered 1 ((input.map fun (column, value) => (Slot.assigned column, value)).map Prod.fst) := by
  have hcolumns : (input.map fun (column, value) => (Slot.assigned column, value)).map Prod.fst =
      (input.map Prod.fst).map Slot.assigned := by
    rw [List.map_map, List.map_map]
    rfl
  have hzip : (input.map Prod.fst).zip (numbersOf input) = numbered 1 (input.map Prod.fst) := by
    rw [numbered, List.length_map, numbersOf]
  rw [hcolumns, numbered_map, hzip]

theorem slots_statement (h : Supplies texts template ctx given) : slots (statement texts template given) =
    numbered 1 ((suppliedSlots given).map Prod.fst) := by
  have hconditions (filter : Option (List Entry)) : conditionSlots ((filter.map (conditionsOf 0)).getD []) =
      conditionSlots (conditionsOf 0 (filter.getD [])) := by
    cases filter <;> rfl
  cases h with
  | @select filter hoperation _ =>
    have hcount (limit offset : Option String) : (Supplied.mk [] filter (termsOf texts template ctx) limit
        offset).filterCount = ((filter.getD []).filterMap comparedSlot).length := by
      rw [Supplied.filterCount, presentValues_eq, List.length_map]
    rw [statement, suppliedSlots]
    simp only [hoperation, slots, hconditions, conditionSlots_conditionsOf, hcount, List.map_nil, List.nil_append,
      List.map_append, numbered_append, List.length_append, List.length_map]
    cases countOf ctx template.limit <;> cases countOf ctx template.offset <;> simp [limitSlots, numbered] <;> omega
  | selectOne hoperation _ =>
    rw [statement, suppliedSlots]
    simp only [hoperation, slots, hconditions, conditionSlots_conditionsOf, limitSlots, List.map_nil, List.nil_append,
      List.append_nil, Option.toList_none]
  | insert hoperation _ =>
    rw [statement, suppliedSlots]
    simp only [hoperation, slots, assigned_slots, Option.getD_none, List.filterMap_nil, Option.toList_none,
      List.map_nil, List.append_nil]
  | update hoperation _ _ _ =>
    rw [statement, suppliedSlots]
    simp only [hoperation, slots, assigned_slots, conditionSlots_conditionsOf, List.map_append, Option.toList_none,
      List.map_nil, List.append_nil, numbered_append, List.length_map, Nat.add_comm 1]
  | delete hoperation _ _ =>
    rw [statement, suppliedSlots]
    simp only [hoperation, slots, conditionSlots_conditionsOf, List.map_nil, List.nil_append, List.append_nil,
      Option.toList_none]

theorem statement_lengths {table columns : List String} {values : List Nat} {returning : Option (List SelectItem)}
    (h : statement texts template given = .insert table columns values returning) : columns.length = values.length := by
  rw [statement] at h
  split at h
  · cases h
    rw [numbersOf, List.length_range', List.length_map]
  all_goals cases h

/-- The values are those of the fields of the rendered input and filter and of the counts. -/
structure Belongs (texts : Texts) (template : RequestTemplate) (ctx : RenderContext) (given : Supplied) : Prop where
  input : given.input ≠ [] → ∃ input fields, template.input = some input ∧
    renderInput texts ctx input = .ok (.object fields) ∧
    List.Forall₂ (Resolves texts template.columns) fields given.input
  filter : ∀ entries ∈ given.filter, ∃ filter fields, template.filter = some filter ∧
    renderJsonValue ctx filter = .object fields ∧ List.Forall₂ (Resolves texts template.columns) fields entries
  limit : ∀ value ∈ given.limit, ∃ count, template.limit = some count ∧ count.render ctx.toPathContext = value
  offset : ∀ value ∈ given.offset, ∃ count, template.offset = some count ∧
    count.render ctx.toPathContext = value

theorem countOf_some {count : Option Templates.Mustache} {value : String} (h : value ∈ countOf ctx count) :
    ∃ template, count = some template ∧ template.render ctx.toPathContext = value := by
  cases count with
  | none => cases h
  | some template =>
    rw [countOf, Option.bind_some] at h
    split at h
    · cases h
    · exact ⟨template, rfl, Option.some.inj h⟩

theorem optionalFilter_ok {filter : Option (List Entry)} (h : optionalFilter texts template ctx = .ok filter) :
    ∀ entries ∈ filter, ∃ filter fields, template.filter = some filter ∧
      renderJsonValue ctx filter = .object fields ∧
      List.Forall₂ (Resolves texts template.columns) fields entries := by
  rw [optionalFilter] at h
  cases hfilter : template.filter with
  | none =>
    simp only [hfilter] at h
    cases h
    intro entries hentries
    cases hentries
  | some value =>
    simp only [hfilter] at h
    cases hentries : filterEntries texts template ctx value with
    | error error =>
      rw [hentries] at h
      cases h
    | ok entries =>
      rw [hentries] at h
      cases h
      intro _ hmem
      cases Option.mem_def.mp hmem
      obtain ⟨fields, hrendered, hresolves⟩ := filterEntries_ok hentries
      exact ⟨value, fields, rfl, hrendered, hresolves⟩

theorem belongs (h : Supplies texts template ctx given) : Belongs texts template ctx given := by
  cases h with
  | select _ hfilter =>
    exact ⟨fun hne => absurd rfl hne, optionalFilter_ok hfilter, fun _ => countOf_some, fun _ => countOf_some⟩
  | selectOne _ hfilter => exact ⟨fun hne => absurd rfl hne, optionalFilter_ok hfilter, nofun, nofun⟩
  | insert _ hinput =>
    obtain ⟨input, fields, hsome, hrendered, hresolves, _⟩ := inputEntries_ok hinput
    exact ⟨fun _ => ⟨input, fields, hsome, hrendered, hresolves⟩, nofun, nofun, nofun⟩
  | @update filter _ _ _ hfilter hinput hentries =>
    obtain ⟨input, fields, hsome, hrendered, hresolves, _⟩ := inputEntries_ok hinput
    obtain ⟨fields', hrendered', hresolves'⟩ := filterEntries_ok (requiredFilter_ok hentries).1
    refine ⟨fun _ => ⟨input, fields, hsome, hrendered, hresolves⟩, ?_, nofun, nofun⟩
    intro _ hmem
    cases Option.mem_def.mp hmem
    exact ⟨filter, fields', hfilter, hrendered', hresolves'⟩
  | @delete filter _ _ hfilter hentries =>
    obtain ⟨fields, hrendered, hresolves⟩ := filterEntries_ok (requiredFilter_ok hentries).1
    refine ⟨fun hne => absurd rfl hne, ?_, nofun, nofun⟩
    intro _ hmem
    cases Option.mem_def.mp hmem
    exact ⟨filter, fields, hfilter, hrendered, hresolves⟩

/-- The placeholders of a rendered query are `$1` to `$n` in order, and each stands for the value that is supplied
for the column or the clause at which it stands. -/
theorem render_numbers {query : RenderedQuery} (h : template.render texts ctx = .ok query) :
    ∃ given, Belongs texts template ctx given ∧ ∃ statement : Statement,
      lex query.sql.toList = some statement.phrase.tokens ∧
        placeholders statement.phrase.tokens = List.range' 1 query.params.length ∧
        slots statement = numbered 1 ((suppliedSlots given).map Prod.fst) ∧
        query.params = (suppliedSlots given).map Prod.snd := by
  obtain ⟨given, hgiven, rfl⟩ := render_ok h
  have hslots := slots_statement hgiven
  refine ⟨given, belongs hgiven, statement texts template given, Statement.lex_text _, ?_, hslots, params_eq given⟩
  rw [placeholders_statement fun _ _ _ _ heq => statement_lengths heq, hslots, numbered_snd, queryOf, params_eq,
    List.length_map, List.length_map]

def inputContext (fields : List (String × ConstValue)) : RenderContext where
  pathString := fun _ => none
  pathGraphql := fun _ => none
  rawValue := fun path => if path = ["args", "input"] then some (.value (.object fields) true) else none
  headers := []
  selectionSet := fun _ => none
  directives := none

def plainTexts : Texts where
  toCamel := id
  toUppercase := id
  fromStr := fun _ => .error ""
  json := fun _ => ""

def userUpdate : RequestTemplate where
  table := "users"
  operation := .update
  filter := some (.object [("id", .number (.int 7))])
  input := some ⟨[.expression ["args", "input"]]⟩
  limit := none
  offset := none
  orderBy := none
  columns := []
  resultMode := .rows

def userUpdateSql : String :=
  "UPDATE \"users\" SET \"name\" = $1, \"nick\" = $2 WHERE \"id\" = $3 RETURNING *"

theorem userUpdate_rendered : userUpdate.render plainTexts
    (inputContext [("name", .string "Ann"), ("nick", .null)]) = .ok {
      sql := userUpdateSql
      params := [some "Ann", none, some "7"] } := by
  decide

theorem userUpdate_numbers : ∃ given,
    Belongs plainTexts userUpdate (inputContext [("name", .string "Ann"), ("nick", .null)]) given ∧
      ∃ statement : Statement,
        lex userUpdateSql.toList =
            some statement.phrase.tokens ∧
          placeholders statement.phrase.tokens = List.range' 1 3 ∧
          slots statement = numbered 1 ((suppliedSlots given).map Prod.fst) ∧
          [some "Ann", none, some "7"] = (suppliedSlots given).map Prod.snd :=
  render_numbers userUpdate_rendered

/-! ## Conditions of a write -/

/-- A field of a filter and its condition: a null is compared by IS NULL, a value by a parameter of its own. -/
def Contributes (texts : Texts) (columns : List String) (params : List (Option String)) (field : String × ConstValue) :
    Condition → Prop
  | .equals column number => resolveColumnName texts columns field.1 = .ok column ∧
      ∃ value, PostgresParams.paramText texts.json field.2 = some value ∧ params[number - 1]? = some (some value)
  | .isNull column => resolveColumnName texts columns field.1 = .ok column ∧
      PostgresParams.paramText texts.json field.2 = none

theorem contributes_conditionsOf {columns : List String} {fields : List (String × ConstValue)} {entries : List Entry}
    (h : List.Forall₂ (Resolves texts columns) fields entries) (before : List (Option String)) :
    List.Forall₂ (Contributes texts columns (before ++ presentValues entries)) fields
      (conditionsOf before.length entries) := by
  induction h generalizing before with
  | nil => exact .nil
  | @cons field entry fields entries hfirst _ ih =>
    obtain ⟨column, value⟩ := entry
    obtain ⟨hcolumn, hvalue⟩ := hfirst
    cases value with
    | none => exact .cons ⟨hcolumn, hvalue.symm⟩ (ih before)
    | some value =>
      have hparams : before ++ presentValues ((column, some value) :: entries) =
          before ++ [some value] ++ presentValues entries := by
        rw [presentValues_cons, List.append_assoc]
        rfl
      have hrest := ih (before ++ [some value])
      rw [List.length_append, List.length_singleton] at hrest
      rw [hparams]
      refine .cons ⟨hcolumn, value, hvalue.symm, ?_⟩ hrest
      simp

/-- The conditions of a write: a WHERE clause that every field of the filter contributes to. -/
theorem write_filtered {query : RenderedQuery} (h : template.render texts ctx = .ok query)
    (hwrite : template.operation = .update ∨ template.operation = .delete) :
    ∃ filter fields table conditions, template.filter = some filter ∧ renderJsonValue ctx filter = .object fields ∧
      conditions ≠ [] ∧ List.Forall₂ (Contributes texts template.columns query.params) fields conditions ∧
      ((∃ assignments returning, lex query.sql.toList =
          some (Statement.update table assignments conditions returning).phrase.tokens) ∨
        lex query.sql.toList = some (Statement.delete table conditions).phrase.tokens) := by
  obtain ⟨given, hgiven, rfl⟩ := render_ok h
  cases hgiven with
  | select hoperation _ => exact absurd hwrite (by rw [hoperation]; decide)
  | selectOne hoperation _ => exact absurd hwrite (by rw [hoperation]; decide)
  | insert hoperation _ => exact absurd hwrite (by rw [hoperation]; decide)
  | @update filter input entries hoperation hfilter hinput hentries =>
    obtain ⟨hresolved, hne⟩ := requiredFilter_ok hentries
    obtain ⟨fields, hrendered, hresolves⟩ := filterEntries_ok hresolved
    have hconditions := contributes_conditionsOf hresolves (input.map Prod.snd)
    have hparams : (Supplied.mk input (some entries) [] none none).params =
        input.map Prod.snd ++ presentValues entries := by
      simp [Supplied.params]
    have htext := Statement.lex_text (.update (tableOf template.table) ((input.map Prod.fst).zip (numbersOf input))
      (conditionsOf input.length entries) (selectItems texts template))
    rw [List.length_map, ← hparams] at hconditions
    rw [← statement_update hoperation] at htext
    refine ⟨filter, fields, tableOf template.table, conditionsOf input.length entries, hfilter, hrendered,
      mt conditionsOf_eq_nil.mp hne, hconditions, .inl ⟨(input.map Prod.fst).zip (numbersOf input),
        selectItems texts template, ?_⟩⟩
    rw [← statement_update hoperation]
    exact htext
  | @delete filter entries hoperation hfilter hentries =>
    obtain ⟨hresolved, hne⟩ := requiredFilter_ok hentries
    obtain ⟨fields, hrendered, hresolves⟩ := filterEntries_ok hresolved
    have hconditions := contributes_conditionsOf hresolves []
    have hparams : (Supplied.mk [] (some entries) [] none none).params = [] ++ presentValues entries := by
      simp [Supplied.params]
    have htext := Statement.lex_text (.delete (tableOf template.table) (conditionsOf 0 entries))
    rw [← hparams] at hconditions
    refine ⟨filter, fields, tableOf template.table, conditionsOf 0 entries, hfilter, hrendered,
      mt conditionsOf_eq_nil.mp hne, hconditions, .inr ?_⟩
    have hstatement : statement texts template ⟨[], some entries, [], none, none⟩ = _ :=
      statement_delete hoperation entries
    rw [← hstatement] at htext ⊢
    exact htext

theorem userUpdate_filtered : ∃ filter fields table conditions, userUpdate.filter = some filter ∧
    renderJsonValue (inputContext [("name", .string "Ann"), ("nick", .null)]) filter = .object fields ∧
    conditions ≠ [] ∧
    List.Forall₂ (Contributes plainTexts userUpdate.columns [some "Ann", none, some "7"]) fields conditions ∧
    ((∃ assignments returning, lex userUpdateSql.toList =
        some (Statement.update table assignments conditions returning).phrase.tokens) ∨
      lex userUpdateSql.toList =
        some (Statement.delete table conditions).phrase.tokens) :=
  write_filtered userUpdate_rendered (.inl rfl)

end Gqlforge.NumberedParams
