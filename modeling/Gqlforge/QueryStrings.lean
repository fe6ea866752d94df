import Gqlforge.FormUrlencoded
import Gqlforge.RequestTemplates

namespace Gqlforge.QueryStrings

open BigEndian FormUrlencoded Json RequestTemplates RequestTemplates.Http.RequestTemplate Resolvers.Http

def strings (field : List Char × List Char) : String × String :=
  (String.ofList field.1, String.ofList field.2)

/-- A query keeps its separators, signs and escapes when it is set, and loses tabs and line breaks; its pairs are
decoded. -/
structure Decodes (wire : Wire) (read : Bytes → List Char) : Prop where
  utf8 : Utf8 read
  queryPairs_none (url : String) : wire.queryPairs (wire.setQuery url none) = []
  queryPairs_some (url query : String) :
    wire.queryPairs (wire.setQuery url (some query)) = (parse read (visible query.toList)).map strings

mutual

def repeatedEntries (key : String) : ConstValue → List Entry
  | .list [] => [(key.toList, none)]
  | .list (first :: rest) => repeatedEntries key first ++ allEntries key rest
  | value => [(key.toList, (convertValue value).map String.toList)]

def allEntries (key : String) : List ConstValue → List Entry
  | [] => []
  | value :: rest => repeatedEntries key value ++ allEntries key rest

end

def valueEntries (encoder : QueryEncoder) (key : String) (value : ConstValue) : List Entry :=
  match encoder, value with
  | .commaSeparated, .list (first :: rest) =>
    match (first :: rest).filterMap convertValue with
    | [] => [(key.toList, none)]
    | texts => [(key.toList, some (",".intercalate texts).toList)]
  | .commaSeparated, value => [(key.toList, (convertValue value).map String.toList)]
  | .repeatedKey, value => repeatedEntries key value

def queryEntries (encoder : QueryEncoder) (key : String) : Option ValueString → List Entry
  | some (.value value _) => valueEntries encoder key value
  | some (.string text) => [(key.toList, some text.toList)]
  | none => [(key.toList, none)]

def baseEntries (pairs : List (String × String)) : List Entry :=
  pairs.filterMap fun (key, value) => if value.isEmpty then none else some (key.toList, some value.toList)

def renderedEntries (template : RequestTemplate) (ctx : RenderContext) : List Entry :=
  template.query.flatMap fun query =>
    let parsedValue := valueStringEval query.value ctx
    if query.skipEmpty && parsedValue.isNone then [] else queryEntries template.queryEncoder query.key parsedValue

def pairsOf (entries : List Entry) : List (String × String) :=
  entries.map fun entry => strings entry.pair

section

variable {read : Bytes → List Char}

def parsed (read : Bytes → List Char) (text : String) : List (List Char × List Char) :=
  parse read (visible text.toList)

def parsedEntries (read : Bytes → List Char) (entries : List Entry) : List (List Char × List Char) :=
  entries.flatMap fun entry => parse read (visible entry.text)

theorem parsed_append (text text' : String) : parsed read (text ++ "&" ++ text') = parsed read text ++ parsed read text' := by
  rw [parsed, String.toList_append, String.toList_append, List.append_assoc, visible_append, visible_append]
  exact parse_append _ _

theorem parsed_joinQuery (items : List String) : parsed read (joinQuery items) = items.flatMap (parsed read) := by
  have hfold (text : String) : parsed read (items.foldl (fun text item =>
      if text.isEmpty then item else if item.isEmpty then text else text ++ "&" ++ item) text) =
        parsed read text ++ items.flatMap (parsed read) := by
    induction items generalizing text with
    | nil => rw [List.foldl_nil, List.flatMap_nil, List.append_nil]
    | cons item items ih =>
      rw [List.foldl_cons, ih, List.flatMap_cons, ← List.append_assoc]
      congr 1
      split
      next htext =>
        rw [String.isEmpty_iff.mp htext]
        rfl
      next =>
        split
        next hitem =>
          rw [String.isEmpty_iff.mp hitem]
          exact (List.append_nil _).symm
        next => exact parsed_append text item
  exact hfold ""

theorem parsed_intercalate (items : List String) : parsed read ("&".intercalate items) = items.flatMap (parsed read) := by
  induction items with
  | nil => rfl
  | cons item items ih =>
    cases items with
    | nil => rw [String.intercalate_singleton, List.flatMap_cons, List.flatMap_nil, List.append_nil]
    | cons next items =>
      rw [String.intercalate_cons_cons, parsed_append, ih]
      rfl

theorem parsed_plain (key : String) (value : ConstValue) : parsed read (encodePlain key value) =
    parsedEntries read [(key.toList, (convertValue value).map String.toList)] := by
  rw [encodePlain, parsedEntries, List.flatMap_singleton]
  cases convertValue value with
  | none => rfl
  | some text =>
    rw [Option.map_some, Option.map_some, Option.getD_some, parsed, String.toList_append, String.toList_append,
      List.append_assoc]
    rfl

theorem parsedEntries_append (entries entries' : List Entry) :
    parsedEntries read (entries ++ entries') = parsedEntries read entries ++ parsedEntries read entries' :=
  List.flatMap_append

mutual

theorem parsed_encodeRepeated (key : String) :
    ∀ value, parsed read (encodeRepeated key value) = parsedEntries read (repeatedEntries key value)
  | .list [] => by
    rw [encodeRepeated, repeatedEntries, parsedEntries, List.flatMap_singleton]
    rfl
  | .list (first :: rest) => by
    rw [encodeRepeated, parsed_intercalate, List.flatMap_cons, parsed_encodeRepeated key first,
      parsed_encodeAll key rest, repeatedEntries, parsedEntries_append]
  | .null => parsed_plain key .null
  | .number value => parsed_plain key (.number value)
  | .string value => parsed_plain key (.string value)
  | .boolean value => parsed_plain key (.boolean value)
  | .enum name => parsed_plain key (.enum name)
  | .object fields => parsed_plain key (.object fields)

theorem parsed_encodeAll (key : String) :
    ∀ values, (encodeAll key values).flatMap (parsed read) = parsedEntries read (allEntries key values)
  | [] => rfl
  | value :: rest => by
    rw [encodeAll, List.flatMap_cons, parsed_encodeRepeated key value, parsed_encodeAll key rest, allEntries,
      parsedEntries_append]

end

theorem parsed_named (key value : String) :
    parsed read (key ++ "=" ++ value) = parsedEntries read [(key.toList, some value.toList)] := by
  rw [parsedEntries, List.flatMap_singleton, parsed, String.toList_append, String.toList_append, List.append_assoc]
  rfl

theorem parsed_unnamed (key : String) : parsed read key = parsedEntries read [(key.toList, none)] := by
  rw [parsedEntries, List.flatMap_singleton]
  rfl

theorem parsed_encode (encoder : QueryEncoder) (key : String) (value : Option ValueString) :
    parsed read (encode encoder key value) = parsedEntries read (queryEntries encoder key value) := by
  rcases value with _ | (⟨value, _⟩ | text)
  · exact parsed_unnamed key
  · cases encoder with
    | repeatedKey => exact parsed_encodeRepeated key value
    | commaSeparated =>
      cases value with
      | list items =>
        cases items with
        | nil => exact parsed_plain key (.list [])
        | cons first rest =>
          rw [encode, encodeConstValue, queryEntries, valueEntries]
          cases (first :: rest).filterMap convertValue with
          | nil => exact parsed_unnamed key
          | cons text texts => exact parsed_named key _
      | null => exact parsed_plain key .null
      | number value => exact parsed_plain key (.number value)
      | string value => exact parsed_plain key (.string value)
      | boolean value => exact parsed_plain key (.boolean value)
      | enum name => exact parsed_plain key (.enum name)
      | object fields => exact parsed_plain key (.object fields)
  · exact parsed_named key text

end

section

variable {wire : Wire} {read : Bytes → List Char} {template : RequestTemplate} {ctx : RenderContext}

/-- In the pairs of the base URL and in the rendered ones there is nothing that means something else in a query. -/
def Plain (wire : Wire) (template : RequestTemplate) (ctx : RenderContext) (url : String) : Prop :=
  if template.query.isEmpty && template.rootUrl.isConst then ∀ pair ∈ wire.queryPairs url, pair.2.isEmpty = false
  else ∀ entry ∈ baseEntries (wire.queryPairs url) ++ renderedEntries template ctx, PlainEntry entry

theorem parsed_filterMap {α : Type} {item : α → Option String} {entries : α → List Entry}
    (h : ∀ x, (item x).toList.flatMap (parsed read) = parsedEntries read (entries x)) (xs : List α) :
    (xs.filterMap item).flatMap (parsed read) = parsedEntries read (xs.flatMap entries) := by
  induction xs with
  | nil => rfl
  | cons x xs ih =>
    rw [List.flatMap_cons, parsedEntries_append, ← h, ← ih]
    cases hitem : item x with
    | none => rw [List.filterMap_cons_none hitem]; rfl
    | some text => rw [List.filterMap_cons_some hitem, Option.toList_some, List.flatMap_singleton, List.flatMap_cons]

theorem parsed_base (pairs : List (String × String)) :
    (pairs.filterMap fun (key, value) => if value.isEmpty then none else some (key ++ "=" ++ value)).flatMap
      (parsed read) = parsedEntries read (baseEntries pairs) := by
  have hbase : baseEntries pairs = pairs.flatMap _ := List.filterMap_eq_flatMap_toList _ _
  rw [hbase]
  apply parsed_filterMap
  rintro ⟨key, value⟩
  by_cases hvalue : value.isEmpty = true
  · simp only [if_pos hvalue]
    rfl
  · simp only [if_neg hvalue]
    exact (List.flatMap_singleton _ _).trans (parsed_named key value)

theorem parsed_extra : (template.query.filterMap fun query =>
      let parsedValue := valueStringEval query.value ctx
      if query.skipEmpty && parsedValue.isNone then none
      else some (encode template.queryEncoder query.key parsedValue)).flatMap (parsed read) =
    parsedEntries read (renderedEntries template ctx) := by
  apply parsed_filterMap
  intro query
  by_cases hskip : (query.skipEmpty && (valueStringEval query.value ctx).isNone) = true
  · simp only [if_pos hskip]
    rfl
  · simp only [if_neg hskip]
    exact (List.flatMap_singleton _ _).trans (parsed_encode _ _ _)

theorem queryPairs_createUrl (hdecodes : Decodes wire read) {url : String}
    (hurl : wire.parseUrl (template.rootUrl.render ctx.toPathContext) = some url)
    (hquery : (template.query.isEmpty && template.rootUrl.isConst) = false) :
    ∃ result, createUrl wire template ctx = some result ∧ wire.queryPairs result =
      (parsedEntries read (baseEntries (wire.queryPairs url) ++ renderedEntries template ctx)).map strings := by
  have hset (text : String) :
      wire.queryPairs (wire.setQuery url (if text.isEmpty then none else some text)) = (parsed read text).map strings := by
    by_cases hempty : text.isEmpty = true
    · rw [if_pos hempty, hdecodes.queryPairs_none, String.isEmpty_iff.mp hempty]
      rfl
    · rw [if_neg hempty, hdecodes.queryPairs_some]
      rfl
  rw [createUrl, hurl, Option.bind_eq_bind, Option.bind_some, hquery]
  refine ⟨_, rfl, ?_⟩
  rw [hset, parsed_joinQuery, List.flatMap_append, parsed_base, parsed_extra, parsedEntries_append]

theorem strings_injective : Function.Injective strings := by
  intro field field' h
  obtain ⟨hkey, hvalue⟩ := Prod.mk.inj h
  exact Prod.ext (String.ofList_injective hkey) (String.ofList_injective hvalue)

theorem baseEntries_cons (key value : String) (pairs : List (String × String)) :
    baseEntries ((key, value) :: pairs) =
      if value.isEmpty then baseEntries pairs else (key.toList, some value.toList) :: baseEntries pairs := by
  by_cases hvalue : value.isEmpty = true
  · rw [if_pos hvalue]
    exact List.filterMap_cons_none (if_pos hvalue)
  · rw [if_neg hvalue]
    exact List.filterMap_cons_some (if_neg hvalue)

theorem pairsOf_baseEntries (pairs : List (String × String)) :
    pairsOf (baseEntries pairs) = pairs.filter fun pair => !pair.2.isEmpty := by
  induction pairs with
  | nil => rfl
  | cons pair pairs ih =>
    obtain ⟨key, value⟩ := pair
    rw [baseEntries_cons]
    by_cases hvalue : value.isEmpty = true
    · rw [if_pos hvalue, List.filter_cons_of_neg (by simp [hvalue]), ih]
    · rw [if_neg hvalue, List.filter_cons_of_pos (by simp [hvalue]), ← ih, pairsOf, List.map_cons]
      simp only [strings, Entry.pair, Option.getD_some, String.ofList_toList]
      rfl

/-- The query of the URL has exactly the pairs that were asked for where these are plain. -/
theorem query_faithful_iff (hdecodes : Decodes wire read) {url : String}
    (hurl : wire.parseUrl (template.rootUrl.render ctx.toPathContext) = some url) :
    (∃ result, createUrl wire template ctx = some result ∧
      wire.queryPairs result = pairsOf (baseEntries (wire.queryPairs url) ++ renderedEntries template ctx)) ↔
      Plain wire template ctx url := by
  by_cases hquery : (template.query.isEmpty && template.rootUrl.isConst) = true
  · have hrendered : renderedEntries template ctx = [] := by
      rw [renderedEntries, List.isEmpty_iff.mp (Bool.and_eq_true_iff.mp hquery).1]
      rfl
    have hresult : createUrl wire template ctx = some url := by
      rw [createUrl, hurl, Option.bind_eq_bind, Option.bind_some, if_pos hquery]
      rfl
    rw [Plain, if_pos hquery, hrendered, List.append_nil, pairsOf_baseEntries]
    constructor
    · rintro ⟨result', hresult', hpairs⟩ pair hpair
      obtain rfl := Option.some.inj (hresult.symm.trans hresult')
      rw [hpairs] at hpair
      exact Bool.eq_false_of_not_eq_true (by simpa using (List.mem_filter.mp hpair).2)
    · intro h
      exact ⟨url, hresult, (List.filter_eq_self.mpr fun pair hpair => by simp [h pair hpair]).symm⟩
  · rw [Bool.not_eq_true] at hquery
    obtain ⟨result, hresult, hpairs⟩ := queryPairs_createUrl hdecodes hurl hquery
    rw [Plain, if_neg (Bool.not_eq_true _ ▸ hquery), ← parse_entries_iff hdecodes.utf8]
    have hmap : pairsOf (baseEntries (wire.queryPairs url) ++ renderedEntries template ctx) =
        ((baseEntries (wire.queryPairs url) ++ renderedEntries template ctx).map Entry.pair).map strings := by
      rw [List.map_map]
      rfl
    constructor
    · rintro ⟨result', hresult', hpairs'⟩
      obtain rfl := Option.some.inj (hresult.symm.trans hresult')
      rw [hpairs, hmap] at hpairs'
      exact List.map_injective_iff.mpr strings_injective hpairs'
    · intro h
      exact ⟨result, hresult, by rw [hpairs, parsedEntries, h, hmap]⟩

end

def formWire : Wire where
  parseUrl := some
  queryPairs url := (parse readUtf8 ((url.toList.dropWhile (· != '?')).drop 1)).map strings
  setQuery url
    | some query => String.ofList (url.toList.takeWhile (· != '?') ++ '?' :: visible query.toList)
    | none => String.ofList (url.toList.takeWhile (· != '?'))
  parseJson _ := none
  urlencode _ := none
  convertInput _ _ := none

theorem bne_of_mem_takeWhile {sep c : Char} {text : List Char} (h : c ∈ text.takeWhile (· != sep)) :
    (c != sep) = true :=
  @List.mem_takeWhile_imp _ (· != sep) text c h

theorem formWire_decodes : Decodes formWire readUtf8 where
  utf8 := readUtf8_utf8
  queryPairs_none url := by
    have hdrop : (url.toList.takeWhile (· != '?')).dropWhile (· != '?') = [] :=
      List.dropWhile_eq_nil_iff.mpr fun c hc => bne_of_mem_takeWhile hc
    simp only [formWire, String.toList_ofList, hdrop]
    rfl
  queryPairs_some url query := by
    have hdrop : (url.toList.takeWhile (· != '?') ++ '?' :: visible query.toList).dropWhile (· != '?') =
        '?' :: visible query.toList := by
      rw [List.dropWhile_append_of_pos fun c hc => bne_of_mem_takeWhile hc]
      rfl
    simp only [formWire, String.toList_ofList, hdrop]
    rfl

def searchTemplate : RequestTemplate :=
  ⟨⟨[.literal "http://users/search"]⟩, [⟨"name", ⟨[.expression ["args", "name"]]⟩, false⟩], .get, [], none,
    .applicationJson, .repeatedKey⟩

def searchContext (name : String) : RenderContext where
  pathString _ := none
  pathGraphql _ := none
  rawValue parts := if parts = ["args", "name"] then some (.value (.string name) false) else none
  headers := []
  selectionSet _ := none
  directives := none

theorem query_faithful_ann : (∃ result, createUrl formWire searchTemplate (searchContext "ann") = some result ∧
    formWire.queryPairs result = pairsOf (baseEntries (formWire.queryPairs "http://users/search") ++
      renderedEntries searchTemplate (searchContext "ann"))) ↔
    Plain formWire searchTemplate (searchContext "ann") "http://users/search" :=
  query_faithful_iff formWire_decodes rfl

theorem parameter_injected :
    createUrl formWire searchTemplate (searchContext "ann&admin=true") =
      some "http://users/search?name=ann&admin=true" ∧
    formWire.queryPairs "http://users/search?name=ann&admin=true" = [("name", "ann"), ("admin", "true")] ∧
    ¬ ∃ result, createUrl formWire searchTemplate (searchContext "ann&admin=true") = some result ∧
      formWire.queryPairs result = pairsOf (baseEntries (formWire.queryPairs "http://users/search") ++
        renderedEntries searchTemplate (searchContext "ann&admin=true")) := by
  have hresult : createUrl formWire searchTemplate (searchContext "ann&admin=true") =
      some "http://users/search?name=ann&admin=true" := by
    decide
  have hpairs : formWire.queryPairs "http://users/search?name=ann&admin=true" = [("name", "ann"), ("admin", "true")] := by
    decide
  have hasked : pairsOf (baseEntries (formWire.queryPairs "http://users/search") ++
      renderedEntries searchTemplate (searchContext "ann&admin=true")) = [("name", "ann&admin=true")] := by
    decide
  refine ⟨hresult, hpairs, ?_⟩
  rintro ⟨result, h, h'⟩
  obtain rfl := Option.some.inj (hresult.symm.trans h)
  rw [hpairs, hasked] at h'
  exact absurd h' (by decide)

end Gqlforge.QueryStrings
