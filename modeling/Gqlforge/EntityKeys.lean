import Gqlforge.SelectionTexts
import Gqlforge.Templates
import Gqlforge.Validation
import Mathlib.Data.List.Forall2

namespace Gqlforge.EntityKeys

open Json Templates Validation SelectionTexts

inductive Keys where
  | mk (fields : List (String × Keys))

namespace Keys

def fields : Keys → List (String × Keys)
  | mk fields => fields

def empty : Keys := mk []

def isEmpty (keys : Keys) : Bool :=
  keys.fields.isEmpty

def alterField (fields : List (String × Keys)) (name : String) (alter : Option Keys → Keys) : List (String × Keys) :=
  match fields with
  | [] => [(name, alter none)]
  | (key, value) :: rest =>
    if key = name then (key, alter (some value)) :: rest
    else if name < key then (name, alter none) :: (key, value) :: rest
    else (key, value) :: alterField rest name alter

def setPath : List String → Keys → Keys
  | [], keys => keys
  | part :: path, mk fields => mk (alterField fields part fun present => setPath path (present.getD empty))

mutual

def mergeRight (keys : Keys) : Keys → Keys
  | mk others => mk (mergeFields keys.fields others)

def mergeFields (fields : List (String × Keys)) : List (String × Keys) → List (String × Keys)
  | [] => fields
  | (name, other) :: others =>
    mergeFields
      (alterField fields name fun present => match present with
        | some keys => mergeRight keys other
        | none => other)
      others

end

mutual

def display : Keys → List Char
  | mk fields => displayFields fields

def displayFields : List (String × Keys) → List Char
  | [] => []
  | (key, value) :: rest =>
    key.toList ++ (if value.isEmpty then [] else [' ', '\x7b', ' '] ++ display value ++ [' ', '\x7d']) ++
      (if rest.isEmpty then [] else ' ' :: displayFields rest)

end

def toString (keys : Keys) : String :=
  String.ofList keys.display

def Has : Keys → List String → Prop
  | _, [] => True
  | mk fields, name :: path => ∃ child, (name, child) ∈ fields ∧ child.Has path

end Keys

def combineKeys (keys : List Keys) : Keys :=
  keys.foldl Keys.mergeRight .empty

structure KeyValue where
  key : String
  value : String

structure Http where
  url : String
  body : Option ConstValue
  headers : List KeyValue
  query : List KeyValue

structure Grpc where
  url : String
  method : String
  body : Option ConstValue
  headers : List KeyValue

structure GraphQL where
  headers : List KeyValue
  args : Option (List KeyValue)

structure Step where
  args : List (String × ConstValue)

structure Call where
  steps : List Step

structure Postgres where
  filter : Option ConstValue
  input : Option String
  limit : Option String
  offset : Option String
  orderBy : Option String

structure Greptimedb where
  filter : Option ConstValue
  input : Option String
  limit : Option String
  offset : Option String
  orderBy : Option String

structure Redis where
  key : Option String
  field : Option String
  value : Option String
  ttl : Option String
  start : Option String
  stop : Option String
  channel : Option String

structure S3 where
  bucket : String
  key : Option String
  prefixOf : Option String
  contentType : Option String

inductive Resolver where
  | http (spec : Http)
  | grpc (spec : Grpc)
  | graphql (spec : GraphQL)
  | call (spec : Call)
  | js (name : String)
  | expr (body : ConstValue)
  | postgres (spec : Postgres)
  | greptimedb (spec : Greptimedb)
  | redis (spec : Redis)
  | s3 (spec : S3)
  | service
  | entities (resolverByType : List (String × Resolver))

namespace KeysExtractor

def parseStr (s : String) : Valid Keys String :=
  let segments := (Mustache.parse s).segments
  (Valid.fromIter segments fun
    | .expression ("args" :: _) => .fail "Type resolver can't use `.args`, use `.value` instead"
    | _ => .succeed ()).mapOk fun _ => segments.foldl (fun keys segment => match segment with
      | .expression ("value" :: path) => keys.setPath path
      | _ => keys) .empty

def parseKeyValueIter (pairs : List KeyValue) : Valid Keys String :=
  (Valid.fromIter pairs fun pair => (parseStr pair.key).zip (parseStr pair.value)).mapOk fun parsed =>
    parsed.foldl (fun keys (key, value) => (keys.mergeRight key).mergeRight value) .empty

mutual

def parseValue : ConstValue → Valid Keys String
  | .string s => parseStr s
  | .list items => (Valid.collect (parseItems items)).mapOk combineKeys
  | .object fields => (Valid.collect (parseFields fields)).mapOk combineKeys
  | _ => .succeed .empty

def parseItems : List ConstValue → List (Valid Keys String)
  | [] => []
  | value :: items => parseValue value :: parseItems items

def parseFields : List (String × ConstValue) → List (Valid Keys String)
  | [] => []
  | (key, value) :: fields =>
    ((parseStr key).zip (parseValue value)).mapOk (fun (key, value) => key.mergeRight value) :: parseFields fields

end

def parseOption {α : Type} (parse : α → Valid Keys String) : Option α → Valid Keys String
  | some value => parse value
  | none => .succeed .empty

section

variable (jsonText : ConstValue → String)

def extractParts : Resolver → Valid (Option (List Keys)) String
  | .http spec => ((Valid.collect [
      (parseStr spec.url).trace "url",
      (parseOption (fun body => parseStr (jsonText body)) spec.body).trace "body",
      (parseKeyValueIter spec.headers).trace "headers",
      (parseKeyValueIter spec.query).trace "query"]).trace "http").mapOk some
  | .grpc spec => ((Valid.collect [parseStr spec.url, parseStr spec.method, parseOption parseValue spec.body,
      parseKeyValueIter spec.headers]).trace "grpc").mapOk some
  | .graphql spec => ((Valid.collect [parseKeyValueIter spec.headers,
      parseOption parseKeyValueIter spec.args]).trace "graphQL").mapOk some
  | .call spec => ((((Valid.fromOption spec.steps.head? "Call should define at least one step").andThen fun step =>
      Valid.fromIter step.args fun arg => Valid.collect [parseStr arg.1, parseValue arg.2]).mapOk
        List.flatten).trace "call").mapOk some
  | .expr body => ((Valid.collect [parseValue body]).trace "call").mapOk some
  | _ => .succeed none

def extractKeys (resolver : Resolver) : Valid (Option String) String :=
  (extractParts jsonText resolver).mapOk fun parts => parts.bind fun parts =>
    let keys := combineKeys parts
    if keys.isEmpty then none else some keys.toString

end

end KeysExtractor

def pathsOf (template : String) : List (List String) :=
  (Mustache.parse template).segments.filterMap fun
    | .expression ("value" :: path) => some path
    | _ => none

mutual

def strings : ConstValue → List String
  | .string s => [s]
  | .list items => stringsOfItems items
  | .object fields => stringsOfFields fields
  | _ => []

def stringsOfItems : List ConstValue → List String
  | [] => []
  | value :: items => strings value ++ stringsOfItems items

def stringsOfFields : List (String × ConstValue) → List String
  | [] => []
  | (key, value) :: fields => key :: strings value ++ stringsOfFields fields

end

def pairStrings (pairs : List KeyValue) : List String :=
  pairs.flatMap fun pair => [pair.key, pair.value]

def Step.templates (step : Step) : List String :=
  step.args.flatMap fun (key, value) => key :: strings value

section

variable (jsonText : ConstValue → String)

def Resolver.templates : Resolver → List String
  | .http spec => spec.url :: spec.body.toList.map jsonText ++ pairStrings spec.headers ++ pairStrings spec.query
  | .grpc spec => spec.url :: spec.method :: spec.body.toList.flatMap strings ++ pairStrings spec.headers
  | .graphql spec => pairStrings spec.headers ++ pairStrings (spec.args.getD [])
  | .call spec => spec.steps.flatMap Step.templates
  | .expr body => strings body
  | .postgres spec => spec.filter.toList.flatMap strings ++
    (spec.input.toList ++ spec.limit.toList ++ spec.offset.toList ++ spec.orderBy.toList)
  | .greptimedb spec => spec.filter.toList.flatMap strings ++
    (spec.input.toList ++ spec.limit.toList ++ spec.offset.toList ++ spec.orderBy.toList)
  | .redis spec => spec.key.toList ++ spec.field.toList ++ spec.value.toList ++ spec.ttl.toList ++
    spec.start.toList ++ spec.stop.toList ++ spec.channel.toList
  | .s3 spec => spec.bucket :: spec.key.toList ++ spec.prefixOf.toList ++ spec.contentType.toList
  | .js _ | .service | .entities _ => []

def Resolver.reads (resolver : Resolver) : List (List String) :=
  (resolver.templates jsonText).flatMap pathsOf

end

def Exact (has : List String → Prop) (paths : List (List String)) : Prop :=
  ∀ name rest, has (name :: rest) ↔ ∃ path ∈ paths, name :: rest <+: path

section

variable {a b : Keys} {paths paths' : List (List String)}

theorem has_nil (keys : Keys) : keys.Has [] := by
  cases keys
  trivial

theorem has_cons (fields : List (String × Keys)) (name : String) (path : List String) :
    (Keys.mk fields).Has (name :: path) ↔ ∃ child, (name, child) ∈ fields ∧ child.Has path := Iff.rfl

theorem has_cons_cons (name key : String) (child : Keys) (fields : List (String × Keys)) (path : List String) :
    (Keys.mk ((name, child) :: fields)).Has (key :: path) ↔
      key = name ∧ child.Has path ∨ (Keys.mk fields).Has (key :: path) := by
  simp only [has_cons, List.mem_cons, Prod.mk.injEq]
  constructor
  · rintro ⟨child', ⟨rfl, rfl⟩ | hmem, hpath⟩
    · exact .inl ⟨rfl, hpath⟩
    · exact .inr ⟨child', hmem, hpath⟩
  · rintro (⟨rfl, hpath⟩ | ⟨child', hmem, hpath⟩)
    · exact ⟨child, .inl ⟨rfl, rfl⟩, hpath⟩
    · exact ⟨child', .inr hmem, hpath⟩

theorem has_alterField {alter : Option Keys → Keys} (has : List String → Prop)
    (hpresent : ∀ keys path, (alter (some keys)).Has path ↔ keys.Has path ∨ has path)
    (habsent : ∀ path, (alter none).Has path ↔ has path) (fields : List (String × Keys)) (name key : String)
    (path : List String) : (Keys.mk (Keys.alterField fields name alter)).Has (key :: path) ↔
      (Keys.mk fields).Has (key :: path) ∨ key = name ∧ has path := by
  induction fields with
  | nil => simp [Keys.alterField, has_cons, habsent]
  | cons field rest ih =>
    obtain ⟨first, child⟩ := field
    rw [Keys.alterField]
    split
    next he =>
      subst he
      rw [has_cons_cons, has_cons_cons, hpresent, and_or_left, or_right_comm]
    next =>
      split
      · rw [has_cons_cons, habsent]
        exact or_comm
      · rw [has_cons_cons, has_cons_cons, ih, or_assoc]

theorem has_setPath (set path : List String) (keys : Keys) :
    (keys.setPath set).Has path ↔ keys.Has path ∨ path <+: set := by
  induction set generalizing keys path with
  | nil =>
    cases path with
    | nil => simp [has_nil]
    | cons key path => simp [Keys.setPath]
  | cons part set ih =>
    obtain ⟨fields⟩ := keys
    cases path with
    | nil => simp [has_nil]
    | cons key path =>
      rw [Keys.setPath, has_alterField (· <+: set) (fun keys path => ih path keys),
        List.cons_prefix_cons]
      intro path
      rw [ih]
      cases path with
      | nil => simp
      | cons => simp [Keys.empty, has_cons]

mutual

theorem has_mergeRight (keys other : Keys) (path : List String) :
    (keys.mergeRight other).Has path ↔ keys.Has path ∨ other.Has path := by
  obtain ⟨others⟩ := other
  obtain ⟨fields⟩ := keys
  exact has_mergeFields fields others path

theorem has_mergeFields (fields others : List (String × Keys)) (path : List String) :
    (Keys.mk (Keys.mergeFields fields others)).Has path ↔ (Keys.mk fields).Has path ∨ (Keys.mk others).Has path := by
  cases path with
  | nil => simp [has_nil]
  | cons key path =>
    match others with
    | [] => simp [Keys.mergeFields, has_cons]
    | (name, other) :: others =>
      rw [Keys.mergeFields, has_mergeFields _ others, has_alterField other.Has
        (fun keys path => has_mergeRight keys other path) fun path => Iff.rfl, or_assoc]
      exact or_congr_right (has_cons_cons name key other others path).symm

end

theorem exact_empty : Exact Keys.empty.Has [] := by
  intro name rest
  simp [Keys.empty, has_cons]

theorem exact_setPath (h : Exact a.Has paths) (path : List String) : Exact (a.setPath path).Has (paths ++ [path]) := by
  intro name rest
  rw [has_setPath, h name rest]
  simp [or_and_right, exists_or]

theorem exact_mergeRight (h : Exact a.Has paths) (h' : Exact b.Has paths') :
    Exact (a.mergeRight b).Has (paths ++ paths') := by
  intro name rest
  rw [has_mergeRight, h name rest, h' name rest]
  simp [or_and_right, exists_or]

theorem exact_foldl {keys : List Keys} {found : List (List (List String))}
    (h : List.Forall₂ (fun keys paths => Exact keys.Has paths) keys found) (hstart : Exact a.Has paths) :
    Exact (keys.foldl Keys.mergeRight a).Has (paths ++ found.flatten) := by
  induction h generalizing a paths with
  | nil => simpa using hstart
  | cons hfirst _ ih =>
    rw [List.foldl_cons, List.flatten_cons, ← List.append_assoc]
    exact ih (exact_mergeRight hstart hfirst)

theorem exact_combineKeys {keys : List Keys} {found : List (List (List String))}
    (h : List.Forall₂ (fun keys paths => Exact keys.Has paths) keys found) :
    Exact (combineKeys keys).Has found.flatten :=
  exact_foldl h exact_empty

end

namespace KeysExtractor

def Finds (parsed : Valid Keys String) (paths : List (List String)) : Prop :=
  ∀ keys, parsed = .ok keys → Exact keys.Has paths

theorem finds_parseStr (s : String) : Finds (parseStr s) (pathsOf s) := by
  intro keys h
  obtain ⟨_, _, rfl⟩ := (Valid.mapOk_eq_ok _ _ _).mp h
  have hfold : ∀ (segments : List Segment) {start : Keys} {paths : List (List String)}, Exact start.Has paths →
      Exact (segments.foldl (fun keys segment => match segment with
        | .expression ("value" :: path) => keys.setPath path
        | _ => keys) start).Has
        (paths ++ segments.filterMap fun
          | .expression ("value" :: path) => some path
          | _ => none) := by
    intro segments
    induction segments with
    | nil => exact fun hstart => by simpa using hstart
    | cons segment segments ih =>
      intro start paths hstart
      rw [List.foldl_cons, List.filterMap_cons]
      split
      next path =>
        have hset := ih (exact_setPath hstart path)
        rw [List.append_assoc] at hset
        exact hset
      next hother => simpa [hother] using ih hstart
  exact hfold _ exact_empty

theorem Finds.trace {parsed : Valid Keys String} {paths : List (List String)} (h : Finds parsed paths)
    (message : String) : Finds (parsed.trace message) paths :=
  fun keys hkeys => h keys ((Valid.trace_eq_ok _ _ _).mp hkeys)

variable {parsed : List (Valid Keys String)} {found : List (List (List String))}

theorem exact_collect
    (h : List.Forall₂ Finds parsed found) {keys : List Keys} (hkeys : Valid.collect parsed = .ok keys) :
    List.Forall₂ (fun keys paths => Exact keys.Has paths) keys found := by
  induction h generalizing keys with
  | nil =>
    obtain rfl := Except.ok.inj hkeys
    exact .nil
  | cons hfirst _ ih =>
    rw [Valid.collect_cons, Valid.mapOk_eq_ok] at hkeys
    obtain ⟨⟨first, rest⟩, hzip, rfl⟩ := hkeys
    obtain ⟨hparsed, hrest⟩ := (Valid.zip_eq_ok _ _ _).mp hzip
    exact .cons (hfirst first hparsed) (ih hrest)

theorem finds_combineKeys
    (h : List.Forall₂ Finds parsed found) : Finds ((Valid.collect parsed).mapOk combineKeys) found.flatten := by
  intro keys hkeys
  obtain ⟨collected, hcollected, rfl⟩ := (Valid.mapOk_eq_ok _ _ _).mp hkeys
  exact exact_combineKeys (exact_collect h hcollected)

theorem finds_parseKeyValueIter (pairs : List KeyValue) :
    Finds (parseKeyValueIter pairs) ((pairStrings pairs).flatMap pathsOf) := by
  intro keys h
  obtain ⟨parsed, hparsed, rfl⟩ := (Valid.mapOk_eq_ok _ _ _).mp h
  have hfold : ∀ {parsed : List (Keys × Keys)} {start : Keys} {paths : List (List String)},
      Valid.fromIter pairs (fun pair => (parseStr pair.key).zip (parseStr pair.value)) = .ok parsed →
      Exact start.Has paths → Exact (parsed.foldl (fun keys (key, value) =>
        (keys.mergeRight key).mergeRight value) start).Has (paths ++ (pairStrings pairs).flatMap pathsOf) := by
    clear h hparsed
    induction pairs with
    | nil =>
      intro parsed start paths hparsed hstart
      obtain rfl := Except.ok.inj hparsed
      simpa [pairStrings] using hstart
    | cons pair pairs ih =>
      intro parsed start paths hparsed hstart
      obtain ⟨⟨key, value⟩, rest, rfl, hpair, hrest⟩ := (Valid.fromIter_cons_eq_ok _ _ _ _).mp hparsed
      obtain ⟨hkey, hvalue⟩ := (Valid.zip_eq_ok _ _ _).mp hpair
      have hmerged := ih hrest (exact_mergeRight (exact_mergeRight hstart (finds_parseStr _ _ hkey))
        (finds_parseStr _ _ hvalue))
      simpa [pairStrings] using hmerged
  exact hfold hparsed exact_empty

theorem finds_parseOption {α : Type} {parse : α → Valid Keys String} {paths : α → List (List String)}
    (h : ∀ value, Finds (parse value) (paths value)) (option : Option α) :
    Finds (parseOption parse option) (option.toList.flatMap paths) := by
  cases option with
  | none =>
    intro keys hkeys
    obtain rfl := Except.ok.inj hkeys
    exact exact_empty
  | some value => simpa [parseOption] using h value

mutual

theorem finds_parseValue (value : ConstValue) : Finds (parseValue value) ((strings value).flatMap pathsOf) := by
  match value with
  | .string s => simpa [parseValue, strings] using finds_parseStr s
  | .list items =>
    obtain ⟨found, hfound, hpaths⟩ := finds_parseItems items
    rw [strings, hpaths]
    exact finds_combineKeys hfound
  | .object fields =>
    obtain ⟨found, hfound, hpaths⟩ := finds_parseFields fields
    rw [strings, hpaths]
    exact finds_combineKeys hfound
  | .null | .number _ | .boolean _ | .enum _ =>
    intro keys hkeys
    obtain rfl := Except.ok.inj hkeys
    exact exact_empty

theorem finds_parseItems (items : List ConstValue) : ∃ found, List.Forall₂ Finds (parseItems items) found ∧
    (stringsOfItems items).flatMap pathsOf = found.flatten := by
  match items with
  | [] => exact ⟨[], .nil, rfl⟩
  | value :: items =>
    obtain ⟨found, hfound, hpaths⟩ := finds_parseItems items
    refine ⟨_, .cons (finds_parseValue value) hfound, ?_⟩
    rw [stringsOfItems, List.flatMap_append, hpaths, List.flatten_cons]

theorem finds_parseFields (fields : List (String × ConstValue)) : ∃ found,
    List.Forall₂ Finds (parseFields fields) found ∧ (stringsOfFields fields).flatMap pathsOf = found.flatten := by
  match fields with
  | [] => exact ⟨[], .nil, rfl⟩
  | (key, value) :: fields =>
    obtain ⟨found, hfound, hpaths⟩ := finds_parseFields fields
    refine ⟨(pathsOf key ++ (strings value).flatMap pathsOf) :: found, .cons ?_ hfound, ?_⟩
    · intro keys hkeys
      obtain ⟨⟨keyKeys, valueKeys⟩, hzip, rfl⟩ := (Valid.mapOk_eq_ok _ _ _).mp hkeys
      obtain ⟨hkey, hvalue⟩ := (Valid.zip_eq_ok _ _ _).mp hzip
      exact exact_mergeRight (finds_parseStr key _ hkey) (finds_parseValue value _ hvalue)
    · rw [stringsOfFields, List.cons_append, List.flatMap_cons, List.flatMap_append, hpaths, List.flatten_cons,
        List.append_assoc]

end

variable (jsonText : ConstValue → String)

def collected : Resolver → List (List String)
  | .call spec => (spec.steps.head?.toList.flatMap Step.templates).flatMap pathsOf
  | .postgres _ | .greptimedb _ | .redis _ | .s3 _ => []
  | resolver => resolver.reads jsonText

theorem exact_parts {name : String} {parts : List Keys} (h : List.Forall₂ Finds parsed found)
    (hparts : ((Valid.collect parsed).trace name).mapOk some = .ok (some parts)) :
    List.Forall₂ (fun keys paths => Exact keys.Has paths) parts found := by
  obtain ⟨_, hparsed, hsome⟩ := (Valid.mapOk_eq_ok _ _ _).mp hparts
  obtain rfl := Option.some.inj hsome
  exact exact_collect h ((Valid.trace_eq_ok _ _ _).mp hparsed)

theorem exact_args {args : List (String × ConstValue)} {parts : List (List Keys)}
    (h : (Valid.fromIter args fun arg => Valid.collect [parseStr arg.1, parseValue arg.2]) = .ok parts) :
    ∃ found, List.Forall₂ (fun keys paths => Exact keys.Has paths) parts.flatten found ∧
      ((args.flatMap fun (key, value) => key :: strings value).flatMap pathsOf) = found.flatten := by
  induction args generalizing parts with
  | nil =>
    obtain rfl := Except.ok.inj h
    exact ⟨[], .nil, rfl⟩
  | cons arg args ih =>
    obtain ⟨first, rest, rfl, hfirst, hrest⟩ := (Valid.fromIter_cons_eq_ok _ _ _ _).mp h
    obtain ⟨found, hfound, hpaths⟩ := ih hrest
    have hexact := exact_collect (.cons (finds_parseStr arg.1) (.cons (finds_parseValue arg.2) .nil)) hfirst
    refine ⟨_, List.rel_append hexact hfound, ?_⟩
    rw [List.flatMap_cons, List.flatMap_append, hpaths, List.flatten_append]
    simp

theorem exact_extractParts {resolver : Resolver} {parts : List Keys}
    (h : extractParts jsonText resolver = .ok (some parts)) : ∃ found,
      List.Forall₂ (fun keys paths => Exact keys.Has paths) parts found ∧
        collected jsonText resolver = found.flatten := by
  cases resolver with
  | http spec =>
    have hbody := finds_parseOption (fun body => finds_parseStr (jsonText body)) spec.body
    refine ⟨_, exact_parts (.cons ((finds_parseStr spec.url).trace _) (.cons (hbody.trace _)
      (.cons ((finds_parseKeyValueIter spec.headers).trace _)
        (.cons ((finds_parseKeyValueIter spec.query).trace _) .nil)))) h, ?_⟩
    simp [collected, Resolver.reads, Resolver.templates, List.flatMap_map]
  | grpc spec =>
    refine ⟨_, exact_parts (.cons (finds_parseStr spec.url) (.cons (finds_parseStr spec.method)
      (.cons (finds_parseOption finds_parseValue spec.body)
        (.cons (finds_parseKeyValueIter spec.headers) .nil)))) h, ?_⟩
    simp [collected, Resolver.reads, Resolver.templates, List.flatMap_assoc]
  | graphql spec =>
    refine ⟨_, exact_parts (.cons (finds_parseKeyValueIter spec.headers)
      (.cons (finds_parseOption finds_parseKeyValueIter spec.args) .nil)) h, ?_⟩
    cases hargs : spec.args <;> simp [collected, Resolver.reads, Resolver.templates, hargs, pairStrings]
  | call spec =>
    obtain ⟨_, hparts, hsome⟩ := (Valid.mapOk_eq_ok _ _ _).mp h
    obtain rfl := Option.some.inj hsome
    obtain ⟨args, hargs, rfl⟩ := (Valid.mapOk_eq_ok _ _ _).mp ((Valid.trace_eq_ok _ _ _).mp hparts)
    obtain ⟨step, hstep, hargs⟩ := (Valid.andThen_eq_ok _ _ _).mp hargs
    cases hhead : spec.steps.head? with
    | none =>
      rw [hhead] at hstep
      cases hstep
    | some first =>
      rw [hhead] at hstep
      obtain rfl := Except.ok.inj hstep
      obtain ⟨found, hfound, hpaths⟩ := exact_args hargs
      refine ⟨found, hfound, ?_⟩
      rw [← hpaths, collected, hhead, Option.toList_some, List.flatMap_singleton, Step.templates]
  | expr body =>
    refine ⟨_, exact_parts (.cons (finds_parseValue body) .nil) h, ?_⟩
    simp [collected, Resolver.reads, Resolver.templates]
  | js _ | postgres _ | greptimedb _ | redis _ | s3 _ | service | entities _ => cases h

theorem exact_extractKeys {resolver : Resolver} {fields : Option String}
    (h : extractKeys jsonText resolver = .ok fields) : ∃ keys : Keys, Exact keys.Has (collected jsonText resolver) ∧
      fields = if keys.isEmpty then none else some keys.toString := by
  obtain ⟨parts, hparts, rfl⟩ := (Valid.mapOk_eq_ok _ _ _).mp h
  cases parts with
  | none =>
    have hnil : collected jsonText resolver = [] := by
      cases resolver with
      | http _ | grpc _ | graphql _ | call _ | expr _ =>
        obtain ⟨_, _, hsome⟩ := (Valid.mapOk_eq_ok _ _ _).mp hparts
        cases hsome
      | js _ | postgres _ | greptimedb _ | redis _ | s3 _ | service | entities _ => rfl
    exact ⟨.empty, hnil ▸ exact_empty, rfl⟩
  | some parts =>
    obtain ⟨found, hfound, hpaths⟩ := exact_extractParts jsonText hparts
    exact ⟨combineKeys parts, hpaths ▸ exact_combineKeys hfound, rfl⟩

end KeysExtractor

mutual

def Keys.selections : Keys → List Selection
  | .mk fields => selectionsOf fields

def selectionsOf : List (String × Keys) → List Selection
  | [] => []
  | (name, keys) :: fields => .field name keys.selections :: selectionsOf fields

end

theorem mem_selectionsOf {fields : List (String × Keys)} {name : String} {children : List Selection} :
    .field name children ∈ selectionsOf fields ↔ ∃ child, (name, child) ∈ fields ∧ children = child.selections := by
  induction fields with
  | nil => simp [selectionsOf]
  | cons field fields ih =>
    obtain ⟨key, value⟩ := field
    rw [selectionsOf, List.mem_cons, ih, Selection.field.injEq]
    simp only [List.mem_cons, Prod.mk.injEq]
    constructor
    · rintro (⟨rfl, rfl⟩ | ⟨child, hmem, rfl⟩)
      · exact ⟨value, .inl ⟨rfl, rfl⟩, rfl⟩
      · exact ⟨child, .inr hmem, rfl⟩
    · rintro ⟨child, ⟨rfl, rfl⟩ | hmem, rfl⟩
      · exact .inl ⟨rfl, rfl⟩
      · exact .inr ⟨child, hmem, rfl⟩

theorem selects_selections (keys : Keys) (path : List String) : Selects keys.selections path ↔ keys.Has path := by
  induction path generalizing keys with
  | nil => exact iff_of_true trivial (has_nil keys)
  | cons name path ih =>
    obtain ⟨fields⟩ := keys
    rw [has_cons, Keys.selections, Selects]
    simp only [mem_selectionsOf]
    constructor
    · rintro ⟨_, ⟨child, hmem, rfl⟩, hpath⟩
      exact ⟨child, hmem, (ih child).mp hpath⟩
    · rintro ⟨child, hmem, hpath⟩
      exact ⟨_, ⟨child, hmem, rfl⟩, (ih child).mpr hpath⟩

def Keys.Named (keys : Keys) : Prop :=
  ∀ path, keys.Has path → ∀ part ∈ path, IsName part

theorem Keys.Named.cons {name : String} {child : Keys} {fields : List (String × Keys)}
    (h : (Keys.mk ((name, child) :: fields)).Named) : IsName name ∧ child.Named ∧ (Keys.mk fields).Named := by
  refine ⟨?_, fun path hpath part hpart => ?_, fun path hpath part hpart => ?_⟩
  · exact h [name] ((has_cons_cons _ _ _ _ _).mpr (.inl ⟨rfl, has_nil child⟩)) name List.mem_cons_self
  · exact h (name :: path) ((has_cons_cons _ _ _ _ _).mpr (.inl ⟨rfl, hpath⟩)) part (List.mem_cons_of_mem name hpart)
  · cases path with
    | nil => cases hpart
    | cons key path => exact h (key :: path) ((has_cons_cons _ _ _ _ _).mpr (.inr hpath)) part hpart

theorem lex_blank (rest : List Char) : lex [] false (' ' :: rest) = lex [] false rest := by
  rw [lex_space]
  simp [wordToken]

theorem lex_wordEnd (word : List Char) {rest : List Char} (h : rest = [] ∨ ∃ tail, rest = ' ' :: tail) :
    lex word false rest = (lex [] false rest).map (wordToken word ++ ·) := by
  rcases h with rfl | ⟨tail, rfl⟩
  · simp [lex, wordToken]
  · rw [lex_space, lex_blank]

mutual

theorem lex_display (keys : Keys) (h : keys.Named) {tail : List Char} (htail : tail = [] ∨ ∃ rest, tail = ' ' :: rest) :
    lex [] false (keys.display ++ tail) = (lex [] false tail).map (tokensOf keys.selections ++ ·) := by
  obtain ⟨fields⟩ := keys
  exact lex_displayFields fields h htail

theorem lex_displayFields (fields : List (String × Keys)) (h : (Keys.mk fields).Named) {tail : List Char}
    (htail : tail = [] ∨ ∃ rest, tail = ' ' :: rest) : lex [] false (Keys.displayFields fields ++ tail) =
      (lex [] false tail).map (tokensOf (selectionsOf fields) ++ ·) := by
  match fields with
  | [] => simp [Keys.displayFields, selectionsOf, tokensOf]
  | (key, value) :: rest =>
    obtain ⟨hkey, hvalue, hrest⟩ := h.cons
    let after := (if rest.isEmpty then [] else ' ' :: Keys.displayFields rest) ++ tail
    have hafter : after = [] ∨ ∃ rest, after = ' ' :: rest := by
      cases rest with
      | nil => exact htail
      | cons => exact .inr ⟨_, rfl⟩
    have hlexAfter : lex [] false after = (lex [] false tail).map (tokensOf (selectionsOf rest) ++ ·) := by
      rw [← lex_displayFields rest hrest htail]
      cases rest with
      | nil => rfl
      | cons => exact lex_blank _
    have htext (middle : List Char) : key.toList ++ middle ++
        (if rest.isEmpty then [] else ' ' :: Keys.displayFields rest) ++ tail = key.toList ++ (middle ++ after) := by
      simp [after]
    rw [Keys.displayFields, htext, lex_name hkey, selectionsOf, tokensOf]
    obtain ⟨fields⟩ := value
    match fields with
    | [] =>
      change lex key.toList false after = _
      rw [lex_wordEnd _ hafter, wordToken_name hkey, hlexAfter, Option.map_map]
      rfl
    | first :: fields =>
      have hfield : tokensOfField (.field key (Keys.mk (first :: fields)).selections) =
          .name key :: .opening :: (tokensOf (Keys.mk (first :: fields)).selections ++ [.closing]) := rfl
      have hinner : (Keys.mk (first :: fields)).display ++ [' ', '\x7d'] ++ after =
          (Keys.mk (first :: fields)).display ++ ' ' :: '\x7d' :: after := by simp
      change lex key.toList false
        (' ' :: '\x7b' :: ' ' :: ((Keys.mk (first :: fields)).display ++ [' ', '\x7d'] ++ after)) = _
      rw [hinner, lex_space, lex_opening, lex_blank, lex_display _ hvalue (.inr ⟨_, rfl⟩), lex_blank, lex_closing,
        hlexAfter, wordToken_name hkey, hfield]
      simp [Function.comp_def]

end

theorem readSelections_toString {keys : Keys} (h : keys.Named) :
    readSelections keys.toString = some keys.selections := by
  apply readSelections_eq
  have hlex := lex_display keys h (.inl rfl)
  rw [List.append_nil] at hlex
  rw [Keys.toString, String.toList_ofList, hlex, lex, Option.map_some]
  simp [wordToken]

end Gqlforge.EntityKeys
