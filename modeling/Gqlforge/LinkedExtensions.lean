import Gqlforge.Migrations
import Gqlforge.RestEndpoints

namespace Gqlforge.LinkedExtensions

open Migrations (DatabaseSchema Statement applyStatement parseMigrations)

inductive LinkType where
  | config | protobuf | script | cert | key | operation | htpasswd | jwks | grpc | sql | postgres | greptimeDb | s3
  | auroraDsql | redis
  deriving DecidableEq

structure Link where
  src : String
  typeOf : LinkType
  id : Option String
  protoPaths : Option (List String)
  headers : List (String × String)
  region : Option String
  forcePathStyle : Option Bool
  admin : Bool

structure World where
  Error : Type
  Module : Type
  File : Type
  Certificate : Type
  PrivateKey : Type
  JwkSet : Type
  Doc : Type
  resolvePath : String → String
  readFile : String → Except Error String
  unify : Module → String → Except Error Module
  readProto : String → Option (List String) → Except Error (List (String × File))
  fetchProtos : String → List (String × String) → Except Error (List (String × File))
  loadCert : String → Except Error (List Certificate)
  loadPrivateKey : String → List PrivateKey
  parseOperations : String → Except Error (List (Rest.Operation Doc))
  restError : Rest.Error → Error
  parseJwks : String → Except Error JwkSet
  toLowercase : String → String
  parseSql : String → Except Error (List Statement)
  introspectPostgres : String → Except Error DatabaseSchema
  introspectGreptimeDb : String → Except Error DatabaseSchema
  missingRegion : Error
  dsqlUrl : String → String → Bool → Except Error String

structure Content (T : Type) where
  id : Option String
  content : T

structure S3LinkConfig where
  id : String
  endpoint : String
  region : String
  forcePathStyle : Bool

structure Extensions (W : World) where
  grpcFileDescriptors : Dict W.File
  script : Option String
  cert : List W.Certificate
  keys : List W.PrivateKey
  endpointSet : List (Rest.Endpoint W.Doc)
  htpasswd : List (Content String)
  jwks : List (Content W.JwkSet)
  sqlMigrations : List String
  databaseSchemas : List (Content DatabaseSchema)
  s3Configs : List S3LinkConfig

namespace Extensions

variable {W : World}

def default : Extensions W := ⟨.empty, none, [], [], [], [], [], [], [], []⟩

def addProto (extensions : Extensions W) (files : List (String × W.File)) : Extensions W :=
  { extensions with grpcFileDescriptors := extensions.grpcFileDescriptors.extend files }

def addSqlMigration (extensions : Extensions W) (content : String) : Extensions W :=
  { extensions with sqlMigrations := extensions.sqlMigrations ++ [content] }

def addDatabaseSchema (extensions : Extensions W) (id : Option String) (schema : DatabaseSchema) : Extensions W :=
  { extensions with databaseSchemas := extensions.databaseSchemas ++ [⟨id, schema⟩] }

def addS3Config (extensions : Extensions W) (config : S3LinkConfig) : Extensions W :=
  { extensions with s3Configs := extensions.s3Configs ++ [config] }

def findDatabaseSchema (extensions : Extensions W) (id : Option String) : Option DatabaseSchema :=
  match id with
  | some id => (extensions.databaseSchemas.find? fun content => content.id == some id).map Content.content
  | none => match extensions.databaseSchemas with
    | [content] => some content.content
    | _ => none

end Extensions

section

variable (W : World)

def endpointSet (operations : String) : Except W.Error (List (Rest.Endpoint W.Doc)) :=
  (W.parseOperations operations).bind fun operations => (Rest.Endpoint.tryNew operations).mapError W.restError

def contentOf (link : Link) : Except W.Error String :=
  W.readFile (W.resolvePath link.src)

def connectionId (link : Link) : Option String :=
  link.id.or (some "default")

def dsqlSchema (link : Link) : Except W.Error DatabaseSchema := do
  match link.region with
  | none => throw W.missingRegion
  | some region => W.introspectPostgres (← W.dsqlUrl link.src region link.admin)

def addLink (module : W.Module) (extensions : Extensions W) (link : Link) :
    Except W.Error (W.Module × Extensions W) := do
  match link.typeOf with
  | .config => return (← W.unify module (← contentOf W link), extensions)
  | .protobuf =>
    let files ← W.readProto (W.resolvePath link.src) (link.protoPaths.map (·.map W.resolvePath))
    return (module, extensions.addProto files)
  | .script => return (module, { extensions with script := some (← contentOf W link) })
  | .cert => return (module, { extensions with cert := extensions.cert ++ (← W.loadCert (← contentOf W link)) })
  | .key => return (module, { extensions with keys := W.loadPrivateKey (← contentOf W link) })
  | .operation => return (module, { extensions with endpointSet := ← endpointSet W (← contentOf W link) })
  | .htpasswd =>
    return (module, { extensions with htpasswd := extensions.htpasswd ++ [⟨link.id, ← contentOf W link⟩] })
  | .jwks =>
    return (module, { extensions with jwks := extensions.jwks ++ [⟨link.id, ← W.parseJwks (← contentOf W link)⟩] })
  | .grpc => return (module, extensions.addProto (← W.fetchProtos link.src link.headers))
  | .sql =>
    let content ← contentOf W link
    let schema ← parseMigrations W.toLowercase W.parseSql [content]
    return (module, (extensions.addSqlMigration content).addDatabaseSchema (connectionId link) schema)
  | .postgres =>
    return (module, extensions.addDatabaseSchema (connectionId link) (← W.introspectPostgres link.src))
  | .greptimeDb =>
    return (module, extensions.addDatabaseSchema (connectionId link) (← W.introspectGreptimeDb link.src))
  | .s3 =>
    return (module, extensions.addS3Config
      ⟨link.id.getD "", link.src, link.region.getD "us-east-1", link.forcePathStyle.getD false⟩)
  | .auroraDsql => return (module, extensions.addDatabaseSchema (connectionId link) (← dsqlSchema W link))
  | .redis => return (module, extensions)

def extLinks (module : W.Module) (links : List Link) : Except W.Error (W.Module × Extensions W) :=
  (links.filter fun link => !link.src.isEmpty).foldlM (fun state link => addLink W state.1 state.2 link)
    (module, .default)

def endpointsOf (link : Link) : Except W.Error (List (Rest.Endpoint W.Doc)) :=
  (contentOf W link).bind (endpointSet W)

def Link.isOperation (link : Link) : Bool :=
  link.typeOf == .operation

def Link.isSql (link : Link) : Bool :=
  link.typeOf == .sql

def Link.isDatabase (link : Link) : Bool :=
  link.typeOf == .sql || link.typeOf == .postgres || link.typeOf == .greptimeDb || link.typeOf == .auroraDsql

def schemaOf (link : Link) : Except W.Error DatabaseSchema :=
  match link.typeOf with
  | .sql => (contentOf W link).bind fun content => parseMigrations W.toLowercase W.parseSql [content]
  | .greptimeDb => W.introspectGreptimeDb link.src
  | .auroraDsql => dsqlSchema W link
  | _ => W.introspectPostgres link.src

def linkedSchema (link : Link) : Except W.Error (Content DatabaseSchema) :=
  (schemaOf W link).map fun schema => ⟨connectionId link, schema⟩

structure Adds (link : Link) (before after : Extensions W) : Prop where
  endpoints : link.isOperation = true → endpointsOf W link = .ok after.endpointSet
  otherEndpoints : link.isOperation = false → after.endpointSet = before.endpointSet
  schemas : link.isDatabase = true → ∃ schema, linkedSchema W link = .ok schema ∧
    after.databaseSchemas = before.databaseSchemas ++ [schema]
  otherSchemas : link.isDatabase = false → after.databaseSchemas = before.databaseSchemas

end

section

variable {W : World}

theorem bind_ok {ε α β : Type} {x : Except ε α} {f : α → Except ε β} {b : β} (h : x.bind f = .ok b) :
    ∃ a, x = .ok a ∧ f a = .ok b := by
  cases x with
  | ok a => exact ⟨a, rfl, h⟩
  | error error => cases h

variable {link : Link}

theorem Adds.unrelated {before after : Extensions W} (hoperation : link.isOperation = false)
    (hdatabase : link.isDatabase = false) (hendpoints : after.endpointSet = before.endpointSet)
    (hschemas : after.databaseSchemas = before.databaseSchemas) : Adds W link before after :=
  ⟨fun h => absurd (hoperation.symm.trans h) Bool.false_ne_true, fun _ => hendpoints,
    fun h => absurd (hdatabase.symm.trans h) Bool.false_ne_true, fun _ => hschemas⟩

theorem Adds.database {before after : Extensions W} {schema : DatabaseSchema} (hoperation : link.isOperation = false)
    (hendpoints : after.endpointSet = before.endpointSet) (hschema : schemaOf W link = .ok schema)
    (hschemas : after.databaseSchemas = before.databaseSchemas ++ [⟨connectionId link, schema⟩])
    (hdatabase : link.isDatabase = true) : Adds W link before after :=
  ⟨fun h => absurd (hoperation.symm.trans h) Bool.false_ne_true, fun _ => hendpoints,
    fun _ => ⟨_, by rw [linkedSchema, hschema]; rfl, hschemas⟩,
    fun h => absurd (h.symm.trans hdatabase) Bool.false_ne_true⟩

theorem addLink_adds {module : W.Module} {extensions : Extensions W} {result : W.Module × Extensions W}
    (h : addLink W module extensions link = .ok result) : Adds W link extensions result.2 := by
  obtain ⟨src, typeOf, id, protoPaths, headers, region, forcePathStyle, admin⟩ := link
  cases typeOf with
  | config =>
    obtain ⟨content, -, h⟩ := bind_ok h
    obtain ⟨module', -, h⟩ := bind_ok h
    cases h
    exact .unrelated rfl rfl rfl rfl
  | protobuf =>
    obtain ⟨files, -, h⟩ := bind_ok h
    cases h
    exact .unrelated rfl rfl rfl rfl
  | script =>
    obtain ⟨content, -, h⟩ := bind_ok h
    cases h
    exact .unrelated rfl rfl rfl rfl
  | cert =>
    obtain ⟨content, -, h⟩ := bind_ok h
    obtain ⟨certificates, -, h⟩ := bind_ok h
    cases h
    exact .unrelated rfl rfl rfl rfl
  | key =>
    obtain ⟨content, -, h⟩ := bind_ok h
    cases h
    exact .unrelated rfl rfl rfl rfl
  | operation =>
    obtain ⟨content, hcontent, h⟩ := bind_ok h
    obtain ⟨set, hset, h⟩ := bind_ok h
    cases h
    refine ⟨fun _ => ?_, fun h => Bool.noConfusion h, fun h => Bool.noConfusion h, fun _ => rfl⟩
    rw [endpointsOf, hcontent]
    exact hset
  | htpasswd =>
    obtain ⟨content, -, h⟩ := bind_ok h
    cases h
    exact .unrelated rfl rfl rfl rfl
  | jwks =>
    obtain ⟨content, -, h⟩ := bind_ok h
    obtain ⟨keys, -, h⟩ := bind_ok h
    cases h
    exact .unrelated rfl rfl rfl rfl
  | grpc =>
    obtain ⟨files, -, h⟩ := bind_ok h
    cases h
    exact .unrelated rfl rfl rfl rfl
  | sql =>
    obtain ⟨content, hcontent, h⟩ := bind_ok h
    obtain ⟨schema, hschema, h⟩ := bind_ok h
    cases h
    refine .database rfl rfl ?_ rfl rfl
    change (contentOf W _).bind _ = _
    rw [hcontent]
    exact hschema
  | postgres =>
    obtain ⟨schema, hschema, h⟩ := bind_ok h
    cases h
    exact .database rfl rfl hschema rfl rfl
  | greptimeDb =>
    obtain ⟨schema, hschema, h⟩ := bind_ok h
    cases h
    exact .database rfl rfl hschema rfl rfl
  | s3 =>
    cases h
    exact .unrelated rfl rfl rfl rfl
  | auroraDsql =>
    obtain ⟨schema, hschema, h⟩ := bind_ok h
    cases h
    exact .database rfl rfl hschema rfl rfl
  | redis =>
    cases h
    exact .unrelated rfl rfl rfl rfl

theorem foldlM_adds {links : List Link} {state result : W.Module × Extensions W}
    (h : links.foldlM (fun state link => addLink W state.1 state.2 link) state = .ok result) :
    (∃ sets, (links.filter Link.isOperation).mapM (endpointsOf W) = .ok sets ∧
        result.2.endpointSet = sets.getLast?.getD state.2.endpointSet) ∧
      ∃ schemas, (links.filter Link.isDatabase).mapM (linkedSchema W) = .ok schemas ∧
        result.2.databaseSchemas = state.2.databaseSchemas ++ schemas := by
  induction links generalizing state with
  | nil =>
    cases h
    exact ⟨⟨[], rfl, rfl⟩, [], rfl, (List.append_nil _).symm⟩
  | cons link links ih =>
    rw [List.foldlM_cons] at h
    obtain ⟨middle, hmiddle, h⟩ := bind_ok h
    obtain ⟨⟨sets, hsets, hlast⟩, schemas, hschemas, hall⟩ := ih h
    have hadds := addLink_adds hmiddle
    constructor
    · cases hoperation : link.isOperation with
      | true =>
        refine ⟨middle.2.endpointSet :: sets, ?_, ?_⟩
        · rw [List.filter_cons_of_pos hoperation, List.mapM_cons, hadds.endpoints hoperation, hsets]
          rfl
        · rw [hlast, List.getLast?_cons]
          rfl
      | false =>
        refine ⟨sets, ?_, ?_⟩
        · rw [List.filter_cons_of_neg (by rw [hoperation]; exact Bool.false_ne_true)]
          exact hsets
        · rw [hlast, hadds.otherEndpoints hoperation]
    · cases hdatabase : link.isDatabase with
      | true =>
        obtain ⟨schema, hschema, hafter⟩ := hadds.schemas hdatabase
        refine ⟨schema :: schemas, ?_, ?_⟩
        · rw [List.filter_cons_of_pos hdatabase, List.mapM_cons, hschema, hschemas]
          rfl
        · rw [hall, hafter, List.append_assoc]
          rfl
      | false =>
        refine ⟨schemas, ?_, ?_⟩
        · rw [List.filter_cons_of_neg (by rw [hdatabase]; exact Bool.false_ne_true)]
          exact hschemas
        · rw [hall, hadds.otherSchemas hdatabase]

end

def readLinks (links : List Link) : List Link :=
  links.filter fun link => !link.src.isEmpty

def operationLinks (links : List Link) : List Link :=
  (readLinks links).filter Link.isOperation

def Link.isUnder (id : String) (link : Link) : Bool :=
  connectionId link == some id

def linkedUnder (links : List Link) (id : String) : List Link :=
  ((readLinks links).filter Link.isDatabase).filter (Link.isUnder id)

def sqlLinks (links : List Link) (id : String) : List Link :=
  (linkedUnder links id).filter Link.isSql

section

variable (W : World)

def statementsOf (link : Link) : Except W.Error (List Statement) :=
  (contentOf W link).bind W.parseSql

def EndpointsCompose (links : List Link) (extensions : Extensions W) : Prop :=
  ∃ sets, (operationLinks links).mapM (endpointsOf W) = .ok sets ∧ extensions.endpointSet = sets.flatten

def SqlComposes (links : List Link) (extensions : Extensions W) (id : String) : Prop :=
  ∃ contents schema, (sqlLinks links id).mapM (contentOf W) = .ok contents ∧
    parseMigrations W.toLowercase W.parseSql contents = .ok schema ∧
    extensions.findDatabaseSchema (some id) = some schema

def LastSuffices (links : List Link) : Prop :=
  ∀ link ∈ (operationLinks links).dropLast, endpointsOf W link = .ok []

/-- What the further files of a connection state leaves the schema of its first link as it is. -/
def FirstSuffices (links : List Link) (id : String) : Prop :=
  ∀ first rest, linkedUnder links id = first :: rest → ∀ schema lists, schemaOf W first = .ok schema →
    (rest.filter Link.isSql).mapM (statementsOf W) = .ok lists →
      lists.flatten.foldl (applyStatement W.toLowercase) (if first.isSql then schema else .empty) = schema

end

section

variable {W : World}

variable {ε α β : Type}

theorem mapM_cons_ok {f : α → Except ε β} {a : α} {list : List α} {result : List β}
    (h : (a :: list).mapM f = .ok result) : ∃ b rest, f a = .ok b ∧ list.mapM f = .ok rest ∧ result = b :: rest := by
  rw [List.mapM_cons] at h
  obtain ⟨b, hb, h⟩ := bind_ok h
  obtain ⟨rest, hrest, h⟩ := bind_ok h
  cases h
  exact ⟨b, rest, hb, hrest, rfl⟩

theorem mapM_ok_cons {f : α → Except ε β} {a : α} {list : List α} {b : β} {rest : List β}
    (hb : f a = .ok b) (hrest : list.mapM f = .ok rest) : (a :: list).mapM f = .ok (b :: rest) := by
  rw [List.mapM_cons, hb, hrest]
  rfl

theorem linkedSchema_ok {link : Link} {schema : Content DatabaseSchema} (h : linkedSchema W link = .ok schema) :
    schemaOf W link = .ok schema.content ∧ schema.id = connectionId link := by
  unfold linkedSchema at h
  cases hschema : schemaOf W link with
  | error error =>
    rw [hschema] at h
    cases h
  | ok found =>
    rw [hschema] at h
    cases h
    exact ⟨rfl, rfl⟩

variable {links : List Link}

theorem find_linked {schemas : List (Content DatabaseSchema)} (h : links.mapM (linkedSchema W) = .ok schemas)
    (id : String) {first : Link} {rest : List Link} (hfirst : links.filter (Link.isUnder id) = first :: rest) :
    ∃ schema, schemaOf W first = .ok schema ∧
      (schemas.find? fun content => content.id == some id).map Content.content = some schema := by
  induction links generalizing schemas with
  | nil => cases hfirst
  | cons link links ih =>
    obtain ⟨schema, schemas, hschema, hschemas, rfl⟩ := mapM_cons_ok h
    obtain ⟨hcontent, hid⟩ := linkedSchema_ok hschema
    have hsame : (schema.id == some id) = link.isUnder id := by rw [hid, Link.isUnder]
    rw [List.find?_cons, hsame]
    cases hmatch : link.isUnder id with
    | true =>
      rw [List.filter_cons_of_pos hmatch] at hfirst
      cases hfirst
      exact ⟨schema.content, hcontent, rfl⟩
    | false =>
      rw [List.filter_cons_of_neg (by rw [hmatch]; exact Bool.false_ne_true)] at hfirst
      exact ih hschemas hfirst

theorem schemaOf_sql {link : Link} (hsql : link.isSql = true) {schema : DatabaseSchema}
    (h : schemaOf W link = .ok schema) : ∃ content statements, contentOf W link = .ok content ∧
      W.parseSql content = .ok statements ∧ schema = statements.foldl (applyStatement W.toLowercase) .empty := by
  have htype : link.typeOf = .sql := eq_of_beq hsql
  rw [schemaOf, htype] at h
  obtain ⟨content, hcontent, h⟩ := bind_ok h
  rw [Migrations.parseMigrations_eq] at h
  cases hparse : [content].mapM W.parseSql with
  | error error =>
    rw [hparse] at h
    cases h
  | ok lists =>
    rw [hparse] at h
    obtain ⟨statements, rest, hstatements, hrest, rfl⟩ := mapM_cons_ok hparse
    rw [show rest = [] from (Except.ok.inj hrest).symm] at h
    cases h
    exact ⟨content, statements, hcontent, hstatements, by simp only
      [List.flatten_cons, List.flatten_nil, List.append_nil]⟩

theorem sql_contents (hsql : ∀ link ∈ links, link.isSql = true)
    (hschemas : ∀ link ∈ links, ∃ schema, schemaOf W link = .ok schema) :
    ∃ contents lists, links.mapM (contentOf W) = .ok contents ∧ contents.mapM W.parseSql = .ok lists ∧
      links.mapM (statementsOf W) = .ok lists := by
  induction links with
  | nil => exact ⟨[], [], rfl, rfl, rfl⟩
  | cons link links ih =>
    rw [List.forall_mem_cons] at hsql hschemas
    obtain ⟨contents, lists, hcontents, hlists, hstatements⟩ := ih hsql.2 hschemas.2
    obtain ⟨schema, hschema⟩ := hschemas.1
    obtain ⟨content, statements, hcontent, hparse, -⟩ := schemaOf_sql hsql.1 hschema
    refine ⟨content :: contents, statements :: lists, mapM_ok_cons hcontent hcontents, mapM_ok_cons hparse hlists,
      mapM_ok_cons ?_ hstatements⟩
    rw [statementsOf, hcontent]
    exact hparse

theorem mapM_ok_mem {f : α → Except ε β} {list : List α} {result : List β}
    (h : list.mapM f = .ok result) : ∀ a ∈ list, ∃ b, f a = .ok b := by
  induction list generalizing result with
  | nil => exact List.forall_mem_nil _
  | cons a list ih =>
    obtain ⟨b, rest, hb, hrest, -⟩ := mapM_cons_ok h
    exact List.forall_mem_cons.mpr ⟨⟨b, hb⟩, ih hrest⟩

theorem parseMigrations_linked {first : Link} {rest : List Link} {schema : DatabaseSchema}
    (hfirst : schemaOf W first = .ok schema) (hrest : ∀ link ∈ rest, ∃ schema, schemaOf W link = .ok schema) :
    ∃ contents lists, ((first :: rest).filter Link.isSql).mapM (contentOf W) = .ok contents ∧
      (rest.filter Link.isSql).mapM (statementsOf W) = .ok lists ∧
      parseMigrations W.toLowercase W.parseSql contents =
        .ok (lists.flatten.foldl (applyStatement W.toLowercase) (if first.isSql then schema else .empty)) := by
  have hsqls : ∀ link ∈ rest.filter Link.isSql, link.isSql = true := fun link hlink => (List.mem_filter.mp hlink).2
  obtain ⟨contents, lists, hcontents, hlists, hstatements⟩ := sql_contents hsqls fun link hlink =>
    hrest link (List.mem_filter.mp hlink).1
  cases hsql : first.isSql with
  | true =>
    obtain ⟨content, statements, hcontent, hparse, hschema⟩ := schemaOf_sql hsql hfirst
    refine ⟨content :: contents, lists, ?_, hstatements, ?_⟩
    · rw [List.filter_cons_of_pos hsql]
      exact mapM_ok_cons hcontent hcontents
    · rw [Migrations.parseMigrations_eq, mapM_ok_cons hparse hlists, if_pos rfl, hschema, ← List.foldl_append]
      rfl
  | false =>
    refine ⟨contents, lists, ?_, hstatements, ?_⟩
    · rw [List.filter_cons_of_neg (by rw [hsql]; exact Bool.false_ne_true)]
      exact hcontents
    · rw [Migrations.parseMigrations_eq, hlists, if_neg Bool.false_ne_true]
      rfl

theorem sqlComposes_iff {extensions : Extensions W} {schemas : List (Content DatabaseSchema)}
    (hschemas : ((readLinks links).filter Link.isDatabase).mapM (linkedSchema W) = .ok schemas)
    (hextensions : extensions.databaseSchemas = schemas) {id : String} (hsql : sqlLinks links id ≠ []) :
    SqlComposes W links extensions id ↔ FirstSuffices W links id := by
  cases hlinked : linkedUnder links id with
  | nil => exact absurd (by rw [sqlLinks, hlinked]; rfl) hsql
  | cons first rest =>
    obtain ⟨schema, hschema, hfind⟩ := find_linked hschemas id hlinked
    have hrest : ∀ link ∈ rest, ∃ schema, schemaOf W link = .ok schema := by
      intro link hlink
      have hmem : link ∈ linkedUnder links id := by
        rw [hlinked]
        exact List.mem_cons_of_mem _ hlink
      obtain ⟨found, hfound⟩ := mapM_ok_mem hschemas link (List.mem_filter.mp hmem).1
      exact ⟨_, (linkedSchema_ok hfound).1⟩
    obtain ⟨contents, lists, hcontents, hlists, hparse⟩ := parseMigrations_linked hschema hrest
    rw [← hextensions] at hfind
    rw [SqlComposes, FirstSuffices, sqlLinks, hlinked, hcontents]
    constructor
    · rintro ⟨contents', composed, hsame, hcomposed, hfound⟩ first' rest' heq schema' lists' hschema' hlists'
      cases heq
      cases hsame
      rw [hschema] at hschema'
      cases hschema'
      rw [hlists] at hlists'
      cases hlists'
      rw [hparse] at hcomposed
      cases hcomposed
      exact Option.some.inj (hfound.symm.trans hfind)
    · intro hsuffices
      refine ⟨contents, schema, rfl, ?_, hfind⟩
      rw [hparse, hsuffices first rest rfl schema lists hschema hlists]

theorem getLast?_eq_flatten (sets : List (List α)) :
    sets.getLast?.getD [] = sets.flatten ↔ sets.dropLast.flatten = [] := by
  rcases List.eq_nil_or_concat sets with rfl | ⟨earlier, last, rfl⟩
  · exact iff_of_true rfl rfl
  · rw [List.concat_eq_append, List.getLast?_concat, Option.getD_some, List.dropLast_concat, List.flatten_append,
      List.flatten_singleton]
    constructor
    · intro h
      exact List.self_eq_append_left.mp h
    · intro h
      rw [h, List.nil_append]

theorem mapM_dropLast {f : α → Except ε β} {list : List α} {result : List β}
    (h : list.mapM f = .ok result) : list.dropLast.mapM f = .ok result.dropLast := by
  induction list generalizing result with
  | nil =>
    rw [show result = [] from (Except.ok.inj h).symm]
    rfl
  | cons a list ih =>
    obtain ⟨b, rest, hb, hrest, rfl⟩ := mapM_cons_ok h
    cases list with
    | nil =>
      rw [show rest = [] from (Except.ok.inj hrest).symm]
      rfl
    | cons a' list =>
      obtain ⟨b', rest', hb', hrest', rfl⟩ := mapM_cons_ok hrest
      exact mapM_ok_cons hb (ih hrest)

theorem mapM_flatten_nil {f : α → Except ε (List β)} {list : List α} {result : List (List β)}
    (h : list.mapM f = .ok result) : result.flatten = [] ↔ ∀ a ∈ list, f a = .ok [] := by
  induction list generalizing result with
  | nil =>
    rw [show result = [] from (Except.ok.inj h).symm]
    exact iff_of_true rfl (List.forall_mem_nil _)
  | cons a list ih =>
    obtain ⟨b, rest, hb, hrest, rfl⟩ := mapM_cons_ok h
    rw [List.flatten_cons, List.append_eq_nil_iff, List.forall_mem_cons, ih hrest, hb]
    refine and_congr_left fun _ => ?_
    rw [Except.ok.injEq]

theorem endpointsCompose_iff {extensions : Extensions W} {sets : List (List (Rest.Endpoint W.Doc))}
    (hsets : (operationLinks links).mapM (endpointsOf W) = .ok sets)
    (hextensions : extensions.endpointSet = sets.getLast?.getD []) :
    EndpointsCompose W links extensions ↔ LastSuffices W links := by
  rw [LastSuffices, ← mapM_flatten_nil (mapM_dropLast hsets), ← getLast?_eq_flatten, EndpointsCompose, hsets,
    hextensions]
  constructor
  · rintro ⟨sets', hsame, h⟩
    cases hsame
    exact h
  · exact fun h => ⟨sets, rfl, h⟩

/-- Several documents of operations, or several files of one connection, are all taken only where the others add
nothing to the last document, or to the first schema. -/
theorem extLinks_compose_iff {module : W.Module} {links : List Link} {result : W.Module × Extensions W}
    (h : extLinks W module links = .ok result) :
    (EndpointsCompose W links result.2 ↔ LastSuffices W links) ∧
      ∀ id, sqlLinks links id ≠ [] → (SqlComposes W links result.2 id ↔ FirstSuffices W links id) := by
  obtain ⟨⟨sets, hsets, hlast⟩, schemas, hschemas, hall⟩ := foldlM_adds h
  exact ⟨endpointsCompose_iff hsets hlast, fun id hid => sqlComposes_iff hschemas hall hid⟩

end

def namedFiles : World where
  Error := Unit
  Module := Unit
  File := Unit
  Certificate := Unit
  PrivateKey := Unit
  JwkSet := Unit
  Doc := String
  resolvePath := id
  readFile := .ok
  unify := fun module _ => .ok module
  readProto := fun _ _ => .ok []
  fetchProtos := fun _ _ => .ok []
  loadCert := fun _ => .ok []
  loadPrivateKey := fun _ => []
  parseOperations := fun content => .ok [⟨[], some (.ok ⟨"", none, .empty, none⟩), content⟩]
  restError := fun _ => ()
  parseJwks := fun _ => .ok ()
  toLowercase := id
  parseSql := Migrations.parseUsers
  introspectPostgres := fun _ => .ok .empty
  introspectGreptimeDb := fun _ => .ok .empty
  missingRegion := ()
  dsqlUrl := fun src _ _ => .ok src

def linkTo (typeOf : LinkType) (src : String) : Link :=
  ⟨src, typeOf, none, none, [], none, none, false⟩

theorem extLinks_one_each : ∃ result, extLinks namedFiles () [linkTo .operation "get", linkTo .sql "create"] =
    .ok result ∧
    (EndpointsCompose namedFiles [linkTo .operation "get", linkTo .sql "create"] result.2 ↔
      LastSuffices namedFiles [linkTo .operation "get", linkTo .sql "create"]) ∧
    ∀ id, sqlLinks [linkTo .operation "get", linkTo .sql "create"] id ≠ [] →
      (SqlComposes namedFiles [linkTo .operation "get", linkTo .sql "create"] result.2 id ↔
        FirstSuffices namedFiles [linkTo .operation "get", linkTo .sql "create"] id) :=
  ⟨_, rfl, extLinks_compose_iff rfl⟩

theorem extLinks_loses : ∃ result,
    extLinks namedFiles () [linkTo .operation "get", linkTo .operation "put", linkTo .sql "create",
      linkTo .sql "alter"] =
      .ok result ∧
    ¬EndpointsCompose namedFiles [linkTo .operation "get", linkTo .operation "put", linkTo .sql "create",
      linkTo .sql "alter"] result.2 ∧
    ¬SqlComposes namedFiles [linkTo .operation "get", linkTo .operation "put", linkTo .sql "create",
      linkTo .sql "alter"] result.2 "default" := by
  refine ⟨_, rfl, ?_, ?_⟩
  · rintro ⟨sets, hsets, h⟩
    cases hsets
    cases congrArg List.length h
  · rintro ⟨contents, schema, hcontents, hschema, hfound⟩
    cases hcontents
    cases hschema
    have hcolumns := congrArg (Option.map fun schema : DatabaseSchema => schema.values.map fun table =>
      table.columns.length) hfound
    cases hcolumns

end Gqlforge.LinkedExtensions
