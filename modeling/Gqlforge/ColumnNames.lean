import Gqlforge.PostgresCells
import Mathlib.Data.List.Nodup
import Mathlib.Data.List.Perm.Subperm

namespace Gqlforge.ColumnNames

open BigEndian BinaryFormat Json PostgresArrays PostgresCells

def isNameChar (c : Char) : Bool :=
  c.isAlphanum || c == '_'

def replaceChar (c : Char) : Char :=
  if isNameChar c then c else '_'

def finish (result : List Char) : List Char :=
  let result := if result.head?.any Char.isDigit then '_' :: result else result
  let result := if result.isEmpty then "_unnamed".toList else result
  if ['_', '_'].isPrefixOf result then 'x' :: result else result

def sanitizeGraphqlName (name : String) : String :=
  String.ofList (finish (name.toList.map replaceChar))

structure Column where
  name : String
  type : PostgresType

abbrev Row := List (Column × Option Bytes)

section

variable (crates : Crates)

def insertColumns (obj : Object ConstValue) : Row → Reads (Object ConstValue)
  | [] => .ok obj
  | (col, cell) :: rest => do
    let value ← rowValueToConst crates col.type cell
    insertColumns (obj.insertKey (sanitizeGraphqlName col.name) value) rest

def rowsToConstValue (rows : List Row) : Reads ConstValue := do
  let result ← rows.mapM (insertColumns crates [])
  return .list (result.map .object)

end

def IsName (name : String) : Prop :=
  ∃ first rest, name.toList = first :: rest ∧ first.isDigit = false ∧ ∀ c ∈ first :: rest, isNameChar c = true

def Reserved (name : String) : Prop :=
  ['_', '_'] <+: name.toList

/-- An entry of the object holds the value of a column under a name that GraphQL allows. -/
structure Holds (crates : Crates) (column : Column × Option Bytes) (entry : String × ConstValue) : Prop where
  value : rowValueToConst crates column.1.type column.2 = .ok entry.2
  name : IsName entry.1
  kept : IsName column.1.name → ¬ Reserved column.1.name → entry.1 = column.1.name

structure Lossless (crates : Crates) (row : Row) (fields : Object ConstValue) : Prop where
  entries : List.Forall₂ (Holds crates) row fields
  distinct : (fields.map Prod.fst).Nodup

/-- The second text is what the first one becomes when something is put in front of it. -/
def Prefixed (result longer : List Char) : Prop :=
  result = [] ∧ longer = "_unnamed".toList ∨ (∃ c ∈ result.head?, c.isDigit = true) ∧ longer = '_' :: result ∨
    ['_', '_'] <+: result ∧ longer = 'x' :: result

/-- Two names differ in characters that are replaced only, or in what is put in front of one of them. -/
def Clash (name other : String) : Prop :=
  name.toList.map replaceChar = other.toList.map replaceChar ∨
    Prefixed (name.toList.map replaceChar) (other.toList.map replaceChar) ∨
    Prefixed (other.toList.map replaceChar) (name.toList.map replaceChar)

structure Plain (result : List Char) : Prop where
  nonempty : result ≠ []
  letter : ∀ c ∈ result.head?, c.isDigit = false
  unreserved : ¬ ['_', '_'] <+: result

variable {result : List Char}

theorem finish_plain (h : Plain result) : finish result = result := by
  have hdigit : result.head?.any Char.isDigit = false := by
    cases result with
    | nil => rfl
    | cons c rest => exact h.letter c rfl
  have hempty : result.isEmpty = false := by
    rw [List.isEmpty_eq_false_iff]
    exact h.nonempty
  have hreserved : ['_', '_'].isPrefixOf result = false := by
    rw [← Bool.not_eq_true, List.isPrefixOf_iff_prefix]
    exact h.unreserved
  simp only [finish, hdigit, hempty, hreserved, Bool.false_eq_true, if_false]

variable {longer : List Char}

theorem Prefixed.plain (h : Prefixed result longer) : Plain longer := by
  rcases h with ⟨_, rfl⟩ | ⟨⟨c, hc, hdigit⟩, rfl⟩ | ⟨_, rfl⟩
  · refine ⟨List.cons_ne_nil _ _, fun d hd => ?_, by decide⟩
    cases hd
    rfl
  · refine ⟨List.cons_ne_nil _ _, fun d hd => ?_, fun hprefix => ?_⟩
    · cases hd
      rfl
    · obtain ⟨rest, he⟩ := hprefix
      rw [← (List.cons.inj he).2] at hc
      cases hc
      exact absurd hdigit (by decide)
  · refine ⟨List.cons_ne_nil _ _, fun d hd => ?_, fun hprefix => ?_⟩
    · cases hd
      rfl
    · obtain ⟨rest, he⟩ := hprefix
      exact absurd (List.cons.inj he).1 (by decide)

theorem finish_prefixed (h : Prefixed result longer) : finish result = longer := by
  have hlonger := finish_plain h.plain
  rcases h with ⟨rfl, rfl⟩ | ⟨⟨c, hc, hdigit⟩, rfl⟩ | ⟨hreserved, rfl⟩
  · decide
  · cases result with
    | nil => cases hc
    | cons d rest =>
      cases hc
      have hunder : Char.isDigit '_' = false := by decide
      simp only [finish, List.head?_cons, Option.any_some, hdigit, hunder, Bool.false_eq_true, if_true,
        if_false] at hlonger ⊢
      exact hlonger
  · obtain ⟨rest, rfl⟩ := hreserved
    rfl

theorem plain_or_prefixed (result : List Char) : Plain result ∨ ∃ longer, Prefixed result longer := by
  by_cases hempty : result = []
  · exact .inr ⟨_, .inl ⟨hempty, rfl⟩⟩
  by_cases hdigit : ∃ c ∈ result.head?, c.isDigit = true
  · exact .inr ⟨_, .inr (.inl ⟨hdigit, rfl⟩)⟩
  by_cases hreserved : ['_', '_'] <+: result
  · exact .inr ⟨_, .inr (.inr ⟨hreserved, rfl⟩)⟩
  refine .inl ⟨hempty, fun c hc => ?_, hreserved⟩
  rw [← Bool.not_eq_true]
  exact fun h => hdigit ⟨c, hc, h⟩

theorem finish_spec (result : List Char) :
    Plain (finish result) ∧ (finish result = result ∨ Prefixed result (finish result)) := by
  rcases plain_or_prefixed result with hplain | ⟨longer, hprefixed⟩
  · rw [finish_plain hplain]
    exact ⟨hplain, .inl rfl⟩
  · rw [finish_prefixed hprefixed]
    exact ⟨hprefixed.plain, .inr hprefixed⟩

theorem Prefixed.injective {other : List Char} (h : Prefixed result longer) (h' : Prefixed other longer) :
    result = other := by
  have hunnamed {rest : List Char} (hdigit : ∃ c ∈ rest.head?, c.isDigit = true) : "_unnamed".toList ≠ '_' :: rest := by
    intro he
    obtain ⟨c, hc, hc'⟩ := hdigit
    rw [← (List.cons.inj he).2] at hc
    cases hc
    exact absurd hc' (by decide)
  have hfirst {rest : List Char} : "_unnamed".toList ≠ 'x' :: rest := fun he =>
    absurd (List.cons.inj he).1 (by decide)
  have hsecond {rest rest' : List Char} : '_' :: rest ≠ 'x' :: rest' := fun he =>
    absurd (List.cons.inj he).1 (by decide)
  rcases h with ⟨rfl, he⟩ | ⟨hdigit, he⟩ | ⟨_, he⟩ <;> rcases h' with ⟨rfl, he'⟩ | ⟨hdigit', he'⟩ | ⟨_, he'⟩ <;>
    rw [he] at he'
  · exact absurd he' (hunnamed hdigit')
  · exact absurd he' hfirst
  · exact absurd he'.symm (hunnamed hdigit)
  · exact (List.cons.inj he').2
  · exact absurd he' hsecond
  · exact absurd he'.symm hfirst
  · exact absurd he'.symm hsecond
  · exact (List.cons.inj he').2

theorem sanitize_eq_iff (name other : String) :
    sanitizeGraphqlName name = sanitizeGraphqlName other ↔ Clash name other := by
  rw [sanitizeGraphqlName, sanitizeGraphqlName, String.ofList_inj, Clash]
  generalize name.toList.map replaceChar = result
  generalize other.toList.map replaceChar = result'
  constructor
  · intro he
    have hspec := (finish_spec result).2
    have hspec' := (finish_spec result').2
    rw [← he] at hspec'
    rcases hspec with hsame | hprefixed <;> rcases hspec' with hsame' | hprefixed'
    · exact .inl (hsame.symm.trans hsame')
    · rw [hsame] at hprefixed'
      exact .inr (.inr hprefixed')
    · rw [hsame'] at hprefixed
      exact .inr (.inl hprefixed)
    · exact .inl (hprefixed.injective hprefixed')
  · rintro (he | hprefixed | hprefixed)
    · rw [he]
    · rw [finish_prefixed hprefixed, finish_plain hprefixed.plain]
    · rw [finish_prefixed hprefixed, finish_plain hprefixed.plain]

theorem isNameChar_replaceChar (c : Char) : isNameChar (replaceChar c) = true := by
  rw [replaceChar]
  split
  next h => exact h
  next => decide

theorem isName_sanitize (name : String) : IsName (sanitizeGraphqlName name) := by
  have hmasked : ∀ c ∈ name.toList.map replaceChar, isNameChar c = true := by
    rw [List.forall_mem_map]
    exact fun c _ => isNameChar_replaceChar c
  obtain ⟨hplain, hspec⟩ := finish_spec (name.toList.map replaceChar)
  have hchars : ∀ c ∈ finish (name.toList.map replaceChar), isNameChar c = true := by
    rcases hspec with hsame | ⟨_, he⟩ | ⟨_, he⟩ | ⟨_, he⟩
    · rw [hsame]
      exact hmasked
    · rw [he]
      exact List.all_eq_true.mp (by decide)
    · rw [he]
      exact List.forall_mem_cons.mpr ⟨by decide, hmasked⟩
    · rw [he]
      exact List.forall_mem_cons.mpr ⟨by decide, hmasked⟩
  obtain ⟨first, rest, he⟩ := List.exists_cons_of_ne_nil hplain.nonempty
  rw [he] at hchars
  refine ⟨first, rest, by rw [sanitizeGraphqlName, String.toList_ofList, he], ?_, hchars⟩
  exact hplain.letter first (by rw [he]; rfl)

theorem sanitize_name {name : String} (h : IsName name) (hreserved : ¬ Reserved name) :
    sanitizeGraphqlName name = name := by
  obtain ⟨first, rest, he, hletter, hchars⟩ := h
  have hmasked : name.toList.map replaceChar = name.toList := by
    refine (List.map_congr_left fun c hc => ?_).trans (List.map_id _)
    rw [he] at hc
    exact if_pos (hchars c hc)
  rw [sanitizeGraphqlName, hmasked, finish_plain, String.ofList_toList]
  refine ⟨by rw [he]; exact List.cons_ne_nil _ _, fun c hc => ?_, hreserved⟩
  rw [he] at hc
  cases hc
  exact hletter

section

variable {V : Type}

def insertAll (obj entries : Object V) : Object V :=
  entries.foldl (fun obj entry => obj.insertKey entry.1 entry.2) obj

variable {obj : Object V}

theorem insertKey_of_not_mem {key : String} (value : V) (h : key ∉ obj.map Prod.fst) :
    obj.insertKey key value = obj ++ [(key, value)] := by
  induction obj with
  | nil => rfl
  | cons first rest ih =>
    rw [List.map_cons, List.mem_cons, not_or] at h
    rw [Object.insertKey, if_neg (Ne.symm h.1), ih h.2, List.cons_append]

variable {entries : Object V}

theorem insertAll_of_nodup (h : ((obj ++ entries).map Prod.fst).Nodup) : insertAll obj entries = obj ++ entries := by
  induction entries generalizing obj with
  | nil => exact (List.append_nil obj).symm
  | cons entry entries ih =>
    have hnew : entry.1 ∉ obj.map Prod.fst := by
      rw [List.map_append, List.nodup_append] at h
      exact fun hmem => h.2.2 _ hmem _ List.mem_cons_self rfl
    have hsplit : obj ++ entry :: entries = (obj ++ [entry]) ++ entries := by rw [List.append_assoc]; rfl
    rw [insertAll, List.foldl_cons, insertKey_of_not_mem _ hnew, ← insertAll, hsplit]
    apply ih
    rw [← hsplit]
    exact h

theorem mem_keys_insertAll {key : String} (h : key ∈ (insertAll obj entries).map Prod.fst) :
    key ∈ obj.map Prod.fst ∨ key ∈ entries.map Prod.fst := by
  induction entries generalizing obj with
  | nil => exact .inl h
  | cons entry entries ih =>
    rw [List.map_cons, List.mem_cons]
    rcases ih h with hkey | hkey
    · rw [Object.mem_insertKey] at hkey
      exact hkey.elim (fun he => .inr (.inl he)) .inl
    · exact .inr (.inr hkey)

theorem nodup_insertAll (entries : Object V) (h : (obj.map Prod.fst).Nodup) :
    ((insertAll obj entries).map Prod.fst).Nodup := by
  induction entries generalizing obj with
  | nil => exact h
  | cons entry entries ih => exact ih (Object.nodup_insertKey obj entry.1 entry.2 h)

theorem nodup_of_length (h : (insertAll [] entries).length = entries.length) : (entries.map Prod.fst).Nodup := by
  have hnodup : ((insertAll [] entries).map Prod.fst).Nodup := nodup_insertAll entries List.nodup_nil
  have hsubset : (insertAll [] entries).map Prod.fst ⊆ entries.map Prod.fst := fun key hkey =>
    (mem_keys_insertAll hkey).resolve_left (List.not_mem_nil)
  have hperm := (hnodup.subperm hsubset).perm_of_length_le (by rw [List.length_map, List.length_map, h])
  exact hperm.nodup_iff.mp hnodup

end

section

variable {crates : Crates}

def columnKeys (row : Row) : List String :=
  row.map fun column => sanitizeGraphqlName column.1.name

theorem insertColumns_ok {row : Row} {obj fields : Object ConstValue} (h : insertColumns crates obj row = .ok fields) :
    ∃ values : List ConstValue, fields = insertAll obj ((columnKeys row).zip values) ∧
      List.Forall₂ (fun column value => rowValueToConst crates column.1.type column.2 = .ok value) row values := by
  induction row generalizing obj with
  | nil =>
    cases h
    exact ⟨[], rfl, .nil⟩
  | cons column row ih =>
    obtain ⟨col, cell⟩ := column
    rw [insertColumns] at h
    cases hvalue : rowValueToConst crates col.type cell with
    | error failure =>
      rw [hvalue] at h
      cases h
    | ok value =>
      rw [hvalue] at h
      obtain ⟨values, he, hvalues⟩ := ih h
      exact ⟨value :: values, he, .cons hvalue hvalues⟩

theorem lossless_iff {row : Row} {fields : Object ConstValue} (h : insertColumns crates [] row = .ok fields) :
    Lossless crates row fields ↔ (columnKeys row).Nodup := by
  obtain ⟨values, he, hvalues⟩ := insertColumns_ok h
  have hlength : (columnKeys row).length = values.length := by
    rw [columnKeys, List.length_map, hvalues.length_eq]
  have hkeys : ((columnKeys row).zip values).map Prod.fst = columnKeys row :=
    List.map_fst_zip (le_of_eq hlength)
  constructor
  · intro hlossless
    have hfields := hlossless.entries.length_eq
    have hzip : ((columnKeys row).zip values).length = row.length := by
      rw [List.length_zip, ← hlength, min_self, columnKeys, List.length_map]
    have hnodup : (((columnKeys row).zip values).map Prod.fst).Nodup :=
      nodup_of_length (by rw [← he, ← hfields, hzip])
    rw [hkeys] at hnodup
    exact hnodup
  · intro hnodup
    have hall : fields = (columnKeys row).zip values := by
      rw [he, insertAll_of_nodup, List.nil_append]
      rw [List.nil_append, hkeys]
      exact hnodup
    refine ⟨?_, by rw [hall, hkeys]; exact hnodup⟩
    rw [hall]
    clear hall he hkeys hlength hnodup h
    induction hvalues with
    | nil => exact .nil
    | cons hvalue _ ih =>
      refine .cons ⟨hvalue, isName_sanitize _, sanitize_name⟩ ih

theorem columnKeys_nodup_iff (row : Row) : (columnKeys row).Nodup ↔
    row.Pairwise fun column other => ¬ Clash column.1.name other.1.name := by
  rw [columnKeys, List.Nodup, List.pairwise_map]
  have hne (column other : Column × Option Bytes) :
      sanitizeGraphqlName column.1.name ≠ sanitizeGraphqlName other.1.name ↔ ¬ Clash column.1.name other.1.name :=
    not_congr (sanitize_eq_iff _ _)
  simp only [hne]

theorem mapM_insertColumns {rows : List Row} {objects : List (Object ConstValue)}
    (h : rows.mapM (insertColumns crates []) = .ok objects) :
    List.Forall₂ (fun row fields => insertColumns crates [] row = .ok fields) rows objects := by
  induction rows generalizing objects with
  | nil =>
    cases h
    exact .nil
  | cons row rows ih =>
    rw [List.mapM_cons] at h
    cases hrow : insertColumns crates [] row with
    | error failure =>
      rw [hrow] at h
      cases h
    | ok fields =>
      cases hrows : rows.mapM (insertColumns crates []) with
      | error failure =>
        rw [hrow, hrows] at h
        cases h
      | ok rest =>
        rw [hrow, hrows] at h
        cases h
        exact .cons hrow (ih hrows)

variable (crates) in
/-- An object loses a column exactly where the names of two columns clash. -/
theorem rowsToConstValue_lossless_iff {rows : List Row} {value : ConstValue}
    (h : rowsToConstValue crates rows = .ok value) :
    ∃ objects, value = .list (objects.map .object) ∧
      List.Forall₂ (fun row fields => Lossless crates row fields ↔
        row.Pairwise fun column other => ¬ Clash column.1.name other.1.name) rows objects := by
  rw [rowsToConstValue] at h
  cases hrows : rows.mapM (insertColumns crates []) with
  | error failure =>
    rw [hrows] at h
    cases h
  | ok objects =>
    rw [hrows] at h
    cases h
    refine ⟨objects, rfl, (mapM_insertColumns hrows).imp fun row fields hrow => ?_⟩
    rw [lossless_iff hrow, columnKeys_nodup_iff]

end

def twoColumns (name other : String) : Row :=
  [(⟨name, .bytea⟩, some [1]), (⟨other, .bytea⟩, some [2])]

theorem rowsToConstValue_drops_column :
    rowsToConstValue PostgresCells.crates [twoColumns "user-name" "user_name"] =
      .ok (.list [.object [("user_name", .string "\\x02")]]) ∧
    ¬ Lossless PostgresCells.crates (twoColumns "user-name" "user_name") [("user_name", .string "\\x02")] := by
  refine ⟨rfl, fun hlossless => ?_⟩
  have hlength := hlossless.entries.length_eq
  cases hlength

theorem rowsToConstValue_two_columns :
    rowsToConstValue PostgresCells.crates [twoColumns "user-name" "id"] =
      .ok (.list [.object [("user_name", .string "\\x01"), ("id", .string "\\x02")]]) ∧
    ∃ objects, ConstValue.list [.object [("user_name", .string "\\x01"), ("id", .string "\\x02")]] =
        .list (objects.map .object) ∧
      List.Forall₂ (fun row fields => Lossless PostgresCells.crates row fields ↔
        row.Pairwise fun column other => ¬ Clash column.1.name other.1.name) [twoColumns "user-name" "id"] objects :=
  ⟨rfl, rowsToConstValue_lossless_iff PostgresCells.crates rfl⟩

end Gqlforge.ColumnNames
