import Gqlforge.DatabaseConfigs
import Gqlforge.PostgresCells
import Gqlforge.Synth

namespace Gqlforge.StoredCells

open BigEndian BinaryFormat DatabaseConfigs Json Plan PostgresArrays PostgresCells Schema Synth

/-- The types of the driver that a type of the schema is the name of. A name that is not in the table may be of any. -/
def NameOf (ty : PostgresType) : PgType → Prop
  | .smallInt => ty = .int2
  | .integer => ty = .int4
  | .bigInt => ty = .int8
  | .real => ty = .float4
  | .doublePrecision => ty = .float8
  | .numeric => ty = .numeric
  | .boolean => ty = .bool
  | .text => ty = .text
  | .varchar => ty = .varchar
  | .char => ty = .bpchar
  | .uuid => ty = .uuid
  | .date => ty = .date
  | .timestamp => ty = .timestamp
  | .timestampTz => ty = .timestamptz
  | .time => ty = .time
  | .timeTz => ty = .timetz
  | .interval => ty = .interval
  | .json => ty = .json
  | .jsonb => ty = .jsonb
  | .bytea => ty = .bytea
  | .inet => ty = .inet
  | .cidr => ty = .cidr
  | .macAddr => ty = .macaddr ∨ ty = .macaddr8
  | .array _ => ∃ elem, ty = .array elem
  | .int4Range => ty = .range .int4
  | .int8Range => ty = .range .int8
  | .numRange => ty = .range .numeric
  | .tsRange => ty = .range .timestamp
  | .tstzRange => ty = .range .timestamptz
  | .dateRange => ty = .range .date
  | .other _ => True

def boundBytes : Option Bytes → Bytes
  | none => []
  | some bound => toBe 4 bound.length ++ bound

structure IsRange (raw : Bytes) (lower upper : Option Bytes) : Prop where
  bytes : ∃ first : UInt8, raw = first :: (boundBytes lower ++ boundBytes upper) ∧ hasFlag first.toNat 0x01 = false ∧
    hasFlag first.toNat 0x08 = lower.isNone ∧ hasFlag first.toNat 0x10 = upper.isNone
  short : Short lower ∧ Short upper

def IsArray (raw : Bytes) (cells : List (Option Bytes)) : Prop :=
  ∃ flags oid dims, raw = arrayHeader flags oid dims ++ cells.flatMap elementBytes ∧ dims.length < 2 ^ 31 ∧
    (∀ dim ∈ dims, dim.1 < 2 ^ 31) ∧ (cells.length = if dims = [] then 0 else (dims.map Prod.fst).prod) ∧
    ∀ cell ∈ cells, Short cell

/-- The bytes the server sends for a value of the type, of every type the program has a format for. -/
def Sends : PostgresType → Bytes → Prop
  | .numeric, raw => 0 ≤ intFromBe (slice raw 0 2) ∧ 0 ≤ intFromBe (slice raw 6 2) ∧
      raw.length = 8 + (intFromBe (slice raw 0 2)).toNat * 2
  | .timetz, raw => raw.length = 12 ∧ 0 ≤ intFromBe (slice raw 0 8)
  | .interval, raw | .uuid, raw => raw.length = 16
  | .inet, raw | .cidr, raw => ∃ mask isCidr addr, raw = 2 :: mask :: isCidr :: 4 :: addr ∧ addr.length = 4 ∨
      raw = 3 :: mask :: isCidr :: 16 :: addr ∧ addr.length = 16
  | .macaddr, raw => raw.length = 6
  | .macaddr8, raw => raw.length = 8
  | .range elem, raw => (∃ first : UInt8, raw = [first] ∧ hasFlag first.toNat 0x01 = true) ∨
      ∃ lower upper, IsRange raw lower upper ∧ ∀ bound, some bound = lower ∨ some bound = upper → Sends elem bound
  | .array elem, raw => ∃ cells, IsArray raw cells ∧ ∀ cell, some cell ∈ cells → Sends elem cell
  | ty, raw => Encodes ty raw

section Conditions

variable (crates : PostgresArrays.Crates) (isNull : crates.JsonValue → Bool)

def Dated {α : Type} (bits : Nat) (add : Int → Option α) (value : Int) : Prop :=
  value = 2 ^ (bits - 1) - 1 ∨ value = -2 ^ (bits - 1) ∨ (add value).isSome = true

def BoundLegible (elem : PostgresType) (raw : Bytes) : Prop :=
  match elem with
  | .int4 | .int8 | .numeric => True
  | .timestamp | .timestamptz => Dated 64 crates.addMicroseconds (intFromBe raw)
  | .date => Dated 32 crates.addDays (intFromBe raw)
  | _ => (fromUtf8 raw).isSome = true

def RangeLegible (elem : PostgresType) (raw : Bytes) : Prop :=
  ∀ lower upper, IsRange raw lower upper →
    ∀ bound, some bound = lower ∨ some bound = upper → BoundLegible crates elem bound

def ElementLegible (elem : PostgresType) (raw : Bytes) : Prop :=
  match elem with
  | .timestamp | .timestamptz => Dated 64 crates.addMicroseconds (intFromBe raw)
  | .date => Dated 32 crates.addDays (intFromBe raw)
  | .json => (crates.fromSlice raw).isSome = true
  | .jsonb => (crates.fromSlice (raw.drop 1)).isSome = true
  | .range bound => RangeLegible crates bound raw
  | _ => True

/-- JSON is such as the reader takes, dates and times are in the calendar; only within ranges and arrays they may also
be infinite. -/
def Legible (ty : PostgresType) (raw : Bytes) : Prop :=
  match ty with
  | .timestamp | .timestamptz => (crates.addMicroseconds (intFromBe raw)).isSome = true
  | .date => (crates.addDays (intFromBe raw)).isSome = true
  | .json => (crates.fromSlice raw).isSome = true
  | .jsonb => (crates.fromSlice (raw.drop 1)).isSome = true
  | .range elem => RangeLegible crates elem raw
  | .array elem => ∀ cells, IsArray raw cells → ∀ cell, some cell ∈ cells → ElementLegible crates elem cell
  | _ => True

def Nullish (ty : PostgresType) (raw : Bytes) : Prop :=
  match ty with
  | .float4 => (Float32.ofBits (UInt32.ofNat (fromBe raw))).toFloat.isFinite = false
  | .float8 => (Float.ofBits (UInt64.ofNat (fromBe raw))).isFinite = false
  | .json => (crates.fromSlice raw).any isNull = true
  | .jsonb => (crates.fromSlice (raw.drop 1)).any isNull = true
  | .other _ => crates.string ty raw = none
  | _ => False

def FourDigits (days : Int) : Prop :=
  -730485 ≤ days ∧ days ≤ 2921939

def YearFits (ty : PostgresType) (raw : Bytes) : Prop :=
  match ty with
  | .timestamp | .timestamptz => FourDigits (intFromBe raw / 86400000000)
  | .date => FourDigits (intFromBe raw)
  | _ => True

structure Fits (column : Column) (ty : PostgresType) (raw : Bytes) : Prop where
  legible : Legible crates ty raw
  nullable : Nullish crates isNull ty raw → column.isNullable = true
  year : column.pgType.graphqlScalar = "DateTime" → YearFits ty raw

structure Documented (formats : Scalar.Formats) : Prop extends Lawful crates where
  fromF64_finite (n : Float) : (crates.fromF64 n).isSome = n.isFinite
  fromJson_null (value : crates.JsonValue) :
    ∃ const, crates.fromJson value = some const ∧ const.isNull = isNull value
  rfc3339_time (us : Int) (dt : crates.DateTime) (h : crates.addMicroseconds us = some dt) :
    formats.rfc3339 (crates.toRfc3339 dt) = true ↔ FourDigits (us / 86400000000)
  rfc3339_date (days : Int) (date : crates.Date) (h : crates.addDays days = some date) :
    formats.rfc3339 (crates.toRfc3339 (crates.andMidnight date)) = true ↔ FourDigits days

structure Holds (column : Column) (ty : PostgresType) (cell : Option Bytes) : Prop where
  name : NameOf ty column.pgType
  null : cell = none → column.isNullable = true
  value : ∀ raw, cell = some raw → Sends ty raw

structure Planned (names : DatabaseConfigs.Crates) (column : Column) (vars : Variables) (node : Field ConstValue) :
    Prop where
  typeOf : node.typeOf = (columnField names column).2.typeOf
  scalar : node.scalar = some ((Scalar.find node.typeOf.name).getD .empty)
  skip : node.skip vars = false

def Accepted (formats : Scalar.Formats) (plan : OperationPlan ConstValue) (vars : Variables) (node : Field ConstValue)
    (ty : PostgresType) (cell : Option Bytes) : Prop :=
  ∃ value output, rowValueToConst crates ty cell = .ok value ∧
    checkLeaf formats plan vars node value = some (.ok output)

end Conditions

section Formats

variable {chrono : Chrono} {raw : Bytes}

abbrev IsOk {α : Type} (read : Reads α) : Prop :=
  ∃ value, read = .ok value

variable {α : Type}

theorem isOk_map {β : Type} (f : α → β) (read : Reads α) : IsOk (f <$> read) ↔ IsOk read := by
  cases read with
  | error failure => simp [IsOk, Functor.map, Except.map]
  | ok value => simp [IsOk, Functor.map, Except.map]

theorem isOk_mapM {β : Type} (f : α → Reads β) (items : List α) :
    IsOk (items.mapM f) ↔ ∀ item ∈ items, IsOk (f item) := by
  induction items with
  | nil => exact iff_of_true ⟨[], rfl⟩ (List.forall_mem_nil _)
  | cons item items ih =>
    rw [List.mapM_cons, List.forall_mem_cons, ← ih]
    cases f item with
    | error failure => simp [IsOk, bind, Except.bind]
    | ok value =>
      cases items.mapM f with
      | error failure => simp [IsOk, bind, Except.bind]
      | ok values => simp [IsOk, bind, Except.bind, pure, Except.pure]

theorem isOk_ite {c : Prop} [Decidable c] {left right : Reads α} (hleft : IsOk left) (hright : IsOk right) :
    IsOk (if c then left else right) := by
  split_ifs
  · exact hleft
  · exact hright

theorem formatUuid_ok (h : raw.length = 16) : IsOk (formatUuid raw) :=
  ⟨_, if_neg (not_not.mpr h)⟩

theorem formatInterval_ok (h : raw.length = 16) : IsOk (formatInterval raw) :=
  ⟨_, if_neg (by omega)⟩

theorem formatTimetz_ok (hlength : raw.length = 12) (hpos : 0 ≤ intFromBe (slice raw 0 8)) :
    IsOk (formatTimetz raw) := by
  rw [formatTimetz, if_neg (by omega)]
  simp only
  rw [if_neg (by omega)]
  exact isOk_ite ⟨_, rfl⟩ ⟨_, rfl⟩

theorem formatMacaddr_ok (h : raw.length = 8 ∨ raw.length = 6) : IsOk (formatMacaddr raw) :=
  ⟨_, if_pos h⟩

theorem parsePgNumeric_ok (hdigits : 0 ≤ intFromBe (slice raw 0 2)) (hscale : 0 ≤ intFromBe (slice raw 6 2))
    (hlength : raw.length = 8 + (intFromBe (slice raw 0 2)).toNat * 2) : IsOk (parsePgNumeric raw) := by
  rw [parsePgNumeric, if_neg (by omega)]
  simp only
  rw [if_neg (by omega), if_neg (by omega), if_neg (show ¬ raw.length < _ by omega)]
  split_ifs
  all_goals exact ⟨_, rfl⟩

theorem formatInet_ok (h : Sends .inet raw) : IsOk (formatInet raw) := by
  obtain ⟨mask, isCidr, addr, ⟨rfl, hlength⟩ | ⟨rfl, hlength⟩⟩ := h
  · simp [formatInet, byteAt, hlength, bind, Except.bind, pure, Except.pure]
    exact isOk_ite ⟨_, rfl⟩ ⟨_, rfl⟩
  · simp [formatInet, byteAt, hlength, bind, Except.bind, pure, Except.pure]
    exact isOk_ite ⟨_, rfl⟩ ⟨_, rfl⟩

theorem isOk_exactly (width : Nat) (f : Bytes → Reads α) :
    IsOk (do
      let bytes ← exactly width raw
      f bytes) ↔ raw.length = width ∧ IsOk (f raw) := by
  rw [exactly]
  by_cases h : raw.length = width
  · simp [h, bind, Except.bind]
  · simp [h, IsOk, bind, Except.bind]

theorem formatFinite_ok (bits : Nat) (add : Int → Option α) (show' : α → String) (value : Int) :
    IsOk (formatFinite bits (fun value => show' <$> inRange (add value)) value) ↔ Dated bits add value := by
  rw [formatFinite, Dated]
  split_ifs with hmax hmin
  · simp [IsOk, hmax]
  · simp [IsOk, hmin]
  · rw [isOk_map]
    cases add value with
    | none => simp [IsOk, inRange, hmax, hmin]
    | some sum => simp [IsOk, inRange]

theorem formatTimestamp_ok :
    IsOk (formatTimestamp chrono raw) ↔ raw.length = 8 ∧ Dated 64 chrono.addMicroseconds (intFromBe raw) :=
  (isOk_exactly 8 _).trans (and_congr_right fun _ => formatFinite_ok 64 _ _ _)

theorem formatTimestamptz_ok :
    IsOk (formatTimestamptz chrono raw) ↔ raw.length = 8 ∧ Dated 64 chrono.addMicroseconds (intFromBe raw) :=
  (isOk_exactly 8 _).trans (and_congr_right fun _ => formatFinite_ok 64 _ _ _)

theorem formatDate_ok : IsOk (formatDate chrono raw) ↔ raw.length = 4 ∧ Dated 32 chrono.addDays (intFromBe raw) :=
  (isOk_exactly 4 _).trans (and_congr_right fun _ => formatFinite_ok 32 _ _ _)

def boundText (chrono : Chrono) (elem : PostgresType) : Option Bytes → Reads String
  | none => .ok ""
  | some bound => formatRangeBound chrono bound elem

variable (chrono) in
theorem readRangeBound_boundBytes (elem : PostgresType) (side : String) (bound : Bytes) (hshort : bound.length < 2 ^ 31)
    (rest : Bytes) :
    readRangeBound chrono (boundBytes (some bound) ++ rest) elem side = (do
      let text ← formatRangeBound chrono bound elem
      return (text, rest)) := by
  have hbytes : boundBytes (some bound) ++ rest = toBe 4 bound.length ++ (bound ++ rest) := List.append_assoc _ _ _
  have hslice : slice (toBe 4 bound.length ++ (bound ++ rest)) 0 4 = toBe 4 bound.length :=
    slice_append [] rfl (length_toBe 4 _)
  have hint : intFromBe (toBe 4 bound.length) = bound.length := intFromBe_toBe (by omega)
  have hdrop : (toBe 4 bound.length ++ (bound ++ rest)).drop 4 = bound ++ rest := List.drop_left' (length_toBe 4 _)
  rw [hbytes, readRangeBound, if_neg (by simp)]
  simp only [hslice, hint, hdrop, Int.toNat_natCast]
  rw [if_neg (by omega), if_neg (by simp), List.take_left, List.drop_left]

theorem formatRange_eq {first : UInt8} {lower upper : Option Bytes} (elem : PostgresType)
    (hempty : hasFlag first.toNat 0x01 = false) (hlower : hasFlag first.toNat 0x08 = lower.isNone)
    (hupper : hasFlag first.toNat 0x10 = upper.isNone) (hshortLower : Short lower) (hshortUpper : Short upper) :
    formatRange chrono (first :: (boundBytes lower ++ boundBytes upper)) elem = (do
      let lowerStr ← boundText chrono elem lower
      let upperStr ← boundText chrono elem upper
      return (if hasFlag first.toNat 0x02 then "[" else "(") ++ lowerStr ++ "," ++ upperStr ++
        (if hasFlag first.toNat 0x04 then "]" else ")")) := by
  have hread (bound : Bytes) (hshort : Short (some bound)) (rest : Bytes) (side : String) :=
    readRangeBound_boundBytes chrono elem side bound (hshort bound rfl) rest
  have hlast (bound : Bytes) (hshort : Short (some bound)) (side : String) := hread bound hshort [] side
  simp only [List.append_nil] at hlast
  rw [formatRange]
  simp only [hempty, hlower, hupper]
  cases lower with
  | none =>
    cases upper with
    | none => rfl
    | some upper =>
      have hupperText := hlast upper hshortUpper "upper"
      simp only [Option.isNone_none, Option.isNone_some, boundText, boundBytes, List.nil_append, bind, Except.bind,
        if_true]
        at hupperText ⊢
      rw [hupperText]
      cases formatRangeBound chrono upper elem with
      | error failure => rfl
      | ok text => rfl
  | some lower =>
    cases upper with
    | none =>
      have hlowerText := hread lower hshortLower [] "lower"
      simp only [Option.isNone_none, Option.isNone_some, boundText, boundBytes] at hlowerText ⊢
      rw [hlowerText]
      cases formatRangeBound chrono lower elem with
      | error failure => rfl
      | ok text => rfl
    | some upper =>
      have hlowerText := hread lower hshortLower (boundBytes (some upper)) "lower"
      have hupperText := hlast upper hshortUpper "upper"
      simp only [Option.isNone_some, boundText] at hlowerText hupperText ⊢
      rw [hlowerText]
      cases formatRangeBound chrono lower elem with
      | error failure => rfl
      | ok text =>
        simp only [bind, Except.bind, pure, Except.pure] at hupperText ⊢
        rw [hupperText]
        cases formatRangeBound chrono upper elem with
        | error failure => rfl
        | ok text => rfl

theorem isOk_boundText (elem : PostgresType) (bound : Option Bytes) : IsOk (boundText chrono elem bound) ↔
    ∀ bytes, some bytes = bound → IsOk (formatRangeBound chrono bytes elem) := by
  cases bound with
  | none => simp [IsOk, boundText]
  | some bytes => simp [boundText]

theorem formatRange_ok {lower upper : Option Bytes} (h : IsRange raw lower upper) (elem : PostgresType) :
    IsOk (formatRange chrono raw elem) ↔
      ∀ bound, some bound = lower ∨ some bound = upper → IsOk (formatRangeBound chrono bound elem) := by
  obtain ⟨⟨first, rfl, hempty, hlower, hupper⟩, hshortLower, hshortUpper⟩ := h
  have htexts : IsOk (formatRange chrono (first :: (boundBytes lower ++ boundBytes upper)) elem) ↔
      IsOk (boundText chrono elem lower) ∧ IsOk (boundText chrono elem upper) := by
    rw [formatRange_eq elem hempty hlower hupper hshortLower hshortUpper]
    cases boundText chrono elem lower with
    | error failure => simp [IsOk, bind, Except.bind]
    | ok lowerStr =>
      cases boundText chrono elem upper with
      | error failure => simp [IsOk, bind, Except.bind]
      | ok upperStr => simp [IsOk, bind, Except.bind, pure, Except.pure]
  rw [htexts, isOk_boundText, isOk_boundText]
  constructor
  · intro h bound hbound
    exact hbound.elim (h.1 bound) (h.2 bound)
  · intro h
    exact ⟨fun bound hbound => h bound (.inl hbound), fun bound hbound => h bound (.inr hbound)⟩

end Formats

section Cells

variable {crates : PostgresArrays.Crates} {isNull : crates.JsonValue → Bool}

variable {elem : PostgresType} {raw : Bytes}

theorem bound_legible (h : IsOk (formatRangeBound crates.toChrono raw elem)) : BoundLegible crates elem raw := by
  cases elem with
  | int4 | int8 | numeric => exact trivial
  | timestamp => exact (formatTimestamp_ok.mp h).2
  | timestamptz => exact (formatTimestamptz_ok.mp h).2
  | date => exact (formatDate_ok.mp h).2
  | _ =>
    obtain ⟨text, h⟩ := h
    rw [formatRangeBound] at h
    · cases htext : fromUtf8 raw with
      | none => simp [htext, bail] at h
      | some text => exact congrArg Option.isSome htext
    all_goals simp

theorem bound_ok (hsends : Sends elem raw) (h : BoundLegible crates elem raw) :
    IsOk (formatRangeBound crates.toChrono raw elem) := by
  cases elem with
  | int4 => exact (isOk_exactly 4 _).mpr ⟨hsends, _, rfl⟩
  | int8 => exact (isOk_exactly 8 _).mpr ⟨hsends, _, rfl⟩
  | numeric => exact parsePgNumeric_ok hsends.1 hsends.2.1 hsends.2.2
  | timestamp => exact formatTimestamp_ok.mpr ⟨hsends, h⟩
  | timestamptz => exact formatTimestamptz_ok.mpr ⟨hsends, h⟩
  | date => exact formatDate_ok.mpr ⟨hsends, h⟩
  | _ =>
    obtain ⟨text, htext⟩ := Option.isSome_iff_exists.mp h
    rw [formatRangeBound]
    · exact ⟨text, by rw [htext]⟩
    all_goals simp

theorem range_legible (h : IsOk (formatRange crates.toChrono raw elem)) : RangeLegible crates elem raw :=
  fun _ _ hrange bound hbound => bound_legible ((formatRange_ok hrange elem).mp h bound hbound)

theorem range_ok (hsends : Sends (.range elem) raw)
    (h : RangeLegible crates elem raw) : IsOk (formatRange crates.toChrono raw elem) := by
  rcases hsends with ⟨first, rfl, hempty⟩ | ⟨lower, upper, hrange, hbounds⟩
  · refine ⟨"empty", ?_⟩
    simp [formatRange, hempty, pure, Except.pure]
  · apply (formatRange_ok hrange elem).mpr
    intro bound hbound
    exact bound_ok (hbounds bound hbound) (h lower upper hrange bound hbound)

theorem element_json (raw : Bytes) :
    IsOk (rawElementToConst crates .json raw) ↔ (crates.fromSlice raw).isSome = true := by
  have hdata : (if PostgresType.json = .jsonb ∧ raw ≠ [] then raw.drop 1 else raw) = raw := rfl
  rw [rawElementToConst]
  simp only [hdata]
  cases crates.fromSlice raw with
  | none => simp [IsOk]
  | some value => simp [IsOk]

theorem element_jsonb (raw : Bytes) :
    IsOk (rawElementToConst crates .jsonb raw) ↔ (crates.fromSlice (raw.drop 1)).isSome = true := by
  cases raw with
  | nil =>
    cases hread : crates.fromSlice [] with
    | none => simp [IsOk, rawElementToConst, hread]
    | some value => simp [IsOk, rawElementToConst, hread]
  | cons first text =>
    cases hread : crates.fromSlice text with
    | none => simp [IsOk, rawElementToConst, hread]
    | some value => simp [IsOk, rawElementToConst, hread]

theorem element_legible (h : IsOk (rawElementToConst crates elem raw)) : ElementLegible crates elem raw := by
  cases elem with
  | timestamp => exact (formatTimestamp_ok.mp ((isOk_map _ _).mp h)).2
  | timestamptz => exact (formatTimestamptz_ok.mp ((isOk_map _ _).mp h)).2
  | date => exact (formatDate_ok.mp ((isOk_map _ _).mp h)).2
  | json => exact (element_json raw).mp h
  | jsonb => exact (element_jsonb raw).mp h
  | range bound => exact range_legible ((isOk_map _ _).mp h)
  | _ => exact trivial

theorem element_ok (hsends : Sends elem raw) (h : ElementLegible crates elem raw) :
    IsOk (rawElementToConst crates elem raw) := by
  cases elem with
  | bool =>
    rcases hsends with rfl | rfl
    · exact ⟨_, rfl⟩
    · exact ⟨_, rfl⟩
  | int2 => exact (isOk_exactly 2 _).mpr ⟨hsends, _, rfl⟩
  | int4 | float4 => exact (isOk_exactly 4 _).mpr ⟨hsends, _, rfl⟩
  | int8 | float8 => exact (isOk_exactly 8 _).mpr ⟨hsends, _, rfl⟩
  | time => exact (isOk_exactly 8 _).mpr ⟨hsends.1, _, rfl⟩
  | text | varchar | bpchar | name =>
    obtain ⟨text, htext⟩ := Option.isSome_iff_exists.mp hsends
    exact ⟨.string text, by rw [rawElementToConst, htext]⟩
  | uuid => exact (isOk_map _ _).mpr (formatUuid_ok hsends)
  | bytea => exact ⟨_, rfl⟩
  | numeric => exact (isOk_map _ _).mpr (parsePgNumeric_ok hsends.1 hsends.2.1 hsends.2.2)
  | timestamp => exact (isOk_map _ _).mpr (formatTimestamp_ok.mpr ⟨hsends, h⟩)
  | timestamptz => exact (isOk_map _ _).mpr (formatTimestamptz_ok.mpr ⟨hsends, h⟩)
  | date => exact (isOk_map _ _).mpr (formatDate_ok.mpr ⟨hsends, h⟩)
  | timetz => exact (isOk_map _ _).mpr (formatTimetz_ok hsends.1 hsends.2)
  | interval => exact (isOk_map _ _).mpr (formatInterval_ok hsends)
  | inet | cidr => exact (isOk_map _ _).mpr (formatInet_ok hsends)
  | macaddr => exact (isOk_map _ _).mpr (formatMacaddr_ok (.inr hsends))
  | macaddr8 => exact (isOk_map _ _).mpr (formatMacaddr_ok (.inl hsends))
  | json => exact (element_json raw).mpr h
  | jsonb => exact (element_jsonb raw).mpr h
  | range bound => exact (isOk_map _ _).mpr (range_ok hsends h)
  | unknown | enum _ | array _ | other _ =>
    rw [rawElementToConst]
    · cases fromUtf8 raw with
      | none => exact ⟨_, rfl⟩
      | some text => exact ⟨_, rfl⟩
    all_goals simp

theorem array_ok {cells : List (Option Bytes)} (h : IsArray raw cells) (elem : PostgresType) :
    IsOk (parsePgArray crates raw elem) ↔ ∀ cell, some cell ∈ cells → IsOk (rawElementToConst crates elem cell) := by
  obtain ⟨flags, oid, dims, rfl, hdims, hsizes, hcount, hshort⟩ := h
  rw [parsePgArray_header crates elem flags oid dims cells hdims hsizes hcount hshort, isOk_map, isOk_mapM]
  constructor
  · intro h cell hcell
    exact h (some cell) hcell
  · intro h cell hcell
    cases cell with
    | none => exact ⟨.null, rfl⟩
    | some cell => exact h cell hcell

theorem isOk_getConst {α : Type} (get : Bytes → Option α) (toConst : α → ConstValue) (raw : Bytes) :
    IsOk (getConst get toConst (some raw)) ↔ (get raw).isSome = true := by
  cases h : get raw with
  | none => simp [getConst_none h, IsOk]
  | some value => simp [getConst_some h, IsOk]

variable {formats : Scalar.Formats}

variable {ty : PostgresType}

theorem cell_ok_iff (hcrates : Documented crates isNull formats)
    (hsends : Sends ty raw) : IsOk (rowValueToConst crates ty (some raw)) ↔ Legible crates ty raw := by
  cases ty with
  | bool =>
    refine iff_of_true ((isOk_getConst _ _ _).mpr ?_) trivial
    rcases hsends with rfl | rfl
    · rw [hcrates.bool_byte]
      rfl
    · rw [hcrates.bool_byte]
      rfl
  | int2 => exact iff_of_true ((isOk_getConst _ _ _).mpr (by rw [hcrates.int2_bytes raw hsends]; rfl)) trivial
  | int4 => exact iff_of_true ((isOk_getConst _ _ _).mpr (by rw [hcrates.int4_bytes raw hsends]; rfl)) trivial
  | int8 => exact iff_of_true ((isOk_getConst _ _ _).mpr (by rw [hcrates.int8_bytes raw hsends]; rfl)) trivial
  | float4 => exact iff_of_true ((isOk_getConst _ _ _).mpr (by rw [hcrates.float4_bytes raw hsends]; rfl)) trivial
  | float8 => exact iff_of_true ((isOk_getConst _ _ _).mpr (by rw [hcrates.float8_bytes raw hsends]; rfl)) trivial
  | time => exact iff_of_true ((isOk_getConst _ _ _).mpr (by rw [hcrates.naiveTime_bytes raw hsends.1]; rfl)) trivial
  | json => exact (isOk_getConst _ _ _).trans (by rw [hcrates.json_text]; exact Iff.rfl)
  | jsonb =>
    obtain ⟨text, rfl⟩ := hsends
    exact (isOk_getConst _ _ _).trans (by rw [hcrates.jsonb_text]; exact Iff.rfl)
  | timestamp => exact (isOk_getConst _ _ _).trans (by rw [hcrates.naiveDateTime_bytes raw hsends]; exact Iff.rfl)
  | timestamptz => exact (isOk_getConst _ _ _).trans (by rw [hcrates.dateTimeUtc_bytes raw hsends]; exact Iff.rfl)
  | date => exact (isOk_getConst _ _ _).trans (by rw [hcrates.naiveDate_bytes raw hsends]; exact Iff.rfl)
  | timetz => exact iff_of_true ((isOk_map _ _).mpr (formatTimetz_ok hsends.1 hsends.2)) trivial
  | interval => exact iff_of_true ((isOk_map _ _).mpr (formatInterval_ok hsends)) trivial
  | numeric => exact iff_of_true ((isOk_map _ _).mpr (parsePgNumeric_ok hsends.1 hsends.2.1 hsends.2.2)) trivial
  | uuid => exact iff_of_true ((isOk_map _ _).mpr (formatUuid_ok hsends)) trivial
  | bytea => exact iff_of_true ⟨_, rfl⟩ trivial
  | inet | cidr => exact iff_of_true ((isOk_map _ _).mpr (formatInet_ok hsends)) trivial
  | macaddr => exact iff_of_true ((isOk_map _ _).mpr (formatMacaddr_ok (.inr hsends))) trivial
  | macaddr8 => exact iff_of_true ((isOk_map _ _).mpr (formatMacaddr_ok (.inl hsends))) trivial
  | enum name => exact iff_of_true ((isOk_getConst _ _ _).mpr hsends) trivial
  | range elem => exact (isOk_map _ _).trans ⟨range_legible, range_ok hsends⟩
  | array elem =>
    obtain ⟨cells, harray, hcells⟩ := hsends
    constructor
    · intro h cells harray cell hcell
      exact element_legible ((array_ok harray elem).mp h cell hcell)
    · intro h
      apply (array_ok harray elem).mpr
      intro cell hcell
      exact element_ok (hcells cell hcell) (h cells harray cell hcell)
  | text | varchar | bpchar | name | unknown | other _ =>
    refine iff_of_true ?_ trivial
    rw [rowValueToConst]
    · cases tryGet (crates.string _) (some raw) with
      | error failure => exact ⟨_, rfl⟩
      | ok value => exact ⟨_, rfl⟩
    all_goals simp

variable {value : ConstValue}

theorem text_of_map {read : Reads String} (h : ConstValue.string <$> read = .ok value) : value.isNull = false := by
  cases read with
  | error failure => cases h
  | ok text =>
    cases h
    rfl

theorem getConst_inv {α : Type} {get : Bytes → Option α} {toConst : α → ConstValue}
    (h : getConst get toConst (some raw) = .ok value) : ∃ read, get raw = some read ∧ value = toConst read := by
  cases hget : get raw with
  | none =>
    rw [getConst_none hget] at h
    cases h
  | some read =>
    rw [getConst_some hget] at h
    cases h
    exact ⟨read, rfl, rfl⟩

theorem floatToConst_null (hcrates : Documented crates isNull formats) (n : Float) :
    (floatToConst crates n).isNull = true ↔ n.isFinite = false := by
  rw [← hcrates.fromF64_finite, floatToConst]
  cases crates.fromF64 n with
  | none => simp [ConstValue.isNull]
  | some number => simp [ConstValue.isNull]

theorem jsonToConst_null (hcrates : Documented crates isNull formats) (value : crates.JsonValue) :
    (jsonToConst crates value).isNull = isNull value := by
  obtain ⟨const, hconst, hnull⟩ := hcrates.fromJson_null value
  rw [jsonToConst, hconst]
  exact hnull

theorem nested_isNull (sizes : List Nat) (items : List ConstValue) : (nested sizes items).isNull = false := by
  cases sizes with
  | nil => rfl
  | cons size sizes =>
    cases sizes with
    | nil => rfl
    | cons next sizes => rfl

theorem json_null (hcrates : Documented crates isNull formats) {data : Bytes}

    (hjson : crates.json ty raw = crates.fromSlice data)
    (h : getConst (crates.json ty) (jsonToConst crates) (some raw) = .ok value) :
    value.isNull = true ↔ (crates.fromSlice data).any isNull = true := by
  obtain ⟨read, hread, rfl⟩ := getConst_inv h
  rw [← hjson, hread, jsonToConst_null hcrates]
  rfl

theorem text_cell (hcrates : Documented crates isNull formats) (hty : IsText ty)
    {text : String} (htext : fromUtf8 raw = some text) : rowValueToConst crates ty (some raw) = .ok (.string text) := by
  have hget := (hcrates.string_text ty hty raw).trans htext
  rcases hty with rfl | rfl | rfl | rfl | rfl
  all_goals simp [rowValueToConst, tryGet, hget]

theorem cell_null (hcrates : Documented crates isNull formats) (hsends : Sends ty raw)
 (h : rowValueToConst crates ty (some raw) = .ok value) :
    value.isNull = true ↔ Nullish crates isNull ty raw := by
  cases ty with
  | bool | int2 | int4 | int8 | time | timestamp | timestamptz | date | enum _ =>
    obtain ⟨read, -, rfl⟩ := getConst_inv h
    exact iff_of_false (by simp [ConstValue.isNull]) id
  | float4 =>
    obtain ⟨read, hread, rfl⟩ := getConst_inv h
    obtain rfl := Option.some.inj ((hcrates.float4_bytes raw hsends).symm.trans hread)
    exact floatToConst_null hcrates _
  | float8 =>
    obtain ⟨read, hread, rfl⟩ := getConst_inv h
    obtain rfl := Option.some.inj ((hcrates.float8_bytes raw hsends).symm.trans hread)
    exact floatToConst_null hcrates _
  | json => exact json_null hcrates (hcrates.json_text raw) h
  | jsonb =>
    obtain ⟨text, rfl⟩ := hsends
    exact json_null hcrates (hcrates.jsonb_text text) h
  | timetz | interval | numeric | uuid | inet | cidr | macaddr | macaddr8 | range _ =>
    exact iff_of_false (by simp [text_of_map h]) id
  | bytea =>
    cases h
    exact iff_of_false (by simp [ConstValue.isNull]) id
  | array elem =>
    obtain ⟨cells, ⟨flags, oid, dims, rfl, hdims, hsizes, hcount, hshort⟩, -⟩ := hsends
    rw [rowValueToConst_array, parsePgArray_header crates elem flags oid dims cells hdims hsizes hcount hshort] at h
    cases hitems : cells.mapM (element crates elem) with
    | error failure => simp [hitems, Functor.map, Except.map] at h
    | ok items =>
      simp only [hitems, Functor.map, Except.map, Except.ok.injEq] at h
      rw [← h, nested_isNull]
      exact iff_of_false Bool.false_ne_true id
  | text | varchar | bpchar | name | unknown =>
    obtain ⟨text, htext⟩ := Option.isSome_iff_exists.mp hsends
    obtain rfl := Except.ok.inj ((text_cell hcrates (by simp [IsText]) htext).symm.trans h)
    exact iff_of_false (by simp [ConstValue.isNull]) id
  | other name =>
    rw [Nullish]
    cases hget : crates.string (.other name) raw with
    | none =>
      simp only [rowValueToConst, tryGet, hget, Except.ok.injEq] at h
      subst h
      exact iff_of_true rfl rfl
    | some text =>
      simp only [rowValueToConst, tryGet, hget, Except.ok.injEq] at h
      subst h
      exact iff_of_false (by simp [ConstValue.isNull]) (Option.some_ne_none text)

theorem time_year (hcrates : Documented crates isNull formats) {get : Bytes → Option crates.DateTime}
 (hget : get raw = crates.addMicroseconds (intFromBe raw))
    (h : getConst get (fun dt => .string (crates.toRfc3339 dt)) (some raw) = .ok value) :
    Scalar.evalStr value formats.rfc3339 = true ↔ FourDigits (intFromBe raw / 86400000000) := by
  obtain ⟨dt, hdt, rfl⟩ := getConst_inv h
  exact hcrates.rfc3339_time _ dt (hget.symm.trans hdt)

theorem cell_year (hcrates : Documented crates isNull formats) {pgType : PgType}
    (hname : NameOf ty pgType) (hscalar : pgType.graphqlScalar = "DateTime") (hsends : Sends ty raw)
 (h : rowValueToConst crates ty (some raw) = .ok value) :
    value.isNull = false ∧ (Scalar.evalStr value formats.rfc3339 = true ↔ YearFits ty raw) := by
  cases pgType with
  | date =>
    cases hname
    obtain ⟨date, hdate, rfl⟩ := getConst_inv h
    exact ⟨rfl, hcrates.rfc3339_date _ date ((hcrates.naiveDate_bytes raw hsends).symm.trans hdate)⟩
  | timestamp =>
    cases hname
    refine ⟨?_, time_year hcrates (hcrates.naiveDateTime_bytes raw hsends) h⟩
    obtain ⟨dt, -, rfl⟩ := getConst_inv h
    rfl
  | timestampTz =>
    cases hname
    refine ⟨?_, time_year hcrates (hcrates.dateTimeUtc_bytes raw hsends) h⟩
    obtain ⟨dt, -, rfl⟩ := getConst_inv h
    rfl
  | _ => exact absurd hscalar (by simp [PgType.graphqlScalar])

end Cells

section Columns

variable {crates : PostgresArrays.Crates} {isNull : crates.JsonValue → Bool} {formats : Scalar.Formats}

theorem validate_graphqlScalar (pgType : PgType) (value : ConstValue) :
    ((Scalar.find pgType.graphqlScalar).getD .empty).validate formats value = true ↔
      (pgType.graphqlScalar = "DateTime" → Scalar.evalStr value formats.rfc3339 = true) := by
  cases pgType with
  | date | timestamp | timestampTz => exact ⟨fun h _ => h, fun h => h rfl⟩
  | _ => exact iff_of_true rfl fun h => absurd h (by simp [PgType.graphqlScalar])

variable (formats) in
theorem checkLeaf_planned {names : DatabaseConfigs.Crates} {column : Column} {vars : Variables}
    {node : Field ConstValue}
    (hnode : Planned names column vars node) (plan : OperationPlan ConstValue) (value : ConstValue) :
    (∃ output, checkLeaf formats plan vars node value = some (.ok output)) ↔
      if value.isNull = true then column.isNullable = true
      else column.pgType.graphqlScalar = "DateTime" → Scalar.evalStr value formats.rfc3339 = true := by
  have htype : node.typeOf = .named column.pgType.graphqlScalar (!column.isNullable) := hnode.typeOf
  have hname : node.typeOf.name = column.pgType.graphqlScalar := congrArg WrappingType.name htype
  rw [checkLeaf, if_neg (by simp [hnode.skip]), hnode.scalar, htype]
  by_cases hnull : value.isNull = true
  · rw [if_pos hnull, if_pos hnull]
    cases column.isNullable with
    | false => simp [nullType, WrappingType.isNullable]
    | true => simp [nullType, WrappingType.isNullable]
  · rw [if_neg hnull, if_neg hnull, ← validate_graphqlScalar]
    by_cases hvalid : ((Scalar.find column.pgType.graphqlScalar).getD .empty).validate formats value = true
    · exact iff_of_true ⟨.cloneFrom value, congrArg some (if_pos hvalid)⟩ hvalid
    · refine iff_of_false ?_ hvalid
      rintro ⟨output, houtput⟩
      simp [WrappingType.name, hvalid] at houtput

/-- What is stored reaches the answer if and only if it is read, is not taken for null in a column without nulls, and is
not a date out of the four-digit years. -/
theorem stored_accepted_iff (hcrates : Documented crates isNull formats) (names : DatabaseConfigs.Crates)
    (column : Column) (ty : PostgresType) (cell : Option Bytes) (hholds : Holds column ty cell)
    (plan : OperationPlan ConstValue) (vars : Variables) (node : Field ConstValue)
    (hnode : Planned names column vars node) :
    Accepted crates formats plan vars node ty cell ↔
      ∀ raw, cell = some raw → Fits crates isNull column ty raw := by
  have hleaf := checkLeaf_planned formats hnode plan
  cases cell with
  | none =>
    refine iff_of_true ?_ (fun raw hraw => absurd hraw (Option.some_ne_none raw).symm)
    obtain ⟨output, houtput⟩ := (hleaf .null).mpr (by simpa [ConstValue.isNull] using hholds.null rfl)
    exact ⟨.null, output, null_alike ty, houtput⟩
  | some raw =>
    have hsends := hholds.value raw rfl
    have hok := cell_ok_iff hcrates hsends
    constructor
    · rintro ⟨value, output, hvalue, houtput⟩ raw' hraw
      obtain rfl := Option.some.inj hraw
      have hfits := (hleaf value).mp ⟨output, houtput⟩
      have hnull := cell_null hcrates hsends hvalue
      refine ⟨hok.mp ⟨value, hvalue⟩, fun hnullish => ?_, fun hscalar => ?_⟩
      · rwa [if_pos (hnull.mpr hnullish)] at hfits
      · obtain ⟨hsome, hyear⟩ := cell_year hcrates hholds.name hscalar hsends hvalue
        rw [if_neg (by simp [hsome])] at hfits
        exact hyear.mp (hfits hscalar)
    · intro h
      have hfits := h raw rfl
      obtain ⟨value, hvalue⟩ := hok.mpr hfits.legible
      have hnull := cell_null hcrates hsends hvalue
      obtain ⟨output, houtput⟩ := (hleaf value).mpr (by
        by_cases hvalueNull : value.isNull = true
        · rw [if_pos hvalueNull]
          exact hfits.nullable (hnull.mp hvalueNull)
        · rw [if_neg hvalueNull]
          intro hscalar
          exact (cell_year hcrates hholds.name hscalar hsends hvalue).2.mpr (hfits.year hscalar))
      exact ⟨value, output, hvalue, houtput⟩

end Columns

section Calendar

variable {doe yoe : Nat}

theorem yearOfEra_le (h : doe < 146097)
    (hyoe : yoe = (doe - doe / 1460 + doe / 36524 - doe / 146096) / 365) : yoe ≤ 399 := by
  omega

theorem dayOfYear_le (h : doe < 146097) (hyoe : yoe = (doe - doe / 1460 + doe / 36524 - doe / 146096) / 365) :
    doe - (365 * yoe + yoe / 4 - yoe / 100) ≤ 366 := by
  omega

theorem last_months (h : doe < 146097) (hyoe : yoe = (doe - doe / 1460 + doe / 36524 - doe / 146096) / 365) :
    yoe = 399 ∧ 306 ≤ doe - (365 * yoe + yoe / 4 - yoe / 100) ↔ 146037 ≤ doe := by
  constructor
  · rintro ⟨rfl, h306⟩
    omega
  · intro hdoe
    obtain rfl : yoe = 399 := by omega
    omega

theorem month_le {doy mp : Nat} (h : doy ≤ 366) (hmp : mp = (5 * doy + 2) / 153) :
    (if mp < 10 then mp + 3 else mp - 9) ≤ 2 ↔ 306 ≤ doy := by
  split_ifs
  · omega
  · omega

theorem civil_year (days : Int) : 0 ≤ (civil days).1 ∧ (civil days).1 ≤ 9999 ↔ FourDigits days := by
  have hdoe : ((days + 730425) % 146097).toNat < 146097 := by omega
  have hdays : days + 730425 = (days + 730425) / 146097 * 146097 + ((days + 730425) % 146097).toNat := by omega
  generalize hd : ((days + 730425) % 146097).toNat = doe at hdoe hdays
  generalize hy : (doe - doe / 1460 + doe / 36524 - doe / 146096) / 365 = yoe
  generalize he : (days + 730425) / 146097 = era at hdays
  have hyear : (civil days).1 = yoe + era * 400 + if 306 ≤ doe - (365 * yoe + yoe / 4 - yoe / 100) then 1 else 0 := by
    have hmonth := month_le (dayOfYear_le hdoe hy.symm) rfl
    simp only [civil, hd, hy, he, hmonth]
  have hle := yearOfEra_le hdoe hy.symm
  have hlast := last_months hdoe hy.symm
  rw [hyear, FourDigits]
  split_ifs with h306
  · omega
  · omega

theorem padded_head (width n : Nat) :
    ∃ first rest, (padded width (toString n)).toList = first :: rest ∧ first.isDigit = true := by
  have hlist : (padded width (toString n)).toList =
      List.replicate (width - (toString n).length) '0' ++ Nat.toDigits 10 n := by
    rw [padded, zeros, String.toList_append, String.toList_ofList, Nat.toString_eq_repr, Nat.toList_repr]
  have hdigits : ∀ c ∈ List.replicate (width - (toString n).length) '0' ++ Nat.toDigits 10 n, c.isDigit = true := by
    intro c hc
    rcases List.mem_append.mp hc with hc | hc
    · rw [List.eq_of_mem_replicate hc]
      rfl
    · exact Nat.isDigit_of_mem_toDigits (by decide) (by decide) hc
  rw [hlist]
  cases hall : List.replicate (width - (toString n).length) '0' ++ Nat.toDigits 10 n with
  | nil => exact absurd (List.append_eq_nil_iff.mp hall).2 Nat.toDigits_ne_nil
  | cons first rest =>
    rw [hall] at hdigits
    exact ⟨first, rest, rfl, hdigits first List.mem_cons_self⟩

def startsWithDigit (text : String) : Bool := text.toList.head?.any Char.isDigit

theorem dateText_head (days : Int) (rest : String) :
    startsWithDigit (dateText days ++ rest) = true ↔ FourDigits days := by
  have htext : dateText days = yearText (civil days).1 ++ "-" ++ padded 2 (toString (civil days).2.1) ++ "-" ++
      padded 2 (toString (civil days).2.2) := rfl
  rw [← civil_year, htext, startsWithDigit, yearText, String.append_assoc, String.append_assoc, String.append_assoc,
    String.append_assoc, String.toList_append]
  split_ifs with hyear hneg
  · refine iff_of_true ?_ hyear
    obtain ⟨n, hn⟩ := Int.eq_ofNat_of_zero_le hyear.1
    obtain ⟨first, tail, hlist, hdigit⟩ := padded_head 4 n
    rw [paddedInt, if_neg (by omega), hn, show toString (n : Int) = toString n from rfl, hlist]
    exact hdigit
  · exact iff_of_false (by simp) hyear
  · exact iff_of_false (by simp) hyear

end Calendar

def calendarFormats : Scalar.Formats := ⟨fun _ => false, fun _ => false, startsWithDigit, fun _ => false⟩

theorem crates_documented : Documented PostgresCells.crates ConstValue.isNull calendarFormats where
  toLawful := crates_lawful
  fromF64_finite n := by
    change (if n.isFinite then some (Number.float (toString n)) else none).isSome = n.isFinite
    cases n.isFinite with
    | false => rfl
    | true => rfl
  fromJson_null value := ⟨value, rfl, rfl⟩
  rfc3339_time us dt h := by
    change (if -96476249 ≤ us / 86400000000 ∧ us / 86400000000 ≤ 95015279 then
      some (us / 86400000000, timeOf us) else none) = some dt at h
    split_ifs at h
    obtain rfl := Option.some.inj h
    change startsWithDigit (dateText (us / 86400000000) ++ "T" ++ timeText (timeOf us) ++ "+00:00") = true ↔ _
    rw [String.append_assoc, String.append_assoc]
    exact dateText_head _ _
  rfc3339_date days date h := by
    change (if -96476249 ≤ days ∧ days ≤ 95015279 then some days else none) = some date at h
    split_ifs at h
    obtain rfl := Option.some.inj h
    change startsWithDigit (dateText days ++ "T" ++ timeText (0, 0) ++ "+00:00") = true ↔ _
    rw [String.append_assoc, String.append_assoc]
    exact dateText_head _ _

def birthday : Column := ⟨"birthday", .date, false, false, false⟩

def plainNames : DatabaseConfigs.Crates := ⟨id, id, fun name => name ++ "s"⟩

def birthdayField : Field ConstValue :=
  ⟨0, "birthday", "birthday", none, .named "DateTime" true, some "Users", none, none, [], [], none, ⟨1, 3⟩, [], false,
    some .dateTime⟩

def birthdayPlan : OperationPlan ConstValue :=
  ⟨"Query", .query, ⟨[], ⟨"Query", none, none⟩⟩, false, false, false, false, none, [birthdayField], none, none⟩

theorem birthdayField_planned : Planned plainNames birthday [] birthdayField := ⟨rfl, rfl, rfl⟩

theorem infinite_date_not_accepted : Holds birthday .date (some [127, 255, 255, 255]) ∧
    Planned plainNames birthday [] birthdayField ∧
    ¬ Accepted PostgresCells.crates calendarFormats birthdayPlan [] birthdayField .date (some [127, 255, 255, 255]) ∧
    IsOk (rawElementToConst PostgresCells.crates .date [127, 255, 255, 255]) := by
  refine ⟨⟨rfl, fun h => absurd h (Option.some_ne_none _), fun raw hraw => ?_⟩, birthdayField_planned, ?_, ?_⟩
  · obtain rfl := Option.some.inj hraw
    rfl
  · rintro ⟨value, output, hvalue, -⟩
    have hsends : Sends .date [127, 255, 255, 255] := rfl
    have hlegible : (PostgresCells.crates.addDays (intFromBe [127, 255, 255, 255])).isSome = true :=
      (cell_ok_iff crates_documented hsends).mp ⟨value, hvalue⟩
    exact absurd hlegible (by decide)
  · have hsends : Sends .date [127, 255, 255, 255] := rfl
    exact element_ok hsends (.inl (by decide))

theorem leap_day_accepted : Accepted PostgresCells.crates calendarFormats birthdayPlan [] birthdayField .date
    (some [0, 0, 34, 121]) :=
  (stored_accepted_iff crates_documented plainNames birthday .date (some [0, 0, 34, 121])
    ⟨rfl, fun h => absurd h (Option.some_ne_none _), fun raw hraw => by
      obtain rfl := Option.some.inj hraw
      rfl⟩ birthdayPlan [] birthdayField birthdayField_planned).mpr fun raw hraw => by
    obtain rfl := Option.some.inj hraw
    exact ⟨rfl, False.elim, fun _ => ⟨by decide, by decide⟩⟩

end Gqlforge.StoredCells
