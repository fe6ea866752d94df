import Gqlforge.PostgresArrays

namespace Gqlforge.PostgresCells

open BigEndian BinaryFormat Json PostgresArrays

section

variable (crates : Crates)

def tryGet {α : Type} (get : Bytes → Option α) : Option Bytes → Reads (Option α)
  | none => .ok none
  | some raw => match get raw with
    | some value => .ok (some value)
    | none => .error .driver

def getConst {α : Type} (get : Bytes → Option α) (toConst : α → ConstValue) (cell : Option Bytes) : Reads ConstValue := do
  let v ← tryGet get cell
  return (v.map toConst).getD .null

def getRaw (format : Bytes → Reads ConstValue) (cell : Option Bytes) : Reads ConstValue := do
  let v ← tryGet some cell
  match v with
  | some raw => format raw
  | none => return .null

def rowValueToConst (ty : PostgresType) (cell : Option Bytes) : Reads ConstValue :=
  match ty with
  | .bool => getConst crates.bool .boolean cell
  | .int2 => getConst crates.int2 (fun n => .number (.int n)) cell
  | .int4 => getConst crates.int4 (fun n => .number (.int n)) cell
  | .int8 => getConst crates.int8 (fun n => .string (toString n)) cell
  | .float4 => getConst crates.float4 (fun n => floatToConst crates n.toFloat) cell
  | .float8 => getConst crates.float8 (floatToConst crates) cell
  | .json | .jsonb => getConst (crates.json ty) (jsonToConst crates) cell
  | .timestamp => getConst crates.naiveDateTime (fun dt => .string (crates.toRfc3339 dt)) cell
  | .timestamptz => getConst crates.dateTimeUtc (fun dt => .string (crates.toRfc3339 dt)) cell
  | .date => getConst crates.naiveDate (fun date => .string (crates.toRfc3339 (crates.andMidnight date))) cell
  | .time => getConst crates.naiveTime (fun t => .string (crates.timeToString t)) cell
  | .timetz => getRaw (fun raw => .string <$> formatTimetz raw) cell
  | .interval => getRaw (fun raw => .string <$> formatInterval raw) cell
  | .numeric => getRaw (fun raw => .string <$> parsePgNumeric raw) cell
  | .uuid => getRaw (fun raw => .string <$> formatUuid raw) cell
  | .bytea => getRaw (fun raw => .ok (.string (formatBytea raw))) cell
  | .inet | .cidr => getRaw (fun raw => .string <$> formatInet raw) cell
  | .macaddr | .macaddr8 => getRaw (fun raw => .string <$> formatMacaddr raw) cell
  | .enum _ => getConst fromUtf8 .string cell
  | .array elem => getRaw (fun raw => parsePgArray crates raw elem) cell
  | .range elem => getRaw (fun raw => .string <$> formatRange crates.toChrono raw elem) cell
  | _ => match tryGet (crates.string ty) cell with
    | .ok v => .ok ((v.map ConstValue.string).getD .null)
    | .error _ => .ok .null

end

def IsText (ty : PostgresType) : Prop :=
  ty = .text ∨ ty = .varchar ∨ ty = .bpchar ∨ ty = .name ∨ ty = .unknown

structure Lawful (crates : Crates) : Prop where
  bool_byte (byte : UInt8) : crates.bool [byte] = some (byte != 0)
  int2_bytes (raw : Bytes) (h : raw.length = 2) : crates.int2 raw = some (intFromBe raw)
  int4_bytes (raw : Bytes) (h : raw.length = 4) : crates.int4 raw = some (intFromBe raw)
  int8_bytes (raw : Bytes) (h : raw.length = 8) : crates.int8 raw = some (intFromBe raw)
  float4_bytes (raw : Bytes) (h : raw.length = 4) : crates.float4 raw = some (Float32.ofBits (UInt32.ofNat (fromBe raw)))
  float8_bytes (raw : Bytes) (h : raw.length = 8) : crates.float8 raw = some (Float.ofBits (UInt64.ofNat (fromBe raw)))
  string_text (ty : PostgresType) (h : IsText ty) (raw : Bytes) : crates.string ty raw = fromUtf8 raw
  json_text (raw : Bytes) : crates.json .json raw = crates.fromSlice raw
  jsonb_text (raw : Bytes) : crates.json .jsonb (1 :: raw) = crates.fromSlice raw
  naiveDateTime_bytes (raw : Bytes) (h : raw.length = 8) :
    crates.naiveDateTime raw = crates.addMicroseconds (intFromBe raw)
  dateTimeUtc_bytes (raw : Bytes) (h : raw.length = 8) : crates.dateTimeUtc raw = crates.addMicroseconds (intFromBe raw)
  naiveDate_bytes (raw : Bytes) (h : raw.length = 4) : crates.naiveDate raw = crates.addDays (intFromBe raw)
  naiveTime_bytes (raw : Bytes) (h : raw.length = 8) : crates.naiveTime raw = some (crates.midnightPlus (intFromBe raw))
  /-- A time of the day wraps around when time is added to it. -/
  midnightPlus_wraps (us : Int) :
    crates.fromNumSecondsFromMidnight (us / 1000000 % 86400).toNat (us % 1000000 * 1000).toNat =
      some (crates.midnightPlus us)
  midnight_zero : crates.fromNumSecondsFromMidnight 0 0 = some crates.midnight
  no_later_second (secs nanos : Nat) (h : 86400 ≤ secs) : crates.fromNumSecondsFromMidnight secs nanos = none
  /-- RFC 3339 is the format `%Y-%m-%dT%H:%M:%S%.f%:z`. -/
  rfc3339_utc (dt : crates.DateTime) : crates.toRfc3339 dt = crates.format dt ++ "+00:00"
  format_midnight (date : crates.Date) : crates.format (crates.andMidnight date) = crates.dateToString date ++ "T00:00:00"

def Supported : PostgresType → Prop
  | .array _ | .other _ => False
  | _ => True

def Encodes (ty : PostgresType) (raw : Bytes) : Prop :=
  match ty with
  | .bool => raw = [0] ∨ raw = [1]
  | .int2 => raw.length = 2
  | .int4 | .float4 | .date => raw.length = 4
  | .int8 | .float8 | .timestamp | .timestamptz => raw.length = 8
  | .time => raw.length = 8 ∧ 0 ≤ intFromBe raw ∧ intFromBe raw ≤ 86400000000
  | .text | .varchar | .bpchar | .name | .unknown | .enum _ => (fromUtf8 raw).isSome
  | .jsonb => ∃ text, raw = 1 :: text
  | _ => True

inductive Reading where
  | value (value : ConstValue)
  | error
  | panicked

def reading : Reads ConstValue → Reading
  | .ok value => .value value
  | .error .panic => .panicked
  | .error _ => .error

theorem reading_map {f : ConstValue → ConstValue} (hf : Function.Injective f) (x y : Reads ConstValue) :
    reading (f <$> x) = reading (f <$> y) ↔ reading x = reading y := by
  cases x with
  | error failure =>
    cases y with
    | error failure' => exact Iff.rfl
    | ok value => cases failure <;> simp [reading, Functor.map, Except.map]
  | ok value =>
    cases y with
    | error failure => cases failure <;> simp [reading, Functor.map, Except.map]
    | ok value' => simp [reading, Functor.map, Except.map, hf.eq_iff]

section

variable (crates : Crates)

def Agrees (ty : PostgresType) (cell : Option Bytes) (oid lowerBound : Nat) : Prop :=
  reading (rowValueToConst crates (.array ty) (some (arrayBytes oid lowerBound [cell]))) =
    reading ((fun value => ConstValue.list [value]) <$> rowValueToConst crates ty cell)

/-- Long integers, dates and times without a zone never read alike, times with a zone do when they are finite and within
the calendar. -/
def ReadsAlike (ty : PostgresType) (cell : Option Bytes) : Prop :=
  ∀ raw, cell = some raw → match ty with
    | .int8 | .timestamp | .date => False
    | .timestamptz => intFromBe raw ≠ 2 ^ 63 - 1 ∧ intFromBe raw ≠ -2 ^ 63 ∧
        (crates.addMicroseconds (intFromBe raw)).isSome = true
    | _ => True

variable {crates}

theorem rowValueToConst_array (elem : PostgresType) (raw : Bytes) :
    rowValueToConst crates (.array elem) (some raw) = parsePgArray crates raw elem := rfl

theorem agrees_iff (ty : PostgresType) (cell : Option Bytes) (hshort : Short cell) (oid lowerBound : Nat) :
    Agrees crates ty cell oid lowerBound ↔
      reading (element crates ty cell) = reading (rowValueToConst crates ty cell) := by
  have hone : .list <$> [cell].mapM (element crates ty) =
      (fun value => ConstValue.list [value]) <$> element crates ty cell := by
    rw [List.mapM_cons, List.mapM_nil]
    cases element crates ty cell <;> rfl
  rw [Agrees, rowValueToConst_array, parsePgArray_arrayBytes crates ty oid lowerBound [cell] (by simp) (by simpa using hshort), hone]
  apply reading_map
  intro value value' h
  simpa using h

theorem null_alike (ty : PostgresType) : rowValueToConst crates ty none = .ok .null := by
  cases ty <;> rfl

variable {raw : Bytes}

example : rawElementToConst crates .bytea raw = rowValueToConst crates .bytea (some raw) := by
  rw [rawElementToConst, rowValueToConst, getRaw]
  rfl

theorem getConst_some {α : Type} {get : Bytes → Option α} {toConst : α → ConstValue} {value : α}
    (h : get raw = some value) : getConst get toConst (some raw) = .ok (toConst value) := by
  simp [getConst, tryGet, h, bind, Except.bind, pure, Except.pure]

theorem getConst_none {α : Type} {get : Bytes → Option α} {toConst : α → ConstValue}
    (h : get raw = none) : getConst get toConst (some raw) = .error .driver := by
  simp [getConst, tryGet, h, bind, Except.bind]

theorem exactly_of_length {width : Nat} (h : raw.length = width) : exactly width raw = .ok raw :=
  if_pos h

theorem fixed_alike {α : Type} {width : Nat} {get : Bytes → Option α} (toConst : α → ConstValue)
    (decode : Bytes → α) (h : raw.length = width) (hget : get raw = some (decode raw)) :
    (do
      let bytes ← exactly width raw
      return toConst (decode bytes)) = getConst get toConst (some raw) := by
  rw [exactly_of_length h, getConst_some hget]
  rfl

theorem text_alike (hcrates : Lawful crates) {ty : PostgresType} (hty : IsText ty)
    (h : (fromUtf8 raw).isSome = true) : rawElementToConst crates ty raw = rowValueToConst crates ty (some raw) := by
  obtain ⟨text, htext⟩ := Option.isSome_iff_exists.mp h
  have hget := (hcrates.string_text ty hty raw).trans htext
  rcases hty with rfl | rfl | rfl | rfl | rfl <;>
    simp [rawElementToConst, rowValueToConst, tryGet, htext, hget]

theorem enum_alike (name : String) (h : (fromUtf8 raw).isSome = true) :
    rawElementToConst crates (.enum name) raw = rowValueToConst crates (.enum name) (some raw) := by
  obtain ⟨text, htext⟩ := Option.isSome_iff_exists.mp h
  simp [rawElementToConst, rowValueToConst, getConst_some htext, htext]

theorem json_alike (hcrates : Lawful crates) (raw : Bytes) :
    reading (rawElementToConst crates .json raw) = reading (rowValueToConst crates .json (some raw)) := by
  have hget := hcrates.json_text raw
  rw [rowValueToConst]
  cases hdata : crates.fromSlice raw with
  | none =>
    rw [getConst_none (hget.trans hdata)]
    simp [rawElementToConst, hdata, reading]
  | some value =>
    rw [getConst_some (hget.trans hdata)]
    simp [rawElementToConst, hdata]

theorem jsonb_alike (hcrates : Lawful crates) (text : Bytes) :
    reading (rawElementToConst crates .jsonb (1 :: text)) = reading (rowValueToConst crates .jsonb (some (1 :: text))) := by
  have hget := hcrates.jsonb_text text
  rw [rowValueToConst]
  cases hdata : crates.fromSlice text with
  | none =>
    rw [getConst_none (hget.trans hdata)]
    simp [rawElementToConst, hdata, reading]
  | some value =>
    rw [getConst_some (hget.trans hdata)]
    simp [rawElementToConst, hdata]

theorem time_alike (hcrates : Lawful crates) {us : Int} (h0 : 0 ≤ us) (h1 : us ≤ 86400000000) :
    (crates.fromNumSecondsFromMidnight (tryU32 (us.tdiv 1000000)) (tryU32 (us.tmod 1000000) * 1000)).getD
      crates.midnight = crates.midnightPlus us := by
  have hsecs : tryU32 (us.tdiv 1000000) = (us / 1000000).toNat := by
    rw [Int.tdiv_eq_ediv_of_nonneg h0, tryU32, if_pos (by omega)]
  have hmicro : tryU32 (us.tmod 1000000) = (us % 1000000).toNat := by
    rw [Int.tmod_eq_emod_of_nonneg h0, tryU32, if_pos (by omega)]
  rw [hsecs, hmicro]
  have hwraps := hcrates.midnightPlus_wraps us
  rcases Int.lt_or_eq_of_le h1 with hlt | rfl
  · have hday : us / 1000000 % 86400 = us / 1000000 := Int.emod_eq_of_lt (by omega) (by omega)
    have hnanos : (us % 1000000 * 1000).toNat = (us % 1000000).toNat * 1000 := by omega
    rw [hday, hnanos] at hwraps
    rw [hwraps]
    rfl
  · rw [hcrates.no_later_second _ _ (by decide)]
    exact Option.some.inj (hcrates.midnight_zero.symm.trans hwraps)

theorem append_ne_self (text : String) {suffix : String} (h : suffix ≠ "") : text ++ suffix ≠ text := by
  intro he
  have hlength := congrArg String.length he
  rw [String.length_append] at hlength
  exact h (String.length_eq_zero_iff.mp (by omega))

theorem rfc3339_ne (hcrates : Lawful crates) (dt : crates.DateTime) {text : String}
    (h : text = "infinity" ∨ text = "-infinity") : crates.toRfc3339 dt ≠ text := by
  rw [hcrates.rfc3339_utc dt]
  intro he
  have hlast := congrArg (fun s => s.toList.getLast?) he
  rw [String.toList_append, List.getLast?_append] at hlast
  rcases h with rfl | rfl <;> simp at hlast

theorem int8_unlike (hcrates : Lawful crates) (h : raw.length = 8) :
    reading (rawElementToConst crates .int8 raw) ≠ reading (rowValueToConst crates .int8 (some raw)) := by
  simp [rawElementToConst, rowValueToConst, exactly_of_length h, getConst_some (hcrates.int8_bytes raw h), reading,
    bind, Except.bind, pure, Except.pure]

theorem formatFinite_cases (bits : Nat) (format : Int → Reads String) (value : Int) :
    (∃ text, (text = "infinity" ∨ text = "-infinity") ∧ formatFinite bits format value = .ok text) ∨
      formatFinite bits format value = format value := by
  unfold formatFinite
  split
  · exact .inl ⟨_, .inl rfl, rfl⟩
  · split
    · exact .inl ⟨_, .inr rfl, rfl⟩
    · exact .inr rfl

section

variable {α : Type} {plain : α → String} {raw : Bytes} {get : Bytes → Option α} {add : Int → Option α}

theorem element_finite {width bits : Nat} (h : raw.length = width) : (do
      let bytes ← exactly width raw
      formatFinite bits (fun n => plain <$> inRange (add n)) (intFromBe bytes)) =
    formatFinite bits (fun n => plain <$> inRange (add n)) (intFromBe raw) := by
  rw [exactly_of_length h]
  rfl

theorem finite_unlike (hcrates : Lawful crates) (bits : Nat) (dated : α → crates.DateTime) (suffix : String)
    (hsuffix : suffix ≠ "") (hget : get raw = add (intFromBe raw))
    (hplain : ∀ value, crates.toRfc3339 (dated value) = plain value ++ suffix) :
    reading (.string <$> formatFinite bits (fun n => plain <$> inRange (add n)) (intFromBe raw)) ≠
      reading (getConst get (fun value => .string (crates.toRfc3339 (dated value))) (some raw)) := by
  rcases formatFinite_cases bits (fun n => plain <$> inRange (add n)) (intFromBe raw) with
    ⟨text, htext, hformat⟩ | hformat
  · rw [hformat]
    cases hadd : add (intFromBe raw) with
    | none =>
      rw [getConst_none (hget.trans hadd)]
      simp [reading, Functor.map, Except.map]
    | some value =>
      rw [getConst_some (hget.trans hadd)]
      have hne := rfc3339_ne hcrates (dated value) htext
      simpa [reading, Functor.map, Except.map] using hne.symm
  · rw [hformat]
    cases hadd : add (intFromBe raw) with
    | none =>
      rw [getConst_none (hget.trans hadd)]
      simp [reading, inRange, Functor.map, Except.map]
    | some value =>
      rw [getConst_some (hget.trans hadd)]
      have hne := append_ne_self (plain value) hsuffix
      simpa [reading, inRange, Functor.map, Except.map, hplain] using hne.symm

end

theorem timestamp_unlike (hcrates : Lawful crates) (h : raw.length = 8) :
    reading (rawElementToConst crates .timestamp raw) ≠ reading (rowValueToConst crates .timestamp (some raw)) := by
  rw [rawElementToConst, formatTimestamp, element_finite h]
  exact finite_unlike hcrates 64 id "+00:00" (by decide) (hcrates.naiveDateTime_bytes raw h) hcrates.rfc3339_utc

theorem date_unlike (hcrates : Lawful crates) (h : raw.length = 4) :
    reading (rawElementToConst crates .date raw) ≠ reading (rowValueToConst crates .date (some raw)) := by
  have hdated (date : crates.Date) :
      crates.toRfc3339 (crates.andMidnight date) = crates.dateToString date ++ ("T00:00:00" ++ "+00:00") := by
    rw [hcrates.rfc3339_utc, hcrates.format_midnight, String.append_assoc]
  rw [rawElementToConst, formatDate, element_finite h]
  exact finite_unlike hcrates 32 crates.andMidnight _ (by decide) (hcrates.naiveDate_bytes raw h) hdated

theorem timestamptz_alike_iff (hcrates : Lawful crates) (h : raw.length = 8) :
    reading (rawElementToConst crates .timestamptz raw) = reading (rowValueToConst crates .timestamptz (some raw)) ↔
      intFromBe raw ≠ 2 ^ 63 - 1 ∧ intFromBe raw ≠ -2 ^ 63 ∧
        (crates.addMicroseconds (intFromBe raw)).isSome = true := by
  have hget := hcrates.dateTimeUtc_bytes raw h
  have hinfinite (text : String) (htext : text = "infinity" ∨ text = "-infinity") :
      reading (.ok (.string text)) ≠ reading (rowValueToConst crates .timestamptz (some raw)) := by
    rw [rowValueToConst]
    cases hadd : crates.addMicroseconds (intFromBe raw) with
    | none =>
      rw [getConst_none (hget.trans hadd)]
      simp [reading]
    | some dt =>
      rw [getConst_some (hget.trans hadd)]
      simpa [reading] using (rfc3339_ne hcrates dt htext).symm
  rw [rawElementToConst, formatTimestamptz, element_finite h]
  by_cases hmax : intFromBe raw = 2 ^ 63 - 1
  · rw [formatFinite, if_pos hmax]
    exact iff_of_false (hinfinite "infinity" (.inl rfl)) (fun h => h.1 hmax)
  by_cases hmin : intFromBe raw = -2 ^ 63
  · rw [formatFinite, if_neg hmax, if_pos hmin]
    exact iff_of_false (hinfinite "-infinity" (.inr rfl)) (fun h => h.2.1 hmin)
  rw [formatFinite, if_neg hmax, if_neg hmin, rowValueToConst]
  cases hadd : crates.addMicroseconds (intFromBe raw) with
  | none =>
    rw [getConst_none (hget.trans hadd)]
    simp [reading, inRange, Functor.map, Except.map]
  | some dt =>
    rw [getConst_some (hget.trans hadd)]
    exact iff_of_true rfl ⟨hmax, hmin, rfl⟩

/-- A value of a supported type reads as an element as it does in a column, except for the three types that never do
and for times with a zone that are infinite or out of the calendar. -/
theorem reads_alike_iff (hcrates : Lawful crates) (ty : PostgresType) (cell : Option Bytes) (oid lowerBound : Nat)
    (hty : Supported ty) (hcell : ∀ raw, cell = some raw → Encodes ty raw ∧ raw.length < 2 ^ 31) :
    Agrees crates ty cell oid lowerBound ↔ ReadsAlike crates ty cell := by
  rw [agrees_iff ty cell (fun raw hraw => (hcell raw hraw).2) oid lowerBound]
  cases cell with
  | none => exact iff_of_true (congrArg reading (null_alike ty).symm) (fun raw hraw => by cases hraw)
  | some raw =>
    have hencodes := (hcell raw rfl).1
    have halike (h : rawElementToConst crates ty raw = rowValueToConst crates ty (some raw))
        (h' : ReadsAlike crates ty (some raw)) :
        reading (element crates ty (some raw)) = reading (rowValueToConst crates ty (some raw)) ↔
          ReadsAlike crates ty (some raw) := iff_of_true (congrArg reading h) h'
    have hunlike (h : reading (rawElementToConst crates ty raw) ≠ reading (rowValueToConst crates ty (some raw)))
        (h' : ¬ ReadsAlike crates ty (some raw)) :
        reading (element crates ty (some raw)) = reading (rowValueToConst crates ty (some raw)) ↔
          ReadsAlike crates ty (some raw) := iff_of_false h h'
    cases ty with
    | bool =>
      refine halike ?_ fun _ _ => trivial
      rcases hencodes with rfl | rfl <;>
        rw [rawElementToConst, rowValueToConst, getConst_some (hcrates.bool_byte _)]
    | int2 =>
      exact halike (fixed_alike (fun n => .number (.int n)) intFromBe hencodes (hcrates.int2_bytes raw hencodes))
        fun _ _ => trivial
    | int4 =>
      exact halike (fixed_alike (fun n => .number (.int n)) intFromBe hencodes (hcrates.int4_bytes raw hencodes))
        fun _ _ => trivial
    | int8 => exact hunlike (int8_unlike hcrates hencodes) fun h => h raw rfl
    | float4 =>
      exact halike (fixed_alike (fun (n : Float32) => floatToConst crates n.toFloat)
        (fun bytes => Float32.ofBits (UInt32.ofNat (fromBe bytes))) hencodes (hcrates.float4_bytes raw hencodes))
        fun _ _ => trivial
    | float8 =>
      exact halike (fixed_alike (floatToConst crates) (fun bytes => Float.ofBits (UInt64.ofNat (fromBe bytes)))
        hencodes (hcrates.float8_bytes raw hencodes)) fun _ _ => trivial
    | text | varchar | bpchar | name | unknown =>
      exact halike (text_alike hcrates (by simp [IsText]) hencodes) fun _ _ => trivial
    | enum name => exact halike (enum_alike name hencodes) fun _ _ => trivial
    | json => exact iff_of_true (json_alike hcrates raw) fun _ _ => trivial
    | jsonb =>
      obtain ⟨text, rfl⟩ := hencodes
      exact iff_of_true (jsonb_alike hcrates text) fun _ _ => trivial
    | timestamp => exact hunlike (timestamp_unlike hcrates hencodes) fun h => h raw rfl
    | timestamptz =>
      refine (timestamptz_alike_iff hcrates hencodes).trans ⟨fun h raw' hraw => ?_, fun h => h raw rfl⟩
      obtain rfl := Option.some.inj hraw
      exact h
    | date => exact hunlike (date_unlike hcrates hencodes) fun h => h raw rfl
    | time =>
      obtain ⟨hlength, h0, h1⟩ := hencodes
      refine halike ?_ fun _ _ => trivial
      rw [rowValueToConst, getConst_some (hcrates.naiveTime_bytes raw hlength), rawElementToConst, exactly_of_length hlength]
      exact congrArg (fun t => Except.ok (ConstValue.string (crates.timeToString t))) (time_alike hcrates h0 h1)
    | timetz | interval | numeric | uuid | bytea | inet | cidr | macaddr | macaddr8 | range _ =>
      exact halike rfl fun _ _ => trivial
    | array _ | other _ => exact absurd hty id

end

def civil (days : Int) : Int × Nat × Nat :=
  let z := days + 730425
  let doe := (z % 146097).toNat
  let yoe := (doe - doe / 1460 + doe / 36524 - doe / 146096) / 365
  let doy := doe - (365 * yoe + yoe / 4 - yoe / 100)
  let mp := (5 * doy + 2) / 153
  let month := if mp < 10 then mp + 3 else mp - 9
  (yoe + z / 146097 * 400 + if month ≤ 2 then 1 else 0, month, doy - (153 * mp + 2) / 5 + 1)

def yearText (year : Int) : String :=
  if 0 ≤ year ∧ year ≤ 9999 then paddedInt 4 year
  else (if year < 0 then "-" else "+") ++ padded 4 (toString year.natAbs)

def dateText (days : Int) : String :=
  let (year, month, day) := civil days
  yearText year ++ "-" ++ padded 2 (toString month) ++ "-" ++ padded 2 (toString day)

def fraction (nanos : Nat) : String :=
  if nanos = 0 then ""
  else if nanos % 1000000 = 0 then "." ++ padded 3 (toString (nanos / 1000000))
  else if nanos % 1000 = 0 then "." ++ padded 6 (toString (nanos / 1000))
  else "." ++ padded 9 (toString nanos)

def timeText (time : Nat × Nat) : String :=
  padded 2 (toString (time.1 / 3600)) ++ ":" ++ padded 2 (toString (time.1 % 3600 / 60)) ++ ":" ++
    padded 2 (toString (time.1 % 60)) ++ fraction time.2

def timeOf (us : Int) : Nat × Nat :=
  ((us / 1000000 % 86400).toNat, (us % 1000000 * 1000).toNat)

def chrono : Chrono where
  Date := Int
  Time := Nat × Nat
  DateTime := Int × (Nat × Nat)
  addMicroseconds us :=
    let days := us / 86400000000
    if -96476249 ≤ days ∧ days ≤ 95015279 then some (days, timeOf us) else none
  addDays days := if -96476249 ≤ days ∧ days ≤ 95015279 then some days else none
  fromNumSecondsFromMidnight secs nanos :=
    if 86400 ≤ secs ∨ 2000000000 ≤ nanos ∨ 1000000000 ≤ nanos ∧ secs % 60 ≠ 59 then none else some (secs, nanos)
  midnight := (0, 0)
  midnightPlus := timeOf
  andMidnight days := (days, (0, 0))
  dateToString := dateText
  timeToString := timeText
  format dt := dateText dt.1 ++ "T" ++ timeText dt.2
  toRfc3339 dt := dateText dt.1 ++ "T" ++ timeText dt.2 ++ "+00:00"

def ofLength {α : Type} (width : Nat) (decode : Bytes → α) (raw : Bytes) : Option α :=
  if raw.length = width then some (decode raw) else none

def crates : Crates where
  toChrono := chrono
  JsonValue := ConstValue
  bool raw := if raw.length = 1 then some (raw != [0]) else none
  int2 := ofLength 2 intFromBe
  int4 := ofLength 4 intFromBe
  int8 := ofLength 8 intFromBe
  float4 := ofLength 4 fun raw => Float32.ofBits (UInt32.ofNat (fromBe raw))
  float8 := ofLength 8 fun raw => Float.ofBits (UInt64.ofNat (fromBe raw))
  string ty raw := if ty ∈ [.text, .varchar, .bpchar, .name, .unknown] then fromUtf8 raw else none
  json ty raw :=
    let data := if ty = .jsonb then raw.drop 1 else raw
    if (ty = .jsonb → raw.head? = some 1) ∧ data = [110, 117, 108, 108] then some .null else none
  naiveDateTime raw := (ofLength 8 intFromBe raw).bind chrono.addMicroseconds
  dateTimeUtc raw := (ofLength 8 intFromBe raw).bind chrono.addMicroseconds
  naiveDate raw := (ofLength 4 intFromBe raw).bind chrono.addDays
  naiveTime raw := (ofLength 8 intFromBe raw).map timeOf
  fromF64 n := if n.isFinite then some (.float (toString n)) else none
  fromSlice raw := if raw = [110, 117, 108, 108] then some .null else none
  fromJson value := some value

theorem crates_lawful : Lawful crates where
  bool_byte byte := by
    have hne : ([byte] != [0]) = (byte != 0) := by
      rw [Bool.eq_iff_iff, bne_iff_ne, bne_iff_ne]
      simp
    simp [crates, hne]
  int2_bytes raw h := if_pos h
  int4_bytes raw h := if_pos h
  int8_bytes raw h := if_pos h
  float4_bytes raw h := if_pos h
  float8_bytes raw h := if_pos h
  string_text ty h raw := if_pos (by simpa [IsText] using h)
  json_text raw := by simp [crates]
  jsonb_text raw := by simp [crates]
  naiveDateTime_bytes raw h := congrArg (fun n => Option.bind n chrono.addMicroseconds) (if_pos h)
  dateTimeUtc_bytes raw h := congrArg (fun n => Option.bind n chrono.addMicroseconds) (if_pos h)
  naiveDate_bytes raw h := congrArg (fun n => Option.bind n chrono.addDays) (if_pos h)
  naiveTime_bytes raw h := congrArg (Option.map timeOf) (if_pos h)
  midnightPlus_wraps us := if_neg (by omega)
  midnight_zero := rfl
  no_later_second secs nanos h := if_pos (.inl h)
  rfc3339_utc dt := rfl
  format_midnight date := by
    have htime : timeText (0, 0) = "00:00:00" := by decide
    change dateText date ++ "T" ++ timeText (0, 0) = dateText date ++ "T00:00:00"
    rw [htime, String.append_assoc]
    rfl

theorem int8_reads_apart : Supported .int8 ∧ Encodes .int8 [0, 0, 0, 0, 0, 0, 0, 42] ∧
    ¬ Agrees crates .int8 (some [0, 0, 0, 0, 0, 0, 0, 42]) 20 1 := by
  refine ⟨trivial, rfl, ?_⟩
  rw [agrees_iff]
  · exact int8_unlike crates_lawful rfl
  · intro raw hraw
    obtain rfl := Option.some.inj hraw
    decide

theorem reads_alike_int4 : Agrees crates .int4 (some [0, 0, 0, 42]) 23 1 ↔ ReadsAlike crates .int4 (some [0, 0, 0, 42]) :=
  reads_alike_iff crates_lawful .int4 (some [0, 0, 0, 42]) 23 1 trivial fun raw hraw => by
    obtain rfl := Option.some.inj hraw
    exact ⟨rfl, by decide⟩

end Gqlforge.PostgresCells
