import Gqlforge.PostgresParams

namespace Gqlforge.ParamRoundTrip

open BigEndian BinaryFormat Json PostgresArrays PostgresCells PostgresParams Schema

def float4OfBe (raw : Bytes) : Float32 :=
  Float32.ofBits (UInt32.ofNat (fromBe raw))

def float8OfBe (raw : Bytes) : Float :=
  Float.ofBits (UInt64.ofNat (fromBe raw))

structure Reversible {crates : Crates} (writers : Writers crates) : Prop where
  bool_toSql (b : Bool) : writers.boolToSql b = [if b then 1 else 0]
  int2_toSql (n : Int) : writers.int2ToSql n = intToBe 2 n
  int4_toSql (n : Int) : writers.int4ToSql n = intToBe 4 n
  int8_toSql (n : Int) : writers.int8ToSql n = intToBe 8 n
  /-- A float is printed as the shortest decimal that is nearest to it. -/
  parseF32_repr (n : Float32) (number : Number) (h : crates.fromF64 n.toFloat = some number) :
    ∃ repr, number = .float repr ∧ writers.parseF32 repr = some n
  parseF64_repr (n : Float) (number : Number) (h : crates.fromF64 n = some number) :
    ∃ repr, number = .float repr ∧ writers.parseF64 repr = some n
  float4_toSql (raw : Bytes) (h : raw.length = 4) (hfinite : (crates.fromF64 (float4OfBe raw).toFloat).isSome = true) :
    writers.float4ToSql (float4OfBe raw) = raw
  float8_toSql (raw : Bytes) (h : raw.length = 8) (hfinite : (crates.fromF64 (float8OfBe raw)).isSome = true) :
    writers.float8ToSql (float8OfBe raw) = raw
  timestamptz_toSql (us : Int) (dt : crates.DateTime) (h : crates.addMicroseconds us = some dt) :
    writers.timestamptzToSql dt = some (intToBe 8 us)
  time_toSql (us : Int) : writers.timeToSql (crates.midnightPlus us) = some (intToBe 8 (us % 86400000000))
  time_text (us : Int) :
    writers.naiveTimeFromStr (crates.timeToString (crates.midnightPlus us)) "%H:%M:%S%.f" = some (crates.midnightPlus us)
  /-- A format reads the whole of a text, and none of these ends with an offset. -/
  naiveDateTime_offset (text format : String) (h : format ∈ dateTimeFormats) :
    writers.naiveDateTimeFromStr (text ++ "+00:00") format = none
  naiveDate_time (text : String) : writers.naiveDateFromStr (text ++ "T00:00:00+00:00") "%Y-%m-%d" = none
  /-- The years of RFC 3339 have four digits. -/
  fromRfc3339_text (dt : crates.DateTime) : writers.fromRfc3339 (crates.toRfc3339 dt) =
    if 0 ≤ writers.year dt ∧ writers.year dt ≤ 9999 then some dt else none

section

variable {crates : Crates} (writers : Writers crates) (json : ConstValue → String)

/-- What the column reads as is accepted as a parameter of its type, and is sent as the bytes that were read. -/
def RoundTrips (ty : PostgresType) (raw : Bytes) : Prop :=
  ∃ value, rowValueToConst crates ty (some raw) = .ok value ∧ toSql writers ty (paramText json value) = .ok (some raw)

def Survives (ty : PostgresType) (raw : Bytes) : Prop :=
  match ty with
  | .timestamp | .date => False
  | .timestamptz => ∃ dt, crates.addMicroseconds (intFromBe raw) = some dt ∧ 0 ≤ writers.year dt ∧ writers.year dt ≤ 9999
  | .time => intFromBe raw ≠ 86400000000
  | .float4 => (crates.fromF64 (float4OfBe raw).toFloat).isSome = true
  | .float8 => (crates.fromF64 (float8OfBe raw)).isSome = true
  | _ => True

variable {writers json}

variable {raw : Bytes}

theorem roundTrips_of_reads {ty : PostgresType} {value : ConstValue}
    (h : rowValueToConst crates ty (some raw) = .ok value) :
    RoundTrips writers json ty raw ↔ toSql writers ty (paramText json value) = .ok (some raw) := by
  constructor
  · rintro ⟨value', h', hwritten⟩
    obtain rfl := Except.ok.inj (h.symm.trans h')
    exact hwritten
  · exact fun hwritten => ⟨value, h, hwritten⟩

theorem not_roundTrips_of_error {ty : PostgresType} {failure : Failure}
    (h : rowValueToConst crates ty (some raw) = .error failure) : ¬ RoundTrips writers json ty raw := by
  rintro ⟨value, h', _⟩
  rw [h] at h'
  cases h'

example {ty : PostgresType} : toSql writers ty (paramText json .null) = .ok none := by
  rw [paramText, toSql]

theorem bool_survives (hcrates : Lawful crates) (hwriters : Reversible writers)
    (h : raw = [0] ∨ raw = [1]) : RoundTrips writers json .bool raw := by
  rcases h with rfl | rfl
  · have hread : rowValueToConst crates .bool (some [0]) = .ok (.boolean false) := getConst_some (hcrates.bool_byte 0)
    have hparse : parseBool "false" = .ok false := by decide
    rw [roundTrips_of_reads hread, paramText, if_neg Bool.false_ne_true, toSql, hparse]
    exact congrArg (fun bytes => Except.ok (some bytes)) (hwriters.bool_toSql false)
  · have hread : rowValueToConst crates .bool (some [1]) = .ok (.boolean true) := getConst_some (hcrates.bool_byte 1)
    have hparse : parseBool "true" = .ok true := by decide
    rw [roundTrips_of_reads hread, paramText, if_pos rfl, toSql, hparse]
    exact congrArg (fun bytes => Except.ok (some bytes)) (hwriters.bool_toSql true)

theorem parseInt_intFromBe {width : Nat} {raw : Bytes} (h : raw.length = width + 1) :
    Scalar.parseInt (-(128 * 256 ^ width)) (128 * 256 ^ width - 1) (toString (intFromBe raw)) = some (intFromBe raw) := by
  obtain ⟨hlow, hhigh⟩ := intFromBe_bounds h
  have hpos : (0 : Int) < 256 ^ width := Int.pow_pos (by omega)
  exact parseInt_toString (by omega) hlow (by omega)

theorem written_int {width : Nat} {toBytes : Int → Bytes} (h : raw.length = width)
    (hbytes : ∀ n, toBytes n = intToBe width n) :
    (Except.ok (some (toBytes (intFromBe raw))) : Accepts (Option Bytes)) = .ok (some raw) := by
  rw [hbytes, ← h, intToBe_intFromBe]

theorem int2_survives (hcrates : Lawful crates) (hwriters : Reversible writers) (h : raw.length = 2) :
    RoundTrips writers json .int2 raw := by
  have hread : rowValueToConst crates .int2 (some raw) = .ok (.number (.int (intFromBe raw))) :=
    getConst_some (hcrates.int2_bytes raw h)
  have hparse : Scalar.parseInt (-2 ^ 15) (2 ^ 15 - 1) (toString (intFromBe raw)) = some (intFromBe raw) :=
    @parseInt_intFromBe 1 raw h
  rw [roundTrips_of_reads hread, paramText, toSql, hparse]
  exact written_int h hwriters.int2_toSql

theorem int4_survives (hcrates : Lawful crates) (hwriters : Reversible writers) (h : raw.length = 4) :
    RoundTrips writers json .int4 raw := by
  have hread : rowValueToConst crates .int4 (some raw) = .ok (.number (.int (intFromBe raw))) :=
    getConst_some (hcrates.int4_bytes raw h)
  have hparse : Scalar.parseInt (-2 ^ 31) (2 ^ 31 - 1) (toString (intFromBe raw)) = some (intFromBe raw) :=
    @parseInt_intFromBe 3 raw h
  rw [roundTrips_of_reads hread, paramText, toSql, hparse]
  exact written_int h hwriters.int4_toSql

theorem int8_survives (hcrates : Lawful crates) (hwriters : Reversible writers) (h : raw.length = 8) :
    RoundTrips writers json .int8 raw := by
  have hread : rowValueToConst crates .int8 (some raw) = .ok (.string (toString (intFromBe raw))) :=
    getConst_some (hcrates.int8_bytes raw h)
  have hparse : Scalar.parseInt (-2 ^ 63) (2 ^ 63 - 1) (toString (intFromBe raw)) = some (intFromBe raw) :=
    @parseInt_intFromBe 7 raw h
  rw [roundTrips_of_reads hread, paramText, toSql, hparse]
  exact written_int h hwriters.int8_toSql

theorem float4_survives_iff (hcrates : Lawful crates) (hwriters : Reversible writers) (h : raw.length = 4) :
    RoundTrips writers json .float4 raw ↔ (crates.fromF64 (float4OfBe raw).toFloat).isSome = true := by
  have hread : rowValueToConst crates .float4 (some raw) = .ok (floatToConst crates (float4OfBe raw).toFloat) :=
    getConst_some (hcrates.float4_bytes raw h)
  rw [roundTrips_of_reads hread]
  cases hnumber : crates.fromF64 (float4OfBe raw).toFloat with
  | none =>
    rw [floatToConst, hnumber]
    exact iff_of_false (by simp [toSql, paramText]) (by simp)
  | some number =>
    obtain ⟨repr, rfl, hparse⟩ := hwriters.parseF32_repr _ number hnumber
    have hbytes := hwriters.float4_toSql raw h (by rw [hnumber]; rfl)
    rw [floatToConst, hnumber]
    refine iff_of_true ?_ rfl
    simp [toSql, paramText, hparse, parsed, hbytes, bind, Except.bind, pure, Except.pure]

theorem float8_survives_iff (hcrates : Lawful crates) (hwriters : Reversible writers) (h : raw.length = 8) :
    RoundTrips writers json .float8 raw ↔ (crates.fromF64 (float8OfBe raw)).isSome = true := by
  have hread : rowValueToConst crates .float8 (some raw) = .ok (floatToConst crates (float8OfBe raw)) :=
    getConst_some (hcrates.float8_bytes raw h)
  rw [roundTrips_of_reads hread]
  cases hnumber : crates.fromF64 (float8OfBe raw) with
  | none =>
    rw [floatToConst, hnumber]
    exact iff_of_false (by simp [toSql, paramText]) (by simp)
  | some number =>
    obtain ⟨repr, rfl, hparse⟩ := hwriters.parseF64_repr _ number hnumber
    have hbytes := hwriters.float8_toSql raw h (by rw [hnumber]; rfl)
    rw [floatToConst, hnumber]
    refine iff_of_true ?_ rfl
    simp [toSql, paramText, hparse, parsed, hbytes, bind, Except.bind, pure, Except.pure]

theorem timestamp_rejected (hcrates : Lawful crates) (hwriters : Reversible writers) (h : raw.length = 8) :
    ¬ RoundTrips writers json .timestamp raw := by
  have hget := hcrates.naiveDateTime_bytes raw h
  cases hadd : crates.addMicroseconds (intFromBe raw) with
  | none =>
    have hread : rowValueToConst crates .timestamp (some raw) = .error .driver := getConst_none (hget.trans hadd)
    exact not_roundTrips_of_error hread
  | some dt =>
    have hread : rowValueToConst crates .timestamp (some raw) = .ok (.string (crates.toRfc3339 dt)) :=
      getConst_some (hget.trans hadd)
    have hnone : dateTimeFormats.findSome? (writers.naiveDateTimeFromStr (crates.toRfc3339 dt)) = none := by
      rw [List.findSome?_eq_none_iff]
      intro format hformat
      rw [hcrates.rfc3339_utc]
      exact hwriters.naiveDateTime_offset _ format hformat
    rw [roundTrips_of_reads hread, paramText, toSql, parseNaiveDateTime, hnone]
    exact fun he => nomatch he

theorem date_rejected (hcrates : Lawful crates) (hwriters : Reversible writers) (h : raw.length = 4) :
    ¬ RoundTrips writers json .date raw := by
  have hget := hcrates.naiveDate_bytes raw h
  cases hadd : crates.addDays (intFromBe raw) with
  | none =>
    have hread : rowValueToConst crates .date (some raw) = .error .driver := getConst_none (hget.trans hadd)
    exact not_roundTrips_of_error hread
  | some date =>
    have hread : rowValueToConst crates .date (some raw) = .ok (.string (crates.toRfc3339 (crates.andMidnight date))) :=
      getConst_some (hget.trans hadd)
    have htext : crates.toRfc3339 (crates.andMidnight date) = crates.dateToString date ++ "T00:00:00+00:00" := by
      rw [hcrates.rfc3339_utc, hcrates.format_midnight, String.append_assoc]
      rfl
    rw [roundTrips_of_reads hread, paramText, toSql, htext, hwriters.naiveDate_time]
    exact fun he => nomatch he

theorem timestamptz_survives_iff (hcrates : Lawful crates) (hwriters : Reversible writers)
    (h : raw.length = 8) : RoundTrips writers json .timestamptz raw ↔
      ∃ dt, crates.addMicroseconds (intFromBe raw) = some dt ∧ 0 ≤ writers.year dt ∧ writers.year dt ≤ 9999 := by
  have hget := hcrates.dateTimeUtc_bytes raw h
  cases hadd : crates.addMicroseconds (intFromBe raw) with
  | none =>
    have hread : rowValueToConst crates .timestamptz (some raw) = .error .driver := getConst_none (hget.trans hadd)
    exact iff_of_false (not_roundTrips_of_error hread) fun ⟨dt, he, _⟩ => nomatch he
  | some dt =>
    have hread : rowValueToConst crates .timestamptz (some raw) = .ok (.string (crates.toRfc3339 dt)) :=
      getConst_some (hget.trans hadd)
    have hbytes := hwriters.timestamptz_toSql _ dt hadd
    rw [← h, intToBe_intFromBe] at hbytes
    rw [roundTrips_of_reads hread, paramText, toSql, hwriters.fromRfc3339_text]
    by_cases hyear : 0 ≤ writers.year dt ∧ writers.year dt ≤ 9999
    · rw [if_pos hyear]
      refine iff_of_true ?_ ⟨dt, rfl, hyear⟩
      exact congrArg written hbytes
    · rw [if_neg hyear]
      refine iff_of_false (fun he => nomatch he) ?_
      rintro ⟨dt', he, hyear'⟩
      obtain rfl := Option.some.inj he
      exact hyear hyear'

theorem time_survives_iff (hcrates : Lawful crates) (hwriters : Reversible writers) (h : raw.length = 8)
    (h0 : 0 ≤ intFromBe raw) (h1 : intFromBe raw ≤ 86400000000) :
    RoundTrips writers json .time raw ↔ intFromBe raw ≠ 86400000000 := by
  have hread : rowValueToConst crates .time (some raw) =
      .ok (.string (crates.timeToString (crates.midnightPlus (intFromBe raw)))) :=
    getConst_some (hcrates.naiveTime_bytes raw h)
  have hparse : parseNaiveTime writers (crates.timeToString (crates.midnightPlus (intFromBe raw))) =
      .ok (crates.midnightPlus (intFromBe raw)) := by
    rw [parseNaiveTime, timeFormats, List.findSome?_cons, hwriters.time_text]
  have hraw := intToBe_intFromBe raw
  rw [h] at hraw
  rw [roundTrips_of_reads hread, paramText, toSql, hparse]
  change written (writers.timeToSql (crates.midnightPlus (intFromBe raw))) = .ok (some raw) ↔ _
  rw [hwriters.time_toSql, written]
  constructor
  · intro he hend
    have hbytes := Option.some.inj (Except.ok.inj he)
    rw [hend] at hbytes hraw
    have hzero : intToBe 8 (86400000000 % 86400000000) = intToBe 8 86400000000 := hbytes.trans hraw.symm
    revert hzero
    decide
  · intro hlt
    rw [Int.emod_eq_of_lt h0 (by omega), hraw]

theorem uuid_survives (h : raw.length = 16) : RoundTrips writers json .uuid raw := by
  obtain ⟨text, hformat, hparse⟩ := uuid_round_trip h
  have hread : rowValueToConst crates .uuid (some raw) = .ok (.string text) := by
    change (ConstValue.string <$> formatUuid raw) = .ok (.string text)
    rw [hformat]
    rfl
  rw [roundTrips_of_reads hread, paramText, toSql, hparse]
  rfl

/-- A value of a type that is encoded as binary is read and written back unless it is a timestamp or a date, a float
that is not finite, the end of the day, or a time with a zone outside of the years of RFC 3339. -/
theorem survives_iff (hcrates : Lawful crates) (hwriters : Reversible writers) (json : ConstValue → String)
    (ty : PostgresType) (raw : Bytes) (hty : isBinary ty = true) (hraw : Encodes ty raw)
    (huuid : ty = .uuid → raw.length = 16) : RoundTrips writers json ty raw ↔ Survives writers ty raw := by
  cases ty with
  | bool => exact iff_of_true (bool_survives hcrates hwriters hraw) trivial
  | int2 => exact iff_of_true (int2_survives hcrates hwriters hraw) trivial
  | int4 => exact iff_of_true (int4_survives hcrates hwriters hraw) trivial
  | int8 => exact iff_of_true (int8_survives hcrates hwriters hraw) trivial
  | float4 => exact float4_survives_iff hcrates hwriters hraw
  | float8 => exact float8_survives_iff hcrates hwriters hraw
  | timestamp => exact iff_of_false (timestamp_rejected hcrates hwriters hraw) id
  | timestamptz => exact timestamptz_survives_iff hcrates hwriters hraw
  | date => exact iff_of_false (date_rejected hcrates hwriters hraw) id
  | time => exact time_survives_iff hcrates hwriters hraw.1 hraw.2.1 hraw.2.2
  | uuid => exact iff_of_true (uuid_survives (huuid rfl)) trivial
  | text | varchar | bpchar | name | unknown | json | jsonb | timetz | interval | numeric | bytea | inet | cidr | macaddr
  | macaddr8 | enum _ | range _ | array _ | other _ => exact absurd hty Bool.false_ne_true

end

def plainCrates : Crates :=
  { PostgresCells.crates with
    Time := Int
    DateTime := Int
    addMicroseconds := some
    fromNumSecondsFromMidnight := fun secs nanos => if secs < 86400 then some (secs * 1000000 + nanos / 1000) else none
    midnight := 0
    midnightPlus := (· % 86400000000)
    andMidnight := fun _ => 0
    dateToString := fun _ => ""
    timeToString := toString
    format := fun _ => "T00:00:00"
    toRfc3339 := fun _ => "T00:00:00+00:00"
    naiveDateTime := ofLength 8 intFromBe
    dateTimeUtc := ofLength 8 intFromBe
    naiveTime := ofLength 8 fun raw => intFromBe raw % 86400000000
    fromF64 := fun _ => none }

def plainWriters : Writers plainCrates where
  year _ := 10000
  parseF32 _ := none
  parseF64 _ := none
  naiveDateTimeFromStr _ _ := none
  fromRfc3339 _ := none
  naiveDateFromStr _ _ := none
  naiveTimeFromStr text _ := Scalar.parseInt (-1) 86400000000 text
  boolToSql b := [if b then 1 else 0]
  int2ToSql := intToBe 2
  int4ToSql := intToBe 4
  int8ToSql := intToBe 8
  float4ToSql _ := []
  float8ToSql _ := []
  timestampToSql us := some (intToBe 8 us)
  timestamptzToSql us := some (intToBe 8 us)
  dateToSql (days : Int) := some (intToBe 4 days)
  timeToSql us := some (intToBe 8 us)

theorem plainCrates_lawful : Lawful plainCrates where
  bool_byte := crates_lawful.bool_byte
  int2_bytes := crates_lawful.int2_bytes
  int4_bytes := crates_lawful.int4_bytes
  int8_bytes := crates_lawful.int8_bytes
  float4_bytes := crates_lawful.float4_bytes
  float8_bytes := crates_lawful.float8_bytes
  string_text := crates_lawful.string_text
  json_text := crates_lawful.json_text
  jsonb_text := crates_lawful.jsonb_text
  naiveDateTime_bytes raw h := if_pos h
  dateTimeUtc_bytes raw h := if_pos h
  naiveDate_bytes := crates_lawful.naiveDate_bytes
  naiveTime_bytes raw h := if_pos h
  midnightPlus_wraps us := by
    have hsecs : (us / 1000000 % 86400).toNat < 86400 := by omega
    refine (if_pos hsecs).trans (congrArg some ?_)
    change (((us / 1000000 % 86400).toNat : Int) * 1000000 + (us % 1000000 * 1000).toNat / 1000) = us % 86400000000
    omega
  midnight_zero := rfl
  no_later_second secs nanos h := if_neg (by omega)
  rfc3339_utc dt := rfl
  format_midnight date := rfl

theorem plainWriters_reversible : Reversible plainWriters where
  bool_toSql b := rfl
  int2_toSql n := rfl
  int4_toSql n := rfl
  int8_toSql n := rfl
  parseF32_repr n number h := nomatch h
  parseF64_repr n number h := nomatch h
  float4_toSql raw h hfinite := nomatch hfinite
  float8_toSql raw h hfinite := nomatch hfinite
  timestamptz_toSql us dt h := by
    obtain rfl := Option.some.inj h
    rfl
  time_toSql us := rfl
  time_text us := by
    have hrange : -1 ≤ us % 86400000000 ∧ us % 86400000000 ≤ 86400000000 := by omega
    exact parseInt_toString (by omega) hrange.1 hrange.2
  naiveDateTime_offset text format h := rfl
  naiveDate_time text := rfl
  fromRfc3339_text dt := (if_neg (by simp [plainWriters])).symm

theorem survives_int4 : RoundTrips plainWriters (fun _ => "") .int4 [0, 0, 0, 42] ↔
    Survives plainWriters .int4 [0, 0, 0, 42] :=
  survives_iff plainCrates_lawful plainWriters_reversible (fun _ => "") .int4 [0, 0, 0, 42] rfl rfl (fun h => nomatch h)

def epochWriters : Writers PostgresCells.crates where
  year dt := (civil dt.1).1
  parseF32 _ := none
  parseF64 _ := none
  naiveDateTimeFromStr text format :=
    if text = "2000-01-01T00:00:00" ∧ format = "%Y-%m-%dT%H:%M:%S%.f" then some (0, (0, 0)) else none
  fromRfc3339 text := if text = "2000-01-01T00:00:00+00:00" then some (0, (0, 0)) else none
  naiveDateFromStr text _ := if text = "2000-01-01" then some (0 : Int) else none
  naiveTimeFromStr text _ := if text = "00:00:00" then some (0, 0) else none
  boolToSql b := [if b then 1 else 0]
  int2ToSql := intToBe 2
  int4ToSql := intToBe 4
  int8ToSql := intToBe 8
  float4ToSql _ := []
  float8ToSql _ := []
  timestampToSql _ := some (intToBe 8 0)
  timestamptzToSql _ := some (intToBe 8 0)
  dateToSql (days : Int) := some (intToBe 4 days)
  timeToSql _ := some (intToBe 8 0)

theorem timestamp_refused : isBinary .timestamp = true ∧ Encodes .timestamp [0, 0, 0, 0, 0, 0, 0, 0] ∧
    rowValueToConst PostgresCells.crates .timestamp (some [0, 0, 0, 0, 0, 0, 0, 0]) =
      .ok (.string "2000-01-01T00:00:00+00:00") ∧
    toSql epochWriters .timestamp (some "2000-01-01T00:00:00+00:00") =
      .error (.message "cannot parse '2000-01-01T00:00:00+00:00' as TIMESTAMP") ∧
    ¬ RoundTrips epochWriters (fun _ => "") .timestamp [0, 0, 0, 0, 0, 0, 0, 0] := by
  have hread : rowValueToConst PostgresCells.crates .timestamp (some [0, 0, 0, 0, 0, 0, 0, 0]) =
      .ok (.string "2000-01-01T00:00:00+00:00") := by
    have hprint : PostgresCells.crates.toRfc3339 ((0 : Int), ((0 : Nat), (0 : Nat))) = "2000-01-01T00:00:00+00:00" := by
      decide
    have hadd : PostgresCells.crates.addMicroseconds (intFromBe [0, 0, 0, 0, 0, 0, 0, 0]) = some ((0 : Int), (0, 0)) := by
      have hzero : intFromBe [0, 0, 0, 0, 0, 0, 0, 0] = 0 := by decide
      rw [hzero]
      simp [PostgresCells.crates, chrono, timeOf]
    have hget := (crates_lawful.naiveDateTime_bytes [0, 0, 0, 0, 0, 0, 0, 0] rfl).trans hadd
    rw [rowValueToConst, getConst_some hget, hprint]
  have hwrite : toSql epochWriters .timestamp (some "2000-01-01T00:00:00+00:00") =
      .error (.message "cannot parse '2000-01-01T00:00:00+00:00' as TIMESTAMP") := by
    have hnone : dateTimeFormats.findSome? (epochWriters.naiveDateTimeFromStr "2000-01-01T00:00:00+00:00") = none := by
      simp [epochWriters]
    have htext : "cannot parse '" ++ "2000-01-01T00:00:00+00:00" ++ "' as TIMESTAMP" =
        "cannot parse '2000-01-01T00:00:00+00:00' as TIMESTAMP" := by
      decide
    rw [toSql, parseNaiveDateTime, hnone, htext]
    rfl
  refine ⟨rfl, rfl, hread, hwrite, ?_⟩
  rw [roundTrips_of_reads hread, paramText, hwrite]
  intro he
  cases he

end Gqlforge.ParamRoundTrip
