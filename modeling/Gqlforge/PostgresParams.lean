import Gqlforge.PostgresCells
import Gqlforge.Schema

namespace Gqlforge.PostgresParams

open BigEndian BinaryFormat Json PostgresArrays PostgresCells Schema

inductive Rejection where
  | message (text : String)
  | parse
  | driver
  | panic
  deriving DecidableEq

abbrev Accepts := Except Rejection

structure Writers (crates : Crates) where
  year : crates.DateTime → Int
  parseF32 : String → Option Float32
  parseF64 : String → Option Float
  naiveDateTimeFromStr : String → String → Option crates.DateTime
  fromRfc3339 : String → Option crates.DateTime
  naiveDateFromStr : String → String → Option crates.Date
  naiveTimeFromStr : String → String → Option crates.Time
  boolToSql : Bool → Bytes
  int2ToSql : Int → Bytes
  int4ToSql : Int → Bytes
  int8ToSql : Int → Bytes
  float4ToSql : Float32 → Bytes
  float8ToSql : Float → Bytes
  timestampToSql : crates.DateTime → Option Bytes
  timestamptzToSql : crates.DateTime → Option Bytes
  dateToSql : crates.Date → Option Bytes
  timeToSql : crates.Time → Option Bytes

def fromStrRadix16 : List Char → Option Nat
  | ['+', low] => hexDigit low
  | [high, low] => do
    let high ← hexDigit high
    let low ← hexDigit low
    return high * 16 + low
  | _ => none

def splitBytes : List Char → Nat → Option (List Char × List Char)
  | text, 0 => some ([], text)
  | [], _ => none
  | c :: text, count =>
    if c.utf8Size ≤ count then
      (splitBytes text (count - c.utf8Size)).map fun (front, rest) => (c :: front, rest)
    else none

def parseHexBytes : Nat → List Char → Accepts Bytes
  | 0, _ => .ok []
  | count + 1, hex => match splitBytes hex 2 with
    | none => .error .panic
    | some (digits, rest) => match fromStrRadix16 digits with
      | none => .error .parse
      | some byte => (UInt8.ofNat byte :: ·) <$> parseHexBytes count rest

def parseUuidToBytes (s : String) : Accepts Bytes :=
  let hex := s.toList.filter (· != '-')
  if (hex.map Char.utf8Size).sum ≠ 32 then .error (.message ("invalid UUID: '" ++ s ++ "'"))
  else parseHexBytes 16 hex

section

variable {crates : Crates} (writers : Writers crates)

def dateTimeFormats : List String :=
  ["%Y-%m-%dT%H:%M:%S%.f", "%Y-%m-%dT%H:%M:%S", "%Y-%m-%d %H:%M:%S%.f", "%Y-%m-%d %H:%M:%S"]

def parseNaiveDateTime (s : String) : Accepts crates.DateTime :=
  match dateTimeFormats.findSome? (writers.naiveDateTimeFromStr s) with
  | some dt => .ok dt
  | none => .error (.message ("cannot parse '" ++ s ++ "' as TIMESTAMP"))

def timeFormats : List String :=
  ["%H:%M:%S%.f", "%H:%M:%S", "%H:%M"]

def parseNaiveTime (s : String) : Accepts crates.Time :=
  match timeFormats.findSome? (writers.naiveTimeFromStr s) with
  | some t => .ok t
  | none => .error (.message ("cannot parse '" ++ s ++ "' as TIME"))

def parseBool (value : String) : Accepts Bool :=
  -- no letter beyond ASCII has one of these as its small letter
  let lower := String.ofList (value.toList.map Char.toLower)
  if lower ∈ ["true", "t", "1", "yes"] then .ok true
  else if lower ∈ ["false", "f", "0", "no"] then .ok false
  else .error (.message ("cannot convert '" ++ lower ++ "' to bool"))

def parsed {α : Type} : Option α → Accepts α
  | some value => .ok value
  | none => .error .parse

def written : Option Bytes → Accepts (Option Bytes)
  | some bytes => .ok (some bytes)
  | none => .error .driver

def toSql (ty : PostgresType) : Option String → Accepts (Option Bytes)
  | none => .ok none
  | some value => match ty with
    | .bool => do
      let b ← parseBool value
      return some (writers.boolToSql b)
    | .int2 => do
      let v ← parsed (Scalar.parseInt (-2 ^ 15) (2 ^ 15 - 1) value)
      return some (writers.int2ToSql v)
    | .int4 => do
      let v ← parsed (Scalar.parseInt (-2 ^ 31) (2 ^ 31 - 1) value)
      return some (writers.int4ToSql v)
    | .int8 => do
      let v ← parsed (Scalar.parseInt (-2 ^ 63) (2 ^ 63 - 1) value)
      return some (writers.int8ToSql v)
    | .float4 => do
      let v ← parsed (writers.parseF32 value)
      return some (writers.float4ToSql v)
    | .float8 => do
      let v ← parsed (writers.parseF64 value)
      return some (writers.float8ToSql v)
    | .timestamp => do
      let dt ← parseNaiveDateTime writers value
      written (writers.timestampToSql dt)
    | .timestamptz => do
      let dt ← parsed (writers.fromRfc3339 value)
      written (writers.timestamptzToSql dt)
    | .date => do
      let d ← parsed (writers.naiveDateFromStr value "%Y-%m-%d")
      written (writers.dateToSql d)
    | .time => do
      let t ← parseNaiveTime writers value
      written (writers.timeToSql t)
    | .uuid => do
      let bytes ← parseUuidToBytes value
      return some bytes
    | _ => .ok (some value.toUTF8.toList)

end

def isBinary : PostgresType → Bool
  | .bool | .int2 | .int4 | .int8 | .float4 | .float8 | .timestamp | .timestamptz | .date | .time | .uuid => true
  | _ => false

def paramText (json : ConstValue → String) : ConstValue → Option String
  | .null => none
  | .string text => some text
  | .number (.int n) => some (toString n)
  | .number (.float repr) => some repr
  | .boolean value => some (if value then "true" else "false")
  | value => some (json value)

theorem digitsValue_toDigits (n : Nat) : Scalar.digitsValue (Nat.toDigits 10 n) = some n := by
  have hdigits : ¬((Nat.toDigits 10 n).isEmpty = true ∨ ¬(Nat.toDigits 10 n).all Char.isDigit = true) := by
    rintro (hempty | hall)
    · exact Nat.toDigits_ne_nil (List.isEmpty_iff.mp hempty)
    · exact hall (List.all_eq_true.mpr fun c hc => Nat.isDigit_of_mem_toDigits (by decide) (by decide) hc)
  have hfold : (fun acc (digit : Char) => acc * 10 + (digit.toNat - '0'.toNat)) =
      fun acc digit => 10 * acc + (digit.toNat - '0'.toNat) := by
    funext acc digit
    rw [Nat.mul_comm]
  rw [Scalar.digitsValue, if_neg hdigits, hfold, ← Nat.ofDigitChars_eq_foldl, Nat.ofDigitChars_ten_toDigits]

theorem parseInt_toString {low high n : Int} (hlow : low < 0) (h : low ≤ n) (h' : n ≤ high) :
    Scalar.parseInt low high (toString n) = some n := by
  have hrange (m : Int) (hm : m = n) : (some m).filter (fun n => decide (low ≤ n ∧ n ≤ high)) = some n := by
    simp [hm, h, h']
  rw [Int.toString_eq_repr, Int.repr_eq_if, Scalar.parseInt]
  by_cases h0 : 0 ≤ n
  · rw [if_pos h0, Nat.toList_repr]
    have hdigit (c : Char) (hc : c ∈ Nat.toDigits 10 n.toNat) : c.isDigit = true :=
      Nat.isDigit_of_mem_toDigits (by decide) (by decide) hc
    cases hdigits : Nat.toDigits 10 n.toNat with
    | nil => exact absurd hdigits Nat.toDigits_ne_nil
    | cons first rest =>
      rw [hdigits] at hdigit
      have hfirst := hdigit first List.mem_cons_self
      have hvalue := digitsValue_toDigits n.toNat
      rw [hdigits] at hvalue
      have hsigns : first ≠ '-' ∧ first ≠ '+' := by
        constructor <;> rintro rfl <;> exact absurd hfirst (by decide)
      split
      next he => exact absurd (List.cons.inj he).1 hsigns.1
      next he => exact absurd (List.cons.inj he).1 hsigns.2
      next =>
        rw [hvalue]
        exact hrange n.toNat (Int.toNat_of_nonneg h0)
  · rw [if_neg h0, String.toList_append, Nat.toList_repr]
    have hvalue := digitsValue_toDigits (-n).toNat
    simp only [show "-".toList = ['-'] from rfl, List.cons_append, List.nil_append, if_pos hlow, hvalue]
    exact hrange (-((-n).toNat : Int)) (by omega)

def hexChars (byte : UInt8) : List Char :=
  [Nat.digitChar (byte.toNat / 16), Nat.digitChar (byte.toNat % 16)]

theorem hexChars_spec (byte : UInt8) : (padded 2 (lowerHex byte.toNat)).toList = hexChars byte ∧
    fromStrRadix16 (hexChars byte) = some byte.toNat ∧ splitBytes (hexChars byte) 2 = some (hexChars byte, []) ∧
    (hexChars byte).all (· != '-') = true := by
  have hall : ∀ n : Fin 256, (padded 2 (lowerHex n)).toList = [Nat.digitChar (n / 16), Nat.digitChar (n % 16)] ∧
      fromStrRadix16 [Nat.digitChar (n / 16), Nat.digitChar (n % 16)] = some n.val ∧
      splitBytes [Nat.digitChar (n / 16), Nat.digitChar (n % 16)] 2 =
        some ([Nat.digitChar (n / 16), Nat.digitChar (n % 16)], []) ∧
      [Nat.digitChar (n / 16), Nat.digitChar (n % 16)].all (· != '-') = true := by
    decide +kernel
  exact hall ⟨byte.toNat, byte.toNat_lt⟩

theorem toList_hex (raw : Bytes) : (hex raw).toList = raw.flatMap hexChars := by
  rw [hex, String.toList_join, List.flatMap_map]
  exact List.flatMap_congr fun byte _ => (hexChars_spec byte).1

theorem splitBytes_cons (c : Char) (text : List Char) (count : Nat) : splitBytes (c :: text) (count + 1) =
    if c.utf8Size ≤ count + 1 then
      (splitBytes text (count + 1 - c.utf8Size)).map fun (front, rest) => (c :: front, rest)
    else none := rfl

theorem splitBytes_append {digits : List Char} {count : Nat} (h : splitBytes digits count = some (digits, []))
    (rest : List Char) : splitBytes (digits ++ rest) count = some (digits, rest) := by
  induction digits generalizing count with
  | nil =>
    cases count with
    | zero => rw [List.nil_append, splitBytes]
    | succ count => simp [splitBytes] at h
  | cons c digits ih =>
    cases count with
    | zero => simp [splitBytes] at h
    | succ count =>
      rw [splitBytes_cons] at h
      split at h
      next hsize =>
        obtain ⟨⟨front, rest'⟩, hsplit, he⟩ := Option.map_eq_some_iff.mp h
        simp only [Prod.mk.injEq, List.cons.injEq, true_and] at he
        obtain ⟨rfl, rfl⟩ := he
        rw [List.cons_append, splitBytes_cons, if_pos hsize, ih hsplit, Option.map_some]
      next => cases h

theorem parseHexBytes_hexChars (raw : Bytes) : parseHexBytes raw.length (raw.flatMap hexChars) = .ok raw := by
  induction raw with
  | nil => rfl
  | cons byte raw ih =>
    obtain ⟨_, hradix, hsplit, _⟩ := hexChars_spec byte
    rw [List.length_cons, List.flatMap_cons, parseHexBytes, splitBytes_append hsplit]
    simp only [hradix, ih, UInt8.ofNat_toNat]
    rfl

theorem filter_hex (raw : Bytes) : (hex raw).toList.filter (· != '-') = raw.flatMap hexChars := by
  rw [toList_hex, List.filter_eq_self]
  intro c hc
  obtain ⟨byte, _, hc⟩ := List.mem_flatMap.mp hc
  exact List.all_eq_true.mp (hexChars_spec byte).2.2.2 c hc

theorem utf8Size_hexChars (raw : Bytes) : ((raw.flatMap hexChars).map Char.utf8Size).sum = 2 * raw.length := by
  induction raw with
  | nil => rfl
  | cons byte raw ih =>
    have hone : ((hexChars byte).map Char.utf8Size).sum = 2 := by
      have hall : ∀ n : Fin 256, ([Nat.digitChar (n / 16), Nat.digitChar (n % 16)].map Char.utf8Size).sum = 2 := by
        decide +kernel
      exact hall ⟨byte.toNat, byte.toNat_lt⟩
    rw [List.flatMap_cons, List.map_append, List.sum_append, hone, ih, List.length_cons]
    omega

theorem uuid_round_trip {raw : Bytes} (h : raw.length = 16) :
    ∃ text, formatUuid raw = .ok text ∧ parseUuidToBytes text = .ok raw := by
  have hslices : slice raw 0 4 ++ slice raw 4 2 ++ slice raw 6 2 ++ slice raw 8 2 ++ slice raw 10 6 = raw := by
    simp only [slice, List.drop_zero]
    have hjoin (i j : Nat) : raw.take i ++ (raw.drop i).take j = raw.take (i + j) := List.take_add.symm
    rw [hjoin, hjoin, hjoin, hjoin]
    exact List.take_of_length_le (by omega)
  refine ⟨_, if_neg (not_not.mpr h), ?_⟩
  have hfilter (a b c d e : Bytes) :
      (hex a ++ "-" ++ hex b ++ "-" ++ hex c ++ "-" ++ hex d ++ "-" ++ hex e).toList.filter (· != '-') =
        (a ++ b ++ c ++ d ++ e).flatMap hexChars := by
    simp [String.toList_append, List.filter_append, filter_hex]
  rw [parseUuidToBytes, hfilter, hslices, utf8Size_hexChars, h]
  simp only [Nat.reduceMul, ne_eq, not_true_eq_false, if_false]
  rw [← h, parseHexBytes_hexChars]

end Gqlforge.PostgresParams
