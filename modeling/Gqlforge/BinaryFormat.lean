import Gqlforge.BigEndian
import Gqlforge.Json

namespace Gqlforge.BinaryFormat

open BigEndian

inductive PostgresType where
  | bool | int2 | int4 | int8 | float4 | float8
  | text | varchar | bpchar | name | unknown
  | json | jsonb
  | timestamp | timestamptz | date | time | timetz | interval
  | numeric | uuid | bytea | inet | cidr | macaddr | macaddr8
  | enum (name : String)
  | range (elem : PostgresType)
  | array (elem : PostgresType)
  | other (name : String)
  deriving DecidableEq

inductive Failure where
  | bail (message : String)
  | slice
  | utf8
  | json
  | driver
  | panic
  deriving DecidableEq

abbrev Reads := Except Failure

def bail {α : Type} (message : String) : Reads α :=
  .error (.bail message)

structure Chrono where
  Date : Type
  Time : Type
  DateTime : Type
  addMicroseconds : Int → Option DateTime
  addDays : Int → Option Date
  fromNumSecondsFromMidnight : Nat → Nat → Option Time
  midnight : Time
  midnightPlus : Int → Time
  andMidnight : Date → DateTime
  dateToString : Date → String
  timeToString : Time → String
  /-- The format `%Y-%m-%dT%H:%M:%S%.f`. -/
  format : DateTime → String
  toRfc3339 : DateTime → String

def fromUtf8 (raw : Bytes) : Option String :=
  String.fromUTF8? ⟨raw.toArray⟩

def slice (raw : Bytes) (start length : Nat) : Bytes :=
  (raw.drop start).take length

def byteAt (raw : Bytes) (i : Nat) : Nat :=
  (raw.getD i 0).toNat

def zeros (count : Nat) : String :=
  String.ofList (List.replicate count '0')

def padded (width : Nat) (text : String) : String :=
  zeros (width - text.length) ++ text

def paddedInt (width : Nat) (value : Int) : String :=
  if value < 0 then "-" ++ padded (width - 1) (toString value.natAbs) else padded width (toString value)

def lowerHex (n : Nat) : String :=
  String.ofList (Nat.toDigits 16 n)

def hex (raw : Bytes) : String :=
  String.join (raw.map fun byte => padded 2 (lowerHex byte.toNat))

def trimEndZeros (text : String) : String :=
  String.ofList (text.toList.reverse.dropWhile (· == '0')).reverse

def exactly (width : Nat) (raw : Bytes) : Reads Bytes :=
  if raw.length = width then .ok raw else .error .slice

def formatUuid (raw : Bytes) : Reads String :=
  if raw.length ≠ 16 then bail ("UUID binary unexpected length: " ++ toString raw.length ++ " bytes")
  else .ok (hex (slice raw 0 4) ++ "-" ++ hex (slice raw 4 2) ++ "-" ++ hex (slice raw 6 2) ++ "-" ++
    hex (slice raw 8 2) ++ "-" ++ hex (slice raw 10 6))

def numericIntPart (weight : Int) (digits : List Int) : String :=
  let intDigitsCount := weight + 1
  if intDigitsCount ≤ 0 then "0"
  else String.join ((List.range intDigitsCount.toNat).map fun i =>
    let d := digits.getD i 0
    if i = 0 then toString d else paddedInt 4 d)

def numericFrac (weight : Int) (digits : List Int) (dscale : Nat) : String :=
  let fracStart := (max (weight + 1) 0).toNat
  let leadingZeroGroups := if weight < 0 then (-weight - 1).toNat else 0
  let frac := String.join (List.replicate leadingZeroGroups "0000") ++
    String.join ((digits.drop fracStart).map (paddedInt 4))
  String.ofList ((frac ++ zeros (dscale - frac.length)).toList.take dscale)

def parsePgNumeric (raw : Bytes) : Reads String :=
  if raw.length < 8 then bail "NUMERIC binary too short"
  else
    let ndigits := intFromBe (slice raw 0 2)
    let weight := intFromBe (slice raw 2 2)
    let sign := fromBe (slice raw 4 2)
    let dscale := intFromBe (slice raw 6 2)
    if ndigits < 0 then bail ("NUMERIC ndigits is negative: " ++ toString ndigits)
    else if dscale < 0 then bail ("NUMERIC dscale is negative: " ++ toString dscale)
    else if sign = 0xC000 then .ok "NaN"
    else if sign = 0xD000 then .ok "Infinity"
    else if sign = 0xF000 then .ok "-Infinity"
    else if ndigits = 0 then
      if dscale > 0 then .ok ("0." ++ zeros dscale.toNat) else .ok "0"
    else if raw.length < 8 + ndigits.toNat * 2 then
      bail ("NUMERIC binary too short for " ++ toString ndigits ++ " digits")
    else
      let digits := (List.range ndigits.toNat).map fun i => intFromBe (slice raw (8 + i * 2) 2)
      let intPart := numericIntPart weight digits
      let result := if sign = 0x4000 then "-" ++ intPart else intPart
      if dscale > 0 then .ok (result ++ "." ++ numericFrac weight digits dscale.toNat) else .ok result

structure Span where
  start : Nat
  len : Nat

def zeroSpan (segments : List Nat) : Span :=
  (segments.zipIdx.foldl (fun (longest, current) (segment, i) =>
    if segment = 0 then
      let current : Span := ⟨if current.len = 0 then i else current.start, current.len + 1⟩
      (if current.len > longest.len then current else longest, current)
    else (longest, ⟨0, 0⟩)) ((⟨0, 0⟩, ⟨0, 0⟩) : Span × Span)).1

def fmtSubslice (chunk : List Nat) : String :=
  String.intercalate ":" (chunk.map lowerHex)

def ipv6ToString (segments : List Nat) : String :=
  let zeroes := zeroSpan segments
  if zeroes.len > 1 then
    fmtSubslice (segments.take zeroes.start) ++ "::" ++ fmtSubslice (segments.drop (zeroes.start + zeroes.len))
  else fmtSubslice segments

def ipv6Segments (addr : Bytes) : List Nat :=
  (List.range 8).map fun i => fromBe (slice addr (2 * i) 2)

def formatIpv6 (addr : Bytes) : String :=
  let segments := ipv6Segments addr
  -- an address of the fourth version mapped to the sixth
  if segments.take 6 = [0, 0, 0, 0, 0, 0xffff] then
    "::ffff:" ++ lowerHex (segments.getD 6 0) ++ ":" ++ lowerHex (segments.getD 7 0)
  else ipv6ToString segments

def formatInet (raw : Bytes) : Reads String :=
  if raw.length < 4 then bail "INET binary too short"
  else
    let family := byteAt raw 0
    let mask := byteAt raw 1
    let isCidr := byteAt raw 2 != 0
    let addrLen := byteAt raw 3
    if raw.length < 4 + addrLen then bail "INET binary too short for address"
    else do
      let addr := slice raw 4 addrLen
      let addrStr ←
        if family = 2 then
          if addrLen ≠ 4 then bail "Invalid IPv4 address length"
          else .ok (".".intercalate (addr.map fun byte => toString byte.toNat))
        else if family = 3 then
          if addrLen ≠ 16 then bail "Invalid IPv6 address length" else .ok (formatIpv6 addr)
        else bail ("Unknown INET address family: " ++ toString family)
      let maxMask := if family = 2 then 32 else 128
      if isCidr || mask != maxMask then return addrStr ++ "/" ++ toString mask else return addrStr

def formatMacaddr (raw : Bytes) : Reads String :=
  if raw.length = 8 ∨ raw.length = 6 then .ok (":".intercalate (raw.map fun byte => hex [byte]))
  else bail ("macaddr binary unexpected length: " ++ toString raw.length ++ " bytes")

def counted (count : Int) (one many : String) : String :=
  if count = 1 ∨ count = -1 then toString count ++ " " ++ one else toString count ++ " " ++ many

def clockText (totalSecs usRemainder : Nat) : String :=
  let hours := totalSecs / 3600
  let minutes := totalSecs % 3600 / 60
  let seconds := totalSecs % 60
  let time := padded 2 (toString hours) ++ ":" ++ padded 2 (toString minutes) ++ ":" ++ padded 2 (toString seconds)
  if usRemainder > 0 then time ++ "." ++ trimEndZeros (padded 6 (toString usRemainder)) else time

def formatInterval (raw : Bytes) : Reads String :=
  if raw.length < 16 then bail "INTERVAL binary too short"
  else
    let microseconds := intFromBe (slice raw 0 8)
    let days := intFromBe (slice raw 8 4)
    let months := intFromBe (slice raw 12 4)
    let years := months.tdiv 12
    let mons := months.tmod 12
    let parts := (if years ≠ 0 then [counted years "year" "years"] else []) ++
      (if mons ≠ 0 then [counted mons "mon" "mons"] else []) ++
      (if days ≠ 0 then [counted days "day" "days"] else [])
    let absUs := microseconds.natAbs
    let timeStr := clockText (absUs / 1000000) (absUs % 1000000)
    let parts :=
      if microseconds ≠ 0 ∨ parts.isEmpty then
        parts ++ [if microseconds < 0 then "-" ++ timeStr else timeStr]
      else parts
    .ok (" ".intercalate parts)

def formatTimetz (raw : Bytes) : Reads String :=
  if raw.length < 12 then bail "TIMETZ binary too short"
  else
    let microseconds := intFromBe (slice raw 0 8)
    let offsetSecs := intFromBe (slice raw 8 4)
    if microseconds < 0 then bail ("TIMETZ microseconds value is negative: " ++ toString microseconds)
    else
      -- the offset counts the seconds west of Greenwich
      let tzSign := if offsetSecs ≤ 0 then "+" else "-"
      let tzAbs := offsetSecs.natAbs
      let tzHours := padded 2 (toString (tzAbs / 3600))
      let tzMinutes := tzAbs % 3600 / 60
      let timeStr := clockText (microseconds.toNat / 1000000) (microseconds.toNat % 1000000)
      if tzMinutes > 0 then .ok (timeStr ++ tzSign ++ tzHours ++ ":" ++ padded 2 (toString tzMinutes))
      else .ok (timeStr ++ tzSign ++ tzHours)

def formatBytea (raw : Bytes) : String :=
  "\\x" ++ hex raw

def formatFinite (bits : Nat) (format : Int → Reads String) (value : Int) : Reads String :=
  if value = 2 ^ (bits - 1) - 1 then .ok "infinity"
  else if value = -2 ^ (bits - 1) then .ok "-infinity"
  else format value

def inRange {α : Type} : Option α → Reads α
  | some sum => .ok sum
  | none => .error .panic

section

variable (chrono : Chrono)

def formatTimestamp (raw : Bytes) : Reads String := do
  let bytes ← exactly 8 raw
  formatFinite 64 (fun us => chrono.format <$> inRange (chrono.addMicroseconds us)) (intFromBe bytes)

def formatTimestamptz (raw : Bytes) : Reads String := do
  let bytes ← exactly 8 raw
  formatFinite 64 (fun us => chrono.toRfc3339 <$> inRange (chrono.addMicroseconds us)) (intFromBe bytes)

def formatDate (raw : Bytes) : Reads String := do
  let bytes ← exactly 4 raw
  formatFinite 32 (fun days => chrono.dateToString <$> inRange (chrono.addDays days)) (intFromBe bytes)

def formatRangeBound (raw : Bytes) : PostgresType → Reads String
  | .int4 => do
    let bytes ← exactly 4 raw
    return toString (intFromBe bytes)
  | .int8 => do
    let bytes ← exactly 8 raw
    return toString (intFromBe bytes)
  | .numeric => parsePgNumeric raw
  | .timestamp => formatTimestamp chrono raw
  | .timestamptz => formatTimestamptz chrono raw
  | .date => formatDate chrono raw
  | _ => match fromUtf8 raw with
    | some s => .ok s
    | none => bail "range bound is not valid UTF-8"

def readRangeBound (raw : Bytes) (elemType : PostgresType) (side : String) : Reads (String × Bytes) := do
  if raw.length < 4 then bail ("range binary truncated at " ++ side ++ " bound length")
  else
    let len := intFromBe (slice raw 0 4)
    let raw := raw.drop 4
    if len < 0 then bail ("range " ++ side ++ " bound length is negative")
    else if raw.length < len.toNat then bail ("range binary truncated at " ++ side ++ " bound data")
    else
      let bound ← formatRangeBound chrono (raw.take len.toNat) elemType
      return (bound, raw.drop len.toNat)

def hasFlag (flags flag : Nat) : Bool :=
  flags &&& flag != 0

def formatRange (raw : Bytes) (elemType : PostgresType) : Reads String :=
  match raw with
  | [] => bail "range binary too short"
  | first :: rest => do
    let flags := first.toNat
    if hasFlag flags 0x01 then return "empty"
    else
      let lbBracket := if hasFlag flags 0x02 then "[" else "("
      let ubBracket := if hasFlag flags 0x04 then "]" else ")"
      let (lowerStr, rest) ←
        if hasFlag flags 0x08 then .ok ("", rest) else readRangeBound chrono rest elemType "lower"
      let (upperStr, _) ←
        if hasFlag flags 0x10 then .ok ("", rest) else readRangeBound chrono rest elemType "upper"
      return lbBracket ++ lowerStr ++ "," ++ upperStr ++ ubBracket

end

example : formatInet [2, 8, 1, 4, 10, 0, 0, 0] = .ok "10.0.0.0/8" := by decide +kernel

end Gqlforge.BinaryFormat
