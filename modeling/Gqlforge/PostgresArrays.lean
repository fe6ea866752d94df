import Gqlforge.BinaryFormat

namespace Gqlforge.PostgresArrays

open BigEndian BinaryFormat Json

structure Crates extends Chrono where
  JsonValue : Type
  bool : Bytes → Option Bool
  int2 : Bytes → Option Int
  int4 : Bytes → Option Int
  int8 : Bytes → Option Int
  float4 : Bytes → Option Float32
  float8 : Bytes → Option Float
  string : PostgresType → Bytes → Option String
  json : PostgresType → Bytes → Option JsonValue
  naiveDateTime : Bytes → Option DateTime
  dateTimeUtc : Bytes → Option DateTime
  naiveDate : Bytes → Option Date
  naiveTime : Bytes → Option Time
  fromF64 : Float → Option Number
  fromSlice : Bytes → Option JsonValue
  fromJson : JsonValue → Option ConstValue

section

variable (crates : Crates)

def floatToConst (n : Float) : ConstValue :=
  ((crates.fromF64 n).map ConstValue.number).getD .null

def jsonToConst (value : crates.JsonValue) : ConstValue :=
  (crates.fromJson value).getD .null

def tryU32 (n : Int) : Nat :=
  if 0 ≤ n ∧ n < 2 ^ 32 then n.toNat else 0

def rawElementToConst (ty : PostgresType) (raw : Bytes) : Reads ConstValue :=
  match ty with
  | .bool => match raw with
    | [] => .ok .null
    | first :: _ => .ok (.boolean (first != 0))
  | .int2 => do
    let bytes ← exactly 2 raw
    return .number (.int (intFromBe bytes))
  | .int4 => do
    let bytes ← exactly 4 raw
    return .number (.int (intFromBe bytes))
  | .int8 => do
    let bytes ← exactly 8 raw
    return .number (.int (intFromBe bytes))
  | .float4 => do
    let bytes ← exactly 4 raw
    return floatToConst crates (Float32.ofBits (UInt32.ofNat (fromBe bytes))).toFloat
  | .float8 => do
    let bytes ← exactly 8 raw
    return floatToConst crates (Float.ofBits (UInt64.ofNat (fromBe bytes)))
  | .text | .varchar | .bpchar | .name => match fromUtf8 raw with
    | some s => .ok (.string s)
    | none => .error .utf8
  | .uuid => .string <$> formatUuid raw
  | .bytea => .ok (.string (formatBytea raw))
  | .numeric => .string <$> parsePgNumeric raw
  | .timestamp => .string <$> formatTimestamp crates.toChrono raw
  | .timestamptz => .string <$> formatTimestamptz crates.toChrono raw
  | .date => .string <$> formatDate crates.toChrono raw
  | .time => do
    let bytes ← exactly 8 raw
    let us := intFromBe bytes
    let totalSecs := tryU32 (us.tdiv 1000000)
    let micro := tryU32 (us.tmod 1000000)
    let t := (crates.fromNumSecondsFromMidnight totalSecs (micro * 1000)).getD crates.midnight
    return .string (crates.timeToString t)
  | .timetz => .string <$> formatTimetz raw
  | .interval => .string <$> formatInterval raw
  | .inet | .cidr => .string <$> formatInet raw
  | .macaddr | .macaddr8 => .string <$> formatMacaddr raw
  | .json | .jsonb =>
    -- a byte for the version precedes the binary format
    let data := if ty = .jsonb ∧ raw ≠ [] then raw.drop 1 else raw
    match crates.fromSlice data with
    | some value => .ok (jsonToConst crates value)
    | none => .error .json
  | .range elem => .string <$> formatRange crates.toChrono raw elem
  | _ => match fromUtf8 raw with
    | some s => .ok (.string s)
    | none => .ok (.string (formatBytea raw))

def readElement (elemType : PostgresType) (raw : Bytes) : Reads (ConstValue × Bytes) :=
  if raw.length < 4 then bail "array binary truncated"
  else
    let elemLen := intFromBe (slice raw 0 4)
    let raw := raw.drop 4
    if elemLen < 0 then .ok (.null, raw)
    else if raw.length < elemLen.toNat then bail "array element data truncated"
    else do
      let item ← rawElementToConst crates elemType (raw.take elemLen.toNat)
      return (item, raw.drop elemLen.toNat)

def readTimes {α : Type} (read : Bytes → Reads (α × Bytes)) : Nat → Bytes → Reads (List α × Bytes)
  | 0, raw => .ok ([], raw)
  | count + 1, raw => do
    let (item, raw) ← read raw
    let (rest, raw) ← readTimes read count raw
    return (item :: rest, raw)

def readElements (elemType : PostgresType) : List Nat → Bytes → Reads (ConstValue × Bytes)
  | [], _ => .error .panic
  | [size], raw => do
    let (items, raw) ← readTimes (readElement crates elemType) size raw
    return (.list items, raw)
  | size :: dims, raw => do
    let (items, raw) ← readTimes (readElements elemType dims) size raw
    return (.list items, raw)

def readDim (raw : Bytes) (i : Nat) : Reads Nat :=
  let dimSize := intFromBe (slice raw (12 + i * 8) 4)
  if dimSize < 0 then bail ("array dim_size is negative: " ++ toString dimSize) else .ok dimSize.toNat

def parsePgArray (raw : Bytes) (elemType : PostgresType) : Reads ConstValue :=
  if raw.length < 12 then bail "array binary too short"
  else
    let ndim := intFromBe (slice raw 0 4)
    if ndim < 0 then bail ("array ndim is negative: " ++ toString ndim)
    else if ndim = 0 then .ok (.list [])
    else
      let headerEnd := 12 + ndim.toNat * 8
      if raw.length < headerEnd then bail "array binary too short for dimensions"
      else do
        let dims ← (List.range ndim.toNat).mapM (readDim raw)
        let (value, _) ← readElements crates elemType dims (raw.drop headerEnd)
        return value

end

def elementBytes : Option Bytes → Bytes
  | some raw => toBe 4 raw.length ++ raw
  | none => [255, 255, 255, 255]

def arrayBytes (oid lowerBound : Nat) (cells : List (Option Bytes)) : Bytes :=
  toBe 4 1 ++ (toBe 4 (if none ∈ cells then 1 else 0) ++ (toBe 4 oid ++ (toBe 4 cells.length ++ (toBe 4 lowerBound ++
    cells.flatMap elementBytes))))

def Short (cell : Option Bytes) : Prop :=
  ∀ raw, cell = some raw → raw.length < 2 ^ 31

section

variable {crates : Crates} {elemType : PostgresType}

def element (crates : Crates) (elemType : PostgresType) : Option Bytes → Reads ConstValue
  | some raw => rawElementToConst crates elemType raw
  | none => .ok .null

theorem slice_append (pre : Bytes) {middle post : Bytes} {start length : Nat} (hstart : pre.length = start)
    (hlength : middle.length = length) : slice (pre ++ (middle ++ post)) start length = middle := by
  rw [slice, List.drop_left' hstart, List.take_left' hlength]

theorem readElement_elementBytes (cell : Option Bytes) (hshort : Short cell) (rest : Bytes) :
    readElement crates elemType (elementBytes cell ++ rest) = (do
      let item ← element crates elemType cell
      return (item, rest)) := by
  cases cell with
  | none =>
    have hlen : ¬ (elementBytes none ++ rest).length < 4 := by simp [elementBytes]
    have hslice : slice (elementBytes none ++ rest) 0 4 = [255, 255, 255, 255] := rfl
    have hint : intFromBe [255, 255, 255, 255] = -1 := by decide
    rw [readElement, if_neg hlen, hslice, hint]
    rfl
  | some raw =>
    have hbytes : elementBytes (some raw) ++ rest = toBe 4 raw.length ++ (raw ++ rest) := List.append_assoc _ _ _
    have hlen : ¬ (toBe 4 raw.length ++ (raw ++ rest)).length < 4 := by simp
    have hslice : slice (toBe 4 raw.length ++ (raw ++ rest)) 0 4 = toBe 4 raw.length :=
      slice_append [] rfl (length_toBe 4 _)
    have hint : intFromBe (toBe 4 raw.length) = raw.length := by
      apply intFromBe_toBe
      have := hshort raw rfl
      omega
    have hdrop : (toBe 4 raw.length ++ (raw ++ rest)).drop 4 = raw ++ rest := List.drop_left' (length_toBe 4 _)
    rw [hbytes, readElement, if_neg hlen]
    simp only [hslice, hint, hdrop, Int.toNat_natCast]
    rw [if_neg (by omega), if_neg (by simp), List.take_left, List.drop_left]
    rfl

theorem readTimes_blocks {α β : Type} {read : Bytes → Reads (α × Bytes)} (encode : β → Bytes) (value : β → Reads α)
    (blocks : List β) (hread : ∀ block ∈ blocks, ∀ rest, read (encode block ++ rest) = (do
      let item ← value block
      return (item, rest))) (rest : Bytes) :
    readTimes read blocks.length (blocks.flatMap encode ++ rest) = (do
      let items ← blocks.mapM value
      return (items, rest)) := by
  induction blocks with
  | nil => rfl
  | cons block blocks ih =>
    rw [List.forall_mem_cons] at hread
    rw [List.flatMap_cons, List.append_assoc, List.length_cons, readTimes, hread.1, List.mapM_cons]
    cases value block with
    | error failure => rfl
    | ok item =>
      have hrest := ih hread.2
      simp only [bind, Except.bind, pure, Except.pure] at hrest ⊢
      rw [hrest]
      cases blocks.mapM value with
      | error failure => rfl
      | ok items => rfl

variable (crates elemType) in
theorem readTimes_elementBytes (cells : List (Option Bytes)) (hshort : ∀ cell ∈ cells, Short cell) (rest : Bytes) :
    readTimes (readElement crates elemType) cells.length (cells.flatMap elementBytes ++ rest) = (do
      let items ← cells.mapM (element crates elemType)
      return (items, rest)) :=
  readTimes_blocks elementBytes (element crates elemType) cells
    (fun cell hcell rest => readElement_elementBytes cell (hshort cell hcell) rest) rest

end

def rows {α : Type} (width : Nat) : Nat → List α → List (List α)
  | 0, _ => []
  | count + 1, items => items.take width :: rows width count (items.drop width)

@[simp] theorem length_rows {α : Type} (width count : Nat) (items : List α) :
    (rows width count items).length = count := by
  induction count generalizing items with
  | zero => rfl
  | succ count ih => rw [rows, List.length_cons, ih]

theorem flatten_rows {α : Type} {width count : Nat} {items : List α} (h : items.length = count * width) :
    (rows width count items).flatten = items := by
  induction count generalizing items with
  | zero =>
    rw [Nat.zero_mul, List.length_eq_zero_iff] at h
    rw [h]
    rfl
  | succ count ih =>
    have hdrop : (items.drop width).length = count * width := by
      rw [List.length_drop, h, Nat.succ_mul, Nat.add_sub_cancel]
    rw [rows, List.flatten_cons, ih hdrop, List.take_append_drop]

theorem row_length {α : Type} {width count : Nat} {items row : List α} (h : items.length = count * width)
    (hrow : row ∈ rows width count items) : row.length = width := by
  induction count generalizing items with
  | zero => cases hrow
  | succ count ih =>
    rw [Nat.succ_mul] at h
    rcases List.mem_cons.mp hrow with rfl | hrow
    · rw [List.length_take, h]
      omega
    · apply ih _ hrow
      rw [List.length_drop, h, Nat.add_sub_cancel]

theorem mapM_eq_ok {α β : Type} {f : α → Reads β} {g : α → β} {items : List α}
    (h : ∀ item ∈ items, f item = .ok (g item)) : items.mapM f = .ok (items.map g) := by
  induction items with
  | nil => rfl
  | cons item items ih =>
    rw [List.forall_mem_cons] at h
    rw [List.mapM_cons, h.1, ih h.2]
    rfl

theorem mapM_length {α β : Type} {f : α → Reads β} {items : List α} {values : List β}
    (h : items.mapM f = .ok values) : values.length = items.length := by
  induction items generalizing values with
  | nil =>
    cases h
    rfl
  | cons item items ih =>
    rw [List.mapM_cons] at h
    cases hitem : f item with
    | error failure => simp [hitem, bind, Except.bind] at h
    | ok value =>
      cases hitems : items.mapM f with
      | error failure => simp [hitem, hitems, bind, Except.bind] at h
      | ok rest =>
        simp only [hitem, hitems, bind, Except.bind, pure, Except.pure, Except.ok.injEq] at h
        rw [← h, List.length_cons, List.length_cons, ih hitems]

theorem mapM_rows {α β γ : Type} (f : α → Reads β) (g : List β → γ) (width count : Nat) (items : List α)
    (h : items.length = count * width) :
    (rows width count items).mapM (fun row => g <$> row.mapM f) =
      (fun values => (rows width count values).map g) <$> items.mapM f := by
  induction count generalizing items with
  | zero =>
    rw [Nat.zero_mul, List.length_eq_zero_iff] at h
    rw [h]
    rfl
  | succ count ih =>
    have hdrop : (items.drop width).length = count * width := by
      rw [List.length_drop, h, Nat.succ_mul, Nat.add_sub_cancel]
    have htake : (items.take width).length = width := by
      rw [List.length_take, h, Nat.succ_mul]
      omega
    conv_rhs => rw [← List.take_append_drop width items, List.mapM_append]
    rw [rows, List.mapM_cons, ih _ hdrop]
    cases hfirst : (items.take width).mapM f with
    | error failure => rfl
    | ok first =>
      cases hothers : (items.drop width).mapM f with
      | error failure => rfl
      | ok others =>
        have hlength := (mapM_length hfirst).trans htake
        have hrows : rows width (count + 1) (first ++ others) = first :: rows width count others := by
          rw [rows, List.take_left' hlength, List.drop_left' hlength]
        simp only [Functor.map, Except.map, bind, Except.bind, pure, Except.pure, hrows, List.map_cons]

section Shapes

def nested : List Nat → List ConstValue → ConstValue
  | [], items => .list items
  | [_], items => .list items
  | size :: sizes, items => .list ((rows sizes.prod size items).map (nested sizes))

def arrayHeader (flags oid : Nat) (dims : List (Nat × Nat)) : Bytes :=
  toBe 4 dims.length ++ (toBe 4 flags ++ (toBe 4 oid ++ dims.flatMap fun dim => toBe 4 dim.1 ++ toBe 4 dim.2))

variable {crates : Crates} {elemType : PostgresType}

theorem readElements_elementBytes (sizes : List Nat) (hsizes : sizes ≠ []) (cells : List (Option Bytes))
    (hcount : cells.length = sizes.prod) (hshort : ∀ cell ∈ cells, Short cell) (rest : Bytes) :
    readElements crates elemType sizes (cells.flatMap elementBytes ++ rest) = (do
      let items ← cells.mapM (element crates elemType)
      return (nested sizes items, rest)) := by
  induction sizes generalizing cells rest with
  | nil => exact absurd rfl hsizes
  | cons size sizes ih =>
    rw [List.prod_cons] at hcount
    cases sizes with
    | nil =>
      rw [List.prod_nil, Nat.mul_one] at hcount
      have hread := readTimes_elementBytes crates elemType cells hshort rest
      rw [hcount] at hread
      rw [readElements, hread]
      cases cells.mapM (element crates elemType) with
      | error failure => rfl
      | ok items => rfl
    | cons next sizes =>
      have hrows : ∀ row ∈ rows (next :: sizes).prod size cells, ∀ rest,
          readElements crates elemType (next :: sizes) (row.flatMap elementBytes ++ rest) = (do
            let item ← nested (next :: sizes) <$> row.mapM (element crates elemType)
            return (item, rest)) := by
        intro row hrow rest
        have hmem : ∀ cell ∈ row, cell ∈ cells := fun cell hcell => by
          rw [← flatten_rows hcount]
          exact List.mem_flatten.mpr ⟨row, hrow, hcell⟩
        rw [ih (List.cons_ne_nil _ _) row (row_length hcount hrow) fun cell hcell => hshort cell (hmem cell hcell)]
        cases row.mapM (element crates elemType) with
        | error failure => rfl
        | ok items => rfl
      have hread := readTimes_blocks (fun row : List (Option Bytes) => row.flatMap elementBytes)
        (fun row => nested (next :: sizes) <$> row.mapM (element crates elemType)) _ hrows rest
      have hbytes : (rows (next :: sizes).prod size cells).flatMap (fun row => row.flatMap elementBytes) =
          cells.flatMap elementBytes := by
        conv_rhs => rw [← flatten_rows hcount, List.flatten_eq_flatMap, List.flatMap_assoc]
        rfl
      rw [hbytes, length_rows, mapM_rows _ _ _ _ _ hcount] at hread
      rw [readElements, hread]
      · cases cells.mapM (element crates elemType) with
        | error failure => rfl
        | ok items => rfl
      · simp

theorem length_dims (dims : List (Nat × Nat)) :
    (dims.flatMap fun dim => toBe 4 dim.1 ++ toBe 4 dim.2).length = dims.length * 8 := by
  rw [List.length_flatMap]
  simp

theorem readDim_header (flags oid : Nat) (dims : List (Nat × Nat)) (rest : Bytes) {i : Nat} (hi : i < dims.length)
    (hsize : dims[i].1 < 2 ^ 31) : readDim (arrayHeader flags oid dims ++ rest) i = .ok dims[i].1 := by
  have hdims : dims = dims.take i ++ dims[i] :: dims.drop (i + 1) := by
    rw [List.getElem_cons_drop, List.take_append_drop]
  have hslice : slice (arrayHeader flags oid dims ++ rest) (12 + i * 8) 4 = toBe 4 dims[i].1 := by
    have hbytes : arrayHeader flags oid dims ++ rest = (toBe 4 dims.length ++ toBe 4 flags ++ toBe 4 oid ++
        (dims.take i).flatMap fun dim => toBe 4 dim.1 ++ toBe 4 dim.2) ++ (toBe 4 dims[i].1 ++ (toBe 4 dims[i].2 ++
          ((dims.drop (i + 1)).flatMap fun dim => toBe 4 dim.1 ++ toBe 4 dim.2) ++ rest)) := by
      rw [arrayHeader]
      conv_lhs => rw [hdims, List.flatMap_append, List.flatMap_cons]
      rw [← hdims]
      simp only [List.append_assoc]
    rw [hbytes]
    apply slice_append _ _ (length_toBe 4 _)
    rw [List.length_append, length_dims, List.length_take, Nat.min_eq_left hi.le]
    simp
  have hint : intFromBe (toBe 4 dims[i].1) = dims[i].1 := intFromBe_toBe (by omega)
  simp only [readDim, hslice, hint, Int.toNat_natCast]
  rw [if_neg (by omega)]

theorem readDims_header (flags oid : Nat) (dims : List (Nat × Nat)) (hsizes : ∀ dim ∈ dims, dim.1 < 2 ^ 31)
    (rest : Bytes) :
    (List.range dims.length).mapM (readDim (arrayHeader flags oid dims ++ rest)) = .ok (dims.map Prod.fst) := by
  have hread : ∀ i ∈ List.range dims.length,
      readDim (arrayHeader flags oid dims ++ rest) i = .ok ((dims.map Prod.fst).getD i 0) := by
    intro i hi
    rw [List.mem_range] at hi
    rw [readDim_header flags oid dims rest hi (hsizes _ (List.getElem_mem hi))]
    simp [hi]
  have hall : (List.range dims.length).map (fun i => (dims.map Prod.fst).getD i 0) = dims.map Prod.fst := by
    apply List.ext_getElem
    · simp
    · intro i hi hi'
      simp at hi'
      simp [hi']
  rw [mapM_eq_ok hread, hall]

variable (crates elemType) in
theorem parsePgArray_header (flags oid : Nat) (dims : List (Nat × Nat)) (cells : List (Option Bytes))
    (hdims : dims.length < 2 ^ 31) (hsizes : ∀ dim ∈ dims, dim.1 < 2 ^ 31)
    (hcount : cells.length = if dims = [] then 0 else (dims.map Prod.fst).prod) (hshort : ∀ cell ∈ cells, Short cell) :
    parsePgArray crates (arrayHeader flags oid dims ++ cells.flatMap elementBytes) elemType =
      nested (dims.map Prod.fst) <$> cells.mapM (element crates elemType) := by
  have hlength : (arrayHeader flags oid dims).length = 12 + dims.length * 8 := by
    simp only [arrayHeader, List.length_append, length_toBe, length_dims]
    omega
  have hndim : intFromBe (slice (arrayHeader flags oid dims ++ cells.flatMap elementBytes) 0 4) = dims.length := by
    rw [arrayHeader, List.append_assoc, show slice (toBe 4 dims.length ++ _) 0 4 = toBe 4 dims.length from
      slice_append [] rfl (length_toBe 4 _)]
    exact intFromBe_toBe (by omega)
  rw [parsePgArray, if_neg (by rw [List.length_append]; omega)]
  simp only [hndim, Int.toNat_natCast]
  rw [if_neg (by omega)]
  by_cases hempty : dims = []
  · rw [if_pos hempty, List.length_eq_zero_iff] at hcount
    rw [hempty, hcount]
    rfl
  · have hpos := List.length_pos_iff.mpr hempty
    rw [if_neg hempty] at hcount
    rw [if_neg (by omega), if_neg (by rw [List.length_append]; omega), readDims_header flags oid dims hsizes,
      List.drop_left' hlength, ← List.append_nil (cells.flatMap elementBytes)]
    simp only [bind, Except.bind]
    rw [readElements_elementBytes _ (by simpa using hempty) cells hcount hshort]
    cases cells.mapM (element crates elemType) with
    | error failure => rfl
    | ok items => rfl

variable (crates elemType) in
theorem parsePgArray_arrayBytes (oid lowerBound : Nat) (cells : List (Option Bytes)) (hcount : cells.length < 2 ^ 31)
    (hshort : ∀ cell ∈ cells, Short cell) :
    parsePgArray crates (arrayBytes oid lowerBound cells) elemType =
      .list <$> cells.mapM (element crates elemType) := by
  have hbytes : arrayBytes oid lowerBound cells =
      arrayHeader (if none ∈ cells then 1 else 0) oid [(cells.length, lowerBound)] ++ cells.flatMap elementBytes := by
    simp only [arrayBytes, arrayHeader, List.length_singleton, List.flatMap_singleton, List.append_assoc]
  rw [hbytes]
  exact parsePgArray_header crates elemType _ oid [(cells.length, lowerBound)] cells (by norm_num)
    (by simpa using hcount)
    (by simp) hshort

end Shapes

end Gqlforge.PostgresArrays
