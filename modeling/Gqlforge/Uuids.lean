import Gqlforge.PostgresParams

namespace Gqlforge.Uuids

open BigEndian BinaryFormat PostgresParams

def digits (s : String) : List Char :=
  s.toList.filter (· != '-')

def byteLength (text : List Char) : Nat :=
  (text.map Char.utf8Size).sum

def IsHex (c : Char) : Prop :=
  (hexDigit c).isSome

instance (c : Char) : Decidable (IsHex c) :=
  inferInstanceAs (Decidable ((hexDigit c).isSome = true))

def IsUuid (s : String) : Prop :=
  (digits s).length = 32 ∧ ∀ c ∈ digits s, IsHex c

def hexNumber (text : List Char) : Nat :=
  text.foldl (fun n c => n * 16 + (hexDigit c).getD 0) 0

structure Exact (s : String) : Prop where
  returns : parseUuidToBytes s ≠ .error .panic
  accepts : (∃ bytes, parseUuidToBytes s = .ok bytes) ↔ IsUuid s
  value : ∀ bytes, parseUuidToBytes s = .ok bytes → bytes = toBe 16 (hexNumber (digits s))

abbrev Pair := Char × Char

def flat (pairs : List Pair) : List Char :=
  pairs.flatMap fun pair => [pair.1, pair.2]

@[simp] theorem flat_cons (pair : Pair) (pairs : List Pair) : flat (pair :: pairs) = pair.1 :: pair.2 :: flat pairs :=
  rfl

def HexPair (pair : Pair) : Prop :=
  (pair.1 = '+' ∨ IsHex pair.1) ∧ IsHex pair.2

def CutsCharacter : List Char → Prop
  | [] => False
  | c :: rest => 2 < c.utf8Size ∨ c.utf8Size = 1 ∧ ∃ d ∈ rest.head?, 1 < d.utf8Size

def Signed (s : String) : Prop :=
  ∃ pairs, digits s = flat pairs ∧ pairs.length = 16 ∧ (∀ pair ∈ pairs, HexPair pair) ∧ ∃ pair ∈ pairs, pair.1 = '+'

def Cut (s : String) : Prop :=
  byteLength (digits s) = 32 ∧
    ∃ pairs rest, digits s = flat pairs ++ rest ∧ (∀ pair ∈ pairs, HexPair pair) ∧ CutsCharacter rest

def pairByte (pair : Pair) : UInt8 :=
  UInt8.ofNat ((hexDigit pair.1).getD 0 * 16 + (hexDigit pair.2).getD 0)

theorem hexDigit_lt {c : Char} {n : Nat} (h : hexDigit c = some n) : n < 16 := by
  have hlow : 'a'.toNat = 97 := rfl
  have hup : 'A'.toNat = 65 := rfl
  have hzero : '0'.toNat = 48 := rfl
  unfold hexDigit at h
  split at h
  next hd =>
    have hrange := hd
    simp only [Char.isDigit, Bool.and_eq_true, decide_eq_true_eq] at hrange
    have hle : c.toNat ≤ 57 := hrange.2
    cases h
    omega
  next =>
    split at h
    next hd =>
      have hle : c.toNat ≤ 102 := hd.2
      cases h
      omega
    next =>
      split at h
      next hd =>
        have hle : c.toNat ≤ 70 := hd.2
        cases h
        omega
      next => cases h

theorem isHex_size {c : Char} (h : IsHex c) : c.utf8Size = 1 := by
  have hle : c.toNat ≤ 127 := by
    unfold IsHex hexDigit at h
    split at h
    next hd =>
      simp only [Char.isDigit, Bool.and_eq_true, decide_eq_true_eq] at hd
      have hle : c.toNat ≤ 57 := hd.2
      omega
    next =>
      split at h
      next hd =>
        have hle : c.toNat ≤ 102 := hd.2
        omega
      next =>
        split at h
        next hd =>
          have hle : c.toNat ≤ 70 := hd.2
          omega
        next => cases h
  exact Char.utf8Size_eq_one_iff.mpr hle

theorem isHex_of_plus : ¬ IsHex '+' := by decide

variable {pair : Pair}

theorem HexPair.size (h : HexPair pair) : pair.1.utf8Size = 1 ∧ pair.2.utf8Size = 1 := by
  refine ⟨?_, isHex_size h.2⟩
  cases h.1 with
  | inl hplus => rw [hplus]; rfl
  | inr hhex => exact isHex_size hhex

theorem fromStrRadix16_single (c : Char) : fromStrRadix16 [c] = none := by
  unfold fromStrRadix16
  split
  next he => cases he
  next he => cases he
  next => rfl

theorem fromStrRadix16_pair (high low : Char) : fromStrRadix16 [high, low] =
    if high = '+' then hexDigit low else (do return (← hexDigit high) * 16 + (← hexDigit low)) := by
  split
  next h => rw [h, fromStrRadix16]
  next h =>
    unfold fromStrRadix16
    split
    next he => exact absurd (List.cons.inj he).1 h
    next he =>
      simp only [List.cons.injEq, and_true] at he
      rw [he.1, he.2]
    next hneither => exact absurd rfl (hneither high low)

theorem fromStrRadix16_of_hexPair (h : HexPair pair) :
    ∃ n, fromStrRadix16 [pair.1, pair.2] = some n ∧ UInt8.ofNat n = pairByte pair := by
  obtain ⟨low, hlow⟩ := Option.isSome_iff_exists.mp h.2
  rw [fromStrRadix16_pair]
  by_cases hplus : pair.1 = '+'
  · have hnone : hexDigit '+' = none := by decide
    refine ⟨low, by rw [if_pos hplus, hlow], ?_⟩
    rw [pairByte, hplus, hnone, hlow]
    simp
  · obtain ⟨high, hhigh⟩ := Option.isSome_iff_exists.mp (h.1.resolve_left hplus)
    refine ⟨high * 16 + low, by rw [if_neg hplus, hhigh, hlow]; rfl, ?_⟩
    rw [pairByte, hhigh, hlow]
    rfl

theorem fromStrRadix16_eq_none (h : ¬ HexPair pair) : fromStrRadix16 [pair.1, pair.2] = none := by
  rw [fromStrRadix16_pair]
  have hnone {c : Char} (hc : ¬ IsHex c) : hexDigit c = none := by
    rw [IsHex, Option.not_isSome_iff_eq_none] at hc
    exact hc
  by_cases hlow : IsHex pair.2
  · have hhigh : ¬ (pair.1 = '+' ∨ IsHex pair.1) := fun hhigh => h ⟨hhigh, hlow⟩
    rw [not_or] at hhigh
    rw [if_neg hhigh.1, hnone hhigh.2]
    rfl
  · rw [hnone hlow]
    cases hexDigit pair.1 <;> simp

theorem splitBytes_two {text : List Char} (h : 2 ≤ byteLength text) :
    splitBytes text 2 = none ∧ CutsCharacter text ∨
      (∃ c rest, text = c :: rest ∧ splitBytes text 2 = some ([c], rest) ∧ c.utf8Size = 2) ∨
      ∃ c d rest, text = c :: d :: rest ∧ splitBytes text 2 = some ([c, d], rest) ∧ c.utf8Size = 1 ∧
        d.utf8Size = 1 := by
  cases text with
  | nil => simp [byteLength] at h
  | cons c rest =>
    have hpos := c.utf8Size_pos
    rw [splitBytes_cons]
    by_cases hlarge : 2 < c.utf8Size
    · exact .inl ⟨if_neg (by omega), .inl hlarge⟩
    rw [if_pos (by omega)]
    by_cases htwo : c.utf8Size = 2
    · refine .inr (.inl ⟨c, rest, rfl, ?_, htwo⟩)
      rw [htwo]
      cases rest <;> rfl
    have hone : c.utf8Size = 1 := by omega
    cases rest with
    | nil => simp [byteLength, hone] at h
    | cons d rest =>
      have hd := d.utf8Size_pos
      rw [hone, show 1 + 1 - 1 = 0 + 1 from rfl, splitBytes_cons]
      by_cases hcut : 1 < d.utf8Size
      · refine .inl ⟨?_, .inr ⟨hone, d, rfl, hcut⟩⟩
        rw [if_neg (by omega)]
        rfl
      · have hdone : d.utf8Size = 1 := by omega
        refine .inr (.inr ⟨c, d, rest, rfl, ?_, hone, hdone⟩)
        rw [hdone]
        cases rest <;> rfl

theorem byteLength_append (front rest : List Char) :
    byteLength (front ++ rest) = byteLength front + byteLength rest := by
  rw [byteLength, List.map_append, List.sum_append, byteLength, byteLength]

variable {pairs : List Pair}

theorem byteLength_flat (h : ∀ pair ∈ pairs, HexPair pair) : byteLength (flat pairs) = 2 * pairs.length := by
  induction pairs with
  | nil => rfl
  | cons pair pairs ih =>
    rw [List.forall_mem_cons] at h
    have hsize := h.1.size
    rw [byteLength] at ih
    rw [flat_cons, byteLength, List.map_cons, List.map_cons, List.sum_cons, List.sum_cons, ih h.2, List.length_cons]
    omega

/-- How a text is read: pairs to its end, pairs up to a character across the boundary, or in some other way. -/
inductive Reading (count : Nat) (text : List Char) : Accepts Bytes → Prop
  | all (pairs : List Pair) : text = flat pairs → pairs.length = count → (∀ pair ∈ pairs, HexPair pair) →
    Reading count text (.ok (pairs.map pairByte))
  | cut (pairs : List Pair) (rest : List Char) : text = flat pairs ++ rest → (∀ pair ∈ pairs, HexPair pair) →
    CutsCharacter rest → Reading count text (.error .panic)
  | other : Reading count text (.error .parse)

theorem Reading.cons {count : Nat} {text : List Char} {outcome : Accepts Bytes} {pair : Pair} (hpair : HexPair pair)
    (h : Reading count text outcome) :
    Reading (count + 1) (pair.1 :: pair.2 :: text) ((pairByte pair :: ·) <$> outcome) := by
  cases h with
  | all pairs he hlen hpairs =>
    rw [he]
    exact .all (pair :: pairs) rfl (by rw [List.length_cons, hlen]) (List.forall_mem_cons.mpr ⟨hpair, hpairs⟩)
  | cut pairs rest he hpairs hcut =>
    rw [he]
    exact .cut (pair :: pairs) rest rfl (List.forall_mem_cons.mpr ⟨hpair, hpairs⟩) hcut
  | other => exact .other

theorem parseHexBytes_reading (count : Nat) (text : List Char) (h : byteLength text = 2 * count) :
    Reading count text (parseHexBytes count text) := by
  induction count generalizing text with
  | zero =>
    have hnil : text = [] := by
      cases text with
      | nil => rfl
      | cons c rest =>
        have := c.utf8Size_pos
        simp only [byteLength, List.map_cons, List.sum_cons] at h
        omega
    rw [hnil]
    exact .all [] rfl rfl (List.forall_mem_nil _)
  | succ count ih =>
    rw [parseHexBytes]
    obtain ⟨hnone, hcut⟩ | ⟨c, rest, he, hsplit, hsize⟩ | ⟨c, d, rest, he, hsplit, hc, hd⟩ :=
      @splitBytes_two text (by omega)
    · rw [hnone]
      exact .cut [] text rfl (List.forall_mem_nil _) hcut
    · rw [hsplit]
      simp only [fromStrRadix16_single]
      exact .other
    · rw [hsplit]
      by_cases hpair : HexPair (c, d)
      · obtain ⟨n, hradix, hbyte⟩ := fromStrRadix16_of_hexPair hpair
        have hrest : byteLength rest = 2 * count := by
          rw [he] at h
          simp only [byteLength, List.map_cons, List.sum_cons] at h ⊢
          omega
        simp only [hradix, hbyte]
        rw [he]
        exact (ih rest hrest).cons hpair
      · have hradix : fromStrRadix16 [c, d] = none := fromStrRadix16_eq_none hpair
        simp only [hradix]
        exact .other

theorem parseHexBytes_flat (h : ∀ pair ∈ pairs, HexPair pair) (count : Nat) (rest : List Char) :
    parseHexBytes (pairs.length + count) (flat pairs ++ rest) =
      (pairs.map pairByte ++ ·) <$> parseHexBytes count rest := by
  induction pairs with
  | nil =>
    rw [List.length_nil, Nat.zero_add, show flat [] ++ rest = rest from rfl]
    cases parseHexBytes count rest <;> rfl
  | cons pair pairs ih =>
    rw [List.forall_mem_cons] at h
    have hsplit : splitBytes [pair.1, pair.2] 2 = some ([pair.1, pair.2], []) := by
      have hsize := h.1.size
      rw [splitBytes_cons, if_pos (by omega), hsize.1, show 1 + 1 - 1 = 0 + 1 from rfl, splitBytes_cons,
        if_pos (by omega), hsize.2]
      rfl
    obtain ⟨n, hradix, hbyte⟩ := fromStrRadix16_of_hexPair h.1
    rw [List.length_cons, Nat.add_right_comm, parseHexBytes,
      show flat (pair :: pairs) ++ rest = [pair.1, pair.2] ++ (flat pairs ++ rest) from rfl, splitBytes_append hsplit]
    simp only [hradix, hbyte, ih h.2]
    cases parseHexBytes count rest <;> rfl

theorem splitBytes_of_cuts {text : List Char} (h : CutsCharacter text) : splitBytes text 2 = none := by
  cases text with
  | nil => exact absurd h id
  | cons c rest =>
    rw [splitBytes_cons]
    cases h with
    | inl hlarge => rw [if_neg (by omega)]
    | inr hcut =>
      obtain ⟨hone, d, hd, hsize⟩ := hcut
      cases rest with
      | nil => cases hd
      | cons e rest =>
        cases hd
        rw [if_pos (by omega), hone, show 1 + 1 - 1 = 0 + 1 from rfl, splitBytes_cons, if_neg (by omega)]
        rfl

theorem parseUuidToBytes_eq (s : String) (h : byteLength (digits s) = 32) :
    parseUuidToBytes s = parseHexBytes 16 (digits s) :=
  if_neg (not_not.mpr h)

variable {s : String}

theorem parseUuidToBytes_length (h : byteLength (digits s) ≠ 32) :
    parseUuidToBytes s = .error (.message ("invalid UUID: '" ++ s ++ "'")) :=
  if_pos h

theorem parseUuidToBytes_pairs (he : digits s = flat pairs) (hlen : pairs.length = 16)
    (hpairs : ∀ pair ∈ pairs, HexPair pair) : parseUuidToBytes s = .ok (pairs.map pairByte) := by
  have hbytes : byteLength (digits s) = 32 := by rw [he, byteLength_flat hpairs, hlen]
  have hflat := parseHexBytes_flat hpairs 0 []
  rw [hlen, List.append_nil, ← he, ← parseUuidToBytes_eq s hbytes] at hflat
  rw [hflat, parseHexBytes]
  exact congrArg Except.ok (List.append_nil _)

theorem parseUuidToBytes_of_cut (h : Cut s) : parseUuidToBytes s = .error .panic := by
  obtain ⟨hbytes, pairs, rest, he, hpairs, hcut⟩ := h
  have hrest : 0 < byteLength rest := by
    cases rest with
    | nil => exact absurd hcut id
    | cons c rest =>
      have := c.utf8Size_pos
      simp only [byteLength, List.map_cons, List.sum_cons]
      omega
  have hsum := hbytes
  rw [he, byteLength_append, byteLength_flat hpairs] at hsum
  obtain ⟨count, hcount⟩ : ∃ count, 16 = pairs.length + (count + 1) := ⟨15 - pairs.length, by omega⟩
  rw [parseUuidToBytes_eq s hbytes, he, hcount, parseHexBytes_flat hpairs, parseHexBytes, splitBytes_of_cuts hcut]
  rfl

theorem cut_of_panic (h : parseUuidToBytes s = .error .panic) : Cut s := by
  by_cases hbytes : byteLength (digits s) = 32
  · have hread := parseHexBytes_reading 16 (digits s) hbytes
    rw [← parseUuidToBytes_eq s hbytes, h] at hread
    cases hread with
    | cut pairs rest he hpairs hcut => exact ⟨hbytes, pairs, rest, he, hpairs, hcut⟩
  · rw [parseUuidToBytes_length hbytes] at h
    cases h

theorem pairs_of_ok {bytes : Bytes} (h : parseUuidToBytes s = .ok bytes) :
    ∃ pairs, digits s = flat pairs ∧ pairs.length = 16 ∧ (∀ pair ∈ pairs, HexPair pair) ∧
      bytes = pairs.map pairByte := by
  by_cases hbytes : byteLength (digits s) = 32
  · have hread := parseHexBytes_reading 16 (digits s) hbytes
    rw [← parseUuidToBytes_eq s hbytes, h] at hread
    cases hread with
    | all pairs he hlen hpairs => exact ⟨pairs, he, hlen, hpairs, rfl⟩
  · rw [parseUuidToBytes_length hbytes] at h
    cases h

theorem flat_of_length {count : Nat} {text : List Char} (h : text.length = 2 * count) :
    ∃ pairs, text = flat pairs ∧ pairs.length = count := by
  induction count generalizing text with
  | zero => exact ⟨[], List.length_eq_zero_iff.mp h, rfl⟩
  | succ count ih =>
    cases text with
    | nil => cases h
    | cons c text =>
      cases text with
      | nil =>
        rw [List.length_singleton] at h
        omega
      | cons d text =>
        simp only [List.length_cons] at h
        obtain ⟨pairs, he, hlen⟩ := @ih text (by omega)
        refine ⟨(c, d) :: pairs, ?_, by rw [List.length_cons, hlen]⟩
        rw [he]
        rfl

theorem length_flat (pairs : List Pair) : (flat pairs).length = 2 * pairs.length := by
  induction pairs with
  | nil => rfl
  | cons pair pairs ih =>
    rw [flat_cons, List.length_cons, List.length_cons, List.length_cons, ih]
    omega

theorem forall_mem_flat {p : Char → Prop} : (∀ c ∈ flat pairs, p c) ↔ ∀ pair ∈ pairs, p pair.1 ∧ p pair.2 := by
  induction pairs with
  | nil => simp [flat]
  | cons pair pairs ih =>
    rw [flat_cons, List.forall_mem_cons, List.forall_mem_cons, List.forall_mem_cons, ih, and_assoc]

theorem isUuid_iff (s : String) : IsUuid s ↔
    ∃ pairs, digits s = flat pairs ∧ pairs.length = 16 ∧ ∀ pair ∈ pairs, IsHex pair.1 ∧ IsHex pair.2 := by
  constructor
  · rintro ⟨hlen, hhex⟩
    obtain ⟨pairs, he, hcount⟩ := @flat_of_length 16 _ hlen
    rw [he] at hhex
    exact ⟨pairs, he, hcount, forall_mem_flat.mp hhex⟩
  · rintro ⟨pairs, he, hlen, hhex⟩
    rw [IsUuid, he, length_flat, hlen]
    exact ⟨rfl, forall_mem_flat.mpr hhex⟩

theorem fromBe_map_pairByte (pairs : List Pair) : fromBe (pairs.map pairByte) = hexNumber (flat pairs) := by
  have hdigit (c : Char) : (hexDigit c).getD 0 < 16 := by
    cases h : hexDigit c with
    | none => exact Nat.zero_lt_succ _
    | some n => exact hexDigit_lt h
  suffices h : ∀ start, (pairs.map pairByte).foldl (fun n byte => n * 256 + byte.toNat) start =
      (flat pairs).foldl (fun n c => n * 16 + (hexDigit c).getD 0) start from h 0
  induction pairs with
  | nil => exact fun _ => rfl
  | cons pair pairs ih =>
    intro start
    have hbyte : (pairByte pair).toNat = (hexDigit pair.1).getD 0 * 16 + (hexDigit pair.2).getD 0 := by
      have hhigh := hdigit pair.1
      have hlow := hdigit pair.2
      exact UInt8.toNat_ofNat_of_lt' (by change _ < 256; omega)
    rw [List.map_cons, List.foldl_cons, ih, flat_cons, List.foldl_cons, List.foldl_cons, hbyte]
    congr 1
    omega

theorem toBe_of_pairs (h : pairs.length = 16) : pairs.map pairByte = toBe 16 (hexNumber (flat pairs)) := by
  have hbytes := toBe_fromBe (pairs.map pairByte)
  rw [List.length_map, h, fromBe_map_pairByte] at hbytes
  exact hbytes.symm

/-- Beside a sign in a pair and a slice through a character nothing goes wrong, and what is written is read. -/
theorem parseUuidToBytes_exact_iff (s : String) : (Exact s ↔ ¬ Signed s ∧ ¬ Cut s) ∧
    ∀ raw : Bytes, raw.length = 16 → ∃ text, formatUuid raw = .ok text ∧ parseUuidToBytes text = .ok raw := by
  refine ⟨⟨?_, ?_⟩, fun raw hraw => uuid_round_trip hraw⟩
  · intro hexact
    constructor
    · rintro ⟨pairs, he, hlen, hpairs, pair, hpair, hplus⟩
      have huuid := hexact.accepts.mp ⟨_, parseUuidToBytes_pairs he hlen hpairs⟩
      have hhex := huuid.2
      rw [he, forall_mem_flat] at hhex
      have hsign := (hhex pair hpair).1
      rw [hplus] at hsign
      exact isHex_of_plus hsign
    · intro hcut
      exact hexact.returns (parseUuidToBytes_of_cut hcut)
  · rintro ⟨hsigned, hcut⟩
    refine ⟨fun hpanic => hcut (cut_of_panic hpanic), ⟨?_, ?_⟩, ?_⟩
    · rintro ⟨bytes, hok⟩
      obtain ⟨pairs, he, hlen, hpairs, _⟩ := pairs_of_ok hok
      refine (isUuid_iff s).mpr ⟨pairs, he, hlen, fun pair hpair => ⟨?_, (hpairs pair hpair).2⟩⟩
      exact (hpairs pair hpair).1.resolve_left fun hplus => hsigned ⟨pairs, he, hlen, hpairs, pair, hpair, hplus⟩
    · intro huuid
      obtain ⟨pairs, he, hlen, hhex⟩ := (isUuid_iff s).mp huuid
      exact ⟨_, parseUuidToBytes_pairs he hlen fun pair hpair => ⟨.inr (hhex pair hpair).1, (hhex pair hpair).2⟩⟩
    · intro bytes hok
      obtain ⟨pairs, he, hlen, _, hbytes⟩ := pairs_of_ok hok
      rw [hbytes, he, toBe_of_pairs hlen]

theorem parseUuidToBytes_not_exact : ¬ Exact "0é00000-0000-0000-0000-000000000000" := by
  intro hexact
  exact hexact.returns (by decide +kernel)

end Gqlforge.Uuids
