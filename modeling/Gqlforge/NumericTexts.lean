import Gqlforge.Decimals
import Gqlforge.PostgresArrays
import Mathlib.Algebra.Order.Field.Power
import Mathlib.Tactic.FieldSimp
import Mathlib.Tactic.Linarith
import Mathlib.Tactic.Positivity

namespace Gqlforge.NumericTexts

open BigEndian BinaryFormat Decimals PostgresArrays

structure Numeric where
  digits : List Nat
  weight : Int
  negative : Bool
  dscale : Nat
  digits_lt : ∀ d ∈ digits, d < 10000
  first : digits.head? ≠ some 0
  count : digits.length < 2 ^ 15
  weight_bounds : -2 ^ 15 ≤ weight ∧ weight < 2 ^ 15
  dscale_lt : dscale < 2 ^ 15

def magnitude : Int → List Nat → ℚ
  | _, [] => 0
  | weight, d :: rest => d * 10000 ^ weight + magnitude (weight - 1) rest

namespace Numeric

def value (numeric : Numeric) : ℚ :=
  (if numeric.negative then -1 else 1) * magnitude numeric.weight numeric.digits

def sign (numeric : Numeric) : Nat :=
  if numeric.negative then 0x4000 else 0

def bytes (numeric : Numeric) : Bytes :=
  toBe 2 numeric.digits.length ++ (intToBe 2 numeric.weight ++ (toBe 2 numeric.sign ++ (toBe 2 numeric.dscale ++
    numeric.digits.flatMap (toBe 2))))

end Numeric

def decimalText (mantissa : Int) (dscale : Nat) : String :=
  (if mantissa < 0 then "-" else "") ++ toString (mantissa.natAbs / 10 ^ dscale) ++
    (if 0 < dscale then "." ++ String.ofList (fixed dscale (mantissa.natAbs % 10 ^ dscale)) else "")

def groupsValue : List Nat → Nat
  | [] => 0
  | d :: rest => d * 10 ^ (4 * rest.length) + groupsValue rest

theorem groupsValue_lt {groups : List Nat} (h : ∀ d ∈ groups, d < 10000) :
    groupsValue groups < 10 ^ (4 * groups.length) := by
  induction groups with
  | nil => exact Nat.one_pos
  | cons d rest ih =>
    rw [List.forall_mem_cons] at h
    have hrest := ih h.2
    have hpow : 10 ^ (4 * (rest.length + 1)) = 10000 * 10 ^ (4 * rest.length) := by
      rw [mul_add, pow_add, mul_comm]
      rfl
    have hd := Nat.mul_le_mul_right (10 ^ (4 * rest.length)) (show d + 1 ≤ 10000 from h.1)
    rw [groupsValue, List.length_cons, hpow]
    rw [Nat.add_mul, Nat.one_mul] at hd
    omega

theorem flatMap_fixed {groups : List Nat} (h : ∀ d ∈ groups, d < 10000) :
    groups.flatMap (fixed 4) = fixed (4 * groups.length) (groupsValue groups) := by
  induction groups with
  | nil => rfl
  | cons d rest ih =>
    rw [List.forall_mem_cons] at h
    rw [List.flatMap_cons, ih h.2, fixed_append 4 _ (groupsValue_lt h.2), groupsValue, List.length_cons]
    congr 1
    omega

theorem groupsValue_text {d : Nat} {rest : List Nat} (hd : 0 < d) (h : ∀ d ∈ rest, d < 10000) :
    Nat.toDigits 10 d ++ rest.flatMap (fixed 4) = Nat.toDigits 10 (groupsValue (d :: rest)) := by
  rw [flatMap_fixed h, toDigits_append _ hd (groupsValue_lt h), groupsValue]

theorem take_decimals {width dscale value decimals : Nat} (h : value * 10 ^ dscale = decimals * 10 ^ width) :
    (fixed width value ++ List.replicate (dscale - width) '0').take dscale = fixed dscale decimals := by
  rw [← fixed_zero, fixed_append width _ (Nat.pow_pos (by decide)), add_zero]
  rcases le_total width dscale with hle | hle
  · obtain ⟨more, rfl⟩ := Nat.exists_eq_add_of_le hle
    have hvalue : value * 10 ^ more = decimals := by
      rw [pow_add, mul_comm (10 ^ width), ← mul_assoc] at h
      exact Nat.eq_of_mul_eq_mul_right (Nat.pow_pos (by decide)) h
    rw [Nat.add_sub_cancel_left, hvalue, List.take_of_length_le (by rw [length_fixed])]
  · obtain ⟨more, rfl⟩ := Nat.exists_eq_add_of_le hle
    have hvalue : value = decimals * 10 ^ more := by
      rw [pow_add, mul_comm (10 ^ dscale), ← mul_assoc] at h
      exact Nat.eq_of_mul_eq_mul_right (Nat.pow_pos (by decide)) h
    rw [Nat.sub_eq_zero_of_le hle, pow_zero, mul_one, add_zero, take_fixed, hvalue,
      Nat.mul_div_cancel _ (Nat.pow_pos (by decide))]

theorem parts_of_scaled {whole value width dscale scaled : Nat} (hvalue : value < 10 ^ width)
    (h : (whole * 10 ^ width + value) * 10 ^ dscale = scaled * 10 ^ width) :
    scaled / 10 ^ dscale = whole ∧ value * 10 ^ dscale = scaled % 10 ^ dscale * 10 ^ width := by
  have hwidth : 0 < 10 ^ width := Nat.pow_pos (by decide)
  have hscale : 0 < 10 ^ dscale := Nat.pow_pos (by decide)
  have hwhole : scaled / 10 ^ dscale = whole := by
    apply Nat.div_eq_of_lt_le
    · apply Nat.le_of_mul_le_mul_right _ hwidth
      rw [← h]
      nlinarith
    · apply Nat.lt_of_mul_lt_mul_right (a := 10 ^ width)
      rw [← h]
      nlinarith
  refine ⟨hwhole, ?_⟩
  have hscaled := Nat.div_add_mod scaled (10 ^ dscale)
  rw [hwhole] at hscaled
  nlinarith

theorem magnitude_eq (weight : Int) (groups : List Nat) :
    magnitude weight groups = groupsValue groups * 10000 ^ (weight + 1 - groups.length) := by
  induction groups generalizing weight with
  | nil => simp [magnitude, groupsValue]
  | cons d rest ih =>
    have hsplit : (10000 : ℚ) ^ weight = 10 ^ (4 * rest.length) * 10000 ^ (weight - rest.length) := by
      rw [pow_mul, show (10 : ℚ) ^ 4 = 10000 by norm_num, ← zpow_natCast, ← zpow_add₀ (by norm_num)]
      congr 1
      ring
    have hexp : weight - 1 + 1 - (rest.length : Int) = weight - rest.length := by ring
    have hexp' : weight + 1 - ((d :: rest).length : Int) = weight - rest.length := by
      rw [List.length_cons]
      push_cast
      ring
    rw [magnitude, ih, groupsValue, hexp, hexp', hsplit]
    push_cast
    ring

theorem magnitude_append (weight : Int) (front rest : List Nat) :
    magnitude weight (front ++ rest) = magnitude weight front + magnitude (weight - front.length) rest := by
  induction front generalizing weight with
  | nil => simp [magnitude]
  | cons d front ih =>
    have hexp : weight - 1 - (front.length : Int) = weight - ((d :: front).length : Int) := by
      rw [List.length_cons]
      push_cast
      ring
    rw [List.cons_append, magnitude, ih, magnitude, hexp, add_assoc]

theorem magnitude_zeros (weight : Int) (count : Nat) : magnitude weight (List.replicate count 0) = 0 := by
  induction count generalizing weight with
  | zero => rfl
  | succ count ih => rw [List.replicate_succ, magnitude, ih, Nat.cast_zero, zero_mul, add_zero]

theorem magnitude_nonneg (weight : Int) (groups : List Nat) : 0 ≤ magnitude weight groups := by
  rw [magnitude_eq]
  positivity

theorem magnitude_pos {d : Nat} (hd : 0 < d) (weight : Int) (rest : List Nat) : 0 < magnitude weight (d :: rest) := by
  have hrest := magnitude_nonneg (weight - 1) rest
  have hfirst : (0 : ℚ) < d * 10000 ^ weight := by positivity
  rw [magnitude]
  linarith

def wholeGroups (count : Nat) (digits : List Nat) : List Nat :=
  (List.range count).map fun i => digits.getD i 0

def fractionGroups (weight : Int) (digits : List Nat) : List Nat :=
  List.replicate (if weight < 0 then (-weight - 1).toNat else 0) 0 ++ digits.drop (max (weight + 1) 0).toNat

theorem wholeGroups_append (count : Nat) (digits : List Nat) :
    wholeGroups count digits ++ digits.drop count = digits ++ List.replicate (count - digits.length) 0 := by
  induction count generalizing digits with
  | zero => simp [wholeGroups]
  | succ count ih =>
    rw [wholeGroups, List.range_succ_eq_map, List.map_cons, List.map_map]
    cases digits with
    | nil =>
      have hrest := ih []
      simp only [wholeGroups, List.drop_nil, List.append_nil, List.nil_append, List.length_nil, Nat.sub_zero] at hrest ⊢
      rw [List.replicate_succ, ← hrest]
      rfl
    | cons d digits =>
      have hrest := ih digits
      rw [wholeGroups] at hrest
      rw [List.drop_succ_cons, List.cons_append, List.length_cons, Nat.add_sub_add_right, List.cons_append, ← hrest]
      rfl

theorem length_wholeGroups (count : Nat) (digits : List Nat) : (wholeGroups count digits).length = count := by
  rw [wholeGroups, List.length_map, List.length_range]

theorem magnitude_parts (weight : Int) (digits : List Nat) :
    magnitude weight digits = groupsValue (wholeGroups (weight + 1).toNat digits) +
      groupsValue (fractionGroups weight digits) / 10 ^ (4 * (fractionGroups weight digits).length) := by
  have hfraction (groups : List Nat) :
      magnitude (-1) groups = groupsValue groups / 10 ^ (4 * groups.length) := by
    rw [magnitude_eq, div_eq_mul_inv, pow_mul, show (10 : ℚ) ^ 4 = 10000 by norm_num, ← zpow_natCast, ← zpow_neg]
    congr 2
    ring
  rw [← hfraction]
  rcases lt_or_ge weight 0 with hneg | hnonneg
  · have hcount : (weight + 1).toNat = 0 := by omega
    have hdrop : (max (weight + 1) 0).toNat = 0 := by omega
    have hzeros : ((List.replicate (-weight - 1).toNat 0 : List Nat).length : Int) = -weight - 1 := by
      rw [List.length_replicate]
      omega
    have hexp : -1 - (-weight - 1) = weight := by ring
    rw [hcount, fractionGroups, if_pos hneg, hdrop, List.drop_zero, magnitude_append, magnitude_zeros, hzeros, hexp]
    simp [wholeGroups, groupsValue]
  · have hcount : (max (weight + 1) 0).toNat = (weight + 1).toNat := by omega
    have hwhole : magnitude weight (wholeGroups (weight + 1).toNat digits) =
        groupsValue (wholeGroups (weight + 1).toNat digits) := by
      have hexp : weight + 1 - (((weight + 1).toNat : Nat) : Int) = 0 := by omega
      rw [magnitude_eq, length_wholeGroups, hexp, zpow_zero, mul_one]
    have hexp : weight - (((weight + 1).toNat : Nat) : Int) = -1 := by omega
    have happend := magnitude_append weight (wholeGroups (weight + 1).toNat digits) (digits.drop (weight + 1).toNat)
    rw [wholeGroups_append, magnitude_append, magnitude_zeros, add_zero, length_wholeGroups, hexp, hwhole] at happend
    rw [fractionGroups, if_neg (by omega), hcount, List.replicate_zero, List.nil_append, happend]

theorem padded_toList {width n : Nat} (hwidth : 0 < width) (h : n < 10 ^ width) :
    (padded width (toString n)).toList = fixed width n := by
  rw [padded, zeros, String.toList_append, String.toList_ofList, ← fixed_eq_padded hwidth h, Nat.toString_eq_repr,
    Nat.toList_repr, ← String.length_toList, Nat.toList_repr]

theorem paddedInt_toList {d : Nat} (h : d < 10000) : (paddedInt 4 (d : Int)).toList = fixed 4 d := by
  rw [paddedInt, if_neg (by omega)]
  exact padded_toList (by decide) h

theorem join_padded {groups : List Nat} (h : ∀ d ∈ groups, d < 10000) :
    (String.join (groups.map fun d : Nat => paddedInt 4 (d : Int))).toList = groups.flatMap (fixed 4) := by
  rw [String.toList_join, List.flatMap_map]
  exact List.flatMap_congr fun d hd => paddedInt_toList (h d hd)

theorem mem_fractionGroups {weight : Int} {digits : List Nat} (h : ∀ d ∈ digits, d < 10000) :
    ∀ d ∈ fractionGroups weight digits, d < 10000 := by
  intro d hd
  rcases List.mem_append.mp hd with hd | hd
  · rw [List.eq_of_mem_replicate hd]
    decide
  · exact h d (List.mem_of_mem_drop hd)

theorem mem_wholeGroups {count : Nat} {digits : List Nat} (h : ∀ d ∈ digits, d < 10000) :
    ∀ d ∈ wholeGroups count digits, d < 10000 := by
  intro d hd
  have hmem := List.mem_append_left (digits.drop count) hd
  rw [wholeGroups_append] at hmem
  rcases List.mem_append.mp hmem with hd | hd
  · exact h d hd
  · rw [List.eq_of_mem_replicate hd]
    decide

theorem numericFrac_eq (weight : Int) {digits : List Nat} (dscale : Nat) (h : ∀ d ∈ digits, d < 10000) :
    numericFrac weight (digits.map fun d : Nat => (d : Int)) dscale =
      String.ofList ((fixed (4 * (fractionGroups weight digits).length) (groupsValue (fractionGroups weight digits)) ++
        List.replicate (dscale - 4 * (fractionGroups weight digits).length) '0').take dscale) := by
  have hgroups := @mem_fractionGroups weight _ h
  have hzeros (count : Nat) : List.replicate count "0000" =
      (List.replicate count 0).map fun d : Nat => paddedInt 4 (d : Int) := by
    rw [List.map_replicate]
    rfl
  have hjoin (groups groups' : List String) :
      String.join groups ++ String.join groups' = String.join (groups ++ groups') := by
    rw [← String.toList_inj, String.toList_append, String.toList_join, String.toList_join, String.toList_join,
      List.flatMap_append]
  have htext : (String.join (List.replicate (if weight < 0 then (-weight - 1).toNat else 0) "0000") ++
      String.join (((digits.map fun d : Nat => (d : Int)).drop (max (weight + 1) 0).toNat).map (paddedInt 4))).toList =
        fixed (4 * (fractionGroups weight digits).length) (groupsValue (fractionGroups weight digits)) := by
    rw [← flatMap_fixed hgroups, ← join_padded hgroups, hjoin, hzeros, ← List.map_drop, List.map_map, fractionGroups,
      List.map_append]
    rfl
  rw [numericFrac]
  simp only [String.toList_append, ← String.length_toList, zeros, String.toList_ofList] at htext ⊢
  rw [htext, length_fixed]

theorem numericIntPart_eq {weight : Int} {d : Nat} {rest : List Nat} (hd : 0 < d) (h : ∀ e ∈ d :: rest, e < 10000) :
    numericIntPart weight ((d :: rest).map fun d : Nat => (d : Int)) =
      toString (groupsValue (wholeGroups (weight + 1).toNat (d :: rest))) := by
  rw [numericIntPart]
  by_cases hcount : weight + 1 ≤ 0
  · have hzero : groupsValue (wholeGroups 0 (d :: rest)) = 0 := rfl
    rw [if_pos hcount, show (weight + 1).toNat = 0 by omega, hzero]
    rfl
  · obtain ⟨count, hsucc⟩ : ∃ count, (weight + 1).toNat = count + 1 := ⟨weight.toNat, by omega⟩
    have hgroups := @mem_wholeGroups (count + 1) _ h
    have hcons : wholeGroups (count + 1) (d :: rest) = d :: wholeGroups count rest := by
      rw [wholeGroups, List.range_succ_eq_map, List.map_cons, List.map_map]
      rfl
    rw [hcons, List.forall_mem_cons] at hgroups
    rw [if_neg hcount, hsucc, hcons, ← String.toList_inj, Nat.toString_eq_repr, Nat.toList_repr,
      ← groupsValue_text hd hgroups.2, ← join_padded hgroups.2, List.range_succ_eq_map, List.map_cons, List.map_map]
    have hrest : (List.range count).map ((fun i =>
        let d := ((d :: rest).map fun d : Nat => (d : Int)).getD i 0
        if i = 0 then toString d else paddedInt 4 d) ∘ Nat.succ) =
        (wholeGroups count rest).map fun d : Nat => paddedInt 4 (d : Int) := by
      rw [wholeGroups, List.map_map]
      refine List.map_congr_left fun i _ => ?_
      have hget : (rest.map fun d : Nat => (d : Int)).getD i 0 = (rest.getD i 0 : Nat) := by
        simp only [List.getD_eq_getElem?_getD, List.getElem?_map]
        cases rest[i]? <;> rfl
      simp only [Function.comp, List.map_cons, List.getD_cons_succ, hget]
      rw [if_neg (Nat.succ_ne_zero i)]
    rw [hrest, String.toList_join, String.toList_join, List.flatMap_cons]
    congr 1
    exact Nat.toList_repr

section

variable (numeric : Numeric)

theorem head_pos {d : Nat} {rest : List Nat} (h : numeric.digits = d :: rest) : 0 < d := by
  have hfirst := numeric.first
  rw [h, List.head?_cons] at hfirst
  exact Nat.pos_of_ne_zero fun hzero => hfirst (congrArg some hzero)

theorem length_flatMap_toBe (digits : List Nat) : (digits.flatMap (toBe 2)).length = 2 * digits.length := by
  induction digits with
  | nil => rfl
  | cons d digits ih =>
    rw [List.flatMap_cons, List.length_append, length_toBe, ih, List.length_cons]
    omega

theorem length_bytes : numeric.bytes.length = 8 + numeric.digits.length * 2 := by
  simp only [Numeric.bytes, List.length_append, length_toBe, intToBe, length_flatMap_toBe]
  omega

theorem map_slices (digits : List Nat) (h : ∀ d ∈ digits, d < 10000) (pre : Bytes) :
    ((List.range digits.length).map fun i =>
        intFromBe (slice (pre ++ digits.flatMap (toBe 2)) (pre.length + i * 2) 2)) =
      digits.map fun d : Nat => (d : Int) := by
  induction digits generalizing pre with
  | nil => rfl
  | cons d digits ih =>
    rw [List.forall_mem_cons] at h
    have hfirst : intFromBe (slice (pre ++ (d :: digits).flatMap (toBe 2)) (pre.length + 0 * 2) 2) = (d : Int) := by
      rw [List.flatMap_cons, slice_append pre (by omega) (length_toBe 2 d)]
      exact intFromBe_toBe (by omega)
    rw [List.length_cons, List.range_succ_eq_map, List.map_cons, hfirst, List.map_map, List.map_cons,
      ← ih h.2 (pre ++ toBe 2 d)]
    congr 1
    refine List.map_congr_left fun i _ => ?_
    rw [Function.comp, List.flatMap_cons, List.append_assoc, List.length_append, length_toBe]
    congr 2
    omega

theorem header_bytes : intFromBe (slice numeric.bytes 0 2) = numeric.digits.length ∧
    intFromBe (slice numeric.bytes 2 2) = numeric.weight ∧ fromBe (slice numeric.bytes 4 2) = numeric.sign ∧
    intFromBe (slice numeric.bytes 6 2) = numeric.dscale := by
  have hcount := numeric.count
  have hweight := numeric.weight_bounds
  have hscale := numeric.dscale_lt
  have hsign : numeric.sign < 2 ^ 16 := by
    rw [Numeric.sign]
    split <;> decide
  have hlength : (intToBe 2 numeric.weight).length = 2 := length_toBe 2 _
  refine ⟨?_, ?_, ?_, ?_⟩
  · rw [Numeric.bytes, show slice (toBe 2 numeric.digits.length ++ _) 0 2 = toBe 2 numeric.digits.length from
      slice_append [] rfl (length_toBe 2 _)]
    exact intFromBe_toBe (by omega)
  · rw [Numeric.bytes, slice_append _ (length_toBe 2 _) hlength]
    exact intFromBe_intToBe (by omega) (by omega)
  · rw [Numeric.bytes, ← List.append_assoc, slice_append _ (by simp [hlength]) (length_toBe 2 _)]
    exact fromBe_toBe (by omega)
  · rw [Numeric.bytes, ← List.append_assoc, ← List.append_assoc, slice_append _ (by simp [hlength]) (length_toBe 2 _)]
    exact intFromBe_toBe (by omega)

theorem digit_bytes : ((List.range numeric.digits.length).map fun i => intFromBe (slice numeric.bytes (8 + i * 2) 2)) =
    numeric.digits.map fun d : Nat => (d : Int) := by
  have hslices := map_slices numeric.digits numeric.digits_lt (toBe 2 numeric.digits.length ++
    intToBe 2 numeric.weight ++ toBe 2 numeric.sign ++ toBe 2 numeric.dscale)
  have hlength : (intToBe 2 numeric.weight).length = 2 := length_toBe 2 _
  simp only [List.length_append, length_toBe, hlength, List.append_assoc, Nat.reduceAdd] at hslices
  exact hslices

def digitsText : String :=
  let intPart := numericIntPart numeric.weight (numeric.digits.map fun d : Nat => (d : Int))
  let result := if numeric.negative then "-" ++ intPart else intPart
  if 0 < numeric.dscale then
    result ++ "." ++ numericFrac numeric.weight (numeric.digits.map fun d : Nat => (d : Int)) numeric.dscale
  else result

theorem parsePgNumeric_bytes : parsePgNumeric numeric.bytes =
    .ok (if numeric.digits.length = 0 then if 0 < numeric.dscale then "0." ++ zeros numeric.dscale else "0"
      else digitsText numeric) := by
  obtain ⟨hcount, hweight, hsign, hscale⟩ := header_bytes numeric
  have hdigits := digit_bytes numeric
  have hlength := length_bytes numeric
  have hspecial : numeric.sign ≠ 0xC000 ∧ numeric.sign ≠ 0xD000 ∧ numeric.sign ≠ 0xF000 := by
    rw [Numeric.sign]
    split <;> decide
  have hnegative : (numeric.sign = 0x4000) = (numeric.negative = true) := by
    rw [Numeric.sign]
    cases numeric.negative <;> simp
  have hpositive : ((numeric.dscale : Int) > 0) = (0 < numeric.dscale) := propext (by omega)
  rw [parsePgNumeric, if_neg (by omega)]
  simp only [hcount, hweight, hsign, hscale, Int.toNat_natCast, hdigits, hnegative, hpositive]
  rw [if_neg (by omega), if_neg (by omega), if_neg hspecial.1, if_neg hspecial.2.1, if_neg hspecial.2.2]
  by_cases hzero : numeric.digits.length = 0
  · rw [if_pos (by omega), if_pos hzero]
    exact (apply_ite Except.ok _ _ _).symm
  · rw [if_neg (by omega), if_neg (by omega), if_neg hzero, digitsText]
    exact (apply_ite Except.ok _ _ _).symm

variable {numeric} in
theorem scaled_parts {mantissa : Int} (h : numeric.value * 10 ^ numeric.dscale = mantissa) :
    (groupsValue (wholeGroups (numeric.weight + 1).toNat numeric.digits) *
        10 ^ (4 * (fractionGroups numeric.weight numeric.digits).length) +
      groupsValue (fractionGroups numeric.weight numeric.digits)) * 10 ^ numeric.dscale =
      mantissa.natAbs * 10 ^ (4 * (fractionGroups numeric.weight numeric.digits).length) := by
  have habs : magnitude numeric.weight numeric.digits * 10 ^ numeric.dscale = (mantissa.natAbs : ℚ) := by
    have hnonneg := magnitude_nonneg numeric.weight numeric.digits
    have hscale : (0 : ℚ) ≤ 10 ^ numeric.dscale := by positivity
    have hvalue := congrArg abs h
    rw [Numeric.value, abs_mul, abs_mul, abs_of_nonneg hnonneg, abs_of_nonneg hscale] at hvalue
    have hsign : |(if numeric.negative then -1 else 1 : ℚ)| = 1 := by
      split <;> simp
    rw [hsign, one_mul] at hvalue
    rw [hvalue, Nat.cast_natAbs, Int.cast_abs]
  rw [magnitude_parts] at habs
  generalize groupsValue (wholeGroups (numeric.weight + 1).toNat numeric.digits) = whole at habs ⊢
  generalize fractionGroups numeric.weight numeric.digits = fraction at habs ⊢
  have hpos : (10 : ℚ) ^ (4 * fraction.length) ≠ 0 := by positivity
  have hscaled : ((whole : ℚ) * 10 ^ (4 * fraction.length) + groupsValue fraction) * 10 ^ numeric.dscale =
      mantissa.natAbs * 10 ^ (4 * fraction.length) := by
    rw [← habs]
    field_simp
  exact_mod_cast hscaled

variable {numeric} in
theorem mantissa_neg_iff {mantissa : Int} (h : numeric.value * 10 ^ numeric.dscale = mantissa) :
    mantissa < 0 ↔ numeric.negative = true ∧ numeric.digits ≠ [] := by
  have hscale : (0 : ℚ) < 10 ^ numeric.dscale := by positivity
  have hnonneg := magnitude_nonneg numeric.weight numeric.digits
  have hvalue : mantissa < 0 ↔ numeric.value < 0 := by
    rw [← Int.cast_lt_zero (R := ℚ), ← h, mul_neg_iff]
    constructor
    · rintro (⟨_, hneg⟩ | ⟨hneg, _⟩)
      · linarith
      · exact hneg
    · exact fun hneg => .inr ⟨hneg, hscale⟩
  rw [hvalue, Numeric.value]
  cases numeric.negative with
  | false =>
    refine iff_of_false ?_ fun hneg => Bool.noConfusion hneg.1
    rw [if_neg (by decide), one_mul, not_lt]
    exact hnonneg
  | true =>
    rw [if_pos rfl]
    cases hdigits : numeric.digits with
    | nil => simp [magnitude]
    | cons d rest =>
      have hpos := magnitude_pos (head_pos numeric hdigits) numeric.weight rest
      refine iff_of_true ?_ ⟨rfl, List.cons_ne_nil _ _⟩
      linarith

theorem zeros_eq (dscale : Nat) : zeros dscale = String.ofList (fixed dscale 0) := by
  rw [zeros, fixed_zero]

/-- A number is read as its decimals. -/
theorem parsePgNumeric_exact (mantissa : Int) (h : numeric.value * 10 ^ numeric.dscale = mantissa) :
    parsePgNumeric numeric.bytes = .ok (decimalText mantissa numeric.dscale) := by
  rw [parsePgNumeric_bytes, decimalText]
  have hneg := mantissa_neg_iff h
  congr 1
  cases hdigits : numeric.digits with
  | nil =>
    have hzero : mantissa = 0 := by
      rw [Numeric.value, hdigits, magnitude, mul_zero, zero_mul] at h
      exact_mod_cast h.symm
    have hempty : (if (0 : Int) < 0 then "-" else "") ++ toString (0 : Nat) = "0" := rfl
    rw [if_pos List.length_nil, hzero, Int.natAbs_zero, Nat.zero_div, Nat.zero_mod, zeros_eq, hempty]
    split
    next => rw [← String.append_assoc]; rfl
    next => rfl
  | cons d rest =>
    have hparts := scaled_parts h
    have hall := numeric.digits_lt
    obtain ⟨hwhole, hdecimals⟩ := parts_of_scaled (groupsValue_lt (mem_fractionGroups hall)) hparts
    have hint := @numericIntPart_eq numeric.weight _ _ (head_pos numeric hdigits) (hdigits ▸ hall)
    rw [← hdigits, ← hwhole] at hint
    have hsign : (mantissa < 0) = (numeric.negative = true) := by
      rw [hneg, hdigits]
      simp
    rw [if_neg (by simp), digitsText, hint, numericFrac_eq _ _ hall, take_decimals hdecimals]
    simp only [hsign]
    cases numeric.negative <;> split <;> simp [String.append_assoc]

end

def price : Numeric where
  digits := [1234, 5000]
  weight := 0
  negative := true
  dscale := 1
  digits_lt := by decide
  first := by decide
  count := by decide
  weight_bounds := by decide
  dscale_lt := by decide

theorem parsePgNumeric_price : parsePgNumeric price.bytes = .ok (decimalText (-12345) 1) :=
  parsePgNumeric_exact price (-12345) (by norm_num [Numeric.value, price, magnitude])

example : decimalText (-12345) 1 = "-1234.5" := by decide

end Gqlforge.NumericTexts
