import Mathlib.Tactic.Ring

namespace Gqlforge.Decimals

def fixed : Nat → Nat → List Char
  | 0, _ => []
  | width + 1, n => fixed width (n / 10) ++ [Nat.digitChar (n % 10)]

@[simp] theorem length_fixed (width n : Nat) : (fixed width n).length = width := by
  induction width generalizing n with
  | zero => rfl
  | succ width ih => rw [fixed, List.length_append, ih, List.length_singleton]

theorem fixed_zero (width : Nat) : fixed width 0 = List.replicate width '0' := by
  induction width with
  | zero => rfl
  | succ width ih => rw [fixed, Nat.zero_div, ih, List.replicate_succ']; rfl

theorem fixed_append (front width : Nat) {x y : Nat} (h : y < 10 ^ width) :
    fixed front x ++ fixed width y = fixed (front + width) (x * 10 ^ width + y) := by
  induction width generalizing y with
  | zero =>
    rw [pow_zero, Nat.lt_one_iff] at h
    rw [h, fixed, List.append_nil, pow_zero, mul_one, add_zero, add_zero]
  | succ width ih =>
    rw [pow_succ] at h
    have hdiv : (x * 10 ^ (width + 1) + y) / 10 = x * 10 ^ width + y / 10 := by
      rw [pow_succ, ← mul_assoc]
      omega
    have hmod : (x * 10 ^ (width + 1) + y) % 10 = y % 10 := by
      rw [pow_succ, ← mul_assoc]
      omega
    rw [fixed, ← List.append_assoc, ih (by omega), ← add_assoc, fixed, hdiv, hmod]

theorem take_fixed (front width n : Nat) : (fixed (front + width) n).take front = fixed front (n / 10 ^ width) := by
  induction width generalizing n with
  | zero => rw [add_zero, pow_zero, Nat.div_one, List.take_of_length_le (by rw [length_fixed])]
  | succ width ih =>
    rw [← add_assoc, fixed, List.take_append_of_le_length (by rw [length_fixed]; omega), ih, Nat.div_div_eq_div_mul,
      pow_succ, mul_comm]

theorem toDigits_concat {n d : Nat} (hn : 0 < n) (hd : d < 10) :
    Nat.toDigits 10 n ++ [Nat.digitChar d] = Nat.toDigits 10 (10 * n + d) := by
  rw [← Nat.toDigits_of_lt_base hd, Nat.toDigits_append_toDigits (by decide) hn hd]

theorem toDigits_append {n y : Nat} (width : Nat) (hn : 0 < n) (h : y < 10 ^ width) :
    Nat.toDigits 10 n ++ fixed width y = Nat.toDigits 10 (n * 10 ^ width + y) := by
  induction width generalizing y with
  | zero =>
    rw [pow_zero, Nat.lt_one_iff] at h
    rw [h, fixed, List.append_nil, pow_zero, mul_one, add_zero]
  | succ width ih =>
    rw [pow_succ] at h
    have hpos : 0 < n * 10 ^ width + y / 10 := Nat.add_pos_left (Nat.mul_pos hn (Nat.pow_pos (by decide))) _
    have hsum : 10 * (n * 10 ^ width + y / 10) + y % 10 = n * 10 ^ (width + 1) + y := by
      rw [pow_succ, ← mul_assoc]
      omega
    rw [fixed, ← List.append_assoc, ih (by omega), toDigits_concat hpos (Nat.mod_lt y (by decide)), hsum]

theorem fixed_eq_padded {width n : Nat} (hwidth : 0 < width) (h : n < 10 ^ width) :
    List.replicate (width - (Nat.toDigits 10 n).length) '0' ++ Nat.toDigits 10 n = fixed width n := by
  induction width generalizing n with
  | zero => omega
  | succ width ih =>
    by_cases hn : n < 10
    · rw [Nat.toDigits_of_lt_base hn, List.length_singleton, Nat.add_sub_cancel, fixed, Nat.div_eq_of_lt hn, fixed_zero,
        Nat.mod_eq_of_lt hn]
    · have hpos : 0 < width := by
        by_contra hzero
        rw [Nat.eq_zero_of_not_pos hzero] at h
        exact hn h
      rw [pow_succ] at h
      have hdigits := toDigits_concat (n := n / 10) (d := n % 10) (by omega) (Nat.mod_lt n (by decide))
      rw [Nat.div_add_mod] at hdigits
      rw [fixed, ← ih hpos (by omega), ← hdigits, List.length_append, List.length_singleton, List.append_assoc,
        Nat.add_sub_add_right]

end Gqlforge.Decimals
