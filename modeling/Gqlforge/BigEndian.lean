import Mathlib.Data.List.Induction
import Mathlib.Tactic.Ring

namespace Gqlforge.BigEndian

abbrev Bytes := List UInt8

def hexDigit (c : Char) : Option Nat :=
  if c.isDigit then some (c.toNat - '0'.toNat)
  else if 'a' ≤ c ∧ c ≤ 'f' then some (c.toNat - 'a'.toNat + 10)
  else if 'A' ≤ c ∧ c ≤ 'F' then some (c.toNat - 'A'.toNat + 10)
  else none

def fromBe (bytes : Bytes) : Nat :=
  bytes.foldl (fun n byte => n * 256 + byte.toNat) 0

def intFromBe (bytes : Bytes) : Int :=
  if 2 * fromBe bytes < 256 ^ bytes.length then fromBe bytes else fromBe bytes - 256 ^ bytes.length

def toBe : Nat → Nat → Bytes
  | 0, _ => []
  | width + 1, n => toBe width (n / 256) ++ [UInt8.ofNat (n % 256)]

@[simp] theorem length_toBe (width n : Nat) : (toBe width n).length = width := by
  induction width generalizing n with
  | zero => rfl
  | succ width ih => rw [toBe, List.length_append, ih, List.length_singleton]

theorem fromBe_concat (bytes : Bytes) (byte : UInt8) : fromBe (bytes ++ [byte]) = fromBe bytes * 256 + byte.toNat := by
  rw [fromBe, List.foldl_append]
  rfl

theorem fromBe_toBe {width n : Nat} (h : n < 256 ^ width) : fromBe (toBe width n) = n := by
  induction width generalizing n with
  | zero =>
    rw [pow_zero, Nat.lt_one_iff] at h
    rw [h]
    rfl
  | succ width ih =>
    have hdiv : n / 256 < 256 ^ width := by
      rw [pow_succ] at h
      exact Nat.div_lt_of_lt_mul (by omega)
    have hbyte : (UInt8.ofNat (n % 256)).toNat = n % 256 :=
      UInt8.toNat_ofNat_of_lt' (Nat.mod_lt n (by omega))
    rw [toBe, fromBe_concat, ih hdiv, hbyte]
    omega

theorem intFromBe_toBe {width n : Nat} (h : 2 * n < 256 ^ width) : intFromBe (toBe width n) = n := by
  have hn : fromBe (toBe width n) = n := fromBe_toBe (by omega)
  rw [intFromBe, hn, length_toBe, if_pos h]

theorem fromBe_lt (bytes : Bytes) : fromBe bytes < 256 ^ bytes.length := by
  induction bytes using List.reverseRecOn with
  | nil => exact Nat.one_pos
  | append_singleton bytes byte ih =>
    have hbyte := byte.toNat_lt
    rw [fromBe_concat, List.length_append, List.length_singleton, pow_succ]
    omega

theorem toBe_fromBe (bytes : Bytes) : toBe bytes.length (fromBe bytes) = bytes := by
  induction bytes using List.reverseRecOn with
  | nil => rfl
  | append_singleton bytes byte ih =>
    have hbyte := byte.toNat_lt
    have hdiv : (fromBe bytes * 256 + byte.toNat) / 256 = fromBe bytes := by omega
    have hmod : (fromBe bytes * 256 + byte.toNat) % 256 = byte.toNat := by omega
    rw [fromBe_concat, List.length_append, List.length_singleton, toBe, hdiv, hmod, ih, UInt8.ofNat_toNat]

def intToBe (width : Nat) (n : Int) : Bytes :=
  toBe width (n % 256 ^ width).toNat

theorem intToBe_intFromBe (bytes : Bytes) : intToBe bytes.length (intFromBe bytes) = bytes := by
  have hlt := fromBe_lt bytes
  have hcast : ((256 ^ bytes.length : Nat) : Int) = 256 ^ bytes.length := by norm_cast
  have hmod : (intFromBe bytes % 256 ^ bytes.length).toNat = fromBe bytes := by
    rw [intFromBe]
    split
    · rw [Int.emod_eq_of_lt] <;> omega
    · rw [Int.sub_emod_right, Int.emod_eq_of_lt] <;> omega
  rw [intToBe, hmod, toBe_fromBe]

theorem intFromBe_bounds {width : Nat} {bytes : Bytes} (h : bytes.length = width + 1) :
    -(128 * 256 ^ width) ≤ intFromBe bytes ∧ intFromBe bytes < 128 * 256 ^ width := by
  have hlt := fromBe_lt bytes
  have hpow : 256 ^ bytes.length = 256 ^ width * 256 := by rw [h, pow_succ]
  have hcast : ((256 ^ width : Nat) : Int) = 256 ^ width := by norm_cast
  have hcast' : ((256 ^ bytes.length : Nat) : Int) = 256 ^ bytes.length := by norm_cast
  rw [intFromBe]
  split <;> omega

theorem intFromBe_intToBe {width : Nat} {n : Int} (hlow : -(256 ^ width : Nat) ≤ 2 * n)
    (hhigh : 2 * n < (256 ^ width : Nat)) : intFromBe (intToBe width n) = n := by
  have hpos : 0 < 256 ^ width := Nat.pow_pos (by decide)
  have hcast : (256 : Int) ^ width = (256 ^ width : Nat) := by norm_cast
  rw [intFromBe, intToBe, length_toBe, hcast, fromBe_toBe]
  · rcases lt_or_ge n 0 with hneg | hnonneg
    · have hmod : n % (256 ^ width : Nat) = n + (256 ^ width : Nat) := by
        rw [← Int.add_emod_right, Int.emod_eq_of_lt] <;> omega
      rw [hmod]
      split <;> omega
    · have hmod : n % (256 ^ width : Nat) = n := Int.emod_eq_of_lt hnonneg (by omega)
      rw [hmod]
      split <;> omega
  · have := Int.emod_lt_of_pos n (b := (256 ^ width : Nat)) (by omega)
    have := Int.emod_nonneg n (b := (256 ^ width : Nat)) (by omega)
    omega

end Gqlforge.BigEndian
