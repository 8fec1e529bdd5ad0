import Mathlib.Data.Nat.Bitwise
import Mathlib.Tactic.Ring

/-!
# Words — 32-bit C arithmetic on `Nat` and `Int`

C computes `unsigned` expressions modulo `2 ^ 32` and keeps an `int` as the signed reading of the
same 32 bits.  `u32` and `i32` are these two conversions; the rest of the module reads the masks a
driver applies to a word (`&`, `|`, `~`) as arithmetic, so that `omega` can follow them.
-/

namespace Words

/-! ## Conversions -/

/-- The `unsigned` value of an integer expression. -/
def u32 (x : Int) : Nat := (x % 4294967296).toNat

/-- The `int` that has the same 32 bits as an `unsigned` value. -/
def i32 (x : Nat) : Int := if x < 2147483648 then x else (x : Int) - 4294967296

/-- An `int` where a `SIZE_T` is asked for: 64 bits, the sign extended. -/
def sizeT (x : Int) : Nat := (x % 18446744073709551616).toNat

theorem u32_lt (x : Int) : u32 x < 4294967296 := by
  unfold u32
  omega

theorem u32_le (x : Nat) : u32 x ≤ x := by
  unfold u32
  omega

theorem u32_of_nat {x : Nat} (h : x < 4294967296) : u32 x = x := by
  unfold u32
  omega

theorem u32_sub_of_le {a b : Nat} (ha : a < 4294967296) (h : b ≤ a) :
    u32 ((a : Int) - b) = a - b := by
  unfold u32
  omega

theorem u32_add_of_lt {a b : Nat} (h : a + b < 4294967296) : u32 ((a : Int) + b) = a + b := by
  unfold u32
  omega

theorem i32_of_lt {x : Nat} (h : x < 2147483648) : i32 x = x := if_pos h

theorem i32_ne_zero {x : Nat} (hpos : 0 < x) (h : x < 4294967296) : i32 x ≠ 0 := by
  unfold i32
  split <;> omega

theorem i32_neg {x : Nat} (hle : 2147483648 ≤ x) (h : x < 4294967296) : i32 x < 0 := by
  rw [i32, if_neg (by omega)]
  omega

-- Through an `int` and back.
theorem u32_i32 {x : Nat} (h : x < 4294967296) : u32 (i32 x) = x := by
  unfold u32 i32
  split <;> omega

theorem sizeT_i32 {x : Nat} (h : x < 2147483648) : sizeT (i32 x) = x := by
  rw [i32_of_lt h, sizeT]
  omega

/-- The bitwise complement of a 32-bit word. -/
def not32 (x : Nat) : Nat := 4294967295 - x

/-! ## Masks -/

theorem and_low (x i : Nat) : x &&& (2 ^ i - 1) = x % 2 ^ i := Nat.and_two_pow_sub_one_eq_mod x i

theorem and_bit (x i : Nat) : x &&& 2 ^ i = x / 2 ^ i % 2 * 2 ^ i := by
  rw [Nat.and_two_pow, Nat.toNat_testBit]

/-- A bit test reads one binary digit. -/
theorem and_bit_eq_zero_iff (x i : Nat) : x &&& 2 ^ i = 0 ↔ x / 2 ^ i % 2 = 0 := by
  rw [and_bit, Nat.mul_eq_zero]
  have hpow := Nat.two_pow_pos i
  omega

theorem and_bit_eq_self_iff (x i : Nat) : x &&& 2 ^ i = 2 ^ i ↔ x / 2 ^ i % 2 = 1 := by
  rw [and_bit]
  have hpow := Nat.two_pow_pos i
  rcases Nat.mod_two_eq_zero_or_one (x / 2 ^ i) with h | h <;> rw [h] <;> omega

/-- Setting a bit that is clear adds its weight. -/
theorem or_bit {x i : Nat} (h : x / 2 ^ i % 2 = 0) : x ||| 2 ^ i = x + 2 ^ i := by
  have hlow : x % 2 ^ i < 2 ^ i := Nat.mod_lt _ (Nat.two_pow_pos i)
  have hx : 2 ^ i * (x / 2 ^ i) ||| x % 2 ^ i = x := by
    rw [← Nat.two_pow_add_eq_or_of_lt hlow, Nat.div_add_mod]
  have hone : x / 2 ^ i ||| 1 = x / 2 ^ i + 1 := by
    have h2 : x / 2 ^ i = 2 ^ 1 * (x / 2 ^ i / 2) := by omega
    rw [h2, ← Nat.two_pow_add_eq_or_of_lt (by decide)]
  calc x ||| 2 ^ i
      = (2 ^ i * (x / 2 ^ i) ||| x % 2 ^ i) ||| 2 ^ i := by rw [hx]
    _ = (2 ^ i * (x / 2 ^ i) ||| 2 ^ i * 1) ||| x % 2 ^ i := by
        rw [Nat.mul_one, Nat.or_assoc, Nat.or_comm (x % 2 ^ i), ← Nat.or_assoc]
    _ = 2 ^ i * (x / 2 ^ i ||| 1) ||| x % 2 ^ i := by
        simp only [Nat.mul_comm (2 ^ i), ← Nat.shiftLeft_eq, Nat.shiftLeft_or_distrib]
    _ = 2 ^ i * (x / 2 ^ i + 1) + x % 2 ^ i := by
        rw [hone, Nat.two_pow_add_eq_or_of_lt hlow]
    _ = x + 2 ^ i := by
        rw [Nat.mul_add, Nat.mul_one, Nat.add_right_comm, Nat.div_add_mod]

/-- Masking away the low bits of a 32-bit word. -/
theorem and_not_low {x i : Nat} (hx : x < 4294967296) (hi : i ≤ 32) :
    x &&& not32 (2 ^ i - 1) = x / 2 ^ i * 2 ^ i := by
  have hpow : 2 ^ i * 2 ^ (32 - i) = 4294967296 := by
    rw [← Nat.pow_add, Nat.add_sub_cancel' hi]
  have hmask : not32 (2 ^ i - 1) = (2 ^ (32 - i) - 1) <<< i := by
    have hpos := Nat.two_pow_pos i
    rw [not32, Nat.shiftLeft_eq, Nat.sub_mul, Nat.mul_comm, hpow]
    omega
  have hhigh : x / 2 ^ i &&& (2 ^ (32 - i) - 1) = x / 2 ^ i := by
    rw [and_low]
    exact Nat.mod_eq_of_lt (Nat.div_lt_of_lt_mul (by rw [hpow]; exact hx))
  apply Nat.eq_of_testBit_eq
  intro j
  rw [hmask, ← Nat.shiftLeft_eq, ← hhigh]
  simp only [Nat.testBit_and, Nat.testBit_shiftLeft, Nat.testBit_div_two_pow]
  by_cases hj : i ≤ j
  · rw [Nat.sub_add_cancel hj]
    simp [hj]
  · simp [hj]

end Words
