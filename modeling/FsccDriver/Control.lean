import FsccDriver.Defines

/-! The descriptor control word: the FE, CSTOP and HI bits above a 29-bit count. -/

namespace FsccDriver

open Words

theorem and_descFeBit (c : Nat) : c &&& descFeBit = 0 ↔ c / 2147483648 % 2 = 0 :=
  and_bit_eq_zero_iff c 31

theorem and_descCstopBit (c : Nat) : c &&& descCstopBit = 0 ↔ c / 1073741824 % 2 = 0 :=
  and_bit_eq_zero_iff c 30

theorem and_descCstopBit_self (c : Nat) :
    c &&& descCstopBit = descCstopBit ↔ c / 1073741824 % 2 = 1 :=
  and_bit_eq_self_iff c 30

theorem and_descFeBit_self (c : Nat) : c &&& descFeBit = descFeBit ↔ c / 2147483648 % 2 = 1 :=
  and_bit_eq_self_iff c 31

-- A control word that had CSTOP put in, whatever else was put in later.
theorem or_descCstopBit_ne_zero (c e : Nat) : (c ||| descCstopBit ||| e) &&& descCstopBit ≠ 0 := by
  intro h
  rw [Nat.and_or_distrib_right, Nat.and_or_distrib_right, Nat.or_eq_zero_iff,
    Nat.or_eq_zero_iff] at h
  exact absurd h.1.2 (by decide)

theorem and_dmaMaxLength (c : Nat) : c &&& dmaMaxLength = c % 536870912 := and_low c 29

-- The control word of a descriptor that has just been filled.
theorem full_control {c : Nat} (hc : c < 1073741824) :
    c &&& not32 dmaMaxLength ||| descCstopBit = c / 536870912 * 536870912 + 1073741824 := by
  have hmask : c &&& not32 dmaMaxLength = c / 536870912 * 536870912 :=
    and_not_low (i := 29) (by omega) (by decide)
  rw [hmask]
  exact or_bit (i := 30) (by omega)

-- The control word of the last descriptor of a frame of `t` bytes.
theorem frame_control {t : Nat} (ht : t < 536870912) :
    t ||| descCstopBit ||| descFeBit = t + 1073741824 + 2147483648 := by
  have hcstop : t ||| descCstopBit = t + 1073741824 := or_bit (i := 30) (by omega)
  rw [hcstop]
  exact or_bit (i := 31) (by omega)

end FsccDriver
