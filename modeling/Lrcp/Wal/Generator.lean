import Lrcp.Framework.Remainder
import Lrcp.Wal.Checksum
import Mathlib.Algebra.Field.ZMod
import Mathlib.Tactic.ComputeDegree

namespace Lrcp.Wal

open Lrcp.Framework Polynomial

/-- A bit as a coefficient. -/
def bitCoeff (b : Bool) : ZMod 2 := if b then 1 else 0

/-- The generator polynomial of CRC-32. -/
noncomputable def generator : (ZMod 2)[X] :=
  X ^ 32 + X ^ 26 + X ^ 23 + X ^ 22 + X ^ 16 + X ^ 12 + X ^ 11 + X ^ 10 + X ^ 8 + X ^ 7 + X ^ 5 +
    X ^ 4 + X ^ 2 + X + 1

/-- The polynomial of a register, whose lowest bit is the coefficient of `X ^ 31`. -/
noncomputable def registerPoly (r : BitVec 32) : (ZMod 2)[X] :=
  ∑ i ∈ Finset.range 32, C (bitCoeff (r.getLsbD (31 - i))) * X ^ i

/-- The polynomial of a message: its first bit is the highest coefficient. -/
noncomputable def messagePoly (payload : Bytes) : (ZMod 2)[X] :=
  sequencePoly ((messageBits payload).map bitCoeff)

section Register

variable {r s : BitVec 32} {b : Bool}

theorem coeff_registerPoly (r : BitVec 32) (k : Nat) :
    (registerPoly r).coeff k = if k < 32 then bitCoeff (r.getLsbD (31 - k)) else 0 := by
  simp [registerPoly, coeff_C_mul, coeff_X_pow]

theorem registerPoly_degree (r : BitVec 32) : (registerPoly r).degree < 32 := by
  apply (degree_lt_iff_coeff_zero _ 32).mpr
  intro k hk
  rw [coeff_registerPoly, if_neg (by omega)]

theorem bitCoeff_xor (a b : Bool) : bitCoeff (a ^^ b) = bitCoeff a + bitCoeff b := by
  revert a b
  decide

theorem registerPoly_xor : registerPoly (r ^^^ s) = registerPoly r + registerPoly s := by
  ext k
  simp only [coeff_add, coeff_registerPoly, BitVec.getLsbD_xor, bitCoeff_xor]
  split_ifs
  · rfl
  · rw [add_zero]

theorem registerPoly_bit : registerPoly ((BitVec.ofBool b).setWidth 32) = C (bitCoeff b) * X ^ 31 := by
  ext k
  rw [coeff_registerPoly, coeff_C_mul, coeff_X_pow]
  by_cases hk : k = 31
  · subst hk
    simp
  · split_ifs with h
    · have hbit : ((BitVec.ofBool b).setWidth 32).getLsbD (31 - k) = false := by
        simp [BitVec.getLsbD_setWidth, BitVec.getLsbD_ofBool]
        omega
      rw [hbit, mul_zero]
      rfl
    · simp

theorem generator_monic : generator.Monic := by
  unfold generator
  monicity!

theorem generator_degree : generator.degree = 32 := by
  unfold generator
  compute_degree!

theorem registerPoly_shift (x : BitVec 32) :
    X * registerPoly x = registerPoly (x >>> 1) + C (bitCoeff (x.getLsbD 0)) * X ^ 32 := by
  ext k
  rw [coeff_add, coeff_C_mul, coeff_X_pow, coeff_registerPoly, BitVec.getLsbD_ushiftRight]
  cases k with
  | zero =>
    rw [mul_coeff_zero, coeff_X_zero, zero_mul, BitVec.getLsbD_of_ge x _ (by omega)]
    simp [bitCoeff]
  | succ k =>
    rw [coeff_X_mul, coeff_registerPoly]
    by_cases h31 : k = 31
    · subst h31
      simp
    · by_cases hk : k + 1 < 32
      · rw [show 1 + (31 - (k + 1)) = 31 - k by omega]
        simp [hk, h31, show k < 32 by omega]
      · simp [hk, h31, show ¬k < 32 by omega]

/-- The constant of the code is the generator without its highest term. -/
theorem registerPoly_generator : registerPoly 0xEDB88320#32 + X ^ 32 = generator := by
  have hbits : (List.range 32).map (fun i => (0xEDB88320#32).getLsbD (31 - i)) =
      (List.range 32).map fun i => decide (i ∈ [26, 23, 22, 16, 12, 11, 10, 8, 7, 5, 4, 2, 1, 0]) := by
    decide
  have hbit : ∀ i ∈ Finset.range 32, C (bitCoeff ((0xEDB88320#32).getLsbD (31 - i))) * X ^ i =
      if i ∈ [26, 23, 22, 16, 12, 11, 10, 8, 7, 5, 4, 2, 1, 0] then (X : (ZMod 2)[X]) ^ i else 0 := by
    intro i hi
    have hsame := List.map_inj_left.mp hbits i (by simpa using hi)
    rw [hsame, bitCoeff]
    split_ifs <;> simp_all
  rw [registerPoly, Finset.sum_congr rfl hbit, generator]
  simp only [Finset.sum_range_succ, Finset.sum_range_zero]
  simp
  ring

/-- A step of the register multiplies by `X` and takes the bit in, up to a
multiple of the generator. -/
theorem generator_dvd_crcBit (r : BitVec 32) (b : Bool) :
    generator ∣ registerPoly (crcBit r b) - (X * registerPoly r + C (bitCoeff b) * X ^ 32) := by
  have hadd : ∀ p : (ZMod 2)[X], p + p = 0 := CharTwo.add_self_eq_zero
  have hx : X * registerPoly (r ^^^ (BitVec.ofBool b).setWidth 32) =
      X * registerPoly r + C (bitCoeff b) * X ^ 32 := by
    rw [registerPoly_xor, registerPoly_bit]
    ring
  rw [← hx, crcBit]
  generalize r ^^^ (BitVec.ofBool b).setWidth 32 = x
  rw [registerPoly_shift]
  cases hbit : x.getLsbD 0 with
  | false =>
    rw [crcStep_of_even _ hbit]
    simp [bitCoeff]
  | true =>
    rw [crcStep_of_odd _ hbit, registerPoly_xor]
    refine ⟨1, ?_⟩
    rw [← registerPoly_generator]
    simp only [bitCoeff, if_true, map_one, one_mul, mul_one]
    have hneg : -(X ^ 32 : (ZMod 2)[X]) = X ^ 32 := CharTwo.neg_eq _
    rw [add_sub_add_left_eq_sub, sub_eq_add_neg, hneg]

end Register

/-- The gateway's checksum is CRC-32: bit `i` is the complement of the coefficient
of `X ^ (31 - i)` in the remainder of the message, behind 32 set bits and followed
by 32 zeros, modulo the generator. It is what the table-driven algorithm of the
reader computes, and it is the same where `char` is signed. -/
theorem crc32_eq_remainder (payload : Bytes) :
    (∀ i < 32, (crc32 payload).getLsbD i = !decide
      ((((∑ k ∈ Finset.range 32, X ^ k) * X ^ (messageBits payload).length +
        messagePoly payload * X ^ 32) %ₘ generator).coeff (31 - i) = 1)) ∧
      crc32 payload = binasciiCrc32 payload ∧
      ~~~((payload.map UInt8.toInt8).foldl crcChar 0xFFFFFFFF#32) = crc32 payload := by
  refine ⟨fun i hi => ?_, crc32_eq_binasciiCrc32 payload, crc32_signed payload⟩
  have hones : registerPoly 0xFFFFFFFF#32 = ∑ k ∈ Finset.range 32, X ^ k := by
    apply Finset.sum_congr rfl
    intro k hk
    have hk' := Finset.mem_range.mp hk
    have hbit : (0xFFFFFFFF#32).getLsbD (31 - k) = true := by
      rw [show 0xFFFFFFFF#32 = BitVec.allOnes 32 by rfl, BitVec.getLsbD_allOnes]
      simp
      omega
    rw [hbit, bitCoeff, if_pos rfl, map_one, one_mul]
  have hdegree : ∀ r : BitVec 32, (registerPoly r).degree < generator.degree := by
    intro r
    rw [generator_degree]
    exact registerPoly_degree r
  have hdivision := register_remainder generator_monic hdegree generator_dvd_crcBit 0xFFFFFFFF#32
    (messageBits payload)
  rw [hones] at hdivision
  rw [messagePoly, ← hdivision, coeff_registerPoly, if_pos (by omega), crc32_eq_bits,
    BitVec.getLsbD_not, show 31 - (31 - i) = i by omega]
  cases (List.foldl crcBit 0xFFFFFFFF#32 (messageBits payload)).getLsbD i with
  | false => simp [bitCoeff, hi]
  | true => simp [bitCoeff]

end Lrcp.Wal
