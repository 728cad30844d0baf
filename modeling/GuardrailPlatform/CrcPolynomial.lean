import GuardrailPlatform.Crc
import Mathlib.Algebra.Polynomial.Div
import Mathlib.Algebra.Field.ZMod
import Mathlib.Data.ZMod.Basic

/-!
# Checksums as remainders

Read as polynomials over the field of two elements, a register that has taken in
a dividend holds its remainder: the checksum of a message is the remainder of
the message times `X ^ w` on division by the generator.
-/

namespace Crc

open Polynomial

variable {w : ℕ}

def coefficient (b : Bool) : ZMod 2 := if b then 1 else 0

/-- The polynomial of a register, the lowest place its constant. -/
noncomputable def ofRegister (r : BitVec w) : (ZMod 2)[X] :=
  ∑ i ∈ Finset.range w, C (coefficient (r.getLsbD i)) * X ^ i

/-- The polynomial of a message, its first bit the highest coefficient. -/
noncomputable def ofBits (bits : List Bool) : (ZMod 2)[X] :=
  bits.foldl (fun p b => X * p + C (coefficient b)) 0

/-- The divisor: its highest coefficient is not written in the register. -/
noncomputable def generator (poly : BitVec w) : (ZMod 2)[X] := X ^ w + ofRegister poly

theorem coefficient_xor (a b : Bool) : coefficient (a ^^ b) = coefficient a + coefficient b := by
  cases a <;> cases b <;> decide

/-- A register's bits are the coefficients of its polynomial, the lowest bit first. -/
theorem coeff_ofRegister (r : BitVec w) (i : ℕ) :
    (ofRegister r).coeff i = coefficient (r.getLsbD i) := by
  rw [ofRegister, finsetSum_coeff]
  simp only [coeff_C_mul_X_pow]
  by_cases hi : i < w
  · rw [Finset.sum_ite_eq, if_pos (Finset.mem_range.mpr hi)]
  · rw [Finset.sum_ite_eq, if_neg (by simpa using hi), BitVec.getLsbD_of_ge r i (by omega)]
    rfl

theorem ofRegister_xor (a b : BitVec w) : ofRegister (a ^^^ b) = ofRegister a + ofRegister b := by
  ext i
  rw [coeff_add, coeff_ofRegister, coeff_ofRegister, coeff_ofRegister, BitVec.getLsbD_xor,
    coefficient_xor]

theorem ofRegister_zero : ofRegister 0#w = 0 := by
  ext i
  rw [coeff_ofRegister, BitVec.getLsbD_zero, coeff_zero]
  rfl

/-- A register is a remainder: the degree of its polynomial is below its width. -/
theorem degree_ofRegister (r : BitVec w) : (ofRegister r).degree < w := by
  rw [degree_lt_iff_coeff_zero]
  intro i hi
  rw [coeff_ofRegister, BitVec.getLsbD_of_ge r i hi]
  rfl

/-- The generator has a leading one that the register does not store. -/
theorem generator_monic (poly : BitVec w) : (generator poly).Monic :=
  monic_X_pow_add (degree_ofRegister poly)

theorem degree_generator (poly : BitVec w) : (generator poly).degree = w := by
  rw [generator, degree_add_eq_left_of_degree_lt] <;> rw [degree_X_pow]
  exact degree_ofRegister poly

/-- Moving a register up is multiplying by `X`, but for the bit that leaves at the top. -/
theorem X_mul_ofRegister (hw : 0 < w) (r : BitVec w) :
    X * ofRegister r = ofRegister (r <<< 1) + C (coefficient r.msb) * X ^ w := by
  ext i
  rw [coeff_add, coeff_ofRegister, coeff_C_mul_X_pow, BitVec.getLsbD_shiftLeft]
  cases i with
  | zero =>
      rw [coeff_X_mul_zero, if_neg (by omega), add_zero]
      simp [coefficient]
  | succ i =>
      rw [coeff_X_mul, coeff_ofRegister]
      by_cases hi : i + 1 = w
      · have hmsb : r.msb = r.getLsbD i := by
          rw [BitVec.msb_eq_getLsbD_last]
          congr 1
          omega
        rw [if_pos hi, hmsb]
        simp [hi, coefficient]
      · rw [if_neg hi, add_zero]
        by_cases hlt : i + 1 < w
        · simp [hlt]
        · rw [BitVec.getLsbD_of_ge r i (by omega)]
          simp [hlt]

/-- A shift of the register is multiplying by `X`, up to a multiple of the divisor. -/
theorem X_mul_ofRegister_eq_shift (hw : 0 < w) (poly r : BitVec w) :
    X * ofRegister r = ofRegister (shift poly r) + generator poly * C (coefficient r.msb) := by
  rw [X_mul_ofRegister hw, shift, ofRegister_xor, generator]
  cases r.msb with
  | false => simp [coefficient, ofRegister_zero]
  | true =>
      have htwice : ofRegister poly + ofRegister poly = 0 := CharTwo.add_self_eq_zero _
      simp only [if_true, coefficient, map_one, one_mul, mul_one]
      calc ofRegister (r <<< 1) + X ^ w
          = ofRegister (r <<< 1) + X ^ w + (ofRegister poly + ofRegister poly) := by
            rw [htwice, add_zero]
        _ = ofRegister (r <<< 1) + ofRegister poly + (X ^ w + ofRegister poly) := by ring

/-- A register with one bit at the bottom is a constant polynomial, that bit's coefficient.
-/
theorem ofRegister_bottom (hw : 0 < w) (b : Bool) :
    ofRegister (bottom b : BitVec w) = C (coefficient b) := by
  cases b with
  | false =>
      rw [bottom, if_neg Bool.false_ne_true, ofRegister_zero]
      simp [coefficient]
  | true =>
      ext i
      rw [coeff_ofRegister, bottom, if_pos rfl, BitVec.getLsbD_one, coeff_C]
      by_cases hi : i = 0 <;> simp [hi, hw, coefficient]

/-- A further bit of a message multiplies its polynomial by `X` and adds the bit. -/
theorem ofBits_concat (bits : List Bool) (b : Bool) :
    ofBits (bits ++ [b]) = X * ofBits bits + C (coefficient b) := by
  rw [ofBits, List.foldl_append]
  rfl

/-- The register holds, up to a multiple of the divisor, the remainder of the bits that have
come in. -/
theorem ofBits_eq_divide (hw : 0 < w) (poly : BitVec w) (bits : List Bool) :
    ∃ q, ofRegister (divide poly 0#w bits) + generator poly * q = ofBits bits := by
  induction bits using List.reverseRecOn with
  | nil =>
      refine ⟨0, ?_⟩
      rw [mul_zero, add_zero]
      exact ofRegister_zero
  | append_singleton bits b ih =>
      obtain ⟨q, hq⟩ := ih
      have hdivide : divide poly 0#w (bits ++ [b]) =
          shift poly (divide poly 0#w bits) ^^^ bottom b := by
        rw [divide, List.foldl_append]
        rfl
      refine ⟨C (coefficient (divide poly 0#w bits).msb) + X * q, ?_⟩
      rw [ofBits_concat, ← hq, hdivide, ofRegister_xor, ofRegister_bottom hw, mul_add X,
        X_mul_ofRegister_eq_shift hw poly]
      ring

/-- Zeros behind a message multiply its polynomial by as many powers of `X`. -/
theorem ofBits_append_zeros (bits : List Bool) (n : ℕ) :
    ofBits (bits ++ List.replicate n false) = ofBits bits * X ^ n := by
  induction n with
  | zero => simp
  | succ n ih =>
      rw [List.replicate_succ', ← List.append_assoc, ofBits_concat, ih, coefficient,
        if_neg Bool.false_ne_true, map_zero, add_zero, pow_succ]
      ring

/-- **Remainders.** The checksum is the remainder of the message, moved up by the width,
under the divisor. -/
theorem ofRegister_checksum (hw : 0 < w) (poly : BitVec w) (message : List Bool) :
    ofRegister (checksum poly message) = (ofBits message * X ^ w) %ₘ generator poly := by
  obtain ⟨q, hq⟩ := ofBits_eq_divide hw poly (message ++ List.replicate w false)
  rw [ofBits_append_zeros] at hq
  have hdegree : (ofRegister (checksum poly message)).degree < (generator poly).degree := by
    rw [degree_generator]
    exact degree_ofRegister _
  exact (div_modByMonic_unique q _ (generator_monic poly) ⟨hq, hdegree⟩).2.symm

end Crc
