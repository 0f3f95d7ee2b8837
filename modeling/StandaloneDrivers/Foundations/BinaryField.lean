import Mathlib.Algebra.CharP.Two
import Mathlib.Algebra.Field.ZMod
import Mathlib.Data.ZMod.Basic
import Mathlib.RingTheory.AdjoinRoot

/-! Words as polynomials over the field of two elements, modulo `X ^ w` and a word of lower
coefficients. -/
namespace Foundations.BinaryField
open Polynomial
variable {w : ℕ}

/-- Bit `i` is the coefficient of `X ^ i`. -/
noncomputable def wordPoly (x : BitVec w) : (ZMod 2)[X] :=
  ∑ i ∈ Finset.range w, C (if x.getLsbD i then 1 else 0) * X ^ i

noncomputable def modulus (red : BitVec w) : (ZMod 2)[X] := X ^ w + wordPoly red

noncomputable def toRing (red x : BitVec w) : AdjoinRoot (modulus red) :=
  AdjoinRoot.mk (modulus red) (wordPoly x)

/-- A shift by one, reduced where a bit is shifted out. -/
def double (red x : BitVec w) : BitVec w := x <<< 1 ^^^ if x.msb then red else 0#w

theorem wordPoly_coeff (x : BitVec w) (n : ℕ) :
    (wordPoly x).coeff n = if x.getLsbD n then 1 else 0 := by
  simp only [wordPoly, finsetSum_coeff, coeff_C_mul, coeff_X_pow, mul_ite, mul_one, mul_zero,
    Finset.sum_ite_eq, Finset.mem_range]
  by_cases hn : n < w
  · rw [if_pos hn]
  · rw [if_neg hn, BitVec.getLsbD_of_ge _ _ (Nat.not_lt.mp hn)]
    rfl

theorem wordPoly_xor (x y : BitVec w) : wordPoly (x ^^^ y) = wordPoly x + wordPoly y := by
  ext n
  simp only [coeff_add, wordPoly_coeff, BitVec.getLsbD_xor]
  cases x.getLsbD n <;> cases y.getLsbD n <;> simp
  exact (CharTwo.add_self_eq_zero 1).symm

theorem wordPoly_zero : wordPoly 0#w = 0 := by
  ext n
  simp [wordPoly_coeff]

theorem wordPoly_injective : Function.Injective (@wordPoly w) := by
  intro x y h
  apply BitVec.eq_of_getLsbD_eq
  intro n _
  have hcoeff := congrArg (coeff · n) h
  simp only [wordPoly_coeff] at hcoeff
  cases hx : x.getLsbD n <;> cases hy : y.getLsbD n <;> simp_all

theorem wordPoly_degree (x : BitVec w) : (wordPoly x).degree < w := by
  rw [degree_lt_iff_coeff_zero]
  intro n hn
  rw [wordPoly_coeff, BitVec.getLsbD_of_ge _ _ hn]
  rfl

theorem modulus_monic (red : BitVec w) : (modulus red).Monic :=
  monic_X_pow_add (wordPoly_degree red)

theorem modulus_degree (red : BitVec w) : (modulus red).degree = w := by
  rw [modulus, degree_add_eq_left_of_degree_lt, degree_X_pow]
  rw [degree_X_pow]
  exact wordPoly_degree red

/-- An element of the quotient comes from one word only. -/
theorem toRing_injective (red : BitVec w) : Function.Injective (toRing red) := by
  intro x y h
  have hmod := congrArg (AdjoinRoot.modByMonicHom (modulus_monic red)) h
  simp only [toRing, AdjoinRoot.modByMonicHom_mk] at hmod
  rw [(modByMonic_eq_self_iff (modulus_monic red)).mpr
      ((modulus_degree red).symm ▸ wordPoly_degree x),
    (modByMonic_eq_self_iff (modulus_monic red)).mpr
      ((modulus_degree red).symm ▸ wordPoly_degree y)] at hmod
  exact wordPoly_injective hmod

theorem toRing_xor (red x y : BitVec w) : toRing red (x ^^^ y) = toRing red x + toRing red y := by
  rw [toRing, wordPoly_xor, map_add]
  rfl

/-- Beyond the shift, the highest bit remains. -/
theorem wordPoly_shiftLeft (x : BitVec w) :
    X * wordPoly x = wordPoly (x <<< 1) + C (if x.msb then 1 else 0) * X ^ w := by
  ext n
  rw [coeff_add, coeff_C_mul, coeff_X_pow, wordPoly_coeff, BitVec.getLsbD_shiftLeft]
  cases n with
  | zero =>
    cases w with
    | zero => simp [BitVec.msb_eq_getLsbD_last]
    | succ w => simp
  | succ n =>
    rw [coeff_X_mul, wordPoly_coeff]
    rcases Nat.lt_trichotomy (n + 1) w with hlt | heq | hgt
    · simp [hlt, Nat.ne_of_lt hlt]
    · subst heq
      simp [BitVec.msb_eq_getLsbD_last]
    · simp [Nat.not_lt.mpr (Nat.le_of_lt hgt), (Nat.ne_of_lt hgt).symm,
        BitVec.getLsbD_of_ge _ _ (Nat.le_of_lt_succ hgt)]

theorem toRing_reduction (red : BitVec w) :
    toRing red red = AdjoinRoot.mk (modulus red) (X ^ w) := by
  have hpoly : wordPoly red = modulus red + X ^ w := by
    rw [modulus, add_comm (X ^ w), add_assoc, CharTwo.add_self_eq_zero, add_zero]
  rw [toRing, hpoly, map_add, AdjoinRoot.mk_self, zero_add]

/-- Doubling is the product with `X`. -/
theorem toRing_double (red x : BitVec w) :
    toRing red (double red x) = AdjoinRoot.root (modulus red) * toRing red x := by
  have hshift : AdjoinRoot.root (modulus red) * toRing red x =
      toRing red (x <<< 1) + if x.msb then toRing red red else 0 := by
    rw [toRing, ← AdjoinRoot.mk_X, ← map_mul, wordPoly_shiftLeft, map_add, toRing_reduction]
    split <;> simp [toRing]
  rw [hshift, double, toRing_xor]
  cases x.msb with
  | false => simp [toRing, wordPoly_zero]
  | true => simp

end Foundations.BinaryField
