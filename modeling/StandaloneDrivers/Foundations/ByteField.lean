import StandaloneDrivers.Foundations.Bytes
import Mathlib.Algebra.CharP.Two
import Mathlib.Algebra.Field.ZMod
import Mathlib.Data.ZMod.Basic
import Mathlib.RingTheory.AdjoinRoot

/-! Bytes as the elements of a field of 256 elements: polynomials over the field of two elements,
modulo `X ^ 8 + X ^ 4 + X ^ 3 + X + 1`. -/
namespace Foundations
open Polynomial

/-- The product with `X`. -/
def xtime (a : UInt8) : UInt8 := a <<< 1 ^^^ if a &&& 0x80 = 0 then 0 else 0x1b

/-- The product of two bytes, from the multiples of the first for the bits of the second. -/
def gfMul (a b : UInt8) : UInt8 :=
  (List.range 8).foldl (fun sum i => if b.toNat.testBit i then sum ^^^ xtime^[i] a else sum) 0

noncomputable def gfModulus : (ZMod 2)[X] := X ^ 8 + X ^ 4 + X ^ 3 + X + 1

abbrev GF256 : Type := AdjoinRoot gfModulus

noncomputable def bytePoly (a : UInt8) : (ZMod 2)[X] :=
  ∑ i ∈ Finset.range 8, C (if a.toNat.testBit i then 1 else 0) * X ^ i

noncomputable def toField (a : UInt8) : GF256 := AdjoinRoot.mk gfModulus (bytePoly a)

theorem bytePoly_coeff (a : UInt8) (n : ℕ) :
    (bytePoly a).coeff n = if n < 8 ∧ a.toNat.testBit n then 1 else 0 := by
  simp only [bytePoly, finsetSum_coeff, coeff_C_mul, coeff_X_pow, mul_ite, mul_one, mul_zero,
    Finset.sum_ite_eq, Finset.mem_range]
  split <;> simp [*]

theorem bytePoly_xor (a b : UInt8) : bytePoly (a ^^^ b) = bytePoly a + bytePoly b := by
  ext n
  simp only [coeff_add, bytePoly_coeff, UInt8.toNat_xor, Nat.testBit_xor]
  by_cases hn : n < 8
  · cases a.toNat.testBit n <;> cases b.toNat.testBit n <;> simp [hn]
    exact (CharTwo.add_self_eq_zero 1).symm
  · simp [hn]

theorem bytePoly_injective : Function.Injective bytePoly := by
  intro a b h
  apply UInt8.toNat_inj.mp
  apply Nat.eq_of_testBit_eq
  intro n
  by_cases hn : n < 8
  · have hcoeff := congrArg (coeff · n) h
    simp only [bytePoly_coeff, hn, true_and] at hcoeff
    cases ha : a.toNat.testBit n <;> cases hb : b.toNat.testBit n <;> simp_all
  · have hpow : 2 ^ 8 ≤ 2 ^ n := Nat.pow_le_pow_right (by decide) (by omega)
    rw [Nat.testBit_lt_two_pow (a.toNat_lt.trans_le hpow),
      Nat.testBit_lt_two_pow (b.toNat_lt.trans_le hpow)]

theorem gfModulus_natDegree : gfModulus.natDegree = 8 := by
  rw [gfModulus]
  compute_degree!

theorem gfModulus_monic : gfModulus.Monic := by
  rw [gfModulus]
  monicity!

theorem bytePoly_degree (a : UInt8) : (bytePoly a).degree < gfModulus.degree := by
  rw [degree_eq_natDegree gfModulus_monic.ne_zero, gfModulus_natDegree, degree_lt_iff_coeff_zero]
  intro n hn
  rw [bytePoly_coeff, if_neg fun h => Nat.not_lt.mpr hn h.1]

/-- A field element comes from one byte only. -/
theorem toField_injective : Function.Injective toField := by
  intro a b h
  have hmod := congrArg (AdjoinRoot.modByMonicHom gfModulus_monic) h
  simp only [toField, AdjoinRoot.modByMonicHom_mk] at hmod
  rw [(modByMonic_eq_self_iff gfModulus_monic).mpr (bytePoly_degree a),
    (modByMonic_eq_self_iff gfModulus_monic).mpr (bytePoly_degree b)] at hmod
  exact bytePoly_injective hmod

@[simp] theorem toField_xor (a b : UInt8) : toField (a ^^^ b) = toField a + toField b := by
  rw [toField, bytePoly_xor, map_add]
  rfl

theorem testBit_shiftLeft_one (a : UInt8) (n : ℕ) :
    (a <<< 1).toNat.testBit n = (decide (n < 8) && (decide (1 ≤ n) && a.toNat.testBit (n - 1))) := by
  have hcount : (1 : UInt8).toNat % 8 = 1 := rfl
  rw [UInt8.toNat_shiftLeft, hcount, Nat.testBit_mod_two_pow, Nat.testBit_shiftLeft]

/-- Beyond the shift, the bit of `X ^ 8` remains. -/
theorem bytePoly_shiftLeft (a : UInt8) :
    X * bytePoly a = bytePoly (a <<< 1) + C (if a.toNat.testBit 7 then 1 else 0) * X ^ 8 := by
  ext n
  rw [coeff_add, coeff_C_mul, coeff_X_pow, bytePoly_coeff, testBit_shiftLeft_one]
  cases n with
  | zero => simp
  | succ n =>
    rw [coeff_X_mul, bytePoly_coeff]
    rcases Nat.lt_trichotomy n 7 with hlt | heq | hgt
    · have hne : ¬ n + 1 = 8 := by omega
      simp [hne, show n < 8 by omega, show n + 1 < 8 by omega]
    · simp [heq]
    · have hne : ¬ n + 1 = 8 := by omega
      simp [hne, show ¬ n < 8 by omega, show ¬ n + 1 < 8 by omega]

theorem bytePoly_reduction : bytePoly 0x1b = X ^ 4 + X ^ 3 + X + 1 := by
  simp [bytePoly, Finset.sum_range_succ, Nat.testBit]
  ring

theorem toField_reduction : toField 0x1b = AdjoinRoot.mk gfModulus (X ^ 8) := by
  have hsum : X ^ 8 + bytePoly 0x1b = gfModulus := by
    rw [bytePoly_reduction, gfModulus]
    ring
  have hpoly : bytePoly 0x1b = gfModulus + X ^ 8 := by
    rw [← hsum, add_comm (X ^ 8), add_assoc, CharTwo.add_self_eq_zero, add_zero]
  rw [toField, hpoly, map_add, AdjoinRoot.mk_self, zero_add]

theorem toField_xtime (a : UInt8) : toField (xtime a) = AdjoinRoot.root gfModulus * toField a := by
  have hbit : (a &&& 0x80 = 0) ↔ a.toNat.testBit 7 = false := by
    apply byte_cases (p := fun a => (a &&& 0x80 = 0) ↔ a.toNat.testBit 7 = false)
    decide +kernel
  have hshift : AdjoinRoot.root gfModulus * toField a =
      toField (a <<< 1) + if a.toNat.testBit 7 then toField 0x1b else 0 := by
    rw [toField, ← AdjoinRoot.mk_X, ← map_mul, bytePoly_shiftLeft, map_add, toField_reduction]
    split <;> simp [toField]
  rw [hshift, xtime, toField_xor]
  cases hb : a.toNat.testBit 7 with
  | false => simp [hbit.mpr hb, toField, bytePoly]
  | true =>
    have hset : ¬ a &&& 0x80 = 0 := fun h => by simp [hbit.mp h] at hb
    simp [hset]

theorem toField_zero : toField 0 = 0 := by simp [toField, bytePoly]

theorem toField_xtime_iterate (a : UInt8) (n : ℕ) :
    toField (xtime^[n] a) = AdjoinRoot.root gfModulus ^ n * toField a := by
  induction n with
  | zero => simp
  | succ n ih => rw [Function.iterate_succ_apply', toField_xtime, ih, pow_succ', mul_assoc]

theorem toField_eq_sum (b : UInt8) : toField b = ∑ i ∈ Finset.range 8,
    if b.toNat.testBit i then AdjoinRoot.root gfModulus ^ i else 0 := by
  simp only [toField, bytePoly, map_sum, map_mul, map_pow, AdjoinRoot.mk_X]
  apply Finset.sum_congr rfl
  intro i _
  split <;> simp

/-- Bytes are multiplied like field elements. -/
theorem toField_gfMul (a b : UInt8) : toField (gfMul a b) = toField a * toField b := by
  have hfold : ∀ n, toField ((List.range n).foldl
      (fun sum i => if b.toNat.testBit i then sum ^^^ xtime^[i] a else sum) 0) =
      toField a * ∑ i ∈ Finset.range n,
        if b.toNat.testBit i then AdjoinRoot.root gfModulus ^ i else 0 := by
    intro n
    induction n with
    | zero => simp [toField_zero]
    | succ n ih =>
      rw [List.range_succ, List.foldl_append, List.foldl_cons, List.foldl_nil,
        Finset.sum_range_succ, mul_add, ← ih]
      split
      · rw [toField_xor, toField_xtime_iterate, mul_comm (toField a)]
      · rw [mul_zero, add_zero]
  rw [gfMul, hfold, toField_eq_sum b]

end Foundations
