import StandaloneDrivers.Foundations.ByteField
import Mathlib.LinearAlgebra.Matrix.Notation
import Mathlib.Tactic.FinCases
import Mathlib.Tactic.LinearCombination

/-! The block cipher AES with a key of 128 bits, over an S-box. The state has its bytes in
columns. -/
namespace Foundations.Aes

abbrev State : Type := Matrix (Fin 4) (Fin 4) UInt8

/-- The bytes of a block, column by column. -/
def ofBlock (b : Vector UInt8 16) : State := fun r c => b[r.val + 4 * c.val]

def toBlock (s : State) : Vector UInt8 16 :=
  Vector.ofFn fun i => s (Fin.ofNat 4 i.val) (Fin.ofNat 4 (i.val / 4))

/-- The coefficients 2, 3, 1, 1, from the diagonal on. -/
def mixMatrix : Matrix (Fin 4) (Fin 4) UInt8 :=
  !![2, 3, 1, 1; 1, 2, 3, 1; 1, 1, 2, 3; 3, 1, 1, 2]

/-- The product of the matrix and a column. -/
def mixColumn (column : Fin 4 → UInt8) : Fin 4 → UInt8 := fun r =>
  gfMul (mixMatrix r 0) (column 0) ^^^ gfMul (mixMatrix r 1) (column 1) ^^^
    gfMul (mixMatrix r 2) (column 2) ^^^ gfMul (mixMatrix r 3) (column 3)

section
variable (sBox : UInt8 → UInt8)

def subBytes (s : State) : State := s.map sBox

/-- Row `r` is rotated by `r` places. -/
def shiftRows (s : State) : State := fun r c => s r (c + r)

def mixColumns (s : State) : State := fun r c => mixColumn (fun i => s i c) r

/-- The constant of a round, from 1 on. -/
def rcon (i : ℕ) : UInt8 := xtime^[i - 1] 1

def rotWord (w : Fin 4 → UInt8) : Fin 4 → UInt8 := fun i => w (i + 1)

/-- The words of the expanded key. -/
def keyWord (key : Vector UInt8 16) : ℕ → Fin 4 → UInt8
  | 0 => fun i => key[i.val]
  | 1 => fun i => key[4 + i.val]
  | 2 => fun i => key[8 + i.val]
  | 3 => fun i => key[12 + i.val]
  | n + 4 =>
    let temp := keyWord key (n + 3)
    let temp := if (n + 4) % 4 = 0 then
      fun i => sBox (rotWord temp i) ^^^ (if i = 0 then rcon ((n + 4) / 4) else 0)
    else temp
    fun i => keyWord key n i ^^^ temp i

/-- Four words of the expanded key are the columns of a round key. -/
def roundKey (key : Vector UInt8 16) (round : ℕ) : State := fun r c =>
  keyWord sBox key (4 * round + c) r

def addRoundKey (key : Vector UInt8 16) (round : ℕ) (s : State) : State := fun r c =>
  s r c ^^^ roundKey sBox key round r c

def round (key : Vector UInt8 16) (s : State) (round : ℕ) : State :=
  addRoundKey sBox key round (mixColumns (shiftRows (subBytes sBox s)))

def cipher (key input : Vector UInt8 16) : Vector UInt8 16 :=
  let s := (List.range' 1 9).foldl (round sBox key) (addRoundKey sBox key 0 (ofBlock input))
  toBlock (addRoundKey sBox key 10 (shiftRows (subBytes sBox s)))

end

section Schedule
variable (sBox : UInt8 → UInt8) (key : Vector UInt8 16)

theorem roundKey_zero : roundKey sBox key 0 = ofBlock key := by
  funext r c
  match c with
  | 0 => rfl
  | 1 => simp [roundKey, keyWord, ofBlock, Nat.add_comm]
  | 2 => simp [roundKey, keyWord, ofBlock, Nat.add_comm]
  | 3 => simp [roundKey, keyWord, ofBlock, Nat.add_comm]

/-- The first word of a round key comes from the last one through the S-box. -/
theorem roundKey_first (k : ℕ) (r : Fin 4) : roundKey sBox key (k + 1) r 0 =
    roundKey sBox key k r 0 ^^^
      (sBox (roundKey sBox key k (r + 1) 3) ^^^ if r = 0 then rcon (k + 1) else 0) := by
  have hmod : (4 * k + 4) % 4 = 0 := by omega
  have hdiv : (4 * k + 4) / 4 = k + 1 := by omega
  have hindex : 4 * (k + 1) + (0 : Fin 4).val = 4 * k + 4 := rfl
  simp only [roundKey, hindex, keyWord, hmod, hdiv, if_true, rotWord]
  rfl

theorem roundKey_next (k : ℕ) (r c : Fin 4) (hc : c ≠ 0) : roundKey sBox key (k + 1) r c =
    roundKey sBox key k r c ^^^ roundKey sBox key (k + 1) r (c - 1) := by
  have hpos : 0 < c.val := Nat.pos_of_ne_zero fun h => hc (Fin.ext h)
  have hmod : ¬ (4 * k + c.val + 4) % 4 = 0 := by omega
  have hindex : 4 * (k + 1) + c.val = 4 * k + c.val + 4 := by omega
  have hpred : 4 * (k + 1) + (c - 1).val = 4 * k + c.val + 3 := by
    rw [Fin.val_sub_one_of_ne_zero hc]
    omega
  simp only [roundKey, hindex, hpred, keyWord, if_neg hmod]

end Schedule

theorem toBlock_ofBlock (b : Vector UInt8 16) : toBlock (ofBlock b) = b := by
  apply Vector.ext
  intro i hi
  simp only [toBlock, ofBlock, Vector.getElem_ofFn, Fin.ofNat]
  congr 1
  omega

/-- In the field the columns are mixed by the matrix. -/
theorem toField_mixColumn (column : Fin 4 → UInt8) :
    (fun r => toField (mixColumn column r)) =
      (mixMatrix.map toField).mulVec fun r => toField (column r) := by
  funext r
  simp only [mixColumn, toField_xor, toField_gfMul, Matrix.mulVec, dotProduct, Matrix.map_apply,
    Fin.sum_univ_four]

section Inverse
open AdjoinRoot

theorem toField_one : toField 1 = 1 := by
  simp [toField, bytePoly, Finset.sum_range_succ, Nat.testBit]

theorem toField_two : toField 2 = root gfModulus := by
  simp [toField, bytePoly, Finset.sum_range_succ, Nat.testBit]

theorem toField_three : toField 3 = root gfModulus + 1 := by
  simp [toField, bytePoly, Finset.sum_range_succ, Nat.testBit]
  ring

theorem two_eq_zero : (2 : GF256) = 0 := by
  rw [← map_ofNat (AdjoinRoot.of gfModulus) 2]
  exact map_zero _

theorem four_eq_zero : (4 : GF256) = 0 := by
  linear_combination 2 * two_eq_zero

theorem mixMatrix_sq {x : GF256} (hx : root gfModulus = x) :
    mixMatrix.map toField * mixMatrix.map toField =
      !![x ^ 2 + 1, 0, x ^ 2, 0; 0, x ^ 2 + 1, 0, x ^ 2; x ^ 2, 0, x ^ 2 + 1, 0;
        0, x ^ 2, 0, x ^ 2 + 1] := by
  have hthree : (3 : GF256) = 1 := by linear_combination two_eq_zero
  ext i j
  fin_cases i <;> fin_cases j <;>
    simp [mixMatrix, Matrix.mul_apply, Fin.sum_univ_four, toField_one, toField_two,
      toField_three, hx]
  all_goals ring_nf
  all_goals simp [two_eq_zero, four_eq_zero, hthree]

/-- Mixing the columns four times gives them back. -/
theorem mixMatrix_four : mixMatrix.map toField * mixMatrix.map toField *
    (mixMatrix.map toField * mixMatrix.map toField) = 1 := by
  rw [mixMatrix_sq rfl]
  ext i j
  fin_cases i <;> fin_cases j <;> simp [Matrix.mul_apply, Fin.sum_univ_four]
  all_goals ring_nf
  all_goals simp [two_eq_zero]

theorem mixColumn_injective : Function.Injective mixColumn := by
  intro a b h
  have hmul : (mixMatrix.map toField).mulVec (fun r => toField (a r)) =
      (mixMatrix.map toField).mulVec fun r => toField (b r) := by
    rw [← toField_mixColumn, ← toField_mixColumn, h]
  have hback : ∀ c : Fin 4 → UInt8, (mixMatrix.map toField * mixMatrix.map toField *
      mixMatrix.map toField).mulVec ((mixMatrix.map toField).mulVec fun r => toField (c r)) =
      fun r => toField (c r) := by
    intro c
    rw [Matrix.mulVec_mulVec, Matrix.mul_assoc _ (mixMatrix.map toField), mixMatrix_four,
      Matrix.one_mulVec]
  have heq : (fun r => toField (a r)) = fun r => toField (b r) := by
    rw [← hback a, hmul, hback b]
  funext r
  exact toField_injective (congrFun heq r)

theorem mixColumns_injective : Function.Injective mixColumns := by
  intro s t h
  funext r c
  exact congrFun (mixColumn_injective (funext fun i => congrFun (congrFun h i) c)) r

theorem shiftRows_injective : Function.Injective shiftRows := by
  intro s t h
  funext r c
  have hplace : s r (c - r + r) = t r (c - r + r) := congrFun (congrFun h r) (c - r)
  rwa [sub_add_cancel] at hplace

theorem ofBlock_toBlock (s : State) : ofBlock (toBlock s) = s := by
  funext r c
  simp only [ofBlock, toBlock, Vector.getElem_ofFn, Fin.ofNat]
  congr 1
  · apply Fin.ext
    show (r.val + 4 * c.val) % 4 = r.val
    omega
  · apply Fin.ext
    show (r.val + 4 * c.val) / 4 % 4 = c.val
    omega

variable {sBox : UInt8 → UInt8} (hbox : Function.Injective sBox) (key : Vector UInt8 16)

theorem addRoundKey_injective (round : ℕ) : Function.Injective (addRoundKey sBox key round) := by
  intro s t h
  funext r c
  exact (UInt8.xor_left_inj _).mp (congrFun (congrFun h r) c)

include hbox

theorem subBytes_injective : Function.Injective (subBytes sBox) :=
  Matrix.map_injective hbox

theorem round_injective (n : ℕ) : Function.Injective fun s => round sBox key s n :=
  (addRoundKey_injective key n).comp
    (mixColumns_injective.comp (shiftRows_injective.comp (subBytes_injective hbox)))

theorem rounds_injective (ns : List ℕ) :
    Function.Injective fun s => ns.foldl (round sBox key) s := by
  induction ns with
  | nil => exact Function.injective_id
  | cons n ns ih => exact ih.comp (round_injective hbox key n)

/-- Under a key, different blocks are enciphered differently. -/
theorem cipher_injective : Function.Injective (cipher sBox key) := by
  have hblock : Function.Injective toBlock := Function.LeftInverse.injective ofBlock_toBlock
  have hinput : Function.Injective ofBlock := Function.LeftInverse.injective toBlock_ofBlock
  intro a b h
  simp only [cipher] at h
  have hlast := shiftRows_injective (addRoundKey_injective key 10 (hblock h))
  have hrounds := rounds_injective hbox key _ (subBytes_injective hbox hlast)
  exact hinput (addRoundKey_injective key 0 hrounds)

end Inverse
end Foundations.Aes
