import StandaloneDrivers.Foundations.Cmac
import StandaloneDrivers.Rt5572.CcmpBlocks
import StandaloneDrivers.Rt5572.CryptModes

/-! The code of crypt_aes.c with two subkeys is the CMAC of the message. -/
namespace Rt5572
open Foundations
open Cmac (blockBits blockBits_getLsbD blockBits_injective blockBits_bitsBlock)
open Rtl8188eu (sbox)

section Shift

theorem topBit_eq (a : UInt8) : topBit a = a >>> 7 := by
  apply byte_cases (p := fun a => topBit a = a >>> 7)
  decide +kernel

theorem byteOf_eq (b : CipherBlock) {i : ℕ} (hi : i < 16) : byteOf b i = b[i] := by
  rw [byteOf, List.getD_eq_getElem _ _ (by rwa [Vector.length_toList]), Vector.getElem_toList]

/-- The bits of a byte that is shifted with the top bit of the next one. -/
theorem shifted_getLsbD (a c : UInt8) {i : ℕ} (hi : i < 8) :
    (a <<< 1 ||| topBit c).toBitVec.getLsbD i =
      if i = 0 then c.toBitVec.getLsbD 7 else a.toBitVec.getLsbD (i - 1) := by
  rw [topBit_eq]
  cases i with
  | zero => simp
  | succ i =>
    have hhigh : c.toBitVec.getLsbD (7 + (i + 1)) = false := BitVec.getLsbD_of_ge _ _ (by omega)
    simp [hi, hhigh]
    rw [BitVec.getLsbD_eq_getElem]

/-- Each byte is read before it is written, and the one behind it too. -/
theorem shiftInPlace_run (b : CipherBlock) {k : ℕ} (hk : k ≤ 15) {j : ℕ} (hj : j < 16) :
    ((List.range k).foldl (fun s index => s.setIfInBounds index (shiftedByte s index)) b)[j] =
      if j < k then shiftedByte b j else b[j] := by
  induction k generalizing j with
  | zero => rfl
  | succ k ih =>
    have hbyte : ∀ i, i < 16 → k ≤ i → byteOf ((List.range k).foldl
        (fun s index => s.setIfInBounds index (shiftedByte s index)) b) i = byteOf b i := by
      intro i hi hle
      rw [byteOf_eq _ hi, byteOf_eq _ hi, ih (by omega) hi, if_neg (by omega)]
    rw [List.range_succ, List.foldl_append, List.foldl_cons, List.foldl_nil,
      Vector.getElem_setIfInBounds]
    split
    · rename_i heq
      subst heq
      rw [if_pos (by omega), shiftedByte, shiftedByte, hbyte k (by omega) (Nat.le_refl k),
        hbyte (k + 1) (by omega) (by omega)]
    · rename_i hne
      rw [ih (by omega) hj]
      by_cases hlt : j < k
      · rw [if_pos hlt, if_pos (by omega)]
      · rw [if_neg hlt, if_neg (by omega)]

theorem shiftInto_run (b subKey2 : CipherBlock) {k : ℕ} (hk : k ≤ 15) {j : ℕ} (hj : j < 16) :
    ((List.range k).foldl (fun s index => s.setIfInBounds index (shiftedByte b index)) subKey2)[j] =
      if j < k then shiftedByte b j else subKey2[j] := by
  induction k with
  | zero => rfl
  | succ k ih =>
    rw [List.range_succ, List.foldl_append, List.foldl_cons, List.foldl_nil,
      Vector.getElem_setIfInBounds, ih (by omega)]
    split
    · rename_i heq
      subst heq
      rw [if_pos (by omega)]
    · rename_i hne
      by_cases hlt : j < k
      · rw [if_pos hlt, if_pos (by omega)]
      · rw [if_neg hlt, if_neg (by omega)]

/-- A block one bit to the left. -/
def shifted (b : CipherBlock) : CipherBlock :=
  Vector.ofFn fun i => if i.val < 15 then shiftedByte b i else getElem b 15 fifteen_lt_sixteen <<< 1

theorem shiftInPlace_eq (b : CipherBlock) : shiftInPlace b = shifted b := by
  apply Vector.ext
  intro j hj
  simp only [shiftInPlace, Vector.getElem_set, shifted, Vector.getElem_ofFn,
    shiftInPlace_run b (Nat.le_refl 15), Nat.lt_irrefl, if_false]
  split
  · rename_i heq
    rw [if_neg (by omega)]
  · rename_i hne
    rw [if_pos (by omega), if_pos (by omega)]

theorem shiftInto_eq (b subKey2 : CipherBlock) : shiftInto subKey2 b = shifted b := by
  apply Vector.ext
  intro j hj
  simp only [shiftInto, Vector.getElem_set, shifted, Vector.getElem_ofFn,
    shiftInto_run b subKey2 (Nat.le_refl 15)]
  split
  · rename_i heq
    rw [if_neg (by omega)]
  · rename_i hne
    rw [if_pos (by omega), if_pos (by omega)]

theorem blockBits_shifted (b : CipherBlock) : blockBits (shifted b) = blockBits b <<< 1 := by
  apply BitVec.eq_of_getLsbD_eq
  intro i hi
  rw [blockBits_getLsbD _ hi, BitVec.getLsbD_shiftLeft, decide_eq_true hi]
  simp only [shifted, Vector.getElem_ofFn]
  by_cases hlast : i / 8 = 0
  · rw [if_neg (by omega)]
    cases i with
    | zero => simp
    | succ i =>
      have hbyte : 15 - (i + 1) / 8 = 15 := by omega
      have hmod : (i + 1) % 8 = i + 1 := by omega
      have hbyte' : 15 - i / 8 = 15 := by omega
      have hmod' : i % 8 = i := by omega
      rw [hmod, Nat.add_sub_cancel, blockBits_getLsbD _ (by omega)]
      simp only [hbyte', hmod']
      simp
      omega
  · rw [if_pos (by omega), shiftedByte, byteOf_eq _ (by omega), byteOf_eq _ (by omega),
      shifted_getLsbD _ _ (Nat.mod_lt i (by decide)), blockBits_getLsbD _ (by omega)]
    split
    · rename_i hzero
      have hbyte : 15 - i / 8 + 1 = 15 - (i - 1) / 8 := by omega
      have hmod : (i - 1) % 8 = 7 := by omega
      simp only [hbyte, hmod]
      simp
      omega
    · rename_i hne
      have hbyte : 15 - (i - 1) / 8 = 15 - i / 8 := by omega
      have hmod : (i - 1) % 8 = i % 8 - 1 := by omega
      simp only [hbyte, hmod]
      simp
      omega

theorem blockBits_xorBlock (a b : CipherBlock) :
    blockBits (xorBlock a b) = blockBits a ^^^ blockBits b := by
  apply BitVec.eq_of_getLsbD_eq
  intro i hi
  rw [BitVec.getLsbD_xor, blockBits_getLsbD _ hi, blockBits_getLsbD _ hi, blockBits_getLsbD _ hi]
  simp only [xorBlock, Vector.getElem_zipWith, UInt8.toBitVec_xor, BitVec.getLsbD_xor]

theorem blockBits_constRb : blockBits constRb = Cmac.reduction := by
  decide +kernel

/-- The test of the bit that is shifted out. -/
theorem msb_iff (b : CipherBlock) :
    getElem b 0 zero_lt_sixteen &&& 0x80 > 0 ↔ (blockBits b).msb = true := by
  have hbit : (blockBits b).msb = b[0].toBitVec.getLsbD 7 := by
    rw [BitVec.msb_eq_getLsbD_last, blockBits_getLsbD _ (by decide)]
  rw [hbit]
  generalize b[0] = a
  apply byte_cases (p := fun a => a &&& 0x80 > 0 ↔ a.toBitVec.getLsbD 7 = true)
  decide +kernel

/-- A shift with the constant added where a bit is shifted out. -/
theorem doubled_eq (b : CipherBlock) :
    (if getElem b 0 zero_lt_sixteen &&& 0x80 > 0 then xorBlock (shifted b) constRb else shifted b) =
      Cmac.double b := by
  apply blockBits_injective
  rw [Cmac.double, blockBits_bitsBlock, BinaryField.double, ← blockBits_shifted]
  by_cases hbit : b[0] &&& 0x80 > 0
  · rw [if_pos hbit, if_pos ((msb_iff b).mp hbit), blockBits_xorBlock, blockBits_constRb]
  · rw [if_neg hbit, if_neg fun hmsb => hbit ((msb_iff b).mpr hmsb)]
    simp

end Shift

section Code
variable (key : CipherBlock)

theorem rtAesEncrypt_standard (b : CipherBlock) :
    rtAesEncrypt b key.toList = some (Aes.cipher sbox key b) := by
  rw [rtAesEncrypt_eq, aes128k128d, Rtl8188eu.cipher_eq]

theorem aesCmacGenerateSubKey_eq (subKey1 subKey2 : CipherBlock) :
    aesCmacGenerateSubKey key.toList subKey1 subKey2 =
      (Cmac.subKey1 (Aes.cipher sbox key), Cmac.subKey2 (Aes.cipher sbox key)) := by
  have hkey : ¬ key.toList.length ≠ 16 := not_not.mpr Vector.length_toList
  simp only [aesCmacGenerateSubKey, if_neg hkey, rtAesEncrypt_standard, Option.getD_some,
    shiftInPlace_eq, shiftInto_eq, doubled_eq]
  rfl

theorem xorBlock_left_comm (a b c : CipherBlock) :
    xorBlock (xorBlock a b) c = xorBlock b (xorBlock a c) := by
  apply Vector.ext
  intro i hi
  simp only [xorBlock, Vector.getElem_zipWith]
  ac_rfl

/-- The loop enciphers each block in front of the last one once. -/
theorem cmacLoop_eq (text : List UInt8) (start : ℕ) (x : CipherBlock) :
    cmacLoop key.toList text start x =
      (start + 16 * ((text.length - start - 1) / 16),
        chain (Aes.cipher sbox key) x
          (blocksOf (slice text start (16 * ((text.length - start - 1) / 16))))) := by
  fun_induction cmacLoop key.toList text start x with
  | case1 start x hlong y ih =>
    rw [ih, rtAesEncrypt_standard, Option.getD_some]
    have hcount : 16 * ((text.length - start - 1) / 16) =
        16 + 16 * ((text.length - (start + 16) - 1) / 16) := by omega
    have hlen : (slice text start 16).length = 16 := by
      rw [slice, List.length_take, List.length_drop]
      omega
    have hy : y = xorBlock x (padBlock (slice text start 16)) := xorBlock_comm _ _
    rw [hcount, slice_add, blocksOf_append hlen, hy, Nat.add_assoc]
    rfl
  | case2 start x hshort =>
    have hzero : (text.length - start - 1) / 16 = 0 := by omega
    rw [hzero, Nat.mul_zero, slice, List.take_zero]
    rfl

theorem aesCmac_mac (text : List UInt8) {macTextLength : ℕ} (hroom : 16 ≤ macTextLength) :
    aesCmac text key.toList macTextLength = some (Cmac.mac (Aes.cipher sbox key) text) := by
  have hkey : ¬ key.toList.length ≠ 16 := not_not.mpr Vector.length_toList
  have hcount : 0 + 16 * ((text.length - 0 - 1) / 16) =
      16 * (Cmac.blockCount text.length - 1) := by
    rw [Cmac.blockCount]
    omega
  have hfront : slice text 0 (16 * ((text.length - 0 - 1) / 16)) =
      text.take (16 * (Cmac.blockCount text.length - 1)) := by
    rw [← hcount, slice, List.drop_zero, Nat.zero_add]
  have hlast : (text.drop (16 * (Cmac.blockCount text.length - 1))).length =
      text.length - 16 * (Cmac.blockCount text.length - 1) := List.length_drop
  simp only [aesCmac, if_neg (Nat.not_lt.mpr hroom), if_neg hkey, aesCmacGenerateSubKey_eq,
    cmacLoop_eq, hcount, hfront, rtAesEncrypt_standard, Cmac.mac, chain_append, Cmac.lastBlock,
    hlast]
  split
  · rw [xorBlock_left_comm]
    rfl
  · rw [xorBlock_left_comm]
    rfl

/-- The code is the CMAC of the message over AES, and the subkeys are the first two products of the
enciphered zero block with `X` in the field. -/
theorem aesCmac_standard (text : List UInt8) (macTextLength : ℕ) (subKey1 subKey2 : CipherBlock)
    (hroom : 16 ≤ macTextLength) :
    aesCmac text key.toList macTextLength = some (Cmac.mac (Aes.cipher sbox key) text) ∧
      aesCmacGenerateSubKey key.toList subKey1 subKey2 =
        (Cmac.subKey1 (Aes.cipher sbox key), Cmac.subKey2 (Aes.cipher sbox key)) ∧
      Cmac.toField (aesCmacGenerateSubKey key.toList subKey1 subKey2).1 =
        AdjoinRoot.root (BinaryField.modulus Cmac.reduction) *
          Cmac.toField (Aes.cipher sbox key (Vector.replicate 16 0)) ∧
      Cmac.toField (aesCmacGenerateSubKey key.toList subKey1 subKey2).2 =
        AdjoinRoot.root (BinaryField.modulus Cmac.reduction) ^ 2 *
          Cmac.toField (Aes.cipher sbox key (Vector.replicate 16 0)) := by
  refine ⟨aesCmac_mac key text hroom, aesCmacGenerateSubKey_eq key _ _, ?_, ?_⟩
  · rw [aesCmacGenerateSubKey_eq, Cmac.subKey1, Cmac.toField_double]
  · rw [aesCmacGenerateSubKey_eq, Cmac.subKey2, Cmac.toField_double, Cmac.subKey1,
      Cmac.toField_double, pow_two, mul_assoc]

/-- The code of nothing. -/
theorem aesCmac_standard_empty :
    aesCmac [] (Vector.replicate 16 0 : CipherBlock).toList 16 =
      some (Cmac.mac (Aes.cipher sbox (Vector.replicate 16 0)) []) :=
  (aesCmac_standard (Vector.replicate 16 0) [] 16 (Vector.replicate 16 0) (Vector.replicate 16 0)
    (Nat.le_refl 16)).1

end Code
end Rt5572
