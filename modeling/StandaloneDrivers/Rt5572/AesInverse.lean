import StandaloneDrivers.Foundations.Run
import StandaloneDrivers.Rt5572.AesAgreement
import StandaloneDrivers.Rt5572.CryptAes

/-! What RT_AES_Encrypt enciphers, RT_AES_Decrypt deciphers, for each length of the key. -/
namespace Rt5572
open Foundations AdjoinRoot

section Tables

theorem aesSboxDec_aesSboxEnc (a : UInt8) : entry aesSboxDec (entry aesSboxEnc a) = a := by
  simp only [entry, table_packed]
  apply byte_cases (p := fun a => UInt8.ofNat (packed aesSboxDec.toList >>>
    (8 * (UInt8.ofNat (packed aesSboxEnc.toList >>> (8 * a.toNat))).toNat)) = a)
  decide +kernel

/-- The tables of `AES_InvMixColumns`, entry by entry. -/
theorem inverseTables :
    (aesMul9.toList = (List.range 256).map fun n =>
      xtime^[3] (UInt8.ofNat n) ^^^ UInt8.ofNat n) ∧
    (aesMulB.toList = (List.range 256).map fun n =>
      xtime^[3] (UInt8.ofNat n) ^^^ xtime (UInt8.ofNat n) ^^^ UInt8.ofNat n) ∧
    (aesMulD.toList = (List.range 256).map fun n =>
      xtime^[3] (UInt8.ofNat n) ^^^ xtime^[2] (UInt8.ofNat n) ^^^ UInt8.ofNat n) ∧
    aesMulE.toList = (List.range 256).map fun n =>
      xtime^[3] (UInt8.ofNat n) ^^^ xtime^[2] (UInt8.ofNat n) ^^^ xtime (UInt8.ofNat n) := by
  decide +kernel

variable (a : UInt8)

/-- The tables multiply with 2, 3, 9, 11, 13 and 14 in the field. -/
theorem toField_mul2 : toField (entry aesMul2 a) = root gfModulus * toField a := by
  rw [entry_mul2, toField_xtime]

theorem toField_mul3 : toField (entry aesMul3 a) = (root gfModulus + 1) * toField a := by
  rw [entry_mul3, toField_xor, toField_xtime]
  ring

theorem toField_mul9 : toField (entry aesMul9 a) = (root gfModulus ^ 3 + 1) * toField a := by
  have htable : entry aesMul9 a = xtime^[3] a ^^^ a :=
    getD_table (f := fun a => xtime^[3] a ^^^ a) inverseTables.1 a
  rw [htable, toField_xor, toField_xtime_iterate]
  ring

theorem toField_mulB : toField (entry aesMulB a) =
    (root gfModulus ^ 3 + root gfModulus + 1) * toField a := by
  have htable : entry aesMulB a = xtime^[3] a ^^^ xtime a ^^^ a :=
    getD_table (f := fun a => xtime^[3] a ^^^ xtime a ^^^ a) inverseTables.2.1 a
  rw [htable, toField_xor, toField_xor, toField_xtime_iterate, toField_xtime]
  ring

theorem toField_mulD : toField (entry aesMulD a) =
    (root gfModulus ^ 3 + root gfModulus ^ 2 + 1) * toField a := by
  have htable : entry aesMulD a = xtime^[3] a ^^^ xtime^[2] a ^^^ a :=
    getD_table (f := fun a => xtime^[3] a ^^^ xtime^[2] a ^^^ a) inverseTables.2.2.1 a
  rw [htable, toField_xor, toField_xor, toField_xtime_iterate, toField_xtime_iterate]
  ring

theorem toField_mulE : toField (entry aesMulE a) =
    (root gfModulus ^ 3 + root gfModulus ^ 2 + root gfModulus) * toField a := by
  have htable : entry aesMulE a = xtime^[3] a ^^^ xtime^[2] a ^^^ xtime a :=
    getD_table (f := fun a => xtime^[3] a ^^^ xtime^[2] a ^^^ xtime a) inverseTables.2.2.2 a
  rw [htable, toField_xor, toField_xor, toField_xtime_iterate, toField_xtime_iterate,
    toField_xtime]
  ring

end Tables

namespace AesState
variable (a b c d : UInt8)

/-- The first row of a column that was mixed; the other rows are this one of a column turned
round. -/
theorem unmixed_row : entry aesMulE (entry aesMul2 a ^^^ entry aesMul3 b ^^^ c ^^^ d) ^^^
    entry aesMulB (a ^^^ entry aesMul2 b ^^^ entry aesMul3 c ^^^ d) ^^^
    entry aesMulD (a ^^^ b ^^^ entry aesMul2 c ^^^ entry aesMul3 d) ^^^
    entry aesMul9 (entry aesMul3 a ^^^ b ^^^ c ^^^ entry aesMul2 d) = a := by
  apply toField_injective
  simp only [toField_xor, toField_mul2, toField_mul3, toField_mul9, toField_mulB, toField_mulD,
    toField_mulE]
  generalize root gfModulus = x
  linear_combination ((x ^ 4 + 2 * x ^ 3 + x ^ 2 + x + 1) * toField a +
    (x ^ 4 + 2 * x ^ 3 + 2 * x ^ 2 + x + 1) * toField b +
    (x ^ 4 + 2 * x ^ 3 + x ^ 2 + 2 * x + 1) * toField c +
    (x ^ 4 + 2 * x ^ 3 + x ^ 2 + 2 * x + 1) * toField d) * Aes.two_eq_zero

/-- The rows in the middle and the last one, with the sums in the order of the columns. -/
theorem unmixed_rows : entry aesMul9 (entry aesMul2 a ^^^ entry aesMul3 b ^^^ c ^^^ d) ^^^
      entry aesMulE (a ^^^ entry aesMul2 b ^^^ entry aesMul3 c ^^^ d) ^^^
      entry aesMulB (a ^^^ b ^^^ entry aesMul2 c ^^^ entry aesMul3 d) ^^^
      entry aesMulD (entry aesMul3 a ^^^ b ^^^ c ^^^ entry aesMul2 d) = b ∧
    entry aesMulD (entry aesMul2 a ^^^ entry aesMul3 b ^^^ c ^^^ d) ^^^
      entry aesMul9 (a ^^^ entry aesMul2 b ^^^ entry aesMul3 c ^^^ d) ^^^
      entry aesMulE (a ^^^ b ^^^ entry aesMul2 c ^^^ entry aesMul3 d) ^^^
      entry aesMulB (entry aesMul3 a ^^^ b ^^^ c ^^^ entry aesMul2 d) = c ∧
    entry aesMulB (entry aesMul2 a ^^^ entry aesMul3 b ^^^ c ^^^ d) ^^^
      entry aesMulD (a ^^^ entry aesMul2 b ^^^ entry aesMul3 c ^^^ d) ^^^
      entry aesMul9 (a ^^^ b ^^^ entry aesMul2 c ^^^ entry aesMul3 d) ^^^
      entry aesMulE (entry aesMul3 a ^^^ b ^^^ c ^^^ entry aesMul2 d) = d := by
  have hb := unmixed_row b c d a
  have hc := unmixed_row c d a b
  have hd := unmixed_row d a b c
  generalize entry aesMul2 = mul2, entry aesMul3 = mul3, entry aesMul9 = mul9,
    entry aesMulB = mulB, entry aesMulD = mulD, entry aesMulE = mulE at *
  refine ⟨Eq.trans ?_ hb, Eq.trans ?_ hc, Eq.trans ?_ hd⟩
  all_goals ac_rfl

theorem unmixedColumn_mixedColumn :
    unmixedColumn (getElem (mixedColumn a b c d) 0 Foundations.zero_lt_four)
      (getElem (mixedColumn a b c d) 1 one_lt_four) (getElem (mixedColumn a b c d) 2 two_lt_four)
      (getElem (mixedColumn a b c d) 3 three_lt_four) = #v[a, b, c, d] := by
  obtain ⟨hb, hc, hd⟩ := unmixed_rows a b c d
  apply Vector.ext
  intro i hi
  interval_cases i
  · exact unmixed_row a b c d
  · exact hb
  · exact hc
  · exact hd

variable (s : AesState)

theorem ext_rows {s t : AesState} (h : ∀ r c : Fin 4, getElem (getElem s r r.isLt) c c.isLt =
    getElem (getElem t r r.isLt) c c.isLt) : s = t := by
  apply Vector.ext
  intro r hr
  apply Vector.ext
  intro c hc
  exact h ⟨r, hr⟩ ⟨c, hc⟩

theorem invMixColumns_mixColumns : s.mixColumns.invMixColumns = s := by
  apply ext_rows
  intro r c
  have hcolumn := unmixedColumn_mixedColumn s[0][c] s[1][c] s[2][c] s[3][c]
  have hrow : s.mixColumns.invMixColumns[r][c] =
      (unmixedColumn s.mixColumns[0][c] s.mixColumns[1][c] s.mixColumns[2][c]
        s.mixColumns[3][c])[r] := by
    simp [invMixColumns]
  have hmixed : ∀ r : Fin 4,
      s.mixColumns[r][c] = (mixedColumn s[0][c] s[1][c] s[2][c] s[3][c])[r] := by
    intro r
    simp [mixColumns]
  have h0 := hmixed 0
  have h1 := hmixed 1
  have h2 := hmixed 2
  have h3 := hmixed 3
  rw [hrow]
  refine Eq.trans (congrArg (·[r]) (Eq.trans ?_ hcolumn)) ?_
  · exact congr (congr (congr (congrArg unmixedColumn h0) h1) h2) h3
  · fin_cases r <;> rfl

theorem invSubBytes_subBytes : s.subBytes.invSubBytes = s := by
  apply ext_rows
  intro r c
  simp [invSubBytes, subBytes, aesSboxDec_aesSboxEnc]

theorem invShiftRows_shiftRows : s.shiftRows.invShiftRows = s := by
  apply ext_rows
  intro r c
  fin_cases r <;> fin_cases c <;> rfl

theorem addRoundKey_twice (words : List AesWord) (roundIndex : ℕ) :
    (s.addRoundKey words roundIndex).addRoundKey words roundIndex = s := by
  apply ext_rows
  intro r c
  simp [addRoundKey, UInt8.xor_assoc]

theorem ofBlock_toBlock : ofBlock s.toBlock = s := by
  apply ext_rows
  intro r c
  have hmod : r.val % 4 = r := Nat.mod_eq_of_lt r.isLt
  have hdiv : (r.val + 4 * c.val) / 4 = c := by omega
  simp [ofBlock, toBlock, hmod, hdiv]

end AesState

/-- What a round of the encryption does between two substitutions, and a round of the decryption
between two of their inverses. -/
theorem rounds_undone (words : List AesWord) (s : AesState) (rounds : List ℕ) :
    rounds.reverse.foldl (fun s r => (s.invShiftRows.invSubBytes.addRoundKey words r).invMixColumns)
      (rounds.foldl (fun s r => s.subBytes.shiftRows.mixColumns.addRoundKey words r)
        s).subBytes.shiftRows = s.subBytes.shiftRows := by
  have hshift : ∀ rounds : List ℕ, ∀ s : AesState,
      (rounds.foldl (fun s r => s.subBytes.shiftRows.mixColumns.addRoundKey words r)
        s).subBytes.shiftRows =
      rounds.foldl (fun s r => (s.mixColumns.addRoundKey words r).subBytes.shiftRows)
        s.subBytes.shiftRows := by
    intro rounds
    induction rounds with
    | nil => exact fun _ => rfl
    | cons r rounds ih => exact fun s => ih _
  rw [hshift]
  apply foldl_reverse_cancel
  intro s r
  rw [AesState.invShiftRows_shiftRows, AesState.invSubBytes_subBytes,
    AesState.addRoundKey_twice, AesState.invMixColumns_mixColumns]

theorem rtAesDecrypt_of_keyLength {key : List UInt8} (hkey : aesKeyLength key.length = true)
    {size : ℕ} (hsize : 16 ≤ size) (block : CipherBlock) :
    (rtAesEncrypt block key).bind (fun cipherBlock => rtAesDecrypt cipherBlock key size) =
      some block := by
  have hroom : ¬ size < 16 := by omega
  simp only [rtAesEncrypt, rtAesDecrypt, hkey, if_true, if_neg hroom, Option.bind_some,
    AesState.ofBlock_toBlock, AesState.addRoundKey_twice, rounds_undone,
    AesState.invShiftRows_shiftRows, AesState.invSubBytes_subBytes, AesState.toBlock_ofBlock]

theorem rtAesDecrypt_plainBlock {key : List UInt8} (hkey : aesKeyLength key.length = true) {size : ℕ}
    (hsize : 16 ≤ size) (block : CipherBlock) :
    rtAesDecrypt block key size = some (plainBlock key block) := by
  simp only [plainBlock, rtAesDecrypt, hkey, if_true, if_neg (Nat.not_lt.mpr hsize),
    Nat.lt_irrefl, if_false, Option.getD_some]

theorem plainBlock_cipherBlock {key : List UInt8} (hkey : aesKeyLength key.length = true)
    (block : CipherBlock) :
    plainBlock key (cipherBlock key block) = block := by
  have hback := rtAesDecrypt_of_keyLength hkey (Nat.le_refl 16) block
  have hsome : rtAesEncrypt block key = some (cipherBlock key block) := by
    simp only [cipherBlock, rtAesEncrypt, hkey, if_true, Option.getD_some]
  rw [hsome, Option.bind_some, rtAesDecrypt_plainBlock hkey (Nat.le_refl 16)] at hback
  exact Option.some.inj hback

theorem cipherBlock_plainBlock {key : List UInt8} (hkey : aesKeyLength key.length = true)
    (block : CipherBlock) : cipherBlock key (plainBlock key block) = block := by
  have hbytes : Function.Injective fun (b : CipherBlock) (i : Fin 16) => b[i].toFin := by
    intro a b h
    apply Vector.ext
    intro i hi
    exact UInt8.toFin_inj.mp (congrFun h ⟨i, hi⟩)
  have hfinite : Finite CipherBlock := Finite.of_injective _ hbytes
  have hinjective : Function.Injective (cipherBlock key) :=
    Function.LeftInverse.injective (plainBlock_cipherBlock hkey)
  obtain ⟨b, rfl⟩ := Finite.surjective_of_injective hinjective block
  rw [plainBlock_cipherBlock hkey]

/-- A block comes back from the two directions of the cipher, under each key that they take. -/
theorem rtAesDecrypt_rtAesEncrypt (block : CipherBlock) (key : List UInt8) (size : ℕ)
    (hkey : key.length = 16 ∨ key.length = 24 ∨ key.length = 32) (hsize : 16 ≤ size) :
    (rtAesEncrypt block key).bind (fun cipherBlock => rtAesDecrypt cipherBlock key size) =
      some block := by
  have htaken : aesKeyLength key.length = true := by
    rcases hkey with h | h | h <;> rw [h] <;> rfl
  exact rtAesDecrypt_of_keyLength htaken hsize block

/-- A key of 24 bytes. -/
theorem rtAesDecrypt_rtAesEncrypt_zeroes :
    (rtAesEncrypt (Vector.replicate 16 0) (List.replicate 24 0)).bind
      (fun cipherBlock => rtAesDecrypt cipherBlock (List.replicate 24 0) 16) =
      some (Vector.replicate 16 0) :=
  rtAesDecrypt_rtAesEncrypt _ _ _ (Or.inr (Or.inl rfl)) (Nat.le_refl 16)

end Rt5572
