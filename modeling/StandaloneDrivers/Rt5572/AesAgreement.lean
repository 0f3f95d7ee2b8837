import StandaloneDrivers.Rt5572.Ccmp
import StandaloneDrivers.Rtl8188eu.AesStandard

/-! The two ciphers of the driver are one function for a key of 16 bytes. -/
namespace Rt5572
open Foundations
open Rtl8188eu (sbox mixColumn nextKey byteSub shiftRow xor128 aesRound rconTable andf7_eq
  shift_clear add1b_shift)

theorem entry_sbox (a : UInt8) : entry aesSboxEnc a = sbox a := rfl

section Tables

/-- The tables of `AES_MixColumns`, entry by entry. -/
theorem mulTables :
    aesMul2.toList = ((List.range 256).map fun n => xtime (UInt8.ofNat n)) ∧
      aesMul3.toList = (List.range 256).map fun n => UInt8.ofNat n ^^^ xtime (UInt8.ofNat n) := by
  decide +kernel

theorem entry_mul2 (a : UInt8) : entry aesMul2 a = xtime a := getD_table mulTables.1 a

theorem entry_mul3 (a : UInt8) : entry aesMul3 a = a ^^^ xtime a :=
  getD_table (f := fun a => a ^^^ xtime a) mulTables.2 a

end Tables

namespace AesState

/-- The rows of a column do not depend on the order in which they are added up. -/
theorem rows_eq (a b c d a2 b2 c2 d2 : UInt8) :
    [a2 ^^^ (b ^^^ b2) ^^^ c ^^^ d, a ^^^ b2 ^^^ (c ^^^ c2) ^^^ d,
      a ^^^ b ^^^ c2 ^^^ (d ^^^ d2), a ^^^ a2 ^^^ b ^^^ c ^^^ d2] =
    [(a2 ^^^ (b ^^^ b2)) ^^^ (c ^^^ d), (b2 ^^^ (c ^^^ c2)) ^^^ (d ^^^ a),
      (c2 ^^^ (d ^^^ d2)) ^^^ (a ^^^ b), (d2 ^^^ (a ^^^ a2)) ^^^ (b ^^^ c)] := by
  simp only [List.cons.injEq, and_true]
  refine ⟨?_, ?_, ?_, ?_⟩
  all_goals ac_rfl

/-- The bits that the hand-rolled cipher carries from byte to byte are the products of the
table. -/
theorem mixedColumn_toList (a b c d : UInt8) :
    (mixedColumn a b c d).toList = mixColumn a b c d := by
  simp only [mixedColumn, mixColumn, andf7_eq, shift_clear, add1b_shift, entry_mul2, entry_mul3,
    Vector.toList_mk]
  exact rows_eq a b c d _ _ _ _

theorem toBlock_ofBlock (b : CipherBlock) : (ofBlock b).toBlock = b := by
  apply Vector.ext
  intro i hi
  simp only [toBlock, ofBlock, Vector.getElem_ofFn]
  congr 1
  omega

theorem ofBlock_ext {s : AesState} {b : CipherBlock}
    (h : ∀ r c : Fin 4, getElem (getElem s r r.isLt) c c.isLt =
      getElem b (r.val + 4 * c.val) (place_lt r c)) : s = ofBlock b := by
  apply Vector.ext
  intro r hr
  apply Vector.ext
  intro c hc
  simp only [ofBlock, Vector.getElem_ofFn]
  exact h ⟨r, hr⟩ ⟨c, hc⟩

theorem subBytes_ofBlock (b : CipherBlock) : (ofBlock b).subBytes = ofBlock (byteSub b) := by
  apply ofBlock_ext
  intro r c
  simp [subBytes, ofBlock, byteSub, entry_sbox]

theorem shiftRows_ofBlock (b : CipherBlock) : (ofBlock b).shiftRows = ofBlock (shiftRow b) := by
  apply ofBlock_ext
  intro r c
  fin_cases r <;> fin_cases c <;> simp [shiftRows, ofBlock, shiftRow]

theorem mixColumns_ofBlock (b : CipherBlock) :
    (ofBlock b).mixColumns = ofBlock (Rtl8188eu.mixColumns b) := by
  apply ofBlock_ext
  intro r c
  simp only [mixColumns, Rtl8188eu.mixColumns, ← mixedColumn_toList]
  fin_cases r <;> fin_cases c <;> simp [ofBlock, mixedColumn]

/-- The key of a round, from the expanded key. -/
def roundBlock (words : List AesWord) (roundIndex : ℕ) : CipherBlock :=
  Vector.ofFn fun i =>
    getElem (wordAt words (4 * roundIndex + i.val / 4)) (i.val % 4) (val_mod_four_lt i)

theorem addRoundKey_ofBlock (words : List AesWord) (roundIndex : ℕ) (b : CipherBlock) :
    (ofBlock b).addRoundKey words roundIndex =
      ofBlock (xorBlock b (roundBlock words roundIndex)) := by
  apply ofBlock_ext
  intro r c
  have hdiv : (r.val + 4 * c.val) / 4 = c := by omega
  have hmod : (r.val + 4 * c.val) % 4 = r := by omega
  simp [addRoundKey, ofBlock, xorBlock, roundBlock, hdiv, hmod]

end AesState

section Schedule
variable {words : List AesWord}

theorem wordAt_append {i : ℕ} (v : List AesWord) (h : i < words.length) :
    wordAt (words ++ v) i = wordAt words i := List.getD_append _ _ _ _ h

theorem wordAt_length (w : AesWord) : wordAt (words ++ [w]) words.length = w := by
  rw [wordAt, List.getD_append_right _ _ _ _ (Nat.le_refl _), Nat.sub_self, List.getD_cons_zero]

/-- The constant of a round. -/
theorem rconWord_eq {k : ℕ} (hk : k < 10) (w : AesWord) :
    rconWord w (aesRcon.getD (k + 1) 0) =
      #v[sbox w[1] ^^^ rconTable.getD k 0, sbox w[2], sbox w[3], sbox w[0]] := by
  have hconst : ∀ k < 10,
      ((aesRcon.getD (k + 1) 0 >>> 24) &&& 0xff).toUInt8 = rconTable.getD k 0 ∧
      ((aesRcon.getD (k + 1) 0 >>> 16) &&& 0xff).toUInt8 = 0 ∧
      ((aesRcon.getD (k + 1) 0 >>> 8) &&& 0xff).toUInt8 = 0 ∧
      (aesRcon.getD (k + 1) 0 &&& 0xff).toUInt8 = 0 := by
    decide
  obtain ⟨h0, h1, h2, h3⟩ := hconst k hk
  simp only [rconWord, h0, h1, h2, h3, entry_sbox, UInt8.xor_zero]

/-- The four words that follow a round key. -/
def nextWords (words : List AesWord) (k : ℕ) : List AesWord :=
  let a := xorWord (wordAt words (4 * k))
    (rconWord (wordAt words (4 * k + 3)) (aesRcon.getD (k + 1) 0))
  let b := xorWord (wordAt words (4 * k + 1)) a
  let c := xorWord (wordAt words (4 * k + 2)) b
  [a, b, c, xorWord (wordAt words (4 * k + 3)) c]

theorem expandWord_first {k : ℕ} : expandWord 4 words (4 * (k + 1)) = words ++
    [xorWord (wordAt words (4 * k))
      (rconWord (wordAt words (4 * k + 3)) (aesRcon.getD (k + 1) 0))] := by
  have hmod : 4 * (k + 1) % 4 = 0 := Nat.mul_mod_right 4 (k + 1)
  have hdiv : 4 * (k + 1) / 4 = k + 1 := Nat.mul_div_cancel_left _ (by decide)
  have hsub : 4 * (k + 1) - 4 = 4 * k := by omega
  have hpred : 4 * (k + 1) - 1 = 4 * k + 3 := by omega
  simp only [expandWord, hmod, hdiv, hsub, hpred, if_true]

theorem expandWord_next {k i : ℕ} (x : AesWord) (h0 : 0 < i) (h4 : i < 4)
    (hlen : words.length = 4 * k + 3 + i) :
    expandWord 4 (words ++ [x]) (4 * (k + 1) + i) =
      words ++ [x] ++ [xorWord (wordAt words (4 * k + i)) x] := by
  have hmod : ¬ (4 * (k + 1) + i) % 4 = 0 := by omega
  have hsub : 4 * (k + 1) + i - 4 = 4 * k + i := by omega
  have hpred : 4 * (k + 1) + i - 1 = words.length := by omega
  have hkey : ¬ (4 > 6 ∧ (4 * (k + 1) + i) % 4 = 4) := by omega
  simp only [expandWord, hsub, hpred, if_neg hmod, if_neg hkey, wordAt_length]
  rw [wordAt_append _ (by omega)]

theorem expandWord_four {k : ℕ} (hlen : words.length = 4 * (k + 1)) :
    (List.range' (4 * (k + 1)) 4).foldl (expandWord 4) words = words ++ nextWords words k := by
  have hrange : List.range' (4 * (k + 1)) 4 = [4 * (k + 1), 4 * (k + 1) + 1, 4 * (k + 1) + 2,
      4 * (k + 1) + 3] := rfl
  have hlen2 : ∀ a, (words ++ [a]).length = 4 * k + 3 + 2 := fun a => by
    rw [List.length_append, hlen, List.length_singleton]
    omega
  have hlen3 : ∀ a b, (words ++ [a] ++ [b]).length = 4 * k + 3 + 3 := fun a b => by
    rw [List.length_append, hlen2, List.length_singleton]
  simp only [hrange, List.foldl_cons, List.foldl_nil, expandWord_first, nextWords]
  rw [expandWord_next _ (by decide) (by decide) hlen,
    expandWord_next _ (by decide) (by decide) (hlen2 _),
    expandWord_next _ (by decide) (by decide) (hlen3 _ _), wordAt_append _ (by omega),
    wordAt_append _ (by rw [hlen2]; omega), wordAt_append _ (by omega)]
  simp only [List.append_assoc, List.cons_append, List.nil_append]

/-- The four words are the next round key. -/
theorem roundBlock_next {k : ℕ} (hk : k < 10) (hlen : words.length = 4 * (k + 1)) :
    AesState.roundBlock (words ++ nextWords words k) (k + 1) =
      nextKey (AesState.roundBlock words k) k := by
  have hword : ∀ i < 4, wordAt (words ++ nextWords words k) (4 * (k + 1) + i) =
      wordAt (nextWords words k) i := by
    intro i _
    rw [wordAt, List.getD_append_right _ _ _ _ (by omega), hlen, Nat.add_sub_cancel_left]
    rfl
  apply Vector.ext
  intro i hi
  simp only [AesState.roundBlock, Vector.getElem_ofFn, hword (i / 4) (by omega)]
  simp only [nextWords, rconWord_eq hk, nextKey]
  interval_cases i <;> simp [wordAt, xorWord, UInt8.xor_assoc]

theorem roundBlock_append {k r : ℕ} (v : List AesWord) (hlen : words.length = 4 * (k + 1))
    (hr : r ≤ k) : AesState.roundBlock (words ++ v) r = AesState.roundBlock words r := by
  apply Vector.ext
  intro i hi
  simp only [AesState.roundBlock, Vector.getElem_ofFn]
  rw [wordAt_append _ (by omega)]

end Schedule

/-- The keys of the rounds, one from the other. -/
def roundKey (key : CipherBlock) : ℕ → CipherBlock
  | 0 => key
  | k + 1 => nextKey (roundKey key k) k

/-- The words that a key is taken as. -/
def keyWords (key : CipherBlock) : List AesWord :=
  (List.range 4).map fun i => #v[key.toList.getD (4 * i) 0, key.toList.getD (4 * i + 1) 0,
    key.toList.getD (4 * i + 2) 0, key.toList.getD (4 * i + 3) 0]

theorem roundBlock_keyWords (key : CipherBlock) :
    AesState.roundBlock (keyWords key) 0 = key := by
  apply Vector.ext
  intro i hi
  simp only [AesState.roundBlock, Vector.getElem_ofFn, keyWords, wordAt]
  interval_cases i <;> simp

/-- The expanded key holds the keys of the rounds. -/
theorem expand_rounds (key : CipherBlock) {n : ℕ} (hn : n ≤ 10) :
    ((List.range' 4 (4 * n)).foldl (expandWord 4) (keyWords key)).length = 4 * (n + 1) ∧
      ∀ r ≤ n, AesState.roundBlock
        ((List.range' 4 (4 * n)).foldl (expandWord 4) (keyWords key)) r = roundKey key r := by
  induction n with
  | zero =>
    refine ⟨rfl, fun r hr => ?_⟩
    rw [Nat.le_zero.mp hr]
    exact roundBlock_keyWords key
  | succ n ih =>
    obtain ⟨hlen, hround⟩ := ih (by omega)
    have hrange : List.range' 4 (4 * n) ++ List.range' (4 * (n + 1)) 4 =
        List.range' 4 (4 * (n + 1)) := by
      have h := List.range'_append_1 (s := 4) (m := 4 * n) (n := 4)
      rwa [Nat.add_comm 4 (4 * n)] at h
    rw [← hrange, List.foldl_append, expandWord_four hlen]
    refine ⟨?_, fun r hr => ?_⟩
    · rw [List.length_append, hlen]
      rfl
    · rcases Nat.lt_or_ge r (n + 1) with hlt | hge
      · rw [roundBlock_append _ hlen (by omega), hround r (by omega)]
      · have heq : r = n + 1 := by omega
        rw [heq, roundBlock_next (by omega) hlen, hround n (Nat.le_refl n), roundKey]

theorem xorBlock_comm (a b : CipherBlock) : xorBlock a b = xorBlock b a := by
  apply Vector.ext
  intro i hi
  simp only [xorBlock, Vector.getElem_zipWith, UInt8.xor_comm]

/-- The rounds in the middle, with the key of the next round beside the block. -/
theorem rounds_eq (key b : CipherBlock) {words : List AesWord}
    (hwords : ∀ r ≤ 10, AesState.roundBlock words r = roundKey key r) {n : ℕ} (hn : n ≤ 9) :
    ∃ c, (List.range' 1 n).foldl aesRound (roundKey key 1, b) = (roundKey key (n + 1), c) ∧
      (List.range' 1 n).foldl
        (fun s r => s.subBytes.shiftRows.mixColumns.addRoundKey words r) (AesState.ofBlock b) =
        AesState.ofBlock c := by
  induction n with
  | zero => exact ⟨b, rfl, rfl⟩
  | succ n ih =>
    obtain ⟨c, hleft, hright⟩ := ih (by omega)
    refine ⟨xor128 (Rtl8188eu.mixColumns (shiftRow (byteSub c))) (roundKey key (n + 1)), ?_, ?_⟩
    · rw [List.range'_1_concat, List.foldl_append, hleft, List.foldl_cons, List.foldl_nil,
        Nat.add_comm 1 n]
      rfl
    · rw [List.range'_1_concat, List.foldl_append, hright, List.foldl_cons, List.foldl_nil,
        AesState.subBytes_ofBlock, AesState.shiftRows_ofBlock, AesState.mixColumns_ofBlock,
        AesState.addRoundKey_ofBlock, Nat.add_comm 1 n, hwords (n + 1) (by omega)]
      rfl

/-- With a key of 16 bytes the cipher of the library is the one written for frames. -/
theorem rtAesEncrypt_eq (key b : CipherBlock) :
    rtAesEncrypt b key.toList = some (aes128k128d key b) := by
  have hlen : key.toList.length = 16 := Vector.length_toList
  obtain ⟨-, hwords⟩ := expand_rounds key (Nat.le_refl 10)
  obtain ⟨c, hleft, hright⟩ := rounds_eq key (xor128 key b) hwords (Nat.le_refl 9)
  have hexpand : rtAesKeyExpansion key.toList =
      (List.range' 4 (4 * 10)).foldl (expandWord 4) (keyWords key) := by
    rw [rtAesKeyExpansion, hlen]
    rfl
  have hfirst : (AesState.ofBlock b).addRoundKey (rtAesKeyExpansion key.toList) 0 =
      AesState.ofBlock (xor128 key b) := by
    rw [AesState.addRoundKey_ofBlock, hexpand, hwords 0 (by omega), xorBlock_comm]
    rfl
  rw [← hexpand] at hright hwords
  simp only [rtAesEncrypt, hlen, aesKeyLength, hfirst]
  show some _ = _
  rw [hright, AesState.subBytes_ofBlock, AesState.shiftRows_ofBlock, AesState.addRoundKey_ofBlock,
    hwords 10 (Nat.le_refl 10), AesState.toBlock_ofBlock]
  show _ = some (xor128 (shiftRow (byteSub _)) _)
  rw [show ((List.range' 1 9).foldl aesRound (nextKey key 0, xor128 key b)) = _ from hleft]
  rfl

end Rt5572
