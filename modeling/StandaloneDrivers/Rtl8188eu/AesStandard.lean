import StandaloneDrivers.Foundations.Aes
import StandaloneDrivers.Rtl8188eu.Aes
import Mathlib.Data.Fintype.Basic
import Mathlib.Tactic.FinCases
import Mathlib.Tactic.IntervalCases

/-! The hand-rolled block cipher is AES: its round keys are the words of the expanded key, and
its shifts with carries mix the columns by the matrix. -/
namespace Rtl8188eu
open Foundations
open Foundations.Aes (ofBlock toBlock toBlock_ofBlock)

theorem andf7_eq (a prev : UInt8) : andf7 a prev = (a &&& 0x7f) <<< 1 := by
  have hclear : (prev &&& 0x7f) &&& 0x80 = 0 := by
    rw [UInt8.and_assoc]
    exact UInt8.and_zero
  rw [andf7, hclear]
  rfl

/-- Seven bits shifted and the reduction make a doubling, and the bit below the shifted ones is
clear. -/
theorem shift_cases (a : UInt8) : add1b a ^^^ ((a &&& 0x7f) <<< 1) = xtime a ∧
    ((a &&& 0x7f) <<< 1) &&& (0xfe : UInt8) = (a &&& 0x7f) <<< 1 := by
  apply byte_cases (p := fun a => add1b a ^^^ ((a &&& 0x7f) <<< 1) = xtime a ∧
    ((a &&& 0x7f) <<< 1) &&& (0xfe : UInt8) = (a &&& 0x7f) <<< 1)
  decide +kernel

theorem add1b_shift (a : UInt8) : add1b a ^^^ ((a &&& 0x7f) <<< 1) = xtime a := (shift_cases a).1

theorem shift_clear (a : UInt8) :
    ((a &&& 0x7f) <<< 1) &&& (0xfe : UInt8) = (a &&& 0x7f) <<< 1 := (shift_cases a).2

theorem gfMul_one (a : UInt8) : gfMul 1 a = a := by
  apply toField_injective
  rw [toField_gfMul, Aes.toField_one, one_mul]

theorem gfMul_two (a : UInt8) : gfMul 2 a = xtime a := by
  apply toField_injective
  rw [toField_gfMul, Aes.toField_two, toField_xtime]

theorem gfMul_three (a : UInt8) : gfMul 3 a = xtime a ^^^ a := by
  apply toField_injective
  rw [toField_gfMul, Aes.toField_three, toField_xor, toField_xtime, add_mul, one_mul]

theorem mixColumn_rows (column : Fin 4 → UInt8) : List.ofFn (Aes.mixColumn column) =
    [xtime (column 0) ^^^ (xtime (column 1) ^^^ column 1) ^^^ column 2 ^^^ column 3,
      column 0 ^^^ xtime (column 1) ^^^ (xtime (column 2) ^^^ column 2) ^^^ column 3,
      column 0 ^^^ column 1 ^^^ xtime (column 2) ^^^ (xtime (column 3) ^^^ column 3),
      xtime (column 0) ^^^ column 0 ^^^ column 1 ^^^ column 2 ^^^ xtime (column 3)] := by
  simp [List.ofFn_succ, Aes.mixColumn, Aes.mixMatrix, gfMul_one, gfMul_two, gfMul_three]

/-- The carries between the bytes of a column never come. -/
theorem mixColumn_eq (column : Fin 4 → UInt8) :
    mixColumn (column 0) (column 1) (column 2) (column 3) =
      List.ofFn (Aes.mixColumn column) := by
  rw [mixColumn_rows]
  simp only [mixColumn, andf7_eq, shift_clear, add1b_shift, List.cons.injEq, and_true]
  refine ⟨?_, ?_, ?_, ?_⟩
  all_goals ac_rfl

theorem subBytes_ofBlock (b : Block) : Aes.subBytes sbox (ofBlock b) = ofBlock (byteSub b) := by
  funext r c
  simp [Aes.subBytes, ofBlock, byteSub]

theorem shiftRows_ofBlock (b : Block) : Aes.shiftRows (ofBlock b) = ofBlock (shiftRow b) := by
  funext r c
  fin_cases r <;> fin_cases c <;> simp [Aes.shiftRows, ofBlock, shiftRow]

theorem mixColumns_ofBlock (b : Block) : Aes.mixColumns (ofBlock b) = ofBlock (mixColumns b) := by
  have hcolumn : ∀ c : Fin 4, mixColumn (ofBlock b 0 c) (ofBlock b 1 c) (ofBlock b 2 c)
      (ofBlock b 3 c) = List.ofFn (Aes.mixColumn fun i => ofBlock b i c) :=
    fun c => mixColumn_eq fun i => ofBlock b i c
  have hbytes : mixColumns b = Vector.ofFn fun i =>
      (List.ofFn (Aes.mixColumn fun i => ofBlock b i 0) ++
        List.ofFn (Aes.mixColumn fun i => ofBlock b i 1) ++
        List.ofFn (Aes.mixColumn fun i => ofBlock b i 2) ++
        List.ofFn (Aes.mixColumn fun i => ofBlock b i 3)).getD i 0 := by
    simp only [← hcolumn]
    rfl
  funext r c
  rw [hbytes, Aes.mixColumns]
  fin_cases r <;> fin_cases c <;> simp [ofBlock, List.ofFn_succ]

theorem xor_ofBlock (a b : Block) (r c : Fin 4) :
    ofBlock (xor128 a b) r c = ofBlock a r c ^^^ ofBlock b r c := by
  simp [ofBlock, xor128]

theorem rcon_eq {round : ℕ} (h : round < 10) : rconTable.getD round 0 = Aes.rcon (round + 1) := by
  revert round
  decide

/-- A step of the key schedule, in words. -/
theorem nextKey_ofBlock {key k : Block} {round : ℕ} (h : round < 10)
    (hk : Aes.roundKey sbox key round = ofBlock k) :
    Aes.roundKey sbox key (round + 1) = ofBlock (nextKey k round) := by
  have hfirst : ∀ r, Aes.roundKey sbox key (round + 1) r 0 = ofBlock (nextKey k round) r 0 := by
    intro r
    rw [Aes.roundKey_first, hk, ← rcon_eq h]
    fin_cases r <;> simp [ofBlock, nextKey, UInt8.xor_assoc]
  have hnext : ∀ r c, c ≠ 0 → ofBlock (nextKey k round) r c =
      ofBlock k r c ^^^ ofBlock (nextKey k round) r (c - 1) := by
    intro r c hc
    fin_cases c
    · exact absurd rfl hc
    all_goals fin_cases r <;> simp [ofBlock, nextKey]
  have hstep : ∀ r c, c ≠ 0 →
      Aes.roundKey sbox key (round + 1) r (c - 1) = ofBlock (nextKey k round) r (c - 1) →
      Aes.roundKey sbox key (round + 1) r c = ofBlock (nextKey k round) r c := by
    intro r c hc hpred
    rw [Aes.roundKey_next sbox key round r c hc, hnext r c hc, hk, hpred]
  funext r c
  have h1 := hstep r 1 (by decide) (hfirst r)
  have h2 := hstep r 2 (by decide) h1
  fin_cases c
  · exact hfirst r
  · exact h1
  · exact h2
  · exact hstep r 3 (by decide) h2

/-- The round keys, made one from the other in place, are the words of the expanded key. -/
theorem roundKey_eq (key : Block) {round : ℕ} (h : round ≤ 10) :
    Aes.roundKey sbox key round = ofBlock ((List.range round).foldl nextKey key) := by
  induction round with
  | zero => exact Aes.roundKey_zero sbox key
  | succ round ih =>
    rw [nextKey_ofBlock h (ih (by omega)), List.range_succ, List.foldl_append]
    rfl

theorem addRoundKey_ofBlock (key b : Block) {round : ℕ} (h : round ≤ 10) :
    Aes.addRoundKey sbox key round (ofBlock b) =
      ofBlock (xor128 b ((List.range round).foldl nextKey key)) := by
  funext r c
  rw [Aes.addRoundKey, roundKey_eq key h, xor_ofBlock]

theorem xor128_comm (a b : Block) : xor128 a b = xor128 b a := by
  apply Vector.ext
  intro i hi
  simp only [xor128, Vector.getElem_zipWith, UInt8.xor_comm]

/-- After the rounds in the middle, the key of the next round stands beside the block. -/
theorem rounds_ofBlock (key data : Block) {n : ℕ} (hn : n ≤ 9) :
    ∃ b, (List.range' 1 n).foldl aesRound (nextKey key 0, xor128 key data) =
        ((List.range (n + 1)).foldl nextKey key, b) ∧
      (List.range' 1 n).foldl (Aes.round sbox key) (Aes.addRoundKey sbox key 0 (ofBlock data)) =
        ofBlock b := by
  induction n with
  | zero =>
    refine ⟨xor128 key data, rfl, ?_⟩
    rw [xor128_comm]
    exact addRoundKey_ofBlock key data (Nat.zero_le 10)
  | succ n ih =>
    obtain ⟨b, hcode, hstandard⟩ := ih (by omega)
    refine ⟨xor128 (mixColumns (shiftRow (byteSub b))) ((List.range (n + 1)).foldl nextKey key),
      ?_, ?_⟩
    · rw [List.range'_1_concat, List.foldl_append, hcode, List.range_succ (n := n + 1),
        List.foldl_append, Nat.add_comm 1 n]
      rfl
    · rw [List.range'_1_concat, List.foldl_append, hstandard, List.foldl_cons, List.foldl_nil,
        Aes.round, subBytes_ofBlock, shiftRows_ofBlock, mixColumns_ofBlock, Nat.add_comm 1 n,
        addRoundKey_ofBlock key _ (by omega)]

theorem cipher_eq (key data : Block) : aes128k128d key data = Aes.cipher sbox key data := by
  obtain ⟨b, hcode, hstandard⟩ := rounds_ofBlock key data (Nat.le_refl 9)
  rw [aes128k128d, Aes.cipher, hcode, hstandard, subBytes_ofBlock, shiftRows_ofBlock,
    addRoundKey_ofBlock key _ (Nat.le_refl 10), toBlock_ofBlock]

/-- The table has every byte. -/
theorem sbox_full : sboxTable.toList.length = 256 ∧
    sboxTable.toList.foldl (fun mask a => mask ||| 1 <<< a.toNat) 0 = 2 ^ 256 - 1 := by
  decide +kernel

theorem sbox_surjective : Function.Surjective sbox := by
  intro a
  have hmem : a ∈ sboxTable.toList := by
    apply @mem_of_mask _ _ 0
    · rw [sbox_full.2, Nat.testBit_two_pow_sub_one, decide_eq_true a.toNat_lt]
    · exact Nat.zero_testBit _
  obtain ⟨i, hi, heq⟩ := List.mem_iff_getElem.mp hmem
  have hlt : i < UInt8.size := Nat.lt_of_lt_of_eq hi sbox_full.1
  refine ⟨UInt8.ofNat i, ?_⟩
  rw [sbox, UInt8.toNat_ofNat_of_lt' hlt, Array.getD_eq_getD_getElem?, ← Array.getElem?_toList,
    List.getElem?_eq_getElem hi, heq]
  rfl

theorem sbox_injective : Function.Injective sbox := by
  have hfinite : Finite UInt8 :=
    Finite.of_injective UInt8.toFin fun a b h => UInt8.toFin_inj.mp h
  exact Finite.injective_iff_surjective.mpr sbox_surjective

theorem aes128k128d_injective (key : Block) : Function.Injective (aes128k128d key) := by
  intro a b h
  rw [cipher_eq, cipher_eq] at h
  exact Aes.cipher_injective sbox_injective key h

theorem mixColumn_toField (column : Fin 4 → UInt8) :
    (mixColumn (column 0) (column 1) (column 2) (column 3)).map toField =
      List.ofFn ((Aes.mixMatrix.map toField).mulVec fun r => toField (column r)) := by
  rw [mixColumn_eq, List.map_ofFn, ← Aes.toField_mixColumn]
  rfl

/-- The cipher is AES with the table as S-box; its round keys are those of the expanded key, and
`mix_column` gives the bytes of the product with the matrix over the field. -/
theorem aes128k128d_standard (key data : Block) :
    aes128k128d key data = Aes.cipher sbox key data ∧
      (∀ round ≤ 10, ofBlock ((List.range round).foldl nextKey key) =
        Aes.roundKey sbox key round) ∧
      ∀ (column : Fin 4 → UInt8) (out : List UInt8),
        mixColumn (column 0) (column 1) (column 2) (column 3) = out ↔
          out.map toField =
            List.ofFn ((Aes.mixMatrix.map toField).mulVec fun r => toField (column r)) := by
  refine ⟨cipher_eq key data, fun round h => (roundKey_eq key h).symm, fun column out => ?_⟩
  rw [← mixColumn_toField column]
  constructor
  · rintro rfl
    rfl
  · intro h
    exact (List.map_injective_iff.mpr toField_injective h).symm

end Rtl8188eu
