import StandaloneDrivers.Foundations.CipherModes
import StandaloneDrivers.Rt5572.CcmAuthenticity
import StandaloneDrivers.Rt5572.CcmpBlocks

/-! AES_CCM_Encrypt beside the mode with a counter of two bytes. -/
namespace Rt5572
open Foundations
open Rtl8188eu (sbox sbox_injective)

namespace CcmParams
variable {p : CcmParams}

section Mac

theorem macFlags_eq (hnonce : p.nonce.length = 13)
    (hmac : p.macLength ∈ [4, 6, 8, 10, 12, 14, 16]) :
    p.macFlags = Ccm.flags 2 p.macLength p.aad := by
  have hflags : ∀ n ∈ [4, 6, 8, 10, 12, 14, 16], ∀ bit ∈ [0, 64],
      UInt8.ofNat bit ||| UInt8.ofNat ((n - 2) / 2 * 8) ||| UInt8.ofNat 1 =
        UInt8.ofNat (bit + 8 * ((n - 2) / 2) + 1) := by
    decide
  rw [macFlags, Ccm.flags, hnonce]
  cases haad : p.aad with
  | nil => exact hflags _ hmac 0 (by decide)
  | cons b bs => exact hflags _ hmac 64 (by decide)

theorem controlBlock_eq (hnonce : p.nonce.length = 13)
    (hmac : p.macLength ∈ [4, 6, 8, 10, 12, 14, 16]) (text : List UInt8) :
    p.controlBlock text.length = Ccm.firstBlock 2 p.macLength p.nonce p.aad text := by
  have hfront : (Ccm.flags 2 p.macLength p.aad :: p.nonce).length = 14 := by
    rw [List.length_cons, hnonce]
  apply Vector.ext
  intro i hi
  rw [Ccm.firstBlock, padBlock_getElem _ hi]
  simp only [controlBlock, Vector.getElem_ofFn, hnonce, macFlags_eq hnonce hmac, Nat.lt_irrefl,
    and_false, if_false, show ¬ 13 < 12 by decide]
  rcases Nat.lt_or_ge i 14 with hlt | hge
  · rw [if_neg (by omega), if_neg (by omega), List.getD_append _ _ _ _ (by omega)]
  · rw [List.getD_append_right _ _ _ _ (by omega), hfront]
    rcases Nat.lt_or_ge i 15 with hlt | hge'
    · have h14 : i = 14 := by omega
      rw [if_neg (by omega), if_pos h14, h14]
      rfl
    · have h15 : i = 15 := by omega
      rw [if_pos h15, h15]
      simp [beBytes]

theorem aadBlocks_eq (haad : p.aad.length < 0xff00) : p.aadBlocks = Ccm.aadBlocks p.aad := by
  rw [aadBlocks, Ccm.aadBlocks]
  split
  · rfl
  · rename_i hne
    have hpos : 0 < p.aad.length := List.length_pos_iff.mpr hne
    rw [aadHead, Ccm.aadLength, if_pos haad]
    simp only [hpos, haad, and_self, if_true]
    simp [beBytes]

theorem aesCcmMac_eq (hnonce : p.nonce.length = 13)
    (hmac : p.macLength ∈ [4, 6, 8, 10, 12, 14, 16]) (haad : p.aad.length < 0xff00)
    (text : List UInt8) :
    p.aesCcmMac text = Ccm.mac p.cipher 2 p.macLength p.nonce p.aad text := by
  simp only [aesCcmMac, Ccm.mac, controlBlock_eq hnonce hmac, aadBlocks_eq haad, chain_append]

end Mac

section Counter

/-- The counter is right in its last byte. -/
theorem counter_eq (hnonce : p.nonce.length = 13) (c : ℕ) :
    p.counter c = Ccm.counterBlock 2 p.nonce (c % 256) := by
  have hfront : (UInt8.ofNat (2 - 1) :: p.nonce).length = 14 := by
    rw [List.length_cons, hnonce]
  have hhigh : c % 256 / 256 = 0 := by omega
  apply Vector.ext
  intro i hi
  rw [Ccm.counterBlock, padBlock_getElem _ hi]
  simp only [counter, counterBlock, Vector.getElem_set, padBlock_getElem _ hi, hnonce,
    padBlock_getElem _ (show 15 < 16 by decide)]
  rcases Nat.lt_or_ge i 14 with hlt | hge
  · rw [if_neg (by omega), List.getD_append _ _ _ _ (by omega)]
  · rw [List.getD_append_right _ _ _ _ (by omega), hfront]
    rcases Nat.lt_or_ge i 15 with hlt | hge'
    · have h14 : i = 14 := by omega
      rw [if_neg (by omega), h14, List.getD_eq_default _ _ (by simp [hnonce])]
      simp [beBytes, hhigh]
    · have h15 : i = 15 := by omega
      rw [if_pos h15.symm, h15, List.getD_eq_default _ _ (by simp [hnonce])]
      have hbyte : UInt8.ofNat c = UInt8.ofNat (c % 256) :=
        UInt8.toNat_inj.mp (by rw [UInt8.toNat_ofNat', UInt8.toNat_ofNat', Nat.mod_mod])
      simp [beBytes, hbyte]

/-- The blocks that are enciphered for one message: for the code, then in each round. -/
def counterBlocks (p : CcmParams) (text : List UInt8) : List CipherBlock :=
  p.counterBlock :: (List.range ((text.length + 15) / 16)).map fun i =>
    ((List.range (i + 1)).foldl (p.cipherRound text) (p.counterBlock, [])).1

theorem counterBlocks_eq (text : List UInt8) :
    p.counterBlocks text = (List.range ((text.length + 15) / 16 + 1)).map p.counter := by
  rw [counterBlocks, List.range_succ_eq_map, List.map_cons, List.map_map, counter_zero]
  refine congrArg (p.counterBlock :: ·) (List.map_congr_left fun i hi => ?_)
  have hlt := List.mem_range.mp hi
  rw [cipherRound_run p text (by omega)]
  rfl

theorem counterBlocks_nodup_iff (hnonce : p.nonce.length = 13) (text : List UInt8) :
    (p.counterBlocks text).Nodup ↔ text.length ≤ 4080 := by
  rw [counterBlocks_eq, List.nodup_map_iff_inj_on List.nodup_range]
  constructor
  · intro hinj
    by_contra hlong
    have hsame : p.counter 0 = p.counter 256 := by
      rw [counter_eq hnonce, counter_eq hnonce]
    have hzero := hinj 0 (List.mem_range.mpr (by omega)) 256 (List.mem_range.mpr (by omega)) hsame
    cases hzero
  · intro hshort i hi j hj h
    have hi' := List.mem_range.mp hi
    have hj' := List.mem_range.mp hj
    rw [counter_eq hnonce, counter_eq hnonce, Nat.mod_eq_of_lt (show i < 256 by omega),
      Nat.mod_eq_of_lt (show j < 256 by omega)] at h
    exact Ccm.counterBlock_injOn (by rw [hnonce]) (by omega) (by omega) h

end Counter
section Conformity
variable (key : CipherBlock) (nonce aad : List UInt8) (macLength : ℕ) (text : List UInt8)

/-- A message under a key of 16 bytes. -/
def ofKey : CcmParams := ⟨key.toList, nonce, aad, macLength⟩

/-- The ciphertext is the one of the mode over AES, and no block of the key stream is used twice. -/
def Conforms (size : ℕ) : Prop :=
  (ofKey key nonce aad macLength).aesCcmEncrypt text size =
      .ok (Ccm.encrypt (Aes.cipher sbox key) 2 macLength nonce aad text) ∧
    ((ofKey key nonce aad macLength).counterBlocks text).Nodup

/-- The last block of key stream, of fewer than 16 bytes, is by chance that of number 256. -/
def ByChance : Prop :=
  ∀ j : Fin 16, 4080 + j < text.length →
    getElem (Aes.cipher sbox key (Ccm.counterBlock 2 nonce 0)) j (val_lt_sixteen j) =
      getElem (Aes.cipher sbox key (Ccm.counterBlock 2 nonce 256)) j (val_lt_sixteen j)

variable {key nonce aad macLength text}

theorem ofKey_cipher : (ofKey key nonce aad macLength).cipher = Aes.cipher sbox key := by
  funext b
  rw [cipher, ofKey, cipherBlock_eq, aes128k128d, Rtl8188eu.cipher_eq]

/-- From number 256 on the counter starts again with the block that masks the code. -/
theorem sameStream_iff (hnonce : nonce.length = 13) (hlen : text.length ≤ 7935) :
    SameStream (Aes.cipher sbox key) (ofKey key nonce aad macLength).counter
        (Ccm.counterBlock 2 nonce) text.length ↔
      text.length ≤ 4080 ∨ text.length < 4096 ∧ ByChance key nonce text := by
  have hcounter : ∀ c, (ofKey key nonce aad macLength).counter c =
      Ccm.counterBlock 2 nonce (c % 256) := counter_eq hnonce
  constructor
  · intro hsame
    rcases Nat.lt_or_ge 4080 text.length with hlong | hshort
    · right
      have hchance : ByChance key nonce text := by
        intro j hj
        have hbyte := hsame 256 (by decide) j hj
        rwa [hcounter] at hbyte
      refine ⟨?_, hchance⟩
      by_contra hfull
      have hblocks : Aes.cipher sbox key (Ccm.counterBlock 2 nonce 0) =
          Aes.cipher sbox key (Ccm.counterBlock 2 nonce 256) := by
        apply Vector.ext
        intro j hj
        exact hchance ⟨j, hj⟩ (by simp only; omega)
      have hcounters := Aes.cipher_injective sbox_injective key hblocks
      have hzero := Ccm.counterBlock_injOn (by rw [hnonce]) (by decide) (by decide) hcounters
      cases hzero
    · exact Or.inl hshort
  · intro hcase c hpos j hj
    rw [hcounter]
    rcases Nat.lt_or_ge c 256 with hlt | hge
    · rw [Nat.mod_eq_of_lt hlt]
    · rcases hcase with hshort | ⟨hcut, hchance⟩
      · omega
      · have h256 : c = 256 := by omega
        subst h256
        exact hchance j (by omega)

variable (hnonce : nonce.length = 13) (hmac : macLength ∈ [4, 6, 8, 10, 12, 14, 16])
  (haad : aad.length < 0xff00) (hlen : text.length ≤ 7935) {size : ℕ}
  (hroom : text.length + macLength ≤ size)
include hnonce hmac haad hlen hroom

theorem cipherText_conforms_iff :
    (ofKey key nonce aad macLength).aesCcmEncrypt text size =
        .ok (Ccm.encrypt (Aes.cipher sbox key) 2 macLength nonce aad text) ↔
      text.length ≤ 4080 ∨ text.length < 4096 ∧ ByChance key nonce text := by
  have hcheck : (ofKey key nonce aad macLength).checkInput = .ok () :=
    checkInput_ok Vector.length_toList (by show 7 ≤ nonce.length; omega)
      (by show nonce.length ≤ 13; omega) hmac
  have hcode : (ofKey key nonce aad macLength).aesCcmMac text =
      Ccm.mac (Aes.cipher sbox key) 2 macLength nonce aad text := by
    rw [aesCcmMac_eq hnonce hmac haad, ofKey_cipher]
    rfl
  have hmask : (ofKey key nonce aad macLength).counter 0 = Ccm.counterBlock 2 nonce 0 :=
    counter_eq hnonce 0
  rw [aesCcmEncrypt_eq hcheck text hroom, ofKey_cipher, sealText, hcode, hmask, Ccm.encrypt,
    sealText, ← sameStream_iff hnonce hlen, ← streamXor_eq_iff]
  constructor
  · intro h
    exact List.append_cancel_right (Except.ok.inj h)
  · intro h
    rw [h]

theorem conforms_iff_short : Conforms key nonce aad macLength text size ↔ text.length ≤ 4080 := by
  rw [Conforms, cipherText_conforms_iff hnonce hmac haad hlen hroom,
    @counterBlocks_nodup_iff (ofKey key nonce aad macLength) hnonce]
  exact ⟨fun h => h.2, fun h => ⟨Or.inl h, h⟩⟩

end Conformity
/-- Up to 255 blocks the ciphertext is that of the mode, under counter blocks that differ. Beyond
them a block is used twice, and the ciphertext is right only by chance, and only for a last block
that is not full. -/
theorem aesCcmEncrypt_conforms_iff (key : CipherBlock) (nonce aad : List UInt8) (macLength : ℕ)
    (text : List UInt8) (size : ℕ) (hnonce : nonce.length = 13)
    (hmac : macLength ∈ [4, 6, 8, 10, 12, 14, 16]) (haad : aad.length < 0xff00)
    (hlen : text.length ≤ 7935) (hroom : text.length + macLength ≤ size) :
    (Conforms key nonce aad macLength text size ↔ text.length ≤ 4080) ∧
      ((ofKey key nonce aad macLength).aesCcmEncrypt text size =
          .ok (Ccm.encrypt (Aes.cipher sbox key) 2 macLength nonce aad text) ↔
        text.length ≤ 4080 ∨ text.length < 4096 ∧ ByChance key nonce text) :=
  ⟨conforms_iff_short hnonce hmac haad hlen hroom, cipherText_conforms_iff hnonce hmac haad hlen
    hroom⟩

section Example

def zeroKey : CipherBlock := Vector.replicate 16 0

def zeroNonce : List UInt8 := List.replicate 13 0

theorem aesCcmEncrypt_conforms_byte : Conforms zeroKey zeroNonce [] 8 [0x61] 9 :=
  ((aesCcmEncrypt_conforms_iff zeroKey zeroNonce [] 8 [0x61] 9 rfl (by decide) (by decide)
    (by decide) (by decide)).1).mpr (by decide)

/-- A text of 256 blocks. -/
theorem aesCcmEncrypt_differs : ¬ Conforms zeroKey zeroNonce [] 8 (List.replicate 4096 0) 4104 := by
  have hlen : (List.replicate 4096 (0 : UInt8)).length = 4096 := List.length_replicate
  rintro ⟨hcipher, -⟩
  rw [cipherText_conforms_iff rfl (by decide) (by decide) (by rw [hlen]; decide)
    (by rw [hlen]), hlen] at hcipher
  rcases hcipher with h | ⟨h, -⟩
  · exact absurd h (by decide)
  · exact absurd h (by decide)

end Example
end CcmParams
end Rt5572
